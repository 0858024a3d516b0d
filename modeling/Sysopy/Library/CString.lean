import Mathlib.Data.List.TakeWhile
import Mathlib.Data.Vector.Basic
import Mathlib.Tactic

/-!
# Fixed-size C strings

A `char name[n]` holds the string of its bytes before the first NUL, or all `n`
bytes when there is none. `strncmp` with bound `n` compares these strings, and
`strncpy` with bound `n` copies them and fills the rest with NUL.
-/
namespace Sysopy.CString

variable {n : ℕ}

/-- The string that the bytes of a `char` array spell. -/
def contents (bytes : List UInt8) : List UInt8 := bytes.takeWhile (· ≠ 0)

/-- `strncmp` on two arrays whose common size is the bound: the difference at
the first place where they differ, unless a NUL in both comes first. -/
def strncmp : List UInt8 → List UInt8 → ℤ
  | a :: as, b :: bs =>
    if a ≠ b then (a.toNat : ℤ) - b.toNat
    else if a = 0 then 0
    else strncmp as bs
  | _, _ => 0

/-- `strncpy` into an array of size `n`. -/
def strncpy (n : ℕ) (src : List UInt8) : List UInt8 :=
  let copied := (contents src).take n
  copied ++ List.replicate (n - copied.length) 0

theorem contents_length_le (bytes : List UInt8) : (contents bytes).length ≤ bytes.length :=
  (List.takeWhile_sublist _).length_le

@[simp] theorem contents_nil : contents [] = [] := rfl

@[simp] theorem contents_cons_zero (bytes : List UInt8) : contents (0 :: bytes) = [] := rfl

theorem contents_cons {a : UInt8} (ha : a ≠ 0) (bytes : List UInt8) :
    contents (a :: bytes) = a :: contents bytes := by
  simp [contents, ha]

@[simp] theorem contents_contents (bytes : List UInt8) :
    contents (contents bytes) = contents bytes :=
  List.takeWhile_idem

theorem contents_of_notMem {s : List UInt8} (h : 0 ∉ s) : contents s = s := by
  apply List.takeWhile_eq_self_iff.mpr
  intro c hc
  rw [decide_eq_true_eq]
  exact fun hzero => h (hzero ▸ hc)

/-- Comparing up to the bound decides equality of the strings. -/
theorem strncmp_eq_zero_iff : ∀ (as bs : List UInt8), as.length = bs.length →
    (strncmp as bs = 0 ↔ contents as = contents bs)
  | [], [], _ => by simp [strncmp]
  | a :: as, b :: bs, hlen => by
    have hrec := strncmp_eq_zero_iff as bs (by simpa using hlen)
    by_cases hab : a = b
    · subst hab
      by_cases ha : a = 0
      · subst ha
        simp [strncmp]
      · simp only [strncmp, ne_eq, not_true_eq_false, if_false, ha, hrec, contents_cons ha,
          List.cons.injEq, true_and]
    · have hne : (a.toNat : ℤ) - b.toNat ≠ 0 := by
        intro h
        apply hab
        apply UInt8.toNat_inj.mp
        omega
      have hcontents : contents (a :: as) ≠ contents (b :: bs) := by
        by_cases ha : a = 0
        · have hb : b ≠ 0 := fun hb => hab (ha.trans hb.symm)
          simp [ha, contents_cons hb]
        · by_cases hb : b = 0
          · simp [hb, contents_cons ha]
          · simp [contents_cons ha, contents_cons hb, hab]
      simp only [strncmp, ne_eq, hab, not_false_eq_true, if_true, hne, hcontents]

theorem length_strncpy (n : ℕ) (src : List UInt8) : (strncpy n src).length = n := by
  simp only [strncpy, List.length_append, List.length_replicate, List.length_take]
  omega

theorem contents_append {s : List UInt8} (hs : ∀ c ∈ s, c ≠ 0) (rest : List UInt8) :
    contents (s ++ rest) = s ++ contents rest := by
  rw [contents, List.takeWhile_append_of_pos]
  · rfl
  · simpa using hs

theorem contents_append_zeros (s : List UInt8) (hs : ∀ c ∈ s, c ≠ 0) (k : ℕ) :
    contents (s ++ List.replicate k 0) = s := by
  have hzeros : contents (List.replicate k 0) = [] := by
    cases k <;> simp [List.replicate_succ]
  rw [contents_append hs, hzeros, List.append_nil]

theorem ne_zero_of_mem_contents {c : UInt8} {bytes : List UInt8} (hc : c ∈ contents bytes) :
    c ≠ 0 := by
  simpa using List.mem_takeWhile_imp hc

theorem contents_strncpy (src : List UInt8) (hlen : src.length ≤ n) :
    contents (strncpy n src) = contents src := by
  have htake : (contents src).take n = contents src :=
    List.take_of_length_le ((contents_length_le src).trans hlen)
  simp only [strncpy, htake]
  exact contents_append_zeros _ (fun c hc => ne_zero_of_mem_contents hc) _

/-- `strrchr`: the string from the last occurrence of the character on. -/
def strrchr (c : UInt8) : List UInt8 → Option (List UInt8)
  | [] => none
  | d :: s =>
    match strrchr c s with
    | some suffix => some suffix
    | none => if d = c then some (d :: s) else none

theorem strrchr_eq_none_iff {c : UInt8} {s : List UInt8} : strrchr c s = none ↔ c ∉ s := by
  induction s with
  | nil => simp [strrchr]
  | cons d s ih =>
    rw [strrchr, List.mem_cons, not_or, ← ih]
    cases strrchr c s with
    | some suffix => simp
    | none => simp [eq_comm]

/-- The string from the last occurrence on ends the string. -/
theorem strrchr_eq_some_iff {c : UInt8} {s rest : List UInt8} (hrest : c ∉ rest) :
    strrchr c s = some (c :: rest) ↔ c :: rest <:+ s := by
  induction s with
  | nil => simp [strrchr]
  | cons d s ih =>
    rw [strrchr, List.suffix_cons_iff, ← ih]
    cases hs : strrchr c s with
    | some suffix =>
      have hmem : c ∈ s := by
        by_contra h
        cases hs.symm.trans (strrchr_eq_none_iff.mpr h)
      have hne : c :: rest ≠ d :: s := by
        rintro ⟨⟩
        exact hrest hmem
      simp [hne]
    | none => grind

/-! ## Strings written into an array -/

/-- `strcpy` of a string, also `sprintf` with this output; `none` when the string and its NUL
do not fit. -/
def strcpy (dst src : List UInt8) : Option (List UInt8) :=
  if src.length < dst.length then some (src ++ 0 :: dst.drop (src.length + 1)) else none

def strcat (dst src : List UInt8) : Option (List UInt8) := strcpy dst (contents dst ++ src)

section Strcpy

variable {dst src buf : List UInt8}

theorem contents_append_zero (hsrc : 0 ∉ src) (rest : List UInt8) :
    contents (src ++ 0 :: rest) = src := by
  rw [contents_append fun c hc hzero => hsrc (hzero ▸ hc), contents_cons_zero, List.append_nil]

theorem contents_append_of_mem {bytes : List UInt8} (h : 0 ∈ bytes) (rest : List UInt8) :
    contents (bytes ++ rest) = contents bytes := by
  obtain ⟨s, after, rfl, hs⟩ := List.eq_append_cons_of_mem h
  rw [List.append_assoc, List.cons_append, contents_append_zero hs, contents_append_zero hs]

theorem strncpy_append {n : ℕ} (hsrc : 0 ∉ src) (hfits : src.length ≤ n) (rest : List UInt8) :
    strncpy n (src ++ rest) = src ++ strncpy (n - src.length) rest := by
  have hcontents := contents_append (fun c hc hzero => hsrc (hzero ▸ hc)) rest
  simp only [strncpy, hcontents, List.take_append, List.take_of_length_le hfits,
    List.length_append, List.append_assoc, Nat.sub_add_eq]

theorem strncpy_eq_self (hsrc : 0 ∉ src) : strncpy src.length src = src := by
  rw [strncpy, contents_of_notMem hsrc, List.take_length, Nat.sub_self, List.replicate_zero,
    List.append_nil]

theorem zero_notMem_contents (bytes : List UInt8) : 0 ∉ contents bytes :=
  fun hmem => ne_zero_of_mem_contents hmem rfl

/-- What a copy leaves in the array. -/
theorem contents_of_strcpy (hsrc : 0 ∉ src) (h : strcpy dst src = some buf) :
    src.length < dst.length ∧ buf.length = dst.length ∧ contents buf = src := by
  unfold strcpy at h
  split_ifs at h with hlt
  obtain rfl := Option.some.inj h
  refine ⟨hlt, ?_, contents_append_zero hsrc _⟩
  rw [List.length_append, List.length_cons, List.length_drop]
  omega

theorem contents_of_strcat (hsrc : 0 ∉ src) (h : strcat dst src = some buf) :
    (contents dst ++ src).length < dst.length ∧ buf.length = dst.length ∧
      contents buf = contents dst ++ src :=
  contents_of_strcpy (by simpa using ⟨zero_notMem_contents dst, hsrc⟩) h

theorem strcpy_isSome_iff : (strcpy dst src).isSome ↔ src.length < dst.length := by
  unfold strcpy
  split_ifs with h <;> simp [h]

theorem strcat_isSome_iff :
    (strcat dst src).isSome ↔ (contents dst).length + src.length < dst.length := by
  rw [strcat, strcpy_isSome_iff, List.length_append]

theorem zero_mem_take_iff {n : ℕ} : 0 ∈ dst.take n ↔ (contents dst).length < min n dst.length := by
  induction dst generalizing n with
  | nil => simp
  | cons c dst ih =>
    cases n with
    | zero => simp
    | succ n =>
      rw [List.take_succ_cons, List.mem_cons, ih]
      by_cases hc : c = 0
      · simp [hc]
      · rw [contents_cons hc]
        simp only [List.length_cons, Ne.symm hc, false_or]
        omega

end Strcpy

end Sysopy.CString
