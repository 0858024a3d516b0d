import Mathlib.Data.Int.Basic
import Mathlib.Data.List.TakeWhile
import Mathlib.Tactic

/-!
# C integers

`toInt` is the value that a `long` takes in an `int` variable, `strtol` the number
at the start of a string in base 10, and `decimal` what `printf` writes for `%d`.
Reading a number back gives the number.
-/
namespace Sysopy.CInteger

abbrev INT_MAX : ℤ := 2 ^ 31 - 1
abbrev LONG_MAX : ℤ := 2 ^ 63 - 1
abbrev LONG_MIN : ℤ := -2 ^ 63

/-- Conversion to a 32-bit `int`, which keeps the low bits. -/
def toInt (x : ℤ) : ℤ := x.bmod (2 ^ 32)

theorem toInt_eq_self {x : ℤ} (hlow : -2 ^ 31 ≤ x) (hhigh : x ≤ INT_MAX) : toInt x = x := by
  unfold toInt
  apply Int.bmod_eq_of_le_mul_two
  · omega
  · simp only [INT_MAX] at hhigh
    omega

theorem toInt_of_nat {n : ℕ} (h : n < 2 ^ 31) : toInt n = n := by
  apply toInt_eq_self
  · omega
  · simp only [INT_MAX]
    omega

theorem toInt_toInt (x : ℤ) : toInt (toInt x) = toInt x := Int.bmod_bmod

theorem toInt_add_left (x y : ℤ) : toInt (toInt x + y) = toInt (x + y) := Int.bmod_add_bmod

theorem toInt_lt (x : ℤ) : toInt x < 2 ^ 31 := by
  unfold toInt
  have hlt := Int.bmod_lt (x := x) (m := 2 ^ 32) (by norm_num)
  omega

theorem neg_le_toInt (x : ℤ) : -2 ^ 31 ≤ toInt x := by
  unfold toInt
  have hle := Int.le_bmod (x := x) (m := 2 ^ 32) (by norm_num)
  omega

theorem toInt_of_le {n : ℕ} (hlow : 2 ^ 31 ≤ n) (hhigh : n < 2 ^ 32) :
    toInt n = (n : ℤ) - 2 ^ 32 := by
  unfold toInt
  rw [Int.bmod_def]
  omega

def isspace (c : UInt8) : Bool := c = 32 ∨ 9 ≤ c ∧ c ≤ 13

def isdigit (c : UInt8) : Bool := 48 ≤ c ∧ c ≤ 57

/-- The value of a string of digits. -/
def digitsValue (digits : List UInt8) : ℕ :=
  digits.foldl (fun value c => 10 * value + (c.toNat - 48)) 0

/-- `strtol` in base 10: white space, a sign and digits; what follows is ignored,
and a value outside of `long` becomes the nearest `long`. -/
def strtol (s : List UInt8) : ℤ :=
  match s.dropWhile isspace with
  | 45 :: s => max LONG_MIN (-digitsValue (s.takeWhile isdigit))
  | 43 :: s => min LONG_MAX (digitsValue (s.takeWhile isdigit))
  | s => min LONG_MAX (digitsValue (s.takeWhile isdigit))

@[simp] theorem strtol_nil : strtol [] = 0 := rfl

def digits (n : ℕ) : List UInt8 := (Nat.toDigits 10 n).map fun c => c.toNat.toUInt8

/-- `printf` with `%d`. -/
def decimal (x : ℤ) : List UInt8 := if x < 0 then 45 :: digits (-x).toNat else digits x.toNat

theorem digits_of_lt {n : ℕ} (h : n < 10) : digits n = [48 + n.toUInt8] := by
  interval_cases n <;> decide

theorem digits_of_le {n : ℕ} (h : 10 ≤ n) :
    digits n = digits (n / 10) ++ [48 + (n % 10).toUInt8] := by
  have hlast := digits_of_lt (Nat.mod_lt n (by decide : 10 > 0))
  rw [digits, Nat.toDigits_of_lt_base (Nat.mod_lt n (by decide))] at hlast
  rw [digits, Nat.toDigits_of_base_le (by decide) h, List.map_append, ← hlast]
  rfl

theorem isdigit_digit {d : ℕ} (h : d < 10) :
    isdigit (48 + d.toUInt8) = true ∧ (48 + d.toUInt8).toNat - 48 = d := by
  interval_cases d <;> decide

theorem isdigit_of_mem_digits (n : ℕ) : ∀ c ∈ digits n, isdigit c = true := by
  induction n using Nat.strong_induction_on with
  | h n ih =>
    intro c hc
    rcases Nat.lt_or_ge n 10 with h | h
    · rw [digits_of_lt h, List.mem_singleton] at hc
      exact hc ▸ (isdigit_digit h).1
    · rw [digits_of_le h, List.mem_append, List.mem_singleton] at hc
      rcases hc with hc | hc
      · exact ih (n / 10) (Nat.div_lt_self (by omega) (by decide)) c hc
      · exact hc ▸ (isdigit_digit (Nat.mod_lt n (by decide))).1

theorem mem_decimal {x : ℤ} {c : UInt8} (h : c ∈ decimal x) : c = 45 ∨ isdigit c = true := by
  unfold decimal at h
  split_ifs at h
  · exact (List.mem_cons.mp h).imp_right (isdigit_of_mem_digits _ c)
  · exact .inr (isdigit_of_mem_digits _ c h)

theorem digitsValue_digits (n : ℕ) : digitsValue (digits n) = n := by
  induction n using Nat.strong_induction_on with
  | h n ih =>
    rcases Nat.lt_or_ge n 10 with h | h
    · rw [digits_of_lt h, digitsValue, List.foldl_cons, List.foldl_nil, (isdigit_digit h).2]
      omega
    · have hrec := ih (n / 10) (Nat.div_lt_self (by omega) (by decide))
      have hlast := (isdigit_digit (Nat.mod_lt n (by decide : 10 > 0))).2
      rw [digitsValue] at hrec
      rw [digits_of_le h, digitsValue, List.foldl_append, hrec, List.foldl_cons, List.foldl_nil,
        hlast]
      omega

theorem digits_ne_nil (n : ℕ) : digits n ≠ [] := by
  rcases Nat.lt_or_ge n 10 with h | h
  · simp [digits_of_lt h]
  · simp [digits_of_le h]

theorem isspace_of_isdigit {c : UInt8} (hc : isdigit c = true) : isspace c = false := by
  simp only [isdigit, decide_eq_true_eq] at hc
  simp only [isspace, decide_eq_false_iff_not]
  rintro (rfl | ⟨_, h⟩)
  · exact absurd hc.1 (by decide)
  · exact absurd (UInt8.le_trans hc.1 h) (by decide)

theorem length_decimal_le {x : ℤ} (hlow : -2 ^ 31 ≤ x) (hhigh : x ≤ INT_MAX) :
    (decimal x).length ≤ 11 := by
  have hdigits : ∀ n : ℕ, n ≤ 2 ^ 31 → (digits n).length ≤ 10 := by
    intro n hn
    rw [digits, List.length_map, Nat.length_toDigits_le_iff (by decide) (by decide)]
    omega
  simp only [INT_MAX] at hhigh
  unfold decimal
  split_ifs
  · have h := hdigits (-x).toNat (by omega)
    rw [List.length_cons]
    omega
  · have h := hdigits x.toNat (by omega)
    omega

theorem strtol_of_isdigit {s : List UInt8} (hne : s ≠ []) (hs : ∀ c ∈ s, isdigit c = true) :
    strtol s = min LONG_MAX (digitsValue s) := by
  obtain ⟨c, s, rfl⟩ := List.exists_cons_of_ne_nil hne
  have hc := hs c (by simp)
  have hfirst : isspace c = false ∧ c ≠ 45 ∧ c ≠ 43 := by
    simp only [isdigit, decide_eq_true_eq] at hc
    refine ⟨isspace_of_isdigit (hs c (by simp)), ?_, ?_⟩
    · rintro rfl
      exact absurd hc.1 (by decide)
    · rintro rfl
      exact absurd hc.1 (by decide)
  have hdrop : (c :: s).dropWhile isspace = c :: s := by
    rw [List.dropWhile_cons_of_neg]
    simp [hfirst.1]
  have htake : (c :: s).takeWhile isdigit = c :: s := List.takeWhile_eq_self_iff.mpr hs
  unfold strtol
  rw [hdrop]
  split
  · rename_i heq
    exact absurd (List.cons.inj heq).1 hfirst.2.1
  · rename_i heq
    exact absurd (List.cons.inj heq).1 hfirst.2.2
  · rw [htake]

theorem strtol_decimal {x : ℤ} (hlow : LONG_MIN ≤ x) (hhigh : x ≤ LONG_MAX) :
    strtol (decimal x) = x := by
  unfold decimal
  split_ifs with hneg
  · have hspace : isspace 45 = false := by decide
    have htake : (digits (-x).toNat).takeWhile isdigit = digits (-x).toNat :=
      List.takeWhile_eq_self_iff.mpr (isdigit_of_mem_digits _)
    rw [strtol, List.dropWhile_cons_of_neg (by simp [hspace])]
    simp only [htake, digitsValue_digits]
    omega
  · rw [strtol_of_isdigit (digits_ne_nil _) (isdigit_of_mem_digits _), digitsValue_digits]
    omega

theorem strtol_decimal_append (x : ℤ) {c : UInt8} (hc : isdigit c = false) (rest : List UInt8) :
    strtol (decimal x ++ c :: rest) = strtol (decimal x) := by
  have htake : ∀ s : List UInt8, (s ++ c :: rest).takeWhile isdigit = s.takeWhile isdigit := by
    intro s
    induction s with
    | nil => simp [hc]
    | cons d s ih =>
      rw [List.cons_append]
      cases hd : isdigit d
      · simp [hd]
      · simp [hd, ih]
  obtain ⟨d, s, hds, hspace⟩ : ∃ d s, decimal x = d :: s ∧ isspace d = false := by
    unfold decimal
    split_ifs
    · exact ⟨45, _, rfl, by decide⟩
    · obtain ⟨d, s, hds⟩ := List.exists_cons_of_ne_nil (digits_ne_nil x.toNat)
      have hd := isdigit_of_mem_digits x.toNat d (by rw [hds]; exact List.mem_cons_self)
      exact ⟨d, s, hds, isspace_of_isdigit hd⟩
  have hdrop : ∀ t, (d :: t).dropWhile isspace = d :: t := fun t =>
    List.dropWhile_cons_of_neg (by simp [hspace])
  have hdigits := htake (d :: s)
  rw [List.cons_append] at hdigits
  rw [hds, List.cons_append, strtol, strtol, hdrop, hdrop]
  split
  · rename_i heq
    obtain ⟨rfl, rfl⟩ := List.cons.inj heq
    simp only [htake]
  · rename_i heq
    obtain ⟨rfl, rfl⟩ := List.cons.inj heq
    simp only [htake]
  · rename_i hminus hplus
    split
    · rename_i heq
      obtain ⟨rfl, rfl⟩ := List.cons.inj heq
      exact absurd rfl (hminus _)
    · rename_i heq
      obtain ⟨rfl, rfl⟩ := List.cons.inj heq
      exact absurd rfl (hplus _)
    · rw [hdigits]

/-- An `int` survives being printed and read back. -/
theorem toInt_strtol_decimal {x : ℤ} (hlow : -2 ^ 31 ≤ x) (hhigh : x ≤ INT_MAX) :
    toInt (strtol (decimal x)) = x := by
  rw [strtol_decimal (by simp only [LONG_MIN]; omega)
    (by simp only [INT_MAX] at hhigh; simp only [LONG_MAX]; omega), toInt_eq_self hlow hhigh]

/-! ## Spellings -/

/-- A number as it may be written: white space, a sign and digits. -/
structure Spelling where
  blanks : List UInt8
  sign : Option UInt8
  digits : List UInt8
  isspace_of_mem : ∀ c ∈ blanks, isspace c = true
  sign_eq : ∀ c ∈ sign, c = 43 ∨ c = 45
  digits_ne_nil : digits ≠ []
  isdigit_of_mem : ∀ c ∈ digits, isdigit c = true

namespace Spelling

/-- A number without a sign. -/
def unsigned (blanks digits : List UInt8) (hblanks : blanks.all isspace = true)
    (hdigits : digits ≠ [] ∧ digits.all isdigit = true) : Spelling where
  blanks := blanks
  sign := none
  digits := digits
  isspace_of_mem := List.all_eq_true.mp hblanks
  sign_eq := by simp
  digits_ne_nil := hdigits.1
  isdigit_of_mem := List.all_eq_true.mp hdigits.2

variable (s : Spelling)

def text : List UInt8 := s.blanks ++ s.sign.toList ++ s.digits

def value : ℤ := if s.sign = some 45 then -digitsValue s.digits else digitsValue s.digits

theorem zero_notMem_text : 0 ∉ s.text := by
  intro hmem
  rcases List.mem_append.mp hmem with hmem | hmem
  · rcases List.mem_append.mp hmem with hmem | hmem
    · exact absurd (s.isspace_of_mem 0 hmem) (by decide)
    · exact absurd (s.sign_eq 0 (Option.mem_toList.mp hmem)) (by decide)
  · exact absurd (s.isdigit_of_mem 0 hmem) (by decide)

theorem mem_text (hblanks : s.blanks = []) {c : UInt8} (hc : c ∈ s.text) :
    c = 43 ∨ c = 45 ∨ isdigit c = true := by
  rw [text, hblanks, List.nil_append, List.mem_append] at hc
  rcases hc with hc | hc
  · exact (s.sign_eq c (Option.mem_toList.mp hc)).imp_right .inl
  · exact .inr (.inr (s.isdigit_of_mem c hc))

theorem text_ne_nil : s.text ≠ [] := fun h => s.digits_ne_nil (List.append_eq_nil_iff.mp h).2

/-- A spelling is read in full. -/
theorem strtol_append {rest : List UInt8} (hrest : rest.takeWhile isdigit = []) :
    strtol (s.text ++ rest) = max LONG_MIN (min LONG_MAX s.value) := by
  have htake : (s.digits ++ rest).takeWhile isdigit = s.digits := by
    rw [List.takeWhile_append_of_pos s.isdigit_of_mem, hrest, List.append_nil]
  have hblanks : (s.text ++ rest).dropWhile isspace =
      (s.sign.toList ++ (s.digits ++ rest)).dropWhile isspace := by
    rw [text, List.append_assoc, List.append_assoc,
      List.dropWhile_append_of_pos s.isspace_of_mem]
  obtain ⟨d, ds, hdigits⟩ := List.exists_cons_of_ne_nil s.digits_ne_nil
  have hd := s.isdigit_of_mem d (by simp [hdigits])
  rw [strtol, hblanks, value]
  cases hsign : s.sign with
  | none =>
    have hfirst : d ≠ 45 ∧ d ≠ 43 := by
      constructor
      · rintro rfl
        exact absurd hd (by decide)
      · rintro rfl
        exact absurd hd (by decide)
    have hdrop : (s.digits ++ rest).dropWhile isspace = s.digits ++ rest := by
      rw [hdigits, List.cons_append, List.dropWhile_cons_of_neg]
      simp [isspace_of_isdigit hd]
    rw [Option.toList_none, List.nil_append, hdrop, if_neg (by simp)]
    have hnonneg : LONG_MIN ≤ min LONG_MAX (digitsValue s.digits : ℤ) := by
      simp only [LONG_MIN, LONG_MAX]
      omega
    rw [max_eq_right hnonneg]
    split
    · rename_i heq
      rw [hdigits] at heq
      exact absurd (List.cons.inj heq).1 hfirst.1
    · rename_i heq
      rw [hdigits] at heq
      exact absurd (List.cons.inj heq).1 hfirst.2
    · rw [htake]
  | some c =>
    rcases s.sign_eq c (by simp [hsign]) with rfl | rfl
    · rw [Option.toList_some, List.singleton_append,
        List.dropWhile_cons_of_neg (by decide), if_neg (by decide)]
      simp only [htake, LONG_MIN, LONG_MAX]
      omega
    · rw [Option.toList_some, List.singleton_append,
        List.dropWhile_cons_of_neg (by decide), if_pos rfl]
      simp only [htake, LONG_MIN, LONG_MAX]
      omega

end Spelling

end Sysopy.CInteger
