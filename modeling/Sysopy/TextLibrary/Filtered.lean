import Mathlib.Analysis.Real.Sqrt
import Sysopy.Library.Chunks
import Sysopy.TextLibrary.Results

/-!
# What `filterNumbers` writes for the numbers of a file

Of the line of a number as many bytes are written as the number has digits, and one more. The
line is copied in full where it is no longer than that, so without blanks, a plus sign or zeros
in front, unless its newline is missing. Close to the end of the range the nearest root has a
square that is no `int`, and a negative number has no root.
-/
namespace Sysopy.TextLibrary

open CInteger CString CText Chunks

/-- What the C library has for `(int) round(sqrt((double) number))`, where it is defined. -/
def Rounds (root : ℤ → ℤ) : Prop :=
  ∀ x, 0 ≤ x → x ≤ INT_MAX → root x = round √(x : ℝ)

/-- The line holds one number. -/
def HoldsInt (line : List UInt8) : Prop :=
  ∃ s : Spelling, (line = s.text ∨ line = s.text ++ [NEWLINE]) ∧
    -2 ^ 31 ≤ s.value ∧ s.value ≤ INT_MAX

/-! ## Numbers and their digits -/

section Digits

theorem numberSize_of_neg {n : ℤ} (hn : n < 0) : numberSize n = 1 := by
  have hdiv : n.tdiv 10 = -((-n) / 10) := by
    rw [← Int.tdiv_eq_ediv_of_nonneg (by omega), Int.neg_tdiv, Int.neg_neg]
  rw [numberSize, dif_neg (by omega)]

theorem numberSize_natCast (n : ℕ) : numberSize n = (digits n).length := by
  induction n using Nat.strong_induction_on with
  | h n ih =>
    have hdiv : (n : ℤ).tdiv 10 = (n / 10 : ℕ) := by
      rw [Int.tdiv_eq_ediv_of_nonneg (Int.natCast_nonneg _), Int.natCast_ediv]
      rfl
    rw [numberSize, hdiv]
    rcases Nat.lt_or_ge n 10 with hlt | hle
    · rw [dif_neg (by omega), digits_of_lt hlt]
      rfl
    · rw [dif_pos (by omega), ih _ (by omega), digits_of_le hle, List.length_append,
        List.length_singleton]

theorem numberSize_eq {n : ℤ} (hn : 0 ≤ n) : numberSize n = (decimal n).length := by
  obtain ⟨n, rfl⟩ := Int.eq_ofNat_of_zero_le hn
  rw [decimal, if_neg (by omega)]
  exact numberSize_natCast n

theorem atoi_of_holdsInt {s : Spelling} {line : List UInt8}
    (hline : line = s.text ∨ line = s.text ++ [NEWLINE])
    (hlow : -2 ^ 31 ≤ s.value) (hhigh : s.value ≤ INT_MAX) : atoi line = s.value := by
  have hread : strtol line = max LONG_MIN (min LONG_MAX s.value) := by
    rcases hline with rfl | rfl
    · rw [← List.append_nil s.text]
      exact s.strtol_append rfl
    · exact s.strtol_append (by decide)
  have hlong : max LONG_MIN (min LONG_MAX s.value) = s.value := by
    simp only [LONG_MIN, LONG_MAX, INT_MAX] at hhigh ⊢
    omega
  rw [atoi, hread, hlong, toInt_eq_self hlow hhigh]

end Digits

/-! ## The nearest root -/

section Root

variable {root : ℤ → ℤ} (hroot : Rounds root) {x : ℤ} (hx : 0 ≤ x) (hmax : x ≤ INT_MAX)

include hroot hx hmax

theorem root_bounds :
    0 ≤ root x ∧ 4 * x < (2 * root x + 1) ^ 2 ∧ (0 < root x → (2 * root x - 1) ^ 2 ≤ 4 * x) := by
  rw [hroot x hx hmax, round_eq]
  have hsqrt : √(x : ℝ) * √(x : ℝ) = x := Real.mul_self_sqrt (by exact_mod_cast hx)
  have hpos := Real.sqrt_nonneg (x : ℝ)
  generalize √(x : ℝ) = y at hsqrt hpos ⊢
  have hfloor := Int.floor_le (y + 1 / 2)
  have hnext := Int.lt_floor_add_one (y + 1 / 2)
  have hnonneg : 0 ≤ ⌊y + 1 / 2⌋ := Int.floor_nonneg.mpr (by linarith)
  generalize ⌊y + 1 / 2⌋ = r at hfloor hnext hnonneg ⊢
  refine ⟨hnonneg, ?_, fun hr => ?_⟩
  · have hlt : (2 * y) ^ 2 < (2 * r + 1 : ℝ) ^ 2 :=
      pow_lt_pow_left₀ (by linarith) (by linarith) (by decide)
    have hcast : (4 * x : ℝ) < (2 * r + 1) ^ 2 := by linarith
    exact_mod_cast hcast
  · have hr' : (1 : ℝ) ≤ r := by exact_mod_cast hr
    have hle : (2 * r - 1 : ℝ) ^ 2 ≤ (2 * y) ^ 2 :=
      pow_le_pow_left₀ (by linarith) (by linarith) 2
    have hcast : (2 * r - 1 : ℝ) ^ 2 ≤ 4 * x := by linarith
    exact_mod_cast hcast

/-- The last root whose square is an `int` is 46340. -/
theorem root_mul_root_le_iff : root x * root x ≤ INT_MAX ↔ x ≤ 2147441940 := by
  obtain ⟨hnonneg, hlt, hle⟩ := root_bounds hroot hx hmax
  generalize root x = r at hnonneg hlt hle ⊢
  simp only [INT_MAX]
  constructor
  · intro h
    have hr : r ≤ 46340 := by nlinarith
    nlinarith
  · intro h
    have hr : r ≤ 46340 := by
      by_contra hlarge
      have hsquare := hle (by omega)
      nlinarith
    nlinarith

theorem root_mul_root_eq_iff : root x * root x = x ↔ IsSquare x := by
  constructor
  · exact fun h => ⟨root x, h.symm⟩
  · rintro ⟨k, rfl⟩
    have habs : √((k * k : ℤ) : ℝ) = (|k| : ℤ) := by
      rw [Int.cast_mul, Real.sqrt_mul_self_eq_abs, Int.cast_abs]
    rw [hroot _ hx hmax, habs, round_intCast, abs_mul_abs_self]

end Root

/-! ## Blocks -/

/-- The line "Liczb parzystych jest %d\n". -/
def evenText (evenCounter : ℤ) : List UInt8 :=
  [76, 105, 99, 122, 98, 32, 112, 97, 114, 122, 121, 115, 116, 121, 99, 104, 32, 106, 101, 115,
    116, 32] ++ decimal evenCounter ++ [NEWLINE]

theorem length_evenText (evenCounter : ℤ) :
    (evenText evenCounter).length = 23 + (decimal evenCounter).length := by
  simp only [evenText, List.length_append, List.length_cons, List.length_nil]
  omega

theorem zero_notMem_decimal (x : ℤ) : 0 ∉ decimal x := by
  intro hmem
  rcases mem_decimal hmem with h | h
  · exact absurd h (by decide)
  · exact absurd h (by decide)

theorem evenBlock_of_nonneg {evenCounter : ℤ} (h : 0 ≤ evenCounter) :
    evenBlock evenCounter = evenText evenCounter := by
  have hzero : 0 ∉ evenText evenCounter := by
    rw [evenText, List.mem_append, List.mem_append, not_or, not_or]
    exact ⟨⟨by decide, zero_notMem_decimal _⟩, by decide⟩
  have hsize : 23 + numberSize evenCounter = (evenText evenCounter).length := by
    rw [length_evenText, numberSize_eq h]
  exact (congrArg (strncpy · (evenText evenCounter)) hsize).trans (strncpy_eq_self hzero)

theorem evenBlock_eq_iff (count : ℕ) :
    evenBlock (toInt count) = evenText count ↔ (count : ℤ) ≤ INT_MAX := by
  constructor
  · intro h
    rcases Int.lt_or_le (toInt count) 0 with hneg | hnonneg
    · -- one digit is written
      have hlength := congrArg List.length h
      have hsize : (evenBlock (toInt count)).length = 23 + numberSize (toInt count) :=
        length_strncpy _ _
      rw [hsize, numberSize_of_neg hneg, length_evenText, ← numberSize_eq (by omega)] at hlength
      by_contra hlarge
      simp only [INT_MAX] at hlarge
      have hdiv : (count : ℤ).tdiv 10 = (count : ℤ) / 10 :=
        Int.tdiv_eq_ediv_of_nonneg (Int.natCast_nonneg _)
      rw [numberSize, hdiv, dif_pos (by omega), numberSize] at hlength
      split_ifs at hlength <;> omega
    · rw [evenBlock_of_nonneg hnonneg, evenText, evenText, List.append_left_inj,
        List.append_right_inj] at h
      rw [decimal, if_neg (by omega), decimal, if_neg (by omega)] at h
      have hvalue := congrArg digitsValue h
      rw [digitsValue_digits, digitsValue_digits] at hvalue
      have hlt := toInt_lt count
      simp only [INT_MAX]
      omega
  · intro h
    rw [toInt_eq_self (by omega) h]
    exact evenBlock_of_nonneg (Int.natCast_nonneg _)

theorem numberBlocks_eq_iff {ls : List (List UInt8)}
    (hls : ∀ line ∈ ls, 0 ∉ line ∧ 0 ≤ atoi line) :
    (ls.map numberBlock).flatten = ls.flatten ↔
      ∀ line ∈ ls, line.length = (decimal (atoi line)).length + 1 := by
  have hsize : ∀ line ∈ ls, (numberBlock line).length = (decimal (atoi line)).length + 1 := by
    intro line hline
    rw [numberBlock, length_strncpy, numberSize_eq (hls line hline).2]
  constructor
  · intro h line hline
    -- a block with a NUL is not part of the lines, so no block is longer than its line
    have hle : ∀ line ∈ ls, (numberBlock line).length ≤ line.length := by
      intro line hline
      by_contra hlong
      have hzero : 0 ∈ numberBlock line := by
        rw [numberBlock, length_strncpy] at hlong
        have hnone : line.length ≤ numberSize (atoi line) + 1 := by omega
        have hblock := strncpy_append (hls line hline).1 hnone []
        rw [List.append_nil] at hblock
        rw [numberBlock, hblock, strncpy, contents_nil, List.take_nil, List.nil_append]
        refine List.mem_append_right _ (List.mem_replicate.mpr ⟨?_, rfl⟩)
        rw [List.length_nil]
        omega
      have hmem : (0 : UInt8) ∈ (ls.map numberBlock).flatten :=
        List.mem_flatten_of_mem (List.mem_map_of_mem hline) hzero
      rw [h] at hmem
      obtain ⟨line', hline', hzero'⟩ := List.mem_flatten.mp hmem
      exact (hls line' hline').1 hzero'
    have hsame := eq_of_flatMap_eq (l := ls) (f := numberBlock) (g := id) hle
      (by rw [List.flatMap_def, h, List.flatMap_id])
    rw [← hsize line hline, hsame line hline]
    rfl
  · intro h
    have hsame : ls.map numberBlock = ls.map id := by
      apply List.map_congr_left
      intro line hline
      have hself := strncpy_eq_self (hls line hline).1
      rwa [h line hline, ← numberSize_eq (hls line hline).2] at hself
    rw [hsame, List.map_id]

/-! ## Whole files -/

/-- Above 10, with the tens digit 0 or 7. -/
def Wanted (n : ℤ) : Prop := 10 < n ∧ (n / 10 % 10 = 0 ∨ n / 10 % 10 = 7)

instance decidableWanted : DecidablePred Wanted := fun _ => inferInstanceAs (Decidable (_ ∧ (_ ∨ _)))

theorem inB_iff_wanted (n : ℤ) : InB n ↔ Wanted n := by
  refine and_congr_right fun hn => ?_
  rw [Int.tdiv_eq_ediv_of_nonneg (by omega), Int.tmod_eq_emod_of_nonneg (by omega)]

theorem inC_iff {root : ℤ → ℤ} (hroot : Rounds root) {n : ℤ} (hn : 0 ≤ n ∧ n ≤ 2147441940) :
    InC root n ↔ IsSquare n := by
  have hmax : n ≤ INT_MAX := by
    simp only [INT_MAX]
    omega
  have hproduct := (root_mul_root_le_iff hroot hn.1 hmax).mpr hn.2
  have hlow : -2 ^ 31 ≤ root n * root n := by
    have hsquare := mul_self_nonneg (root n)
    omega
  rw [InC, toInt_eq_self hlow hproduct, root_mul_root_eq_iff hroot hn.1 hmax]

def evenLines (ls : List (List UInt8)) : ℕ := ls.countP fun line => 2 ∣ atoi line

/-- What the calls of a build are for. No product may leave the range of `int` on the way. -/
def Filters (build : Build) (file : List UInt8) : Prop :=
  ∀ root, Rounds root →
    (∀ line ∈ lines file, root (atoi line) * root (atoi line) ≤ INT_MAX) ∧
      ∀ a b c, filterNumbers build.interface root file a b c =
        some (build.interface.content a [evenText (evenLines (lines file))],
          build.interface.content b [((lines file).filter fun line => Wanted (atoi line)).flatten],
          build.interface.content c
            [((lines file).filter fun line => IsSquare (atoi line)).flatten])

/-- The numbers of a file have roots, and the lines that are copied are as short as they can be,
but for one byte. -/
structure Plain (file : List UInt8) : Prop where
  fits : Fits file
  counted : (evenLines (lines file) : ℤ) ≤ INT_MAX
  hasRoot : ∀ line ∈ lines file, 0 ≤ atoi line ∧ atoi line ≤ 2147441940
  short : ∀ line ∈ lines file, Wanted (atoi line) ∨ IsSquare (atoi line) →
    line.length = (decimal (atoi line)).length + 1

section File

variable {file : List UInt8} (hfile : ∀ line ∈ lines file, HoldsInt line)

include hfile

theorem zero_notMem_line {line : List UInt8} (hline : line ∈ lines file) : 0 ∉ line := by
  obtain ⟨s, rfl | rfl, _⟩ := hfile line hline
  · exact s.zero_notMem_text
  · rw [List.mem_append, not_or]
    exact ⟨s.zero_notMem_text, by decide⟩

theorem strings_eq_lines : strings file = lines file := by
  obtain ⟨last, hlast, hlines⟩ := map_filter_lines file
  have hself : (lines file).map (·.filter (· ≠ 0)) = lines file := by
    rw [List.map_congr_left fun line hline => filter_of_notMem (zero_notMem_line hfile hline),
      List.map_id']
  rw [hself] at hlines
  rcases hlast with rfl | rfl
  · rw [hlines, List.append_nil]
  · obtain ⟨s, hnil | hnil, _⟩ := hfile [] (by rw [hlines]; simp)
    · exact absurd hnil.symm s.text_ne_nil
    · exact absurd (List.append_eq_nil_iff.mp hnil.symm).2 (by decide)

theorem evenCount_eq : evenCount (strings file) = toInt (evenLines (lines file)) := by
  rw [evenCount, evenLines, strings_eq_lines hfile]
  simp only [Int.dvd_iff_tmod_eq_zero]

theorem int_of_atoi {line : List UInt8} (hline : line ∈ lines file) : atoi line ≤ INT_MAX := by
  obtain ⟨s, hs, hlow, hhigh⟩ := hfile line hline
  rwa [atoi_of_holdsInt hs hlow hhigh]

/-- The blocks of one of the files are the lines of its numbers. -/
theorem selected_eq_iff {p q : ℤ → Prop} [DecidablePred p] [DecidablePred q]
    (hpq : ∀ line ∈ lines file, p (atoi line) ↔ q (atoi line))
    (hpos : ∀ line ∈ lines file, 0 ≤ atoi line) :
    (selected p (strings file)).flatten = ((lines file).filter fun line => q (atoi line)).flatten ↔
      ∀ line ∈ lines file, q (atoi line) → line.length = (decimal (atoi line)).length + 1 := by
  have hfilter : (lines file).filter (fun line => decide (p (atoi line))) =
      (lines file).filter fun line => decide (q (atoi line)) :=
    List.filter_congr fun line hline => decide_eq_decide.mpr (hpq line hline)
  rw [selected, strings_eq_lines hfile, hfilter, numberBlocks_eq_iff]
  · simp only [List.mem_filter, decide_eq_true_eq, and_imp]
  · intro line hline
    have hmem := List.mem_of_mem_filter hline
    exact ⟨zero_notMem_line hfile hmem, hpos line hmem⟩

theorem plain_of_filters {build : Build} (h : Filters build file) :
    build.interface.Reads file ∧ Plain file := by
  have hmax : ∀ line ∈ lines file, atoi line ≤ INT_MAX := fun _ hline => int_of_atoi hfile hline
  -- the root of a negative number may be anything
  have hroot : Rounds fun x => if 0 ≤ x then round √(x : ℝ) else 2 ^ 16 :=
    fun x hx _ => if_pos hx
  obtain ⟨hproduct, hcall⟩ := h _ hroot
  have hhas : ∀ line ∈ lines file, 0 ≤ atoi line ∧ atoi line ≤ 2147441940 := by
    intro line hline
    have hline' := hproduct line hline
    have hpos : 0 ≤ atoi line := by
      by_contra hneg
      rw [if_neg hneg] at hline'
      exact absurd hline' (by decide)
    exact ⟨hpos, (root_mul_root_le_iff hroot hpos (hmax line hline)).mp hline'⟩
  have hempty := hcall [] [] []
  rw [filterNumbers_eq] at hempty
  split_ifs at hempty with hfits
  obtain ⟨ha, hbc⟩ := Prod.mk.inj (Option.some.inj hempty)
  obtain ⟨hb, hc⟩ := Prod.mk.inj hbc
  rw [build.content_nil, build.content_nil, List.flatten_singleton] at ha hb hc
  rw [List.flatten_singleton, evenCount_eq hfile, evenBlock_eq_iff] at ha
  rw [selected_eq_iff hfile (fun line _ => inB_iff_wanted _) fun line hline =>
    (hhas line hline).1] at hb
  rw [selected_eq_iff hfile (fun line hline => inC_iff hroot (hhas line hline))
    fun line hline => (hhas line hline).1] at hc
  exact ⟨hfits.1, hfits.2, ha, hhas, fun line hline hor => hor.elim (hb line hline) (hc line hline)⟩

theorem filters_of_plain {build : Build} (hreads : build.interface.Reads file) (h : Plain file) :
    Filters build file := by
  intro root hroot
  refine ⟨fun line hline => ?_, fun a b c => ?_⟩
  · exact (root_mul_root_le_iff hroot (h.hasRoot line hline).1 (int_of_atoi hfile hline)).mpr
      (h.hasRoot line hline).2
  · have hpos : ∀ line ∈ lines file, 0 ≤ atoi line := fun line hline => (h.hasRoot line hline).1
    have hb := (selected_eq_iff hfile (fun line _ => inB_iff_wanted _) hpos).mpr
      fun line hline hw => h.short line hline (.inl hw)
    have hc := (selected_eq_iff hfile (fun line hline => inC_iff hroot (h.hasRoot line hline))
      hpos).mpr fun line hline hs => h.short line hline (.inr hs)
    have ha := (evenBlock_eq_iff _).mpr h.counted
    rw [filterNumbers_eq, if_pos ⟨hreads, h.fits⟩, evenCount_eq hfile, ha, ← hb, ← hc]
    simp only [Interface.content, List.flatten_singleton]

/-- The numbers of a file are selected and copied exactly if they can be read, each has a root
whose square is an `int`, and those that are selected are written with as many bytes as are
copied. -/
theorem filterNumbers_filters_iff (build : Build) :
    Filters build file ↔ build.interface.Reads file ∧ Plain file :=
  ⟨plain_of_filters hfile, fun h => filters_of_plain hfile h.1 h.2⟩

end File

/-- The number 70. -/
def seventy (blanks : List UInt8) (h : blanks.all isspace = true) : Spelling :=
  .unsigned blanks [55, 48] h ⟨List.cons_ne_nil _ _, rfl⟩

theorem filterNumbers_filters_iff_seventy :
    Filters (.sys true) [55, 48, 10] ↔
      (Build.sys true).interface.Reads [55, 48, 10] ∧ Plain [55, 48, 10] :=
  filterNumbers_filters_iff (by
    intro line hline
    have hlines : lines [55, 48, 10] = [[55, 48, 10]] := by decide
    rw [hlines, List.mem_singleton] at hline
    subst hline
    exact ⟨seventy [] (by decide), .inr rfl, by decide, by decide⟩) (.sys true)

/-- Of a line with a blank the newline is not copied. -/
theorem not_filterNumbers_filters :
    ¬ ∀ file, (∀ line ∈ lines file, HoldsInt line) → Filters (.sys true) file := by
  intro hclaim
  have hlines : lines [32, 55, 48, 10] = [[32, 55, 48, 10]] := by decide
  have hatoi : atoi [32, 55, 48, 10] = 70 :=
    atoi_of_holdsInt (s := seventy [32] (by decide)) (.inr rfl) (by decide) (by decide)
  have hfile : ∀ line ∈ lines [32, 55, 48, 10], HoldsInt line := by
    intro line hline
    rw [hlines, List.mem_singleton] at hline
    subst hline
    exact ⟨seventy [32] (by decide), .inr rfl, by decide, by decide⟩
  have h := (plain_of_filters hfile (hclaim _ hfile)).2.short [32, 55, 48, 10] (by simp [hlines])
  rw [hatoi] at h
  exact absurd (h (.inl (by decide))) (by decide)

end Sysopy.TextLibrary
