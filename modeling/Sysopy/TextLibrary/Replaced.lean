import Sysopy.Library.Replacement
import Sysopy.TextLibrary.Results

/-!
# What `replace` writes for a line

The second loop of `replace` replaces the occurrences of the pattern that do not overlap, and
the block that is written is sized by all that the first loop has counted. Where these are more,
a longer replacement leaves NULs in front of the newline, and a shorter one overruns the block. So
does a replacement that is so long that the size of the block is no `int`.
-/
namespace Sysopy.TextLibrary

open CInteger CString CText Replacement

/-- How many bytes too many the block of a line has. -/
def excess (n1 n2 s : List UInt8) : ℤ :=
  toInt (s.length + 1 + ((n2.length : ℤ) - n1.length) * occurrences n1 s) -
    ((replaceAll n1 n2 s).length + 1)

/-- Where the size of the block is an `int`, these are the bytes of the occurrences that are
counted and not replaced. -/
theorem excess_eq {n1 : List UInt8} (hne : n1 ≠ []) (n2 s : List UInt8)
    (hlow : -2 ^ 31 ≤ s.length + 1 + ((n2.length : ℤ) - n1.length) * occurrences n1 s)
    (hhigh : s.length + 1 + ((n2.length : ℤ) - n1.length) * occurrences n1 s ≤ INT_MAX) :
    excess n1 n2 s =
      ((n2.length : ℤ) - n1.length) * ((occurrences n1 s : ℤ) - replacedCount n1 s) := by
  have hlength := length_replaceAll hne n2 s
  rw [excess, toInt_eq_self hlow hhigh]
  zify at hlength
  linear_combination -hlength

section Line

variable {n1 n2 s : List UInt8} (hne : n1 ≠ []) (hn1 : NEWLINE ∉ n1) (hzero : 0 ∉ s)
  (hnewline : NEWLINE ∉ s)

include hne hn1 hzero hnewline

theorem replaceLoop_eq {i : ℕ} (hi : i ≤ s.length) (buf : List UInt8) :
    replaceLoop n1 n2 (s ++ [NEWLINE]) i buf = some (buf ++ replaceAll n1 n2 (s.drop i)) := by
  have hsize := (stringSize_eq hzero hnewline).2
  induction hn : s.length - i using Nat.strong_induction_on generalizing i buf with
  | h n ih =>
    subst hn
    rw [replaceLoop, hsize]
    rcases Nat.lt_or_eq_of_le hi with hlt | rfl
    · have hdrop : (s ++ [NEWLINE]).drop i = s.drop i ++ [NEWLINE] :=
        List.drop_append_of_le_length hi
      have hbegins := isPrefix_append_cons_iff hn1 (s.drop i) []
      rw [if_pos (by omega), hdrop]
      by_cases hfound : n1 <+: s.drop i
      · obtain ⟨after, hafter⟩ := hfound
        have hpos := List.length_pos_iff.mpr hne
        have hlength := congrArg List.length hafter
        have hrest : s.drop (i + n1.length) = after := by
          rw [← List.drop_drop, ← hafter, List.drop_left]
        rw [List.length_append, List.length_drop] at hlength
        rw [if_pos (hbegins.mpr ⟨after, hafter⟩), if_neg hne, ih _ (by omega) (by omega) _ rfl, hrest, ← hafter,
          replaceAll_append hne, List.append_assoc]
      · have hcons := List.drop_eq_getElem_cons hlt
        rw [if_neg fun h => hfound (hbegins.mp h), ih _ (by omega) (by omega) _ rfl]
        rw [hcons] at hfound ⊢
        rw [replaceAll_cons hfound, List.append_assoc]
        rfl
    · rw [if_neg (by omega), List.drop_length, replaceAll_nil, List.append_nil]

theorem countMatches_eq : countMatches n1 (s ++ [NEWLINE]) = occurrences n1 s := by
  have hpos := List.length_pos_iff.mpr hne
  rw [countMatches, (stringSize_eq hzero hnewline).2,
    ← countP_range_eq (n := s.length + 1 - n1.length) (by omega) (by omega)]
  apply List.countP_congr
  intro i hi
  have hle : i ≤ s.length := by
    have hlt := List.mem_range.mp hi
    omega
  rw [List.drop_append_of_le_length hle, decide_eq_true_eq, decide_eq_true_eq,
    isPrefix_append_cons_iff hn1]

theorem replaceLine_eq (hn1' : 0 ∉ n1) (hn2 : 0 ∉ n2 ∧ NEWLINE ∉ n2) :
    replaceLine n1 n2 (s ++ [NEWLINE]) =
      if 0 ≤ excess n1 n2 s then
        some (replaceAll n1 n2 s ++ List.replicate (excess n1 n2 s).toNat 0 ++ [NEWLINE])
      else none := by
  have hsize1 := (stringSize_eq hn1' hn1).1
  have hsize2 := (stringSize_eq hn2.1 hn2.2).1
  have hblock : bufSize n1 n2 (s ++ [NEWLINE]) =
      (replaceAll n1 n2 s).length + 1 + excess n1 n2 s := by
    rw [bufSize, hsize1, hsize2, (stringSize_eq hzero hnewline).2, List.take_length,
      countMatches_eq hne hn1 hzero hnewline, excess, Nat.cast_add, Nat.cast_one]
    omega
  have hcontents : contents (replaceAll n1 n2 s) = replaceAll n1 n2 s :=
    contents_of_notMem fun hmem => (mem_replaceAll hne hmem).elim hzero hn2.1
  rw [replaceLine, hsize1, hsize2, List.take_length, List.take_length,
    replaceLoop_eq hne hn1 hzero hnewline (Nat.zero_le _), List.nil_append, List.drop_zero]
  dsimp only
  rw [hblock]
  by_cases hle : 0 ≤ excess n1 n2 s
  · have htake : (replaceAll n1 n2 s).length ≤
        (((replaceAll n1 n2 s).length : ℤ) + 1 + excess n1 n2 s).toNat - 1 := by omega
    have hpad : (((replaceAll n1 n2 s).length : ℤ) + 1 + excess n1 n2 s).toNat - 1 -
        (replaceAll n1 n2 s).length = (excess n1 n2 s).toNat := by omega
    rw [if_pos hle, if_pos (by omega), strncpy, hcontents, List.take_of_length_le htake, hpad]
  · rw [if_neg hle, if_neg (by omega)]

end Line

/-! ## Whole files -/

/-- The line ends with its newline, and in front of that it has as many NULs as its block, and
none elsewhere. -/
def Exact (n1 n2 line : List UInt8) : Prop :=
  ∃ s k, line = s ++ List.replicate k 0 ++ [NEWLINE] ∧ 0 ∉ s ∧ (k : ℤ) = excess n1 n2 s

section Text

variable {n1 n2 : List UInt8} (hne : n1 ≠ []) (h1 : 0 ∉ n1 ∧ NEWLINE ∉ n1)
  (h2 : 0 ∉ n2 ∧ NEWLINE ∉ n2)

theorem newline_mem_of_replaceLine {line block : List UInt8}
    (h : replaceLine n1 n2 line = some block) : NEWLINE ∈ block := by
  unfold replaceLine at h
  split at h
  · cases h
  · split_ifs at h
    rw [← Option.some.inj h]
    simp

theorem eq_replicate_of_forall {s : List UInt8} (h : ∀ c ∈ s, c = 0) :
    s = List.replicate s.length 0 :=
  List.eq_replicate_iff.mpr ⟨rfl, h⟩

include hne in
theorem excess_nonpos (h : n2 = []) {s : List UInt8} (hfits : s.length < MAX_LINE_LEN) :
    excess n1 n2 s ≤ 0 := by
  have hle := replacedCount_le hne s
  have hsquare : n1.length * occurrences n1 s ≤ 254 * 254 :=
    (length_mul_occurrences_le s).trans
      (Nat.mul_le_mul (Nat.le_of_lt_succ hfits) (Nat.le_of_lt_succ hfits))
  have hsize : ((n2.length : ℤ) - n1.length) * occurrences n1 s =
      -((n1.length * occurrences n1 s : ℕ) : ℤ) := by
    rw [h, List.length_nil]
    push_cast
    ring
  have hlow : -2 ^ 31 ≤ s.length + 1 + ((n2.length : ℤ) - n1.length) * occurrences n1 s := by
    rw [hsize]
    omega
  have hhigh : s.length + 1 + ((n2.length : ℤ) - n1.length) * occurrences n1 s ≤ INT_MAX := by
    simp only [MAX_LINE_LEN, INT_MAX] at hfits ⊢
    rw [hsize]
    omega
  rw [excess_eq hne n2 s hlow hhigh, h]
  apply mul_nonpos_of_nonpos_of_nonneg
  · simp
  · omega

include hne h1 h2

theorem exact_iff {line : List UInt8} (hline : NEWLINE ∉ line)
    (hfits : (line.filter (· ≠ 0)).length < MAX_LINE_LEN) :
    Exact n1 n2 (line ++ [NEWLINE]) ↔
      0 ≤ excess n1 n2 (line.filter (· ≠ 0)) ∧
        replaceAll n1 n2 line = replaceAll n1 n2 (line.filter (· ≠ 0)) ++
          List.replicate (excess n1 n2 (line.filter (· ≠ 0))).toNat 0 := by
  constructor
  · rintro ⟨s, k, hs, hzero, hk⟩
    obtain rfl : line = s ++ List.replicate k 0 := List.append_cancel_right hs
    have hfilter : (s ++ List.replicate k 0).filter (· ≠ 0) = s := by
      rw [List.filter_append, filter_of_notMem hzero]
      simp
    rw [hfilter, ← hk]
    refine ⟨Int.natCast_nonneg k, ?_⟩
    rw [Int.toNat_natCast]
    cases k with
    | zero => simp
    | succ k =>
      rw [List.replicate_succ, replaceAll_append_cons hne h1.1, replaceAll_replicate hne h1.1]
  · rintro ⟨hle, hreplaced⟩
    generalize hs : line.filter (· ≠ 0) = s at hfits hle hreplaced
    have hzero : 0 ∉ s := by simp [← hs]
    have hfree : ∀ {t : List UInt8}, 0 ∉ t → 0 ∉ replaceAll n1 n2 t :=
      fun ht hmem => (mem_replaceAll hne hmem).elim ht h2.1
    by_cases hmem : 0 ∈ line
    · obtain ⟨u, v, rfl, hu⟩ := List.eq_append_cons_of_mem hmem
      rw [replaceAll_append_cons hne h1.1] at hreplaced
      cases hk : (excess n1 n2 s).toNat with
      | zero =>
        rw [hk, List.replicate_zero, List.append_nil] at hreplaced
        exact absurd (by simp [← hreplaced]) (hfree hzero)
      | succ k =>
        rw [hk, List.replicate_succ] at hreplaced
        obtain ⟨_, hv⟩ := append_cons_inj (hfree hu) (hfree hzero) hreplaced
        have hn2 : n2 ≠ [] := by
          intro hnil
          have hle' : excess n1 n2 s ≤ 0 := excess_nonpos hne hnil hfits
          omega
        have hzeros := eq_replicate_of_forall (eq_of_replaceAll_eq hne hn2 h2.1 (s := v) (by
          rw [hv]
          exact fun c hc => List.eq_of_mem_replicate hc))
        rw [hzeros, replaceAll_replicate hne h1.1] at hv
        have hlength : v.length = k := by simpa using congrArg List.length hv
        have hs' : s = u := by
          rw [← hs, List.filter_append, filter_of_notMem hu, hzeros]
          simp
        refine ⟨s, k + 1, ?_, hzero, by omega⟩
        rw [hs', hzeros, hlength, List.replicate_succ]
    · obtain rfl : line = s := (filter_of_notMem hmem).symm.trans hs
      have hnil := List.self_eq_append_right.mp hreplaced
      rw [List.replicate_eq_nil_iff] at hnil
      exact ⟨line, 0, by simp, hzero, by omega⟩

/-- The blocks are the lines with their replacements exactly if every line is exact. -/
theorem blocks_eq_iff {text : List UInt8} (hfits : Fits text) :
    (∃ blocks, blocksOf (replaceLine n1 n2) (strings text) = some blocks ∧
        blocks.flatten = ((lines text).map (replaceAll n1 n2)).flatten) ↔
      ∀ line ∈ lines text, Exact n1 n2 line := by
  induction text using text_induction with
  | nil =>
    rw [strings_of_eq_nil rfl]
    simp [lines, blocksOf]
  | last line hline hne' =>
    -- the line has no newline, but every block has one
    have hnot : ¬ Exact n1 n2 line := by
      rintro ⟨s, k, rfl, -, -⟩
      simp at hline
    rw [lines_last hline hne']
    refine iff_of_false ?_ fun h => hnot (h line (by simp))
    rintro ⟨blocks, hblocks, hflatten⟩
    rw [List.map_singleton, List.flatten_singleton] at hflatten
    rw [strings_last hline] at hblocks
    split_ifs at hblocks with hnil
    · -- a line of NULs is not written at all
      obtain rfl := Option.some.inj hblocks
      have hzeros : line = List.replicate line.length 0 :=
        eq_replicate_of_forall fun c hc => by simpa using List.filter_eq_nil_iff.mp hnil c hc
      rw [hzeros, replaceAll_replicate hne h1.1] at hflatten
      have hlength := congrArg List.length hflatten
      rw [List.length_replicate] at hlength
      exact hne' (List.length_eq_zero_iff.mp hlength.symm)
    · obtain ⟨block, rest, _, hblock, hrest, rfl⟩ := blocksOf_cons_eq_some hblocks
      have hmem : NEWLINE ∈ replaceAll n1 n2 line := by
        rw [← hflatten]
        simp [newline_mem_of_replaceLine hblock]
      exact (mem_replaceAll hne hmem).elim hline h2.2
  | cons line rest hline ih =>
    rw [Fits, strings_append hline, List.forall_mem_cons] at hfits
    have hshort : (line.filter (· ≠ 0)).length < MAX_LINE_LEN := by
      have hlt := hfits.1
      rw [List.length_append] at hlt
      omega
    rw [lines_append hline, strings_append hline, List.forall_mem_cons,
      exact_iff hne h1 h2 hline hshort, List.map_cons, List.flatten_cons,
      replaceAll_append_cons hne h1.2, replaceAll_nil]
    rw [← ih hfits.2]
    generalize hs : line.filter (· ≠ 0) = s
    have hzero : 0 ∉ s := by simp [← hs]
    have hnewline : NEWLINE ∉ s := fun hmem => hline (List.mem_of_mem_filter (hs ▸ hmem))
    rw [hs] at hfits
    have hblock := replaceLine_eq hne h1.2 hzero hnewline h1.1 h2
    have hfree : ∀ {t : List UInt8}, NEWLINE ∉ t → NEWLINE ∉ replaceAll n1 n2 t :=
      fun ht hmem => (mem_replaceAll hne hmem).elim ht h2.2
    constructor
    · rintro ⟨blocks, hblocks, hflatten⟩
      obtain ⟨block, rest', _, hblock', hrest, rfl⟩ := blocksOf_cons_eq_some hblocks
      rw [hblock] at hblock'
      split_ifs at hblock' with hle
      obtain rfl := Option.some.inj hblock'
      have hleft : NEWLINE ∉ replaceAll n1 n2 s ++ List.replicate (excess n1 n2 s).toNat 0 := by
        intro hmem
        rcases List.mem_append.mp hmem with hmem | hmem
        · exact hfree hnewline hmem
        · exact absurd (List.eq_of_mem_replicate hmem) (by decide)
      rw [List.flatten_cons, ← List.append_cons, ← List.append_cons] at hflatten
      obtain ⟨hsame, hrest'⟩ := append_cons_inj hleft (hfree hline) hflatten
      exact ⟨⟨hle, hsame.symm⟩, rest', hrest, hrest'⟩
    · rintro ⟨⟨hle, hreplaced⟩, blocks, hblocks, hflatten⟩
      rw [if_pos hle] at hblock
      refine ⟨_, blocksOf_cons_of_eq_some hfits.1 hblock hblocks, ?_⟩
      rw [List.flatten_cons, hflatten, hreplaced]

end Text

theorem replaceLine_nil_isSome_iff {n2 text line : List UInt8} (h2 : 0 ∉ n2 ∧ NEWLINE ∉ n2)
    (hn2 : n2.length ≤ INT_MAX) (hline : line ∈ strings text) :
    (replaceLine [] n2 line).isSome ↔ line.length ≤ 1 ∧ n2.length < INT_MAX := by
  have hsize := stringSize_of_mem_strings hline
  have hpos := List.length_pos_iff.mpr (ne_nil_of_mem_strings hline)
  rw [replaceLine, List.take_nil, replaceLoop, hsize]
  by_cases hlong : 1 < line.length
  · rw [if_pos (by omega), if_pos (List.nil_prefix), if_pos rfl]
    exact iff_of_false Bool.false_ne_true (by omega)
  · have hone : line.length = 1 := by omega
    have hcount : countMatches [] line = 1 := by
      rw [countMatches, hsize, hone]
      simp
    have hblock : bufSize [] n2 line = toInt (n2.length + 1) := by
      rw [bufSize, List.take_nil, hcount, hsize, hone, (stringSize_eq h2.1 h2.2).1]
      congr 1
      simp [stringSize, Int.add_comm]
    rw [if_neg (by omega)]
    dsimp only
    rw [List.length_nil, Nat.cast_zero, hblock]
    rcases lt_or_eq_of_le hn2 with hlt | heq
    · rw [toInt_eq_self (by omega) (by omega), if_pos (by omega)]
      exact iff_of_true rfl ⟨by omega, hlt⟩
    · -- the size is one more than the largest `int`
      rw [heq, if_neg (by decide)]
      exact iff_of_false Bool.false_ne_true fun h => lt_irrefl _ h.2

/-- What `replace` is for; of the empty pattern only that the call ends. -/
def Replaces (build : Build) (file n1 n2 : List UInt8) : Prop :=
  if n1 = [] then ∀ outFile, (replace build.interface file outFile n1 n2).isSome
  else build.Writes (replace build.interface file · n1 n2)
    ((lines file).map (replaceAll n1 n2)).flatten

section Replace

variable (build : Build) {file n1 n2 : List UInt8} (hfits : Fits file)
  (h2 : 0 ∉ n2 ∧ NEWLINE ∉ n2)

include hfits h2

theorem blocks_nil_isSome_iff (hn2 : n2.length ≤ INT_MAX) :
    (blocksOf (replaceLine [] n2) (strings file)).isSome ↔
      ∀ line ∈ strings file, line.length ≤ 1 ∧ n2.length < INT_MAX := by
  rw [blocksOf_isSome_iff]
  constructor
  · exact fun h line hline => (replaceLine_nil_isSome_iff h2 hn2 hline).mp (h line hline).2
  · exact fun h line hline =>
      ⟨hfits line hline, (replaceLine_nil_isSome_iff h2 hn2 hline).mpr (h line hline)⟩

/-- The occurrences of a pattern are replaced, and nothing else is changed, exactly if the lines
can be read, the arguments have sizes, and every line has its newline and the block that is counted
for it. -/
theorem replaces_iff (h1 : 0 ∉ n1 ∧ NEWLINE ∉ n1) :
    Replaces build file n1 n2 ↔
      build.interface.Reads file ∧ (n1.length ≤ INT_MAX ∧ n2.length ≤ INT_MAX) ∧
        if n1 = [] then ∀ line ∈ strings file, line.length ≤ 1 ∧ n2.length < INT_MAX
        else ∀ line ∈ lines file, Exact n1 n2 line := by
  have hsized : Sized n1 n2 ↔ n1.length ≤ INT_MAX ∧ n2.length ≤ INT_MAX := by
    rw [Sized, (stringSize_eq h1.1 h1.2).1, (stringSize_eq h2.1 h2.2).1]
  unfold Replaces
  rw [← hsized]
  by_cases hn : Sized n1 n2
  · split_ifs with hnil
    · subst hnil
      simp only [replace_eq, if_pos hn, Option.isSome_map]
      rw [forall_const]
      by_cases hreads : build.interface.Reads file
      · rw [blocks_of_reads hreads, blocks_nil_isSome_iff hfits h2 (hsized.mp hn).2]
        simp only [hreads, hn, true_and]
      · rw [blocks_of_not_reads hreads]
        exact iff_of_false Bool.false_ne_true fun h => hreads h.1
    · simp only [replace_eq, if_pos hn]
      rw [build.writes_iff, exists_blocks_iff, blocks_eq_iff hnil h1 h2 hfits]
      simp only [hn, true_and]
  · refine iff_of_false ?_ fun h => hn h.2.1
    simp only [replace_eq, if_neg hn]
    split_ifs
    · exact fun h => Bool.false_ne_true (h [])
    · rw [build.writes_iff]
      rintro ⟨_, hnone, _⟩
      cases hnone

end Replace

theorem replaces_iff_oneLine :
    Replaces (.sys true) [97, 10] [97] [98] ↔
      (Build.sys true).interface.Reads [97, 10] ∧
        (([97] : List UInt8).length ≤ INT_MAX ∧ ([98] : List UInt8).length ≤ INT_MAX) ∧
        if ([97] : List UInt8) = [] then
          ∀ line ∈ strings [97, 10], line.length ≤ 1 ∧ ([98] : List UInt8).length < INT_MAX
        else ∀ line ∈ lines [97, 10], Exact [97] [98] line :=
  replaces_iff (.sys true) (fits_of_length_lt (by decide)) (by decide) (by decide)

/-- Of a last line without a newline the last byte is lost. -/
theorem not_replaces :
    ¬ ∀ file n1 n2 : List UInt8, Fits file → 0 ∉ n1 ∧ NEWLINE ∉ n1 → 0 ∉ n2 ∧ NEWLINE ∉ n2 →
      Replaces (.sys true) file n1 n2 := by
  intro hclaim
  have hfits : Fits [97, 98] := fits_of_length_lt (by decide)
  have h := hclaim [97, 98] [120] [121] hfits (by decide) (by decide)
  rw [Replaces, if_neg (by decide)] at h
  simp only [replace_eq, if_pos (show Sized [120] [121] by decide)] at h
  rw [Build.writes_iff, exists_blocks_iff,
    blocks_eq_iff (by decide) (by decide) (by decide) hfits] at h
  obtain ⟨s, k, hline, -, -⟩ := h.2 [97, 98] (by decide)
  have hlast := congrArg List.getLast? hline
  rw [List.getLast?_concat] at hlast
  revert hlast
  decide

end Sysopy.TextLibrary
