import Sysopy.TextLibrary.Results

/-!
# What `merge` makes of two files

The loop of `merge` writes a line for every file in each round, also for a file that has ended:
then it is the line that was read last. Once the first file has ended, every line of the second
one is written twice. Once the second has ended, so is every line of the first, but for the one
that was read before the end was seen.
-/
namespace Sysopy.TextLibrary

open CString CText

section Alternate

variable {α : Type*}

/-- The elements of two lists in turn, then those that are left of one. -/
def alternate : List α → List α → List α
  | [], bs => bs
  | as, [] => as
  | a :: as, b :: bs => a :: b :: alternate as bs

theorem alternate_nil (as : List α) : alternate as [] = as := by
  cases as <;> rfl

theorem map_alternate {β : Type*} (f : α → β) (as bs : List α) :
    (alternate as bs).map f = alternate (as.map f) (bs.map f) := by
  induction as generalizing bs with
  | nil => rfl
  | cons a as ih =>
    cases bs with
    | nil => rfl
    | cons b bs => simp [alternate, ih]

theorem flatten_alternate_append (as bs : List (List α)) {last last' : List (List α)}
    (hlast : last = [] ∨ last = [[]]) (hlast' : last' = [] ∨ last' = [[]]) :
    (alternate (as ++ last) (bs ++ last')).flatten = (alternate as bs).flatten := by
  have hflatten : last.flatten = [] := by rcases hlast with rfl | rfl <;> rfl
  have hflatten' : last'.flatten = [] := by rcases hlast' with rfl | rfl <;> rfl
  induction as generalizing bs with
  | nil =>
    rcases hlast with rfl | rfl
    · simp [alternate, hflatten']
    · cases bs with
      | nil => rcases hlast' with rfl | rfl <;> rfl
      | cons b bs => simp [alternate, hflatten']
  | cons a as ih =>
    cases bs with
    | nil =>
      rcases hlast' with rfl | rfl
      · simp [alternate, hflatten]
      · cases as <;> simp [alternate, alternate_nil, hflatten]
    | cons b bs => simp [alternate, ih]

end Alternate

/-! ## The lines that are written -/

def twice (ls : List (List UInt8)) : List (List UInt8) := ls.flatMap fun line => [line, line]

/-- The lines that `merge` writes, for files whose lines fit. -/
def mergedLines : List (List UInt8) → List (List UInt8) → List (List UInt8)
  | [], ls => twice ls
  | line :: ls, [] => line :: (twice ls ++ [[]])
  | line1 :: ls1, line2 :: ls2 => line1 :: line2 :: mergedLines ls1 ls2

section Merge

variable {zeroBehindBuf : Bool} {ls ls1 ls2 : List (List UInt8)}

theorem mergeLines_ended (line : List UInt8) :
    mergeLines zeroBehindBuf ([], true) ([], true) line = some [] := by
  rw [mergeLines, dif_pos ⟨rfl, rfl⟩]

theorem mergeLines_eq_of_turns {f1 f2 f1' f2' : Lines} {line line' line'' : List UInt8}
    {written1 written2 : List (List UInt8)} (hopen : ¬ (f1.2 = true ∧ f2.2 = true))
    (h1 : turnLines zeroBehindBuf f1 line = some (f1', line', written1))
    (h2 : turnLines zeroBehindBuf f2 line' = some (f2', line'', written2)) :
    mergeLines zeroBehindBuf f1 f2 line =
      (mergeLines zeroBehindBuf f1' f2' line'').map (written1 ++ written2 ++ ·) := by
  rw [mergeLines, dif_neg hopen]
  split
  · rename_i hnone
    cases hnone.symm.trans h1
  · rename_i hsome
    cases hsome.symm.trans h1
    split
    · rename_i hnone
      cases hnone.symm.trans h2
    · rename_i hsome'
      cases hsome'.symm.trans h2
      rfl

theorem mergeLines_nil (line : List UInt8) :
    mergeLines zeroBehindBuf ([], false) ([], false) line = some [] := by
  rw [mergeLines_eq_of_turns (by simp) rfl rfl, mergeLines_ended]
  rfl

/-- No line is read where nothing ends the string of a byte. -/
theorem turnLines_unreadable (line : List UInt8) (ls : List (List UInt8)) (last : List UInt8) :
    turnLines false (line :: ls, false) last = none := by
  simp [turnLines]

theorem mergeLines_unreadable (hls : ¬ (ls1 = [] ∧ ls2 = [])) (line : List UInt8) :
    mergeLines false (ls1, false) (ls2, false) line = none := by
  rw [mergeLines, dif_neg (by simp)]
  split
  · rfl
  · rename_i h1
    split
    · rfl
    · rename_i h2
      cases ls1 with
      | cons line1 ls1 => cases h1.symm.trans (turnLines_unreadable line1 ls1 line)
      | nil =>
        cases ls2 with
        | cons line2 ls2 => cases h2.symm.trans (turnLines_unreadable line2 ls2 _)
        | nil => exact absurd ⟨rfl, rfl⟩ hls

theorem turnLines_cons {line : List UInt8} (h : line.length < MAX_LINE_LEN)
    (ls : List (List UInt8)) (last : List UInt8) :
    turnLines true (line :: ls, false) last = some ((ls, false), line, [line]) := by
  simp [turnLines, h]

theorem mergeLines_second (hls : ∀ line ∈ ls, line.length < MAX_LINE_LEN) (line : List UInt8) :
    mergeLines true ([], true) (ls, false) line = some (line :: twice ls) := by
  induction ls generalizing line with
  | nil =>
    rw [mergeLines_eq_of_turns (by simp) rfl rfl, mergeLines_ended]
    rfl
  | cons next ls ih =>
    rw [List.forall_mem_cons] at hls
    rw [mergeLines_eq_of_turns (by simp) rfl (turnLines_cons hls.1 ls line), ih hls.2]
    rfl

theorem mergeLines_first (hls : ∀ line ∈ ls, line.length < MAX_LINE_LEN) (line : List UInt8) :
    mergeLines true (ls, false) ([], true) line = some (twice ls ++ [[]]) := by
  induction ls generalizing line with
  | nil =>
    rw [mergeLines_eq_of_turns (by simp) rfl rfl, mergeLines_ended]
    rfl
  | cons next ls ih =>
    rw [List.forall_mem_cons] at hls
    rw [mergeLines_eq_of_turns (by simp) (turnLines_cons hls.1 ls line) rfl, ih hls.2]
    rfl

theorem mergeLines_eq (hls1 : ∀ line ∈ ls1, line.length < MAX_LINE_LEN)
    (hls2 : ∀ line ∈ ls2, line.length < MAX_LINE_LEN) (line : List UInt8) :
    mergeLines true (ls1, false) (ls2, false) line = some (mergedLines ls1 ls2) := by
  induction ls1 generalizing ls2 line with
  | nil =>
    cases ls2 with
    | nil => exact mergeLines_nil line
    | cons line2 ls2 =>
      rw [List.forall_mem_cons] at hls2
      rw [mergeLines_eq_of_turns (by simp) rfl (turnLines_cons hls2.1 ls2 []),
        mergeLines_second hls2.2]
      rfl
  | cons line1 ls1 ih =>
    rw [List.forall_mem_cons] at hls1
    cases ls2 with
    | nil =>
      rw [mergeLines_eq_of_turns (by simp) (turnLines_cons hls1.1 ls1 line) rfl,
        mergeLines_first hls1.2]
      rfl
    | cons line2 ls2 =>
      rw [List.forall_mem_cons] at hls2
      rw [mergeLines_eq_of_turns (by simp) (turnLines_cons hls1.1 ls1 line)
        (turnLines_cons hls2.1 ls2 line1), ih hls1.2 hls2.2]
      rfl

theorem length_flatten_twice (ls : List (List UInt8)) :
    (twice ls).flatten.length = 2 * ls.flatten.length := by
  induction ls with
  | nil => rfl
  | cons line ls ih =>
    have hcons : twice (line :: ls) = line :: line :: twice ls := rfl
    rw [hcons]
    simp only [List.flatten_cons, List.length_append, ih]
    omega

theorem flatten_twice_eq_iff (hls : ∀ line ∈ ls, line ≠ []) :
    (twice ls).flatten = ls.flatten ↔ ls = [] := by
  constructor
  · intro h
    have hlength := length_flatten_twice ls
    rw [h] at hlength
    have hnil : ls.flatten = [] := List.length_eq_zero_iff.mp (by omega)
    rw [List.flatten_eq_nil_iff] at hnil
    exact List.eq_nil_iff_forall_not_mem.mpr fun line hline => hls line hline (hnil line hline)
  · rintro rfl
    rfl

/-- The right lines are written if the files have equally many lines, or the first has one line
more. -/
theorem flatten_mergedLines_eq_iff (hls1 : ∀ line ∈ ls1, line ≠ []) (hls2 : ∀ line ∈ ls2, line ≠ []) :
    (mergedLines ls1 ls2).flatten = (alternate ls1 ls2).flatten ↔
      ls1.length = ls2.length ∨ ls1.length = ls2.length + 1 := by
  induction ls1 generalizing ls2 with
  | nil =>
    rw [mergedLines, alternate, flatten_twice_eq_iff hls2, ← List.length_eq_zero_iff]
    simp only [List.length_nil]
    omega
  | cons line1 ls1 ih =>
    rw [List.forall_mem_cons] at hls1
    cases ls2 with
    | nil =>
      have hcons : (line1 :: (twice ls1 ++ [[]])).flatten = line1 ++ (twice ls1).flatten := by simp
      rw [mergedLines, alternate_nil, hcons, List.flatten_cons, List.append_cancel_left_eq,
        flatten_twice_eq_iff hls1.2, ← List.length_eq_zero_iff]
      simp only [List.length_nil, List.length_cons]
      omega
    | cons line2 ls2 =>
      rw [List.forall_mem_cons] at hls2
      rw [mergedLines, alternate, List.flatten_cons, List.flatten_cons, List.flatten_cons,
        List.flatten_cons, List.append_cancel_left_eq, List.append_cancel_left_eq,
        ih hls1.2 hls2.2]
      simp only [List.length_cons]
      omega

theorem mem_mergedLines {line : List UInt8} (h : line ∈ mergedLines ls1 ls2) :
    line ∈ ls1 ∨ line ∈ ls2 ∨ line = [] := by
  have htwice : ∀ {ls : List (List UInt8)}, line ∈ twice ls → line ∈ ls := by
    intro ls hmem
    obtain ⟨line', hline', heq⟩ := List.mem_flatMap.mp hmem
    have heq' : line = line' := by simpa using heq
    exact heq' ▸ hline'
  induction ls1 generalizing ls2 with
  | nil => exact .inr (.inl (htwice h))
  | cons line1 ls1 ih =>
    cases ls2 with
    | nil =>
      simp only [mergedLines, List.mem_cons, List.mem_append, List.not_mem_nil, or_false] at h
      rcases h with rfl | h | rfl
      · simp
      · simp [htwice h]
      · simp
    | cons line2 ls2 =>
      simp only [mergedLines, List.mem_cons] at h
      rcases h with rfl | rfl | h
      · simp
      · simp
      · rcases ih h with h | h | h
        · simp [h]
        · simp [h]
        · simp [h]

end Merge

/-! ## `merge` -/

variable {m : Interface} {file1 file2 : List UInt8}

theorem filter_flatten_strncpy {n : ℕ} {ls : List (List UInt8)}
    (hls : ∀ line ∈ ls, 0 ∉ line ∧ line.length ≤ n) :
    (ls.map (strncpy n)).flatten.filter (· ≠ 0) = ls.flatten := by
  induction ls with
  | nil => rfl
  | cons line ls ih =>
    rw [List.forall_mem_cons] at hls
    obtain ⟨⟨hzero, hle⟩, hls⟩ := hls
    have hblock : (strncpy n line).filter (· ≠ 0) = line := by
      rw [strncpy, contents_of_notMem hzero, List.take_of_length_le hle, List.filter_append,
        filter_of_notMem hzero]
      simp
    rw [List.map_cons, List.flatten_cons, List.filter_append, hblock, ih hls, List.flatten_cons]

theorem reads_iff_strings {file : List UInt8} :
    m.Reads file ↔ m.zeroBehindBuf = true ∨ strings file = [] := by
  refine or_congr_right ⟨strings_of_eq_nil, fun h => ?_⟩
  by_contra hne
  rw [strings_of_ne_nil hne] at h
  cases h

/-- What `merge` writes are the lines of the files in turn exactly if the lines can be read, and
the files have equally many of them, or the first has one line more. -/
theorem merge_alternates_iff (h1 : Fits file1) (h2 : Fits file2) :
    (merge m file1 file2).map (·.filter (· ≠ 0)) =
        some ((alternate (lines file1) (lines file2)).flatten.filter (· ≠ 0)) ↔
      (m.Reads file1 ∧ m.Reads file2) ∧ ((strings file1).length = (strings file2).length ∨
        (strings file1).length = (strings file2).length + 1) := by
  have hwritten : ∀ line ∈ mergedLines (strings file1) (strings file2),
      0 ∉ line ∧ line.length ≤ MAX_LINE_LEN := by
    intro line hline
    rcases mem_mergedLines hline with hline | hline | rfl
    · exact ⟨zero_notMem_of_mem_strings hline, (h1 line hline).le⟩
    · exact ⟨zero_notMem_of_mem_strings hline, (h2 line hline).le⟩
    · simp
  obtain ⟨last1, hlast1, hlines1⟩ := map_filter_lines file1
  obtain ⟨last2, hlast2, hlines2⟩ := map_filter_lines file2
  have hexpected : (alternate (lines file1) (lines file2)).flatten.filter (· ≠ 0) =
      (alternate (strings file1) (strings file2)).flatten := by
    rw [List.filter_flatten, map_alternate, hlines1, hlines2,
      flatten_alternate_append _ _ hlast1 hlast2]
  rw [merge_eq, hexpected, reads_iff_strings, reads_iff_strings]
  cases m.zeroBehindBuf with
  | true =>
    rw [mergeLines_eq h1 h2, Option.map_some, Option.map_some, Option.some.injEq,
      filter_flatten_strncpy hwritten, flatten_mergedLines_eq_iff (fun _ => ne_nil_of_mem_strings)
        fun _ => ne_nil_of_mem_strings]
    simp only [true_or, true_and]
  | false =>
    simp only [Bool.false_eq_true, false_or]
    by_cases hnil : strings file1 = [] ∧ strings file2 = []
    · rw [hnil.1, hnil.2, mergeLines_nil]
      simp [alternate]
    · rw [mergeLines_unreadable hnil]
      exact iff_of_false (by rintro ⟨⟩) fun h => hnil h.1

theorem merge_alternates_iff_oneLine :
    (merge (sys true) [97, 10] []).map (·.filter (· ≠ 0)) =
        some ((alternate (lines [97, 10]) (lines [])).flatten.filter (· ≠ 0)) ↔
      ((sys true).Reads [97, 10] ∧ (sys true).Reads []) ∧
        ((strings [97, 10]).length = (strings []).length ∨
          (strings [97, 10]).length = (strings []).length + 1) :=
  merge_alternates_iff (fits_of_length_lt (by decide)) (fits_of_length_lt (by decide))

/-- The only line of the second file is written twice when the first file is empty. -/
theorem not_merge_alternates :
    ¬ ∀ file1 file2 : List UInt8, Fits file1 → Fits file2 →
      (merge (sys true) file1 file2).map (·.filter (· ≠ 0)) =
        some ((alternate (lines file1) (lines file2)).flatten.filter (· ≠ 0)) := by
  intro hclaim
  have h := hclaim [] [97, 10] (fits_of_length_lt (by decide)) (fits_of_length_lt (by decide))
  have hstrings : strings [97, 10] = [[97, 10]] := by
    refine (strings_append (by decide : NEWLINE ∉ [97]) []).trans ?_
    rw [strings_of_eq_nil rfl]
    rfl
  have hmerged : mergeLines true ([], false) ([[97, 10]], false) [] =
      some (mergedLines [] [[97, 10]]) := mergeLines_eq (by simp) (by decide) []
  rw [merge_eq, strings_of_eq_nil rfl, hstrings, sys, hmerged] at h
  revert h
  decide

end Sysopy.TextLibrary
