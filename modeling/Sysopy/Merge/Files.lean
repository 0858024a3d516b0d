import Sysopy.Library.CText

/-!
# Merged files and blocks

`merge` writes the lines of two files alternately, each as `getline` gives it, and `read_block`
reads the merged file into as many rows as it has newlines. So the last line of a file that
lacks its newline is joined to the line behind it, or is no row at all.
-/
namespace Sysopy.Merge

open CString CText

/-- `countlines`: the newlines of the file. -/
def countlines (file : List UInt8) : ℕ := file.count NEWLINE

/-- The loop of `merge`; a line is written as a string. -/
def mergeLoop (f1 f2 fout : List UInt8) : List UInt8 :=
  match _h1 : getline f1, _h2 : getline f2 with
  | none, none => fout
  | some (line, f1), none => mergeLoop f1 f2 (fout ++ contents line)
  | none, some (line, f2) => mergeLoop f1 f2 (fout ++ contents line)
  | some (line1, f1), some (line2, f2) =>
    mergeLoop f1 f2 (fout ++ contents line1 ++ contents line2)
termination_by f1.length + f2.length
decreasing_by
  · have hlt := getline_lt _h1
    omega
  · have hlt := getline_lt _h2
    omega
  · have hlt1 := getline_lt _h1
    have hlt2 := getline_lt _h2
    omega

/-- The contents of the file that `merge` writes. -/
def merge (file1 file2 : List UInt8) : List UInt8 := mergeLoop file1 file2 []

/-- A row is a pointer to as many bytes as `getline` has read. -/
abbrev Row := Option (List UInt8)

structure Block where
  rows : Option (List Row)
  size : ℕ
  current_size : ℤ
  deriving DecidableEq, Repr

/-- The loop of `read_block`: the string is copied into zeroed memory. -/
def readRows : ℕ → List UInt8 → List Row
  | 0, _ => []
  | n + 1, f =>
    match getline f with
    | none => List.replicate (n + 1) none
    | some (line, f) => some (strncpy line.length line) :: readRows n f

def readBlock (file : List UInt8) : Block where
  rows := some (readRows (countlines file) file)
  size := countlines file
  current_size := countlines file

/-! ## The rows of a merged file -/

/-- One line of each in turn, and then what is left of the longer one. -/
def alternate {α : Type*} : List α → List α → List α
  | [], ys => ys
  | x :: xs, [] => x :: xs
  | x :: xs, y :: ys => x :: y :: alternate xs ys

theorem alternate_nil {α : Type*} (xs : List α) : alternate xs [] = xs := by
  cases xs <;> rfl

theorem alternate_perm {α : Type*} (xs ys : List α) : (alternate xs ys).Perm (xs ++ ys) := by
  induction xs, ys using alternate.induct with
  | case1 ys => exact .refl _
  | case2 x xs => simp [alternate]
  | case3 x xs y ys ih =>
    have hmiddle : (y :: (xs ++ ys)).Perm (xs ++ y :: ys) := List.perm_middle.symm
    exact ((ih.cons y).trans hmiddle).cons x

/-- A line without its newline. -/
def withoutNewline (line : List UInt8) : List UInt8 :=
  if line.getLast? = some NEWLINE then line.dropLast else line

/-- The rows that `read_block` loads from the merged file are the lines of both files. -/
def RowsAreLines (file1 file2 : List UInt8) : Prop :=
  (readBlock (merge file1 file2)).rows.map (List.map (Option.map withoutNewline)) =
    some ((alternate (lines file1) (lines file2)).map fun line => some (withoutNewline line))

/-- The loop writes the lines of both files in turn, each up to its first NUL. -/
theorem mergeLoop_eq (f1 f2 fout : List UInt8) :
    mergeLoop f1 f2 fout =
      fout ++ ((alternate (lines f1) (lines f2)).map contents).flatten := by
  fun_induction mergeLoop f1 f2 fout with
  | case1 f1 f2 fout h1 h2 =>
    rw [getline_eq_none_iff.mp h1, getline_eq_none_iff.mp h2]
    simp [lines, alternate]
  | case2 f1 f2 fout line f1' h1 h2 ih =>
    rw [ih, lines_of_getline h1, getline_eq_none_iff.mp h2]
    simp [lines, alternate_nil]
  | case3 f1 f2 fout line f2' h1 h2 ih =>
    rw [ih, lines_of_getline h2, getline_eq_none_iff.mp h1]
    simp [lines, alternate]
  | case4 f1 f2 fout line1 f1' line2 f2' h1 h2 ih =>
    rw [ih, lines_of_getline h1, lines_of_getline h2]
    simp [alternate]

section Text

variable {file file1 file2 : List UInt8}

theorem zero_notMem_line (h : 0 ∉ file) {line : List UInt8} (hline : line ∈ lines file) :
    0 ∉ line := by
  rw [← flatten_lines file] at h
  exact fun hmem => h (List.mem_flatten_of_mem hline hmem)

theorem merge_eq (h1 : 0 ∉ file1) (h2 : 0 ∉ file2) :
    merge file1 file2 = (alternate (lines file1) (lines file2)).flatten := by
  have hcontents : (alternate (lines file1) (lines file2)).map contents =
      alternate (lines file1) (lines file2) := by
    refine (List.map_congr_left fun line hline => ?_).trans (List.map_id _)
    rcases List.mem_append.mp ((alternate_perm _ _).mem_iff.mp hline) with hline | hline
    · exact contents_of_notMem (zero_notMem_line h1 hline)
    · exact contents_of_notMem (zero_notMem_line h2 hline)
  rw [merge, mergeLoop_eq, hcontents, List.nil_append]

theorem countlines_merge (h1 : 0 ∉ file1) (h2 : 0 ∉ file2) :
    countlines (merge file1 file2) = countlines file1 + countlines file2 := by
  have hperm := (alternate_perm (lines file1) (lines file2)).flatten
  rw [List.flatten_append, flatten_lines, flatten_lines] at hperm
  rw [merge_eq h1 h2, countlines, hperm.count_eq, List.count_append]
  rfl

theorem length_readRows (n : ℕ) (f : List UInt8) : (readRows n f).length = n := by
  induction n generalizing f with
  | zero => rfl
  | succ n ih =>
    rw [readRows]
    split
    · simp
    · rw [List.length_cons, ih]

theorem readRows_lines (h : 0 ∉ file) :
    readRows (lines file).length file = (lines file).map some := by
  induction hlines : lines file generalizing file with
  | nil => rfl
  | cons line rest ih =>
    rw [List.length_cons, readRows]
    split
    next hnone =>
      rw [getline_eq_none_iff.mp hnone] at hlines
      cases hlines
    next line' file' hsome =>
      have hfile := lines_of_getline hsome
      obtain ⟨rfl, rfl⟩ := List.cons.inj (hlines.symm.trans hfile)
      have hline : 0 ∉ line := zero_notMem_line h (by rw [hfile]; exact List.mem_cons_self)
      have hrest : 0 ∉ file' := by
        rw [← flatten_lines file, hfile, List.flatten_cons, flatten_lines] at h
        exact fun hmem => h (List.mem_append_right line hmem)
      rw [strncpy_eq_self hline, ih hrest rfl, List.map_cons]

theorem countlines_eq (h : Terminated file) : countlines file = (lines file).length := by
  rw [length_lines, if_pos h, countlines, Nat.add_zero]

theorem length_lines_le (file : List UInt8) : countlines file ≤ (lines file).length ∧
    ((lines file).length ≤ countlines file → Terminated file) := by
  rw [length_lines]
  by_cases h : Terminated file
  · simp [h, countlines]
  · simp [h, countlines]

/-- The merged file has as many newlines as it has lines, which are those of both files. -/
theorem lines_merge (h1 : 0 ∉ file1) (h2 : 0 ∉ file2) (hfile1 : Terminated file1)
    (hfile2 : Terminated file2) :
    lines (merge file1 file2) = alternate (lines file1) (lines file2) := by
  rw [merge_eq h1 h2]
  apply lines_flatten
  intro line hline
  rcases List.mem_append.mp ((alternate_perm _ _).mem_iff.mp hline) with hline | hline
  · exact exists_of_mem_lines hfile1 hline
  · exact exists_of_mem_lines hfile2 hline

theorem zero_notMem_merge (h1 : 0 ∉ file1) (h2 : 0 ∉ file2) : 0 ∉ merge file1 file2 := by
  have hperm := (alternate_perm (lines file1) (lines file2)).flatten
  rw [List.flatten_append, flatten_lines, flatten_lines] at hperm
  rw [merge_eq h1 h2, hperm.mem_iff, List.mem_append]
  exact not_or.mpr ⟨h1, h2⟩

/-- What was read is what was merged, if and only if no last line lacks its newline. -/
theorem rows_are_lines_iff (h1 : 0 ∉ file1) (h2 : 0 ∉ file2) :
    RowsAreLines file1 file2 ↔ Terminated file1 ∧ Terminated file2 := by
  constructor
  · -- there are as many rows as newlines, and at least as many lines
    intro h
    have hlength := congrArg (Option.map List.length) h
    simp only [readBlock, Option.map_some, List.length_map, length_readRows,
      countlines_merge h1 h2, (alternate_perm _ _).length_eq, List.length_append,
      Option.some.injEq] at hlength
    have hle1 := length_lines_le file1
    have hle2 := length_lines_le file2
    exact ⟨hle1.2 (by omega), hle2.2 (by omega)⟩
  · rintro ⟨hfile1, hfile2⟩
    have hlines := lines_merge h1 h2 hfile1 hfile2
    have hcount : countlines (merge file1 file2) = (lines (merge file1 file2)).length := by
      rw [countlines_merge h1 h2, countlines_eq hfile1, countlines_eq hfile2, hlines,
        (alternate_perm _ _).length_eq, List.length_append]
    rw [RowsAreLines, readBlock, hcount, readRows_lines (zero_notMem_merge h1 h2), hlines]
    simp

/-- Two files of one line each. -/
theorem rows_are_lines_iff_twoLines :
    RowsAreLines [97, 10] [98, 10] ↔ Terminated [97, 10] ∧ Terminated [98, 10] :=
  rows_are_lines_iff (by decide) (by decide)

/-- A first file without its newline: its line is joined to the line of the second file. -/
theorem not_rows_are_lines : ¬ RowsAreLines [97] [98, 10] := by
  have hmerge : merge [97] [98, 10] = [97, 98, 10] := by
    rw [merge_eq (by decide) (by decide)]
    rfl
  rw [RowsAreLines, hmerge]
  decide

end Text

end Sysopy.Merge
