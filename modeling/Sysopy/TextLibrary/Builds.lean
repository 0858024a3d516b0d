import Sysopy.TextLibrary.Merged

/-!
# Agreement of the builds

A file that is opened for writing keeps what it holds in one build and is emptied in the other.
So the builds agree where the old contents are covered by what is written, and both can read the
input files.
-/
namespace Sysopy.TextLibrary

open CInteger CString CText Stdio

/-- A call of one of the functions: the contents of the input files, the contents of the output
files before it, and its other arguments. -/
inductive Call
  | merge (file1 file2 : List UInt8)
  | filterWithSign (file : List UInt8) (sign : UInt8)
  | filterNumbers (file a b c : List UInt8)
  | replace (file outFile n1 n2 : List UInt8)
  | breakLines (file outFile : List UInt8) (breakpoint : ℤ)

/-- What is written to standard output, or the contents of the output files afterwards. -/
def Call.run (m : Interface) (root : ℤ → ℤ) : Call → Option (List (List UInt8))
  | .merge file1 file2 => (TextLibrary.merge m file1 file2).map fun out => [out]
  | .filterWithSign file sign => (TextLibrary.filterWithSign m file sign).map fun out => [out]
  | .filterNumbers file a b c =>
    (TextLibrary.filterNumbers m root file a b c).map fun (a, b, c) => [a, b, c]
  | .replace file outFile n1 n2 =>
    (TextLibrary.replace m file outFile n1 n2).map fun out => [out]
  | .breakLines file outFile breakpoint =>
    (TextLibrary.breakLines m file outFile breakpoint).map fun out => [out]

/-- Every line of the input files can be read. -/
def Call.Reads (m : Interface) : Call → Prop
  | .merge file1 file2 => m.Reads file1 ∧ m.Reads file2
  | .filterWithSign file _ | .filterNumbers file _ _ _ | .replace file _ _ _
  | .breakLines file _ _ => m.Reads file

/-- How many bytes `filterNumbers` writes for the numbers that it selects. -/
def selectedSize (p : ℤ → Prop) [DecidablePred p] (ls : List (List UInt8)) : ℕ :=
  ((ls.filter fun line => p (atoi line)).map fun line => numberSize (atoi line) + 1).sum

/-- No output file holds more bytes before the call than are written to it. -/
def Call.Covered (root : ℤ → ℤ) : Call → Prop
  | .merge _ _ | .filterWithSign _ _ => True
  | .filterNumbers file a b c =>
    a.length ≤ 23 + numberSize (evenCount (strings file)) ∧
      b.length ≤ selectedSize InB (strings file) ∧
      c.length ≤ selectedSize (InC root) (strings file)
  | .replace file outFile n1 n2 =>
    outFile.length ≤ ((strings file).map fun line => (bufSize n1 n2 line).toNat).sum
  | .breakLines file outFile breakpoint =>
    outFile.length ≤ ((strings file).map fun line => (brokenSize breakpoint line).toNat).sum

/-! ## What is written -/

theorem length_evenBlock (evenCounter : ℤ) :
    (evenBlock evenCounter).length = 23 + numberSize evenCounter :=
  length_strncpy _ _

theorem length_selected (p : ℤ → Prop) [DecidablePred p] (ls : List (List UInt8)) :
    (selected p ls).flatten.length = selectedSize p ls := by
  rw [selected, selectedSize, List.length_flatten, List.map_map]
  exact congrArg List.sum (List.map_congr_left fun line _ => length_strncpy _ _)

theorem length_replaceLine {n1 n2 : List UInt8} (line block : List UInt8)
    (h : replaceLine n1 n2 line = some block) :
    block.length = (bufSize n1 n2 line).toNat := by
  unfold replaceLine at h
  split at h
  · cases h
  · rename_i buf _
    split_ifs at h with hfits
    obtain rfl := Option.some.inj h
    rw [List.length_append, length_strncpy, List.length_singleton]
    omega

theorem length_breakLine {breakpoint : ℤ} (line block : List UInt8)
    (h : breakLine breakpoint line = some block) :
    block.length = (brokenSize breakpoint line).toNat := by
  unfold breakLine at h
  dsimp only at h
  split_ifs at h with hzero hwhole hinside
  · obtain rfl := Option.some.inj h
    rw [length_strncpy, brokenSize, hwhole, Int.add_zero, Int.toNat_natCast]
  · obtain rfl := Option.some.inj h
    exact length_strncpy _ _

/-! ## Reading -/

/-- The build in which a zero lies behind `buf`. -/
def Interface.withZero (m : Interface) : Interface := { m with zeroBehindBuf := true }

section Reading

variable {m : Interface} (root : ℤ → ℤ) {call : Call}

theorem merge_withZero {file1 file2 : List UInt8} (h : m.Reads file1 ∧ m.Reads file2) :
    merge m file1 file2 = merge m.withZero file1 file2 := by
  rw [merge_eq, merge_eq]
  rw [reads_iff_strings, reads_iff_strings] at h
  cases hzero : m.zeroBehindBuf with
  | true => rfl
  | false =>
    rw [hzero] at h
    rw [h.1.resolve_left Bool.false_ne_true, h.2.resolve_left Bool.false_ne_true, mergeLines_nil,
      mergeLines_nil]

theorem run_of_reads (h : call.Reads m) : call.run m root = call.run m.withZero root := by
  have hzero : ∀ file, m.withZero.Reads file := fun _ => .inl rfl
  cases call with
  | merge file1 file2 => rw [Call.run, Call.run, merge_withZero h]
  | filterWithSign file sign =>
    have hreads : m.Reads file := h
    rw [Call.run, Call.run, filterWithSign_eq, filterWithSign_eq]
    simp only [hreads, hzero, true_and]
  | filterNumbers file a b c =>
    have hreads : m.Reads file := h
    rw [Call.run, Call.run, filterNumbers_eq, filterNumbers_eq]
    simp only [hreads, hzero, true_and]
    rfl
  | replace file outFile n1 n2 =>
    rw [Call.run, Call.run, replace_eq, replace_eq, blocks_of_reads h,
      blocks_of_reads (hzero file)]
    rfl
  | breakLines file outFile breakpoint =>
    rw [Call.run, Call.run, breakLines_eq, breakLines_eq, blocks_of_reads h,
      blocks_of_reads (hzero file)]
    rfl

theorem run_of_not_reads (h : ¬ call.Reads m) : call.run m root = none := by
  cases call with
  | merge file1 file2 =>
    have hreads : ¬ (m.Reads file1 ∧ m.Reads file2) := h
    rw [reads_iff_strings, reads_iff_strings] at hreads
    cases hzero : m.zeroBehindBuf with
    | true => simp [hzero] at hreads
    | false =>
      rw [hzero] at hreads
      simp only [Bool.false_eq_true, false_or] at hreads
      rw [Call.run, merge_eq, hzero, mergeLines_unreadable hreads]
      rfl
  | filterWithSign file sign =>
    rw [Call.run, filterWithSign_eq, if_neg fun hreads => h hreads.1]
    rfl
  | filterNumbers file a b c =>
    rw [Call.run, filterNumbers_eq, if_neg fun hreads => h hreads.1]
    rfl
  | replace file outFile n1 n2 =>
    rw [Call.run, replace_eq, blocks_of_not_reads h, ite_self]
    rfl
  | breakLines file outFile breakpoint =>
    rw [Call.run, breakLines_eq, blocks_of_not_reads h]
    rfl

end Reading

/-! ## Agreement -/

variable (buffering : Buffering)

/-- The builds leave the same content if and only if the old one is covered. -/
theorem content_eq_iff (bytes : List UInt8) (blocks : List (List UInt8)) :
    (sys true).content bytes blocks = (lib true buffering).content bytes blocks ↔
      bytes.length ≤ blocks.flatten.length := by
  have hlib : (lib true buffering).content bytes blocks = blocks.flatten :=
    (congrArg (blocks.flatten ++ ·) List.drop_nil).trans (List.append_nil _)
  rw [hlib, sys]
  exact List.append_right_eq_self.trans List.drop_eq_nil_iff

theorem output_eq_iff {f : List UInt8 → Option (List UInt8)} {size : List UInt8 → ℕ}
    (hsize : ∀ line block, f line = some block → block.length = size line)
    {ls : List (List UInt8)} {blocks : List (List UInt8)} (h : blocksOf f ls = some blocks)
    (outFile : List UInt8) :
    [(sys true).content outFile blocks] = [(lib true buffering).content outFile blocks] ↔
      outFile.length ≤ (ls.map size).sum := by
  rw [List.singleton_inj, content_eq_iff, length_flatten_blocksOf hsize h]

/-- The builds with the zero give the same result if and only if what they write covers the output
files. -/
theorem run_eq_iff (root : ℤ → ℤ) (call : Call) (h : (call.run (sys true) root).isSome = true) :
    call.run (sys true) root = call.run (lib true buffering) root ↔ call.Covered root := by
  cases call with
  | merge file1 file2 =>
    refine iff_of_true ?_ trivial
    rw [Call.run, Call.run, merge_eq, merge_eq]
    rfl
  | filterWithSign file sign =>
    refine iff_of_true ?_ trivial
    rw [Call.run, Call.run, filterWithSign_eq, filterWithSign_eq]
    rfl
  | filterNumbers file a b c =>
    rw [Call.run, filterNumbers_eq] at h
    have hfits : Fits file := by
      by_contra hlong
      rw [if_neg fun hreads => hlong hreads.2] at h
      cases h
    rw [Call.run, Call.run, filterNumbers_eq, filterNumbers_eq, if_pos ⟨.inl rfl, hfits⟩,
      if_pos ⟨.inl rfl, hfits⟩]
    simp only [Option.map_some, Option.some.injEq, List.cons.injEq, and_true]
    rw [content_eq_iff, content_eq_iff, content_eq_iff, length_selected, length_selected,
      List.flatten_singleton, length_evenBlock]
    rfl
  | replace file outFile n1 n2 =>
    rw [Call.run, replace_eq] at h
    rw [Call.run, Call.run, replace_eq, replace_eq]
    by_cases hsized : Sized n1 n2
    · rw [if_pos hsized, blocks_of_reads (.inl rfl)] at h ⊢
      rw [if_pos hsized, blocks_of_reads (.inl rfl)]
      cases hblocks : blocksOf (replaceLine n1 n2) (strings file) with
      | none => rw [hblocks] at h; cases h
      | some blocks =>
        exact Option.some_inj.trans
          (output_eq_iff buffering length_replaceLine hblocks outFile)
    · rw [if_neg hsized] at h
      cases h
  | breakLines file outFile breakpoint =>
    rw [Call.run, breakLines_eq, blocks_of_reads (.inl rfl)] at h
    rw [Call.run, Call.run, breakLines_eq, breakLines_eq, blocks_of_reads (.inl rfl),
      blocks_of_reads (.inl rfl)]
    cases hblocks : blocksOf (breakLine breakpoint) (strings file) with
    | none => rw [hblocks] at h; cases h
    | some blocks =>
      exact Option.some_inj.trans
        (output_eq_iff buffering length_breakLine hblocks outFile)

/-- Two builds give the same result if and only if both can read the input files, and what they
write covers the output files. -/
theorem builds_agree_iff (root : ℤ → ℤ) (call : Call) (zero zero' : Bool)
    (h : (call.run (sys true) root).isSome = true) :
    (∃ result, call.run (sys zero) root = some result ∧
        call.run (lib zero' buffering) root = some result) ↔
      (call.Reads (sys zero) ∧ call.Reads (lib zero' buffering)) ∧ call.Covered root := by
  rw [← run_eq_iff buffering root call h]
  by_cases hsys : call.Reads (sys zero)
  · by_cases hlib : call.Reads (lib zero' buffering)
    · obtain ⟨result, hresult⟩ := Option.isSome_iff_exists.mp h
      have hsys' : call.run (sys zero) root = some result :=
        (run_of_reads root hsys).trans hresult
      have hlib' : call.run (lib zero' buffering) root = call.run (lib true buffering) root :=
        run_of_reads root hlib
      rw [hsys', hlib', hresult]
      simp [hsys, hlib, eq_comm]
    · rw [run_of_not_reads root hlib]
      exact iff_of_false (by rintro ⟨_, _, ⟨⟩⟩) fun hreads => hlib hreads.1.2
  · rw [run_of_not_reads root hsys]
    exact iff_of_false (by rintro ⟨_, ⟨⟩, _⟩) fun hreads => hsys hreads.1.1

/-- A stream that reads one byte at a time and writes at once. -/
def unbuffered : Buffering := ⟨1, Nat.one_pos, List.length⟩

/-- The integer that is nearest to the square root. -/
def nearestRoot (number : ℤ) : ℤ := ((4 * number).sqrt + 1) / 2

theorem run_breakLines_nil (m : Interface) (root : ℤ → ℤ) (outFile : List UInt8)
    (breakpoint : ℤ) :
    (Call.breakLines [] outFile breakpoint).run m root = some [m.kept outFile] := by
  rw [Call.run, breakLines_eq, blocks_of_reads (.inr rfl), strings_of_eq_nil rfl]
  rfl

theorem builds_agree_iff_noInput :
    (∃ result, (Call.breakLines [] [120] 50).run (sys true) nearestRoot = some result ∧
        (Call.breakLines [] [120] 50).run (lib true unbuffered) nearestRoot = some result) ↔
      ((Call.breakLines [] [120] 50).Reads (sys true) ∧
          (Call.breakLines [] [120] 50).Reads (lib true unbuffered)) ∧
        (Call.breakLines [] [120] 50).Covered nearestRoot :=
  builds_agree_iff unbuffered nearestRoot (.breakLines [] [120] 50) true true (by
    rw [run_breakLines_nil]
    rfl)

/-- Nothing is written for an empty input file, and an output file with one byte keeps it. -/
theorem not_builds_agree :
    (Call.breakLines [] [120] 50).run (sys true) nearestRoot ≠
      (Call.breakLines [] [120] 50).run (lib true unbuffered) nearestRoot := by
  rw [run_breakLines_nil, run_breakLines_nil]
  decide

end Sysopy.TextLibrary
