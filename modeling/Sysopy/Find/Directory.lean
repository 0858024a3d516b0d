import Sysopy.Find.Pattern
import Sysopy.Library.CInteger

/-!
# Searching a directory tree

`find` reports the text files of a directory that contain the pattern, and has a forked child
search every subdirectory. A child starts with a copy of the bytes that its parent has printed
but not yet written, and its exit writes them; a process that compares the extension of a name
without a dot is killed by the null pointer. Files and directories can be opened, and processes
forked.
-/
namespace Sysopy.Find

open CInteger CString

def DOT : UInt8 := 46

def SLASH : UInt8 := 47

/-- The string ".txt". -/
def TXT : List UInt8 := [DOT, 116, 120, 116]

/-- The string ".". -/
def SELF : List UInt8 := [DOT]

/-- The string "..". -/
def PARENT : List UInt8 := [DOT, DOT]

/-- What a directory calls an entry other than itself and its parent. -/
structure FileName where
  d_name : List UInt8
  ne_nil : d_name ≠ []
  zero_notMem : 0 ∉ d_name
  slash_notMem : SLASH ∉ d_name
  ne_self : d_name ≠ SELF
  ne_parent : d_name ≠ PARENT
  deriving DecidableEq

/-- A directory as `readdir` gives its entries; `self` and `parent` are named "." and "..". -/
inductive Directory
  | eof
  | self (rest : Directory)
  | parent (rest : Directory)
  | file (entry : FileName) (content : List UInt8) (rest : Directory)
  | subdirectory (entry : FileName) (entries rest : Directory)

/-- The process that searches the directory of a path, and how many of the buffered bytes a
call of `printf` writes: all of them on a terminal, none while a pipe's buffer has room. -/
structure System where
  getpid : List UInt8 → ℕ
  writes : List UInt8 → ℕ

structure Stdout where
  written : List UInt8
  buffer : List UInt8
  deriving DecidableEq, Repr

/-- The buffer after `printf`. -/
def System.buffered (sys : System) (buffer line : List UInt8) : List UInt8 :=
  (buffer ++ line).drop (sys.writes (buffer ++ line))

def System.printf (sys : System) (line : List UInt8) (out : Stdout) : Stdout where
  written := out.written ++ (out.buffer ++ line).take (sys.writes (out.buffer ++ line))
  buffer := sys.buffered out.buffer line

/-- The line "Pid: %d\tPath: %s\n". -/
def System.report (sys : System) (path newpath : List UInt8) : List UInt8 :=
  [80, 105, 100, 58, 32] ++ decimal (sys.getpid path) ++
    [9, 80, 97, 116, 104, 58, 32] ++ newpath ++ [10]

def newpathOf (path : List UInt8) (entry : FileName) : List UInt8 :=
  path ++ SLASH :: entry.d_name

/-- How a call ends: what the process has printed, whether it was killed, and whether one of
the processes below it was. -/
structure Outcome where
  stdout : Stdout
  killed : Bool
  childKilled : Bool
  deriving DecidableEq, Repr

def Outcome.normal (out : Stdout) : Outcome := ⟨out, false, false⟩

/-- What is written when the process is gone: `exit` writes the buffer, a signal loses it. -/
def Outcome.exit (o : Outcome) : List UInt8 :=
  if o.killed then o.stdout.written else o.stdout.written ++ o.stdout.buffer

section Program

variable (sys : System) (pattern : List UInt8) (depth : ℤ)

def find (directory : Directory) (path : List UInt8) (currentDepth : ℕ) (out : Stdout) :
    Outcome :=
  if currentDepth ≤ depth then
    match directory with
    | .eof => .normal out
    | .self rest | .parent rest => find rest path currentDepth out
    | .file entry content rest =>
      match strrchr DOT entry.d_name with
      | none => ⟨out, true, false⟩
      | some extension =>
        if extension = TXT ∧ containsPattern content pattern = true then
          find rest path currentDepth (sys.printf (sys.report path (newpathOf path entry)) out)
        else find rest path currentDepth out
    | .subdirectory entry entries rest =>
      if entry.d_name ≠ SELF ∧ entry.d_name ≠ PARENT then
        -- the child is waited for, so nothing is written at the same time
        let child := find entries (newpathOf path entry) (currentDepth + 1) out
        let o := find rest path currentDepth { out with written := child.exit }
        { o with childKilled := child.killed || child.childKilled || o.childKilled }
      else find rest path currentDepth out
  else .normal out

/-- The program, on the directory of a path. -/
def main (directory : Directory) (path : List UInt8) : Outcome :=
  find sys pattern depth directory path 0 ⟨[], []⟩

end Program

/-! ## The files of a tree -/

/-- A regular file, with the depth and the path of its directory. -/
structure Regular where
  depth : ℕ
  path : List UInt8
  entry : FileName
  content : List UInt8

def Directory.regulars : Directory → List UInt8 → ℕ → List Regular
  | .eof, _, _ => []
  | .self rest, path, depth | .parent rest, path, depth => rest.regulars path depth
  | .file entry content rest, path, depth =>
    ⟨depth, path, entry, content⟩ :: rest.regulars path depth
  | .subdirectory entry entries rest, path, depth =>
    entries.regulars (newpathOf path entry) (depth + 1) ++ rest.regulars path depth

/-- The files to be reported. -/
def Wanted (pattern : List UInt8) (depth : ℤ) (file : Regular) : Prop :=
  file.depth ≤ depth ∧ TXT <:+ file.entry.d_name ∧ pattern <:+: file.content

instance instDecidablePredWanted (pattern : List UInt8) (depth : ℤ) :
    DecidablePred (Wanted pattern depth) := fun _ =>
  inferInstanceAs (Decidable (_ ∧ _ ∧ _))

def Regular.report (sys : System) (file : Regular) : List UInt8 :=
  sys.report file.path (newpathOf file.path file.entry)

/-- The processes end normally and together write one report of each of the files. -/
structure Reports (sys : System) (o : Outcome) (wanted : List Regular) : Prop where
  killed : o.killed = false
  childKilled : o.childKilled = false
  written : ∃ files : List Regular, files.Perm wanted ∧
    o.exit = (files.map (Regular.report sys)).flatten

/-- Every regular file that `find` comes to has a dot in its name. -/
def Dotted (depth : ℤ) (directory : Directory) (path : List UInt8) (currentDepth : ℕ) : Prop :=
  ∀ file ∈ directory.regulars path currentDepth, file.depth ≤ depth → DOT ∈ file.entry.d_name

/-- No subdirectory comes while reports of the files before it are buffered. -/
def EmptyAtForks (sys : System) (pattern : List UInt8) (depth : ℤ) :
    Directory → List UInt8 → ℕ → List UInt8 → Prop
  | .eof, _, _, _ => True
  | .self rest, path, currentDepth, buffer | .parent rest, path, currentDepth, buffer =>
    EmptyAtForks sys pattern depth rest path currentDepth buffer
  | .file entry content rest, path, currentDepth, buffer =>
    EmptyAtForks sys pattern depth rest path currentDepth
      (if Wanted pattern depth ⟨currentDepth, path, entry, content⟩ then
        sys.buffered buffer (sys.report path (newpathOf path entry))
      else buffer)
  | .subdirectory entry entries rest, path, currentDepth, buffer =>
    (currentDepth ≤ depth → buffer = [] ∧
      EmptyAtForks sys pattern depth entries (newpathOf path entry) (currentDepth + 1) []) ∧
    EmptyAtForks sys pattern depth rest path currentDepth buffer

section Trees

variable {sys : System} {pattern : List UInt8} {depth : ℤ}

theorem le_depth_of_mem_regulars {directory : Directory} {path : List UInt8} {currentDepth : ℕ}
    {file : Regular} (h : file ∈ directory.regulars path currentDepth) :
    currentDepth ≤ file.depth := by
  fun_induction directory.regulars path currentDepth with
  | case1 => cases h
  | case2 path currentDepth rest ih | case3 path currentDepth rest ih => exact ih h
  | case4 entry content rest path currentDepth ih =>
    rcases List.mem_cons.mp h with rfl | h
    · exact le_rfl
    · exact ih h
  | case5 entry entries rest path currentDepth ihentries ihrest =>
    rcases List.mem_append.mp h with h | h
    · exact (Nat.le_succ _).trans (ihentries h)
    · exact ihrest h

theorem dotted_of_lt {directory : Directory} {path : List UInt8} {currentDepth : ℕ}
    (h : ¬ (currentDepth : ℤ) ≤ depth) : Dotted depth directory path currentDepth := by
  intro file hfile hdepth
  have hle := le_depth_of_mem_regulars hfile
  omega

theorem dotted_file {entry : FileName} {content : List UInt8} {rest : Directory}
    {path : List UInt8} {currentDepth : ℕ} (h : (currentDepth : ℤ) ≤ depth) :
    Dotted depth (.file entry content rest) path currentDepth ↔
      DOT ∈ entry.d_name ∧ Dotted depth rest path currentDepth := by
  rw [Dotted, Directory.regulars, List.forall_mem_cons]
  exact and_congr_left fun _ => ⟨fun hdot => hdot h, fun hdot _ => hdot⟩

theorem dotted_subdirectory {entry : FileName} {entries rest : Directory} {path : List UInt8}
    {currentDepth : ℕ} :
    Dotted depth (.subdirectory entry entries rest) path currentDepth ↔
      Dotted depth entries (newpathOf path entry) (currentDepth + 1) ∧
        Dotted depth rest path currentDepth := by
  rw [Dotted, Directory.regulars, List.forall_mem_append]
  rfl

/-- A process is killed if and only if a name without a dot is come to. -/
theorem normal_iff_dotted (directory : Directory) (path : List UInt8) (currentDepth : ℕ)
    (out : Stdout) :
    (find sys pattern depth directory path currentDepth out).killed = false ∧
      (find sys pattern depth directory path currentDepth out).childKilled = false ↔
    Dotted depth directory path currentDepth := by
  fun_induction find sys pattern depth directory path currentDepth out with
  | case1 path currentDepth out hrange =>
    exact iff_of_true ⟨rfl, rfl⟩ fun _ h => nomatch h
  | case2 path currentDepth out hrange rest ih | case3 path currentDepth out hrange rest ih =>
    exact ih
  | case4 path currentDepth out hrange entry content rest hext =>
    rw [dotted_file hrange]
    exact iff_of_false (by simp) fun h => strrchr_eq_none_iff.mp hext h.1
  | case5 path currentDepth out hrange entry content rest extension hext hreport ih
  | case6 path currentDepth out hrange entry content rest extension hext hreport ih =>
    have hdot : DOT ∈ entry.d_name := by
      by_contra h
      cases (strrchr_eq_none_iff.mpr h).symm.trans hext
    rw [dotted_file hrange, ih, and_iff_right hdot]
  | case7 path currentDepth out hrange entry entries rest hname child o ihentries ihrest =>
    rw [dotted_subdirectory, ← ihentries, ← ihrest]
    simp only [Bool.or_eq_false_iff]
    tauto
  | case8 path currentDepth out hrange entry entries rest hname ih =>
    exact absurd ⟨entry.ne_self, entry.ne_parent⟩ hname
  | case9 directory path currentDepth out hrange =>
    exact iff_of_true ⟨rfl, rfl⟩ (dotted_of_lt hrange)

/-! ## What is written -/

theorem extension_iff_wanted (hpattern : 0 ∉ pattern) {entry : FileName}
    {extension content : List UInt8} (path : List UInt8) {currentDepth : ℕ}
    (hrange : (currentDepth : ℤ) ≤ depth) (hext : strrchr DOT entry.d_name = some extension) :
    extension = TXT ∧ containsPattern content pattern = true ↔
      Wanted pattern depth ⟨currentDepth, path, entry, content⟩ := by
  have htxt : extension = TXT ↔ TXT <:+ entry.d_name := by
    rw [TXT, ← strrchr_eq_some_iff (by decide), hext, Option.some.injEq]
  rw [htxt, containsPattern_iff hpattern, Wanted, and_iff_right hrange]

/-- The reports of the files that are wanted, in the order of the search. -/
def reports (sys : System) (pattern : List UInt8) (depth : ℤ) (directory : Directory)
    (path : List UInt8) (currentDepth : ℕ) : List UInt8 :=
  (((directory.regulars path currentDepth).filter (Wanted pattern depth ·)).map
    (Regular.report sys)).flatten

theorem reports_of_lt {directory : Directory} {path : List UInt8} {currentDepth : ℕ}
    (h : ¬ (currentDepth : ℤ) ≤ depth) :
    reports sys pattern depth directory path currentDepth = [] := by
  have hnone : (directory.regulars path currentDepth).filter (Wanted pattern depth ·) = [] := by
    apply List.filter_eq_nil_iff.mpr
    intro file hfile hwanted
    have hle := le_depth_of_mem_regulars hfile
    have hdepth := (of_decide_eq_true hwanted).1
    omega
  rw [reports, hnone]
  rfl

theorem reports_file (entry : FileName) (content : List UInt8) (rest : Directory)
    (path : List UInt8) (currentDepth : ℕ) :
    reports sys pattern depth (.file entry content rest) path currentDepth =
      (if Wanted pattern depth ⟨currentDepth, path, entry, content⟩ then
        sys.report path (newpathOf path entry) else []) ++
      reports sys pattern depth rest path currentDepth := by
  rw [reports, Directory.regulars, List.filter_cons]
  by_cases hwanted : Wanted pattern depth ⟨currentDepth, path, entry, content⟩
  · rw [if_pos (decide_eq_true hwanted), if_pos hwanted]
    rfl
  · rw [if_neg (by simpa using hwanted), if_neg hwanted]
    rfl

theorem reports_subdirectory (entry : FileName) (entries rest : Directory) (path : List UInt8)
    (currentDepth : ℕ) :
    reports sys pattern depth (.subdirectory entry entries rest) path currentDepth =
      reports sys pattern depth entries (newpathOf path entry) (currentDepth + 1) ++
        reports sys pattern depth rest path currentDepth := by
  simp only [reports, Directory.regulars, List.filter_append, List.map_append,
    List.flatten_append]

theorem written_printf (line : List UInt8) (out : Stdout) :
    (sys.printf line out).written ++ (sys.printf line out).buffer =
      out.written ++ out.buffer ++ line := by
  simp only [System.printf, System.buffered, List.append_assoc, List.take_append_drop]

theorem exit_of_dotted {directory : Directory} {path : List UInt8} {currentDepth : ℕ}
    (h : Dotted depth directory path currentDepth) (out : Stdout) :
    (find sys pattern depth directory path currentDepth out).exit =
      (find sys pattern depth directory path currentDepth out).stdout.written ++
        (find sys pattern depth directory path currentDepth out).stdout.buffer := by
  rw [Outcome.exit, ((normal_iff_dotted directory path currentDepth out).mpr h).1]
  rfl

theorem emptyAtForks_of_lt {directory : Directory} {path buffer : List UInt8}
    {currentDepth : ℕ} (h : ¬ (currentDepth : ℤ) ≤ depth) :
    EmptyAtForks sys pattern depth directory path currentDepth buffer := by
  fun_induction EmptyAtForks sys pattern depth directory path currentDepth buffer with
  | case1 => trivial
  | case2 rest path currentDepth buffer ih | case3 rest path currentDepth buffer ih
  | case4 entry content rest path currentDepth buffer ih => exact ih h
  | case5 entry entries rest path currentDepth buffer ihentries ihrest =>
    exact ⟨fun hrange => absurd hrange h, ihrest h⟩

/-- With nothing buffered at the forks, the reports are written one behind the other. -/
theorem written_find (hpattern : 0 ∉ pattern) (directory : Directory) (path : List UInt8)
    (currentDepth : ℕ) (out : Stdout) (hdotted : Dotted depth directory path currentDepth)
    (hempty : EmptyAtForks sys pattern depth directory path currentDepth out.buffer) :
    (find sys pattern depth directory path currentDepth out).stdout.written ++
        (find sys pattern depth directory path currentDepth out).stdout.buffer =
      out.written ++ out.buffer ++
        reports sys pattern depth directory path currentDepth := by
  fun_induction find sys pattern depth directory path currentDepth out with
  | case1 path currentDepth out hrange => exact (List.append_nil _).symm
  | case2 path currentDepth out hrange rest ih | case3 path currentDepth out hrange rest ih =>
    exact ih hdotted hempty
  | case4 path currentDepth out hrange entry content rest hext =>
    exact absurd ((dotted_file hrange).mp hdotted).1 (strrchr_eq_none_iff.mp hext)
  | case5 path currentDepth out hrange entry content rest extension hext hreport ih =>
    have hwanted := (extension_iff_wanted hpattern path hrange hext).mp hreport
    rw [EmptyAtForks, if_pos hwanted] at hempty
    rw [ih ((dotted_file hrange).mp hdotted).2 hempty, written_printf, reports_file,
      if_pos hwanted, List.append_assoc]
  | case6 path currentDepth out hrange entry content rest extension hext hreport ih =>
    have hwanted := mt (extension_iff_wanted hpattern path hrange hext).mpr hreport
    rw [EmptyAtForks, if_neg hwanted] at hempty
    rw [ih ((dotted_file hrange).mp hdotted).2 hempty, reports_file, if_neg hwanted,
      List.nil_append]
  | case7 path currentDepth out hrange entry entries rest hname child o ihentries ihrest =>
    obtain ⟨hdotted, hdottedRest⟩ := dotted_subdirectory.mp hdotted
    obtain ⟨hentries, hrest⟩ := hempty
    obtain ⟨hbuffer, hentries⟩ := hentries hrange
    have hchild : child.exit = out.written ++
        reports sys pattern depth entries (newpathOf path entry) (currentDepth + 1) := by
      rw [exit_of_dotted hdotted, ihentries hdotted (hbuffer ▸ hentries), hbuffer,
        List.append_nil]
    dsimp only at ihrest ⊢
    rw [ihrest hdottedRest hrest, hchild, hbuffer, reports_subdirectory]
    simp only [List.append_nil, List.append_assoc]
  | case8 path currentDepth out hrange entry entries rest hname ih =>
    exact absurd ⟨entry.ne_self, entry.ne_parent⟩ hname
  | case9 directory path currentDepth out hrange =>
    rw [reports_of_lt hrange, List.append_nil]
    rfl

/-- The bytes that are written are those of the reports and the copies of what is buffered at a
fork. -/
theorem length_find (hpattern : 0 ∉ pattern) (directory : Directory) (path : List UInt8)
    (currentDepth : ℕ) (out : Stdout) (hdotted : Dotted depth directory path currentDepth) :
    ∃ copied : ℕ,
      ((find sys pattern depth directory path currentDepth out).stdout.written ++
        (find sys pattern depth directory path currentDepth out).stdout.buffer).length =
      (out.written ++ out.buffer).length +
        (reports sys pattern depth directory path currentDepth).length + copied ∧
      (copied = 0 ↔ EmptyAtForks sys pattern depth directory path currentDepth out.buffer) := by
  fun_induction find sys pattern depth directory path currentDepth out with
  | case1 path currentDepth out hrange => exact ⟨0, rfl, iff_of_true rfl trivial⟩
  | case2 path currentDepth out hrange rest ih | case3 path currentDepth out hrange rest ih =>
    exact ih hdotted
  | case4 path currentDepth out hrange entry content rest hext =>
    exact absurd ((dotted_file hrange).mp hdotted).1 (strrchr_eq_none_iff.mp hext)
  | case5 path currentDepth out hrange entry content rest extension hext hreport ih =>
    have hwanted := (extension_iff_wanted hpattern path hrange hext).mp hreport
    obtain ⟨copied, hlength, hcopied⟩ := ih ((dotted_file hrange).mp hdotted).2
    refine ⟨copied, ?_, ?_⟩
    · rw [hlength, written_printf, reports_file, if_pos hwanted]
      simp only [List.length_append]
      omega
    · rw [EmptyAtForks, if_pos hwanted]
      exact hcopied
  | case6 path currentDepth out hrange entry content rest extension hext hreport ih =>
    have hwanted := mt (extension_iff_wanted hpattern path hrange hext).mpr hreport
    obtain ⟨copied, hlength, hcopied⟩ := ih ((dotted_file hrange).mp hdotted).2
    refine ⟨copied, ?_, ?_⟩
    · rw [hlength, reports_file, if_neg hwanted, List.nil_append]
    · rw [EmptyAtForks, if_neg hwanted]
      exact hcopied
  | case7 path currentDepth out hrange entry entries rest hname child o ihentries ihrest =>
    obtain ⟨hdotted, hdottedRest⟩ := dotted_subdirectory.mp hdotted
    obtain ⟨copied, hlength, hcopied⟩ := ihentries hdotted
    obtain ⟨copiedRest, hlengthRest, hcopiedRest⟩ := ihrest hdottedRest
    have hchild : child.exit.length = (out.written ++ out.buffer).length +
        (reports sys pattern depth entries (newpathOf path entry) (currentDepth + 1)).length +
          copied := by
      rw [exit_of_dotted hdotted, hlength]
    refine ⟨out.buffer.length + copied + copiedRest, ?_, ?_⟩
    · dsimp only at hlengthRest ⊢
      rw [hlengthRest, reports_subdirectory]
      simp only [List.length_append] at hchild ⊢
      omega
    · rw [EmptyAtForks, ← hcopiedRest, forall_prop_of_true hrange]
      constructor
      · intro hzero
        have hbuffer : out.buffer = [] := List.eq_nil_of_length_eq_zero (by omega)
        have hentries := hcopied.mp (by omega)
        rw [hbuffer] at hentries
        exact ⟨⟨hbuffer, hentries⟩, by omega⟩
      · rintro ⟨⟨hbuffer, hentries⟩, hrest⟩
        rw [← hbuffer] at hentries
        rw [hcopied.mpr hentries, hrest, hbuffer]
        rfl
  | case8 path currentDepth out hrange entry entries rest hname ih =>
    exact absurd ⟨entry.ne_self, entry.ne_parent⟩ hname
  | case9 directory path currentDepth out hrange =>
    refine ⟨0, ?_, iff_of_true rfl (emptyAtForks_of_lt hrange)⟩
    rw [reports_of_lt hrange]
    rfl

end Trees

/-- The search reports each file that it should once, if and only if it comes to no name without
a dot and forks only while nothing is buffered. -/
theorem main_reports_iff (sys : System) (pattern : List UInt8) (hpattern : 0 ∉ pattern)
    (depth : ℤ) (directory : Directory) (path : List UInt8) :
    Reports sys (main sys pattern depth directory path)
        ((directory.regulars path 0).filter (Wanted pattern depth ·)) ↔
      Dotted depth directory path 0 ∧ EmptyAtForks sys pattern depth directory path 0 [] := by
  constructor
  · rintro ⟨hkilled, hchild, files, hperm, hwritten⟩
    have hdotted : Dotted depth directory path 0 :=
      (normal_iff_dotted directory path 0 ⟨[], []⟩).mp ⟨hkilled, hchild⟩
    obtain ⟨copied, hlength, hcopied⟩ :=
      @length_find sys pattern depth hpattern directory path 0 ⟨[], []⟩ hdotted
    refine ⟨hdotted, hcopied.mp ?_⟩
    have hreports : (main sys pattern depth directory path).exit.length =
        (reports sys pattern depth directory path 0).length := by
      rw [hwritten]
      exact (hperm.map _).flatten.length_eq
    rw [main, exit_of_dotted hdotted, hlength] at hreports
    simpa using hreports
  · rintro ⟨hdotted, hempty⟩
    obtain ⟨hkilled, hchild⟩ :=
      (@normal_iff_dotted sys pattern depth directory path 0 ⟨[], []⟩).mpr hdotted
    refine ⟨hkilled, hchild, _, List.Perm.refl _, ?_⟩
    rw [main, exit_of_dotted hdotted,
      written_find hpattern directory path 0 ⟨[], []⟩ hdotted hempty]
    rfl

/-- The program on a terminal. -/
def terminal : System := ⟨fun _ => 1, List.length⟩

/-- The file "a.txt". -/
def aTxt : FileName :=
  ⟨[97, 46, 116, 120, 116], by decide, by decide, by decide, by decide, by decide⟩

theorem main_reports_iff_aTxt :
    Reports terminal (main terminal [120] 0 (.file aTxt [120, 10] .eof) [DOT])
        (((Directory.file aTxt [120, 10] .eof).regulars [DOT] 0).filter (Wanted [120] 0 ·)) ↔
      Dotted 0 (.file aTxt [120, 10] .eof) [DOT] 0 ∧
        EmptyAtForks terminal [120] 0 (.file aTxt [120, 10] .eof) [DOT] 0 [] :=
  main_reports_iff terminal [120] (by decide) 0 (.file aTxt [120, 10] .eof) [DOT]

/-- The file "README". -/
def readme : FileName :=
  ⟨[82, 69, 65, 68, 77, 69], by decide, by decide, by decide, by decide, by decide⟩

/-- A directory with this one file cannot be searched. -/
theorem not_main_reports :
    ¬ Reports terminal (main terminal [120] 0 (.file readme [] .eof) [DOT])
        (((Directory.file readme [] .eof).regulars [DOT] 0).filter (Wanted [120] 0 ·)) := by
  intro h
  exact absurd h.killed (by decide)

end Sysopy.Find
