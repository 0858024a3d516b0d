import Sysopy.Shell.Vectors

/-!
# Scripts

A script defines aliases and runs pipelines of them. `parsefile` gives `exec` the vectors of
the first definitions of the names, as they are when the line is read. So it is as long as no
child exits without a program while the shell has read ahead of the line: that child sets the
position in the script back, and the shell reads a part of it twice.
-/
namespace Sysopy.Shell

open CBuffer CString Stdio Relation

/-- A line of a script; before each further word stand one space and `n` more. -/
inductive Line where
  | define (name : List UInt8) (spaces : ℕ) (first : List UInt8) (words : List (ℕ × List UInt8))
  | run (first : List UInt8) (names : List (List UInt8))
  | empty

namespace Line

def text : Line → List UInt8
  | define name spaces first words => aliasLine name spaces first words
  | run first names => runLine first names
  | empty => []

/-- The name and the words that a line defines. -/
def definitions : Line → List (List UInt8 × List (List UInt8))
  | define name _ first words => [(name, first :: words.map Prod.snd)]
  | _ => []

/-- Bars at the start or next to each other would only give empty vectors. -/
def WellFormed (defined : List (List UInt8)) : Line → Prop
  | define name _ first words =>
    let words := first :: words.map Prod.snd
    IsWord name ∧ (∀ w ∈ words, IsWord w) ∧ BarOnly words ∧ words.getLast? ≠ some [bar]
  | run first names => ∀ name ∈ first :: names, (IsWord name ∧ name ≠ [bar]) ∧ name ∈ defined
  | empty => True

instance (defined : List (List UInt8)) : ∀ line, Decidable (WellFormed defined line)
  | define .. => inferInstanceAs (Decidable (_ ∧ _))
  | run .. => inferInstanceAs (Decidable (∀ _ ∈ _, _))
  | empty => inferInstanceAs (Decidable True)

end Line

/-- The file of a script, whose last line need not have a newline. -/
def script (ended : Bool) : List Line → List UInt8
  | [] => []
  | [line] => line.text ++ if ended then [newline] else []
  | line :: lines => line.text ++ newline :: script ended lines

/-- A line runs only names that lines before it define. -/
def WellFormed : List (List UInt8) → List Line → Prop
  | _, [] => True
  | defined, line :: lines =>
    line.WellFormed defined ∧ WellFormed (defined ++ line.definitions.map Prod.fst) lines

instance : ∀ defined lines, Decidable (WellFormed defined lines)
  | _, [] => inferInstanceAs (Decidable True)
  | defined, line :: lines =>
    have := instDecidableWellFormed (defined ++ line.definitions.map Prod.fst) lines
    inferInstanceAs (Decidable (_ ∧ _))

/-- The vectors of each line that runs a pipeline. -/
def results : List (List UInt8 × List (List UInt8)) → List Line → List (List Strings)
  | _, [] => []
  | definitions, .run first names :: lines =>
    (first :: names).flatMap (fun name => vectors (definition definitions name)) ::
      results definitions lines
  | definitions, line :: lines => results (definitions ++ line.definitions) lines

/-! ## Lines of the file -/

theorem script_cons (ended : Bool) (line : Line) (lines : List Line) :
    ∃ ws, script ended (line :: lines) = line.text ++ ws ++ script ended lines ∧
      (ws = [newline] ∨ ws = [] ∧ lines = []) := by
  cases lines with
  | nil =>
    cases ended with
    | true => exact ⟨[newline], by simp [script], .inl rfl⟩
    | false => exact ⟨[], by simp [script], .inr ⟨rfl, rfl⟩⟩
  | cons next lines => exact ⟨[newline], by simp [script], .inl rfl⟩

section Getline

variable (buffering : Buffering) {file : FILE} {text ws rest : List UInt8}

theorem getlineLoop_eq (htext : ∀ c ∈ text, c ≠ newline)
    (hws : ws = [newline] ∨ ws = [] ∧ rest = []) (hfile : file.unread = text ++ ws ++ rest)
    (line : List UInt8) {n : ℕ} (hn : (text ++ ws).length ≤ n) :
    ∃ file', getlineLoop buffering file line n = (line ++ (text ++ ws), file') ∧
      file'.unread = rest := by
  induction n generalizing text file line with
  | zero =>
    obtain ⟨rfl, rfl⟩ := List.append_eq_nil_iff.mp (List.length_eq_zero_iff.mp (Nat.le_zero.mp hn))
    exact ⟨file, by rw [getlineLoop]; simp, hfile⟩
  | succ n ih =>
    rw [getlineLoop]
    cases hread : file.fread buffering with
    | none =>
      rw [FILE.unread_of_fread_eq_none hread] at hfile
      obtain ⟨hline, rfl⟩ := List.append_eq_nil_iff.mp hfile.symm
      obtain ⟨rfl, rfl⟩ := List.append_eq_nil_iff.mp hline
      exact ⟨file, by simp, FILE.unread_of_fread_eq_none hread⟩
    | some read =>
      obtain ⟨c, file'⟩ := read
      rw [FILE.unread_of_fread hread] at hfile
      cases text with
      | nil =>
        obtain rfl | ⟨rfl, rfl⟩ := hws
        · obtain ⟨rfl, hrest⟩ := List.cons.inj hfile
          exact ⟨file', rfl, hrest⟩
        · cases hfile
      | cons d text =>
        rw [List.forall_mem_cons] at htext
        obtain ⟨rfl, hrest⟩ := List.cons.inj hfile
        obtain ⟨file'', hloop, hunread⟩ :=
          ih htext.2 hrest (line ++ [c]) (Nat.le_of_succ_le_succ hn)
        refine ⟨file'', ?_, hunread⟩
        dsimp only
        rw [if_neg htext.1, hloop, List.append_assoc]
        rfl

theorem getline_eq (htext : ∀ c ∈ text, c ≠ newline)
    (hws : ws = [newline] ∨ ws = [] ∧ rest = []) (hfile : file.unread = text ++ ws ++ rest) :
    (getline buffering file).1 = text ++ ws ∧ (getline buffering file).2.unread = rest := by
  have hn : (text ++ ws).length ≤ file.unread.length := by
    rw [hfile]
    exact (List.prefix_append (text ++ ws) rest).length_le
  obtain ⟨file', hloop, hunread⟩ := getlineLoop_eq buffering htext hws hfile [] hn
  rw [getline, hloop]
  exact ⟨rfl, hunread⟩

end Getline

section Text

variable {defined : List (List UInt8)}

theorem ne_newline_of_not_blank {c : UInt8} (h : ¬ blank c) : c ≠ newline := by
  rintro rfl
  exact h (by decide)

theorem Line.WellFormed.ne_newline {line : Line} (h : line.WellFormed defined) :
    ∀ c ∈ line.text, c ≠ newline ∧ c ≠ 0 := by
  have hword : ∀ w, IsWord w → ∀ c ∈ w, c ≠ newline ∧ c ≠ 0 :=
    fun w hw c hc => ⟨ne_newline_of_not_blank (hw.2 c hc).1, hw.ne_zero c hc⟩
  cases line with
  | define name spaces first words =>
    obtain ⟨hname, hwords, _⟩ := h
    exact forall_aliasLine spaces (by decide) (by decide) (hword name hname)
      (hword first (hwords first (by simp)))
      fun word hmem => hword word.2 (hwords word.2 (by
        simp only [List.mem_cons, List.mem_map]
        exact .inr ⟨word, hmem, rfl⟩))
  | run first names =>
    exact forall_runLine (by decide) (by decide) fun name hname => hword name (h name hname).1.1
  | empty =>
    intro c hc
    cases hc

theorem Line.WellFormed.str_eq {line : Line} (h : line.WellFormed defined) {ws : List UInt8}
    (hws : ws = [newline] ∨ ws = []) : str (line.text ++ ws ++ [0]) 0 = line.text ++ ws := by
  apply str_zero
  intro c hc
  rcases List.mem_append.mp hc with hc | hc
  · exact (h.ne_newline c hc).2
  · obtain rfl | rfl := hws
    · rw [List.mem_singleton.mp hc]
      decide
    · cases hc

end Text

/-! ## `parsefile` -/

section Parse

variable {commands : List Command} {definitions : List (List UInt8 × List (List UInt8))}

/-- What a definition on an earlier line satisfies. -/
def Ready (words : List (List UInt8)) : Prop :=
  BarOnly words ∧ words.getLast? ≠ some [bar] ∧ words ≠ []

theorem parts_eq (hcommands : Defined commands definitions)
    (hready : ∀ words ∈ definitions.map Prod.snd, Ready words) {name : List UInt8}
    (hname : name ∈ definitions.map Prod.fst) (command : List Strings) :
    (getargs commands name).bind (appendargs command) =
      some (command ++ vectors (definition definitions name)) := by
  obtain ⟨hmem, m, hargs⟩ := getargs_eq hcommands hname
  obtain ⟨hbars, hlast, hne⟩ := hready _ hmem
  rw [hargs, Option.bind_some, appendargs_eq hbars hlast hne]

/-- A child of the pipeline that is run next exits while the shell has read ahead of the line. -/
def Parse.GivesBack (buffering : Buffering) (failed : ℕ → ℕ) (s : Parse) : Prop :=
  Parse.Runs (getline buffering s.file).1 ∧ failed s.built.length ≠ 0 ∧
    (getline buffering s.file).2.ahead ≠ []

/-- The rounds that the loop makes. -/
def Parse.Round (buffering : Buffering) (failed : ℕ → ℕ) (s s' : Parse) : Prop :=
  ¬ s.Ended buffering ∧ s.round buffering (failed s.built.length) = some s'

variable {buffering : Buffering} {failed : ℕ → ℕ}

theorem parseLoop_of_round {s s' : Parse} (h : s.Round buffering failed s') (fuel : ℕ) :
    parseLoop buffering failed s (fuel + 1) = parseLoop buffering failed s' fuel := by
  rw [parseLoop, if_neg h.1, h.2, Option.bind_some]

section Rounds

variable (buffering) {s : Parse} {line : Line} {defined : List (List UInt8)}
  (h : line.WellFormed defined)
  {ws rest : List UInt8} (hws : ws = [newline] ∨ ws = [] ∧ rest = [])
  (hfile : s.file.unread = line.text ++ ws ++ rest) (failed : ℕ)

include h hws hfile

theorem not_ended (hne : line.text ++ ws ≠ []) : ¬ s.Ended buffering := by
  rw [Parse.Ended, (getline_eq buffering (fun c hc => (h.ne_newline c hc).1) hws hfile).1]
  exact hne

theorem round_define {command : Command} (hequals : equals ∈ line.text ++ ws)
    (hcommand : getcommand (line.text ++ ws ++ [0]) = some command) :
    ∃ file, s.round buffering failed =
        some { s with file := file, commands := s.commands ++ [command] } ∧
      file.unread = rest := by
  obtain ⟨hline, hrest⟩ := getline_eq buffering
    (fun c hc => (h.ne_newline c hc).1) hws hfile
  refine ⟨(getline buffering s.file).2, ?_, hrest⟩
  simp only [Parse.round, hline]
  rw [h.str_eq (hws.imp_right And.left), if_pos hequals, hcommand, Option.map_some]

/-- A line that is executed, where its children give nothing back. -/
theorem round_run {vectors : List Strings} (hequals : equals ∉ line.text ++ ws)
    (hfirst : byte (line.text ++ ws ++ [0]) 0 ≠ newline)
    (hvectors : execVectors s.commands (line.text ++ ws ++ [0]) = some vectors)
    (hkept : failed = 0 ∨ (getline buffering s.file).2.ahead = []) :
    ∃ file, s.round buffering failed =
        some { s with file := file, built := s.built ++ [vectors] } ∧
      file.unread = rest := by
  obtain ⟨hline, hrest⟩ := getline_eq buffering
    (fun c hc => (h.ne_newline c hc).1) hws hfile
  refine ⟨FILE.exitChild^[failed] (getline buffering s.file).2, ?_,
    (FILE.unread_iterate_exitChild hkept).trans hrest⟩
  simp only [Parse.round, hline]
  rw [h.str_eq (hws.imp_right And.left), if_neg hequals, if_pos hfirst, hvectors, Option.map_some]

theorem round_empty (hequals : equals ∉ line.text ++ ws)
    (hfirst : byte (line.text ++ ws ++ [0]) 0 = newline) :
    ∃ file, s.round buffering failed = some { s with file := file } ∧ file.unread = rest := by
  obtain ⟨hline, hrest⟩ := getline_eq buffering
    (fun c hc => (h.ne_newline c hc).1) hws hfile
  refine ⟨(getline buffering s.file).2, ?_, hrest⟩
  simp only [Parse.round, hline]
  rw [h.str_eq (hws.imp_right And.left), if_neg hequals, if_neg (not_not.mpr hfirst)]

end Rounds

theorem equals_mem_define {name first : List UInt8} {spaces : ℕ} {words : List (ℕ × List UInt8)} :
    equals ∈ (Line.define name spaces first words).text := by
  simp [Line.text, aliasLine]

theorem equals_notMem_run {first : List UInt8} {names : List (List UInt8)}
    (hnames : ∀ name ∈ first :: names, IsWord name) : equals ∉ runLine first names := by
  intro hmem
  have h := forall_runLine (P := fun c => c ≠ equals) (by decide) (by decide)
    (fun name hname c hc => ((hnames name hname).2 c hc).2.1) equals hmem
  exact h rfl

theorem byte_run {first : List UInt8} {names : List (List UInt8)} (hfirst : IsWord first)
    (rest : List UInt8) : byte (runLine first names ++ rest) 0 ≠ newline := by
  obtain ⟨c, first', rfl⟩ := List.exists_cons_of_ne_nil hfirst.1
  exact ne_newline_of_not_blank (hfirst.2 c (by simp)).1

/-- From any line on, with the aliases defined before it. -/
theorem parseLoop_eq (ended : Bool) (lines : List Line) (s : Parse)
    (definitions : List (List UInt8 × List (List UInt8)))
    (hfile : s.file.unread = script ended lines) (hcommands : Defined s.commands definitions)
    (hready : ∀ words ∈ definitions.map Prod.snd, Ready words)
    (h : WellFormed (definitions.map Prod.fst) lines)
    (hkept : ∀ s', ReflTransGen (Parse.Round buffering failed) s s' →
      ¬ s'.GivesBack buffering failed)
    (fuel : ℕ) (hfuel : (script ended lines).length < fuel) :
    parseLoop buffering failed s fuel = some (s.built ++ results definitions lines) := by
  induction lines generalizing s definitions fuel with
  | nil =>
    obtain ⟨fuel, rfl⟩ := Nat.exists_eq_succ_of_ne_zero (Nat.ne_of_gt hfuel)
    have hunread : s.file.unread = [] ++ [] ++ [] := hfile
    have hended : s.Ended buffering :=
      (getline_eq buffering (by simp) (.inr ⟨rfl, rfl⟩) hunread).1
    rw [parseLoop, if_pos hended, results, List.append_nil]
  | cons line lines ih =>
    obtain ⟨fuel, rfl⟩ := Nat.exists_eq_succ_of_ne_zero (Nat.ne_of_gt (Nat.zero_lt_of_lt hfuel))
    obtain ⟨hline, hlines⟩ := h
    obtain ⟨ws, hscript, hws⟩ := script_cons ended line lines
    have hws' : ws = [newline] ∨ ws = [] ∧ script ended lines = [] :=
      hws.imp_right fun h => ⟨h.1, by rw [h.2]; rfl⟩
    have hequals : equals ∉ ws := by
      rcases hws with rfl | ⟨rfl, -⟩ <;> decide
    rw [hscript] at hfuel hfile
    by_cases hempty : line.text ++ ws = []
    · -- an empty last line without a newline
      obtain ⟨htext, rfl⟩ := List.append_eq_nil_iff.mp hempty
      obtain ⟨-, rfl⟩ := hws.resolve_left (by simp)
      have hended : s.Ended buffering :=
        (getline_eq buffering (fun c hc => (hline.ne_newline c hc).1) hws' hfile).1.trans hempty
      rw [parseLoop, if_pos hended]
      cases line with
      | define => simp [Line.text, aliasLine] at htext
      | run first names =>
        exact absurd (List.append_eq_nil_iff.mp htext).1 (hline first (by simp)).1.1.1
      | empty => rw [results, results, List.append_nil]; rintro _ _ ⟨⟩
    · have hfuel' : (script ended lines).length < fuel := by
        have hpos := List.length_pos_iff.mpr hempty
        rw [List.length_append] at hfuel
        omega
      have hopen : ¬ s.Ended buffering := not_ended buffering hline hws' hfile hempty
      have hlater : ∀ {s'}, s.round buffering (failed s.built.length) = some s' →
          parseLoop buffering failed s (fuel + 1) = parseLoop buffering failed s' fuel ∧
            ∀ s'', ReflTransGen (Parse.Round buffering failed) s' s'' →
              ¬ s''.GivesBack buffering failed :=
        fun hround => ⟨parseLoop_of_round ⟨hopen, hround⟩ fuel,
          fun s'' hrest => hkept s'' (.head ⟨hopen, hround⟩ hrest)⟩
      cases line with
      | define name spaces first words =>
        obtain ⟨hname, hwords, hbars, hlast⟩ := id hline
        have hwords' : ∀ word ∈ words, IsWord word.2 :=
          fun word hword => hwords word.2 (List.mem_cons_of_mem _ (List.mem_map_of_mem hword))
        obtain ⟨command, hgetcommand, hcommand⟩ := getcommand_eq hname (hwords first (by simp))
          hwords' spaces (hws.imp_right And.left)
        obtain ⟨file, hround, hunread⟩ := round_define buffering hline hws' hfile
          (failed s.built.length) (List.mem_append_left _ equals_mem_define) hgetcommand
        obtain ⟨hloop, hkept'⟩ := hlater hround
        rw [hloop, results]
        · refine ih _ _ hunread ?_ ?_ ?_ hkept' fuel hfuel'
          · exact List.rel_append hcommands (.cons hcommand .nil)
          · intro words' hwords'
            rw [List.map_append, List.mem_append] at hwords'
            rcases hwords' with hwords' | hwords'
            · exact hready words' hwords'
            · obtain rfl := List.mem_singleton.mp hwords'
              exact ⟨hbars, hlast, by simp⟩
          · rw [List.map_append]
            exact hlines
        · rintro _ _ ⟨⟩
      | run first names =>
        have hnot : equals ∉ (Line.run first names).text ++ ws := by
          rw [List.mem_append, not_or]
          exact ⟨equals_notMem_run fun name hname => (hline name hname).1.1, hequals⟩
        have hfirst : byte ((Line.run first names).text ++ ws ++ [0]) 0 ≠ newline := by
          rw [Line.text, List.append_assoc]
          exact byte_run (hline first (by simp)).1.1 _
        have hparts : ∀ name ∈ first :: names, ∀ command,
            (getargs s.commands name).bind (appendargs command) =
              some (command ++ vectors (definition definitions name)) :=
          fun name hname => parts_eq hcommands hready (hline name hname).2
        have hvectors := execVectors_eq (hws.imp_right And.left)
          (fun name hname => (hline name hname).1) hparts
        have hquiet : failed s.built.length = 0 ∨ (getline buffering s.file).2.ahead = [] := by
          have hread := (getline_eq buffering
            (fun c hc => (hline.ne_newline c hc).1) hws' hfile).1
          have hstr := hline.str_eq (hws.imp_right And.left)
          by_contra hnone
          rw [not_or] at hnone
          refine hkept s .refl ⟨?_, hnone⟩
          rw [hread, Parse.Runs, hstr]
          exact ⟨hnot, hfirst⟩
        obtain ⟨file, hround, hunread⟩ := round_run buffering hline hws' hfile
          (failed s.built.length) hnot hfirst hvectors hquiet
        obtain ⟨hloop, hkept'⟩ := hlater hround
        have hrest := ih { s with file := file, built := s.built ++ [_] } definitions hunread
          hcommands hready (by simpa [Line.definitions] using hlines) hkept' fuel hfuel'
        rw [hloop, hrest, results, List.append_assoc]
        rfl
      | empty =>
        obtain rfl := hws.resolve_right fun h => hempty (by simp [h.1, Line.text])
        obtain ⟨file, hround, hunread⟩ := round_empty buffering hline hws' hfile
          (failed s.built.length) (by decide) rfl
        obtain ⟨hloop, hkept'⟩ := hlater hround
        rw [hloop, results]
        · refine ih _ _ hunread ?_ ?_ ?_ hkept' fuel hfuel'
          · simpa [Line.definitions] using hcommands
          · simpa [Line.definitions] using hready
          · simpa [Line.definitions] using hlines
        · rintro _ _ ⟨⟩

end Parse

/-- Every line that runs names gives `exec` the vectors of their first definitions, if no child
exits without a program while the shell has read ahead. -/
theorem parsefile_script (buffering : Buffering) (failed : ℕ → ℕ) (ended : Bool)
    (lines : List Line) (h : WellFormed [] lines)
    (hkept : ∀ s, ReflTransGen (Parse.Round buffering failed) (.start (script ended lines)) s →
      ¬ s.GivesBack buffering failed)
    (fuel : ℕ) (hfuel : (script ended lines).length < fuel) :
    parsefile buffering failed (script ended lines) fuel = some (results [] lines) :=
  parseLoop_eq ended lines (.start (script ended lines)) [] rfl .nil (by simp) h hkept fuel hfuel

/-- A stream that reads blocks of 4096 bytes. -/
def blocks : Buffering := ⟨4096, by decide, fun _ => 0⟩

/-- `a = x  | y`, an empty line, and `a | a`. -/
theorem parsefile_script_twice :
    let lines := [.define [97] 1 [120] [(1, [bar]), (0, [121])], .empty, .run [97] [[97]]]
    parsefile blocks (fun _ => 0) (script false lines) 100 = some [[[some [120], none],
      [some [121], none], [some [120], none], [some [121], none]]] :=
  parsefile_script blocks _ false _ (by decide) (fun _ _ h => h.2.1 rfl) 100 (by decide)

/-- `a = q`, `a`, `b = w`, `b`, where there is no program `q`: the last two lines are read twice. -/
theorem not_parsefile_script :
    ¬ ∀ (buffering : Buffering) (failed : ℕ → ℕ) (ended : Bool) (lines : List Line),
      WellFormed [] lines → ∀ fuel, (script ended lines).length < fuel →
        parsefile buffering failed (script ended lines) fuel = some (results [] lines) := by
  intro hclaim
  have h := hclaim blocks (fun n => if n = 0 then 1 else 0) true
    [.define [97] 1 [113] [], .run [97] [], .define [98] 1 [119] [], .run [98] []] (by decide) 100
    (by decide)
  revert h
  decide

end Sysopy.Shell
