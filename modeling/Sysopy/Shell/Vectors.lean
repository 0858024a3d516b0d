import Sysopy.Shell.Trim
import Sysopy.Shell.Words

/-!
# The vectors of a line

`appendargs` splits the words of an alias at the bars. `exec` is a fold over the tokens of its
line: it trims every token, whatever it is, and hands what `getargs` finds for it to
`appendargs`. Only behind the last name of a well-formed line is there something to trim, the
newline.
-/
namespace Sysopy.Shell

open CBuffer CString
open CText (strtok_last tokens tokens_append tokens_of_strtok)

/-- A word that starts with a bar is a bar. -/
def BarOnly (words : List (List UInt8)) : Prop := ∀ w ∈ words, byte w 0 = bar → w = [bar]

instance (words : List (List UInt8)) : Decidable (BarOnly words) :=
  inferInstanceAs (Decidable (∀ w ∈ words, _))

/-- A vector with its null pointer. -/
def terminated (words : List (List UInt8)) : Strings := words.map some ++ [none]

/-- The words between the bars, as vectors. -/
def vectors (words : List (List UInt8)) : List Strings := (words.splitOn [bar]).map terminated

/-! ## `appendargs` -/

section Append

variable (before : Strings)

theorem wordsEnd_eq {part : List (List UInt8)} (hpart : ∀ w ∈ part, byte w 0 ≠ bar)
    {next : Option (List UInt8)} (hnext : ∀ w, next = some w → byte w 0 = bar) (rest : Strings)
    {fuel : ℕ} (hfuel : part.length < fuel) :
    wordsEnd (before ++ (part.map some ++ next :: rest)) before.length fuel =
      some (before.length + part.length) := by
  induction part generalizing before fuel with
  | nil =>
    obtain ⟨fuel, rfl⟩ := Nat.exists_eq_succ_of_ne_zero (Nat.ne_of_gt hfuel)
    cases next with
    | none => simp [wordsEnd]
    | some w => simp [wordsEnd, hnext w rfl]
  | cons w part ih =>
    obtain ⟨fuel, rfl⟩ := Nat.exists_eq_succ_of_ne_zero (Nat.ne_of_gt (Nat.zero_lt_of_lt hfuel))
    have hw : byte w 0 ≠ bar := hpart w (by simp)
    have hrest := ih (before ++ [some w]) (fun w hw => hpart w (by simp [hw]))
      (Nat.lt_of_succ_lt_succ hfuel)
    simp only [List.length_append, List.length_singleton, List.append_assoc,
      List.singleton_append] at hrest
    simp only [wordsEnd, List.map_cons, List.cons_append, List.getElem?_append_right (le_refl _),
      Nat.sub_self, List.getElem?_cons_zero, ne_eq, hw, not_false_eq_true, if_true, hrest,
      List.length_cons]
    congr 1
    omega

theorem appendargsLoop_part {part : List (List UInt8)} (hpart : ∀ w ∈ part, byte w 0 ≠ bar)
    {next : Option (List UInt8)} (hnext : ∀ w, next = some w → byte w 0 = bar)
    (hne : part ≠ [] ∨ next ≠ none) (rest : Strings) (command : List Strings) (fuel : ℕ) :
    appendargsLoop (before ++ (part.map some ++ next :: rest)) command before.length (fuel + 1) =
      appendargsLoop (before ++ (part.map some ++ next :: rest)) (command ++ [terminated part])
        (before.length + part.length + if next = none then 0 else 1) fuel := by
  have hfirst : ∃ w, (before ++ (part.map some ++ next :: rest))[before.length]? = some (some w) := by
    rw [List.getElem?_append_right (le_refl _), Nat.sub_self]
    cases part with
    | nil =>
      obtain ⟨w, hw⟩ := Option.ne_none_iff_exists'.mp (hne.resolve_left (· rfl))
      exact ⟨w, by simp [hw]⟩
    | cons w part => exact ⟨w, by simp⟩
  obtain ⟨w, hw⟩ := hfirst
  have hend := wordsEnd_eq before hpart hnext rest
    (by simp; omega : part.length < (before ++ (part.map some ++ next :: rest)).length + 1)
  have hvector : ((before ++ (part.map some ++ next :: rest)).drop before.length).take
      (before.length + part.length - before.length) = part.map some := by
    rw [List.drop_left, Nat.add_sub_cancel_left]
    have hlength : part.length = (part.map some).length := (List.length_map some).symm
    rw [hlength, List.take_left]
  have hlast : (before ++ (part.map some ++ next :: rest))[before.length + part.length]? =
      some next := by
    rw [List.getElem?_append_right (Nat.le_add_right _ _), Nat.add_sub_cancel_left,
      List.getElem?_append_right (by simp)]
    simp
  rw [appendargsLoop, hw]
  simp only [hend, Option.bind_eq_bind, Option.bind_some, hvector, hlast, Option.some.injEq]
  rw [← terminated]
  split_ifs <;> rfl

theorem appendargsLoop_eq (words : List (List UInt8)) (hbars : BarOnly words)
    (hlast : words.getLast? ≠ some [bar]) (before rest : Strings) (command : List Strings)
    (fuel : ℕ) (hfuel : words.length < fuel) :
    appendargsLoop (before ++ (words.map some ++ none :: rest)) command before.length fuel =
      some (command ++ if words = [] then [] else vectors words) := by
  induction hn : words.length using Nat.strong_induction_on generalizing words before command fuel with
  | _ n ih =>
    obtain ⟨fuel, rfl⟩ := Nat.exists_eq_succ_of_ne_zero (Nat.ne_of_gt (Nat.zero_lt_of_lt hfuel))
    have hnotBar : ∀ part : List (List UInt8), part ⊆ words → [bar] ∉ part → ∀ w ∈ part,
        byte w 0 ≠ bar := by
      intro part hsub hnot w hw hbyte
      exact hnot (hbars w (hsub hw) hbyte ▸ hw)
    by_cases hmem : [bar] ∈ words
    · -- the words up to the first bar
      obtain ⟨part, words', rfl, hnot⟩ := List.eq_append_cons_of_mem hmem
      have hne : words' ≠ [] := by
        rintro rfl
        simp at hlast
      have hlast' : words'.getLast? ≠ some [bar] := by
        rcases List.eq_nil_or_concat words' with rfl | ⟨init, w, rfl⟩
        · simp
        · simpa [List.getLast?_append, List.getLast?_cons] using hlast
      have hbar : ∀ w, some [bar] = some w → byte w 0 = bar := by
        rintro w ⟨⟩
        rfl
      rw [List.length_append, List.length_cons] at hn hfuel
      have hstep := appendargsLoop_part before (hnotBar part (by simp) hnot) hbar
        (.inr (by simp)) (words'.map some ++ none :: rest) command fuel
      have hrest := ih words'.length (by omega) words' (fun w hw => hbars w (by simp [hw])) hlast'
        (before ++ (part.map some ++ [some [bar]])) (command ++ [terminated part]) fuel (by omega) rfl
      have hplace : before.length + part.length + (if some [bar] = none then 0 else 1) =
          (before ++ (part.map some ++ [some [bar]])).length := by
        simp [Nat.add_assoc]
      have hsame : before ++ ((part ++ [bar] :: words').map some ++ none :: rest) =
          before ++ (part.map some ++ some [bar] :: (words'.map some ++ none :: rest)) := by simp
      have hsame' : before ++ (part.map some ++ some [bar] :: (words'.map some ++ none :: rest)) =
          before ++ (part.map some ++ [some [bar]]) ++ (words'.map some ++ none :: rest) := by simp
      rw [hsame, hstep, hplace, hsame', hrest, if_neg hne, if_neg (by simp), vectors, vectors,
        List.splitOn_append_cons_self, List.splitOn_eq_singleton hnot]
      simp
    · -- the last vector
      by_cases hnil : words = []
      · subst hnil
        simp [appendargsLoop]
      · have hnone : ∀ w, (none : Option (List UInt8)) = some w → byte w 0 = bar := by
          rintro w ⟨⟩
        have hstep := appendargsLoop_part before (hnotBar words (List.Subset.refl words) hmem)
          hnone (.inl hnil) rest command fuel
        obtain ⟨fuel, rfl⟩ := Nat.exists_eq_succ_of_ne_zero (n := fuel) (by
          rintro rfl
          exact hnil (List.length_eq_zero_iff.mp (by omega)))
        have hend : (before ++ (words.map some ++ none :: rest))[before.length + words.length + 0]? =
            some none := by
          rw [Nat.add_zero, List.getElem?_append_right (Nat.le_add_right _ _),
            Nat.add_sub_cancel_left, List.getElem?_append_right (by simp)]
          simp
        rw [hstep, if_pos rfl, appendargsLoop, hend, if_neg hnil, vectors,
          List.splitOn_eq_singleton hmem]
        rfl

theorem appendargs_eq {words : List (List UInt8)} (hbars : BarOnly words)
    (hlast : words.getLast? ≠ some [bar]) (hne : words ≠ []) (command : List Strings) (m : ℕ) :
    appendargs command (words.map some ++ List.replicate (m + 1) none) =
      some (command ++ vectors words) := by
  have h := appendargsLoop_eq words hbars hlast [] (List.replicate m none) command
    ((words.map some ++ none :: List.replicate m none).length + 1) (by simp)
  rwa [if_neg hne] at h

end Append

/-! ## `getargs` -/

/-- The words of the first definition of a name. -/
def definition (definitions : List (List UInt8 × List (List UInt8))) (name : List UInt8) :
    List (List UInt8) :=
  ((definitions.find? fun d => name = d.1).map Prod.snd).getD []

section Definitions

variable {commands : List Command} {definitions : List (List UInt8 × List (List UInt8))}

/-- The aliases stand for the definitions. -/
def Defined (commands : List Command) (definitions : List (List UInt8 × List (List UInt8))) : Prop :=
  List.Forall₂ (fun command d => command.Defines d.1 d.2) commands definitions

theorem getargs_eq (h : Defined commands definitions) {name : List UInt8}
    (hname : name ∈ definitions.map Prod.fst) : definition definitions name ∈
      definitions.map Prod.snd ∧ ∃ m, getargs commands name =
        some ((definition definitions name).map some ++ List.replicate (m + 1) none) := by
  induction h with
  | nil => cases hname
  | @cons command d commands definitions hcommand h ih =>
    obtain ⟨hstr, m, hargs⟩ := hcommand
    by_cases hfirst : name = d.1
    · refine ⟨by simp [definition, hfirst], m, ?_⟩
      simp [getargs, definition, hfirst, hstr, hargs]
    · have hname' : name ∈ definitions.map Prod.fst := by
        rw [List.map_cons, List.mem_cons] at hname
        exact hname.resolve_left hfirst
      obtain ⟨hmem, m', hm'⟩ := ih hname'
      have hdefinition : definition (d :: definitions) name = definition definitions name := by
        simp [definition, hfirst]
      rw [hdefinition]
      refine ⟨by simp [hmem], m', ?_⟩
      rw [← hm', getargs, List.find?_cons_of_neg (by simpa [hstr] using hfirst), getargs]

end Definitions

/-! ## `exec` -/

/-- What the loop of `exec` does with a name. -/
def takeName (commands : List Command) (command : List Strings) (name : List UInt8) :
    Option (List Strings) :=
  if name ≠ [bar] then (getargs commands name).bind (appendargs command) else some command

section ExecLoop

variable (commands : List Command)

theorem execLoop_succ (buf : List UInt8) (name saved : ℕ) (command : List Strings) (fuel : ℕ) :
    execLoop commands buf name saved command (fuel + 1) =
      (takeName commands command (str (trim buf name) name)).bind fun command =>
        match strtok space (trim buf name) saved with
        | (none, _, _) => some command
        | (some name, buf, saved) => execLoop commands buf name saved command fuel := by
  rw [execLoop, takeName]
  rcases strtok space (trim buf name) saved with ⟨_ | next, line, saved'⟩
  · split_ifs <;> rfl
  · split_ifs <;> rfl

/-- The loop takes the names that `trim` makes of the tokens, one after another. -/
theorem execLoop_eq {text token : List UInt8} (htext : ∀ c ∈ text, c ≠ 0)
    (htoken : ∀ c ∈ token, c ≠ 0)
    (before rest nul : List UInt8) (hnul : ∃ mid, nul ++ (text ++ 0 :: rest) = 0 :: mid)
    (command : List Strings) {fuel : ℕ} (hfuel : (tokens [space] text).length < fuel) :
    execLoop commands (before ++ (token ++ (nul ++ (text ++ 0 :: rest)))) before.length
        (before ++ (token ++ nul)).length command fuel =
      ((token :: tokens [space] text).map trimmed).foldlM (takeName commands) command := by
  induction fuel generalizing text token before nul command with
  | zero => exact absurd hfuel (Nat.not_lt_zero _)
  | succ fuel ih =>
    obtain ⟨mid, hmid⟩ := hnul
    obtain ⟨t, htrim, hlength, ht⟩ := trim_append before mid htoken
    have hstr : str (before ++ (t ++ 0 :: mid)) before.length = trimmed token := by
      have h := str_append before (t ++ 0 :: mid) 0
      rw [Nat.add_zero] at h
      rw [h, str, List.drop_zero, List.append_cons, contents_append_of_mem (by simp), ht]
    have hsaved : (before ++ (token ++ nul)).length = (before ++ (t ++ nul)).length := by
      simp [hlength]
    have hbuf : before ++ (t ++ 0 :: mid) = before ++ (t ++ nul) ++ (text ++ 0 :: rest) := by
      rw [← hmid]
      simp
    rw [hmid, execLoop_succ, htrim, hstr, List.map_cons, List.foldlM_cons]
    refine congrArg (Option.bind _) (funext fun command' => ?_)
    rw [hsaved, hbuf]
    rcases strtok_tokens (by decide : space ≠ 0) (before ++ (t ++ nul)) rest htext with
      ⟨hnil, buf, saved, hstrtok⟩ |
        ⟨before', token', nul', text', htokens, htoken', htext', hnul', hstrtok⟩
    · rw [hstrtok, hnil]
      rfl
    · rw [hstrtok, htokens]
      rw [htokens, List.length_cons] at hfuel
      exact ih htext' htoken' before' nul' hnul' command' (Nat.lt_of_succ_lt_succ hfuel)

theorem execVectors_eq_foldlM {buf : List UInt8} (hnul : 0 ∈ buf) :
    execVectors commands buf =
      if tokens [space] (str buf 0) = [] then none
      else ((tokens [space] (str buf 0)).map trimmed).foldlM (takeName commands) [] := by
  obtain ⟨before, rest, hbuf, hlength⟩ := exists_str (i := 0) hnul
  obtain rfl := List.length_eq_zero_iff.mp hlength
  rw [List.nil_append] at hbuf
  generalize hline : str buf 0 = line at hbuf ⊢
  have hline' : ∀ c ∈ line, c ≠ 0 := fun c hc => ne_zero_of_mem_contents (hline ▸ hc)
  have hle := CText.length_tokens_le [space] line
  rcases strtok_tokens (by decide : space ≠ 0) [] rest hline' with
    ⟨hnil, buf', saved, hstrtok⟩ |
      ⟨before, token, nul, text, htokens, htoken, htext, hmid, hstrtok⟩
  · rw [List.nil_append, ← hbuf] at hstrtok
    rw [execVectors, ← List.length_nil (α := UInt8), hstrtok, if_pos hnil]
  · rw [List.nil_append, ← hbuf] at hstrtok
    have hkept := length_strtok space buf 0
    rw [← List.length_nil (α := UInt8), hstrtok] at hkept
    have hfuel : (tokens [space] text).length < buf.length + 1 := by
      rw [htokens, List.length_cons] at hle
      rw [hbuf, List.length_append]
      omega
    have hne : tokens [space] line ≠ [] := by
      rw [htokens]
      exact List.cons_ne_nil _ _
    rw [execVectors, ← List.length_nil (α := UInt8), hstrtok, if_neg hne]
    dsimp only at hkept ⊢
    rw [hkept, execLoop_eq commands htext htoken before rest nul hmid [] hfuel, ← htokens]

end ExecLoop

/-! ## Lines of names -/

/-- Names joined by bars. -/
def runLine (first : List UInt8) (names : List (List UInt8)) : List UInt8 :=
  first ++ names.flatMap fun name => space :: bar :: space :: name

theorem runLine_cons (first name : List UInt8) (names : List (List UInt8)) :
    runLine first (name :: names) = first ++ space :: ([bar] ++ space :: runLine name names) := by
  simp [runLine]

theorem forall_runLine {first : List UInt8} {names : List (List UInt8)} {P : UInt8 → Prop}
    (hspace : P space) (hbar : P bar) (hnames : ∀ name ∈ first :: names, ∀ c ∈ name, P c) :
    ∀ c ∈ runLine first names, P c := by
  intro c hc
  simp only [runLine, List.mem_append, List.mem_flatMap, List.mem_cons] at hc
  obtain hc | ⟨name, hname, rfl | rfl | rfl | hc⟩ := hc
  · exact hnames first (by simp) c hc
  · exact hspace
  · exact hbar
  · exact hspace
  · exact hnames name (by simp [hname]) c hc

section RunLine

variable {first : List UInt8} {names : List (List UInt8)} {ws : List UInt8}

theorem trimmed_append {w : List UInt8} (hw : IsWord w) (hws : ∀ c ∈ ws, blank c) :
    trimmed (w ++ ws) = w := by
  obtain ⟨c, w', rfl⟩ := List.exists_cons_of_ne_nil hw.1
  have hfirst : ¬ blank c := (hw.2 c List.mem_cons_self).1
  have hleading : leading (c :: w' ++ ws) = 0 := by
    rw [leading, List.cons_append, List.takeWhile_cons_of_neg hfirst, List.length_nil]
  have hstripped : stripped (c :: w' ++ ws) = c :: w' := by
    have hlast : ¬ blank ((c :: w').getLast hw.1) := (hw.2 _ (List.getLast_mem hw.1)).1
    rw [stripped, List.cons_append, List.dropWhile_cons_of_neg hfirst, ← List.cons_append,
      List.rdropWhile, List.reverse_append,
      List.dropWhile_append_of_pos fun d hd => hws d (List.mem_reverse.mp hd)]
    exact (List.rdropWhile_eq_self_iff).mpr fun _ => hlast
  rw [trimmed, hleading, hstripped, if_pos (Nat.zero_le _), List.take_zero, List.nil_append]

theorem notMem_space_of_isWord {w : List UInt8} (hw : IsWord w) : ∀ c ∈ w, c ∉ [space] :=
  fun c hc hmem => ne_space_of_not_blank (hw.2 c hc).1 (List.mem_singleton.mp hmem)

theorem trimmed_tokens_runLine (hws : ws = [newline] ∨ ws = [])
    (hnames : ∀ name ∈ first :: names, IsWord name) :
    (tokens [space] (runLine first names ++ ws)).map trimmed =
      first :: names.flatMap fun name => [[bar], name] := by
  have hfirst : IsWord first := hnames first List.mem_cons_self
  have hnil : ∀ c ∈ ([] : List UInt8), blank c := by simp
  have hskip : ∀ c ∈ ([] : List UInt8), c ∈ [space] := by simp
  induction names generalizing first with
  | nil =>
    have hws' : ∀ c ∈ ws, blank c ∧ c ∉ [space] := by
      rcases hws with rfl | rfl
      · exact List.forall_mem_singleton.mpr (by decide)
      · simp
    have hne : first ++ ws ≠ [] := List.append_ne_nil_of_left_ne_nil hfirst.1 ws
    have htoken : ∀ c ∈ first ++ ws, c ∉ [space] := by
      intro c hc
      rcases List.mem_append.mp hc with hc | hc
      · exact notMem_space_of_isWord hfirst c hc
      · exact (hws' c hc).2
    have hline : runLine first [] ++ ws = first ++ ws := by simp [runLine]
    rw [hline, tokens_of_strtok (strtok_last hne htoken), CText.tokens_delims (by simp),
      List.map_singleton, trimmed_append hfirst fun c hc => (hws' c hc).1]
    rfl
  | cons name names ih =>
    have hname : IsWord name := hnames name (by simp)
    have hrest := ih (fun n hn => hnames n (List.mem_cons_of_mem first hn)) hname
    have hline : runLine first (name :: names) ++ ws =
        [] ++ (first ++ space :: ([] ++ ([bar] ++ space :: (runLine name names ++ ws)))) := by
      simp [runLine_cons]
    have hbar : trimmed [bar] = [bar] := by decide
    have hself : trimmed first = first := by
      have h := trimmed_append hfirst hnil
      rwa [List.append_nil] at h
    rw [hline, tokens_append hskip hfirst.1 (notMem_space_of_isWord hfirst)
        (List.mem_singleton_self space),
      tokens_append hskip (List.cons_ne_nil _ _) (List.forall_mem_singleton.mpr (by decide))
        (List.mem_singleton_self space),
      List.map_cons, List.map_cons, hrest, hself, hbar]
    rfl

variable {commands : List Command} {parts : List UInt8 → List Strings}

theorem takeName_bar (command : List Strings) : takeName commands command [bar] = some command :=
  if_neg (not_not.mpr rfl)

theorem foldlM_takeName
    (htake : ∀ name ∈ first :: names, ∀ command,
      takeName commands command name = some (command ++ parts name)) (command : List Strings) :
    (first :: names.flatMap fun name => [[bar], name]).foldlM (takeName commands) command =
      some (command ++ (first :: names).flatMap parts) := by
  induction names generalizing first command with
  | nil =>
    rw [List.flatMap_nil, List.foldlM_cons, htake first List.mem_cons_self, List.flatMap_cons,
      List.flatMap_nil, List.append_nil]
    rfl
  | cons name names ih =>
    have hrest := ih (fun n hn => htake n (List.mem_cons_of_mem first hn)) (command ++ parts first)
    rw [List.foldlM_cons, htake first List.mem_cons_self, List.flatMap_cons, Option.bind_eq_bind,
      Option.bind_some, List.cons_append, List.foldlM_cons, takeName_bar, Option.bind_eq_bind,
      Option.bind_some, List.singleton_append, hrest, List.append_assoc, ← List.flatMap_cons]

/-- The vectors of a line are those of its names. -/
theorem execVectors_eq (hws : ws = [newline] ∨ ws = [])
    (hnames : ∀ name ∈ first :: names, IsWord name ∧ name ≠ [bar])
    (hparts : ∀ name ∈ first :: names, ∀ command,
      (getargs commands name).bind (appendargs command) = some (command ++ parts name)) :
    execVectors commands (runLine first names ++ ws ++ [0]) =
      some ((first :: names).flatMap parts) := by
  have hzero : ∀ c ∈ runLine first names ++ ws, c ≠ 0 := by
    intro c hc
    rcases List.mem_append.mp hc with hc | hc
    · exact forall_runLine (by decide) (by decide)
        (fun name hname => (hnames name hname).1.ne_zero) c hc
    · rcases hws with rfl | rfl
      · rw [List.mem_singleton.mp hc]
        decide
      · cases hc
  have htrimmed := trimmed_tokens_runLine hws fun name hname => (hnames name hname).1
  have hne : tokens [space] (runLine first names ++ ws) ≠ [] := by
    intro hnil
    rw [hnil] at htrimmed
    cases htrimmed
  have htake : ∀ name ∈ first :: names, ∀ command,
      takeName commands command name = some (command ++ parts name) := by
    intro name hname command
    rw [takeName, if_pos (hnames name hname).2, hparts name hname]
  rw [execVectors_eq_foldlM commands (by simp), str_zero hzero, if_neg hne, htrimmed,
    foldlM_takeName htake, List.nil_append]

end RunLine

end Sysopy.Shell
