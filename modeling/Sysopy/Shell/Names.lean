import Sysopy.Shell.Vectors

/-!
# Lines with any names

`exec` trims every token of its line, whatever it is, and hands what `getargs` finds for it to
`appendargs`. The loop is a fold over the tokens, and it follows a null pointer at the first
one that is neither a bar nor the alias of a command.
-/
namespace Sysopy.Shell

open CBuffer CString
open CText (tokens)

/-- The array of every alias has a null pointer. -/
def Ended (commands : List Command) : Prop := ∀ command ∈ commands, none ∈ command.args

/-- A bar or the alias of a command. -/
def Known (commands : List Command) (name : List UInt8) : Prop :=
  name = [bar] ∨ ∃ command ∈ commands, name = str command.line command.name

/-- The vectors of a name; a bar, or a name that is not defined, has none. -/
def vectorsOf (commands : List Command) (name : List UInt8) : List Strings :=
  if name = [bar] then [] else ((getargs commands name).bind (appendargs [])).getD []

/-! ## `appendargs` on any array -/

section Append

variable {arg : Strings} {i n : ℕ}

theorem appendargsLoop_append (arg : Strings) (command : List Strings) (i fuel : ℕ) :
    appendargsLoop arg command i fuel = (appendargsLoop arg [] i fuel).map (command ++ ·) := by
  induction fuel generalizing command i with
  | zero => rfl
  | succ fuel ih =>
    rw [appendargsLoop, appendargsLoop]
    rcases arg[i]? with _ | _ | word
    · rfl
    · simp
    · cases wordsEnd arg i (arg.length + 1) with
      | none => rfl
      | some j =>
        simp only [Option.bind_eq_bind, Option.bind_some]
        rw [ih, ih ([] ++ _), Option.map_map]
        congr 1
        funext vectors
        simp

theorem wordsEnd_le (hend : arg[n]? = some none) {j : ℕ} (hj : j ≤ n) {fuel : ℕ}
    (hfuel : n - j < fuel) : ∃ k, wordsEnd arg j fuel = some k ∧ j ≤ k ∧ k ≤ n := by
  induction fuel generalizing j with
  | zero => exact absurd hfuel (Nat.not_lt_zero _)
  | succ fuel ih =>
    have hlt : n < arg.length := (List.getElem?_eq_some_iff.mp hend).1
    rw [wordsEnd, List.getElem?_eq_getElem (hj.trans_lt hlt)]
    cases hat : arg[j] with
    | none => exact ⟨j, rfl, le_refl j, hj⟩
    | some word =>
      have hne : j ≠ n := by
        rintro rfl
        rw [List.getElem?_eq_getElem hlt, hat] at hend
        cases hend
      dsimp only
      split_ifs
      · obtain ⟨k, hk, hle, hkn⟩ := ih (j := j + 1) (by omega) (by omega)
        exact ⟨k, hk, by omega, hkn⟩
      · exact ⟨j, rfl, le_refl j, hj⟩

theorem exists_appendargsLoop (hend : arg[n]? = some none) (command : List Strings) (hi : i ≤ n)
    {fuel : ℕ} (hfuel : n - i < fuel) : ∃ vectors, appendargsLoop arg command i fuel = some vectors := by
  induction fuel generalizing command i with
  | zero => exact absurd hfuel (Nat.not_lt_zero _)
  | succ fuel ih =>
    have hlt : n < arg.length := (List.getElem?_eq_some_iff.mp hend).1
    rw [appendargsLoop, List.getElem?_eq_getElem (hi.trans_lt hlt)]
    cases hat : arg[i] with
    | none => exact ⟨command, rfl⟩
    | some word =>
      obtain ⟨j, hj, hij, hjn⟩ := wordsEnd_le hend hi (by omega : n - i < arg.length + 1)
      simp only [hj, Option.bind_eq_bind, Option.bind_some]
      -- the next index is behind `i`: a bar is skipped, and at the null pointer `i` is left
      split_ifs with hlast
      · have hne : j ≠ i := by
          rintro rfl
          rw [List.getElem?_eq_getElem (hi.trans_lt hlt), hat] at hlast
          cases hlast
        exact ih _ hjn (by omega)
      · have hne : j ≠ n := fun h => hlast (h ▸ hend)
        exact ih _ (by omega) (by omega)

theorem appendargs_of_mem (command : List Strings) (harg : none ∈ arg) :
    appendargs command arg = some (command ++ (appendargs [] arg).getD []) := by
  obtain ⟨n, hend⟩ := List.mem_iff_getElem?.mp harg
  have hlt : n < arg.length := (List.getElem?_eq_some_iff.mp hend).1
  obtain ⟨vectors, hvectors⟩ := exists_appendargsLoop hend [] (Nat.zero_le n)
    (by omega : n - 0 < arg.length + 1)
  rw [appendargs, appendargsLoop_append, appendargs, hvectors]
  rfl

end Append

/-! ## Names -/

section Take

variable {commands : List Command} {name : List UInt8}

theorem getargs_isSome_iff :
    (getargs commands name).isSome ↔ ∃ command ∈ commands, name = str command.line command.name := by
  simp [getargs]

theorem none_mem_of_getargs (hended : Ended commands) {args : Strings}
    (h : getargs commands name = some args) : none ∈ args := by
  obtain ⟨command, hfind, rfl⟩ := Option.map_eq_some_iff.mp h
  exact List.mem_map.mpr ⟨none, hended command (List.mem_of_find?_eq_some hfind), rfl⟩

theorem takeName_eq_some_iff (hended : Ended commands) {command vectors : List Strings} :
    takeName commands command name = some vectors ↔
      Known commands name ∧ vectors = command ++ vectorsOf commands name := by
  rw [takeName, vectorsOf, Known, ← getargs_isSome_iff]
  by_cases hbar : name = [bar]
  · rw [if_neg (not_not.mpr hbar), if_pos hbar, List.append_nil, Option.some.injEq]
    exact ⟨fun h => ⟨.inl hbar, h.symm⟩, fun h => h.2.symm⟩
  · rw [if_pos hbar, if_neg hbar, or_iff_right hbar]
    cases hargs : getargs commands name with
    | none => simp
    | some args =>
      rw [Option.bind_some, Option.bind_some,
        appendargs_of_mem command (none_mem_of_getargs hended hargs), Option.some.injEq]
      exact ⟨fun h => ⟨rfl, h.symm⟩, fun h => h.2.symm⟩

theorem foldlM_takeName_eq_some_iff (hended : Ended commands) (names : List (List UInt8))
    {command vectors : List Strings} :
    names.foldlM (takeName commands) command = some vectors ↔
      (∀ name ∈ names, Known commands name) ∧
        vectors = command ++ names.flatMap (vectorsOf commands) := by
  induction names generalizing command with
  | nil => simp [eq_comm]
  | cons name names ih =>
    rw [List.foldlM_cons, Option.bind_eq_bind, Option.bind_eq_some_iff, List.forall_mem_cons,
      List.flatMap_cons, ← List.append_assoc]
    constructor
    · rintro ⟨command', hname, hnames⟩
      obtain ⟨hknown, rfl⟩ := (takeName_eq_some_iff hended).mp hname
      obtain ⟨hall, rfl⟩ := ih.mp hnames
      exact ⟨⟨hknown, hall⟩, rfl⟩
    · rintro ⟨⟨hknown, hall⟩, rfl⟩
      exact ⟨_, (takeName_eq_some_iff hended).mpr ⟨hknown, rfl⟩, ih.mpr ⟨hall, rfl⟩⟩

end Take

section Exec

variable {commands : List Command} {buf : List UInt8}

/-- The vectors of a line, where `exec` follows no null pointer. -/
theorem execVectors_eq_some_iff (hended : Ended commands) (hnul : 0 ∈ buf)
    {vectors : List Strings} :
    execVectors commands buf = some vectors ↔
      tokens [space] (str buf 0) ≠ [] ∧
      (∀ token ∈ tokens [space] (str buf 0), Known commands (trimmed token)) ∧
      vectors = (tokens [space] (str buf 0)).flatMap fun token =>
        vectorsOf commands (trimmed token) := by
  rw [execVectors_eq_foldlM commands hnul]
  split_ifs with hnil
  · simp [hnil]
  · rw [foldlM_takeName_eq_some_iff hended, List.forall_mem_map, List.flatMap_map,
      List.nil_append]
    exact ⟨fun h => ⟨hnil, h⟩, fun h => h.2⟩

/-- A line is executed as if its unknown names were absent exactly if it has none, and at least
one token. -/
theorem exec_skips_unknown_iff (hended : Ended commands) (hnul : 0 ∈ buf) :
    execVectors commands buf = some ((tokens [space] (str buf 0)).flatMap fun token =>
        vectorsOf commands (trimmed token)) ↔
      tokens [space] (str buf 0) ≠ [] ∧
        ∀ token ∈ tokens [space] (str buf 0), Known commands (trimmed token) := by
  rw [execVectors_eq_some_iff hended hnul]
  exact ⟨fun h => ⟨h.1, h.2.1⟩, fun h => ⟨h.1, h.2, rfl⟩⟩

end Exec

/-! ## Tables -/

theorem length_of_storeArgs {line line' : List UInt8} {saved i fuel : ℕ} {args args' : List (Option ℕ)}
    (h : storeArgs line saved args i fuel = some (line', args')) : args'.length = args.length := by
  induction fuel generalizing line saved args i with
  | zero => cases h
  | succ fuel ih =>
    rw [storeArgs] at h
    split at h
    · obtain ⟨_, rfl⟩ := Prod.mk.inj (Option.some.inj h)
      rfl
    · split_ifs at h
      rw [ih h, List.length_set]

theorem none_mem_of_getwords {line line' : List UInt8} {value : ℕ} {args : List (Option ℕ)}
    (h : getwords line value = some (line', args)) : none ∈ args := by
  unfold getwords at h
  generalize strtok space line (value + 1) = first at h
  obtain ⟨arg, line, saved⟩ := first
  dsimp only at h
  obtain ⟨⟨line, args⟩, hstore, hset⟩ := Option.map_eq_some_iff.mp h
  obtain ⟨_, rfl⟩ := Prod.mk.inj hset
  apply List.mem_of_getElem?
  rw [List.getElem?_set_self]
  rw [length_of_storeArgs hstore, List.length_set, List.length_replicate]
  exact Nat.lt_succ_self _

/-- `getcommand` ends the array of every alias. -/
theorem none_mem_args_of_getcommand {buf : List UInt8} {command : Command}
    (h : getcommand buf = some command) : none ∈ command.args := by
  unfold getcommand at h
  split at h
  · cases h
  · split at h
    · cases h
    · obtain ⟨⟨line, args⟩, hwords, rfl⟩ := Option.map_eq_some_iff.mp h
      exact none_mem_of_getwords hwords

/-- The alias "a" of the word "b". -/
def oneAlias : List Command := [⟨[97, 0, 98, 0], 0, [some 2, none]⟩]

theorem ended_oneAlias : Ended oneAlias := by
  simp [Ended, oneAlias]

theorem exec_skips_unknown_iff_oneAlias :
    execVectors oneAlias [97, 10, 0] = some ((tokens [space] (str [97, 10, 0] 0)).flatMap
        fun token => vectorsOf oneAlias (trimmed token)) ↔
      tokens [space] (str [97, 10, 0] 0) ≠ [] ∧
        ∀ token ∈ tokens [space] (str [97, 10, 0] 0), Known oneAlias (trimmed token) :=
  exec_skips_unknown_iff ended_oneAlias (by decide)

/-- The line "b\n", whose only name is not defined. -/
theorem not_exec_skips_unknown :
    ¬ ∀ (commands : List Command) (buf : List UInt8), Ended commands → 0 ∈ buf →
      execVectors commands buf = some ((tokens [space] (str buf 0)).flatMap fun token =>
        vectorsOf commands (trimmed token)) := by
  intro hclaim
  have hnone : execVectors oneAlias [98, 10, 0] = none := by decide
  have h := hclaim oneAlias [98, 10, 0] ended_oneAlias (by decide)
  rw [hnone] at h
  cases h

end Sysopy.Shell
