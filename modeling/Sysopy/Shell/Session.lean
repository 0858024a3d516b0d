import Sysopy.Shell.Script
import Sysopy.Shell.Children

/-!
# From a script to its output

`parsefile` gives `exec` one list of vectors after another, and waits in `exec` until the children
of a line have ended. The shell keeps its descriptors from line to line, and the commands of all
lines read the same standard input. Every vector names a program that `execvp` can start.
-/
namespace Sysopy.Shell

open Descriptors Exec Filters Stdio Transition

variable {α β σ : Type*}

/-- The shell in `parsefile`; `current` is the line in `exec`, with the images of its vectors. -/
structure Session (α β σ : Type*) where
  lines : List (List Strings)
  table : Table α
  current : Option (List σ × Children α β σ)
  input : List β
  written : List β

namespace Session

def start (lines : List (List Strings)) (table : Table α) (input : List β) : Session α β σ where
  lines := lines
  table := table
  current := none
  input := input
  written := []

/-- What standard output holds. -/
def output (s : Session α β σ) : List β :=
  s.written ++ match s.current with
    | none => []
    | some (_, c) => c.output

/-- A step of the session; `image` is the program that `execvp` starts for a vector. -/
inductive Step (image : Strings → σ) (next : σ → Move σ β) (capacity : ℕ) (s : Session α β σ) :
    Session α β σ → Prop
  | exec {vectors : List Strings} {lines : List (List Strings)} (old_fd new_fd : ℕ × ℕ) :
      s.current = none → s.lines = vectors :: lines →
      Step image next capacity s { s with
        lines := lines
        current := some (vectors.map image, Children.start s.table old_fd new_fd s.input) }
  | within {command : List σ} {c c' : Children α β σ} : s.current = some (command, c) →
      Children.Step command next capacity c c' →
      Step image next capacity s { s with current := some (command, c') }
  | returns {command : List σ} {c : Children α β σ} : s.current = some (command, c) →
      ¬ c.shell.i < command.length → ¬ c.waited < command.length →
      Step image next capacity s { s with
        table := c.shell.table
        current := none
        input := c.input
        written := s.written ++ c.output }

/-- Every line is through. -/
def Done (s : Session α β σ) : Prop := s.current = none ∧ s.lines = []

section Session

variable {image : Strings → σ} {next : σ → Move σ β} {capacity : ℕ} {table : Table α}

/-- The lines that are still to come write the outputs, in at most `m` steps. -/
inductive ToWrite (image : Strings → σ) (next : σ → Move σ β) :
    List (List Strings) → List (List β) → ℕ → Prop
  | nil : ToWrite image next [] [] 0
  | cons {vectors : List Strings} {lines : List (List Strings)} {out : List β}
      {outs : List (List β)} {k m : ℕ} : vectors ≠ [] →
      Left next vectors.length out (Line.start (vectors.map image) []) k →
      ToWrite image next lines outs m →
      ToWrite image next (vectors :: lines) (out :: outs) (m + (k + 3 * vectors.length + 2))

theorem exists_toWrite {lines : List (List Strings)} {outs : List (List β)}
    (hne : ∀ vectors ∈ lines, vectors ≠ [])
    (houts : List.Forall₂ (fun vectors out => Composes next (vectors.map image) [] out) lines outs) :
    ∃ m, ToWrite image next lines outs m := by
  induction houts with
  | nil => exact ⟨0, .nil⟩
  | @cons vectors out lines outs hout _ ih =>
    have hfirst := hne vectors (List.mem_cons_self ..)
    obtain ⟨k, hleft⟩ := hout.exists_left (by simpa using hfirst)
    obtain ⟨m, hrest⟩ := ih fun vectors hmem => hne vectors (List.mem_cons_of_mem _ hmem)
    rw [List.length_map] at hleft
    exact ⟨_, .cons hfirst hleft hrest⟩

/-- Between two lines the shell has its own descriptors, and in a line the pipeline has what is
due. -/
def Due (image : Strings → σ) (next : σ → Move σ β) (table : Table α) (all : List β)
    (s : Session α β σ) (m : ℕ) : Prop :=
  ∃ outs n, ToWrite image next s.lines outs n ∧
    match s.current with
    | none => s.table = table ∧ s.input = [] ∧ s.written ++ outs.flatten = all ∧ n = m
    | some (command, c) => command ≠ [] ∧ c.input = [] ∧
        ∃ out k, Children.Due command next table out c k ∧
          s.written ++ out ++ outs.flatten = all ∧ n + k + 1 = m

theorem input_of_step {command : List σ} {c c' : Children α β σ} (hinput : c.input = [])
    (h : Children.Step command next capacity c c') : c'.input = [] := by
  cases h with
  | readFile _ _ _ hread => rw [hinput] at hread; cases hread
  | _ => exact hinput

theorem rank_start (n : ℕ) (table : Table α) (old_fd new_fd : ℕ × ℕ) (input : List β) :
    (Children.start table old_fd new_fd input : Children α β σ).rank n = 3 * n := by
  simp [Children.rank, Children.start, Children.weight]
  omega

section Table

variable {stdin stdout : α} (hzero : table 0 = some (.file stdin))
  (hone : table 1 = some (.file stdout)) (hfiles : ∀ fd, NoPipeEnd (table fd))

include hzero hone hfiles

theorem Due.step {all : List β} {s s' : Session α β σ} {m : ℕ}
    (hs : Due image next table all s m) (h : Step image next capacity s s') :
    ∃ m' < m, Due image next table all s' m' := by
  obtain ⟨outs, n, hlines, hcurrent⟩ := hs
  cases h with
  | @exec vectors lines old_fd new_fd hnone hvectors =>
    rw [hnone] at hcurrent
    obtain ⟨htable, hinput, hall, rfl⟩ := hcurrent
    rw [hvectors] at hlines
    cases hlines with
    | @cons _ _ out outs k n hne hleft hrest =>
      refine ⟨n + (k + 3 * vectors.length) + 1, by omega, outs, n, hrest, by simpa using hne,
        hinput, out, k + 3 * vectors.length, ⟨?_, k, ?_, ?_⟩, ?_, rfl⟩
      · rw [htable]
        exact Children.inv_start _ table old_fd new_fd s.input
      · rw [hinput, List.length_map]
        exact hleft
      · rw [rank_start, List.length_map]
      · rw [← hall, List.flatten_cons, List.append_assoc]
  | @within command c c' hsome hstep =>
    rw [hsome] at hcurrent
    obtain ⟨hne, hinput, out, k, hdue, hall, rfl⟩ := hcurrent
    obtain ⟨k', hless, hdue'⟩ := hdue.step (hzero ▸ Option.some_ne_none _)
      (hone ▸ Option.some_ne_none _) hfiles hstep
    exact ⟨n + k' + 1, by omega, outs, n, hlines, hne, input_of_step hinput hstep, out, k', hdue',
      hall, rfl⟩
  | @returns command c hsome hforked hwaited =>
    rw [hsome] at hcurrent
    obtain ⟨hne, hinput, out, k, hdue, hall, rfl⟩ := hcurrent
    have hlast := le_antisymm hdue.1.waited (not_lt.mp hwaited)
    refine ⟨n, by omega, outs, n, hlines, ?_, hinput, ?_, rfl⟩
    · exact hdue.1.shell.last (le_antisymm hdue.1.shell.le (not_lt.mp hforked))
    · rw [(hdue.output.2 hlast hne).1]
      exact hall

theorem Due.exists_step {all : List β} {s : Session α β σ} {m bound : ℕ}
    (hs : Due image next table all s m) (hfree : ∀ fd ≥ bound, table fd = none)
    (hcapacity : 0 < capacity) (hrest : ¬ s.Done) :
    ∃ s', Step image next capacity s s' := by
  obtain ⟨outs, n, hlines, hcurrent⟩ := hs
  cases hsome : s.current with
  | none =>
    cases hvectors : s.lines with
    | nil => exact absurd ⟨hsome, hvectors⟩ hrest
    | cons vectors lines => exact ⟨_, .exec (0, 0) (0, 0) hsome hvectors⟩
  | some current =>
    obtain ⟨command, c⟩ := current
    rw [hsome] at hcurrent
    obtain ⟨hne, -, out, k, hdue, -⟩ := hcurrent
    by_cases hwaited : c.waited < command.length
    · obtain ⟨c', hstep⟩ := hdue.1.exists_step hfiles hzero hone hfree hcapacity hwaited
      exact ⟨_, .within hsome hstep⟩
    · have hforked : ¬ c.shell.i < command.length := by
        -- the last child is waited for, so it has been forked
        intro hlt
        have hwaiting : c.shell.i < c.waited := by omega
        have hnone := (hdue.1.unforked c.shell.i).mpr le_rfl
        rw [hdue.1.reaped c.shell.i hwaiting] at hnone
        cases hnone
      exact ⟨_, .returns hsome hforked hwaited⟩

end Table

theorem Due.isPrefix {all : List β} {s : Session α β σ} {m : ℕ}
    (hs : Due image next table all s m) : s.output <+: all ∧ (s.Done → s.output = all) := by
  obtain ⟨outs, n, hlines, hcurrent⟩ := hs
  unfold output Done
  cases hsome : s.current with
  | none =>
    rw [hsome] at hcurrent
    obtain ⟨-, -, rfl, -⟩ := hcurrent
    refine ⟨by simp, fun hdone => ?_⟩
    rw [hdone.2] at hlines
    cases hlines
    simp
  | some current =>
    rw [hsome] at hcurrent
    obtain ⟨-, -, out, k, hdue, rfl, -⟩ := hcurrent
    obtain ⟨rest, hout⟩ := hdue.output.1
    refine ⟨⟨rest ++ outs.flatten, ?_⟩, fun hdone => ?_⟩
    · rw [← hout]
      simp
    · cases hdone.1

end Session

end Session

/-! ## Scripts -/

theorem ne_nil_of_mem_results {definitions : List (List UInt8 × List (List UInt8))}
    {lines : List Line} {parts : List Strings} (h : parts ∈ results definitions lines) :
    parts ≠ [] := by
  induction lines generalizing definitions with
  | nil => cases h
  | cons line lines ih =>
    cases line with
    | run first names =>
      rcases List.mem_cons.mp h with rfl | h
      · simp [vectors, List.splitOn_ne_nil]
      · exact ih h
    | define | empty => exact ih h

open Session

/-- A script writes, line by line, what the commands of its lines compute one after another, where
a name stands for its first definition. Its commands exist and find nothing on standard input. In
whatever order the processes run, the shell comes to the end of the script. -/
theorem script_outputs (buffering : Buffering) (ended : Bool) {lines : List Line}
    (hlines : WellFormed [] lines) {fuel : ℕ} (hfuel : (script ended lines).length < fuel)
    {image : Strings → σ} {next : σ → Move σ β} {outs : List (List β)}
    (houts : List.Forall₂ (fun vectors out => Composes next (vectors.map image) [] out)
      (results [] lines) outs) {capacity : ℕ} (hcapacity : 0 < capacity) {table : Table α}
    {stdin stdout : α} (hzero : table 0 = some (.file stdin)) (hone : table 1 = some (.file stdout))
    (hfiles : ∀ fd, NoPipeEnd (table fd)) {bound : ℕ} (hfree : ∀ fd ≥ bound, table fd = none) :
    ∃ parts, parsefile buffering (fun _ => 0) (script ended lines) fuel = some parts ∧
      (∀ s, Relation.ReflTransGen (Step image next capacity) (start parts table []) s →
        s.output <+: outs.flatten ∧ (s.Done → s.output = outs.flatten) ∧
        (¬ s.Done → ∃ s', Step image next capacity s s')) ∧
      ∀ run : ℕ → Session α β σ, run 0 = start parts table [] →
        ∃ k, ¬ Step image next capacity (run k) (run (k + 1)) := by
  obtain ⟨m, hm⟩ := exists_toWrite (fun _ => ne_nil_of_mem_results) houts
  have hstart : Due image next table outs.flatten (start (results [] lines) table []) m :=
    ⟨outs, m, hm, rfl, rfl, rfl, rfl⟩
  refine ⟨results [] lines, ?_, fun s hrun => ?_, fun run hrun => ?_⟩
  · exact parseLoop_eq ended lines (.start (script ended lines)) [] rfl .nil (by simp) hlines
      (fun _ _ h => h.2.1 rfl) fuel hfuel
  · have hs : ∃ m, Due image next table outs.flatten s m := by
      induction hrun with
      | refl => exact ⟨m, hstart⟩
      | tail _ hstep ih =>
        obtain ⟨m, hs⟩ := ih
        obtain ⟨m', -, hs'⟩ := hs.step hzero hone hfiles hstep
        exact ⟨m', hs'⟩
    obtain ⟨m, hs⟩ := hs
    exact ⟨hs.isPrefix.1, hs.isPrefix.2, hs.exists_step hzero hone hfiles hfree hcapacity⟩
  · exact exists_stop_of_descent (fun _ _ _ hs h => hs.step hzero hone hfiles h) run
      (hrun ▸ hstart)

/-- `a = x  | y`, `a | a` and `a`, where `x` writes a byte before it copies its input. -/
theorem script_outputs_twice :
    let lines := [.define [97] 1 [120] [(1, [bar]), (0, [121])], .run [97] [[97]], .run [97] []]
    let image : Strings → ℕ := fun vector => if vector = [some [120], none] then 9 else 0
    let next : ℕ → Move ℕ ℕ := fun
      | 0 => .read (· + 2) 1
      | 1 => .exit
      | b + 2 => .write b 0
    let table : Table ℕ := fun fd => if fd < 3 then some (.file fd) else none
    ∃ parts, parsefile blocks (fun _ => 0) (script false lines) 100 = some parts ∧
      ∀ s, Relation.ReflTransGen (Step image next 1) (start parts table []) s → s.Done →
        s.output = [7, 7, 7] := by
  intro lines image next table
  have hfiles : ∀ fd, NoPipeEnd (table fd) := by
    intro fd p
    by_cases hfd : fd < 3 <;> simp [table, hfd]
  have hfree : ∀ fd ≥ 3, table fd = none := fun _ hfd => if_neg (Nat.not_lt.mpr hfd)
  have hx : Produces next 3 9 [] [7] := .write rfl (.eof rfl (.exit rfl))
  have hy : Produces next 4 0 [7] [7] := .element rfl (.write rfl (.eof rfl (.exit rfl)))
  have hx' : Produces next 5 9 [7] [7, 7] :=
    .write rfl (.element rfl (.write rfl (.eof rfl (.exit rfl))))
  have hy' : Produces next 6 0 [7, 7] [7, 7] :=
    .element rfl (.write rfl (.element rfl (.write rfl (.eof rfl (.exit rfl)))))
  have hlines : WellFormed [] lines := by decide
  have houts : List.Forall₂ (fun vectors out => Composes next (vectors.map image) [] out)
      (results [] lines) [[7, 7], [7]] :=
    .cons (.cons hx (.cons hy (.cons hx' (.cons hy' (.nil _)))))
      (.cons (.cons hx (.cons hy (.nil _))) .nil)
  obtain ⟨parts, hparts, hall, -⟩ := script_outputs blocks false hlines
    (by decide : _ < 100) houts Nat.one_pos (rfl : table 0 = some (.file 0))
    (rfl : table 1 = some (.file 1)) hfiles hfree
  exact ⟨parts, hparts, fun s hrun => (hall s hrun).2.1⟩

end Sysopy.Shell
