import Sysopy.Shell.Pipeline
import Sysopy.Library.Filters

/-!
# The children of `exec`

While the loop of `exec` still forks, the children already run, each with the descriptors that it
has by then. A child reads the end of a file when no process holds the write end of its pipe, and
a write kills it when none holds the read end. Behind the loop, the shell waits for the children
one after another.
-/
namespace Sysopy.Shell

open Descriptors Exec Filters Transition

variable {α β σ : Type*}

/-- A child that has not yet called `execvp` is a copy of the shell. -/
inductive Process (α σ : Type*)
  | forked (copy : Exec α)
  | running (table : Table α) (x : σ)
  | ended

def Process.table : Process α σ → Table α
  | .forked copy => copy.table
  | .running table _ => table
  | .ended => fun _ => none

/-- The shell in `exec` with its children; `waited` is the index of the second loop. -/
structure Children (α β σ : Type*) where
  shell : Exec α
  process : ℕ → Option (Process α σ)
  pipe : ℕ → List β
  input : List β
  output : List β
  waited : ℕ

namespace Children

def start (table : Table α) (old_fd new_fd : ℕ × ℕ) (input : List β) : Children α β σ where
  shell := Exec.start table old_fd new_fd
  process := fun _ => none
  pipe := fun _ => []
  input := input
  output := []
  waited := 0

def setProcess (s : Children α β σ) (i : ℕ) (process : Process α σ) : Children α β σ :=
  { s with process := Function.update s.process i (some process) }

/-- Some process has the description open. -/
def Held (s : Children α β σ) (e : Description α) : Prop :=
  Holds s.shell.table e ∨ ∃ i process, s.process i = some process ∧ Holds process.table e

/-- A step of the shell or of a child. The list `command` holds what `execvp` starts, and a
program that exits where it fails; `next` is what a program does next. -/
inductive Step (command : List σ) (next : σ → Move σ β) (capacity : ℕ) (s : Children α β σ) :
    Children α β σ → Prop
  | fork {fds : ℕ × ℕ} {opened : Exec α} : s.shell.i < command.length →
      openPipe command.length s.shell fds = some opened →
      Step command next capacity s
        { s.setProcess s.shell.i (.forked opened) with
          shell := Exec.fork command.length opened }
  | execvp {i : ℕ} {copy : Exec α} {x : σ} : s.process i = some (.forked copy) →
      command[copy.i]? = some x →
      Step command next capacity s (s.setProcess i (.running (child command.length copy) x))
  | exit {i : ℕ} {table : Table α} {x : σ} : s.process i = some (.running table x) →
      next x = .exit → Step command next capacity s (s.setProcess i .ended)
  | readFile {i : ℕ} {table : Table α} {x eof : σ} {element : β → σ} {file : α} {b : β}
      {rest : List β} : s.process i = some (.running table x) → next x = .read element eof →
      table 0 = some (.file file) → s.input = b :: rest →
      Step command next capacity s
        ({ s with input := rest }.setProcess i (.running table (element b)))
  | eofFile {i : ℕ} {table : Table α} {x eof : σ} {element : β → σ} {file : α} :
      s.process i = some (.running table x) → next x = .read element eof →
      table 0 = some (.file file) → s.input = [] →
      Step command next capacity s (s.setProcess i (.running table eof))
  | readPipe {i p : ℕ} {table : Table α} {x eof : σ} {element : β → σ} {b : β} {rest : List β} :
      s.process i = some (.running table x) → next x = .read element eof →
      table 0 = some (.readEnd p) → s.pipe p = b :: rest →
      Step command next capacity s
        ({ s with pipe := Function.update s.pipe p rest }.setProcess i
          (.running table (element b)))
  | eofPipe {i p : ℕ} {table : Table α} {x eof : σ} {element : β → σ} :
      s.process i = some (.running table x) → next x = .read element eof →
      table 0 = some (.readEnd p) → s.pipe p = [] → ¬ s.Held (.writeEnd p) →
      Step command next capacity s (s.setProcess i (.running table eof))
  | writeFile {i : ℕ} {table : Table α} {x y : σ} {b : β} {file : α} :
      s.process i = some (.running table x) → next x = .write b y →
      table 1 = some (.file file) →
      Step command next capacity s
        ({ s with output := s.output ++ [b] }.setProcess i (.running table y))
  | writePipe {i p : ℕ} {table : Table α} {x y : σ} {b : β} :
      s.process i = some (.running table x) → next x = .write b y →
      table 1 = some (.writeEnd p) → s.Held (.readEnd p) → (s.pipe p).length < capacity →
      Step command next capacity s
        ({ s with pipe := Function.update s.pipe p (s.pipe p ++ [b]) }.setProcess i
          (.running table y))
  | sigpipe {i p : ℕ} {table : Table α} {x y : σ} {b : β} :
      s.process i = some (.running table x) → next x = .write b y →
      table 1 = some (.writeEnd p) → ¬ s.Held (.readEnd p) →
      Step command next capacity s (s.setProcess i .ended)
  | waitpid : ¬ s.shell.i < command.length → s.waited < command.length →
      s.process s.waited = some .ended → Step command next capacity s { s with waited := s.waited + 1 }

/-! ## Who holds the pipes -/

/-- A description is one of the two ends of pipe `p`. -/
def IsEnd (p : ℕ) (e : Description α) : Prop := e = .readEnd p ∨ e = .writeEnd p

section Ends

variable {n p : ℕ} {table : Table α} {shell opened : Exec α} {e : Description α}

theorem IsEnd.not_holds (he : IsEnd p e) (hfiles : ∀ fd, NoPipeEnd (table fd)) :
    ¬ Holds table e := by
  rintro ⟨fd, hfd⟩
  rcases he with rfl | rfl
  · exact (hfiles fd p).1 hfd
  · exact (hfiles fd p).2 hfd

theorem IsEnd.eq {q : ℕ} (he : IsEnd p e) (he' : IsEnd q e) : p = q := by
  rcases he with rfl | rfl <;> rcases he' with h | h <;> cases h <;> rfl

theorem IsEnd.holds_pipe (he : IsEnd p e) {q : ℕ} {table' : Table α} {fds : ℕ × ℕ}
    (h : Descriptors.pipe table q fds = some table') :
    Holds table' e ↔ Holds table e ∨ p = q := by
  rw [Descriptors.holds_pipe h]
  refine or_congr_right ⟨fun he' => he.eq he', ?_⟩
  rintro rfl
  exact he

theorem IsEnd.holds_shell (he : IsEnd p e) (hfiles : ∀ fd, NoPipeEnd (table fd))
    (hshell : Exec.Inv n table shell) :
    Holds shell.table e ↔ p + 1 = shell.i ∧ shell.i < n := by
  have hle := hshell.le
  by_cases hbetween : 0 < shell.i ∧ shell.i < n
  · rw [he.holds_pipe (hshell.between hbetween.1 hbetween.2)]
    have hnot := he.not_holds hfiles
    constructor
    · rintro (h | h)
      · exact absurd h hnot
      · omega
    · intro h
      exact .inr (by omega)
  · have htable : shell.table = table := by
      rcases Nat.eq_zero_or_pos shell.i with hzero | hpos
      · exact hshell.first hzero
      · exact hshell.last (by omega)
    rw [htable]
    refine iff_of_false (he.not_holds hfiles) ?_
    omega

theorem IsEnd.holds_copy (he : IsEnd p e) (hfiles : ∀ fd, NoPipeEnd (table fd))
    (hshell : Exec.Inv n table shell) (hlt : shell.i < n) {fds : ℕ × ℕ}
    (hopen : openPipe n shell fds = some opened) :
    Holds opened.table e ↔ p + 1 = shell.i ∨ (p = shell.i ∧ p + 1 < n) := by
  obtain ⟨-, hopened⟩ := openPipe_eq_some hopen
  unfold Opened at hopened
  split_ifs at hopened with hlast
  · rw [he.holds_pipe hopened, he.holds_shell hfiles hshell]
    omega
  · rw [hopened, he.holds_shell hfiles hshell]
    omega

end Ends

/-- A child before `execvp` is child `i`, and holds the pipes on both sides of it. -/
structure IsCopy (n : ℕ) (table : Table α) (i : ℕ) (copy : Exec α) : Prop where
  index : copy.i = i
  table_eq : child n copy = childTable n table i
  holds : ∀ p e, IsEnd p e → (Holds copy.table e ↔ p + 1 = i ∨ (p = i ∧ p + 1 < n))

/-- The children with a smaller number than `i` are forked, those with a smaller one than `waited`
are waited for. -/
structure Inv (n : ℕ) (table : Table α) (s : Children α β σ) : Prop where
  shell : Exec.Inv n table s.shell
  unforked : ∀ i, s.process i = none ↔ s.shell.i ≤ i
  forked : ∀ i copy, s.process i = some (.forked copy) → IsCopy n table i copy
  running : ∀ i t x, s.process i = some (.running t x) → t = childTable n table i
  waited : s.waited ≤ n
  reaped : ∀ i < s.waited, s.process i = some .ended

variable {n i : ℕ} {table : Table α} {s s' : Children α β σ} {process : Process α σ}

theorem inv_start (n : ℕ) (table : Table α) (old_fd new_fd : ℕ × ℕ) (input : List β) :
    Inv n table (start table old_fd new_fd input : Children α β σ) where
  shell := Exec.inv_start n table old_fd new_fd
  unforked i := iff_of_true rfl (Nat.zero_le i)
  forked _ _ h := by cases h
  running _ _ _ h := by cases h
  waited := Nat.zero_le n
  reaped _ h := absurd h (Nat.not_lt_zero _)

theorem Inv.lt (hs : Inv n table s) (h : s.process i ≠ none) : i < n := by
  rw [Ne, hs.unforked] at h
  have hle := hs.shell.le
  omega

theorem Inv.setProcess (hs : Inv n table s) (hshell : s'.shell = s.shell)
    (hwaited : s'.waited = s.waited)
    (hprocess : s'.process = Function.update s.process i (some process))
    (hbefore : s.process i ≠ none) (hlive : s.process i ≠ some .ended)
    (hnew : process = .ended ∨ ∃ x, process = .running (childTable n table i) x) :
    Inv n table s' where
  shell := hshell ▸ hs.shell
  unforked j := by
    rw [hprocess, hshell, ← hs.unforked]
    by_cases hj : j = i
    · subst hj
      simp [hbefore]
    · rw [Function.update_of_ne hj]
  forked j copy h := by
    rw [hprocess] at h
    by_cases hj : j = i
    · subst hj
      rw [Function.update_self] at h
      rcases hnew with rfl | ⟨x, rfl⟩ <;> cases h
    · rw [Function.update_of_ne hj] at h
      exact hs.forked j copy h
  running j t x h := by
    rw [hprocess] at h
    by_cases hj : j = i
    · subst hj
      rw [Function.update_self] at h
      rcases hnew with rfl | ⟨x, rfl⟩ <;> cases h
      rfl
    · rw [Function.update_of_ne hj] at h
      exact hs.running j t x h
  waited := hwaited ▸ hs.waited
  reaped j hj := by
    rw [hwaited] at hj
    have hended := hs.reaped j hj
    have hne : j ≠ i := by
      rintro rfl
      exact hlive hended
    rw [hprocess, Function.update_of_ne hne, hended]

theorem Inv.fork (hs : Inv n table s) (hzero : table 0 ≠ none) (hone : table 1 ≠ none)
    (hfiles : ∀ fd, NoPipeEnd (table fd)) (hlt : s.shell.i < n) {fds : ℕ × ℕ} {opened : Exec α}
    (hopen : openPipe n s.shell fds = some opened) :
    Inv n table { s.setProcess s.shell.i (.forked opened) with
      shell := Exec.fork n opened } := by
  have hiteration : iteration n s.shell fds = some (Exec.fork n opened) := by
    rw [iteration, if_pos hlt, hopen]
    rfl
  have hnext := iteration_i hiteration
  have hself := (hs.unforked s.shell.i).mpr le_rfl
  constructor
  · exact hs.shell.iteration hzero hone hiteration
  · intro j
    change Function.update s.process s.shell.i _ j = none ↔ (Exec.fork n opened).i ≤ j
    rw [hnext]
    by_cases hj : j = s.shell.i
    · subst hj
      simp
    · rw [Function.update_of_ne hj, hs.unforked]
      omega
  · intro j copy h
    change Function.update s.process s.shell.i _ j = _ at h
    by_cases hj : j = s.shell.i
    · subst hj
      rw [Function.update_self] at h
      cases h
      refine ⟨?_, (hs.shell.fork hzero hone hlt hopen).1, fun p e he => ?_⟩
      · rw [(openPipe_eq_some hopen).1]
      · exact he.holds_copy hfiles hs.shell hlt hopen
    · rw [Function.update_of_ne hj] at h
      exact hs.forked j copy h
  · intro j t x h
    change Function.update s.process s.shell.i _ j = _ at h
    by_cases hj : j = s.shell.i
    · subst hj
      rw [Function.update_self] at h
      cases h
    · rw [Function.update_of_ne hj] at h
      exact hs.running j t x h
  · exact hs.waited
  · intro j hj
    have hended := hs.reaped j hj
    have hne : j ≠ s.shell.i := by
      rintro rfl
      rw [hself] at hended
      cases hended
    exact (Function.update_of_ne hne _ _).trans hended

theorem Inv.go_on (hs : Inv n table s) {t : Table α} {x : σ}
    (hrunning : s.process i = some (.running t x)) (y : σ) (hshell : s'.shell = s.shell)
    (hwaited : s'.waited = s.waited)
    (hprocess : s'.process = Function.update s.process i (some (.running t y))) :
    Inv n table s' := by
  have ht := hs.running i t x hrunning
  refine hs.setProcess hshell hwaited hprocess ?_ ?_ (.inr ⟨y, by rw [ht]⟩)
  · rw [hrunning]
    exact Option.some_ne_none _
  · rw [hrunning]
    simp

theorem Inv.ended (hs : Inv n table s) {t : Table α} {x : σ}
    (hrunning : s.process i = some (.running t x)) : Inv n table (s.setProcess i .ended) := by
  refine hs.setProcess rfl rfl rfl ?_ ?_ (.inl rfl)
  · rw [hrunning]
    exact Option.some_ne_none _
  · rw [hrunning]
    simp

section Steps

variable {command : List σ} {next : σ → Move σ β} {capacity : ℕ}

theorem Inv.step (hs : Inv command.length table s) (hzero : table 0 ≠ none) (hone : table 1 ≠ none)
    (hfiles : ∀ fd, NoPipeEnd (table fd)) (h : Step command next capacity s s') :
    Inv command.length table s' := by
  cases h with
  | fork hlt hopen => exact hs.fork hzero hone hfiles hlt hopen
  | @execvp i copy x hcopy _ =>
    refine hs.setProcess rfl rfl rfl ?_ ?_ (.inr ⟨x, by rw [(hs.forked i copy hcopy).table_eq]⟩)
    · rw [hcopy]
      exact Option.some_ne_none _
    · rw [hcopy]
      simp
  | exit hrunning _ | sigpipe hrunning _ _ _ => exact hs.ended hrunning
  | readFile hrunning _ _ _ | eofFile hrunning _ _ _ | readPipe hrunning _ _ _
  | eofPipe hrunning _ _ _ _ | writeFile hrunning _ _ | writePipe hrunning _ _ _ _ =>
    exact hs.go_on hrunning _ rfl rfl rfl
  | waitpid _ hlt hended =>
    refine ⟨hs.shell, hs.unforked, hs.forked, hs.running, hlt, fun j hj => ?_⟩
    rcases Nat.lt_succ_iff_lt_or_eq.mp hj with hj | rfl
    · exact hs.reaped j hj
    · exact hended

/-! ## The children are filters in a line -/

/-- What the filter does for a child; one that is not forked has all its moves before it. -/
def filterOf (before : Option σ) : Option (Process α σ) → Option σ
  | none | some (.forked _) => before
  | some (.running _ x) => some x
  | some .ended => none

def line (command : List σ) (s : Children α β σ) : Line σ β where
  filter := fun i => filterOf command[i]? (s.process i)
  buffer := s.pipe
  input := s.input
  output := s.output

theorem line_setProcess (s : Children α β σ) (i : ℕ) (process : Process α σ) :
    (s.setProcess i process).line command =
      (s.line command).setFilter i (filterOf command[i]? (some process)) := by
  have hfilter : (fun j => filterOf command[j]? (Function.update s.process i (some process) j)) =
      Function.update (fun j => filterOf command[j]? (s.process j)) i
        (filterOf command[i]? (some process)) := by
    funext j
    by_cases hj : j = i
    · subst hj
      rw [Function.update_self, Function.update_self]
    · rw [Function.update_of_ne hj, Function.update_of_ne hj]
  exact congrArg (fun filter => { s.line command with filter := filter }) hfilter

/-- A forked child counts for what it still has to do before `execvp`, and one that is not forked
for the fork as well. -/
def weight : Option (Process α σ) → ℕ
  | none => 2
  | some (.forked _) => 1
  | some _ => 0

/-- The steps that are no moves of a filter. -/
def rank (n : ℕ) (s : Children α β σ) : ℕ :=
  ∑ i ∈ Finset.range n, weight (s.process i) + (n - s.waited)

theorem rank_setProcess (hlt : i < n) (hwaited : s'.waited = s.waited)
    (hprocess : s'.process = Function.update s.process i (some process)) :
    s'.rank n + weight (s.process i) = s.rank n + weight (some process) := by
  unfold rank
  have hafter := Finset.add_sum_erase (Finset.range n) (fun j => weight (s'.process j))
    (Finset.mem_range.mpr hlt)
  have hbefore := Finset.add_sum_erase (Finset.range n) (fun j => weight (s.process j))
    (Finset.mem_range.mpr hlt)
  have hothers : ∑ j ∈ (Finset.range n).erase i, weight (s'.process j) =
      ∑ j ∈ (Finset.range n).erase i, weight (s.process j) := by
    refine Finset.sum_congr rfl fun j hj => ?_
    rw [hprocess, Function.update_of_ne (Finset.ne_of_mem_erase hj)]
  have hself : weight (s'.process i) = weight (some process) := by
    rw [hprocess, Function.update_self]
  omega

theorem rank_lt_of_setProcess (hlt : i < n) (hwaited : s'.waited = s.waited)
    (hprocess : s'.process = Function.update s.process i (some process))
    (hless : weight (some process) < weight (s.process i)) : s'.rank n < s.rank n := by
  have hrank := rank_setProcess hlt hwaited hprocess
  omega

theorem filterOf_eq_none {before : Option σ} (h : before ≠ none) {p : Option (Process α σ)} :
    filterOf before p = none ↔ p = some .ended := by
  cases p with
  | none => simp [filterOf, h]
  | some p => cases p <;> simp [filterOf, h]

theorem Inv.held (hs : Inv n table s) (hfiles : ∀ fd, NoPipeEnd (table fd)) {p : ℕ}
    {e : Description α} (he : IsEnd p e) :
    s.Held e ↔ (p + 1 = s.shell.i ∧ s.shell.i < n) ∨
      (∃ i copy, s.process i = some (.forked copy) ∧ (p + 1 = i ∨ (p = i ∧ p + 1 < n))) ∨
      ∃ i t x, s.process i = some (.running t x) ∧ Holds (childTable n table i) e := by
  unfold Held
  rw [he.holds_shell hfiles hs.shell]
  refine or_congr_right ⟨?_, ?_⟩
  · rintro ⟨i, process, hprocess, hholds⟩
    cases process with
    | forked copy =>
      exact .inl ⟨i, copy, hprocess, ((hs.forked i copy hprocess).holds p e he).mp hholds⟩
    | running t x =>
      refine .inr ⟨i, t, x, hprocess, ?_⟩
      rw [← hs.running i t x hprocess]
      exact hholds
    | ended =>
      obtain ⟨fd, hfd⟩ := hholds
      cases hfd
  · rintro (⟨i, copy, hcopy, hholds⟩ | ⟨i, t, x, hrunning, hholds⟩)
    · exact ⟨i, _, hcopy, ((hs.forked i copy hcopy).holds p e he).mpr hholds⟩
    · refine ⟨i, _, hrunning, ?_⟩
      rw [← hs.running i t x hrunning] at hholds
      exact hholds

/-- Behind a running child, the read end is held as long as the next child has not ended. -/
theorem Inv.held_readEnd (hs : Inv n table s) (hfiles : ∀ fd, NoPipeEnd (table fd)) {t : Table α}
    {x : σ} (hrunning : s.process i = some (.running t x)) (hlt : i + 1 < n) :
    s.Held (.readEnd i) ↔ s.process (i + 1) ≠ some .ended := by
  have hforked : ¬ s.shell.i ≤ i := by
    rw [← hs.unforked, hrunning]
    exact Option.some_ne_none _
  rw [hs.held hfiles (.inl rfl)]
  constructor
  · rintro (⟨hi, -⟩ | ⟨j, copy, hcopy, rfl | ⟨rfl, -⟩⟩ | ⟨j, t, y, hj, hholds⟩)
    · rw [(hs.unforked (i + 1)).mpr hi.ge]
      exact (Option.some_ne_none _).symm
    · rw [hcopy]
      simp
    · rw [hrunning] at hcopy
      cases hcopy
    · rw [holds_readEnd hfiles] at hholds
      rw [← hholds, hj]
      simp
  · intro hlive
    cases hprocess : s.process (i + 1) with
    | none =>
      rw [hs.unforked] at hprocess
      exact .inl (by omega)
    | some process =>
      cases process with
      | forked copy => exact .inr (.inl ⟨i + 1, copy, hprocess, .inl rfl⟩)
      | running t y => exact .inr (.inr ⟨i + 1, t, y, hprocess, (holds_readEnd hfiles).mpr rfl⟩)
      | ended => exact absurd hprocess hlive

/-- Before a running child, the write end is held until the child before it ends. -/
theorem Inv.ended_of_not_held (hs : Inv n table s) (hfiles : ∀ fd, NoPipeEnd (table fd))
    {t : Table α} {x : σ} (hrunning : s.process (i + 1) = some (.running t x))
    (h : ¬ s.Held (.writeEnd i)) : s.process i = some .ended := by
  have hne : s.process (i + 1) ≠ none := hrunning ▸ Option.some_ne_none _
  have hlt := hs.lt hne
  rw [Ne, hs.unforked] at hne
  rw [hs.held hfiles (.inr rfl)] at h
  push Not at h
  obtain ⟨-, hcopies, hothers⟩ := h
  cases hprocess : s.process i with
  | none =>
    rw [hs.unforked] at hprocess
    omega
  | some process =>
    cases process with
    | forked copy => exact absurd hlt ((hcopies i copy hprocess).2 rfl).not_gt
    | running t y => exact absurd ((holds_writeEnd hfiles).mpr ⟨rfl, hlt⟩) (hothers i t y hprocess)
    | ended => rfl

theorem Inv.not_held (hs : Inv n table s) (hfiles : ∀ fd, NoPipeEnd (table fd))
    (hdone : s.shell.i = n) (hcopies : ∀ i copy, s.process i ≠ some (.forked copy))
    (hended : s.process i = some .ended) : ¬ s.Held (.writeEnd i) := by
  rw [hs.held hfiles (.inr rfl)]
  rintro (⟨-, hlt⟩ | ⟨j, copy, hcopy, -⟩ | ⟨j, t, y, hj, hholds⟩)
  · omega
  · exact hcopies j copy hcopy
  · obtain ⟨rfl, -⟩ := (holds_writeEnd hfiles).mp hholds
    rw [hended] at hj
    cases hj

theorem childTable_zero (n : ℕ) (table : Table α) (i : ℕ) : childTable n table i 0 =
    if 0 < i then some (.readEnd (i - 1)) else table 0 := by
  rw [childTable_eq, if_neg (by omega)]
  simp

theorem childTable_one (n : ℕ) (table : Table α) (i : ℕ) : childTable n table i 1 =
    if i + 1 < n then some (.writeEnd i) else table 1 := by
  rw [childTable_eq, if_neg (by omega : ¬ (1 = 0 ∧ 0 < i))]
  simp

theorem Inv.moves (hs : Inv command.length table s) {t : Table α} {x : σ}
    (hrunning : s.process i = some (.running t x)) {process : Process α σ}
    (hwaited : s'.waited = s.waited)
    (hprocess : s'.process = Function.update s.process i (some process))
    (hnew : weight (some process) = 0)
    (hmove : (s.line command).Moves next command.length capacity i x (s'.line command)) :
    s'.rank command.length = s.rank command.length ∧
      ∃ i, (s.line command).step next command.length capacity i = some (s'.line command) := by
  have hlt : i < command.length := hs.lt (hrunning ▸ Option.some_ne_none _)
  have hrank := rank_setProcess hlt hwaited hprocess
  rw [hrunning, hnew] at hrank
  refine ⟨hrank, i, hmove.step hlt ?_⟩
  change filterOf _ (s.process i) = _
  rw [hrunning]
  rfl

/-- A step is a move of a filter, or one of the shell or before an `execvp`, and of these there
is one less to come. -/
theorem Inv.simulate (hs : Inv command.length table s) (hfiles : ∀ fd, NoPipeEnd (table fd))
    (h : Step command next capacity s s') :
    (s'.line command = s.line command ∧ s'.rank command.length < s.rank command.length) ∨
      (s'.rank command.length = s.rank command.length ∧
        ∃ i, (s.line command).step next command.length capacity i = some (s'.line command)) := by
  cases h with
  | @fork fds opened hlt hopen =>
    have hnone := (hs.unforked s.shell.i).mpr le_rfl
    refine .inl ⟨?_, ?_⟩
    · refine (line_setProcess s s.shell.i (.forked opened)).trans ?_
      have hsame : (s.line command).filter s.shell.i = command[s.shell.i]? := by
        change filterOf _ (s.process s.shell.i) = _
        rw [hnone]
        rfl
      rw [filterOf, ← hsame]
      exact Line.setFilter_self _ _
    · refine rank_lt_of_setProcess hlt rfl rfl ?_
      rw [hnone]
      exact Nat.lt_succ_self 1
  | @execvp i copy x hcopy hcommand =>
    have hlt : i < command.length := hs.lt (hcopy ▸ Option.some_ne_none _)
    refine .inl ⟨?_, ?_⟩
    · rw [line_setProcess, filterOf]
      have hsame : (s.line command).filter i = some x := by
        change filterOf _ (s.process i) = _
        rw [hcopy, ← (hs.forked i copy hcopy).index]
        exact hcommand
      rw [← hsame]
      exact Line.setFilter_self _ _
    · refine rank_lt_of_setProcess hlt rfl rfl
        ?_
      rw [hcopy]
      exact Nat.zero_lt_one
  | @exit i t x hrunning hnext =>
    refine .inr (hs.moves hrunning rfl rfl rfl ?_)
    rw [line_setProcess]
    exact .exit hnext
  | @readFile i t x eof element file b rest hrunning hnext htable hinput =>
    refine .inr (hs.moves hrunning rfl rfl rfl ?_)
    rw [line_setProcess]
    rw [hs.running i t x hrunning, childTable_zero] at htable
    split_ifs at htable with hi
    · cases htable
    · obtain rfl : i = 0 := by omega
      exact .pop hnext hinput
  | @eofFile i t x eof element file hrunning hnext htable hinput =>
    refine .inr (hs.moves hrunning rfl rfl rfl ?_)
    rw [line_setProcess]
    rw [hs.running i t x hrunning, childTable_zero] at htable
    split_ifs at htable with hi
    · cases htable
    · obtain rfl : i = 0 := by omega
      exact .eof hnext hinput trivial
  | @readPipe i p t x eof element b rest hrunning hnext htable hpipe =>
    refine .inr (hs.moves hrunning rfl rfl rfl ?_)
    rw [line_setProcess]
    rw [hs.running i t x hrunning, childTable_zero] at htable
    split_ifs at htable with hi
    · obtain ⟨i, rfl⟩ : ∃ j, i = j + 1 := ⟨i - 1, by omega⟩
      cases htable
      exact .pop hnext hpipe
    · exact absurd htable (hfiles 0 p).1
  | @eofPipe i p t x eof element hrunning hnext htable hpipe hheld =>
    refine .inr (hs.moves hrunning rfl rfl rfl ?_)
    rw [line_setProcess]
    rw [hs.running i t x hrunning, childTable_zero] at htable
    split_ifs at htable with hi
    · obtain ⟨i, rfl⟩ : ∃ j, i = j + 1 := ⟨i - 1, by omega⟩
      cases htable
      refine .eof hnext hpipe ?_
      change filterOf _ (s.process i) = none
      rw [hs.ended_of_not_held hfiles hrunning hheld]
      rfl
    · exact absurd htable (hfiles 0 p).1
  | @writeFile i t x y b file hrunning hnext htable =>
    have hlt : i < command.length := hs.lt (hrunning ▸ Option.some_ne_none _)
    refine .inr (hs.moves hrunning rfl rfl rfl ?_)
    rw [line_setProcess]
    rw [hs.running i t x hrunning, childTable_one] at htable
    split_ifs at htable with hi
    · cases htable
    · exact .output hnext (by omega)
  | @writePipe i p t x y b hrunning hnext htable hheld hroom =>
    refine .inr (hs.moves hrunning rfl rfl rfl ?_)
    rw [line_setProcess]
    rw [hs.running i t x hrunning, childTable_one] at htable
    split_ifs at htable with hi
    · cases htable
      refine .push hnext hi ?_ hroom
      rw [Ne, line, filterOf_eq_none (by simpa using hi)]
      exact (hs.held_readEnd hfiles hrunning hi).mp hheld
    · exact absurd htable (hfiles 1 p).2
  | @sigpipe i p t x y b hrunning hnext htable hheld =>
    refine .inr (hs.moves hrunning rfl rfl rfl ?_)
    rw [line_setProcess]
    rw [hs.running i t x hrunning, childTable_one] at htable
    split_ifs at htable with hi
    · cases htable
      refine .broken hnext hi ?_
      rw [line, filterOf_eq_none (by simpa using hi)]
      exact not_not.mp (mt (hs.held_readEnd hfiles hrunning hi).mpr hheld)
    · exact absurd htable (hfiles 1 p).2
  | waitpid _ hlt _ =>
    refine .inl ⟨rfl, ?_⟩
    change _ + _ < _ + _
    dsimp only
    omega

theorem Inv.exists_step_of_move (hs : Inv command.length table s)
    (hfiles : ∀ fd, NoPipeEnd (table fd)) {stdin stdout : α} (hzero : table 0 = some (.file stdin))
    (hone : table 1 = some (.file stdout)) (hdone : s.shell.i = command.length)
    (hcopies : ∀ i copy, s.process i ≠ some (.forked copy)) {l : Line σ β}
    (hmove : (s.line command).step next command.length capacity i = some l) :
    ∃ s', Step command next capacity s s' := by
  obtain ⟨hi, x, hx, hmove⟩ := Line.step_eq_some hmove
  obtain ⟨t, hrunning⟩ : ∃ t, s.process i = some (.running t x) := by
    change filterOf _ (s.process i) = _ at hx
    cases hprocess : s.process i with
    | none =>
      rw [hs.unforked] at hprocess
      omega
    | some process =>
      rw [hprocess] at hx
      cases process with
      | forked copy => exact absurd hprocess (hcopies i copy)
      | running t y =>
        cases hx
        exact ⟨t, rfl⟩
      | ended => cases hx
  have ht := hs.running i t x hrunning
  have hread : t 0 = if 0 < i then some (.readEnd (i - 1)) else some (.file stdin) := by
    rw [ht, childTable_zero, hzero]
  have hwrite : t 1 = if i + 1 < command.length then some (.writeEnd i)
      else some (.file stdout) := by
    rw [ht, childTable_one, hone]
  cases hmove with
  | exit hnext => exact ⟨_, .exit hrunning hnext⟩
  | output hnext hlast =>
    rw [if_neg (by omega)] at hwrite
    exact ⟨_, .writeFile hrunning hnext hwrite⟩
  | broken hnext hlast hended =>
    rw [if_pos hlast] at hwrite
    rw [line, filterOf_eq_none (by simpa using hlast)] at hended
    refine ⟨_, .sigpipe hrunning hnext hwrite ?_⟩
    rw [hs.held_readEnd hfiles hrunning hlast]
    exact not_not.mpr hended
  | push hnext hlast hreader hroom =>
    rw [if_pos hlast] at hwrite
    rw [Ne, line, filterOf_eq_none (by simpa using hlast)] at hreader
    exact ⟨_, .writePipe hrunning hnext hwrite
      ((hs.held_readEnd hfiles hrunning hlast).mpr hreader) hroom⟩
  | pop hnext hsource =>
    cases i with
    | zero => exact ⟨_, .readFile hrunning hnext hread hsource⟩
    | succ i => exact ⟨_, .readPipe hrunning hnext hread hsource⟩
  | eof hnext hsource hend =>
    cases i with
    | zero => exact ⟨_, .eofFile hrunning hnext hread hsource⟩
    | succ i =>
      have hended : s.process i = some .ended :=
        (filterOf_eq_none (by simpa using (by omega : i < command.length))).mp hend
      exact ⟨_, .eofPipe hrunning hnext hread hsource
        (hs.not_held hfiles hdone hcopies hended)⟩

/-- As long as `exec` waits, somebody can step. -/
theorem Inv.exists_step (hs : Inv command.length table s) (hfiles : ∀ fd, NoPipeEnd (table fd))
    {stdin stdout : α} (hzero : table 0 = some (.file stdin))
    (hone : table 1 = some (.file stdout)) {bound : ℕ} (hfree : ∀ fd ≥ bound, table fd = none)
    (hcapacity : 0 < capacity) (hwaiting : s.waited < command.length) :
    ∃ s', Step command next capacity s s' := by
  by_cases hlt : s.shell.i < command.length
  · obtain ⟨fds, shell, hiteration⟩ := exists_iteration hfree hs.shell hlt
    rw [iteration, if_pos hlt] at hiteration
    obtain ⟨opened, hopen, -⟩ := Option.map_eq_some_iff.mp hiteration
    exact ⟨_, .fork hlt hopen⟩
  have hdone : s.shell.i = command.length := le_antisymm hs.shell.le (not_lt.mp hlt)
  by_cases hcopies : ∃ i copy, s.process i = some (.forked copy)
  · obtain ⟨i, copy, hcopy⟩ := hcopies
    have hi : copy.i < command.length := by
      rw [(hs.forked i copy hcopy).index]
      exact hs.lt (hcopy ▸ Option.some_ne_none _)
    exact ⟨_, .execvp hcopy (List.getElem?_eq_getElem hi)⟩
  push Not at hcopies
  by_cases hstuck : ∀ i < command.length, (s.line command).step next command.length capacity i = none
  · have hended := Line.ended_of_stuck hcapacity hstuck s.waited hwaiting
    rw [line, filterOf_eq_none (by simpa using hwaiting)] at hended
    exact ⟨_, .waitpid hlt hwaiting hended⟩
  · push Not at hstuck
    obtain ⟨i, -, hmove⟩ := hstuck
    obtain ⟨l, hl⟩ := Option.ne_none_iff_exists'.mp hmove
    exact hs.exists_step_of_move hfiles hzero hone hdone hcopies hl

/-! ## Every order of steps -/

/-- The pipeline has `out` to write, and at most `m` steps to take. -/
def Due (command : List σ) (next : σ → Move σ β) (table : Table α) (out : List β)
    (s : Children α β σ) (m : ℕ) : Prop :=
  Inv command.length table s ∧
    ∃ k, Left next command.length out (s.line command) k ∧ k + s.rank command.length = m

variable {out : List β} {m : ℕ}

theorem Due.step (hs : Due command next table out s m) (hzero : table 0 ≠ none)
    (hone : table 1 ≠ none) (hfiles : ∀ fd, NoPipeEnd (table fd))
    (h : Step command next capacity s s') : ∃ m' < m, Due command next table out s' m' := by
  obtain ⟨hs, k, hleft, rfl⟩ := hs
  have hs' := hs.step hzero hone hfiles h
  rcases hs.simulate hfiles h with ⟨hline, hrank⟩ | ⟨hrank, i, hmove⟩
  · rw [← hline] at hleft
    exact ⟨_, by omega, hs', k, hleft, rfl⟩
  · obtain ⟨k', hless, hleft'⟩ := hleft.step hmove
    exact ⟨_, by omega, hs', k', hleft', rfl⟩

theorem Due.output (hs : Due command next table out s m) :
    s.output <+: out ∧ (s.waited = command.length → command ≠ [] →
      s.output = out ∧ ∀ i < command.length, s.process i = some .ended) := by
  obtain ⟨hs, k, hleft, -⟩ := hs
  refine ⟨hleft.isPrefix, fun hwaited hne => ?_⟩
  have hended : ∀ i < command.length, s.process i = some .ended := fun i hi =>
    hs.reaped i (by omega)
  refine ⟨hleft.output_eq (List.length_pos_iff.mpr hne) fun i hi => ?_, hended⟩
  exact (filterOf_eq_none (by simpa using hi)).mpr (hended i hi)

end Steps

end Children

open Children

/-- In whatever order the shell forks and the children run, the pipeline writes what the commands
compute one after another, and `exec` returns: until it has waited for the last child somebody
can step, and no run goes on forever. -/
theorem exec_outputs {command : List σ} (hne : command ≠ []) {next : σ → Move σ β} {capacity : ℕ}
    (hcapacity : 0 < capacity) {table : Table α} {stdin stdout : α}
    (hzero : table 0 = some (.file stdin)) (hone : table 1 = some (.file stdout))
    (hfiles : ∀ fd, NoPipeEnd (table fd)) {bound : ℕ} (hfree : ∀ fd ≥ bound, table fd = none)
    {input out : List β} (hout : Composes next command input out) (old_fd new_fd : ℕ × ℕ) :
    (∀ s, Relation.ReflTransGen (Step command next capacity) (start table old_fd new_fd input) s →
      s.output <+: out ∧
      (s.waited = command.length →
        s.output = out ∧ ∀ i < command.length, s.process i = some .ended) ∧
      (s.waited < command.length → ∃ s', Step command next capacity s s')) ∧
    ∀ run : ℕ → Children α β σ, run 0 = start table old_fd new_fd input →
      ∃ k, ¬ Step command next capacity (run k) (run (k + 1)) := by
  have hzero' : table 0 ≠ none := hzero ▸ Option.some_ne_none _
  have hone' : table 1 ≠ none := hone ▸ Option.some_ne_none _
  obtain ⟨k, hleft⟩ := hout.exists_left hne
  have hstart : Due command next table out (start table old_fd new_fd input) _ :=
    ⟨inv_start command.length table old_fd new_fd input, k, hleft, rfl⟩
  constructor
  · intro s hrun
    have hs : ∃ m, Due command next table out s m := by
      induction hrun with
      | refl => exact ⟨_, hstart⟩
      | tail _ hstep ih =>
        obtain ⟨m, hs⟩ := ih
        obtain ⟨m', -, hs'⟩ := hs.step hzero' hone' hfiles hstep
        exact ⟨m', hs'⟩
    obtain ⟨m, hs⟩ := hs
    refine ⟨hs.output.1, fun hwaited => hs.output.2 hwaited hne, ?_⟩
    exact hs.1.exists_step hfiles hzero hone hfree hcapacity
  · intro run hrun
    exact exists_stop_of_descent (fun _ _ _ hs h => hs.step hzero' hone' hfiles h) run
      (hrun ▸ hstart)

/-- `cat | cat`, where `0` reads, `1` exits and `b + 2` writes `b`. -/
theorem exec_outputs_cat :
    let next : ℕ → Move ℕ ℕ := fun
      | 0 => .read (· + 2) 1
      | 1 => .exit
      | b + 2 => .write b 0
    let table : Table ℕ := fun fd => if fd < 3 then some (.file fd) else none
    ∀ s, Relation.ReflTransGen (Step [0, 0] next 1) (start table (0, 0) (0, 0) [5, 7]) s →
      s.waited = 2 → s.output = [5, 7] := by
  intro next table s hrun hwaited
  have hfiles : ∀ fd, NoPipeEnd (table fd) := by
    intro fd p
    by_cases hfd : fd < 3 <;> simp [table, hfd]
  have hcat : Produces next 6 0 [5, 7] [5, 7] :=
    .element rfl (.write rfl (.element rfl (.write rfl (.eof rfl (.exit rfl)))))
  have hfree : ∀ fd ≥ 3, table fd = none := fun _ hfd => if_neg (Nat.not_lt.mpr hfd)
  have hall := exec_outputs (List.cons_ne_nil 0 [0]) Nat.one_pos
    (rfl : table 0 = some (.file 0)) (rfl : table 1 = some (.file 1)) hfiles hfree
    (.cons hcat (.cons hcat (.nil _))) (0, 0) (0, 0)
  exact ((hall.1 s hrun).2.1 hwaited).1

end Sysopy.Shell
