import Sysopy.Library.Descriptors
import Sysopy.Library.Transition

/-!
# The pipeline of `exec`

The loop of `exec` opens a pipe, forks and closes the pipe before. A child is a copy of the
shell that puts its two neighbouring pipes in the place of its input and output. Between two
iterations the shell holds no pipe but the one that the next child reads.
-/
namespace Sysopy.Shell

open Descriptors Transition

variable {α : Type*}

/-- The loop of `exec`: its locals, the descriptors of the shell, and those of the children
at `execvp`. -/
structure Exec (α : Type*) where
  i : ℕ
  old_fd : ℕ × ℕ
  new_fd : ℕ × ℕ
  table : Table α
  children : List (Table α)

namespace Exec

/-- The arrays are not initialised. -/
def start (table : Table α) (old_fd new_fd : ℕ × ℕ) : Exec α := ⟨0, old_fd, new_fd, table, []⟩

/-- `if (i < command_size - 1) pipe(new_fd);`, where the pipe gets the number `i`. -/
def openPipe (command_size : ℕ) (s : Exec α) (fds : ℕ × ℕ) : Option (Exec α) :=
  if s.i < command_size - 1 then
    (pipe s.table s.i fds).map fun table => { s with table := table, new_fd := fds }
  else some s

/-- What the child does to its descriptors before `execvp`. -/
def child (command_size : ℕ) (s : Exec α) : Table α :=
  let table :=
    if s.i > 0 then close (close (dup2 s.table s.old_fd.1 0) s.old_fd.1) s.old_fd.2
    else s.table
  if s.i < command_size - 1 then close (close (dup2 table s.new_fd.2 1) s.new_fd.1) s.new_fd.2
  else table

/-- The branch of the parent, and `i++`. -/
def parent (command_size : ℕ) (s : Exec α) : Exec α :=
  { s with
    i := s.i + 1
    table := if s.i > 0 then close (close s.table s.old_fd.1) s.old_fd.2 else s.table
    old_fd := if s.i < command_size - 1 then s.new_fd else s.old_fd }

/-- `fork`: the child starts with the table of the shell. -/
def fork (command_size : ℕ) (s : Exec α) : Exec α :=
  parent command_size { s with children := s.children ++ [child command_size s] }

/-- One iteration, in which `pipe` returns `fds`. -/
def iteration (command_size : ℕ) (s : Exec α) (fds : ℕ × ℕ) : Option (Exec α) :=
  if s.i < command_size then (openPipe command_size s fds).map (fork command_size) else none

/-! ## The tables -/

/-- The descriptors of child `i`, when the shell started with `table`. -/
def childTable (command_size : ℕ) (table : Table α) (i : ℕ) : Table α :=
  let table := if i > 0 then Function.update table 0 (some (.readEnd (i - 1))) else table
  if i < command_size - 1 then Function.update table 1 (some (.writeEnd i)) else table

/-- Between two iterations the shell holds the pipe that the next child reads. -/
structure Inv (command_size : ℕ) (table : Table α) (s : Exec α) : Prop where
  first : s.i = 0 → s.table = table
  between : 0 < s.i → s.i < command_size → pipe table (s.i - 1) s.old_fd = some s.table
  last : s.i = command_size → s.table = table
  le : s.i ≤ command_size
  children : s.children = (List.range s.i).map (childTable command_size table)

variable {command_size : ℕ} {table : Table α} {s s' : Exec α} {fds : ℕ × ℕ}

theorem inv_start (command_size : ℕ) (table : Table α) (old_fd new_fd : ℕ × ℕ) :
    Inv command_size table (start table old_fd new_fd) where
  first _ := rfl
  between h := absurd h (Nat.lt_irrefl 0)
  last _ := rfl
  le := Nat.zero_le command_size
  children := rfl

/-- The pipe `i` is opened, unless the command is the last one. -/
def Opened (command_size i : ℕ) (table : Table α) (fds : ℕ × ℕ) (table' : Table α) : Prop :=
  if i < command_size - 1 then pipe table i fds = some table' else table' = table

section Opened

variable {i p : ℕ} {table' between : Table α} {old : ℕ × ℕ}

theorem Opened.comm (hold : pipe table p old = some between)
    (hnew : Opened command_size i between fds table') :
    ∃ next, Opened command_size i table fds next ∧ pipe next p old = some table' := by
  unfold Opened at hnew ⊢
  split_ifs at hnew ⊢
  · exact pipe_comm hold hnew
  · exact ⟨table, rfl, hnew ▸ hold⟩

theorem Opened.update (h : Opened command_size i table fds table') {fd : ℕ}
    (hfd : table fd ≠ none) (entry : Option (Description α)) :
    Opened command_size i (Function.update table fd entry) fds
      (Function.update table' fd entry) := by
  unfold Opened at h ⊢
  split_ifs at h ⊢
  · exact pipe_update h hfd entry
  · rw [h]

theorem Opened.output (h : Opened command_size i table fds table') (hfd : table 1 ≠ none) :
    (if i < command_size - 1 then close (close (dup2 table' fds.2 1) fds.1) fds.2 else table') =
      if i < command_size - 1 then Function.update table 1 (some (.writeEnd i)) else table := by
  unfold Opened at h
  split_ifs at h ⊢
  · exact (close_dup2_pipe h hfd).2
  · exact h

theorem Opened.ne_none (h : Opened command_size i table fds table') {fd : ℕ}
    (hfd : table fd ≠ none) : table' fd ≠ none := by
  unfold Opened at h
  split_ifs at h
  · obtain ⟨hread, hwrite⟩ := ne_of_pipe h hfd
    rw [pipe_apply h, if_neg (Ne.symm hwrite), if_neg (Ne.symm hread)]
    exact hfd
  · rw [h]
    exact hfd

end Opened

theorem openPipe_eq_some (h : openPipe command_size s fds = some s') :
    s' = { s with new_fd := s'.new_fd, table := s'.table } ∧
    Opened command_size s.i s.table s'.new_fd s'.table := by
  unfold openPipe at h
  unfold Opened
  split_ifs at h ⊢ with hlt
  · obtain ⟨table, hpipe, rfl⟩ := Option.map_eq_some_iff.mp h
    exact ⟨rfl, hpipe⟩
  · rw [Option.some.injEq] at h
    subst h
    exact ⟨rfl, rfl⟩

theorem fork_first (hfirst : s.i = 0) (hone : table 1 ≠ none)
    (h : Opened command_size s.i table s.new_fd s.table) :
    child command_size s = childTable command_size table s.i ∧
    Opened command_size s.i table s.new_fd (parent command_size s).table := by
  have hnot : ¬ s.i > 0 := by omega
  unfold child childTable parent
  simp only [if_neg hnot]
  exact ⟨h.output hone, h⟩

theorem fork_later (hlater : s.i > 0) (hzero : table 0 ≠ none) (hone : table 1 ≠ none)
    {next : Table α} (hnext : Opened command_size s.i table s.new_fd next)
    (hold : pipe next (s.i - 1) s.old_fd = some s.table) (hzero' : next 0 ≠ none) :
    child command_size s = childTable command_size table s.i ∧
    Opened command_size s.i table s.new_fd (parent command_size s).table := by
  unfold child childTable parent
  simp only [if_pos hlater]
  rw [(close_dup2_pipe hold hzero').1, close_pipe hold]
  refine ⟨(hnext.update hzero _).output ?_, hnext⟩
  rwa [Function.update_of_ne (by decide)]

/-- Whatever the shell holds when it forks, the child gets its table and the shell keeps the
new pipe. -/
theorem Inv.fork (hzero : table 0 ≠ none) (hone : table 1 ≠ none) (hs : Inv command_size table s)
    (hlt : s.i < command_size) (hopen : openPipe command_size s fds = some s') :
    child command_size s' = childTable command_size table s.i ∧
    Opened command_size s.i table s'.new_fd (parent command_size s').table := by
  obtain ⟨hs', hopened⟩ := openPipe_eq_some hopen
  have hi : s'.i = s.i := by rw [hs']
  have hold_fd : s'.old_fd = s.old_fd := by rw [hs']
  rw [← hi] at hopened ⊢
  by_cases hfirst : s.i = 0
  · rw [hs.first hfirst] at hopened
    exact fork_first (hi.trans hfirst) hone hopened
  · have hlater : s'.i > 0 := by omega
    have hbetween := hs.between (by omega) hlt
    rw [← hi, ← hold_fd] at hbetween
    obtain ⟨next, hnext, hold⟩ := Opened.comm hbetween hopened
    exact fork_later hlater hzero hone hnext hold (hnext.ne_none hzero)

theorem Inv.iteration (hzero : table 0 ≠ none) (hone : table 1 ≠ none)
    (hs : Inv command_size table s) (h : iteration command_size s fds = some s') :
    Inv command_size table s' := by
  unfold Exec.iteration at h
  split_ifs at h with hlt
  obtain ⟨opened, hopen, rfl⟩ := Option.map_eq_some_iff.mp h
  obtain ⟨hchild, hparent⟩ := hs.fork hzero hone hlt hopen
  obtain ⟨hopened, -⟩ := openPipe_eq_some hopen
  have hi : opened.i = s.i := by rw [hopened]
  have hchildren : opened.children = s.children := by rw [hopened]
  have hnext : (Exec.fork command_size opened).i = s.i + 1 := by rw [← hi]; rfl
  change Opened command_size s.i table opened.new_fd (Exec.fork command_size opened).table at hparent
  unfold Opened at hparent
  constructor
  · intro hzero
    omega
  · intro hpos hbetween
    have hagain : s.i < command_size - 1 := by omega
    have hfd : (Exec.fork command_size opened).old_fd = opened.new_fd :=
      if_pos (by rw [hi]; exact hagain)
    rw [if_pos hagain] at hparent
    rw [hnext, hfd]
    exact hparent
  · intro hlast
    rw [if_neg (by omega)] at hparent
    exact hparent
  · omega
  · rw [hnext, List.range_succ, List.map_append, ← hs.children, ← hchildren, List.map_singleton,
      ← hchild]
    rfl

end Exec

open Exec

section Wiring

variable {table : Table α} {command_size i p : ℕ}

/-- What a child has besides its two neighbouring pipes, it has from the shell. -/
theorem childTable_eq (fd : ℕ) : childTable command_size table i fd =
    if fd = 1 ∧ i + 1 < command_size then some (.writeEnd i)
    else if fd = 0 ∧ 0 < i then some (.readEnd (i - 1)) else table fd := by
  unfold childTable
  by_cases hfirst : i > 0 <;> by_cases hlast : i < command_size - 1 <;>
    simp [hfirst, hlast, Function.update_apply, show i + 1 < command_size ↔ i < command_size - 1 by omega]

theorem noPipeEnd_childTable (hfiles : ∀ fd, NoPipeEnd (table fd)) {fd : ℕ} (hzero : fd ≠ 0)
    (hone : fd ≠ 1) : NoPipeEnd (childTable command_size table i fd) := by
  rw [childTable_eq, if_neg fun h => hone h.1, if_neg fun h => hzero h.1]
  exact hfiles fd

theorem holds_writeEnd (hfiles : ∀ fd, NoPipeEnd (table fd)) :
    Holds (childTable command_size table i) (.writeEnd p) ↔ i = p ∧ i + 1 < command_size := by
  constructor
  · rintro ⟨fd, hfd⟩
    rw [childTable_eq] at hfd
    split_ifs at hfd with hwrite
    · cases hfd
      exact ⟨rfl, hwrite.2⟩
    · cases hfd
    · exact absurd hfd ((hfiles fd p).2)
  · rintro ⟨rfl, hlt⟩
    exact ⟨1, by rw [childTable_eq, if_pos ⟨rfl, hlt⟩]⟩

theorem holds_readEnd (hfiles : ∀ fd, NoPipeEnd (table fd)) :
    Holds (childTable command_size table i) (.readEnd p) ↔ i = p + 1 := by
  constructor
  · rintro ⟨fd, hfd⟩
    rw [childTable_eq] at hfd
    split_ifs at hfd with hwrite hread
    · cases hfd
    · cases hfd
      omega
    · exact absurd hfd ((hfiles fd p).1)
  · rintro rfl
    refine ⟨0, ?_⟩
    rw [childTable_eq, if_neg (by omega), if_pos (by omega)]
    rfl

theorem exists_iteration {s : Exec α} {bound : ℕ} (hfree : ∀ fd ≥ bound, table fd = none)
    (hs : Inv command_size table s) (hlt : s.i < command_size) :
    ∃ fds s', iteration command_size s fds = some s' := by
  have hunused : ∀ fd, bound ≤ fd → s.old_fd.1 < fd → s.old_fd.2 < fd → s.table fd = none := by
    intro fd hbound hread hwrite
    by_cases hfirst : s.i = 0
    · rw [hs.first hfirst]
      exact hfree fd hbound
    · rw [pipe_apply (hs.between (by omega) hlt), if_neg hwrite.ne', if_neg hread.ne']
      exact hfree fd hbound
  let fd := bound + s.old_fd.1 + s.old_fd.2 + 1
  have hpipe : pipe s.table s.i (fd, fd + 1) = some _ := pipe_eq_some.mpr
    ⟨⟨hunused fd (by omega) (by omega) (by omega),
      hunused (fd + 1) (by omega) (by omega) (by omega), by simp⟩, rfl⟩
  have hopen : ∃ s', openPipe command_size s (fd, fd + 1) = some s' := by
    unfold openPipe
    split_ifs
    · exact ⟨_, by rw [hpipe]; rfl⟩
    · exact ⟨s, rfl⟩
  obtain ⟨s', hs'⟩ := hopen
  refine ⟨(fd, fd + 1), fork command_size s', ?_⟩
  rw [iteration, if_pos hlt, hs']
  rfl

theorem iteration_i {s s' : Exec α} {fds : ℕ × ℕ} (h : iteration command_size s fds = some s') :
    s'.i = s.i + 1 := by
  unfold iteration at h
  split_ifs at h
  obtain ⟨opened, hopen, rfl⟩ := Option.map_eq_some_iff.mp h
  have hi : opened.i = s.i := by rw [(openPipe_eq_some hopen).1]
  rw [← hi]
  rfl

theorem exists_exec {bound : ℕ} (hfree : ∀ fd ≥ bound, table fd = none) (hzero : table 0 ≠ none)
    (hone : table 1 ≠ none) (s : Exec α) (hs : Inv command_size table s) :
    ∃ schedule s', exec (iteration command_size) s schedule = some s' ∧ s'.i = command_size := by
  induction hleft : command_size - s.i generalizing s with
  | zero =>
    have hle := hs.le
    exact ⟨[], s, rfl, by omega⟩
  | succ left ih =>
    obtain ⟨fds, next, hnext⟩ := exists_iteration hfree hs (by omega)
    have hi := iteration_i hnext
    obtain ⟨schedule, s', hrun, hdone⟩ := ih next (hs.iteration hzero hone hnext) (by omega)
    exact ⟨fds :: schedule, s', exec_cons_eq_some.mpr ⟨next, hnext, hrun⟩, hdone⟩

end Wiring

/-- After the loop, every child is connected to its neighbours and to no other pipe, and the
shell to none. -/
theorem exec_wires {command_size : ℕ} (hpos : 1 ≤ command_size) {table : Table α}
    (hused : ∀ fd < 3, table fd ≠ none) (hfiles : ∀ fd, NoPipeEnd (table fd))
    (old_fd new_fd : ℕ × ℕ) (schedule : List (ℕ × ℕ)) {s : Exec α}
    (hrun : exec (iteration command_size) (start table old_fd new_fd) schedule = some s)
    (hdone : ¬ s.i < command_size) :
    s.children.length = command_size ∧
    (∀ i child, s.children[i]? = some child →
      child 0 = (if i = 0 then table 0 else some (.readEnd (i - 1))) ∧
      child 1 = (if i = command_size - 1 then table 1 else some (.writeEnd i)) ∧
      (∀ fd, fd ≠ 0 → fd ≠ 1 → NoPipeEnd (child fd)) ∧
      ∀ p, p + 1 < command_size →
        (Holds child (.writeEnd p) ↔ i = p) ∧ (Holds child (.readEnd p) ↔ i = p + 1)) ∧
    ∀ fd, NoPipeEnd (s.table fd) := by
  have hs : Inv command_size table s :=
    exec_invariant' (fun _ _ _ hs h => hs.iteration (hused 0 (by decide)) (hused 1 (by decide)) h)
      (inv_start command_size table old_fd new_fd) hrun
  have hi : s.i = command_size := le_antisymm hs.le (not_lt.mp hdone)
  refine ⟨by rw [hs.children, List.length_map, List.length_range, hi], ?_, ?_⟩
  · intro i child hchild
    rw [hs.children, List.getElem?_map, hi, Option.map_eq_some_iff] at hchild
    obtain ⟨i', hi', rfl⟩ := hchild
    obtain ⟨hlt, hi'⟩ := List.getElem?_eq_some_iff.mp hi'
    rw [List.getElem_range] at hi'
    rw [List.length_range] at hlt
    subst hi'
    refine ⟨?_, ?_, fun fd hfd hfd' => noPipeEnd_childTable hfiles hfd hfd', fun p hp => ⟨?_, ?_⟩⟩
    · rw [childTable_eq, if_neg (by omega)]
      by_cases hfirst : i = 0
      · simp [hfirst]
      · rw [if_pos ⟨rfl, by omega⟩, if_neg hfirst]
    · rw [childTable_eq]
      by_cases hlast : i = command_size - 1
      · rw [if_neg (by omega), if_neg (by omega), if_pos hlast]
      · rw [if_pos ⟨rfl, by omega⟩, if_neg hlast]
    · rw [holds_writeEnd hfiles]
      omega
    · exact holds_readEnd hfiles
  · rw [hs.last hi]
    exact hfiles

/-- A pipeline of four commands; `pipe` uses the descriptors again that the shell has
closed. -/
theorem exec_wires_four :
    let table : Table ℕ := fun fd => if fd < 3 then some (.file fd) else none
    let schedule := [(3, 4), (5, 6), (3, 4), (0, 0)]
    ∃ s, exec (iteration 4) (start table (0, 0) (0, 0)) schedule = some s ∧
      s.children.length = 4 := by
  intro table schedule
  have hfiles : ∀ fd, NoPipeEnd (table fd) := by
    intro fd p
    by_cases hfd : fd < 3 <;> simp [table, hfd]
  refine ⟨_, rfl, ?_⟩
  exact (exec_wires (by decide) (by decide) hfiles _ _ schedule rfl (by decide)).1

end Sysopy.Shell
