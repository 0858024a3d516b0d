import Mathlib.Logic.Function.Basic
import Mathlib.Tactic

/-!
# Descriptor tables

A process has a table from descriptors to open file descriptions. `fork` copies the table,
`pipe` enters the two ends of a new pipe under unused descriptors, `dup2` copies an entry
and `close` removes one.
-/
namespace Sysopy.Descriptors

/-- What a descriptor refers to; pipes are numbered. -/
inductive Description (α : Type*) where
  | file (a : α)
  | readEnd (pipe : ℕ)
  | writeEnd (pipe : ℕ)
deriving DecidableEq, Repr

abbrev Table (α : Type*) := ℕ → Option (Description α)

variable {α : Type*} {table table' table'' : Table α} {fd : ℕ} {p q : ℕ} {fds fds' : ℕ × ℕ}

def close (table : Table α) (fd : ℕ) : Table α := Function.update table fd none

def dup2 (table : Table α) (oldfd newfd : ℕ) : Table α :=
  if (table oldfd).isSome then Function.update table newfd (table oldfd) else table

/-- `pipe` that returns `fds`; `none` when it cannot. -/
def pipe (table : Table α) (p : ℕ) (fds : ℕ × ℕ) : Option (Table α) :=
  if table fds.1 = none ∧ table fds.2 = none ∧ fds.1 ≠ fds.2 then
    some (Function.update (Function.update table fds.1 (some (.readEnd p))) fds.2
      (some (.writeEnd p)))
  else none

/-- The process has the description open. -/
def Holds (table : Table α) (e : Description α) : Prop := ∃ fd, table fd = some e

def NoPipeEnd (entry : Option (Description α)) : Prop :=
  ∀ p, entry ≠ some (.readEnd p) ∧ entry ≠ some (.writeEnd p)

theorem pipe_eq_some : pipe table p fds = some table' ↔
    (table fds.1 = none ∧ table fds.2 = none ∧ fds.1 ≠ fds.2) ∧
    Function.update (Function.update table fds.1 (some (.readEnd p))) fds.2
      (some (.writeEnd p)) = table' := by
  simp [pipe]

theorem ne_of_pipe (h : pipe table p fds = some table') (hfd : table fd ≠ none) :
    fds.1 ≠ fd ∧ fds.2 ≠ fd := by
  obtain ⟨⟨hread, hwrite, _⟩, _⟩ := pipe_eq_some.mp h
  constructor
  · rintro rfl
    exact hfd hread
  · rintro rfl
    exact hfd hwrite

theorem pipe_apply (h : pipe table p fds = some table') (fd : ℕ) : table' fd =
    if fd = fds.2 then some (.writeEnd p) else if fd = fds.1 then some (.readEnd p)
    else table fd := by
  obtain ⟨_, rfl⟩ := pipe_eq_some.mp h
  simp only [Function.update_apply]

theorem holds_pipe (h : pipe table p fds = some table') {e : Description α} :
    Holds table' e ↔ Holds table e ∨ e = .readEnd p ∨ e = .writeEnd p := by
  obtain ⟨⟨hread, hwrite, hne⟩, _⟩ := pipe_eq_some.mp h
  constructor
  · rintro ⟨fd, hfd⟩
    rw [pipe_apply h] at hfd
    split_ifs at hfd
    · exact .inr (.inr (Option.some.inj hfd).symm)
    · exact .inr (.inl (Option.some.inj hfd).symm)
    · exact .inl ⟨fd, hfd⟩
  · rintro (⟨fd, hfd⟩ | rfl | rfl)
    · obtain ⟨hread', hwrite'⟩ := ne_of_pipe h (hfd ▸ Option.some_ne_none e)
      exact ⟨fd, by rw [pipe_apply h, if_neg hwrite'.symm, if_neg hread'.symm, hfd]⟩
    · exact ⟨fds.1, by rw [pipe_apply h, if_neg hne, if_pos rfl]⟩
    · exact ⟨fds.2, by rw [pipe_apply h, if_pos rfl]⟩

theorem close_pipe (h : pipe table p fds = some table') :
    close (close table' fds.1) fds.2 = table := by
  obtain ⟨hread, hwrite, _⟩ := (pipe_eq_some.mp h).1
  funext fd
  simp only [close, Function.update_apply, pipe_apply h]
  split_ifs with h₂ h₁
  · rw [h₂, hwrite]
  · rw [h₁, hread]
  · rfl

theorem pipe_comm (h : pipe table p fds = some table') (h' : pipe table' q fds' = some table'') :
    ∃ between, pipe table q fds' = some between ∧ pipe between p fds = some table'' := by
  obtain ⟨hunused, _⟩ := pipe_eq_some.mp h
  obtain ⟨⟨hread', hwrite', hne'⟩, _⟩ := pipe_eq_some.mp h'
  rw [pipe_apply h] at hread' hwrite'
  split_ifs at hread' with hread₂ hread₁
  split_ifs at hwrite' with hwrite₂ hwrite₁
  refine ⟨_, pipe_eq_some.mpr ⟨⟨hread', hwrite', hne'⟩, rfl⟩, pipe_eq_some.mpr ⟨?_, ?_⟩⟩
  · simp only [Function.update_apply]
    rw [if_neg (Ne.symm hwrite₁), if_neg (Ne.symm hread₁), if_neg (Ne.symm hwrite₂),
      if_neg (Ne.symm hread₂)]
    exact hunused
  · funext fd
    rw [pipe_apply h', pipe_apply h]
    simp only [Function.update_apply]
    grind

theorem pipe_update (h : pipe table p fds = some table') (hfd : table fd ≠ none)
    (entry : Option (Description α)) :
    pipe (Function.update table fd entry) p fds = some (Function.update table' fd entry) := by
  obtain ⟨hread, hwrite⟩ := ne_of_pipe h hfd
  obtain ⟨hunused, rfl⟩ := pipe_eq_some.mp h
  rw [pipe_eq_some, Function.update_of_ne hread, Function.update_of_ne hwrite]
  refine ⟨hunused, ?_⟩
  rw [Function.update_comm hread.symm, Function.update_comm hwrite.symm]

/-- A process that puts one end of a pipe in the place of `fd` and closes both. -/
theorem close_dup2_pipe (h : pipe table p fds = some table') (hfd : table fd ≠ none) :
    close (close (dup2 table' fds.1 fd) fds.1) fds.2 =
      Function.update table fd (some (.readEnd p)) ∧
    close (close (dup2 table' fds.2 fd) fds.1) fds.2 =
      Function.update table fd (some (.writeEnd p)) := by
  have hne := (pipe_eq_some.mp h).1.2.2
  have hread : table' fds.1 = some (.readEnd p) := by simp [pipe_apply h, hne]
  have hwrite : table' fds.2 = some (.writeEnd p) := by simp [pipe_apply h]
  constructor
  · rw [dup2, hread, Option.isSome_some, if_pos rfl]
    exact close_pipe (pipe_update h hfd _)
  · rw [dup2, hwrite, Option.isSome_some, if_pos rfl]
    exact close_pipe (pipe_update h hfd _)

end Sysopy.Descriptors
