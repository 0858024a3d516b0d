import Mathlib.Algebra.BigOperators.Group.List.Basic
import Mathlib.Logic.Function.Basic
import Mathlib.Tactic

/-!
# Signals and handlers

A process is in its main function and in the handlers that interrupted it, innermost first;
only the innermost goes on. `pending` counts the instances of a signal that wait for delivery:
a standard signal that is pending already is not counted again, while real-time signals queue.
A delivery that finds the process in `sigsuspend` lets that call return after the handler, so
the interrupted place is replaced by the one behind the call.
-/
namespace Sysopy.Signals

/-- The places `μ` of the main function, `κ` of the handlers, and the signals `σ`. -/
structure Process (μ κ σ : Type*) where
  main : μ
  handlers : List κ
  pending : σ → ℕ

/-- Where a process goes on behind a call of `sigsuspend`; other places are kept. -/
structure Wake (μ κ : Type*) where
  main : μ → μ
  handler : κ → κ

namespace Process

variable {μ κ σ : Type*}

/-- The handlers that the process is in, each counted with its weight. -/
def inside (p : Process μ κ σ) (weight : κ → ℕ) : ℕ := (p.handlers.map weight).sum

section Inside

variable {p : Process μ κ σ} {weight : κ → ℕ} {k : κ} {ks : List κ}

theorem inside_of_handlers (h : p.handlers = []) : p.inside weight = 0 := by
  simp [inside, h]

theorem inside_cons (h : p.handlers = k :: ks) :
    p.inside weight = weight k + (ks.map weight).sum := by
  simp [inside, h]

theorem le_inside (hk : k ∈ p.handlers) : weight k ≤ p.inside weight :=
  List.single_le_sum (fun _ _ => Nat.zero_le _) _ (List.mem_map_of_mem hk)

end Inside

variable [DecidableEq σ]

/-- `kill` with a standard signal. -/
def raise (p : Process μ κ σ) (s : σ) : Process μ κ σ :=
  { p with pending := Function.update p.pending s 1 }

/-- `kill` with a real-time signal. -/
def queue (p : Process μ κ σ) (s : σ) : Process μ κ σ :=
  { p with pending := Function.update p.pending s (p.pending s + 1) }

/-- A handler interrupts the process at the place where it is. -/
def interrupt (wake : Wake μ κ) (p : Process μ κ σ) (s : σ) (entry : κ) : Process μ κ σ where
  main := if p.handlers = [] then wake.main p.main else p.main
  handlers := entry :: p.handlers.modifyHead wake.handler
  pending := Function.update p.pending s (p.pending s - 1)

variable {p : Process μ κ σ} {wake : Wake μ κ} {s : σ}

@[simp] theorem main_raise : (p.raise s).main = p.main := rfl

@[simp] theorem handlers_raise : (p.raise s).handlers = p.handlers := rfl

@[simp] theorem inside_raise (weight : κ → ℕ) : (p.raise s).inside weight = p.inside weight := rfl

@[simp] theorem pending_raise_self : (p.raise s).pending s = 1 := Function.update_self ..

theorem pending_raise_of_ne {t : σ} (ht : t ≠ s) : (p.raise s).pending t = p.pending t :=
  Function.update_of_ne ht ..

@[simp] theorem main_queue : (p.queue s).main = p.main := rfl

@[simp] theorem inside_queue (weight : κ → ℕ) : (p.queue s).inside weight = p.inside weight := rfl

@[simp] theorem pending_queue_self : (p.queue s).pending s = p.pending s + 1 :=
  Function.update_self ..

theorem pending_queue_of_ne {t : σ} (ht : t ≠ s) : (p.queue s).pending t = p.pending t :=
  Function.update_of_ne ht ..

@[simp] theorem pending_interrupt_self (entry : κ) :
    (p.interrupt wake s entry).pending s = p.pending s - 1 :=
  Function.update_self ..

theorem pending_interrupt_of_ne {t : σ} (ht : t ≠ s) (entry : κ) :
    (p.interrupt wake s entry).pending t = p.pending t :=
  Function.update_of_ne ht ..

/-- A handler that is entered adds its weight, where `sigsuspend` keeps weights. -/
theorem inside_interrupt {weight : κ → ℕ} (hwake : ∀ k, weight (wake.handler k) = weight k)
    (entry : κ) : (p.interrupt wake s entry).inside weight = weight entry + p.inside weight := by
  rcases hp : p.handlers with _ | ⟨k, ks⟩
  · simp [inside, interrupt, hp]
  · simp [inside, interrupt, hp, hwake]

/-- Where a handler counts for the signal `t` alone, a delivery moves the signal from the pending
ones into the handlers. -/
theorem pending_add_inside_interrupt {weight : κ → ℕ}
    (hwake : ∀ k, weight (wake.handler k) = weight k) {t : σ} {entry : κ}
    (hentry : weight entry = if t = s then 1 else 0) (hpending : p.pending s ≠ 0) :
    (p.interrupt wake s entry).pending t + (p.interrupt wake s entry).inside weight =
      p.pending t + p.inside weight := by
  rw [inside_interrupt hwake, hentry]
  by_cases ht : t = s
  · subst ht
    rw [pending_interrupt_self, if_pos rfl]
    omega
  · rw [pending_interrupt_of_ne ht, if_neg ht, Nat.zero_add]

theorem mem_tail_interrupt {entry k : κ} (hk : k ∈ (p.interrupt wake s entry).handlers.tail) :
    ∃ k' ∈ p.handlers, k = k' ∨ k = wake.handler k' := by
  rcases hp : p.handlers with _ | ⟨h, hs⟩
  · simp [interrupt, hp] at hk
  · simp only [interrupt, hp, List.modifyHead_cons, List.tail_cons, List.mem_cons] at hk
    rcases hk with rfl | hk
    · exact ⟨h, List.mem_cons_self, .inr rfl⟩
    · exact ⟨k, List.mem_cons_of_mem h hk, .inl rfl⟩

end Process

end Sysopy.Signals
