import Mathlib.Data.Set.Basic
import Mathlib.Tactic

/-!
# Threads and one mutex

The places of a thread's program at which it has the mutex give a set of threads. If every move
takes the mutex where it is free, gives it back, or does neither, then the set has no thread but
the owner.
-/
namespace Sysopy.Mutex

variable {τ : Type*} {t : τ} {m m' : Option τ}

/-- One move of a thread: the owner before and after it, and whether the thread is at a place
that needs the mutex. -/
inductive Uses (t : τ) : Option τ → Option τ → Prop → Prop → Prop
  | keep {m : Option τ} {h h' : Prop} : (h' ↔ h) → Uses t m m h h'
  | lock {h h' : Prop} : h' → Uses t none (some t) h h'
  | unlock {m : Option τ} {h h' : Prop} : h → ¬ h' → Uses t m none h h'

/-- A thread at a place that needs the mutex is its owner. -/
def Exclusive (m : Option τ) (holds : τ → Prop) : Prop := ∀ t, holds t → m = some t

/-- And the owner is at such a place. -/
def Owned (m : Option τ) (holds : τ → Prop) : Prop := ∀ t, m = some t ↔ holds t

section Step

variable {holds holds' : τ → Prop} (hother : ∀ u, u ≠ t → (holds' u ↔ holds u))

theorem Owned.exclusive (h : Owned m holds) : Exclusive m holds := fun u => (h u).mpr

include hother

theorem Exclusive.step (h : Exclusive m holds) (ht : Uses t m m' (holds t) (holds' t)) :
    Exclusive m' holds' := by
  generalize hb : holds t = before at ht
  generalize ha : holds' t = after at ht
  intro u hu
  by_cases heq : u = t
  · subst heq
    rw [ha] at hu
    cases ht with
    | keep hiff => exact h u (hb ▸ hiff.mp hu)
    | lock _ => rfl
    | unlock _ hnot => exact absurd hu hnot
  · have howner := h u ((hother u heq).mp hu)
    cases ht with
    | keep _ => exact howner
    | lock _ => cases howner
    | unlock hold _ =>
      rw [h t (hb ▸ hold)] at howner
      exact absurd (Option.some.inj howner).symm heq

/-- Also a thread that goes on without the mutex it owns leaves no other one behind with it. -/
theorem Exclusive.leave (h : Exclusive m holds) (ht : ¬ holds' t) : Exclusive m holds' := by
  intro u hu
  by_cases heq : u = t
  · exact absurd (heq ▸ hu) ht
  · exact h u ((hother u heq).mp hu)

theorem Owned.step (h : Owned m holds) (ht : Uses t m m' (holds t) (holds' t)) :
    Owned m' holds' := by
  refine fun u => ⟨fun howner => ?_, h.exclusive.step hother ht u⟩
  generalize hb : holds t = before at ht
  generalize ha : holds' t = after at ht
  by_cases heq : u = t
  · subst heq
    rw [ha]
    cases ht with
    | keep hiff => exact hiff.mpr (hb ▸ (h u).mp howner)
    | lock hold => exact hold
    | unlock _ _ => cases howner
  · rw [hother u heq]
    cases ht with
    | keep _ => exact (h u).mp howner
    | lock _ => exact absurd (Option.some.inj howner).symm heq
    | unlock _ _ => cases howner

end Step

end Sysopy.Mutex
