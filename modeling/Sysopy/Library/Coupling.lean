import Mathlib.Logic.Basic
import Mathlib.Tactic.Common

/-!
# Parties that are coupled in pairs

Two parties of a conversation hold on to each other by local states only: `R c p`
says that `c` takes `p` for its partner. A party that leaves first tells its
partner, so `D c` says that a notice waits for `c`. In between only one of the
two holds on, and it is the one with the notice.
-/
namespace Sysopy.Coupling

variable {ι : Type*} {R R' : ι → ι → Prop} {D D' : ι → Prop}

structure Coupled (R : ι → ι → Prop) (D : ι → Prop) : Prop where
  symm : ∀ c p, R c p → R p c ∨ D c
  left : ∀ c p, R c p → D c → ¬ R p c
  partner : ∀ c p q, R p q → R c p → c = q

theorem Coupled.congr (h : Coupled R D) (hR : ∀ c p, R' c p ↔ R c p)
    (hD : ∀ c p, R c p → (D' c ↔ D c)) : Coupled R' D' where
  symm c p hc := by
    rw [hR] at hc ⊢
    rw [hD c p hc]
    exact h.symm c p hc
  left c p hc hnotice := by
    rw [hR] at hc ⊢
    exact h.left c p hc ((hD c p hc).mp hnotice)
  partner c p q hp hc := h.partner c p q ((hR p q).mp hp) ((hR c p).mp hc)

/-- Two parties that nobody holds on to, and that hold on to nobody, are coupled. -/
theorem Coupled.couple (h : Coupled R D) {a b : ι} (hR : ∀ c p, R' c p ↔
      R c p ∨ c = a ∧ p = b ∨ c = b ∧ p = a)
    (hD : ∀ c, D' c ↔ D c) (hfree : ∀ x, x = a ∨ x = b → ¬ D x ∧ ∀ y, ¬ R x y ∧ ¬ R y x) :
    Coupled R' D' where
  symm c p hc := by
    rw [hR] at hc ⊢
    rw [hD]
    rcases hc with hc | ⟨rfl, rfl⟩ | ⟨rfl, rfl⟩
    · exact (h.symm c p hc).imp_left .inl
    · exact .inl (.inr (.inr ⟨rfl, rfl⟩))
    · exact .inl (.inr (.inl ⟨rfl, rfl⟩))
  left c p hc hnotice := by
    rw [hR] at hc ⊢
    rw [hD] at hnotice
    rcases hc with hc | ⟨rfl, rfl⟩ | ⟨rfl, rfl⟩
    · rintro (hp | ⟨rfl, rfl⟩ | ⟨rfl, rfl⟩)
      · exact h.left c p hc hnotice hp
      · exact ((hfree p (.inl rfl)).2 c).2 hc
      · exact ((hfree p (.inr rfl)).2 c).2 hc
    · exact absurd hnotice (hfree c (.inl rfl)).1
    · exact absurd hnotice (hfree c (.inr rfl)).1
  partner c p q hp hc := by
    rw [hR] at hp hc
    rcases hp with hp | ⟨rfl, rfl⟩ | ⟨rfl, rfl⟩
    · rcases hc with hc | ⟨rfl, rfl⟩ | ⟨rfl, rfl⟩
      · exact h.partner c p q hp hc
      · exact absurd hp ((hfree p (.inr rfl)).2 q).1
      · exact absurd hp ((hfree p (.inl rfl)).2 q).1
    · rcases hc with hc | ⟨rfl, hpq⟩ | ⟨rfl, _⟩
      · exact absurd hc ((hfree p (.inl rfl)).2 c).2
      · exact hpq
      · rfl
    · rcases hc with hc | ⟨rfl, _⟩ | ⟨rfl, hpq⟩
      · exact absurd hc ((hfree p (.inr rfl)).2 c).2
      · rfl
      · exact hpq

/-- A party leaves; a partner that still holds on to it gets a notice. -/
theorem Coupled.leave (h : Coupled R D) {c : ι} (hR : ∀ x y, R' x y ↔ R x y ∧ x ≠ c)
    (hD : ∀ x y, R x y → x ≠ c → D x → D' x)
    (hold : ∀ x y, R x y → x ≠ c → ¬ R c x → D' x → D x)
    (hnotice : ∀ p, R c p → R p c → D' p) : Coupled R' D' where
  symm x y hx := by
    obtain ⟨hx, hne⟩ := (hR x y).mp hx
    rcases h.symm x y hx with hy | hnoted
    · by_cases heq : y = c
      · subst heq
        exact .inr (hnotice x hy hx)
      · exact .inl ((hR y x).mpr ⟨hy, heq⟩)
    · exact .inr (hD x y hx hne hnoted)
  left x y hx hnoted hy := by
    obtain ⟨hx, hne⟩ := (hR x y).mp hx
    obtain ⟨hy, hne'⟩ := (hR y x).mp hy
    by_cases hpartner : R c x
    · exact hne' (h.partner c x y hx hpartner).symm
    · exact h.left x y hx (hold x y hx hne hpartner hnoted) hy
  partner x y z hy hx := h.partner x y z ((hR y z).mp hy).1 ((hR x y).mp hx).1

end Sysopy.Coupling
