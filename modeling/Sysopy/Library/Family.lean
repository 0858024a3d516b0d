import Mathlib.Algebra.BigOperators.Group.Finset.Basic
import Mathlib.Algebra.Order.BigOperators.Group.Finset
import Mathlib.Data.Fintype.BigOperators
import Mathlib.Tactic

/-!
# Totals over a family of processes

The processes of one kind are a family `ι → κ` of local states. A weight gives
what a process contributes in a local state, such as the permits or the items it
holds, and the total over the family changes, when one process moves, exactly by
the change of its own weight. This is what conservation laws for any number of
processes rest on. The weights may lie in any commutative monoid, so a family of
slots has a number of used slots and a multiset of contents in the same way.
-/
namespace Sysopy.Family

variable {ι κ A : Type*} [Fintype ι]

section Monoid

variable [AddCommMonoid A]

def total (w : κ → A) (f : ι → κ) : A := ∑ i, w (f i)

theorem total_update [DecidableEq ι] (w : κ → A) (f : ι → κ) (i : ι) (x : κ) :
    total w (Function.update f i x) + w (f i) = total w f + w x := by
  have hrest : ∑ j ∈ Finset.univ.erase i, w (Function.update f i x j) =
      ∑ j ∈ Finset.univ.erase i, w (f j) := by
    apply Finset.sum_congr rfl
    intro j hj
    rw [Function.update_of_ne (Finset.ne_of_mem_erase hj)]
  unfold total
  rw [← Finset.add_sum_erase _ _ (Finset.mem_univ i),
    ← Finset.add_sum_erase _ (fun j => w (f j)) (Finset.mem_univ i), hrest,
    Function.update_self]
  ac_rfl

theorem total_eq_zero {w : κ → A} {f : ι → κ} (h : ∀ i, w (f i) = 0) : total w f = 0 :=
  Finset.sum_eq_zero fun i _ => h i

end Monoid

section Ordered

variable [AddCommMonoid A] [PartialOrder A] [IsOrderedAddMonoid A]

theorem total_nonneg {w : κ → A} (h0 : ∀ x, 0 ≤ w x) (f : ι → κ) : 0 ≤ total w f :=
  Finset.sum_nonneg fun i _ => h0 (f i)

theorem le_total {w : κ → A} (h0 : ∀ x, 0 ≤ w x) (f : ι → κ) (i : ι) : w (f i) ≤ total w f :=
  Finset.single_le_sum (f := fun j => w (f j)) (fun j _ => h0 (f j)) (Finset.mem_univ i)

/-- Two processes contribute at most the total. -/
theorem add_le_total {w : κ → A} (h0 : ∀ x, 0 ≤ w x) (f : ι → κ) {i j : ι} (h : i ≠ j) :
    w (f i) + w (f j) ≤ total w f := by
  classical
  have hpair := Finset.sum_pair (f := fun k => w (f k)) h
  rw [← hpair]
  exact Finset.sum_le_sum_of_subset_of_nonneg (Finset.subset_univ _) fun k _ _ => h0 (f k)

end Ordered

end Sysopy.Family
