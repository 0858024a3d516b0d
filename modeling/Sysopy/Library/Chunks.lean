import Mathlib.Algebra.Order.BigOperators.Group.List
import Mathlib.Tactic

/-!
# Cutting a text into pieces

`cut n` takes pieces of `n` elements from the front of a text, and what is left of it last. The
pieces of a text that is not empty are not empty either.
-/
namespace Sysopy.Chunks

variable {α : Type*} {n : ℕ}

def cut (n : ℕ) (s : List α) : List (List α) :=
  if _h : n = 0 ∨ s.length ≤ n then [s] else s.take n :: cut n (s.drop n)
termination_by s.length
decreasing_by
  rw [List.length_drop]
  omega

theorem cut_of_le {s : List α} (h : s.length ≤ n) : cut n s = [s] := by
  rw [cut, dif_pos (.inr h)]

@[elab_as_elim]
theorem cut_induction {motive : List α → Prop} (hn : 0 < n)
    (short : ∀ s, s.length ≤ n → motive s)
    (long : ∀ s t, s.length = n → t ≠ [] → motive t → motive (s ++ t)) (s : List α) :
    motive s := by
  induction hlength : s.length using Nat.strong_induction_on generalizing s with
  | h m ih =>
    subst hlength
    rcases Nat.lt_or_ge n s.length with hlt | hle
    · have hrest := ih (s.drop n).length (by rw [List.length_drop]; omega) _ rfl
      rw [← List.take_append_drop n s]
      refine long _ _ (List.length_take_of_le hlt.le) ?_ hrest
      rw [Ne, List.drop_eq_nil_iff]
      omega
    · exact short s hle

theorem cut_append (hn : 0 < n) {s t : List α} (hs : s.length = n) (ht : t ≠ []) :
    cut n (s ++ t) = s :: cut n t := by
  have hpos := List.length_pos_iff.mpr ht
  have hlong : ¬ (n = 0 ∨ (s ++ t).length ≤ n) := by
    rw [List.length_append]
    omega
  rw [cut, dif_neg hlong, List.take_left' hs, List.drop_left' hs]

section Cut

variable (hn : 0 < n) (s : List α)

include hn

theorem flatten_cut : (cut n s).flatten = s := by
  induction s using cut_induction hn with
  | short s h => rw [cut_of_le h, List.flatten_singleton]
  | long s t hs ht ih => rw [cut_append hn hs ht, List.flatten_cons, ih]

theorem length_le_of_mem_cut {s piece : List α} (h : piece ∈ cut n s) : piece.length ≤ n := by
  induction s using cut_induction hn with
  | short s hs =>
    rw [cut_of_le hs, List.mem_singleton] at h
    rwa [h]
  | long s t hs ht ih =>
    rw [cut_append hn hs ht, List.mem_cons] at h
    rcases h with rfl | h
    · exact hs.le
    · exact ih h

theorem ne_nil_of_mem_cut {s piece : List α} (hne : s ≠ []) (h : piece ∈ cut n s) :
    piece ≠ [] := by
  induction s using cut_induction hn with
  | short s hs =>
    rw [cut_of_le hs, List.mem_singleton] at h
    rwa [h]
  | long s t hs ht ih =>
    rw [cut_append hn hs ht, List.mem_cons] at h
    rcases h with rfl | h
    · rintro rfl
      exact hn.ne hs
    · exact ih ht h

theorem length_cut : (cut n s).length = (s.length - 1) / n + 1 := by
  induction s using cut_induction hn with
  | short s hs =>
    rw [cut_of_le hs, List.length_singleton, Nat.div_eq_of_lt (by omega)]
  | long s t hs ht ih =>
    have hpos := List.length_pos_iff.mpr ht
    have hlength : (s ++ t).length - 1 = t.length - 1 + n := by
      rw [List.length_append]
      omega
    rw [cut_append hn hs ht, List.length_cons, ih, hlength, Nat.add_div_right _ hn]

end Cut

/-! ## Sums over the parts of a text -/

theorem eq_of_sum_eq {β : Type*} {l : List β} {f g : β → ℕ} (hle : ∀ x ∈ l, f x ≤ g x)
    (hsum : (l.map f).sum = (l.map g).sum) : ∀ x ∈ l, f x = g x := by
  intro x hx
  by_contra hne
  have hlt := List.sum_lt_sum f g hle ⟨x, hx, lt_of_le_of_ne (hle x hx) hne⟩
  exact hlt.ne hsum

/-- Texts of the same parts, where no part of one is longer than that of the other. -/
theorem eq_of_flatMap_eq {β : Type*} {l : List β} {f g : β → List α}
    (hle : ∀ x ∈ l, (f x).length ≤ (g x).length) (h : l.flatMap f = l.flatMap g) :
    ∀ x ∈ l, f x = g x := by
  have hlength := congrArg List.length h
  rw [List.length_flatMap, List.length_flatMap] at hlength
  have heq := eq_of_sum_eq hle hlength
  clear hle hlength
  induction l with
  | nil => simp
  | cons x l ih =>
    rw [List.forall_mem_cons] at heq ⊢
    rw [List.flatMap_cons, List.flatMap_cons] at h
    obtain ⟨hx, hl⟩ := List.append_inj h heq.1
    exact ⟨hx, ih hl heq.2⟩

end Sysopy.Chunks
