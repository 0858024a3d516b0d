import Mathlib.Data.List.Infix
import Mathlib.Tactic

/-!
# Replacing a pattern in a text

`replaceAll` goes through a text from left to right and replaces the pattern wherever it begins,
skipping what it has matched. `occurrences` counts the places where the pattern begins, whether
they overlap or not.
-/
namespace Sysopy.Replacement

variable {α : Type*} [DecidableEq α]

/-- The leftmost occurrences that do not overlap become `replacement`. -/
def replaceAll (pattern replacement : List α) : List α → List α
  | [] => []
  | c :: s =>
    if _h : pattern ≠ [] ∧ pattern <+: c :: s then
      replacement ++ replaceAll pattern replacement ((c :: s).drop pattern.length)
    else c :: replaceAll pattern replacement s
termination_by s => s.length
decreasing_by
  · have hpos := List.length_pos_iff.mpr _h.1
    simp only [List.length_drop, List.length_cons]
    omega
  · simp

/-- How many occurrences `replaceAll` replaces. -/
def replacedCount (pattern : List α) : List α → ℕ
  | [] => 0
  | c :: s =>
    if _h : pattern ≠ [] ∧ pattern <+: c :: s then
      replacedCount pattern ((c :: s).drop pattern.length) + 1
    else replacedCount pattern s
termination_by s => s.length
decreasing_by
  · have hpos := List.length_pos_iff.mpr _h.1
    simp only [List.length_drop, List.length_cons]
    omega
  · simp

def occurrences (pattern : List α) : List α → ℕ
  | [] => 0
  | c :: s => (if pattern <+: c :: s then 1 else 0) + occurrences pattern s

variable {pattern replacement : List α}

@[simp] theorem replaceAll_nil : replaceAll pattern replacement [] = [] := by
  rw [replaceAll]

@[simp] theorem replacedCount_nil : replacedCount pattern [] = 0 := by
  rw [replacedCount]

@[elab_as_elim]
theorem pattern_induction {motive : List α → Prop} (hne : pattern ≠ []) (nil : motive [])
    (found : ∀ s, motive s → motive (pattern ++ s))
    (cons : ∀ c s, ¬ pattern <+: c :: s → motive s → motive (c :: s)) (s : List α) : motive s := by
  induction hlength : s.length using Nat.strong_induction_on generalizing s with
  | h n ih =>
    subst hlength
    by_cases hfound : pattern <+: s
    · obtain ⟨after, rfl⟩ := hfound
      have hpos := List.length_pos_iff.mpr hne
      exact found after (ih after.length (by rw [List.length_append]; omega) after rfl)
    · cases s with
      | nil => exact nil
      | cons c s => exact cons c s hfound (ih s.length (Nat.lt_succ_self _) s rfl)

section Found

variable (hne : pattern ≠ []) (s : List α)

include hne

theorem replaceAll_append :
    replaceAll pattern replacement (pattern ++ s) =
      replacement ++ replaceAll pattern replacement s := by
  obtain ⟨c, pattern', hpattern⟩ := List.exists_cons_of_ne_nil hne
  have hfound : pattern ≠ [] ∧ pattern <+: c :: (pattern' ++ s) :=
    ⟨hne, ⟨s, by rw [hpattern, List.cons_append]⟩⟩
  have hdrop : (c :: (pattern' ++ s)).drop pattern.length = s := by
    rw [hpattern, ← List.cons_append, List.drop_left]
  conv_lhs => rw [hpattern, List.cons_append, replaceAll]
  rw [← hpattern, dif_pos hfound, hdrop]

theorem replacedCount_append : replacedCount pattern (pattern ++ s) = replacedCount pattern s + 1 := by
  obtain ⟨c, pattern', hpattern⟩ := List.exists_cons_of_ne_nil hne
  have hfound : pattern ≠ [] ∧ pattern <+: c :: (pattern' ++ s) :=
    ⟨hne, ⟨s, by rw [hpattern, List.cons_append]⟩⟩
  have hdrop : (c :: (pattern' ++ s)).drop pattern.length = s := by
    rw [hpattern, ← List.cons_append, List.drop_left]
  conv_lhs => rw [hpattern, List.cons_append, replacedCount]
  rw [← hpattern, dif_pos hfound, hdrop]

end Found

section NotFound

variable {c : α} {s : List α} (h : ¬ pattern <+: c :: s)

include h

theorem replaceAll_cons :
    replaceAll pattern replacement (c :: s) = c :: replaceAll pattern replacement s := by
  rw [replaceAll, dif_neg fun hfound => h hfound.2]

theorem replacedCount_cons : replacedCount pattern (c :: s) = replacedCount pattern s := by
  rw [replacedCount, dif_neg fun hfound => h hfound.2]

theorem occurrences_cons : occurrences pattern (c :: s) = occurrences pattern s := by
  rw [occurrences, if_neg h, Nat.zero_add]

end NotFound

theorem occurrences_le_append (before s : List α) :
    occurrences pattern s ≤ occurrences pattern (before ++ s) := by
  induction before with
  | nil => exact le_refl _
  | cons c before ih =>
    rw [List.cons_append, occurrences]
    omega

theorem occurrences_le_length (s : List α) : occurrences pattern s ≤ s.length := by
  induction s with
  | nil => exact le_refl _
  | cons c s ih =>
    rw [occurrences, List.length_cons]
    split_ifs <;> omega

theorem length_le_of_occurrences_pos {s : List α} (h : 0 < occurrences pattern s) :
    pattern.length ≤ s.length := by
  induction s with
  | nil => cases h
  | cons c s ih =>
    rw [occurrences] at h
    split_ifs at h with hfound
    · exact hfound.length_le
    · rw [List.length_cons]
      exact (ih (by omega)).trans (Nat.le_succ _)

theorem length_mul_occurrences_le (s : List α) :
    pattern.length * occurrences pattern s ≤ s.length * s.length := by
  rcases Nat.eq_zero_or_pos (occurrences pattern s) with hzero | hpos
  · rw [hzero, Nat.mul_zero]
    exact Nat.zero_le _
  · exact Nat.mul_le_mul (length_le_of_occurrences_pos hpos) (occurrences_le_length s)

/-- The occurrences, place by place. Behind `n` the text is too short for one. -/
theorem countP_range_eq {s : List α} {n : ℕ} (hn : n ≤ s.length)
    (hlast : s.length < n + pattern.length) :
    (List.range n).countP (fun i => pattern <+: s.drop i) = occurrences pattern s := by
  induction s generalizing n with
  | nil =>
    obtain rfl := Nat.le_zero.mp hn
    rfl
  | cons c s ih =>
    cases n with
    | zero =>
      have hnot : ¬ pattern <+: c :: s := fun h => by
        have hle := h.length_le
        omega
      rw [occurrences_cons hnot, ← ih (Nat.zero_le _) (by rw [List.length_cons] at hlast; omega)]
      rfl
    | succ n =>
      rw [List.length_cons] at hn hlast
      rw [List.range_succ_eq_map, List.countP_cons, List.countP_map, occurrences, Nat.add_comm,
        ← ih (Nat.le_of_succ_le_succ hn) (by omega)]
      congr 1
      simp

variable (hne : pattern ≠ [])

include hne

theorem length_replaceAll (replacement s : List α) :
    (replaceAll pattern replacement s).length + pattern.length * replacedCount pattern s =
      s.length + replacement.length * replacedCount pattern s := by
  induction s using pattern_induction hne with
  | nil => simp
  | found s ih =>
    rw [replaceAll_append hne, replacedCount_append hne, List.length_append, List.length_append,
      Nat.mul_succ, Nat.mul_succ]
    omega
  | cons c s h ih =>
    rw [replaceAll_cons h, replacedCount_cons h, List.length_cons, List.length_cons]
    omega

theorem replacedCount_le (s : List α) : replacedCount pattern s ≤ occurrences pattern s := by
  induction s using pattern_induction hne with
  | nil => simp
  | found s ih =>
    obtain ⟨c, pattern', hpattern⟩ := List.exists_cons_of_ne_nil hne
    have hfound : pattern <+: c :: (pattern' ++ s) := ⟨s, by rw [hpattern, List.cons_append]⟩
    have hoccurs : occurrences pattern (pattern ++ s) =
        1 + occurrences pattern (pattern' ++ s) := by
      conv_lhs => rw [hpattern, List.cons_append, occurrences]
      rw [← hpattern, if_pos hfound]
    have hle : occurrences pattern s ≤ occurrences pattern (pattern' ++ s) :=
      occurrences_le_append pattern' s
    rw [replacedCount_append hne, hoccurs]
    omega
  | cons c s h ih => rwa [replacedCount_cons h, occurrences_cons h]

theorem mem_replaceAll {s : List α} {c : α} (hc : c ∈ replaceAll pattern replacement s) :
    c ∈ s ∨ c ∈ replacement := by
  induction s using pattern_induction hne with
  | nil => simp at hc
  | found s ih =>
    rw [replaceAll_append hne, List.mem_append] at hc
    rcases hc with hc | hc
    · exact .inr hc
    · exact (ih hc).imp_left (List.mem_append_right _)
  | cons d s h ih =>
    rw [replaceAll_cons h, List.mem_cons] at hc
    rcases hc with rfl | hc
    · exact .inl List.mem_cons_self
    · exact (ih hc).imp_left (List.mem_cons_of_mem _)

section Separator

variable {d : α} (hd : d ∉ pattern)

include hd

omit [DecidableEq α] hne in
theorem isPrefix_append_cons_iff (s after : List α) :
    pattern <+: s ++ d :: after ↔ pattern <+: s := by
  constructor
  · intro h
    rcases Nat.le_total pattern.length s.length with hle | hle
    · exact List.prefix_of_prefix_length_le h (List.prefix_append s _) hle
    · -- a longer one would have the separator in it
      obtain ⟨more, hmore⟩ := List.prefix_of_prefix_length_le (List.prefix_append s (d :: after)) h hle
      rw [← hmore, List.prefix_append_right_inj] at h
      cases more with
      | nil => rw [← hmore, List.append_nil]
      | cons e more =>
        obtain ⟨rfl, _⟩ := List.cons_prefix_cons.mp h
        exact absurd (by simp [← hmore]) hd
  · exact fun h => h.trans (List.prefix_append s _)

theorem replaceAll_append_cons (replacement s after : List α) :
    replaceAll pattern replacement (s ++ d :: after) =
      replaceAll pattern replacement s ++ d :: replaceAll pattern replacement after := by
  induction s using pattern_induction hne with
  | nil =>
    have hnot : ¬ pattern <+: d :: after := by
      rw [← List.nil_append (d :: after), isPrefix_append_cons_iff hd, List.prefix_nil]
      exact hne
    rw [List.nil_append, replaceAll_cons hnot, replaceAll_nil, List.nil_append]
  | found s ih => rw [List.append_assoc, replaceAll_append hne, replaceAll_append hne, ih,
      List.append_assoc]
  | cons c s h ih =>
    have hnot : ¬ pattern <+: c :: (s ++ d :: after) := by
      rwa [← List.cons_append, isPrefix_append_cons_iff hd]
    rw [List.cons_append, replaceAll_cons hnot, replaceAll_cons h, ih, List.cons_append]

theorem replaceAll_replicate (replacement : List α) (k : ℕ) :
    replaceAll pattern replacement (List.replicate k d) = List.replicate k d := by
  induction k with
  | zero => exact replaceAll_nil
  | succ k ih =>
    have h := replaceAll_append_cons hne hd replacement [] (List.replicate k d)
    rw [List.nil_append, replaceAll_nil, List.nil_append, ih] at h
    exact h

end Separator

/-- A replacement that is not empty does not vanish among separators. -/
theorem eq_of_replaceAll_eq (hreplacement : replacement ≠ []) {d : α} (hd : d ∉ replacement) {s : List α}
    (h : ∀ c ∈ replaceAll pattern replacement s, c = d) : ∀ c ∈ s, c = d := by
  induction s using pattern_induction hne with
  | nil => simp
  | found s ih =>
    obtain ⟨c, replacement', rfl⟩ := List.exists_cons_of_ne_nil hreplacement
    rw [replaceAll_append hne] at h
    have hc := h c (by simp)
    exact absurd (by simp [hc]) hd
  | cons c s hnot ih =>
    rw [replaceAll_cons hnot, List.forall_mem_cons] at h
    exact List.forall_mem_cons.mpr ⟨h.1, ih h.2⟩

end Sysopy.Replacement
