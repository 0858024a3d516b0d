import Sysopy.Pizzeria.Table

/-!
# The oven of the System V pizzeria

A cook takes a permit of `OVEN_IN` before it looks for a free slot of the oven, and gives
it back after it has emptied the slot again. So of the cooks with a permit the one that
searches has no slot yet, and its search ends within the oven.

A cook that finds no free slot on the table reads on behind it: the counters of the table,
and what lies behind `struct pizzeria`, come after the oven. Such a search may end there,
so the runs here go on after it, with any values in these counters.
-/
namespace Sysopy.Pizzeria

open Semaphore Transition Family

/-- The `index` of a cook between the insertion and the removal of its pizza. -/
def Cook.index : Cook → Option (Fin OVEN_CAP)
  | .inserted _ index | .baking _ index | .pulling _ index => some index
  | _ => none

/-- The cook is between the two calls of `semop` that take and give back `OVEN_IN`. -/
def Cook.permit : Cook → Bool
  | .inserting _ | .inserted _ _ | .baking _ _ | .pulling _ _ | .pulled _ => true
  | _ => false

namespace SystemV

variable {N M : ℕ}

/-- A step of the model, or the search of a cook that finds a free place behind the table. -/
inductive Move (N M : ℕ)
  | within (a : Action N M)
  | behind (i : Fin N) (tables_taken : ℤ) (table_queue_start : ℕ)

def move (s : State N M) : Move N M → Option (State N M)
  | .within a => step s a
  | .behind i tables_taken table_queue_start =>
    match s.cook i with
    | .placing pizza_no =>
      if firstFree s.shared.table = none then
        some { s.moveCook i s.sem .placed with
          shared := { s.shared with
            tables_taken := tables_taken
            table_queue_start := table_queue_start }
          placed := (pizza_no : ℤ) ::ₘ s.placed }
      else none
    | _ => none

structure OvenCorrect (s : State N M) : Prop where
  taken : s.shared.ovens_taken = (Finset.univ.filter fun k => s.shared.oven k = TAKEN).card
  cooks : s.shared.ovens_taken = (Finset.univ.filter fun i => (s.cook i).index.isSome).card
  le_cap : s.shared.ovens_taken ≤ OVEN_CAP
  own : ∀ i k, (s.cook i).index = some k → s.shared.oven k = TAKEN
  distinct : ∀ i j k, (s.cook i).index = some k → (s.cook j).index = some k → i = j
  permits : s.sem .ovenIn + (Finset.univ.filter fun i => (s.cook i).permit).card = OVEN_CAP
  search : ∀ i pizza_no, s.cook i = .inserting pizza_no → ∃ k, s.shared.oven k = FREE

/-! ## The invariant -/

def inOven (c : Cook) : ℤ := if c.index.isSome then 1 else 0

def hasPermit (c : Cook) : ℤ := if c.permit then 1 else 0

def isInserting : Cook → ℤ
  | .inserting _ => 1
  | _ => 0

theorem isInserting_nonneg (c : Cook) : 0 ≤ isInserting c := by
  cases c <;> simp [isInserting]

/-- A cook in its search has a permit and no slot. -/
theorem inOven_add_isInserting_le (c : Cook) : inOven c + isInserting c ≤ hasPermit c := by
  cases c <;> simp [inOven, isInserting, hasPermit, Cook.index, Cook.permit]

structure OvenInv (s : State N M) : Prop where
  nonneg : ∀ k, 0 ≤ s.sem k
  slots : ∀ k, s.shared.oven k = FREE ∨ s.shared.oven k = TAKEN
  taken : s.shared.ovens_taken = total isTaken s.shared.oven
  cooks : s.shared.ovens_taken = total inOven s.cook
  own : ∀ i k, (s.cook i).index = some k → s.shared.oven k = TAKEN
  distinct : ∀ i j k, (s.cook i).index = some k → (s.cook j).index = some k → i = j
  permits : s.sem .ovenIn + total hasPermit s.cook = OVEN_CAP

theorem ovenInv_start : OvenInv (start : State N M) where
  nonneg k := by cases k <;> simp [start]
  slots _ := .inl rfl
  taken := (total_eq_zero fun _ => rfl).symm
  cooks := (total_eq_zero fun _ => rfl).symm
  own _ _ h := by cases h
  distinct _ _ _ h := by cases h
  permits := by
    have hpermit : total hasPermit (start : State N M).cook = 0 := total_eq_zero fun _ => rfl
    rw [hpermit]
    rfl

section Step

variable {s s' : State N M}

theorem OvenInv.of_same (hs : OvenInv s) (hnonneg : ∀ k, 0 ≤ s'.sem k)
    (hoven : s'.shared.oven = s.shared.oven)
    (hcount : s'.shared.ovens_taken = s.shared.ovens_taken)
    (hindex : ∀ i, (s'.cook i).index = (s.cook i).index)
    (hpermits : s'.sem .ovenIn + total hasPermit s'.cook =
      s.sem .ovenIn + total hasPermit s.cook) : OvenInv s' := by
  have hcooks : total inOven s'.cook = total inOven s.cook := by
    unfold total inOven
    simp only [hindex]
  refine ⟨hnonneg, ?_, ?_, ?_, ?_, ?_, hpermits.trans hs.permits⟩
  · rw [hoven]
    exact hs.slots
  · rw [hcount, hoven]
    exact hs.taken
  · rw [hcount, hcooks]
    exact hs.cooks
  · intro i k h
    rw [hindex] at h
    rw [hoven]
    exact hs.own i k h
  · intro i j k hi hj
    rw [hindex] at hi hj
    exact hs.distinct i j k hi hj

theorem index_update {i : Fin N} {c : Cook} (h : c.index = (s.cook i).index) (j : Fin N) :
    (Function.update s.cook i c j).index = (s.cook j).index := by
  by_cases hj : j = i
  · rw [hj, Function.update_self, h]
  · rw [Function.update_of_ne hj]

theorem OvenInv.moveCook (hs : OvenInv s) {i : Fin N} {c : Cook} {ops : List (Specs × ℤ)}
    {sem : Specs → ℤ} (hsem : semop ops s.sem = some sem) (hops : (ops.map Prod.fst).Nodup)
    (hindex : c.index = (s.cook i).index)
    (hpermit : change ops .ovenIn + hasPermit c = hasPermit (s.cook i)) :
    OvenInv (s.moveCook i sem c) := by
  obtain ⟨_, hvalue⟩ := semop_eq_some.mp hsem
  have htotal := total_update hasPermit s.cook i c
  apply hs.of_same
  · exact semop_nonneg hops hs.nonneg hsem
  · rfl
  · rfl
  · exact index_update hindex
  · change sem .ovenIn + total hasPermit (Function.update s.cook i c) = _
    rw [hvalue]
    omega

theorem OvenInv.atTable (hs : OvenInv s) {i : Fin N} {c : Cook} (hsem : s'.sem = s.sem)
    (hcook : s'.cook = Function.update s.cook i c) (hoven : s'.shared.oven = s.shared.oven)
    (hcount : s'.shared.ovens_taken = s.shared.ovens_taken) (hindex : c.index = (s.cook i).index)
    (hpermit : hasPermit c = hasPermit (s.cook i)) : OvenInv s' := by
  have htotal := total_update hasPermit s.cook i c
  apply hs.of_same
  · rw [hsem]
    exact hs.nonneg
  · exact hoven
  · exact hcount
  · rw [hcook]
    exact index_update hindex
  · rw [hsem, hcook]
    omega

/-- The slots that are taken leave one free for a cook in its search. -/
theorem OvenInv.exists_free (hs : OvenInv s) {i : Fin N} {pizza_no : ℕ}
    (hi : s.cook i = .inserting pizza_no) : ∃ k, s.shared.oven k = FREE := by
  have hone := le_total isInserting_nonneg s.cook i
  rw [hi] at hone
  change 1 ≤ total isInserting s.cook at hone
  have hle : total inOven s.cook + total isInserting s.cook ≤ total hasPermit s.cook := by
    unfold total
    rw [← Finset.sum_add_distrib]
    exact Finset.sum_le_sum fun j _ => inOven_add_isInserting_le (s.cook j)
  have htaken := hs.taken
  have hcooks := hs.cooks
  have hpermits := hs.permits
  have hsem := hs.nonneg .ovenIn
  exact (total_isTaken_lt_iff s.shared.oven).mp (by omega)

theorem OvenInv.insert (hs : OvenInv s) {i : Fin N} {pizza_no : ℕ} {k : Fin OVEN_CAP}
    (hi : s.cook i = .inserting pizza_no) (hk : s.shared.oven k = FREE) :
    OvenInv { s.moveCook i s.sem (.inserted pizza_no k) with
      shared := { s.shared with
        ovens_taken := s.shared.ovens_taken + 1
        oven := Function.update s.shared.oven k TAKEN } } := by
  have hslots := total_isTaken_update_free hk (by decide : TAKEN ≠ FREE)
  have hcooks := total_update inOven s.cook i (.inserted pizza_no k)
  have hpermits := total_update hasPermit s.cook i (.inserted pizza_no k)
  rw [hi] at hcooks hpermits
  simp only [inOven, hasPermit, Cook.index, Cook.permit] at hcooks hpermits
  simp at hcooks hpermits
  have htaken := hs.taken
  have hcount := hs.cooks
  -- no other cook has the slot, which was free
  have hfresh : ∀ j, (s.cook j).index ≠ some k := by
    intro j hj
    exact absurd (hk.symm.trans (hs.own j k hj)) (by decide)
  have hother : ∀ j k', (Function.update s.cook i (.inserted pizza_no k) j).index = some k' →
      j = i ∧ k' = k ∨ j ≠ i ∧ k' ≠ k ∧ (s.cook j).index = some k' := by
    intro j k' h
    by_cases hj : j = i
    · rw [hj, Function.update_self] at h
      exact .inl ⟨hj, (Option.some.inj h).symm⟩
    · rw [Function.update_of_ne hj] at h
      refine .inr ⟨hj, ?_, h⟩
      rintro rfl
      exact hfresh j h
  refine ⟨hs.nonneg, ?_, ?_, ?_, ?_, ?_, ?_⟩
  · intro k'
    change Function.update s.shared.oven k TAKEN k' = _ ∨ Function.update s.shared.oven k TAKEN k' = _
    by_cases hk' : k' = k
    · rw [hk', Function.update_self]
      exact .inr rfl
    · rw [Function.update_of_ne hk']
      exact hs.slots k'
  · change s.shared.ovens_taken + 1 = total isTaken (Function.update s.shared.oven k TAKEN)
    omega
  · change s.shared.ovens_taken + 1 = total inOven (Function.update s.cook i _)
    omega
  · intro j k' h
    change Function.update s.shared.oven k TAKEN k' = TAKEN
    rcases hother j k' h with ⟨_, rfl⟩ | ⟨_, hne, hj⟩
    · exact Function.update_self _ _ _
    · rw [Function.update_of_ne hne]
      exact hs.own j k' hj
  · intro j₁ j₂ k' h₁ h₂
    rcases hother j₁ k' h₁ with ⟨rfl, rfl⟩ | ⟨_, hne, hj₁⟩
    · rcases hother j₂ k' h₂ with ⟨rfl, _⟩ | ⟨_, hne, _⟩
      · rfl
      · exact absurd rfl hne
    · rcases hother j₂ k' h₂ with ⟨_, heq⟩ | ⟨_, _, hj₂⟩
      · exact absurd heq hne
      · exact hs.distinct j₁ j₂ k' hj₁ hj₂
  · change s.sem .ovenIn + total hasPermit (Function.update s.cook i _) = OVEN_CAP
    rw [hpermits]
    exact hs.permits

theorem OvenInv.pull (hs : OvenInv s) {i : Fin N} {pizza_no : ℕ} {k : Fin OVEN_CAP}
    (hi : s.cook i = .pulling pizza_no k) :
    OvenInv { s.moveCook i s.sem (.pulled pizza_no) with shared := pullPizza s.shared k } := by
  have hindex : (s.cook i).index = some k := by rw [hi]; rfl
  have hk : s.shared.oven k = TAKEN := hs.own i k hindex
  have hne : s.shared.oven k ≠ FREE := by
    rw [hk]
    decide
  have hslots := total_isTaken_update_taken hne
  have hcooks := total_update inOven s.cook i (.pulled pizza_no)
  have hpermits := total_update hasPermit s.cook i (.pulled pizza_no)
  rw [hi] at hcooks hpermits
  simp only [inOven, hasPermit, Cook.index, Cook.permit] at hcooks hpermits
  simp at hcooks hpermits
  have htaken := hs.taken
  have hcount := hs.cooks
  -- the cooks that keep a slot keep another one
  have hother : ∀ j k', (Function.update s.cook i (.pulled pizza_no) j).index = some k' →
      k' ≠ k ∧ (s.cook j).index = some k' := by
    intro j k' h
    by_cases hj : j = i
    · rw [hj, Function.update_self] at h
      cases h
    · rw [Function.update_of_ne hj] at h
      refine ⟨?_, h⟩
      rintro rfl
      exact hj (hs.distinct j i k' h hindex)
  refine ⟨hs.nonneg, ?_, ?_, ?_, ?_, ?_, ?_⟩
  · intro k'
    change Function.update s.shared.oven k FREE k' = _ ∨ Function.update s.shared.oven k FREE k' = _
    by_cases hk' : k' = k
    · rw [hk', Function.update_self]
      exact .inl rfl
    · rw [Function.update_of_ne hk']
      exact hs.slots k'
  · change s.shared.ovens_taken - 1 = total isTaken (Function.update s.shared.oven k FREE)
    omega
  · change s.shared.ovens_taken - 1 = total inOven (Function.update s.cook i _)
    omega
  · intro j k' h
    obtain ⟨hne, hj⟩ := hother j k' h
    change Function.update s.shared.oven k FREE k' = TAKEN
    rw [Function.update_of_ne hne]
    exact hs.own j k' hj
  · intro j₁ j₂ k' h₁ h₂
    exact hs.distinct j₁ j₂ k' (hother j₁ k' h₁).2 (hother j₂ k' h₂).2
  · change s.sem .ovenIn + total hasPermit (Function.update s.cook i _) = OVEN_CAP
    rw [hpermits]
    exact hs.permits

theorem OvenInv.cookStep (hs : OvenInv s) {i : Fin N} {n : ℕ} (h : cookStep s i n = some s') :
    OvenInv s' := by
  unfold SystemV.cookStep at h
  split at h
  case h_1 hi | h_3 hi | h_4 hi | h_6 hi | h_7 hi | h_9 hi =>
    obtain ⟨sem, hsem, rfl⟩ := Option.map_eq_some_iff.mp h
    exact hs.moveCook hsem (by decide) (by rw [hi]; rfl) (by simp [hi, hasPermit, Cook.permit])
  case h_2 pizza_no hi =>
    obtain ⟨k, hk⟩ := Option.isSome_iff_exists.mp (firstFree_isSome_iff.mpr (hs.exists_free hi))
    rw [insertPizza, hk] at h
    obtain rfl := Option.some.inj h
    exact hs.insert hi (firstFree_some hk)
  case h_5 pizza_no index hi =>
    obtain rfl := Option.some.inj h
    exact hs.pull hi
  case h_8 pizza_no hi =>
    split at h
    · rename_i shared hplace
      obtain rfl := Option.some.inj h
      obtain ⟨k, _, rfl⟩ := Option.map_eq_some_iff.mp hplace
      exact hs.atTable rfl rfl rfl rfl (by rw [hi]; rfl) (by rw [hi]; rfl)
    · obtain rfl := Option.some.inj h
      exact hs.atTable rfl rfl rfl rfl (by rw [hi]; rfl) (by rw [hi]; rfl)
  case h_10 => cases h

theorem OvenInv.supplierStep (hs : OvenInv s) {j : Fin M} (h : supplierStep s j = some s') :
    OvenInv s' := by
  unfold SystemV.supplierStep at h
  split at h
  case h_1 =>
    obtain ⟨sem, hsem, rfl⟩ := Option.map_eq_some_iff.mp h
    obtain ⟨_, hvalue⟩ := semop_eq_some.mp hsem
    refine hs.of_same (semop_nonneg (by decide) hs.nonneg hsem) rfl rfl (fun _ => rfl) ?_
    change sem .ovenIn + _ = _
    rw [hvalue]
    simp
  case h_2 =>
    obtain ⟨⟨shared, pizza_no⟩, htake, rfl⟩ := Option.map_eq_some_iff.mp h
    obtain ⟨k, _, heq⟩ := Option.map_eq_some_iff.mp htake
    obtain ⟨rfl, _⟩ := Prod.mk.inj heq
    exact hs.of_same hs.nonneg rfl rfl (fun _ => rfl) rfl

theorem OvenInv.move (hs : OvenInv s) {m : Move N M} (h : move s m = some s') : OvenInv s' := by
  cases m with
  | within a =>
    cases a with
    | cook i n => exact hs.cookStep h
    | supplier j => exact hs.supplierStep h
  | behind i tables_taken table_queue_start =>
    unfold SystemV.move at h
    dsimp only at h
    split at h
    · rename_i pizza_no hi
      split_ifs at h
      obtain rfl := Option.some.inj h
      exact hs.atTable rfl rfl rfl rfl (by rw [hi]; rfl) (by rw [hi]; rfl)
    · cases h

theorem OvenInv.correct (hs : OvenInv s) : OvenCorrect s := by
  have hcard : s.shared.ovens_taken = (Finset.univ.filter fun i => (s.cook i).index.isSome).card := by
    rw [hs.cooks, Finset.natCast_card_filter]
    rfl
  have hpermits : s.sem .ovenIn + (Finset.univ.filter fun i => (s.cook i).permit).card =
      OVEN_CAP := by
    rw [Finset.natCast_card_filter]
    exact hs.permits
  refine ⟨?_, hcard, ?_, hs.own, hs.distinct, hpermits, fun i pizza_no hi => hs.exists_free hi⟩
  · rw [hs.taken, Finset.natCast_card_filter]
    apply Finset.sum_congr rfl
    intro k _
    rcases hs.slots k with hk | hk <;> rw [hk] <;> rfl
  · have hle : total inOven s.cook ≤ total hasPermit s.cook :=
      Finset.sum_le_sum fun j _ => by
        have hweight := inOven_add_isInserting_le (s.cook j)
        have hnonneg := isInserting_nonneg (s.cook j)
        omega
    have hcooks := hs.cooks
    have hpermits := hs.permits
    have hsem := hs.nonneg .ovenIn
    omega

end Step

/-- Every state that a run reaches, whatever becomes of the table. -/
theorem oven_correct (N M : ℕ) (schedule : List (Move N M)) (s : State N M)
    (hrun : exec move start schedule = some s) : OvenCorrect s := by
  have hs : OvenInv s := exec_invariant' (fun _ _ _ hs h => hs.move h) ovenInv_start hrun
  exact hs.correct

/-- Two cooks insert their pizzas, and the first takes its pizza out. -/
def twoPizzas : List (Move 2 1) :=
  let first : Fin 2 := ⟨0, Nat.zero_lt_two⟩
  let second : Fin 2 := ⟨1, Nat.one_lt_two⟩
  let pizza_no : Fin 10 := ⟨4, by decide⟩
  List.replicate 3 (.within (.cook first pizza_no)) ++
    List.replicate 3 (.within (.cook second pizza_no)) ++
    List.replicate 3 (.within (.cook first pizza_no))

theorem oven_correct_twoPizzas :
    ∃ s, exec move start twoPizzas = some s ∧ OvenCorrect s :=
  ⟨_, rfl, oven_correct 2 1 twoPizzas _ rfl⟩

end SystemV

end Sysopy.Pizzeria
