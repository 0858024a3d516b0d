import Sysopy.Pizzeria.POSIX

/-!
# Who is at the oven

`oven_place` is meant to let one cook at a time insert a pizza or take one out. The
second section of `make_pizza` begins with a `sem_post` where the first one has a
`sem_wait`. Both sections stay exclusive as long as no cook gets to that call, and no
longer.
-/
namespace Sysopy.Pizzeria.POSIX

open Semaphore Transition Family

/-- The cook is inserting a pizza or taking it out again, in one of the sections meant
for one cook at a time. -/
def atPlace : Cook → Bool
  | .inserting _ | .inserted _ _ | .pulling _ _ | .pulled _ => true
  | _ => false

/-- At most one cook is at the oven, and `oven_place` is at most 1. -/
structure Exclusive {N M : ℕ} (s : State N M) : Prop where
  alone : ∀ i j, atPlace (s.cook i) = true → atPlace (s.cook j) = true → i = j
  place_le : s.sem .ovenPlace ≤ 1

/-- The cook's next call is the `sem_post(oven_place)` after the baking. -/
def aboutToPull : Cook → Bool
  | .baking _ _ => true
  | _ => false

/-- The action does not begin to take a pizza out of the oven. -/
def StaysBaking {N M : ℕ} (s : State N M) : Action N M → Prop
  | .cook i _ _ => aboutToPull (s.cook i) = false
  | .supplier _ _ => True

instance {N M : ℕ} (s : State N M) (a : Action N M) : Decidable (StaysBaking s a) := by
  cases a <;> unfold StaysBaking <;> infer_instance

/-- The one permit of `oven_place` is there or with a cook that inserts, and nobody takes
anything out. -/
structure Guarded {N M : ℕ} (s : State N M) : Prop where
  permit : s.sem .ovenPlace + total atOven s.cook = 1
  inserts : ∀ i, atPlace (s.cook i) = true → atOven (s.cook i) = 1

variable {N M : ℕ} {s s' : State N M}

theorem guarded_start : Guarded (start : State N M) := by
  have hatOven : total atOven (start : State N M).cook = 0 := total_eq_zero fun _ => rfl
  refine ⟨?_, fun i hi => ?_⟩
  · rw [hatOven]
    rfl
  · cases hi

theorem Guarded.exclusive (hs : Guarded s) : Exclusive s := by
  have hpermit := hs.permit
  refine ⟨fun i j hi hj => ?_, by omega⟩
  by_contra hne
  have hpair := add_le_total (w := atOven) (fun _ => Nat.zero_le _) s.cook hne
  rw [hs.inserts i hi, hs.inserts j hj] at hpair
  omega

theorem Guarded.moveCook (hs : Guarded s) {i : Fin N} {c₀ c : Cook} (hat : s.cook i = c₀)
    {sem : Specs → ℕ} (shared : Shared)
    (hplace : sem .ovenPlace + atOven c = s.sem .ovenPlace + atOven c₀)
    (hc : atPlace c = true → atOven c = 1) :
    Guarded ({ s with sem := sem, shared := shared }.moveCook i c) := by
  subst hat
  obtain ⟨hpermit, hinserts⟩ := hs
  constructor
  · have htotal := total_update atOven s.cook i c
    change sem .ovenPlace + total atOven (Function.update s.cook i c) = 1
    omega
  · intro j hj
    change atPlace (Function.update s.cook i c j) = true at hj
    change atOven (Function.update s.cook i c j) = 1
    by_cases hji : j = i
    · subst hji
      rw [Function.update_self] at hj ⊢
      exact hc hj
    · rw [Function.update_of_ne hji] at hj ⊢
      exact hinserts j hj

theorem Guarded.cookWait (hs : Guarded s) {i : Fin N} {c₀ c : Cook} (hat : s.cook i = c₀)
    {k : Specs} {u : State N M} (h : s.semWait k = some u)
    (hheld : atOven c = atOven c₀ + if k = .ovenPlace then 1 else 0)
    (hc : atPlace c = true → atOven c = 1) : Guarded (u.moveCook i c) := by
  obtain ⟨sem, hsem, rfl⟩ := Option.map_eq_some_iff.mp h
  obtain ⟨_, hk, hothers⟩ := wait_eq_some.mp hsem
  apply hs.moveCook hat s.shared _ hc
  rw [hheld]
  split_ifs with hplace
  · subst hplace
    omega
  · rw [hothers .ovenPlace (Ne.symm hplace)]
    omega

theorem Guarded.cookPost (hs : Guarded s) {i : Fin N} {c₀ c : Cook} (hat : s.cook i = c₀)
    {k : Specs} (hheld : atOven c + (if k = .ovenPlace then 1 else 0) = atOven c₀)
    (hc : atPlace c = true → atOven c = 1) : Guarded ((s.semPost k).moveCook i c) := by
  apply hs.moveCook hat s.shared _ hc
  rw [← hheld]
  split_ifs with hplace
  · subst hplace
    have hlt : s.sem .ovenPlace < SEM_VALUE_MAX := by
      have hpermit := hs.permit
      unfold SEM_VALUE_MAX
      omega
    rw [post_self hlt]
    omega
  · rw [post_of_ne _ _ (Ne.symm hplace)]
    omega

theorem Guarded.cookStep (hs : Guarded s) {i : Fin N} {pizza_no index : ℕ}
    (hbaking : aboutToPull (s.cook i) = false) (h : cookStep s i pizza_no index = some s') :
    Guarded s' := by
  unfold POSIX.cookStep at h
  split at h
  case h_1 hat | h_2 hat | h_9 hat | h_10 hat =>
    obtain ⟨u, hwait, rfl⟩ := Option.map_eq_some_iff.mp h
    exact hs.cookWait hat hwait rfl (by simp [atPlace, atOven])
  case h_3 hat | h_11 hat =>
    obtain rfl := Option.some.inj h
    exact hs.moveCook hat _ rfl (by simp [atPlace, atOven])
  case h_4 hat | h_8 hat | h_12 hat | h_13 hat =>
    obtain rfl := Option.some.inj h
    exact hs.cookPost hat rfl (by simp [atPlace])
  case h_5 hat =>
    rw [hat] at hbaking
    cases hbaking
  case h_6 hat | h_7 hat =>
    -- nobody gets this far without the call that is excluded
    have hinserts := hs.inserts i (by rw [hat]; rfl)
    rw [hat] at hinserts
    cases hinserts

theorem Guarded.supplierStep (hs : Guarded s) {j : Fin M} {index : ℕ}
    (h : supplierStep s j index = some s') : Guarded s' := by
  have hframe : s'.sem .ovenPlace = s.sem .ovenPlace ∧ s'.cook = s.cook := by
    unfold POSIX.supplierStep at h
    split at h
    case h_1 =>
      obtain ⟨u, hwait, rfl⟩ := Option.map_eq_some_iff.mp h
      obtain ⟨sem, hsem, rfl⟩ := Option.map_eq_some_iff.mp hwait
      exact ⟨(wait_eq_some.mp hsem).2.2 .ovenPlace (by decide), rfl⟩
    case h_2 =>
      obtain rfl := Option.some.inj h
      exact ⟨post_of_ne _ _ (by decide), rfl⟩
    case h_3 =>
      obtain rfl := Option.some.inj h
      exact ⟨rfl, rfl⟩
  obtain ⟨hsem, hcook⟩ := hframe
  constructor
  · rw [hsem, hcook]
    exact hs.permit
  · rw [hcook]
    exact hs.inserts

theorem Guarded.step (hs : Guarded s) {a : Action N M} (ha : StaysBaking s a)
    (h : step s a = some s') : Guarded s' := by
  cases a with
  | cook i pizza_no index => exact hs.cookStep ha h
  | supplier j index => exact hs.supplierStep h

/-- The call after the baking raises `oven_place` to 2, or lets the cook in beside another
one. -/
theorem Guarded.not_exclusive (hs : Guarded s) {a : Action N M} (ha : ¬ StaysBaking s a) :
    ∃ t, POSIX.step s a = some t ∧ ¬ Exclusive t := by
  cases a with
  | supplier j index => exact absurd trivial ha
  | cook i pizza_no index =>
    obtain ⟨no, idx, hat⟩ : ∃ no idx, s.cook i = .baking no idx := by
      cases hcook : s.cook i with
      | baking no idx => exact ⟨no, idx, rfl⟩
      | _ => exact absurd (by simp [StaysBaking, hcook, aboutToPull]) ha
    refine ⟨(s.semPost .ovenPlace).moveCook i (.pulling no idx), ?_, fun hexcl => ?_⟩
    · simp only [POSIX.step, POSIX.cookStep, hat]
    have hpermit := hs.permit
    have hzero : s.sem .ovenPlace = 0 := by
      have hle := hexcl.place_le
      change post SEM_VALUE_MAX .ovenPlace s.sem .ovenPlace ≤ 1 at hle
      rw [post_self (by unfold SEM_VALUE_MAX; omega)] at hle
      omega
    -- the permit is with another cook
    obtain ⟨j, hj⟩ : ∃ j, atOven (s.cook j) ≠ 0 := by
      by_contra hnone
      push Not at hnone
      rw [total_eq_zero hnone] at hpermit
      omega
    have hji : j ≠ i := by
      rintro rfl
      rw [hat] at hj
      exact hj rfl
    apply hji
    apply hexcl.alone
    · change atPlace (Function.update s.cook i _ j) = true
      rw [Function.update_of_ne hji]
      cases hcook : s.cook j <;> rw [hcook] at hj <;> first | rfl | exact absurd rfl hj
    · change atPlace (Function.update s.cook i _ i) = true
      rw [Function.update_self]
      rfl

/-- In a run the cooks keep out of each other's way, and `oven_place` at 1, exactly as long
as none of them begins to take a pizza out. -/
theorem exclusive_iff (N M : ℕ) (schedule : List (Action N M)) :
    (∀ done, done <+: schedule → ∀ s, exec step start done = some s → Exclusive s) ↔
      Along step StaysBaking start schedule :=
  always_iff_along (fun _ hs => hs.exclusive) (fun _ _ _ hs ha h => hs.step ha h)
    (fun _ _ hs ha => hs.not_exclusive ha) guarded_start

/-- One cook bakes one pizza: `oven_place` is 2 as soon as it opens the oven again. -/
theorem not_exclusive_first_pizza :
    ¬ ∀ (N M : ℕ) (schedule : List (Action N M)) (s : State N M),
      exec step start schedule = some s → Exclusive s := by
  intro h
  have hle := (h 1 0 (List.replicate 5 (.cook 0 3 0)) _ rfl).place_le
  revert hle
  decide

end Sysopy.Pizzeria.POSIX
