import Sysopy.Library.Family
import Sysopy.Workshop.Monitor

/-!
# The counters of the Santa problem

A reindeer that has counted itself stays in its loop until the counter is reset, so no more are
counted than are there. An elf that tests for a free slot has the mutex until it has taken it.
-/
namespace Sysopy.Workshop.Monitor

open Family Mutex Transition

/-- Whether the reindeer has counted itself and not yet left its loop. -/
def Reindeer.counted : Reindeer → ℤ
  | .fullTest | .loop | .waiting _ => 1
  | _ => 0

/-- What Santa relies on at his place. -/
def Santa.Ready (waiting_reindeers waiting_elves : ℤ) : Santa → Prop
  | .leaving | .delivering | .delivered => waiting_reindeers = REINDEERS_REQ
  | .shopLoop i => waiting_elves = ELVES_REQ ∧ 0 ≤ i
  | .clearing i => waiting_elves = ELVES_REQ ∧ 0 ≤ i ∧ i < ELVES_REQ
  | .leavingShop | .solving | .solved => waiting_elves = ELVES_REQ
  | _ => True

/-- What an elf relies on at its place. -/
def Elf.Ready (waiting_elves : ℤ) : Elf → Prop
  | .choose | .taking => waiting_elves < ELVES_REQ
  | .storing i => 0 ≤ i ∧ i < ELVES_REQ
  | .callTest i | .equalTest i => ∃ j, i = some j ∧ 0 ≤ j ∧ j < ELVES_REQ
  | _ => True

/-- The counters, and what the threads rely on. -/
structure Counted (s : State) : Prop where
  reindeers : 0 ≤ s.waiting_reindeers ∧ s.waiting_reindeers ≤ total Reindeer.counted s.reindeers
  elves : 0 ≤ s.waiting_elves ∧ s.waiting_elves ≤ ELVES_REQ
  santa : s.santa.Ready s.waiting_reindeers s.waiting_elves
  elf : ∀ e, (s.elves e).Ready s.waiting_elves

/-! ## Facts about places -/

section Places

@[simp] theorem Reindeer.counted_wake (x : Reindeer) : x.wake.counted = x.counted := by
  cases x <;> rfl

@[simp] theorem Santa.ready_wake (n m : ℤ) (x : Santa) : x.wake.Ready n m ↔ x.Ready n m := by
  cases x <;> rfl

@[simp] theorem Elf.ready_wake (m : ℤ) (x : Elf) : x.wake.Ready m ↔ x.Ready m := by
  cases x <;> rfl

/-- Only a thread with the mutex relies on a slot to be free. -/
theorem Elf.ready_of_not_holds {m m' : ℤ} {x : Elf} (h : x.Ready m) (hx : ¬ x.holds = true) :
    x.Ready m' := by
  cases x <;> trivial

theorem Elf.ready_of_lt {m m' : ℤ} {x : Elf} (h : x.Ready m) (hm : m' < ELVES_REQ) :
    x.Ready m' := by
  cases x <;> first | exact hm | exact h

theorem Santa.ready_of_lt {n m m' : ℤ} {x : Santa} (h : x.Ready n m) (hm : m < ELVES_REQ) :
    x.Ready n m' := by
  cases x <;> first | exact h | exact absurd h hm.ne | exact absurd h.1 hm.ne

theorem Santa.ready_of_ne {n n' m : ℤ} {x : Santa} (h : x.Ready n m) (hn : n ≠ REINDEERS_REQ) :
    x.Ready n' m := by
  cases x <;> first | exact h | exact absurd h hn

theorem Reindeer.counted_nonneg (x : Reindeer) : 0 ≤ x.counted := by
  cases x <;> simp [Reindeer.counted]

theorem Reindeer.counted_le (x : Reindeer) : x.counted ≤ 1 := by
  cases x <;> simp [Reindeer.counted]

theorem total_wake (f : Fin REINDEERS_NO → Reindeer) :
    total Reindeer.counted (fun r => (f r).wake) = total Reindeer.counted f :=
  Finset.sum_congr rfl fun r _ => (f r).counted_wake

theorem total_counted_le (f : Fin REINDEERS_NO → Reindeer) :
    total Reindeer.counted f ≤ REINDEERS_NO := by
  have h := Finset.sum_le_card_nsmul Finset.univ (fun r => (f r).counted) 1
    fun r _ => (f r).counted_le
  rw [Finset.card_univ, Fintype.card_fin, nsmul_one] at h
  exact h

theorem total_counted_lt {f : Fin REINDEERS_NO → Reindeer} {r : Fin REINDEERS_NO}
    (hr : (f r).counted = 0) : total Reindeer.counted f < REINDEERS_NO := by
  have h := total_update Reindeer.counted f r .loop
  have hle := total_counted_le (Function.update f r .loop)
  have hone : Reindeer.loop.counted = 1 := rfl
  omega

end Places

section Steps

variable {s s' : State}

theorem Counted.setSanta (h : Counted s) {v : State} {x : Santa}
    (hreindeers : v.waiting_reindeers = s.waiting_reindeers) (helves : v.waiting_elves = s.waiting_elves)
    (hr : v.reindeers = s.reindeers) (he : v.elves = s.elves)
    (hx : x.Ready s.waiting_reindeers s.waiting_elves) : Counted (v.setSanta x) := by
  constructor
  · simpa only [State.setSanta, hreindeers, hr] using h.reindeers
  · simpa only [State.setSanta, helves] using h.elves
  · simpa only [State.setSanta, hreindeers, helves] using hx
  · simpa only [State.setSanta, helves, he] using h.elf

theorem Counted.stepSanta (h : Counted s) (hs : s.stepSanta = some s') : Counted s' := by
  have hready := h.santa
  unfold State.stepSanta at hs
  cases hplace : s.santa with
  | head | jobsTest =>
    rw [hplace] at hs
    obtain rfl := Option.some.inj hs
    refine h.setSanta rfl rfl rfl rfl ?_
    split_ifs <;> trivial
  | locking | delivering | solving =>
    rw [hplace] at hs hready
    obtain ⟨_, rfl⟩ := lock_map_eq_some hs
    exact h.setSanta rfl rfl rfl rfl hready
  | loop =>
    rw [hplace] at hs
    dsimp only at hs
    split_ifs at hs
    · obtain rfl := Option.some.inj hs
      exact h.setSanta rfl rfl rfl rfl trivial
    · obtain rfl := Option.some.inj hs
      exact h.setSanta rfl rfl rfl rfl trivial
  | asleep w =>
    rw [hplace] at hs
    cases w with
    | blocked => cases hs
    | woken =>
      obtain ⟨_, rfl⟩ := lock_map_eq_some hs
      exact h.setSanta rfl rfl rfl rfl trivial
  | busy | idle | unlocking =>
    rw [hplace] at hs
    obtain rfl := Option.some.inj hs
    exact h.setSanta rfl rfl rfl rfl trivial
  | reindeerTest =>
    rw [hplace] at hs
    obtain rfl := Option.some.inj hs
    refine h.setSanta rfl rfl rfl rfl ?_
    split_ifs with hall
    · exact hall
    · trivial
  | leaving | leavingShop =>
    rw [hplace] at hs hready
    obtain rfl := Option.some.inj hs
    exact h.setSanta rfl rfl rfl rfl hready
  | delivered =>
    rw [hplace] at hs
    obtain rfl := Option.some.inj hs
    have htotal := total_wake s.reindeers
    exact ⟨⟨le_rfl, (h.reindeers.1.trans h.reindeers.2).trans htotal.ge⟩, h.elves, trivial, h.elf⟩
  | elfTest =>
    rw [hplace] at hs
    obtain rfl := Option.some.inj hs
    refine h.setSanta rfl rfl rfl rfl ?_
    split_ifs with hall
    · exact ⟨hall, le_rfl⟩
    · trivial
  | shopLoop i =>
    rw [hplace] at hs hready
    obtain rfl := Option.some.inj hs
    refine h.setSanta rfl rfl rfl rfl ?_
    split_ifs with hi
    · exact ⟨hready.1, hready.2, hi⟩
    · exact hready.1
  | clearing i =>
    rw [hplace] at hs hready
    obtain rfl := Option.some.inj hs
    exact h.setSanta rfl rfl rfl rfl ⟨hready.1, by have hi := hready.2.1; omega⟩
  | solved =>
    rw [hplace] at hs
    obtain rfl := Option.some.inj hs
    have hfree : (0 : ℤ) < ELVES_REQ := by decide
    exact ⟨h.reindeers, ⟨le_rfl, hfree.le⟩, trivial, fun e =>
      (Elf.ready_wake _ _).mpr (Elf.ready_of_lt (h.elf e) hfree)⟩
  | returned =>
    rw [hplace] at hs
    cases hs

theorem Counted.setReindeer (h : Counted s) {v : State} {r : Fin REINDEERS_NO} {x : Reindeer}
    {n : ℤ} (hn : v.waiting_reindeers = n) (helves : v.waiting_elves = s.waiting_elves)
    (he : v.elves = s.elves)
    (hr : ∀ r, (v.reindeers r).counted = (s.reindeers r).counted)
    (hsanta : v.santa.Ready n s.waiting_elves) (hnonneg : 0 ≤ n)
    (hle : n + (s.reindeers r).counted ≤ total Reindeer.counted s.reindeers + x.counted) :
    Counted (v.setReindeer r x) := by
  have htotal := total_update Reindeer.counted v.reindeers r x
  have hsame : total Reindeer.counted v.reindeers = total Reindeer.counted s.reindeers :=
    Finset.sum_congr rfl fun r _ => hr r
  rw [hr r, hsame] at htotal
  refine ⟨⟨?_, ?_⟩, ?_, ?_, ?_⟩
  · exact hn ▸ hnonneg
  · change v.waiting_reindeers ≤ total Reindeer.counted (Function.update v.reindeers r x)
    omega
  · simpa only [State.setReindeer, helves] using h.elves
  · simpa only [State.setReindeer, helves, hn] using hsanta
  · simpa only [State.setReindeer, helves, he] using h.elf

theorem Counted.stepReindeer (h : Counted s) {r : Fin REINDEERS_NO}
    (hs : s.stepReindeer r = some s') : Counted s' := by
  obtain ⟨hnonneg, hle⟩ := h.reindeers
  unfold State.stepReindeer at hs
  cases hplace : s.reindeers r with
  | away =>
    rw [hplace] at hs
    obtain ⟨_, rfl⟩ := lock_map_eq_some hs
    refine h.setReindeer rfl rfl rfl (fun _ => rfl) h.santa hnonneg ?_
    rw [hplace]
    exact Int.add_le_add_right hle 0
  | arriving =>
    rw [hplace] at hs
    obtain rfl := Option.some.inj hs
    -- the reindeer itself is not counted yet
    have hlt : total Reindeer.counted s.reindeers < REINDEERS_REQ :=
      total_counted_lt (by rw [hplace]; rfl)
    have hnonneg' : 0 ≤ s.waiting_reindeers + 1 := by omega
    refine h.setReindeer rfl rfl rfl (fun _ => rfl)
      (Santa.ready_of_ne h.santa (hle.trans_lt hlt).ne) hnonneg' ?_
    rw [hplace]
    change s.waiting_reindeers + 1 + 0 ≤ _ + 1
    omega
  | fullTest =>
    rw [hplace] at hs
    obtain rfl := Option.some.inj hs
    have hle' : s.waiting_reindeers + (s.reindeers r).counted ≤
        total Reindeer.counted s.reindeers + Reindeer.loop.counted := by
      rw [hplace]
      exact Int.add_le_add_right hle 1
    split_ifs
    · exact h.setReindeer rfl rfl rfl (fun _ => Reindeer.counted_wake _)
        ((Santa.ready_wake _ _ _).mpr h.santa) hnonneg hle'
    · exact h.setReindeer rfl rfl rfl (fun _ => rfl) h.santa hnonneg hle'
  | loop =>
    rw [hplace] at hs
    dsimp only at hs
    split_ifs at hs with hwait
    · obtain rfl := Option.some.inj hs
      refine h.setReindeer rfl rfl rfl (fun _ => rfl) h.santa hnonneg ?_
      rw [hplace]
      exact Int.add_le_add_right hle 1
    · -- the counter is zero, so the reindeer may go
      obtain rfl := Option.some.inj hs
      have hone := le_total Reindeer.counted_nonneg s.reindeers r
      have hleft : Reindeer.unlocking.counted = 0 := rfl
      exact h.setReindeer rfl rfl rfl (fun _ => rfl) h.santa hnonneg (by omega)
  | waiting w =>
    rw [hplace] at hs
    cases w with
    | blocked => cases hs
    | woken =>
      obtain ⟨_, rfl⟩ := lock_map_eq_some hs
      refine h.setReindeer rfl rfl rfl (fun _ => rfl) h.santa hnonneg ?_
      rw [hplace]
      exact Int.add_le_add_right hle 1
  | unlocking =>
    rw [hplace] at hs
    obtain rfl := Option.some.inj hs
    refine h.setReindeer rfl rfl rfl (fun _ => rfl) h.santa hnonneg ?_
    rw [hplace]
    exact Int.add_le_add_right hle 0

theorem Counted.setElf (h : Counted s) {v : State} {e : Fin ELVES_NO} {x : Elf} {n : ℤ}
    (hn : v.waiting_elves = n) (hreindeers : v.waiting_reindeers = s.waiting_reindeers)
    (hr : v.reindeers = s.reindeers) (hrange : 0 ≤ n ∧ n ≤ ELVES_REQ)
    (hsanta : v.santa.Ready s.waiting_reindeers n) (hx : x.Ready n)
    (hothers : ∀ e', e' ≠ e → (v.elves e').Ready n) : Counted (v.setElf e x) := by
  refine ⟨?_, ?_, ?_, fun e' => ?_⟩
  · simpa only [State.setElf, hreindeers, hr] using h.reindeers
  · exact hn ▸ hrange
  · simpa only [State.setElf, hreindeers, hn] using hsanta
  · by_cases heq : e' = e
    · subst heq
      simpa only [State.setElf, Function.update_self, hn] using hx
    · simpa only [State.setElf, Function.update_of_ne heq, hn] using hothers e' heq

theorem Counted.stepElf (h : Counted s) (hex : Exclusive s.mutex (Holds s)) {e : Fin ELVES_NO}
    (hs : s.stepElf e = some s') : Counted s' := by
  have hready := h.elf e
  have hothers : ∀ e', e' ≠ e → (s.elves e').Ready s.waiting_elves := fun e' _ => h.elf e'
  unfold State.stepElf at hs
  cases hplace : s.elves e with
  | away =>
    rw [hplace] at hs
    obtain ⟨_, rfl⟩ := lock_map_eq_some hs
    exact h.setElf rfl rfl rfl h.elves h.santa trivial hothers
  | fullTest =>
    rw [hplace] at hs
    obtain rfl := Option.some.inj hs
    refine h.setElf rfl rfl rfl h.elves h.santa ?_ hothers
    split_ifs with hfull
    · trivial
    · exact lt_of_le_of_ne h.elves.2 hfull
  | queueTest =>
    rw [hplace] at hs
    dsimp only at hs
    split_ifs at hs with hfull
    · obtain rfl := Option.some.inj hs
      exact h.setElf rfl rfl rfl h.elves h.santa trivial hothers
    · obtain rfl := Option.some.inj hs
      exact h.setElf rfl rfl rfl h.elves h.santa (lt_of_le_of_ne h.elves.2 hfull) hothers
  | queued w | inShop w =>
    rw [hplace] at hs
    cases w with
    | blocked => cases hs
    | woken =>
      obtain ⟨_, rfl⟩ := lock_map_eq_some hs
      exact h.setElf rfl rfl rfl h.elves h.santa trivial hothers
  | choose =>
    rw [hplace] at hs hready
    obtain rfl := Option.some.inj hs
    have hslot : s.waiting_elves < ELVES_REQ := hready
    rw [if_pos hslot]
    exact h.setElf rfl rfl rfl h.elves h.santa hready hothers
  | taking =>
    rw [hplace] at hs hready
    obtain rfl := Option.some.inj hs
    have hslot : s.waiting_elves < ELVES_REQ := hready
    -- no other elf has the mutex
    have hrest : ∀ e', e' ≠ e → (s.elves e').Ready (s.waiting_elves + 1) := by
      intro e' hne
      refine Elf.ready_of_not_holds (h.elf e') fun hholds => hne ?_
      have howner := hex (.elf e) (by simp [Holds, hplace, Elf.holds])
      exact Thread.elf.inj (Option.some.inj ((hex (.elf e') hholds).symm.trans howner))
    have hnonneg := h.elves.1
    have hrange : 0 ≤ s.waiting_elves + 1 ∧ s.waiting_elves + 1 ≤ ELVES_REQ := by omega
    exact h.setElf rfl rfl rfl hrange (Santa.ready_of_lt h.santa hslot) ⟨hnonneg, hslot⟩ hrest
  | storing i =>
    rw [hplace] at hs hready
    obtain rfl := Option.some.inj hs
    exact h.setElf rfl rfl rfl h.elves h.santa ⟨i, rfl, hready⟩ hothers
  | callTest i =>
    rw [hplace] at hs hready
    obtain rfl := Option.some.inj hs
    split_ifs
    · exact h.setElf rfl rfl rfl h.elves ((Santa.ready_wake _ _ _).mpr h.santa) hready
        fun e' _ => (Elf.ready_wake _ _).mpr (h.elf e')
    · exact h.setElf rfl rfl rfl h.elves h.santa hready hothers
  | equalTest i =>
    rw [hplace] at hs
    cases i with
    | none => cases hs
    | some i =>
      dsimp only at hs
      split_ifs at hs
      · obtain rfl := Option.some.inj hs
        exact h.setElf rfl rfl rfl h.elves h.santa trivial hothers
      · obtain rfl := Option.some.inj hs
        exact h.setElf rfl rfl rfl h.elves h.santa trivial hothers
  | unlocking =>
    rw [hplace] at hs
    obtain rfl := Option.some.inj hs
    exact h.setElf rfl rfl rfl h.elves h.santa trivial hothers

theorem Counted.spurious (h : Counted s) {t : Thread} (hs : step s (.spurious t) = some s') :
    Counted s' := by
  cases t with
  | santa =>
    obtain rfl := Option.some.inj hs
    exact h.setSanta rfl rfl rfl rfl ((Santa.ready_wake _ _ _).mpr h.santa)
  | reindeer r =>
    obtain rfl := Option.some.inj hs
    refine h.setReindeer rfl rfl rfl (fun _ => rfl) h.santa h.reindeers.1 ?_
    rw [Reindeer.counted_wake]
    exact Int.add_le_add_right h.reindeers.2 _
  | elf e =>
    obtain rfl := Option.some.inj hs
    exact h.setElf rfl rfl rfl h.elves h.santa ((Elf.ready_wake _ _).mpr (h.elf e))
      fun e' _ => h.elf e'

end Steps

/-! ## Reachable states -/

structure Inv (s : State) : Prop where
  exclusive : Exclusive s.mutex (Holds s)
  counted : Counted s

theorem inv_start : Inv start where
  exclusive t ht := by cases t <;> exact absurd ht Bool.false_ne_true
  counted := {
    reindeers := ⟨le_rfl, Finset.sum_nonneg fun r _ => Reindeer.counted_nonneg _⟩
    elves := ⟨le_rfl, Int.natCast_nonneg _⟩
    santa := trivial
    elf := fun _ => trivial }

theorem exclusive_step {s s' : State} {a : Action} (h : Exclusive s.mutex (Holds s))
    (hs : step s a = some s') : Exclusive s'.mutex (Holds s') := by
  by_cases hend : Ends s a
  · obtain ⟨rfl, hbreak⟩ := hend
    rw [step, stepSanta_of_breaks hbreak] at hs
    obtain rfl := Option.some.inj hs
    have hothers : ∀ u, u ≠ .santa → (Holds (s.setSanta .returned) u ↔ Holds s u) := by
      intro u hu
      cases u with
      | santa => exact absurd rfl hu
      | reindeer r => rfl
      | elf e => rfl
    exact Exclusive.leave hothers h Bool.false_ne_true
  · have hmoves := step_moves hend hs
    exact h.step hmoves.others hmoves.uses

theorem inv_step {s s' : State} {a : Action} (h : Inv s) (hs : step s a = some s') : Inv s' where
  exclusive := exclusive_step h.exclusive hs
  counted := by
    cases a with
    | run t =>
      cases t with
      | santa => exact h.counted.stepSanta hs
      | reindeer r => exact h.counted.stepReindeer hs
      | elf e => exact h.counted.stepElf h.exclusive hs
    | spurious t => exact h.counted.spurious hs

theorem inv_exec {as : List Action} {s : State} (h : exec step start as = some s) : Inv s :=
  exec_invariant' (fun _ _ _ hinv hs => inv_step hinv hs) inv_start h

/-- From the test of the counter until the reindeers are back. -/
def Santa.delivers : Santa → Bool
  | .leaving | .delivering | .delivered => true
  | _ => false

/-- From the test of the counter until the problems are solved. -/
def Santa.helps : Santa → Bool
  | .shopLoop _ | .clearing _ | .leavingShop | .solving | .solved => true
  | _ => false

/-- The counters are in range, the workshop is used in its range and `i` with a value, and Santa
serves full groups; when he delivers, every reindeer is one of those that were counted. -/
structure Sound (s : State) : Prop where
  waiting_elves : 0 ≤ s.waiting_elves ∧ s.waiting_elves ≤ ELVES_REQ
  waiting_reindeers : 0 ≤ s.waiting_reindeers ∧ s.waiting_reindeers ≤ REINDEERS_REQ
  clears : ∀ i, s.santa = .clearing i → 0 ≤ i ∧ i < ELVES_REQ
  stores : ∀ e i, s.elves e = .storing i → 0 ≤ i ∧ i < ELVES_REQ
  assigned : ∀ e i, s.elves e = .equalTest i → ∃ j, i = some j ∧ 0 ≤ j ∧ j < ELVES_REQ
  delivers : s.santa.delivers = true →
    s.waiting_reindeers = REINDEERS_REQ ∧ ∀ r, (s.reindeers r).counted = 1
  helps : s.santa.helps = true → s.waiting_elves = ELVES_REQ

theorem Counted.all_counted {s : State} (h : Counted s)
    (hall : s.waiting_reindeers = REINDEERS_REQ) (r : Fin REINDEERS_NO) :
    (s.reindeers r).counted = 1 := by
  by_contra hne
  have hnonneg := Reindeer.counted_nonneg (s.reindeers r)
  have hle := Reindeer.counted_le (s.reindeers r)
  have hzero : (s.reindeers r).counted = 0 := by omega
  have hlt : total Reindeer.counted s.reindeers < REINDEERS_REQ := total_counted_lt hzero
  have hcount := h.reindeers.2
  omega

theorem Counted.sound {s : State} (h : Counted s) : Sound s where
  waiting_elves := h.elves
  waiting_reindeers := ⟨h.reindeers.1, h.reindeers.2.trans (total_counted_le _)⟩
  clears i hi := by
    have hready := h.santa
    rw [hi] at hready
    exact hready.2
  stores e i hi := by
    have hready := h.elf e
    rwa [hi] at hready
  assigned e i hi := by
    have hready := h.elf e
    rwa [hi] at hready
  delivers hs := by
    have hall : s.waiting_reindeers = REINDEERS_REQ := by
      have hready := h.santa
      cases hplace : s.santa <;> rw [hplace] at hs hready <;>
        first | exact hready | exact absurd hs Bool.false_ne_true
    exact ⟨hall, h.all_counted hall⟩
  helps hs := by
    have hready := h.santa
    cases hplace : s.santa <;> rw [hplace] at hs hready <;>
      first | exact hready | exact hready.1 | exact absurd hs Bool.false_ne_true

/-- In every state that is reached, whatever the schedule and whichever waits end by
themselves, the counters are sound. -/
theorem counters_sound {as : List Action} {s : State} (h : exec step start as = some s) :
    Sound s :=
  (inv_exec h).counted.sound

/-- An elf takes a slot. -/
theorem counters_sound_oneElf :
    ∃ s, exec step start (List.replicate 4 (.run (.elf 0))) = some s ∧
      s.elves 0 = .storing 0 ∧ Sound s :=
  ⟨_, rfl, rfl, @counters_sound (List.replicate 4 (.run (.elf 0))) _ rfl⟩

end Sysopy.Workshop.Monitor
