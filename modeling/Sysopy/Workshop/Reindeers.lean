import Sysopy.Library.Family
import Sysopy.Workshop.Threads

/-!
# The barrier of the reindeers

The reindeers that a delivery lets go look at `waiting_reindeers` again, and the next
round counts with the same variable. A reindeer that comes back before all the others
have looked sends the late ones to wait once more without counting them. The count is
the number of reindeers in the loop as long as every round begins with all of them on
vacation, and one early arrival keeps it below that number for good.
-/
namespace Sysopy.Workshop

open Transition Family

def Reindeer.inLoop : Reindeer → ℕ
  | .vacation => 0
  | .waiting _ => 1

@[simp] theorem Reindeer.inLoop_wake (x : Reindeer) : x.wake.inLoop = x.inLoop := by
  cases x <;> rfl

/-- The number of reindeers in the waiting loop. -/
def State.inside (s : State) : ℕ := total Reindeer.inLoop s.reindeers

/-- All reindeers wait in the loop, nobody wakes them, and the count is not full. -/
def Stuck (s : State) : Prop :=
  s.jobs < MAX_JOBS ∧ (∀ r, s.reindeers r = .waiting .blocked) ∧
    0 < s.waiting_reindeers ∧ s.waiting_reindeers < REINDEERS_REQ

/-- Every reindeer in the loop is counted, once a round has begun. -/
def Counted (s : State) : Prop := 0 < s.waiting_reindeers → s.waiting_reindeers = s.inside

/-- The first reindeer of a round comes when no other is in the loop. -/
def AllAway (s : State) : Thread → Prop
  | .reindeer r => s.reindeers r = .vacation → s.waiting_reindeers = 0 →
      ∀ other, s.reindeers other = .vacation
  | _ => True

/-! ## The number in the loop -/

section Loop

variable {f : Fin REINDEERS_NO → Reindeer} {r : Fin REINDEERS_NO}

theorem total_wake (f : Fin REINDEERS_NO → Reindeer) :
    total Reindeer.inLoop (fun r => (f r).wake) = total Reindeer.inLoop f := by
  simp [total]

theorem total_enter (h : f r = .vacation) (w : Wait) :
    total Reindeer.inLoop (Function.update f r (.waiting w)) = total Reindeer.inLoop f + 1 := by
  have hadd := total_update Reindeer.inLoop f r (.waiting w)
  rw [h] at hadd
  exact hadd

theorem total_stay {v : Wait} (h : f r = .waiting v) (w : Wait) :
    total Reindeer.inLoop (Function.update f r (.waiting w)) = total Reindeer.inLoop f := by
  have hadd := total_update Reindeer.inLoop f r (.waiting w)
  rw [h] at hadd
  exact Nat.add_right_cancel hadd

theorem total_of_blocked (h : ∀ r, f r = .waiting .blocked) :
    total Reindeer.inLoop f = REINDEERS_REQ := by
  obtain rfl : f = fun _ => .waiting .blocked := funext h
  rfl

theorem total_le (f : Fin REINDEERS_NO → Reindeer) : total Reindeer.inLoop f ≤ REINDEERS_REQ := by
  rw [← total_of_blocked (f := fun _ => .waiting .blocked) fun _ => rfl]
  apply Finset.sum_le_sum
  intro r _
  cases f r <;> simp [Reindeer.inLoop]

theorem total_lt (h : f r = .vacation) : total Reindeer.inLoop f < REINDEERS_REQ := by
  have hle := total_le (Function.update f r (.waiting .blocked))
  rw [total_enter h] at hle
  exact hle

end Loop

namespace State

variable {s s' : State} {r : Fin REINDEERS_NO}

theorem waiting_reindeers_arrives (s : State) (r : Fin REINDEERS_NO) :
    (s.reindeerArrives r).waiting_reindeers = s.waiting_reindeers + 1 := by
  rw [reindeerArrives_eq]

theorem inside_arrives (h : s.reindeers r = .vacation) :
    (s.reindeerArrives r).inside = s.inside + 1 := by
  rw [reindeerArrives_eq]
  simp only [inside]
  split_ifs
  · rw [total_enter (by rw [h]; rfl), total_wake]
  · exact total_enter h _

theorem inside_loop (h : s.reindeers r = .waiting .woken) (hpos : 0 < s.waiting_reindeers) :
    (s.reindeerLoop r).inside = s.inside := by
  simp only [inside, reindeerLoop, setReindeer, hpos, if_true]
  exact total_stay h _

end State

/-! ## What holds at every step -/

structure BarrierInv (s : State) : Prop where
  le : s.waiting_reindeers ≤ s.inside
  delivering : s.santa = .delivering → s.waiting_reindeers = REINDEERS_REQ
  jobs : s.santa = .finished ∨ s.jobs < MAX_JOBS
  blocked : ∀ r, s.reindeers r = .waiting .blocked → 0 < s.waiting_reindeers

theorem barrierInv_start : BarrierInv start where
  le := Nat.zero_le _
  delivering := by simp [start]
  jobs := by simp [start, MAX_JOBS]
  blocked := by simp [start]

section Step

variable {s s' : State}

theorem BarrierInv.of_wake (hs : BarrierInv s) (hsanta : s'.santa = s.santa ∨ s'.santa = s.santa.wake)
    (hjobs : s'.jobs = s.jobs) :
    (s'.santa = .delivering → s.waiting_reindeers = REINDEERS_REQ) ∧
    (s'.santa = .finished ∨ s'.jobs < MAX_JOBS) := by
  have hdelivering : s'.santa = .delivering ↔ s.santa = .delivering := by
    rcases hsanta with h | h <;> simp [h]
  have hfinished : s'.santa = .finished ↔ s.santa = .finished := by
    rcases hsanta with h | h <;> simp [h]
  rw [hdelivering, hfinished, hjobs]
  exact ⟨hs.delivering, hs.jobs⟩

theorem BarrierInv.santa (hs : BarrierInv s) (hmutex : s.santa ≠ .finished)
    (h : s.stepSanta = some s') : BarrierInv s' := by
  have hjobs := hs.jobs.resolve_left hmutex
  rcases State.stepSanta_reindeers h with
    ⟨hcount, hreindeers, hsame, hdelivering⟩ | ⟨_, hcount, hreindeers, hnext, hnot, hend⟩
  · constructor
    · rw [hcount, State.inside, hreindeers]
      exact hs.le
    · rw [hcount]
      exact hdelivering
    · exact .inr (hsame ▸ hjobs)
    · rw [hcount, hreindeers]
      exact hs.blocked
  · constructor
    · rw [hcount]
      exact Nat.zero_le _
    · exact fun hdelivering => absurd hdelivering hnot
    · exact hend hjobs
    · intro r hr
      rw [hreindeers] at hr
      exact absurd hr (Reindeer.wake_ne_blocked _)

theorem BarrierInv.reindeer {r : Fin REINDEERS_NO} (hs : BarrierInv s)
    (h : s.stepReindeer r = some s') : BarrierInv s' := by
  have hothers := State.stepReindeer_others h
  obtain ⟨hdelivering, hjobs⟩ := hs.of_wake hothers.santa hothers.jobs
  rcases State.stepReindeer_cases h with ⟨hat, rfl⟩ | ⟨hat, rfl⟩
  · constructor
    · rw [State.inside_arrives hat, State.waiting_reindeers_arrives]
      exact Nat.succ_le_succ hs.le
    · intro hsanta
      -- a delivery has counted all nine, and one of them is on vacation
      have hlt := total_lt hat
      have hle := hs.le
      rw [hdelivering hsanta] at hle
      exact absurd hlt (not_lt_of_ge hle)
    · exact hjobs
    · intro _ _
      rw [State.waiting_reindeers_arrives]
      exact Nat.succ_pos _
  · constructor
    · rcases Nat.eq_zero_or_pos s.waiting_reindeers with hzero | hpos
      · exact hzero.le.trans (Nat.zero_le _)
      · rw [State.inside_loop hat hpos]
        exact hs.le
    · exact hdelivering
    · exact hjobs
    · intro other hother
      by_cases hself : other = r
      · simp only [State.reindeerLoop, State.setReindeer, hself, Function.update_self] at hother
        split_ifs at hother with hpos
        exact hpos
      · simp only [State.reindeerLoop, State.setReindeer, Function.update_of_ne hself] at hother
        exact hs.blocked other hother

theorem BarrierInv.elf {e : Fin ELVES_NO} (hs : BarrierInv s) (h : s.stepElf e = some s') :
    BarrierInv s' := by
  have hothers := State.stepElf_others h
  obtain ⟨hdelivering, hjobs⟩ := hs.of_wake hothers.santa hothers.jobs
  have hle := hs.le
  have hblocked := hs.blocked
  rw [State.inside, ← hothers.waiting_reindeers, ← hothers.reindeers] at hle
  rw [← hothers.waiting_reindeers, ← hothers.reindeers] at hblocked
  rw [← hothers.waiting_reindeers] at hdelivering
  exact ⟨hle, hdelivering, hjobs, hblocked⟩

theorem BarrierInv.step (hs : BarrierInv s) {t : Thread} (h : step s t = some s') :
    BarrierInv s' := by
  obtain ⟨hmutex, h⟩ := step_eq_some.mp h
  cases t with
  | santa => exact hs.santa hmutex h
  | reindeer r => exact hs.reindeer h
  | elf e => exact hs.elf h

/-! ## Rounds -/

/-- Some reindeer in the loop is not counted. -/
def Missed (s : State) : Prop :=
  0 < s.waiting_reindeers ∧ s.waiting_reindeers < s.inside ∧ s.jobs < MAX_JOBS

/-- What one step does to the count: nothing, the arrival of a reindeer that is counted,
or the end of a delivery. -/
theorem count_cases {t : Thread} (h : Workshop.step s t = some s') :
    (s'.waiting_reindeers = s.waiting_reindeers ∧ s'.jobs = s.jobs ∧
      (0 < s.waiting_reindeers → s'.inside = s.inside)) ∨
    (∃ r, t = .reindeer r ∧ s.reindeers r = .vacation ∧ s'.jobs = s.jobs ∧
      s'.waiting_reindeers = s.waiting_reindeers + 1 ∧ s'.inside = s.inside + 1) ∨
    (s.santa = .delivering ∧ s'.waiting_reindeers = 0) := by
  obtain ⟨_, h⟩ := step_eq_some.mp h
  cases t with
  | santa =>
    rcases State.stepSanta_reindeers h with ⟨hcount, hreindeers, hjobs, _⟩ | ⟨hat, hcount, _⟩
    · left
      rw [State.inside, hreindeers]
      exact ⟨hcount, hjobs, fun _ => rfl⟩
    · exact .inr (.inr ⟨hat, hcount⟩)
  | reindeer r =>
    rcases State.stepReindeer_cases h with ⟨hat, rfl⟩ | ⟨hat, rfl⟩
    · exact .inr (.inl ⟨r, rfl, hat, (State.stepReindeer_others h).jobs,
        State.waiting_reindeers_arrives s r, State.inside_arrives hat⟩)
    · exact .inl ⟨rfl, rfl, State.inside_loop hat⟩
  | elf e =>
    have hothers := State.stepElf_others h
    left
    rw [State.inside, hothers.reindeers]
    exact ⟨hothers.waiting_reindeers, hothers.jobs, fun _ => rfl⟩

theorem Counted.step {t : Thread} (hs : Counted s) (haway : AllAway s t)
    (h : Workshop.step s t = some s') : Counted s' := by
  intro hpos
  rcases count_cases h with ⟨hcount, _, hinside⟩ | ⟨r, rfl, hat, _, hcount, hinside⟩ | ⟨_, hzero⟩
  · rw [hcount] at hpos ⊢
    rw [hinside hpos]
    exact hs hpos
  · rw [hcount, hinside]
    rcases Nat.eq_zero_or_pos s.waiting_reindeers with hzero | hpos
    · -- the first of a round is alone in the loop
      have hnone : s.inside = 0 := total_eq_zero fun other => by
        rw [haway hat hzero other]
        rfl
      rw [hzero, hnone]
    · rw [hs hpos]
  · exact absurd hpos (by omega)

theorem inside_pos {r : Fin REINDEERS_NO} (h : s.reindeers r ≠ .vacation) : 0 < s.inside := by
  have hone : 0 < (s.reindeers r).inLoop := by
    cases hcase : s.reindeers r with
    | vacation => exact absurd hcase h
    | waiting w => exact Nat.one_pos
  exact hone.trans_le (le_total (w := Reindeer.inLoop) (fun x => Nat.zero_le _) s.reindeers r)

/-- An early arrival finds somebody in the loop whom the new count leaves out. -/
theorem Missed.of_early {t : Thread} (hs : BarrierInv s) (hearly : ¬ AllAway s t)
    (h : Workshop.step s t = some s') : Missed s' := by
  obtain ⟨hmutex, h⟩ := step_eq_some.mp h
  have hjobs := hs.jobs.resolve_left hmutex
  cases t with
  | reindeer r =>
    simp only [AllAway, not_forall] at hearly
    obtain ⟨hat, hzero, other, hother⟩ := hearly
    have hinside := inside_pos hother
    have hsame := (State.stepReindeer_others h).jobs
    rcases State.stepReindeer_cases h with ⟨_, rfl⟩ | ⟨hwoken, _⟩
    · unfold Missed
      rw [State.waiting_reindeers_arrives, State.inside_arrives hat, hsame, hzero]
      exact ⟨Nat.one_pos, Nat.succ_lt_succ hinside, hjobs⟩
    · rw [hat] at hwoken
      cases hwoken
  | _ => exact absurd trivial hearly

theorem Missed.step {t : Thread} (hs : BarrierInv s) (hmissed : Missed s)
    (h : Workshop.step s t = some s') : Missed s' := by
  obtain ⟨hpos, hlt, hjobs⟩ := hmissed
  unfold Missed
  rcases count_cases h with
    ⟨hcount, hsame, hinside⟩ | ⟨_, _, _, hsame, hcount, hinside⟩ | ⟨hdelivering, _⟩
  · rw [hcount, hsame, hinside hpos]
    exact ⟨hpos, hlt, hjobs⟩
  · rw [hcount, hsame, hinside]
    exact ⟨Nat.succ_pos _, Nat.succ_lt_succ hlt, hjobs⟩
  · -- the count of a delivery is full, and no more than nine are in the loop
    have hle := total_le s.reindeers
    rw [hs.delivering hdelivering] at hlt
    exact absurd hlt (not_lt_of_ge hle)

end Step

/-- The count is right, or forgets a reindeer for good, as every round begins with all
of them on vacation, or one does not. -/
theorem counted_or_missed {schedule : List Thread} {s : State}
    (hrun : exec step start schedule = some s) :
    (Along step AllAway start schedule ∧ Counted s) ∨
    (¬ Along step AllAway start schedule ∧ Missed s) := by
  have hend := exec_kept_or_broken (C := AllAway)
    (P := fun s => BarrierInv s ∧ Counted s) (Q := fun s => BarrierInv s ∧ Missed s)
    (fun s t s' hs haway h => ⟨hs.1.step h, hs.2.step haway h⟩)
    (fun s t s' hs hearly h => ⟨hs.1.step h, Missed.of_early hs.1 hearly h⟩)
    (fun s t s' hs h => ⟨hs.1.step h, hs.2.step hs.1 h⟩)
    ⟨barrierInv_start, fun hpos => absurd hpos (lt_irrefl 0)⟩ hrun
  rcases hend with ⟨halong, _, hcounted⟩ | ⟨halong, _, hmissed⟩
  · exact .inl ⟨halong, hcounted⟩
  · exact .inr ⟨halong, hmissed⟩

theorem not_counted_of_missed {s : State} (h : Missed s) : ¬ Counted s := by
  intro hcounted
  have heq := hcounted h.1
  have hlt := h.2.1
  omega

theorem not_stuck_of_counted {s : State} (h : Counted s) : ¬ Stuck s := by
  rintro ⟨_, hblocked, hpos, hlt⟩
  have heq := h hpos
  rw [State.inside, total_of_blocked hblocked] at heq
  omega

theorem stuck_of_missed {s : State} (h : Missed s) (hblocked : ∀ r, s.reindeers r = .waiting .blocked) :
    Stuck s := by
  obtain ⟨hpos, hlt, hjobs⟩ := h
  rw [State.inside, total_of_blocked hblocked] at hlt
  exact ⟨hjobs, hblocked, hpos, hlt⟩

/-- The count is right as long as every round begins with all reindeers on vacation. All
of them wait in vain exactly when they all wait after a round that began otherwise. -/
theorem counted_and_stuck_iff (schedule : List Thread) (s : State)
    (hrun : exec step start schedule = some s) :
    (Counted s ↔ Along step AllAway start schedule) ∧
    (Stuck s ↔ (∀ r, s.reindeers r = .waiting .blocked) ∧
      ¬ Along step AllAway start schedule) := by
  rcases counted_or_missed hrun with ⟨halong, hcounted⟩ | ⟨halong, hmissed⟩
  · constructor
    · simp only [hcounted, halong]
    · simp only [not_stuck_of_counted hcounted, halong, not_true, and_false]
  · constructor
    · simp only [not_counted_of_missed hmissed, halong]
    · constructor
      · intro hstuck
        exact ⟨hstuck.2.1, halong⟩
      · intro hblocked
        exact stuck_of_missed hmissed hblocked.1

section Decidable

variable (s : State)

instance : Decidable (Stuck s) :=
  inferInstanceAs (Decidable (_ ∧ (∀ r, s.reindeers r = .waiting .blocked) ∧ _ ∧ _))

instance : DecidablePred (AllAway s) := fun t => by
  unfold AllAway
  split <;> infer_instance

end Decidable

def arrivals : List Thread := (List.finRange REINDEERS_NO).map .reindeer

/-- Santa delivers once, and eight of the nine leave the loop. -/
def oneDelivery : List Thread :=
  [.santa] ++ arrivals ++ [.santa, .santa] ++ arrivals.take 8

/-- The first reindeer is back before the ninth has looked at the count, and then the
others come back. -/
def slowReindeer : List Thread :=
  oneDelivery ++ [.reindeer 0, .reindeer 8] ++ (arrivals.take 8).drop 1

theorem stuck_slowReindeer : ∃ s, exec step start slowReindeer = some s ∧ Stuck s := by
  have hend : (exec step start slowReindeer).any (fun s => Stuck s) = true := by decide +kernel
  simpa [Option.any_eq_true] using hend

theorem counted_and_stuck_iff_oneDelivery :
    ∃ s, exec step start oneDelivery = some s ∧
      (Counted s ↔ Along step AllAway start oneDelivery) ∧
      (Stuck s ↔ (∀ r, s.reindeers r = .waiting .blocked) ∧
        ¬ Along step AllAway start oneDelivery) := by
  have hrun : (exec step start oneDelivery).isSome = true := by decide +kernel
  exact ⟨_, (Option.some_get hrun).symm,
    counted_and_stuck_iff oneDelivery _ (Option.some_get hrun).symm⟩

end Sysopy.Workshop
