import Mathlib.Tactic
import Sysopy.Library.Transition

/-!
# Santa, his reindeers and his elves

The threads of the Santa problem share two counters under one mutex and meet on three
condition variables. A step of the model is the stretch of one thread between two
operations on the mutex or two waits, so the mutex is free at every step, unless Santa
has left with it. A wait ends by a signal or a broadcast, which makes the thread woken,
and the thread goes on when it gets the mutex back.
-/
namespace Sysopy.Workshop

open Transition

def ELVES_NO : ℕ := 10
def REINDEERS_NO : ℕ := 9
def ELVES_REQ : ℕ := 3
def REINDEERS_REQ : ℕ := 9
def MAX_JOBS : ℕ := 3

instance : NeZero ELVES_NO := ⟨by decide⟩

instance : NeZero REINDEERS_NO := ⟨by decide⟩

/-- A thread in `pthread_cond_wait`. A woken one has yet to get the mutex back. -/
inductive Wait
  | blocked
  | woken
  deriving DecidableEq

inductive Santa
  | start
  | sleeping (w : Wait)
  /-- In `asynchronized`, without the mutex. -/
  | delivering
  | solving
  /-- Left the loop by `break`, which keeps the mutex for good. -/
  | finished
  | returned
  deriving DecidableEq

inductive Reindeer
  | vacation
  | waiting (w : Wait)
  deriving DecidableEq

inductive Elf
  | working
  /-- In the wait for the return of the elves. -/
  | queued (w : Wait)
  /-- In the wait at the end of the routine. -/
  | inShop (w : Wait)
  deriving DecidableEq

def Santa.wake : Santa → Santa
  | .sleeping _ => .sleeping .woken
  | santa => santa

def Reindeer.wake : Reindeer → Reindeer
  | .vacation => .vacation
  | .waiting _ => .waiting .woken

/-- Both waits of an elf are on `cond_elves`. -/
def Elf.wake : Elf → Elf
  | .working => .working
  | .queued _ => .queued .woken
  | .inShop _ => .inShop .woken

/-- What happens to `waiting_elves`: an elf takes a slot, or Santa resets the counter. -/
inductive Event
  | took (e : Fin ELVES_NO)
  | reset
  deriving DecidableEq

/-- The globals, the local `jobs` and the place of every thread. The log, newest first,
is read by no step. -/
structure State where
  santa_busy : Bool
  waiting_reindeers : ℕ
  waiting_elves : ℕ
  workshop : Fin ELVES_REQ → Option (Fin ELVES_NO)
  jobs : ℕ
  santa : Santa
  reindeers : Fin REINDEERS_NO → Reindeer
  elves : Fin ELVES_NO → Elf
  log : List Event

def start : State where
  santa_busy := false
  waiting_reindeers := 0
  waiting_elves := 0
  workshop := fun _ => none
  jobs := 0
  santa := .start
  reindeers := fun _ => .vacation
  elves := fun _ => .working
  log := []

namespace State

def signalSanta (s : State) : State := { s with santa := s.santa.wake }

def broadcastReindeers (s : State) : State :=
  { s with reindeers := fun r => (s.reindeers r).wake }

def broadcastElves (s : State) : State := { s with elves := fun e => (s.elves e).wake }

def setReindeer (s : State) (r : Fin REINDEERS_NO) (x : Reindeer) : State :=
  { s with reindeers := Function.update s.reindeers r x }

def setElf (s : State) (e : Fin ELVES_NO) (x : Elf) : State :=
  { s with elves := Function.update s.elves e x }

/-! ## `start_routine_santa` -/

/-- The end of the block. -/
def leave (s : State) : State := { s with santa_busy := false, santa := .start }

/-- From the return of the mutex after the problems of the elves. -/
def solved (s : State) : State :=
  leave (broadcastElves { s with waiting_elves := 0, log := .reset :: s.log })

/-- From `if (jobs == MAX_JOBS)`. -/
def afterReindeers (s : State) : State :=
  if s.jobs = MAX_JOBS then { s with santa := .finished }
  else if s.waiting_elves = ELVES_REQ then { s with workshop := fun _ => none, santa := .solving }
  else leave s

/-- From the return of the mutex after the delivery. -/
def delivered (s : State) : State :=
  afterReindeers (broadcastReindeers { s with waiting_reindeers := 0, jobs := s.jobs + 1 })

/-- From the end of the waiting loop. -/
def awake (s : State) : State :=
  if s.waiting_reindeers = REINDEERS_REQ then
    { s with santa_busy := true, santa := .delivering }
  else afterReindeers { s with santa_busy := true }

/-- The head of the waiting loop. -/
def santaLoop (s : State) : State :=
  if s.waiting_reindeers < REINDEERS_REQ ∧ s.waiting_elves < ELVES_REQ then
    { s with santa := .sleeping .blocked }
  else awake s

def stepSanta (s : State) : Option State :=
  match s.santa with
  | .start => some (if s.jobs < MAX_JOBS then santaLoop s else { s with santa := .returned })
  | .sleeping .woken => some (santaLoop s)
  | .delivering => some (delivered s)
  | .solving => some (solved s)
  | .sleeping .blocked | .finished | .returned => none

/-! ## `start_routine_reindeer` -/

/-- The head of the waiting loop. -/
def reindeerLoop (s : State) (r : Fin REINDEERS_NO) : State :=
  s.setReindeer r (if 0 < s.waiting_reindeers then .waiting .blocked else .vacation)

def reindeerArrives (s : State) (r : Fin REINDEERS_NO) : State :=
  let s := { s with waiting_reindeers := s.waiting_reindeers + 1 }
  let s := if s.waiting_reindeers = REINDEERS_REQ then s.signalSanta.broadcastReindeers else s
  s.reindeerLoop r

def stepReindeer (s : State) (r : Fin REINDEERS_NO) : Option State :=
  match s.reindeers r with
  | .vacation => some (s.reindeerArrives r)
  | .waiting .woken => some (s.reindeerLoop r)
  | .waiting .blocked => none

/-! ## `start_routine_elf` -/

/-- From `int i`. Without a slot the routine would read `i` with no value in it. -/
def takeSlot (s : State) (e : Fin ELVES_NO) : Option State :=
  if h : s.waiting_elves < ELVES_REQ then
    let i : Fin ELVES_REQ := ⟨s.waiting_elves, h⟩
    let s := { s with
      waiting_elves := s.waiting_elves + 1
      workshop := Function.update s.workshop i (some e)
      log := .took e :: s.log }
    let s := if s.waiting_elves = ELVES_REQ then s.broadcastElves.signalSanta else s
    some (s.setElf e (if s.workshop i = some e then .inShop .blocked else .working))
  else none

/-- The head of the wait for the return of the elves. -/
def elfLoop (s : State) (e : Fin ELVES_NO) : Option State :=
  if s.waiting_elves = ELVES_REQ then some (s.setElf e (.queued .blocked)) else s.takeSlot e

def stepElf (s : State) (e : Fin ELVES_NO) : Option State :=
  match s.elves e with
  | .working | .queued .woken => s.elfLoop e
  | .inShop .woken => some (s.setElf e .working)
  | .queued .blocked | .inShop .blocked => none

end State

inductive Thread
  | santa
  | reindeer (r : Fin REINDEERS_NO)
  | elf (e : Fin ELVES_NO)
  deriving DecidableEq

/-- The next stretch of the thread. -/
def State.stretch (s : State) : Thread → Option State
  | .santa => s.stepSanta
  | .reindeer r => s.stepReindeer r
  | .elf e => s.stepElf e

/-- No thread gets the mutex that Santa left with. -/
def step (s : State) (t : Thread) : Option State :=
  if s.santa = .finished then none else s.stretch t

theorem step_eq_some {s s' : State} {t : Thread} :
    step s t = some s' ↔ s.santa ≠ .finished ∧ s.stretch t = some s' := by
  unfold step
  split_ifs with hfinished <;> simp [hfinished]

@[simp] theorem Santa.wake_eq_delivering {x : Santa} : x.wake = .delivering ↔ x = .delivering := by
  cases x <;> simp [Santa.wake]

@[simp] theorem Santa.wake_eq_finished {x : Santa} : x.wake = .finished ↔ x = .finished := by
  cases x <;> simp [Santa.wake]

@[simp] theorem Reindeer.wake_ne_blocked (x : Reindeer) : x.wake ≠ .waiting .blocked := by
  cases x <;> simp [Reindeer.wake]

@[simp] theorem Elf.wake_ne_blocked (x : Elf) : x.wake ≠ .inShop .blocked := by
  cases x <;> simp [Elf.wake]

/-! ## What a step changes -/

/-- The stretch leaves both groups as they are. -/
structure Kept (s s' : State) : Prop where
  waiting_reindeers : s'.waiting_reindeers = s.waiting_reindeers
  reindeers : s'.reindeers = s.reindeers
  jobs : s'.jobs = s.jobs
  waiting_elves : s'.waiting_elves = s.waiting_elves
  elves : s'.elves = s.elves
  log : s'.log = s.log

namespace State

variable {s s' : State}

theorem afterReindeers_kept (s : State) : Kept s s.afterReindeers := by
  unfold afterReindeers leave
  split_ifs <;> constructor <;> rfl

theorem santaLoop_kept (s : State) : Kept s s.santaLoop := by
  unfold santaLoop awake
  split_ifs
  · constructor <;> rfl
  · constructor <;> rfl
  · obtain ⟨h₁, h₂, h₃, h₄, h₅, h₆⟩ := afterReindeers_kept { s with santa_busy := true }
    exact ⟨h₁, h₂, h₃, h₄, h₅, h₆⟩

theorem afterReindeers_not_delivering (s : State) : s.afterReindeers.santa ≠ .delivering := by
  unfold afterReindeers leave
  split_ifs <;> simp

theorem finished_afterReindeers (h : s.jobs ≤ MAX_JOBS) :
    s.afterReindeers.santa = .finished ∨ s.afterReindeers.jobs < MAX_JOBS := by
  by_cases hjobs : s.jobs = MAX_JOBS
  · left
    simp [afterReindeers, hjobs]
  · right
    rw [(afterReindeers_kept s).jobs]
    exact lt_of_le_of_ne h hjobs

theorem santaLoop_delivering (h : s.santaLoop.santa = .delivering) :
    s.waiting_reindeers = REINDEERS_REQ := by
  unfold santaLoop awake at h
  split_ifs at h with _ hall
  · exact hall
  · exact absurd h (afterReindeers_not_delivering _)

theorem stepSanta_reindeers (h : s.stepSanta = some s') :
    (s'.waiting_reindeers = s.waiting_reindeers ∧ s'.reindeers = s.reindeers ∧ s'.jobs = s.jobs ∧
      (s'.santa = .delivering → s.waiting_reindeers = REINDEERS_REQ)) ∨
    (s.santa = .delivering ∧ s'.waiting_reindeers = 0 ∧
      (s'.reindeers = fun r => (s.reindeers r).wake) ∧ s'.jobs = s.jobs + 1 ∧
      s'.santa ≠ .delivering ∧ (s.jobs < MAX_JOBS → s'.santa = .finished ∨ s'.jobs < MAX_JOBS)) := by
  have hloop := santaLoop_kept s
  unfold stepSanta at h
  split at h
  · cases h
    left
    split_ifs
    · exact ⟨hloop.waiting_reindeers, hloop.reindeers, hloop.jobs, santaLoop_delivering⟩
    · simp
  · cases h
    exact .inl ⟨hloop.waiting_reindeers, hloop.reindeers, hloop.jobs, santaLoop_delivering⟩
  · cases h
    right
    unfold delivered
    have hkept := afterReindeers_kept
      (broadcastReindeers { s with waiting_reindeers := 0, jobs := s.jobs + 1 })
    exact ⟨‹_›, hkept.waiting_reindeers, hkept.reindeers, hkept.jobs,
      afterReindeers_not_delivering _, fun hjobs => finished_afterReindeers hjobs⟩
  · cases h
    left
    simp [solved, leave, broadcastElves]
  all_goals cases h

theorem stepSanta_elves (h : s.stepSanta = some s') :
    (s'.waiting_elves = s.waiting_elves ∧ s'.elves = s.elves ∧ s'.log = s.log) ∨
    (s'.waiting_elves = 0 ∧ (s'.elves = fun e => (s.elves e).wake) ∧
      s'.log = .reset :: s.log) := by
  have hloop := santaLoop_kept s
  unfold stepSanta at h
  split at h
  · cases h
    left
    split_ifs
    · exact ⟨hloop.waiting_elves, hloop.elves, hloop.log⟩
    · simp
  · cases h
    exact .inl ⟨hloop.waiting_elves, hloop.elves, hloop.log⟩
  · cases h
    have hkept := afterReindeers_kept
      (broadcastReindeers { s with waiting_reindeers := 0, jobs := s.jobs + 1 })
    exact .inl ⟨hkept.waiting_elves, hkept.elves, hkept.log⟩
  · cases h
    right
    simp [solved, leave, broadcastElves]
  all_goals cases h

theorem stepReindeer_cases {r : Fin REINDEERS_NO} (h : s.stepReindeer r = some s') :
    (s.reindeers r = .vacation ∧ s' = s.reindeerArrives r) ∨
    (s.reindeers r = .waiting .woken ∧ s' = s.reindeerLoop r) := by
  unfold stepReindeer at h
  split at h
  · cases h
    exact .inl ⟨‹_›, rfl⟩
  · cases h
    exact .inr ⟨‹_›, rfl⟩
  · cases h

theorem reindeerArrives_eq (s : State) (r : Fin REINDEERS_NO) :
    s.reindeerArrives r = { s with
      waiting_reindeers := s.waiting_reindeers + 1
      santa := if s.waiting_reindeers + 1 = REINDEERS_REQ then s.santa.wake else s.santa
      reindeers := Function.update
        (if s.waiting_reindeers + 1 = REINDEERS_REQ then fun r => (s.reindeers r).wake
          else s.reindeers) r (.waiting .blocked) } := by
  unfold reindeerArrives reindeerLoop
  by_cases hfull : s.waiting_reindeers + 1 = REINDEERS_REQ
  · simp [hfull, signalSanta, broadcastReindeers, setReindeer, REINDEERS_REQ]
  · simp [hfull, setReindeer]

/-- A reindeer changes no elf, and of Santa only his sleep. -/
structure OfReindeer (s s' : State) : Prop where
  santa : s'.santa = s.santa ∨ s'.santa = s.santa.wake
  jobs : s'.jobs = s.jobs
  waiting_elves : s'.waiting_elves = s.waiting_elves
  elves : s'.elves = s.elves
  log : s'.log = s.log

theorem stepReindeer_others {r : Fin REINDEERS_NO} (h : s.stepReindeer r = some s') :
    OfReindeer s s' := by
  rcases stepReindeer_cases h with ⟨_, rfl⟩ | ⟨_, rfl⟩
  · rw [reindeerArrives_eq]
    refine ⟨?_, rfl, rfl, rfl, rfl⟩
    split_ifs
    · exact .inr rfl
    · exact .inl rfl
  · exact ⟨.inl rfl, rfl, rfl, rfl, rfl⟩

theorem takeSlot_eq_some {e : Fin ELVES_NO} (h : s.takeSlot e = some s') :
    ∃ hfree : s.waiting_elves < ELVES_REQ, s' = { s with
      waiting_elves := s.waiting_elves + 1
      workshop := Function.update s.workshop ⟨s.waiting_elves, hfree⟩ (some e)
      santa := if s.waiting_elves + 1 = ELVES_REQ then s.santa.wake else s.santa
      elves := Function.update
        (if s.waiting_elves + 1 = ELVES_REQ then fun e => (s.elves e).wake else s.elves)
        e (.inShop .blocked)
      log := .took e :: s.log } := by
  unfold takeSlot at h
  split at h
  · rename_i hfree
    refine ⟨hfree, ?_⟩
    rw [← Option.some.inj h]
    by_cases hfull : s.waiting_elves + 1 = ELVES_REQ
    · simp [hfull, broadcastElves, signalSanta, setElf]
    · simp [hfull, setElf]
  · cases h

/-- An elf queues, takes a slot or leaves the wait at the end. -/
theorem stepElf_cases {e : Fin ELVES_NO} (h : s.stepElf e = some s') :
    s' = s.setElf e (.queued .blocked) ∨ s.takeSlot e = some s' ∨
    (s.elves e = .inShop .woken ∧ s' = s.setElf e .working) := by
  have hloop : s.elfLoop e = some s' →
      s' = s.setElf e (.queued .blocked) ∨ s.takeSlot e = some s' := by
    intro h
    unfold elfLoop at h
    split_ifs at h
    · exact .inl (Option.some.inj h).symm
    · exact .inr h
  unfold stepElf at h
  split at h
  · rcases hloop h with hqueue | htake
    · exact .inl hqueue
    · exact .inr (.inl htake)
  · rcases hloop h with hqueue | htake
    · exact .inl hqueue
    · exact .inr (.inl htake)
  · exact .inr (.inr ⟨‹_›, (Option.some.inj h).symm⟩)
  all_goals cases h

/-- An elf changes no reindeer, and of Santa only his sleep. -/
structure OfElf (s s' : State) : Prop where
  santa : s'.santa = s.santa ∨ s'.santa = s.santa.wake
  jobs : s'.jobs = s.jobs
  waiting_reindeers : s'.waiting_reindeers = s.waiting_reindeers
  reindeers : s'.reindeers = s.reindeers

theorem stepElf_others {e : Fin ELVES_NO} (h : s.stepElf e = some s') : OfElf s s' := by
  rcases stepElf_cases h with rfl | htake | ⟨_, rfl⟩
  · exact ⟨.inl rfl, rfl, rfl, rfl⟩
  · obtain ⟨_, rfl⟩ := takeSlot_eq_some htake
    refine ⟨?_, rfl, rfl, rfl⟩
    dsimp only
    split_ifs
    · exact .inr rfl
    · exact .inl rfl
  · exact ⟨.inl rfl, rfl, rfl, rfl⟩

end State

end Sysopy.Workshop
