import Sysopy.Library.Mutex
import Sysopy.Workshop.Threads

/-!
# The Santa problem, statement by statement

Here the statements of the three routines are the steps, the mutex has an owner, and a wait may
end without a signal. A thread at a lock goes on when the mutex is free, and a wait gives the
mutex back and, once woken, is at a lock itself.

A few statements that follow each other under the mutex are one step: what Santa does between his
delivery and the test of `jobs`, a test together with the signal and the broadcast that it guards,
and `waiting_elves++` with the assignment of `i`.
-/
namespace Sysopy.Workshop.Monitor

/-- The next statement of `start_routine_santa`. -/
inductive Santa
  /-- `while (jobs < MAX_JOBS)`. -/
  | head
  | locking
  /-- The head of the waiting loop. -/
  | loop
  | asleep (w : Wait)
  | busy
  /-- `if (waiting_reindeers == REINDEERS_REQ)`. -/
  | reindeerTest
  /-- The unlock of `asynchronized`, and then its lock. -/
  | leaving
  | delivering
  | delivered
  | jobsTest
  /-- `if (waiting_elves == ELVES_REQ)`. -/
  | elfTest
  /-- The head of the loop over the workshop. -/
  | shopLoop (i : ℤ)
  | clearing (i : ℤ)
  | leavingShop
  | solving
  | solved
  | idle
  | unlocking
  | returned
  deriving DecidableEq

/-- The next statement of `start_routine_reindeer`. -/
inductive Reindeer
  /-- On vacation, with the lock next. -/
  | away
  | arriving
  | fullTest
  | loop
  | waiting (w : Wait)
  | unlocking
  deriving DecidableEq

/-- The next statement of `start_routine_elf`, with the local `i` where it is in scope. -/
inductive Elf
  | away
  | fullTest
  | queueTest
  | queued (w : Wait)
  /-- `if (waiting_elves < ELVES_REQ)`. -/
  | choose
  | taking
  | storing (i : ℤ)
  | callTest (i : Option ℤ)
  /-- `if (pthread_equal(workshop[i], id))`. -/
  | equalTest (i : Option ℤ)
  | inShop (w : Wait)
  | unlocking
  deriving DecidableEq

/-! ## Places with the mutex -/

def Santa.holds : Santa → Bool
  | .head | .locking | .asleep _ | .delivering | .solving | .returned => false
  | _ => true

def Reindeer.holds : Reindeer → Bool
  | .away | .waiting _ => false
  | _ => true

def Elf.holds : Elf → Bool
  | .away | .queued _ | .inShop _ => false
  | _ => true

/-! ## Waking -/

def Santa.wake : Santa → Santa
  | .asleep _ => .asleep .woken
  | santa => santa

def Reindeer.wake : Reindeer → Reindeer
  | .waiting _ => .waiting .woken
  | reindeer => reindeer

/-- Both waits of an elf are on `cond_elves`. -/
def Elf.wake : Elf → Elf
  | .queued _ => .queued .woken
  | .inShop _ => .inShop .woken
  | elf => elf

@[simp] theorem Santa.holds_wake (x : Santa) : x.wake.holds = x.holds := by cases x <;> rfl

@[simp] theorem Reindeer.holds_wake (x : Reindeer) : x.wake.holds = x.holds := by cases x <;> rfl

@[simp] theorem Elf.holds_wake (x : Elf) : x.wake.holds = x.holds := by cases x <;> rfl

/-- The globals, the local `jobs` and the next statement of every thread. -/
structure State where
  mutex : Option Thread
  santa_busy : Bool
  waiting_reindeers : ℤ
  waiting_elves : ℤ
  workshop : ℤ → Option (Fin ELVES_NO)
  jobs : ℤ
  santa : Santa
  reindeers : Fin REINDEERS_NO → Reindeer
  elves : Fin ELVES_NO → Elf

def start : State where
  mutex := none
  santa_busy := false
  waiting_reindeers := 0
  waiting_elves := 0
  workshop := fun _ => none
  jobs := 0
  santa := .head
  reindeers := fun _ => .away
  elves := fun _ => .away

namespace State

def setSanta (s : State) (x : Santa) : State := { s with santa := x }

def setReindeer (s : State) (r : Fin REINDEERS_NO) (x : Reindeer) : State :=
  { s with reindeers := Function.update s.reindeers r x }

def setElf (s : State) (e : Fin ELVES_NO) (x : Elf) : State :=
  { s with elves := Function.update s.elves e x }

/-- `pthread_mutex_lock`. -/
def lock (s : State) (t : Thread) : Option State :=
  if s.mutex = none then some { s with mutex := some t } else none

def unlock (s : State) : State := { s with mutex := none }

def signalSanta (s : State) : State := { s with santa := s.santa.wake }

def broadcastReindeers (s : State) : State :=
  { s with reindeers := fun r => (s.reindeers r).wake }

def broadcastElves (s : State) : State := { s with elves := fun e => (s.elves e).wake }

def stepSanta (s : State) : Option State :=
  match s.santa with
  | .head => some (s.setSanta (if s.jobs < MAX_JOBS then .locking else .returned))
  | .locking => (s.lock .santa).map (·.setSanta .loop)
  | .loop =>
    if s.waiting_reindeers < REINDEERS_REQ ∧ s.waiting_elves < ELVES_REQ then
      some (s.unlock.setSanta (.asleep .blocked))
    else some (s.setSanta .busy)
  | .asleep .blocked => none
  | .asleep .woken => (s.lock .santa).map (·.setSanta .loop)
  | .busy => some ({ s with santa_busy := true }.setSanta .reindeerTest)
  | .reindeerTest =>
    some (s.setSanta (if s.waiting_reindeers = REINDEERS_REQ then .leaving else .jobsTest))
  | .leaving => some (s.unlock.setSanta .delivering)
  | .delivering => (s.lock .santa).map (·.setSanta .delivered)
  | .delivered =>
    some ({ s with waiting_reindeers := 0, jobs := s.jobs + 1 }.broadcastReindeers.setSanta
      .jobsTest)
  | .jobsTest => some (s.setSanta (if s.jobs = MAX_JOBS then .returned else .elfTest))
  | .elfTest => some (s.setSanta (if s.waiting_elves = ELVES_REQ then .shopLoop 0 else .idle))
  | .shopLoop i => some (s.setSanta (if i < ELVES_REQ then .clearing i else .leavingShop))
  | .clearing i =>
    some ({ s with workshop := Function.update s.workshop i none }.setSanta (.shopLoop (i + 1)))
  | .leavingShop => some (s.unlock.setSanta .solving)
  | .solving => (s.lock .santa).map (·.setSanta .solved)
  | .solved => some ({ s with waiting_elves := 0 }.broadcastElves.setSanta .idle)
  | .idle => some ({ s with santa_busy := false }.setSanta .unlocking)
  | .unlocking => some (s.unlock.setSanta .head)
  | .returned => none

def stepReindeer (s : State) (r : Fin REINDEERS_NO) : Option State :=
  match s.reindeers r with
  | .away => (s.lock (.reindeer r)).map (·.setReindeer r .arriving)
  | .arriving =>
    some ({ s with waiting_reindeers := s.waiting_reindeers + 1 }.setReindeer r .fullTest)
  | .fullTest =>
    some ((if s.waiting_reindeers = REINDEERS_REQ then s.signalSanta.broadcastReindeers
      else s).setReindeer r .loop)
  | .loop =>
    if 0 < s.waiting_reindeers then some (s.unlock.setReindeer r (.waiting .blocked))
    else some (s.setReindeer r .unlocking)
  | .waiting .blocked => none
  | .waiting .woken => (s.lock (.reindeer r)).map (·.setReindeer r .loop)
  | .unlocking => some (s.unlock.setReindeer r .away)

/-- The last test has no defined outcome where `i` has no value. -/
def stepElf (s : State) (e : Fin ELVES_NO) : Option State :=
  match s.elves e with
  | .away => (s.lock (.elf e)).map (·.setElf e .fullTest)
  | .fullTest => some (s.setElf e (if s.waiting_elves = ELVES_REQ then .queueTest else .choose))
  | .queueTest =>
    if s.waiting_elves = ELVES_REQ then some (s.unlock.setElf e (.queued .blocked))
    else some (s.setElf e .choose)
  | .queued .blocked => none
  | .queued .woken => (s.lock (.elf e)).map (·.setElf e .queueTest)
  | .choose =>
    some (s.setElf e (if s.waiting_elves < ELVES_REQ then .taking else .callTest none))
  | .taking =>
    some ({ s with waiting_elves := s.waiting_elves + 1 }.setElf e (.storing s.waiting_elves))
  | .storing i =>
    some ({ s with workshop := Function.update s.workshop i (some e) }.setElf e
      (.callTest (some i)))
  | .callTest i =>
    some ((if s.waiting_elves = ELVES_REQ then s.broadcastElves.signalSanta else s).setElf e
      (.equalTest i))
  | .equalTest none => none
  | .equalTest (some i) =>
    if s.workshop i = some e then some (s.unlock.setElf e (.inShop .blocked))
    else some (s.setElf e .unlocking)
  | .inShop .blocked => none
  | .inShop .woken => (s.lock (.elf e)).map (·.setElf e .unlocking)
  | .unlocking => some (s.unlock.setElf e .away)

end State

/-- A thread takes its next statement, or its wait ends by itself. -/
inductive Action
  | run (t : Thread)
  | spurious (t : Thread)
  deriving DecidableEq

def step (s : State) : Action → Option State
  | .run .santa => s.stepSanta
  | .run (.reindeer r) => s.stepReindeer r
  | .run (.elf e) => s.stepElf e
  | .spurious .santa => some (s.setSanta s.santa.wake)
  | .spurious (.reindeer r) => some (s.setReindeer r (s.reindeers r).wake)
  | .spurious (.elf e) => some (s.setElf e (s.elves e).wake)

/-! ## The mutex -/

open Mutex

/-- The thread is at a statement between a lock and an unlock. -/
def Holds (s : State) : Thread → Prop
  | .santa => s.santa.holds = true
  | .reindeer r => (s.reindeers r).holds = true
  | .elf e => (s.elves e).holds = true

section Uses

variable {s s' : State}

theorem lock_map_eq_some {t : Thread} {f : State → State} (h : (s.lock t).map f = some s') :
    s.mutex = none ∧ s' = f { s with mutex := some t } := by
  unfold State.lock at h
  split_ifs at h with hfree
  · exact ⟨hfree, (Option.some.inj h).symm⟩
  · cases h

theorem holds_broadcastReindeers (u : Thread) : Holds s.broadcastReindeers u ↔ Holds s u := by
  cases u <;> simp [Holds, State.broadcastReindeers]

theorem holds_broadcastElves (u : Thread) : Holds s.broadcastElves u ↔ Holds s u := by
  cases u <;> simp [Holds, State.broadcastElves]

theorem holds_signalSanta (u : Thread) : Holds s.signalSanta u ↔ Holds s u := by
  cases u <;> simp [Holds, State.signalSanta]

/-- The statement of a thread uses the mutex as it may, and no other thread is at another
place because of it. -/
structure Moves (t : Thread) (s s' : State) : Prop where
  others : ∀ u, u ≠ t → (Holds s' u ↔ Holds s u)
  uses : Uses t s.mutex s'.mutex (Holds s t) (Holds s' t)

theorem moves_setSanta {v : State} (hr : ∀ r, (v.reindeers r).holds = (s.reindeers r).holds)
    (he : ∀ e, (v.elves e).holds = (s.elves e).holds) {x : Santa}
    (h : Uses .santa s.mutex v.mutex (s.santa.holds = true) (x.holds = true)) :
    Moves .santa s (v.setSanta x) where
  others u hu := by
    cases u with
    | santa => exact absurd rfl hu
    | reindeer r => exact Iff.of_eq (congrArg (· = true) (hr r))
    | elf e => exact Iff.of_eq (congrArg (· = true) (he e))
  uses := h

theorem moves_setReindeer {v : State} (hv : ∀ u, Holds v u ↔ Holds s u) {r : Fin REINDEERS_NO}
    {x : Reindeer}
    (h : Uses (.reindeer r) s.mutex v.mutex ((s.reindeers r).holds = true) (x.holds = true)) :
    Moves (.reindeer r) s (v.setReindeer r x) where
  others u hu := by
    rw [← hv u]
    cases u with
    | santa => rfl
    | reindeer r' =>
      have hne : r' ≠ r := fun heq => hu (congrArg Thread.reindeer heq)
      simp [Holds, State.setReindeer, hne]
    | elf e => rfl
  uses := by
    have hself : Holds (v.setReindeer r x) (.reindeer r) ↔ x.holds = true := by
      simp [Holds, State.setReindeer]
    rw [propext hself]
    exact h

theorem moves_setElf {v : State} (hv : ∀ u, Holds v u ↔ Holds s u) {e : Fin ELVES_NO} {x : Elf}
    (h : Uses (.elf e) s.mutex v.mutex ((s.elves e).holds = true) (x.holds = true)) :
    Moves (.elf e) s (v.setElf e x) where
  others u hu := by
    rw [← hv u]
    cases u with
    | santa => rfl
    | reindeer r => rfl
    | elf e' =>
      have hne : e' ≠ e := fun heq => hu (congrArg Thread.elf heq)
      simp [Holds, State.setElf, hne]
  uses := by
    have hself : Holds (v.setElf e x) (.elf e) ↔ x.holds = true := by
      simp [Holds, State.setElf]
    rw [propext hself]
    exact h

theorem stepReindeer_moves {r : Fin REINDEERS_NO} (h : s.stepReindeer r = some s') :
    Moves (.reindeer r) s s' := by
  unfold State.stepReindeer at h
  cases hplace : s.reindeers r with
  | away =>
    rw [hplace] at h
    obtain ⟨hfree, rfl⟩ := lock_map_eq_some h
    exact moves_setReindeer (fun _ => by rfl) (hfree ▸ .lock rfl)
  | arriving =>
    rw [hplace] at h
    obtain rfl := Option.some.inj h
    exact moves_setReindeer (fun _ => by rfl) (.keep (by simp [hplace, Reindeer.holds]))
  | fullTest =>
    rw [hplace] at h
    obtain rfl := Option.some.inj h
    split_ifs
    · exact moves_setReindeer
        (fun u => (holds_broadcastReindeers u).trans (holds_signalSanta u))
        (.keep (by simp [hplace, Reindeer.holds]))
    · exact moves_setReindeer (fun _ => by rfl) (.keep (by simp [hplace, Reindeer.holds]))
  | loop =>
    rw [hplace] at h
    dsimp only at h
    split_ifs at h
    · obtain rfl := Option.some.inj h
      exact moves_setReindeer (fun _ => by rfl) (.unlock (by rw [hplace]; rfl) Bool.false_ne_true)
    · obtain rfl := Option.some.inj h
      exact moves_setReindeer (fun _ => by rfl) (.keep (by simp [hplace, Reindeer.holds]))
  | waiting w =>
    rw [hplace] at h
    cases w with
    | blocked => cases h
    | woken =>
      obtain ⟨hfree, rfl⟩ := lock_map_eq_some h
      exact moves_setReindeer (fun _ => by rfl) (hfree ▸ .lock rfl)
  | unlocking =>
    rw [hplace] at h
    obtain rfl := Option.some.inj h
    exact moves_setReindeer (fun _ => by rfl) (.unlock (by rw [hplace]; rfl) Bool.false_ne_true)

theorem stepElf_moves {e : Fin ELVES_NO} (h : s.stepElf e = some s') : Moves (.elf e) s s' := by
  unfold State.stepElf at h
  cases hplace : s.elves e with
  | away =>
    rw [hplace] at h
    obtain ⟨hfree, rfl⟩ := lock_map_eq_some h
    exact moves_setElf (fun _ => by rfl) (hfree ▸ .lock rfl)
  | fullTest | choose =>
    rw [hplace] at h
    obtain rfl := Option.some.inj h
    refine moves_setElf (fun _ => by rfl) (.keep ?_)
    split_ifs <;> simp [hplace, Elf.holds]
  | queueTest =>
    rw [hplace] at h
    dsimp only at h
    split_ifs at h
    · obtain rfl := Option.some.inj h
      exact moves_setElf (fun _ => by rfl) (.unlock (by rw [hplace]; rfl) Bool.false_ne_true)
    · obtain rfl := Option.some.inj h
      exact moves_setElf (fun _ => by rfl) (.keep (by simp [hplace, Elf.holds]))
  | queued w | inShop w =>
    rw [hplace] at h
    cases w with
    | blocked => cases h
    | woken =>
      obtain ⟨hfree, rfl⟩ := lock_map_eq_some h
      exact moves_setElf (fun _ => by rfl) (hfree ▸ .lock rfl)
  | taking | storing i =>
    rw [hplace] at h
    obtain rfl := Option.some.inj h
    exact moves_setElf (fun _ => by rfl) (.keep (by simp [hplace, Elf.holds]))
  | callTest i =>
    rw [hplace] at h
    obtain rfl := Option.some.inj h
    split_ifs
    · exact moves_setElf (fun u => (holds_signalSanta u).trans (holds_broadcastElves u))
        (.keep (by simp [hplace, Elf.holds]))
    · exact moves_setElf (fun _ => by rfl) (.keep (by simp [hplace, Elf.holds]))
  | equalTest i =>
    rw [hplace] at h
    cases i with
    | none => cases h
    | some i =>
      dsimp only at h
      split_ifs at h
      · obtain rfl := Option.some.inj h
        exact moves_setElf (fun _ => by rfl) (.unlock (by rw [hplace]; rfl) Bool.false_ne_true)
      · obtain rfl := Option.some.inj h
        exact moves_setElf (fun _ => by rfl) (.keep (by simp [hplace, Elf.holds]))
  | unlocking =>
    rw [hplace] at h
    obtain rfl := Option.some.inj h
    exact moves_setElf (fun _ => by rfl) (.unlock (by rw [hplace]; rfl) Bool.false_ne_true)

/-- Santa leaves the loop, and the block, by `break`. -/
def Breaks (s : State) : Prop := s.santa = .jobsTest ∧ s.jobs = MAX_JOBS

theorem stepSanta_of_breaks (hbreak : Breaks s) : s.stepSanta = some (s.setSanta .returned) := by
  rw [State.stepSanta, hbreak.1]
  dsimp only
  rw [if_pos hbreak.2]

theorem stepSanta_moves (hbreak : ¬ Breaks s) (h : s.stepSanta = some s') : Moves .santa s s' := by
  unfold State.stepSanta at h
  cases hplace : s.santa with
  | head | reindeerTest | elfTest | shopLoop i =>
    rw [hplace] at h
    obtain rfl := Option.some.inj h
    refine moves_setSanta (fun _ => by rfl) (fun _ => by rfl) (.keep ?_)
    split_ifs <;> simp [hplace, Santa.holds]
  | jobsTest =>
    rw [hplace] at h
    dsimp only at h
    rw [if_neg fun hjobs => hbreak ⟨hplace, hjobs⟩] at h
    obtain rfl := Option.some.inj h
    exact moves_setSanta (fun _ => by rfl) (fun _ => by rfl) (.keep (by simp [hplace, Santa.holds]))
  | locking | delivering | solving =>
    rw [hplace] at h
    obtain ⟨hfree, rfl⟩ := lock_map_eq_some h
    exact moves_setSanta (fun _ => by rfl) (fun _ => by rfl) (hfree ▸ .lock rfl)
  | loop =>
    rw [hplace] at h
    dsimp only at h
    split_ifs at h
    · obtain rfl := Option.some.inj h
      exact moves_setSanta (fun _ => by rfl) (fun _ => by rfl) (.unlock (by rw [hplace]; rfl) Bool.false_ne_true)
    · obtain rfl := Option.some.inj h
      exact moves_setSanta (fun _ => by rfl) (fun _ => by rfl) (.keep (by simp [hplace, Santa.holds]))
  | asleep w =>
    rw [hplace] at h
    cases w with
    | blocked => cases h
    | woken =>
      obtain ⟨hfree, rfl⟩ := lock_map_eq_some h
      exact moves_setSanta (fun _ => by rfl) (fun _ => by rfl) (hfree ▸ .lock rfl)
  | busy | clearing i | idle =>
    rw [hplace] at h
    obtain rfl := Option.some.inj h
    exact moves_setSanta (fun _ => by rfl) (fun _ => by rfl) (.keep (by simp [hplace, Santa.holds]))
  | delivered =>
    rw [hplace] at h
    obtain rfl := Option.some.inj h
    exact moves_setSanta (fun _ => by exact Reindeer.holds_wake _) (fun _ => by rfl)
      (.keep (by simp [hplace, Santa.holds]))
  | solved =>
    rw [hplace] at h
    obtain rfl := Option.some.inj h
    exact moves_setSanta (fun _ => by rfl) (fun _ => by exact Elf.holds_wake _)
      (.keep (by simp [hplace, Santa.holds]))
  | leaving | leavingShop | unlocking =>
    rw [hplace] at h
    obtain rfl := Option.some.inj h
    exact moves_setSanta (fun _ => by rfl) (fun _ => by rfl) (.unlock (by rw [hplace]; rfl) Bool.false_ne_true)
  | returned =>
    rw [hplace] at h
    cases h

/-- A wait that ends by itself uses the mutex in no way. -/
theorem spurious_moves {t : Thread} (h : step s (.spurious t) = some s') : Moves t s s' := by
  cases t with
  | santa =>
    obtain rfl := Option.some.inj h
    exact moves_setSanta (fun _ => by rfl) (fun _ => by rfl) (.keep (by simp))
  | reindeer r =>
    obtain rfl := Option.some.inj h
    exact moves_setReindeer (fun _ => by rfl) (.keep (by simp))
  | elf e =>
    obtain rfl := Option.some.inj h
    exact moves_setElf (fun _ => by rfl) (.keep (by simp))

end Uses

def Action.thread : Action → Thread
  | .run t | .spurious t => t

/-- The step is the statement at which Santa ends. -/
def Ends (s : State) (a : Action) : Prop := a = .run .santa ∧ Breaks s

theorem step_moves {s s' : State} {a : Action} (hend : ¬ Ends s a) (h : step s a = some s') :
    Moves a.thread s s' := by
  cases a with
  | run t =>
    cases t with
    | santa => exact stepSanta_moves (fun hbreak => hend ⟨rfl, hbreak⟩) h
    | reindeer r => exact stepReindeer_moves h
    | elf e => exact stepElf_moves h
  | spurious t => exact spurious_moves h

end Sysopy.Workshop.Monitor
