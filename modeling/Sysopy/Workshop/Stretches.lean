import Sysopy.Workshop.Counters
import Sysopy.Workshop.Elves
import Sysopy.Workshop.Reindeers

/-!
# Stretches of statements

A step of the model by stretches is a run of one thread, statement by statement, in which no
other thread moves: the thread takes the mutex and keeps it to the end of the stretch. Santa may
have to test `jobs` before.
-/
namespace Sysopy.Workshop.Monitor

open Transition

/-- The next statement of a thread. No wait ends by itself. -/
def run (s : State) (t : Thread) : Option State := step s (.run t)

/-- The thread keeps the mutex on the way to the second state. -/
abbrev Section (t : Thread) : State → State → Prop := Through run (fun s => s.mutex = some t) t

/-! ## The states between two stretches -/

/-- The two ends differ in the mutex only. -/
def Santa.ofStretch : Workshop.Santa → Santa
  | .start => .head
  | .sleeping w => .asleep w
  | .delivering => .delivering
  | .solving => .solving
  | .finished | .returned => .returned

def Reindeer.ofStretch : Workshop.Reindeer → Reindeer
  | .vacation => .away
  | .waiting w => .waiting w

def Elf.ofStretch : Workshop.Elf → Elf
  | .working => .away
  | .queued w => .queued w
  | .inShop w => .inShop w

/-- The array with the indices of the source; behind its ends there is nothing. -/
def shopOf (workshop : Fin ELVES_REQ → Option (Fin ELVES_NO)) (i : ℤ) : Option (Fin ELVES_NO) :=
  if h : 0 ≤ i ∧ i < ELVES_REQ then workshop ⟨i.toNat, by omega⟩ else none

def State.ofStretch (s : Workshop.State) : State where
  mutex := if s.santa = .finished then some .santa else none
  santa_busy := s.santa_busy
  waiting_reindeers := s.waiting_reindeers
  waiting_elves := s.waiting_elves
  workshop := shopOf s.workshop
  jobs := s.jobs
  santa := .ofStretch s.santa
  reindeers := fun r => .ofStretch (s.reindeers r)
  elves := fun e => .ofStretch (s.elves e)

/-- Santa has the mutex at the statement. -/
def State.insideSanta (s : Workshop.State) (x : Santa) : State :=
  { State.ofStretch s with mutex := some .santa, santa := x }

/-- Santa has tested `jobs`, if that is what comes first. -/
def State.atLock (s : State) : Thread → State
  | .santa => if s.santa = .head then s.setSanta .locking else s
  | _ => s

/-- Another thread has it, and everything else is as between two stretches. -/
def State.inside (s : Workshop.State) (t : Thread) : State :=
  { State.ofStretch s with mutex := some t }

section Places

@[simp] theorem Santa.ofStretch_wake (x : Workshop.Santa) :
    Santa.ofStretch x.wake = (Santa.ofStretch x).wake := by
  cases x <;> rfl

@[simp] theorem Reindeer.ofStretch_wake (x : Workshop.Reindeer) :
    Reindeer.ofStretch x.wake = (Reindeer.ofStretch x).wake := by
  cases x <;> rfl

@[simp] theorem Elf.ofStretch_wake (x : Workshop.Elf) :
    Elf.ofStretch x.wake = (Elf.ofStretch x).wake := by
  cases x <;> rfl

theorem shopOf_none : shopOf (fun _ => none) = fun _ => none := by
  funext i
  simp [shopOf]

theorem shopOf_update (workshop : Fin ELVES_REQ → Option (Fin ELVES_NO)) (i : Fin ELVES_REQ)
    (e : Option (Fin ELVES_NO)) :
    shopOf (Function.update workshop i e) = Function.update (shopOf workshop) i e := by
  funext j
  by_cases hj : j = i
  · subst hj
    simp [shopOf]
  · rw [Function.update_of_ne hj, shopOf, shopOf]
    split_ifs with hbounds
    · rw [Function.update_of_ne]
      intro heq
      have hval := congrArg Fin.val heq
      dsimp only at hval
      omega
    · rfl

end Places

/-- Between two stretches the mutex is free, unless Santa has left with it. -/
theorem mutex_ofStretch {s : Workshop.State} (hfinished : s.santa ≠ .finished) :
    (State.ofStretch s).mutex = none :=
  if_neg hfinished

theorem lock_map_of_free {s : State} (hfree : s.mutex = none) (t : Thread) (f : State → State) :
    (s.lock t).map f = some (f { s with mutex := some t }) := by
  rw [State.lock, if_pos hfree]
  rfl

/-! ## Santa -/

section Santa

variable (s : Workshop.State)

theorem loop_insideSanta : step (.insideSanta s .loop) (.run .santa) =
    some (if s.waiting_reindeers < REINDEERS_REQ ∧ s.waiting_elves < ELVES_REQ then
      .ofStretch { s with santa := .sleeping .blocked } else .insideSanta s .busy) := by
  have htest : (s.waiting_reindeers : ℤ) < REINDEERS_REQ ∧ (s.waiting_elves : ℤ) < ELVES_REQ ↔
      s.waiting_reindeers < REINDEERS_REQ ∧ s.waiting_elves < ELVES_REQ := by
    rw [Nat.cast_lt, Nat.cast_lt]
  change (if (s.waiting_reindeers : ℤ) < REINDEERS_REQ ∧ (s.waiting_elves : ℤ) < ELVES_REQ then
    some (State.ofStretch { s with santa := .sleeping .blocked })
    else some (.insideSanta s .busy)) = _
  rw [if_congr htest rfl rfl]
  split_ifs <;> rfl

theorem reindeerTest_insideSanta : step (.insideSanta s .reindeerTest) (.run .santa) =
    some (.insideSanta s
      (if s.waiting_reindeers = REINDEERS_REQ then .leaving else .jobsTest)) := by
  rw [← if_congr (Nat.cast_inj (R := ℤ)) rfl rfl]
  rfl

theorem jobsTest_insideSanta : step (.insideSanta s .jobsTest) (.run .santa) =
    some (.insideSanta s (if s.jobs = MAX_JOBS then .returned else .elfTest)) := by
  rw [← if_congr (Nat.cast_inj (R := ℤ)) rfl rfl]
  rfl

theorem elfTest_insideSanta : step (.insideSanta s .elfTest) (.run .santa) =
    some (.insideSanta s (if s.waiting_elves = ELVES_REQ then .shopLoop 0 else .idle)) := by
  rw [← if_congr (Nat.cast_inj (R := ℤ)) rfl rfl]
  rfl

theorem idle_leave : Section .santa (.insideSanta s .idle) (.ofStretch s.leave) :=
  .head (u := .insideSanta { s with santa_busy := false } .unlocking) rfl rfl (.head rfl rfl (.refl _))

theorem shopLoop_succ (i : Fin ELVES_REQ) :
    Section .santa (.insideSanta s (.shopLoop (i : ℕ)))
      (.insideSanta { s with workshop := Function.update s.workshop i none }
        (.shopLoop ((i : ℕ) + 1))) := by
  have hi : ((i : ℕ) : ℤ) < ELVES_REQ := Nat.cast_lt.mpr i.isLt
  have hshop := shopOf_update s.workshop i none
  refine .head (u := .insideSanta s (.clearing (i : ℕ))) rfl ?_ (.head rfl ?_ (.refl _))
  · exact congrArg (fun x => some (State.insideSanta s x)) (if_pos hi)
  · simp [run, step, State.stepSanta, State.insideSanta, State.ofStretch, State.setSanta, hshop]

theorem shopLoop_rounds (n : ℕ) {k : ℕ} (hk : k + n = ELVES_REQ) :
    Section .santa (.insideSanta s (.shopLoop k))
      (.insideSanta { s with
        workshop := fun j : Fin ELVES_REQ => if (j : ℕ) < k then s.workshop j else none }
        (.shopLoop ELVES_REQ)) := by
  induction n generalizing s k with
  | zero =>
    obtain rfl : k = ELVES_REQ := hk
    simp only [Fin.is_lt, if_true]
    exact .refl _
  | succ n ih =>
    have hlt : k < ELVES_REQ := by omega
    have hrest := ih { s with workshop := Function.update s.workshop ⟨k, hlt⟩ none }
      (by omega : k + 1 + n = ELVES_REQ)
    have hshop : (fun j : Fin ELVES_REQ =>
        if (j : ℕ) < k + 1 then Function.update s.workshop ⟨k, hlt⟩ none j else none) =
        fun j : Fin ELVES_REQ => if (j : ℕ) < k then s.workshop j else none := by
      funext j
      rcases Nat.lt_trichotomy j k with hj | hj | hj
      · rw [if_pos (by omega), if_pos hj, Function.update_of_ne (fun h => hj.ne (congrArg Fin.val h))]
      · obtain rfl : j = ⟨k, hlt⟩ := Fin.ext hj
        simp
      · rw [if_neg (by omega), if_neg (by omega)]
    dsimp only at hrest
    rw [hshop, Nat.cast_succ] at hrest
    exact (shopLoop_succ s ⟨k, hlt⟩).trans hrest

theorem shopLoop_solving : Section .santa (.insideSanta s (.shopLoop 0))
    (.ofStretch { s with workshop := fun _ => none, santa := .solving }) := by
  have hrounds := shopLoop_rounds s ELVES_REQ (Nat.zero_add _)
  simp only [Nat.not_lt_zero, if_false] at hrounds
  exact hrounds.trans (.head
    (u := .insideSanta { s with workshop := fun _ => none } .leavingShop) rfl rfl (.head rfl rfl (.refl _)))

theorem jobsTest_afterReindeers :
    Section .santa (.insideSanta s .jobsTest) (.ofStretch s.afterReindeers) := by
  refine .head rfl (jobsTest_insideSanta s) ?_
  unfold Workshop.State.afterReindeers
  split_ifs with hjobs helves
  · exact .refl _
  · refine .head rfl (elfTest_insideSanta s) ?_
    rw [if_pos helves]
    exact shopLoop_solving s
  · refine .head rfl (elfTest_insideSanta s) ?_
    rw [if_neg helves]
    exact idle_leave s

theorem delivered_delivered :
    Section .santa (.insideSanta s .delivered) (.ofStretch s.delivered) := by
  refine .head rfl ?_ (jobsTest_afterReindeers _)
  simp [run, step, State.stepSanta, State.insideSanta, State.ofStretch, State.broadcastReindeers,
    State.setSanta, Workshop.State.broadcastReindeers]

theorem solved_solved :
    Section .santa (.insideSanta s .solved) (.ofStretch s.solved) := by
  refine .head rfl ?_ (idle_leave _)
  simp [run, step, State.stepSanta, State.insideSanta, State.ofStretch, State.broadcastElves,
    State.setSanta, Workshop.State.broadcastElves]

theorem busy_awake : Section .santa (.insideSanta s .busy) (.ofStretch s.awake) := by
  refine .head (u := .insideSanta { s with santa_busy := true } .reindeerTest) rfl rfl ?_
  refine .head rfl (reindeerTest_insideSanta _) ?_
  unfold Workshop.State.awake
  split_ifs with hall
  · exact .head rfl rfl (.refl _)
  · exact jobsTest_afterReindeers _

theorem loop_santaLoop :
    Section .santa (.insideSanta s .loop) (.ofStretch s.santaLoop) := by
  refine .head rfl (loop_insideSanta s) ?_
  unfold Workshop.State.santaLoop
  split_ifs
  · exact .refl _
  · exact busy_awake s

theorem stepSanta_ofStretch {s s' : Workshop.State} (hfinished : s.santa ≠ .finished)
    (hjobs : s.jobs < MAX_JOBS) (h : s.stepSanta = some s') :
    ∃ u, run ((State.ofStretch s).atLock .santa) .santa = some u ∧ u.mutex = some .santa ∧
      Section .santa u (.ofStretch s') := by
  have hplace : (State.ofStretch s).santa = .ofStretch s.santa := rfl
  have hfree := mutex_ofStretch hfinished
  unfold Workshop.State.stepSanta at h
  cases hsanta : s.santa with
  | start =>
    rw [hsanta] at h hplace
    rw [if_pos hjobs] at h
    obtain rfl := Option.some.inj h
    refine ⟨_, ?_, rfl, loop_santaLoop s⟩
    rw [State.atLock, if_pos (show (State.ofStretch s).santa = .head from hplace)]
    exact lock_map_of_free (s := (State.ofStretch s).setSanta .locking) hfree _ _
  | sleeping w =>
    rw [hsanta] at h hplace
    cases w with
    | blocked => cases h
    | woken =>
      obtain rfl := Option.some.inj h
      refine ⟨_, ?_, rfl, loop_santaLoop s⟩
      rw [State.atLock, if_neg (by rw [hplace]; exact Santa.noConfusion), run, step,
        State.stepSanta, hplace]
      exact lock_map_of_free hfree _ _
  | delivering =>
    rw [hsanta] at h hplace
    obtain rfl := Option.some.inj h
    refine ⟨_, ?_, rfl, delivered_delivered s⟩
    rw [State.atLock, if_neg (by rw [hplace]; exact Santa.noConfusion), run, step,
      State.stepSanta, hplace]
    exact lock_map_of_free hfree _ _
  | solving =>
    rw [hsanta] at h hplace
    obtain rfl := Option.some.inj h
    refine ⟨_, ?_, rfl, solved_solved s⟩
    rw [State.atLock, if_neg (by rw [hplace]; exact Santa.noConfusion), run, step,
      State.stepSanta, hplace]
    exact lock_map_of_free hfree _ _
  | finished => exact absurd hsanta hfinished
  | returned =>
    rw [hsanta] at h
    cases h

end Santa

/-! ## Reindeers -/

section Reindeer

variable (s : Workshop.State) (r : Fin REINDEERS_NO)

theorem ofStretch_setReindeer (x : Workshop.Reindeer) :
    State.ofStretch (s.setReindeer r x) = (State.ofStretch s).setReindeer r (.ofStretch x) := by
  have hreindeers : (fun k => Reindeer.ofStretch (Function.update s.reindeers r x k)) =
      Function.update (fun k => Reindeer.ofStretch (s.reindeers k)) r (.ofStretch x) :=
    funext (Function.apply_update (fun _ => Reindeer.ofStretch) s.reindeers r x)
  rw [State.ofStretch, State.setReindeer, Workshop.State.setReindeer, hreindeers]
  rfl

theorem reindeers_setReindeer (v : State) (x : Reindeer) : (v.setReindeer r x).reindeers r = x := by
  simp [State.setReindeer]

theorem setReindeer_setReindeer (v : State) (x y : Reindeer) :
    (v.setReindeer r x).setReindeer r y = v.setReindeer r y := by
  simp only [State.setReindeer, Function.update_idem]

theorem unlock_setReindeer (hfinished : s.santa ≠ .finished) (x y : Reindeer) :
    ((State.inside s (.reindeer r)).setReindeer r x).unlock.setReindeer r y =
      (State.ofStretch s).setReindeer r y := by
  have hunlock : (State.inside s (.reindeer r)).unlock = .ofStretch s := by
    rw [State.inside, State.unlock, ← mutex_ofStretch hfinished]
  rw [← hunlock]
  exact setReindeer_setReindeer r (State.inside s (.reindeer r)).unlock x y

theorem loop_reindeerLoop (hfinished : s.santa ≠ .finished) :
    Section (.reindeer r) ((State.inside s (.reindeer r)).setReindeer r .loop)
      (.ofStretch (s.reindeerLoop r)) := by
  have hwaiting : 0 < ((State.inside s (.reindeer r)).setReindeer r .loop).waiting_reindeers ↔
      0 < s.waiting_reindeers := Nat.cast_pos
  have hloop : step ((State.inside s (.reindeer r)).setReindeer r .loop) (.run (.reindeer r)) =
      some (if 0 < s.waiting_reindeers then (State.ofStretch s).setReindeer r (.waiting .blocked)
        else (State.inside s (.reindeer r)).setReindeer r .unlocking) := by
    rw [step, State.stepReindeer, reindeers_setReindeer]
    dsimp only
    rw [if_congr hwaiting rfl rfl, unlock_setReindeer s r hfinished, setReindeer_setReindeer]
    split_ifs <;> rfl
  refine .head rfl hloop ?_
  rw [Workshop.State.reindeerLoop, ofStretch_setReindeer]
  split_ifs
  · exact .refl _
  · refine .head rfl ?_ (.refl _)
    rw [run, step, State.stepReindeer, reindeers_setReindeer]
    exact congrArg some (unlock_setReindeer s r hfinished _ _)

theorem called_setReindeer {x : Reindeer} (hx : x.wake = x) :
    ((State.inside s (.reindeer r)).setReindeer r x).signalSanta.broadcastReindeers =
      (State.inside s.signalSanta.broadcastReindeers (.reindeer r)).setReindeer r x := by
  have hreindeers : (fun k => (Function.update (State.ofStretch s).reindeers r x k).wake) =
      Function.update (State.ofStretch s.signalSanta.broadcastReindeers).reindeers r x := by
    funext k
    rw [Function.apply_update (fun _ => Reindeer.wake) (State.ofStretch s).reindeers r x k, hx]
    simp [State.ofStretch, Workshop.State.broadcastReindeers, Workshop.State.signalSanta]
  simp only [State.signalSanta, State.broadcastReindeers, State.setReindeer, State.inside,
    hreindeers]
  simp [State.ofStretch, Workshop.State.broadcastReindeers, Workshop.State.signalSanta]

theorem arriving_reindeerArrives (hfinished : s.santa ≠ .finished) :
    Section (.reindeer r) ((State.inside s (.reindeer r)).setReindeer r .arriving)
      (.ofStretch (s.reindeerArrives r)) := by
  obtain ⟨counted, hcounted⟩ : ∃ counted : Workshop.State,
      counted = { s with waiting_reindeers := s.waiting_reindeers + 1 } := ⟨_, rfl⟩
  have hsanta : counted.santa ≠ .finished := hcounted ▸ hfinished
  have harriving : step ((State.inside s (.reindeer r)).setReindeer r .arriving)
      (.run (.reindeer r)) = some ((State.inside counted (.reindeer r)).setReindeer r .fullTest) := by
    rw [step, State.stepReindeer, reindeers_setReindeer, hcounted]
    simp [State.setReindeer, State.inside, State.ofStretch]
  have hfull : ((State.inside counted (.reindeer r)).setReindeer r .fullTest).waiting_reindeers =
      REINDEERS_REQ ↔ counted.waiting_reindeers = REINDEERS_REQ := Nat.cast_inj
  have htest : step ((State.inside counted (.reindeer r)).setReindeer r .fullTest)
      (.run (.reindeer r)) = some ((State.inside (if counted.waiting_reindeers = REINDEERS_REQ then
        counted.signalSanta.broadcastReindeers else counted) (.reindeer r)).setReindeer r .loop) := by
    rw [step, State.stepReindeer, reindeers_setReindeer]
    dsimp only
    rw [if_congr hfull rfl rfl]
    split_ifs
    · rw [called_setReindeer counted r rfl, setReindeer_setReindeer]
    · rw [setReindeer_setReindeer]
  refine .head rfl harriving (.head rfl htest ?_)
  rw [Workshop.State.reindeerArrives, ← hcounted]
  apply loop_reindeerLoop
  split_ifs
  · simpa [Workshop.State.broadcastReindeers, Workshop.State.signalSanta] using hsanta
  · exact hsanta

theorem stepReindeer_ofStretch {s s' : Workshop.State} {r : Fin REINDEERS_NO}
    (hfinished : s.santa ≠ .finished) (h : s.stepReindeer r = some s') :
    ∃ u, run (.ofStretch s) (.reindeer r) = some u ∧ u.mutex = some (.reindeer r) ∧
      Section (.reindeer r) u (.ofStretch s') := by
  have hfree := mutex_ofStretch hfinished
  have hplace : (State.ofStretch s).reindeers r = .ofStretch (s.reindeers r) := rfl
  rcases Workshop.State.stepReindeer_cases h with ⟨hreindeer, rfl⟩ | ⟨hreindeer, rfl⟩
  · refine ⟨_, ?_, rfl, arriving_reindeerArrives s r hfinished⟩
    rw [run, step, State.stepReindeer, hplace, hreindeer]
    exact lock_map_of_free hfree _ _
  · refine ⟨_, ?_, rfl, loop_reindeerLoop s r hfinished⟩
    rw [run, step, State.stepReindeer, hplace, hreindeer]
    exact lock_map_of_free hfree _ _

end Reindeer

/-! ## Elves -/

section Elf

variable (s : Workshop.State) (e : Fin ELVES_NO)

theorem ofStretch_setElf (x : Workshop.Elf) :
    State.ofStretch (s.setElf e x) = (State.ofStretch s).setElf e (.ofStretch x) := by
  have helves : (fun k => Elf.ofStretch (Function.update s.elves e x k)) =
      Function.update (fun k => Elf.ofStretch (s.elves k)) e (.ofStretch x) :=
    funext (Function.apply_update (fun _ => Elf.ofStretch) s.elves e x)
  rw [State.ofStretch, State.setElf, Workshop.State.setElf, helves]
  rfl

theorem elves_setElf (v : State) (x : Elf) : (v.setElf e x).elves e = x := by
  simp [State.setElf]

theorem setElf_setElf (v : State) (x y : Elf) : (v.setElf e x).setElf e y = v.setElf e y := by
  simp only [State.setElf, Function.update_idem]

theorem unlock_setElf (hfinished : s.santa ≠ .finished) (x y : Elf) :
    ((State.inside s (.elf e)).setElf e x).unlock.setElf e y = (State.ofStretch s).setElf e y := by
  have hunlock : (State.inside s (.elf e)).unlock = .ofStretch s := by
    rw [State.inside, State.unlock, ← mutex_ofStretch hfinished]
  rw [← hunlock]
  exact setElf_setElf e (State.inside s (.elf e)).unlock x y

theorem called_setElf {x : Elf} (hx : x.wake = x) :
    ((State.inside s (.elf e)).setElf e x).broadcastElves.signalSanta =
      (State.inside s.broadcastElves.signalSanta (.elf e)).setElf e x := by
  have helves : (fun k => (Function.update (State.ofStretch s).elves e x k).wake) =
      Function.update (State.ofStretch s.broadcastElves.signalSanta).elves e x := by
    funext k
    rw [Function.apply_update (fun _ => Elf.wake) (State.ofStretch s).elves e x k, hx]
    simp [State.ofStretch, Workshop.State.broadcastElves, Workshop.State.signalSanta]
  simp only [State.signalSanta, State.broadcastElves, State.setElf, State.inside, helves]
  simp [State.ofStretch, Workshop.State.broadcastElves, Workshop.State.signalSanta]

theorem callTest_inShop {i : Fin ELVES_REQ} (hfinished : s.santa ≠ .finished)
    (hslot : s.workshop i = some e) :
    Section (.elf e) ((State.inside s (.elf e)).setElf e (.callTest (some (i : ℕ))))
      (.ofStretch ((if s.waiting_elves = ELVES_REQ then s.broadcastElves.signalSanta
        else s).setElf e (.inShop .blocked))) := by
  obtain ⟨called, hcalled⟩ : ∃ called, called =
      if s.waiting_elves = ELVES_REQ then s.broadcastElves.signalSanta else s := ⟨_, rfl⟩
  have hsanta : called.santa ≠ .finished := by
    rw [hcalled]
    split_ifs
    · simpa [Workshop.State.broadcastElves, Workshop.State.signalSanta] using hfinished
    · exact hfinished
  have hworkshop : called.workshop = s.workshop := by
    rw [hcalled]
    split_ifs <;> rfl
  have hfull : ((State.inside s (.elf e)).setElf e (.callTest (some (i : ℕ)))).waiting_elves =
      ELVES_REQ ↔ s.waiting_elves = ELVES_REQ := Nat.cast_inj
  have hcall : step ((State.inside s (.elf e)).setElf e (.callTest (some (i : ℕ)))) (.run (.elf e)) =
      some ((State.inside called (.elf e)).setElf e (.equalTest (some (i : ℕ)))) := by
    rw [step, State.stepElf, elves_setElf, hcalled]
    dsimp only
    rw [if_congr hfull rfl rfl]
    split_ifs
    · rw [called_setElf s e rfl, setElf_setElf]
    · rw [setElf_setElf]
  have hequal : ((State.inside called (.elf e)).setElf e (.equalTest (some (i : ℕ)))).workshop
      (i : ℕ) = some e := by
    change shopOf called.workshop (i : ℕ) = some e
    rw [hworkshop, ← hslot]
    simp [shopOf]
  refine .head rfl hcall (.head rfl ?_ (.refl _))
  rw [run, step, State.stepElf, elves_setElf, ← hcalled, ofStretch_setElf]
  dsimp only
  rw [if_pos hequal]
  exact congrArg some (unlock_setElf called e hsanta _ _)

theorem choose_takeSlot {s s' : Workshop.State} {e : Fin ELVES_NO} (hfinished : s.santa ≠ .finished)
    (h : s.takeSlot e = some s') :
    Section (.elf e) ((State.inside s (.elf e)).setElf e .choose) (.ofStretch s') := by
  obtain ⟨hslot, _⟩ := Workshop.State.takeSlot_eq_some h
  obtain ⟨stored, hstored⟩ : ∃ stored : Workshop.State, stored = { s with
      waiting_elves := s.waiting_elves + 1
      workshop := Function.update s.workshop ⟨s.waiting_elves, hslot⟩ (some e)
      log := .took e :: s.log } := ⟨_, rfl⟩
  have hs' : s' = (if stored.waiting_elves = ELVES_REQ then stored.broadcastElves.signalSanta
      else stored).setElf e (.inShop .blocked) := by
    rw [Workshop.State.takeSlot, dif_pos hslot] at h
    rw [← Option.some.inj h, hstored]
    by_cases hfull : s.waiting_elves + 1 = ELVES_REQ
    · simp [hfull, Workshop.State.broadcastElves, Workshop.State.signalSanta]
    · simp [hfull]
  have hfree : ((State.inside s (.elf e)).setElf e .choose).waiting_elves < ELVES_REQ :=
    Nat.cast_lt.mpr hslot
  have hchoose : step ((State.inside s (.elf e)).setElf e .choose) (.run (.elf e)) =
      some ((State.inside s (.elf e)).setElf e .taking) := by
    rw [step, State.stepElf, elves_setElf]
    dsimp only
    rw [if_pos hfree, setElf_setElf]
  have htaking : step ((State.inside s (.elf e)).setElf e .taking) (.run (.elf e)) =
      some ((State.inside { s with waiting_elves := s.waiting_elves + 1 } (.elf e)).setElf e
        (.storing s.waiting_elves)) := by
    rw [step, State.stepElf, elves_setElf]
    simp [State.setElf, State.inside, State.ofStretch]
  have hstoring : step ((State.inside { s with waiting_elves := s.waiting_elves + 1 }
      (.elf e)).setElf e (.storing s.waiting_elves)) (.run (.elf e)) =
      some ((State.inside stored (.elf e)).setElf e (.callTest (some s.waiting_elves))) := by
    have hshop := shopOf_update s.workshop ⟨s.waiting_elves, hslot⟩ (some e)
    rw [step, State.stepElf, elves_setElf, hstored]
    simp [State.setElf, State.inside, State.ofStretch, hshop]
  refine .head rfl hchoose (.head rfl htaking (.head rfl hstoring ?_))
  rw [hs']
  exact callTest_inShop stored e (i := ⟨s.waiting_elves, hslot⟩) (hstored ▸ hfinished)
    (by rw [hstored]; exact Function.update_self _ _ _)

theorem queueTest_elfLoop {s s' : Workshop.State} {e : Fin ELVES_NO}
    (hfinished : s.santa ≠ .finished) (h : s.elfLoop e = some s') :
    Section (.elf e) ((State.inside s (.elf e)).setElf e .queueTest) (.ofStretch s') := by
  have hfull : ((State.inside s (.elf e)).setElf e .queueTest).waiting_elves = ELVES_REQ ↔
      s.waiting_elves = ELVES_REQ := Nat.cast_inj
  have hqueue : step ((State.inside s (.elf e)).setElf e .queueTest) (.run (.elf e)) =
      some (if s.waiting_elves = ELVES_REQ then (State.ofStretch s).setElf e (.queued .blocked)
        else (State.inside s (.elf e)).setElf e .choose) := by
    rw [step, State.stepElf, elves_setElf]
    dsimp only
    rw [if_congr hfull rfl rfl, unlock_setElf s e hfinished, setElf_setElf]
    split_ifs <;> rfl
  refine .head rfl hqueue ?_
  unfold Workshop.State.elfLoop at h
  split_ifs at h ⊢
  · rw [← Option.some.inj h, ofStretch_setElf]
    exact .refl _
  · exact choose_takeSlot hfinished h

theorem fullTest_elfLoop {s s' : Workshop.State} {e : Fin ELVES_NO}
    (hfinished : s.santa ≠ .finished) (h : s.elfLoop e = some s') :
    Section (.elf e) ((State.inside s (.elf e)).setElf e .fullTest) (.ofStretch s') := by
  have hfull : ((State.inside s (.elf e)).setElf e .fullTest).waiting_elves = ELVES_REQ ↔
      s.waiting_elves = ELVES_REQ := Nat.cast_inj
  have htest : step ((State.inside s (.elf e)).setElf e .fullTest) (.run (.elf e)) =
      some ((State.inside s (.elf e)).setElf e
        (if s.waiting_elves = ELVES_REQ then .queueTest else .choose)) := by
    rw [step, State.stepElf, elves_setElf]
    dsimp only
    rw [if_congr hfull rfl rfl, setElf_setElf]
  refine .head rfl htest ?_
  by_cases hall : s.waiting_elves = ELVES_REQ
  · rw [if_pos hall]
    exact queueTest_elfLoop hfinished h
  · rw [if_neg hall]
    rw [Workshop.State.elfLoop, if_neg hall] at h
    exact choose_takeSlot hfinished h

theorem stepElf_ofStretch {s s' : Workshop.State} {e : Fin ELVES_NO}
    (hfinished : s.santa ≠ .finished) (h : s.stepElf e = some s') :
    ∃ u, run (.ofStretch s) (.elf e) = some u ∧ u.mutex = some (.elf e) ∧
      Section (.elf e) u (.ofStretch s') := by
  have hfree := mutex_ofStretch hfinished
  have hplace : (State.ofStretch s).elves e = .ofStretch (s.elves e) := rfl
  unfold Workshop.State.stepElf at h
  cases helf : s.elves e with
  | working =>
    rw [helf] at h hplace
    refine ⟨_, ?_, rfl, fullTest_elfLoop hfinished h⟩
    rw [run, step, State.stepElf, hplace]
    exact lock_map_of_free hfree _ _
  | queued w =>
    rw [helf] at h hplace
    cases w with
    | blocked => cases h
    | woken =>
      refine ⟨_, ?_, rfl, queueTest_elfLoop hfinished h⟩
      rw [run, step, State.stepElf, hplace]
      exact lock_map_of_free hfree _ _
  | inShop w =>
    rw [helf] at h hplace
    cases w with
    | blocked => cases h
    | woken =>
      obtain rfl := Option.some.inj h
      rw [ofStretch_setElf]
      refine ⟨(State.inside s (.elf e)).setElf e .unlocking, ?_, rfl, .head rfl ?_ (.refl _)⟩
      · rw [run, step, State.stepElf, hplace]
        exact lock_map_of_free hfree _ _
      · rw [run, step, State.stepElf, elves_setElf]
        exact congrArg some (unlock_setElf s e hfinished _ _)

end Elf

/-! ## Every stretch -/

/-- In a step by stretches the thread takes the mutex and keeps it to the end. -/
theorem step_ofStretch {s s' : Workshop.State} {t : Thread} (hs : BarrierInv s)
    (h : Workshop.step s t = some s') :
    ∃ u, run ((State.ofStretch s).atLock t) t = some u ∧ u.mutex = some t ∧
      Section t u (.ofStretch s') := by
  obtain ⟨hfinished, h⟩ := step_eq_some.mp h
  cases t with
  | santa => exact stepSanta_ofStretch hfinished (hs.jobs.resolve_left hfinished) h
  | reindeer r => exact stepReindeer_ofStretch hfinished h
  | elf e => exact stepElf_ofStretch hfinished h

theorem ofStretch_start : State.ofStretch Workshop.start = start := by
  rw [State.ofStretch, start, Workshop.start, shopOf_none]
  rfl

end Sysopy.Workshop.Monitor
