import Sysopy.Workshop.Stretches

/-!
# The two models of the threads

Statement by statement, another thread can run between any two statements. But a thread in a
stretch has the mutex, and outside of a stretch a thread only takes it, so no other thread moves
until the stretch is over. Only the test of `jobs` at the head of Santa's loop is made without
the mutex, and no other thread changes `jobs`. So the states that the statements reach are
states of the stretches in each of which one thread has still to end its stretch.
-/
namespace Sysopy.Workshop.Monitor

open Transition Mutex

/-! ## A step of another thread -/

section Others

variable {s s' : State} {t : Thread}

theorem run_of_not_holds (hholds : ¬ Holds s t) (hhead : t = .santa → s.santa ≠ .head)
    (h : run s t = some s') : s.mutex = none ∧ s'.mutex = some t := by
  cases t with
  | santa =>
    rw [run, step, State.stepSanta] at h
    cases hplace : s.santa with
    | head => exact absurd hplace (hhead rfl)
    | locking | delivering | solving =>
      rw [hplace] at h
      obtain ⟨hfree, rfl⟩ := lock_map_eq_some h
      exact ⟨hfree, rfl⟩
    | asleep w =>
      rw [hplace] at h
      cases w with
      | blocked => cases h
      | woken =>
        obtain ⟨hfree, rfl⟩ := lock_map_eq_some h
        exact ⟨hfree, rfl⟩
    | returned =>
      rw [hplace] at h
      cases h
    | _ => exact absurd (by rw [Holds, hplace]; rfl) hholds
  | reindeer r =>
    rw [run, step, State.stepReindeer] at h
    cases hplace : s.reindeers r with
    | away =>
      rw [hplace] at h
      obtain ⟨hfree, rfl⟩ := lock_map_eq_some h
      exact ⟨hfree, rfl⟩
    | waiting w =>
      rw [hplace] at h
      cases w with
      | blocked => cases h
      | woken =>
        obtain ⟨hfree, rfl⟩ := lock_map_eq_some h
        exact ⟨hfree, rfl⟩
    | _ => exact absurd (by rw [Holds, hplace]; rfl) hholds
  | elf e =>
    rw [run, step, State.stepElf] at h
    cases hplace : s.elves e with
    | away =>
      rw [hplace] at h
      obtain ⟨hfree, rfl⟩ := lock_map_eq_some h
      exact ⟨hfree, rfl⟩
    | queued w | inShop w =>
      rw [hplace] at h
      cases w with
      | blocked => cases h
      | woken =>
        obtain ⟨hfree, rfl⟩ := lock_map_eq_some h
        exact ⟨hfree, rfl⟩
    | _ => exact absurd (by rw [Holds, hplace]; rfl) hholds

/-- What another thread does to Santa. -/
def Santa.called (woken : Bool) (x : Santa) : Santa := if woken then x.wake else x

/-- The other threads leave `jobs` alone, and whether they wake Santa does not depend on where
he is. -/
theorem exists_called (hother : t ≠ .santa) (h : run s t = some s') :
    s'.jobs = s.jobs ∧
      ∃ woken, ∀ x, run (s.setSanta x) t = some (s'.setSanta (x.called woken)) := by
  cases t with
  | santa => exact absurd rfl hother
  | reindeer r =>
    have hsame : ∀ x, (s.setSanta x).reindeers r = s.reindeers r := fun _ => rfl
    simp only [run, step, State.stepReindeer, hsame] at h ⊢
    cases hplace : s.reindeers r with
    | away =>
      rw [hplace] at h
      obtain ⟨hfree, rfl⟩ := lock_map_eq_some h
      exact ⟨rfl, false, fun x => lock_map_of_free (s := s.setSanta x) hfree _ _⟩
    | waiting w =>
      rw [hplace] at h
      cases w with
      | blocked => cases h
      | woken =>
        obtain ⟨hfree, rfl⟩ := lock_map_eq_some h
        exact ⟨rfl, false, fun x => lock_map_of_free (s := s.setSanta x) hfree _ _⟩
    | fullTest =>
      rw [hplace] at h
      obtain rfl := Option.some.inj h
      by_cases hfull : s.waiting_reindeers = REINDEERS_REQ
      · rw [if_pos hfull]
        exact ⟨rfl, true, fun x => congrArg some (if_pos hfull ▸ rfl)⟩
      · rw [if_neg hfull]
        exact ⟨rfl, false, fun x => congrArg some (if_neg hfull ▸ rfl)⟩
    | loop =>
      rw [hplace] at h
      dsimp only at h
      by_cases hwaits : 0 < s.waiting_reindeers
      · rw [if_pos hwaits] at h
        obtain rfl := Option.some.inj h
        exact ⟨rfl, false, fun x => if_pos hwaits⟩
      · rw [if_neg hwaits] at h
        obtain rfl := Option.some.inj h
        exact ⟨rfl, false, fun x => if_neg hwaits⟩
    | arriving | unlocking =>
      rw [hplace] at h
      obtain rfl := Option.some.inj h
      exact ⟨rfl, false, fun x => rfl⟩
  | elf e =>
    have hsame : ∀ x, (s.setSanta x).elves e = s.elves e := fun _ => rfl
    simp only [run, step, State.stepElf, hsame] at h ⊢
    cases hplace : s.elves e with
    | away =>
      rw [hplace] at h
      obtain ⟨hfree, rfl⟩ := lock_map_eq_some h
      exact ⟨rfl, false, fun x => lock_map_of_free (s := s.setSanta x) hfree _ _⟩
    | queued w | inShop w =>
      rw [hplace] at h
      cases w with
      | blocked => cases h
      | woken =>
        obtain ⟨hfree, rfl⟩ := lock_map_eq_some h
        exact ⟨rfl, false, fun x => lock_map_of_free (s := s.setSanta x) hfree _ _⟩
    | callTest i =>
      rw [hplace] at h
      obtain rfl := Option.some.inj h
      by_cases hfull : s.waiting_elves = ELVES_REQ
      · rw [if_pos hfull]
        exact ⟨rfl, true, fun x => congrArg some (if_pos hfull ▸ rfl)⟩
      · rw [if_neg hfull]
        exact ⟨rfl, false, fun x => congrArg some (if_neg hfull ▸ rfl)⟩
    | equalTest i =>
      rw [hplace] at h
      cases i with
      | none => cases h
      | some i =>
        dsimp only at h
        by_cases hmine : s.workshop i = some e
        · rw [if_pos hmine] at h
          obtain rfl := Option.some.inj h
          exact ⟨rfl, false, fun x => if_pos hmine⟩
        · rw [if_neg hmine] at h
          obtain rfl := Option.some.inj h
          exact ⟨rfl, false, fun x => if_neg hmine⟩
    | queueTest =>
      rw [hplace] at h
      dsimp only at h
      by_cases hfull : s.waiting_elves = ELVES_REQ
      · rw [if_pos hfull] at h
        obtain rfl := Option.some.inj h
        exact ⟨rfl, false, fun x => if_pos hfull⟩
      · rw [if_neg hfull] at h
        obtain rfl := Option.some.inj h
        exact ⟨rfl, false, fun x => if_neg hfull⟩
    | fullTest | choose | taking | storing i | unlocking =>
      rw [hplace] at h
      obtain rfl := Option.some.inj h
      exact ⟨rfl, false, fun x => rfl⟩

theorem exists_santa_called (hother : t ≠ .santa) (h : run s t = some s') :
    ∃ woken, s'.santa = s.santa.called woken := by
  obtain ⟨-, woken, hcalled⟩ := exists_called hother h
  exact ⟨woken, congrArg State.santa (Option.some.inj (h.symm.trans (hcalled s.santa)))⟩

end Others

/-! ## The test of `jobs` -/

section Jobs

variable {s s' : State} {t : Thread}

/-- Santa has deliveries left, or he is about to end or through. -/
def JobsLeft (s : State) : Prop :=
  s.jobs < MAX_JOBS ∨ s.jobs = MAX_JOBS ∧ (s.santa = .jobsTest ∨ s.santa = .returned)

theorem jobsLeft_start : JobsLeft start := .inl (by decide)

theorem JobsLeft.run (hs : JobsLeft s) (h : run s t = some s') : JobsLeft s' := by
  by_cases hother : t = .santa
  · subst hother
    rw [Monitor.run, step, State.stepSanta] at h
    cases hplace : s.santa with
    | jobsTest =>
      rw [hplace] at h
      obtain rfl := Option.some.inj h
      by_cases hlast : s.jobs = MAX_JOBS
      · rw [if_pos hlast]
        exact .inr ⟨hlast, .inr rfl⟩
      · exact .inl (hs.resolve_right fun hend => hlast hend.1)
    | returned =>
      rw [hplace] at h
      cases h
    | delivered =>
      have hlt : s.jobs < MAX_JOBS := hs.resolve_right (by simp [hplace])
      rw [hplace] at h
      obtain rfl := Option.some.inj h
      rcases lt_or_eq_of_le (Int.add_one_le_iff.mpr hlt) with hmore | hlast
      · exact .inl hmore
      · exact .inr ⟨hlast, .inl rfl⟩
    | locking | delivering | solving =>
      have hlt : s.jobs < MAX_JOBS := hs.resolve_right (by simp [hplace])
      rw [hplace] at h
      obtain ⟨-, rfl⟩ := lock_map_eq_some h
      exact .inl hlt
    | asleep w =>
      have hlt : s.jobs < MAX_JOBS := hs.resolve_right (by simp [hplace])
      rw [hplace] at h
      cases w with
      | blocked => cases h
      | woken =>
        obtain ⟨-, rfl⟩ := lock_map_eq_some h
        exact .inl hlt
    | loop =>
      have hlt : s.jobs < MAX_JOBS := hs.resolve_right (by simp [hplace])
      rw [hplace] at h
      dsimp only at h
      split_ifs at h <;> obtain rfl := Option.some.inj h <;> exact .inl hlt
    | _ =>
      have hlt : s.jobs < MAX_JOBS := hs.resolve_right (by simp [hplace])
      rw [hplace] at h
      obtain rfl := Option.some.inj h
      exact .inl hlt
  · obtain ⟨woken, hsanta⟩ := exists_santa_called hother h
    unfold JobsLeft
    rw [(exists_called hother h).1]
    refine hs.imp_right fun hend => ⟨hend.1, ?_⟩
    rcases hend.2 with hplace | hplace <;> rw [hsanta, hplace] <;> cases woken <;>
      simp [Santa.called, Santa.wake]

/-- Santa before the test of `jobs`, if he has made it. -/
def State.settled (s : State) : State := if s.santa = .locking then s.setSanta .head else s

@[simp] theorem mutex_settled (s : State) : s.settled.mutex = s.mutex := by
  unfold State.settled
  split_ifs <;> rfl

theorem settled_of_locking (h : s.santa = .locking) : s.settled = s.setSanta .head := if_pos h

theorem settled_of_ne (h : s.santa ≠ .locking) : s.settled = s := if_neg h

theorem setSanta_setSanta {x y : Santa} (h : s.santa = y) : (s.setSanta x).setSanta y = s :=
  congrArg (fun y => { s with santa := y }) h.symm

theorem run_settled_of_ne (hother : t ≠ .santa) (h : run s t = some s') :
    run s.settled t = some s'.settled := by
  obtain ⟨-, woken, hcalled⟩ := exists_called hother h
  have hsanta : s'.santa = s.santa.called woken :=
    congrArg State.santa (Option.some.inj (h.symm.trans (hcalled s.santa)))
  unfold State.settled
  by_cases hlocking : s.santa = .locking
  · have hlocking' : s'.santa = .locking := by
      rw [hsanta, hlocking]
      cases woken <;> rfl
    have hhead : Santa.called woken .head = .head := by cases woken <;> rfl
    rw [if_pos hlocking, if_pos hlocking', hcalled, hhead]
  · have hlocking' : s'.santa ≠ .locking := by
      intro hat
      rw [hsanta] at hat
      revert hat hlocking
      cases s.santa <;> cases woken <;> simp [Santa.called, Santa.wake]
    rw [if_neg hlocking, if_neg hlocking', h]

theorem settled_of_run (hhead : s.santa ≠ .head) (h : run s .santa = some s') :
    s'.settled = s' := by
  apply settled_of_ne
  rw [run, step, State.stepSanta] at h
  cases hplace : s.santa with
  | head => exact absurd hplace hhead
  | locking | delivering | solving =>
    rw [hplace] at h
    obtain ⟨-, rfl⟩ := lock_map_eq_some h
    exact Santa.noConfusion
  | asleep w =>
    rw [hplace] at h
    cases w with
    | blocked => cases h
    | woken =>
      obtain ⟨-, rfl⟩ := lock_map_eq_some h
      exact Santa.noConfusion
  | returned =>
    rw [hplace] at h
    cases h
  | loop | reindeerTest | jobsTest | elfTest | shopLoop i =>
    rw [hplace] at h
    dsimp only at h
    split_ifs at h <;> obtain rfl := Option.some.inj h <;> exact Santa.noConfusion
  | _ =>
    rw [hplace] at h
    obtain rfl := Option.some.inj h
    exact Santa.noConfusion

end Jobs

/-! ## Between two stretches -/

section Rest

variable {c : Workshop.State} {t : Thread}

theorem atLock_of_ne (s : State) (hother : t ≠ .santa) : s.atLock t = s := by
  cases t with
  | santa => exact absurd rfl hother
  | reindeer r => rfl
  | elf e => rfl

theorem not_holds_ofStretch (c : Workshop.State) (t : Thread) : ¬ Holds (.ofStretch c) t := by
  cases t with
  | santa =>
    change ¬ (Santa.ofStretch c.santa).holds = true
    cases c.santa <;> exact Bool.false_ne_true
  | reindeer r =>
    change ¬ (Reindeer.ofStretch (c.reindeers r)).holds = true
    cases c.reindeers r <;> exact Bool.false_ne_true
  | elf e =>
    change ¬ (Elf.ofStretch (c.elves e)).holds = true
    cases c.elves e <;> exact Bool.false_ne_true

theorem exists_stretch (hs : ElvesInv c) (hfinished : c.santa ≠ .finished) {u : State}
    (h : run ((State.ofStretch c).atLock t) t = some u) : ∃ c', Workshop.step c t = some c' := by
  cases t with
  | santa =>
    cases hplace : c.santa with
    | start =>
      exact ⟨_, step_eq_some.mpr ⟨hfinished, by rw [State.stretch, Workshop.State.stepSanta, hplace]⟩⟩
    | sleeping w =>
      cases w with
      | blocked =>
        have hat : (State.ofStretch c).santa = .asleep .blocked := congrArg Santa.ofStretch hplace
        rw [State.atLock, if_neg (by rw [hat]; exact Santa.noConfusion), run, step,
          State.stepSanta, hat] at h
        cases h
      | woken =>
        exact ⟨_, step_eq_some.mpr ⟨hfinished, by rw [State.stretch, Workshop.State.stepSanta, hplace]⟩⟩
    | delivering | solving =>
      exact ⟨_, step_eq_some.mpr ⟨hfinished, by rw [State.stretch, Workshop.State.stepSanta, hplace]⟩⟩
    | finished => exact absurd hplace hfinished
    | returned =>
      have hat : (State.ofStretch c).santa = .returned := congrArg Santa.ofStretch hplace
      rw [State.atLock, if_neg (by rw [hat]; exact Santa.noConfusion), run, step,
        State.stepSanta, hat] at h
      cases h
  | reindeer r =>
    have hat : (State.ofStretch c).reindeers r = .ofStretch (c.reindeers r) := rfl
    rw [atLock_of_ne _ Thread.noConfusion, run, step, State.stepReindeer, hat] at h
    cases hplace : c.reindeers r with
    | vacation =>
      exact ⟨_, step_eq_some.mpr ⟨hfinished, by rw [State.stretch, Workshop.State.stepReindeer, hplace]⟩⟩
    | waiting w =>
      rw [hplace] at h
      cases w with
      | blocked => cases h
      | woken =>
        exact ⟨_, step_eq_some.mpr ⟨hfinished, by rw [State.stretch, Workshop.State.stepReindeer, hplace]⟩⟩
  | elf e =>
    have hat : (State.ofStretch c).elves e = .ofStretch (c.elves e) := rfl
    rw [atLock_of_ne _ Thread.noConfusion, run, step, State.stepElf, hat] at h
    obtain ⟨c', hloop⟩ := hs.exists_elfLoop e
    cases hplace : c.elves e with
    | working =>
      refine ⟨c', step_eq_some.mpr ⟨hfinished, ?_⟩⟩
      rw [State.stretch, Workshop.State.stepElf, hplace]
      exact hloop
    | queued w =>
      rw [hplace] at h
      cases w with
      | blocked => cases h
      | woken =>
        refine ⟨c', step_eq_some.mpr ⟨hfinished, ?_⟩⟩
        rw [State.stretch, Workshop.State.stepElf, hplace]
        exact hloop
    | inShop w =>
      rw [hplace] at h
      cases w with
      | blocked => cases h
      | woken =>
        exact ⟨_, step_eq_some.mpr ⟨hfinished, by rw [State.stretch, Workshop.State.stepElf, hplace]⟩⟩

/-- The first statement of a stretch, and the stretch that it begins. -/
theorem exists_section (hb : BarrierInv c) (he : ElvesInv c) {u : State}
    (hhead : t = .santa → ((State.ofStretch c).atLock t).santa ≠ .head)
    (h : run ((State.ofStretch c).atLock t) t = some u) :
    ∃ c', Workshop.step c t = some c' ∧ Section t u (.ofStretch c') := by
  have hholds : ¬ Holds ((State.ofStretch c).atLock t) t := by
    have hrest := not_holds_ofStretch c t
    unfold State.atLock
    cases t with
    | santa =>
      dsimp only
      split_ifs
      · exact Bool.false_ne_true
      · exact hrest
    | _ => exact hrest
  have hfinished : c.santa ≠ .finished := by
    intro hat
    have hmutex : ((State.ofStretch c).atLock t).mutex = some .santa := by
      unfold State.atLock
      cases t with
      | santa =>
        dsimp only
        split_ifs <;> exact if_pos hat
      | _ => exact if_pos hat
    have hfree := (run_of_not_holds hholds hhead h).1
    rw [hmutex] at hfree
    cases hfree
  obtain ⟨c', hc'⟩ := exists_stretch he hfinished h
  obtain ⟨u', hu', -, hsection⟩ := step_ofStretch hb hc'
  obtain rfl := Option.some.inj (h.symm.trans hu')
  exact ⟨c', hc', hsection⟩

end Rest

/-! ## Runs -/

/-- A state of the stretches that is reached as soon as one thread has ended its stretch. -/
structure Matched (s : State) (c : Workshop.State) : Prop where
  reached : ∃ ts, exec Workshop.step Workshop.start ts = some c
  ends : ∃ t, Section t s.settled (.ofStretch c)

section Runs

variable {s s' : State} {c : Workshop.State} {t : Thread}

theorem invs_of_reached {ts : List Thread} (h : exec Workshop.step Workshop.start ts = some c) :
    BarrierInv c ∧ ElvesInv c :=
  ⟨exec_invariant' (fun _ _ _ hs h => hs.step h) barrierInv_start h,
    exec_invariant' (fun _ _ _ hs h => hs.step h) elvesInv_start h⟩

theorem Matched.begin {ts : List Thread} (hc : exec Workshop.step Workshop.start ts = some c)
    (hrest : s.settled = .ofStretch c) (hhead : t = .santa → s.santa ≠ .head)
    (h : run s t = some s') : ∃ c', Matched s' c' := by
  have hfirst : run ((State.ofStretch c).atLock t) t = some s'.settled ∧
      (t = .santa → ((State.ofStretch c).atLock t).santa ≠ .head) := by
    rw [← hrest]
    by_cases hother : t = .santa
    · subst hother
      have hat : s.settled.atLock .santa = s := by
        by_cases hlocking : s.santa = .locking
        · have hat : (s.setSanta .head).santa = .head := rfl
          rw [settled_of_locking hlocking, State.atLock, if_pos hat, setSanta_setSanta hlocking]
        · rw [settled_of_ne hlocking, State.atLock, if_neg (hhead rfl)]
      rw [hat, settled_of_run (hhead rfl) h]
      exact ⟨h, hhead⟩
    · rw [atLock_of_ne _ hother]
      exact ⟨run_settled_of_ne hother h, fun hsanta => absurd hsanta hother⟩
  obtain ⟨hb, he⟩ := invs_of_reached hc
  obtain ⟨c', hc', hsection⟩ := exists_section hb he hfirst.2 hfirst.1
  exact ⟨c', ⟨ts ++ [t], exec_append.mpr ⟨c, hc, exec_cons_eq_some.mpr ⟨c', hc', rfl⟩⟩⟩,
    t, hsection⟩

theorem Matched.run (hs : Matched s c) (hex : Exclusive s.mutex (Holds s)) (hjobs : JobsLeft s)
    (h : run s t = some s') : ∃ c', Matched s' c' := by
  obtain ⟨⟨ts, hc⟩, w, hsection⟩ := hs
  by_cases hhead : t = .santa ∧ s.santa = .head
  · -- the test comes out well, and is not seen
    obtain ⟨rfl, hhead⟩ := hhead
    have hlt : s.jobs < MAX_JOBS := hjobs.resolve_right (by simp [hhead])
    rw [Monitor.run, step, State.stepSanta, hhead] at h
    rw [← Option.some.inj h, if_pos hlt]
    have hsettled : (s.setSanta .locking).settled = s.settled := by
      have hne : s.santa ≠ .locking := by rw [hhead]; exact Santa.noConfusion
      rw [settled_of_locking rfl, setSanta_setSanta hhead, settled_of_ne hne]
    exact ⟨c, ⟨ts, hc⟩, w, hsettled ▸ hsection⟩
  · have hhead' : t = .santa → s.santa ≠ .head := fun ht hat => hhead ⟨ht, hat⟩
    rcases hsection.eq_or with hrest | ⟨u, hmutex, hu, hrest⟩
    · exact Matched.begin hc hrest hhead' h
    · rw [mutex_settled] at hmutex
      -- only the thread with the mutex can go on
      have ht : t = w := by
        by_contra hne
        have hholds : ¬ Holds s t := fun hholds =>
          hne (Option.some.inj ((hex t hholds).symm.trans hmutex))
        rw [(run_of_not_holds hholds hhead' h).1] at hmutex
        cases hmutex
      subst ht
      have hstep : Monitor.run s.settled t = some s'.settled := by
        by_cases hother : t = .santa
        · subst hother
          have hlocking : s.santa ≠ .locking := by
            intro hat
            rw [Monitor.run, step, State.stepSanta, hat] at h
            rw [(lock_map_eq_some h).1] at hmutex
            cases hmutex
          rw [settled_of_ne hlocking, settled_of_run (hhead' rfl) h]
          exact h
        · exact run_settled_of_ne hother h
      obtain rfl := Option.some.inj (hu.symm.trans hstep)
      exact ⟨c, ⟨ts, hc⟩, t, hrest⟩

theorem exists_matched {ts : List Thread} (h : exec run start ts = some s) :
    ∃ c, Matched s c := by
  have hkept : (∃ c, Matched s c) ∧ Exclusive s.mutex (Holds s) ∧ JobsLeft s := by
    refine exec_invariant' (P := fun s => (∃ c, Matched s c) ∧
      Exclusive s.mutex (Holds s) ∧ JobsLeft s) ?_ ⟨⟨Workshop.start, ⟨[], rfl⟩, .santa, ?_⟩,
        inv_start.exclusive, jobsLeft_start⟩ h
    · rintro s t s' ⟨⟨c, hs⟩, hex, hjobs⟩ hrun
      exact ⟨hs.run hex hjobs hrun, exclusive_step hex hrun, hjobs.run hrun⟩
    · rw [settled_of_ne Santa.noConfusion, ofStretch_start]
      exact .refl _
  exact hkept.1

/-- A step by stretches, statement by statement. -/
theorem exists_exec_of_step {c' : Workshop.State} (hs : BarrierInv c)
    (h : Workshop.step c t = some c') : ∃ ts, exec run (.ofStretch c) ts = some (.ofStretch c') := by
  obtain ⟨u, hu, -, hsection⟩ := step_ofStretch hs h
  obtain ⟨n, hn⟩ := hsection.repeats
  by_cases hhead : t = .santa ∧ (State.ofStretch c).santa = .head
  · obtain ⟨rfl, hhead⟩ := hhead
    rw [State.atLock, if_pos hhead] at hu
    refine ⟨.santa :: .santa :: List.replicate n .santa,
      exec_cons_eq_some.mpr ⟨_, ?_, exec_cons_eq_some.mpr ⟨u, hu, hn⟩⟩⟩
    have hlt : (State.ofStretch c).jobs < MAX_JOBS :=
      Nat.cast_lt.mpr (hs.jobs.resolve_left (step_eq_some.mp h).1)
    rw [run, step, State.stepSanta, hhead]
    exact congrArg (fun x => some ((State.ofStretch c).setSanta x)) (if_pos hlt)
  · have hat : (State.ofStretch c).atLock t = .ofStretch c := by
      unfold State.atLock
      cases t with
      | santa => exact if_neg fun hat => hhead ⟨rfl, hat⟩
      | _ => rfl
    rw [hat] at hu
    exact ⟨t :: List.replicate n t, exec_cons_eq_some.mpr ⟨u, hu, hn⟩⟩

theorem exists_exec_ofStretch {ts : List Thread}
    (h : exec Workshop.step Workshop.start ts = some c) :
    ∃ ts', exec run start ts' = some (.ofStretch c) := by
  have hkept : BarrierInv c ∧ ∃ ts', exec run start ts' = some (.ofStretch c) := by
    refine exec_invariant' (P := fun c => BarrierInv c ∧ ∃ ts', exec run start ts' =
      some (.ofStretch c)) ?_ ⟨barrierInv_start, [], congrArg some ofStretch_start.symm⟩ h
    rintro c t c' ⟨hs, ts, hrun⟩ hstep
    obtain ⟨ts', hrun'⟩ := exists_exec_of_step hs hstep
    exact ⟨hs.step hstep, ts ++ ts', exec_append.mpr ⟨_, hrun, hrun'⟩⟩
  exact hkept.2

end Runs

/-- No thread is in a stretch, or Santa has left with the mutex, and his test of `jobs` is not
behind him. -/
structure AtRest (s : State) : Prop where
  locking : s.santa ≠ .locking
  mutex : s.mutex = none ∨ s.mutex = some .santa ∧ s.santa = .returned

/-- At rest the two models reach the same states. -/
theorem reached_by_stretches_iff {s : State} (hrest : AtRest s) :
    (∃ ts, exec run start ts = some s) ↔
      ∃ ts c, exec Workshop.step Workshop.start ts = some c ∧ s = .ofStretch c := by
  constructor
  · rintro ⟨ts, h⟩
    obtain ⟨c, ⟨ts', hc⟩, t, hsection⟩ := exists_matched h
    rw [settled_of_ne hrest.locking] at hsection
    refine ⟨ts', c, hc, hsection.eq_or.resolve_right ?_⟩
    rintro ⟨u, hmutex, hu, -⟩
    rcases hrest.mutex with hfree | ⟨hsanta, hreturned⟩
    · rw [hfree] at hmutex
      cases hmutex
    · rw [hsanta] at hmutex
      obtain rfl := Option.some.inj hmutex
      rw [run, step, State.stepSanta, hreturned] at hu
      cases hu
  · rintro ⟨ts, c, hc, rfl⟩
    exact exists_exec_ofStretch hc

/-- Santa falls asleep. -/
theorem reached_by_stretches_asleep :
    ∃ s ts c, exec run start (List.replicate 3 .santa) = some s ∧
      exec Workshop.step Workshop.start ts = some c ∧ s = .ofStretch c := by
  obtain ⟨s, hs⟩ : ∃ s, exec run start (List.replicate 3 .santa) = some s := ⟨_, rfl⟩
  have hrest : AtRest s := by
    obtain rfl := Option.some.inj hs
    exact ⟨Santa.noConfusion, .inl rfl⟩
  obtain ⟨ts, c, hc, hsc⟩ := (reached_by_stretches_iff hrest).mp ⟨_, hs⟩
  exact ⟨s, ts, c, hs, hc, hsc⟩

end Sysopy.Workshop.Monitor
