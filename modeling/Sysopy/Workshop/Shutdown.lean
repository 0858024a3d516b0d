import Sysopy.Workshop.Counters

/-!
# The end of Santa's work

Santa ends his work by a `break` out of the block that has the mutex, which is the only way for
him to end. From then on the mutex is his, and no other thread gets past a lock or a wait.
-/
namespace Sysopy.Workshop.Monitor

open Mutex Transition

/-- The thread has returned from its routine. -/
def Ended (s : State) : Thread → Prop
  | .santa => s.santa = .returned
  | .reindeer _ | .elf _ => False

section Steps

variable {s s' : State} {a : Action}

theorem owned_start : Owned start.mutex (Holds start) := by
  intro t
  cases t <;> exact iff_of_false (fun h => nomatch h) Bool.false_ne_true

theorem owned_step (h : Owned s.mutex (Holds s)) (hend : ¬ Ends s a) (hs : step s a = some s') :
    Owned s'.mutex (Holds s') :=
  have hmoves := step_moves hend hs
  h.step hmoves.others hmoves.uses

theorem not_owner_of_ended (h : Owned s.mutex (Holds s)) (t : Thread) (ht : Ended s t) :
    s.mutex ≠ some t := by
  cases t with
  | santa =>
    intro howner
    have hholds : s.santa.holds = true := (h .santa).mp howner
    have hplace : s.santa = .returned := ht
    rw [hplace] at hholds
    cases hholds
  | reindeer r => exact absurd ht id
  | elf e => exact absurd ht id

/-- Santa has returned with the mutex. -/
structure Abandoned (s : State) : Prop where
  santa : s.santa = .returned
  mutex : s.mutex = some .santa

theorem abandoned_of_ends (h : Owned s.mutex (Holds s)) (hend : Ends s a) :
    ∃ s', step s a = some s' ∧ Abandoned s' := by
  obtain ⟨rfl, hbreak⟩ := hend
  refine ⟨_, stepSanta_of_breaks hbreak, rfl, ?_⟩
  have hholds : Holds s .santa := by rw [Holds, hbreak.1]; rfl
  exact (h .santa).mpr hholds

end Steps

/-- No thread that has ended owns the mutex, in all states of a run, exactly if the run does not
get to Santa's `break`. -/
theorem ended_not_owner_iff (as : List Action) :
    (∀ bs, bs <+: as → ∀ s, exec step start bs = some s → ∀ t, Ended s t → s.mutex ≠ some t) ↔
      Along step (fun s a => ¬ Ends s a) start as := by
  apply always_iff_along (P := fun s => Owned s.mutex (Holds s))
  · exact fun s h t ht => not_owner_of_ended h t ht
  · exact fun s a t h hend hs => owned_step h hend hs
  · intro s a h hend
    obtain ⟨s', hs', habandoned⟩ := abandoned_of_ends h (not_not.mp hend)
    exact ⟨s', hs', fun hgood => hgood .santa habandoned.santa habandoned.mutex⟩
  · exact owned_start

/-! ## Afterwards -/

theorem lock_eq_none {s : State} (h : Abandoned s) (t : Thread) (f : State → State) :
    (s.lock t).map f = none := by
  rw [State.lock, if_neg (by rw [h.mutex]; exact Option.some_ne_none _)]
  rfl

/-- No thread takes another statement. -/
theorem Abandoned.run_eq_none {s : State} (h : Abandoned s) (hex : Exclusive s.mutex (Holds s))
    (t : Thread) : step s (.run t) = none := by
  have hnot : ∀ u, u ≠ .santa → ¬ Holds s u := fun u hu hholds =>
    hu (Option.some.inj ((hex u hholds).symm.trans h.mutex))
  cases t with
  | santa => rw [step, State.stepSanta, h.santa]
  | reindeer r =>
    have hholds := hnot (.reindeer r) Thread.noConfusion
    rw [step, State.stepReindeer]
    cases hplace : s.reindeers r with
    | away => exact lock_eq_none h _ _
    | waiting w =>
      cases w with
      | blocked => rfl
      | woken => exact lock_eq_none h _ _
    | _ => exact absurd (by rw [Holds, hplace]; rfl) hholds
  | elf e =>
    have hholds := hnot (.elf e) Thread.noConfusion
    rw [step, State.stepElf]
    cases hplace : s.elves e with
    | away => exact lock_eq_none h _ _
    | queued w | inShop w =>
      cases w with
      | blocked => rfl
      | woken => exact lock_eq_none h _ _
    | _ => exact absurd (by rw [Holds, hplace]; rfl) hholds

/-- Whatever happens then, the reindeers and elves stay where they are. -/
theorem blocked_of_abandoned {s s' : State} {as : List Action} (hex : Exclusive s.mutex (Holds s))
    (h : Abandoned s) (hrun : exec step s as = some s') :
    Abandoned s' ∧ ∀ t, step s' (.run t) = none := by
  have hkept : Exclusive s'.mutex (Holds s') ∧ Abandoned s' := by
    refine exec_invariant' (P := fun s => Exclusive s.mutex (Holds s) ∧ Abandoned s) ?_ ⟨hex, h⟩ hrun
    rintro s a t ⟨hex, h⟩ hs
    refine ⟨exclusive_step hex hs, ?_⟩
    cases a with
    | run u => rw [h.run_eq_none hex u] at hs; cases hs
    | spurious u =>
      cases u <;> obtain rfl := Option.some.inj hs
      · exact ⟨by rw [State.setSanta, h.santa]; rfl, h.mutex⟩
      · exact ⟨h.santa, h.mutex⟩
      · exact ⟨h.santa, h.mutex⟩
  exact ⟨hkept.2, hkept.2.run_eq_none hkept.1⟩

/-- The reindeers count themselves one after the other and wait. -/
def arrivals : List Action :=
  (List.finRange REINDEERS_NO).flatMap fun r => List.replicate 4 (.run (.reindeer r))

/-- They find the counter reset and leave. -/
def departures : List Action :=
  (List.finRange REINDEERS_NO).flatMap fun r => List.replicate 3 (.run (.reindeer r))

/-- Two deliveries and a third one after which Santa ends. -/
def lastDelivery : List Action :=
  arrivals ++ List.replicate 12 (.run .santa) ++ departures ++
    (arrivals ++ List.replicate 12 (.run .santa) ++ departures) ++
    (arrivals ++ List.replicate 9 (.run .santa))

theorem not_ended_not_owner :
    ¬ ∀ (as : List Action) (s : State), exec step start as = some s →
      ∀ t, Ended s t → s.mutex ≠ some t := by
  intro hclaim
  have hrun : (exec step start lastDelivery).map (fun s => (s.santa, s.mutex)) =
      some (.returned, some .santa) := by decide +kernel
  obtain ⟨s, hs, hend⟩ := Option.map_eq_some_iff.mp hrun
  obtain ⟨hsanta, hmutex⟩ := Prod.mk.inj hend
  exact hclaim lastDelivery s hs .santa hsanta hmutex

end Sysopy.Workshop.Monitor
