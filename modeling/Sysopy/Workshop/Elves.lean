import Sysopy.Workshop.Threads

/-!
# The wait of an elf for Santa

The third elf of a group broadcasts on `cond_elves` before Santa knows of the group, and
the two elves that wait for him wait on the same variable, once and without a look at any
state. They go home unserved when they get the mutex before Santa has reset
`waiting_elves`. An elf that is woken before the reset was woken by its own group, so it
finds the counter full, and its slot is then one of the last three taken.
-/
namespace Sysopy.Workshop

open Transition

/-! ## Slots and resets -/

/-- Since the elf took its last slot, `waiting_elves` has been reset. -/
def Served : List Event → Fin ELVES_NO → Prop
  | [], _ => False
  | .reset :: _, _ => True
  | .took other :: log, e => other ≠ e ∧ Served log e

/-- The number of slots taken since the elf took its last one. -/
def slotsSince : List Event → Fin ELVES_NO → ℕ
  | [], _ => 0
  | .reset :: log, e => slotsSince log e
  | .took other :: log, e => if other = e then 0 else slotsSince log e + 1

/-- The elves whose slots have been taken since the last reset. -/
def group : List Event → List (Fin ELVES_NO)
  | [] => []
  | .reset :: _ => []
  | .took e :: log => e :: group log

theorem served_iff_not_mem_group {log : List Event} {e : Fin ELVES_NO} (h : .took e ∈ log) :
    Served log e ↔ e ∉ group log := by
  induction log with
  | nil => cases h
  | cons event log ih =>
    cases event with
    | reset => simp [Served, group]
    | took other =>
      by_cases hself : other = e
      · simp [Served, group, hself]
      · have hlog : .took e ∈ log := by simpa [Ne.symm hself] using h
        simp [Served, group, hself, Ne.symm hself, ih hlog]

theorem mem_group_iff_slotsSince_lt {log : List Event} {e : Fin ELVES_NO} (h : .took e ∈ log) :
    e ∈ group log ↔ slotsSince log e < (group log).length := by
  induction log with
  | nil => cases h
  | cons event log ih =>
    cases event with
    | reset => simp [group]
    | took other =>
      by_cases hself : other = e
      · simp [slotsSince, group, hself]
      · have hlog : .took e ∈ log := by simpa [Ne.symm hself] using h
        simp [slotsSince, group, hself, Ne.symm hself, ih hlog]

/-! ## The elves in every reachable state -/

structure ElvesInv (s : State) : Prop where
  count : s.waiting_elves = (group s.log).length
  le : s.waiting_elves ≤ ELVES_REQ
  took : ∀ e w, s.elves e = .inShop w → .took e ∈ s.log
  woken : ∀ e, s.elves e = .inShop .woken → e ∈ group s.log → s.waiting_elves = ELVES_REQ

theorem elvesInv_start : ElvesInv start := by
  constructor <;> simp [start, group]

namespace ElvesInv

variable {s s' : State}

theorem exists_elfLoop (hs : ElvesInv s) (e : Fin ELVES_NO) : ∃ s', s.elfLoop e = some s' := by
  unfold State.elfLoop
  split_ifs with hfull
  · exact ⟨_, rfl⟩
  · have hfree : s.waiting_elves < ELVES_REQ := lt_of_le_of_ne hs.le hfull
    unfold State.takeSlot
    rw [dif_pos hfree]
    exact ⟨_, rfl⟩

theorem of_eq (hs : ElvesInv s) (hcount : s'.waiting_elves = s.waiting_elves)
    (helves : s'.elves = s.elves) (hlog : s'.log = s.log) : ElvesInv s' := by
  obtain ⟨h₁, h₂, h₃, h₄⟩ := hs
  rw [← hcount, ← hlog] at h₁
  rw [← hcount] at h₂
  rw [← helves, ← hlog] at h₃
  rw [← helves, ← hlog, ← hcount] at h₄
  exact ⟨h₁, h₂, h₃, h₄⟩

theorem setElf (hs : ElvesInv s) (e : Fin ELVES_NO) {x : Elf} (hx : ∀ w, x ≠ .inShop w) :
    ElvesInv (s.setElf e x) where
  count := hs.count
  le := hs.le
  took := by
    intro other w hother
    by_cases hself : other = e
    · subst hself
      exact absurd (by simpa [State.setElf] using hother) (hx w)
    · exact hs.took other w (by simpa [State.setElf, hself] using hother)
  woken := by
    intro other hother
    by_cases hself : other = e
    · subst hself
      exact absurd (by simpa [State.setElf] using hother) (hx .woken)
    · exact hs.woken other (by simpa [State.setElf, hself] using hother)

theorem reset (hs : ElvesInv s) (hcount : s'.waiting_elves = 0)
    (helves : s'.elves = fun e => (s.elves e).wake) (hlog : s'.log = .reset :: s.log) :
    ElvesInv s' where
  count := by
    rw [hcount, hlog]
    rfl
  le := by
    rw [hcount]
    exact Nat.zero_le _
  took := by
    intro e w he
    rw [helves] at he
    rw [hlog]
    cases hat : s.elves e with
    | inShop v => exact List.mem_cons_of_mem _ (hs.took e v hat)
    | _ => simp [hat, Elf.wake] at he
  woken := by
    intro e _ hmem
    rw [hlog] at hmem
    cases hmem

/-- Before the group is full no elf of it has been woken, and the third one wakes the
others. -/
theorem takeSlot (hs : ElvesInv s) {e : Fin ELVES_NO} (h : s.takeSlot e = some s') :
    ElvesInv s' := by
  obtain ⟨hfree, rfl⟩ := State.takeSlot_eq_some h
  constructor
  · simp [group, hs.count]
  · exact hfree
  · intro other w hother
    by_cases hself : other = e
    · rw [hself]
      exact List.mem_cons_self
    · apply List.mem_cons_of_mem
      dsimp only at hother
      rw [Function.update_of_ne hself] at hother
      split_ifs at hother
      · cases hat : s.elves other with
        | inShop v => exact hs.took other v hat
        | _ => simp [hat, Elf.wake] at hother
      · exact hs.took other w hother
  · intro other hother hmem
    by_cases hself : other = e
    · simp [hself] at hother
    · dsimp only at hother
      rw [Function.update_of_ne hself] at hother
      split_ifs at hother with hfull
      · exact hfull
      · have hgroup : other ∈ group s.log := by simpa [group, hself] using hmem
        exact absurd (hs.woken other hother hgroup) hfree.ne

theorem step (hs : ElvesInv s) {t : Thread} (h : step s t = some s') : ElvesInv s' := by
  obtain ⟨_, h⟩ := step_eq_some.mp h
  cases t with
  | santa =>
    rcases State.stepSanta_elves h with ⟨hcount, helves, hlog⟩ | ⟨hcount, helves, hlog⟩
    · exact hs.of_eq hcount helves hlog
    · exact hs.reset hcount helves hlog
  | reindeer r =>
    have hothers := State.stepReindeer_others h
    exact hs.of_eq hothers.waiting_elves hothers.elves hothers.log
  | elf e =>
    rcases State.stepElf_cases h with rfl | htake | ⟨_, rfl⟩
    · exact hs.setElf e (by simp)
    · exact hs.takeSlot htake
    · exact hs.setElf e (by simp)

/-- With a full counter the elves of the group are those with the last three slots. -/
theorem served_iff (hs : ElvesInv s) {e : Fin ELVES_NO} (he : s.elves e = .inShop .woken) :
    Served s.log e ↔ (s.waiting_elves = ELVES_REQ → ELVES_REQ ≤ slotsSince s.log e) := by
  have htook := hs.took e .woken he
  rw [served_iff_not_mem_group htook]
  constructor
  · intro hgroup hfull
    rw [mem_group_iff_slotsSince_lt htook, ← hs.count, hfull] at hgroup
    exact not_lt.mp hgroup
  · intro hlast hgroup
    have hfull := hs.woken e he hgroup
    rw [mem_group_iff_slotsSince_lt htook, ← hs.count, hfull] at hgroup
    exact absurd hgroup (not_lt_of_ge (hlast hfull))

end ElvesInv

/-! ## Passing the wait -/

/-- The step takes the elf past the wait at the end of its routine. -/
def Passes (s : State) (e : Fin ELVES_NO) : Prop :=
  s.elves e = .inShop .woken ∧ (step s (.elf e)).isSome

/-- No elf passes before Santa has served the group of its slot. -/
def PassesServed (s : State) : Thread → Prop
  | .elf e => Passes s e → Served s.log e
  | _ => True

/-- An elf that passes while the counter is full has none of the last three slots. -/
def PassesOld (s : State) : Thread → Prop
  | .elf e => Passes s e → s.waiting_elves = ELVES_REQ → ELVES_REQ ≤ slotsSince s.log e
  | _ => True

theorem ElvesInv.passesServed_iff {s : State} (hs : ElvesInv s) (t : Thread) :
    PassesServed s t ↔ PassesOld s t := by
  cases t with
  | elf e =>
    constructor
    · intro hserved hpasses
      exact (hs.served_iff hpasses.1).mp (hserved hpasses)
    · intro hold hpasses
      exact (hs.served_iff hpasses.1).mpr (hold hpasses)
  | _ => exact Iff.rfl

/-- In a run the elves pass only after their groups have been served if and only if none
passes with one of the last three slots while the counter is full. -/
theorem along_passesServed_iff (schedule : List Thread) :
    Along step PassesServed start schedule ↔ Along step PassesOld start schedule := by
  constructor
  · exact along_invariant (fun _ _ _ hs _ h => hs.step h)
      (fun _ t hs => (hs.passesServed_iff t).mp) elvesInv_start
  · exact along_invariant (fun _ _ _ hs _ h => hs.step h)
      (fun _ t hs => (hs.passesServed_iff t).mpr) elvesInv_start

section Decidable

instance decidableServed : ∀ (log : List Event) (e : Fin ELVES_NO), Decidable (Served log e)
  | [], _ => inferInstanceAs (Decidable False)
  | .reset :: _, _ => inferInstanceAs (Decidable True)
  | .took other :: log, e =>
    have := decidableServed log e
    inferInstanceAs (Decidable (other ≠ e ∧ Served log e))

variable (s : State)

instance (e : Fin ELVES_NO) : Decidable (Passes s e) := inferInstanceAs (Decidable (_ ∧ _))

instance : DecidablePred (PassesServed s) := fun t => by
  unfold PassesServed
  split <;> infer_instance

end Decidable

/-- Three elves come, and the first of them goes home. Santa sleeps. -/
def threeElves : List Thread := [.santa, .elf 0, .elf 1, .elf 2, .elf 0]

theorem not_passesServed : ¬ ∀ schedule, Along step PassesServed start schedule := by
  intro hclaim
  have hthree := hclaim threeElves
  revert hthree
  decide +kernel

end Sysopy.Workshop
