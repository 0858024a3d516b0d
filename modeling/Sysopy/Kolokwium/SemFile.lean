import Sysopy.Library.CInteger
import Sysopy.Library.Semaphore
import Sysopy.Library.Family
import Sysopy.Library.Transition
import Mathlib.Tactic

/-!
# Two processes, one file and a System V semaphore

A parent and its child write lines, each line to a file and to the terminal. The file was opened
before the `fork`, so both write at one offset. A process takes the semaphore around its two
writes. The parent removes the semaphore when the child has ended. A `semop` on a semaphore that
has been removed, or could not be made, fails, and the caller goes on. A process that divides by
a `max_sleep_time` of zero is killed.
-/
namespace Sysopy.Kolokwium.SemFile

open CInteger Semaphore Family Transition

inductive Process
  | parent
  | child
  deriving DecidableEq

instance : Fintype Process := ⟨{.parent, .child}, fun p => by cases p <;> decide⟩

/-- `Wpis rodzica. Petla %d. Spalem %d`, or `Wpis dziecka.`. -/
structure Entry where
  process : Process
  loop : ℤ
  slept : ℤ
  deriving DecidableEq

/-- The next statement of a process; `s` is the time it has slept. -/
inductive Place
  /-- `while(loopCounter--)`. -/
  | head
  | locking (s : ℤ)
  /-- `write(fd, ...)`. -/
  | writing (s : ℤ)
  /-- `write(1, ...)`. -/
  | echoing (s : ℤ)
  | unlocking
  /-- After the loop, the parent in `waitpid`. -/
  | ended
  /-- `semctl(semid, 0, IPC_RMID)`. -/
  | removing
  | returned
  /-- By `SIGFPE`. -/
  | killed
  deriving DecidableEq

/-- `sem` is `none` when there is no semaphore. -/
structure State where
  sem : Option (Unit → ℤ)
  loopCounter : Process → ℤ
  place : Process → Place
  file : List Entry
  terminal : List Entry

/-- `semget` with `IPC_EXCL` makes a semaphore or fails. -/
def start (created : Bool) (loopCounter : Process → ℤ) : State where
  sem := if created then some fun _ => 1 else none
  loopCounter := loopCounter
  place := fun _ => .head
  file := []
  terminal := []

namespace State

def setPlace (s : State) (p : Process) (x : Place) : State :=
  { s with place := Function.update s.place p x }

/-- One `semop`; `none` while the process has to wait. -/
def call (s : State) (p : Process) (sem_op : ℤ) (x : Place) : Option State :=
  match s.sem with
  | none => some (s.setPlace p x)
  | some sem =>
    (semop [((), sem_op)] sem).map fun sem => { s.setPlace p x with sem := some sem }

theorem call_of_sem {s : State} {value : Unit → ℤ} (h : s.sem = some value) (p : Process)
    (sem_op : ℤ) (x : Place) : s.call p sem_op x =
      (semop [((), sem_op)] value).map fun sem => { s.setPlace p x with sem := some sem } := by
  rw [call, h]

def step (max_sleep_time : ℤ) (s : State) : Process × ℕ → Option State
  | (p, rand) =>
    match s.place p with
    | .head =>
      let counted : State :=
        { s with loopCounter := Function.update s.loopCounter p (toInt (s.loopCounter p - 1)) }
      if s.loopCounter p = 0 then some (counted.setPlace p .ended)
      else if max_sleep_time = 0 then some (counted.setPlace p .killed)
      else some (counted.setPlace p (.locking ((rand : ℤ).tmod max_sleep_time + 1)))
    | .locking t => s.call p (-1) (.writing t)
    | .writing t =>
      some { s.setPlace p (.echoing t) with file := s.file ++ [⟨p, s.loopCounter p, t⟩] }
    | .echoing t =>
      some { s.setPlace p .unlocking with terminal := s.terminal ++ [⟨p, s.loopCounter p, t⟩] }
    | .unlocking => s.call p 1 .head
    | .ended =>
      if p = .parent ∧ (s.place .child = .ended ∨ s.place .child = .killed) then
        some (s.setPlace p .removing)
      else none
    | .removing => some { s.setPlace p .returned with sem := none }
    | .returned | .killed => none

end State

/-! ## The invariant -/

/-- The process has the semaphore. -/
def Place.holds : Place → ℤ
  | .writing _ | .echoing _ | .unlocking => 1
  | _ => 0

/-- The lines of a process in the file. -/
def loops (p : Process) (file : List Entry) : List ℤ :=
  (file.filter fun entry => entry.process = p).map Entry.loop

/-- `n - 1`, and so on down to `0`. -/
def countdown (n : ℕ) : List ℤ := (List.range n).reverse.map Nat.cast

/-- The lines that the process still has to write to the file. -/
def State.toWrite (s : State) (p : Process) : List ℤ :=
  match s.place p with
  | .locking _ | .writing _ => countdown ((s.loopCounter p).toNat + 1)
  | _ => countdown (s.loopCounter p).toNat

/-- The line that the process has written to the file only. -/
def State.pending (s : State) (p : Process) : List Entry :=
  match s.place p with
  | .echoing t => [⟨p, s.loopCounter p, t⟩]
  | _ => []

/-- The places from the head of the loop to its end. -/
def Place.InLoop : Place → Prop
  | .ended | .removing | .returned | .killed => False
  | _ => True

structure Inv (loopCounter : Process → ℤ) (s : State) : Prop where
  /-- The semaphore is there until both processes have written everything. -/
  sem : s.place .parent ≠ .returned →
    ∃ value : Unit → ℤ, s.sem = some value ∧ 0 ≤ value () ∧
      value () + total Place.holds s.place = 1
  gone : s.place .parent = .returned → s.sem = none
  ended : s.place .parent = .removing ∨ s.place .parent = .returned → s.place .child = .ended
  child : s.place .child ≠ .removing ∧ s.place .child ≠ .returned
  alive : ∀ p, s.place p ≠ .killed
  counter : ∀ p, s.place p = .ended ∨ s.place p = .removing ∨ s.place p = .returned →
    s.loopCounter p = -1
  range : ∀ p, (s.place p).InLoop → 0 ≤ s.loopCounter p ∧ s.loopCounter p ≤ INT_MAX
  lines : ∀ p, loops p s.file ++ s.toWrite p = countdown (loopCounter p).toNat
  terminal : s.file = s.terminal ++ s.pending .parent ++ s.pending .child

theorem holds_nonneg (x : Place) : 0 ≤ x.holds := by
  cases x <;> simp [Place.holds]

theorem countdown_succ (n : ℕ) : countdown (n + 1) = (n : ℤ) :: countdown n := by
  unfold countdown
  rw [List.range_succ, List.reverse_append, List.map_append]
  rfl

theorem inv_start {loopCounter : Process → ℤ}
    (hcounter : ∀ p, 0 ≤ loopCounter p ∧ loopCounter p ≤ INT_MAX) :
    Inv loopCounter (start true loopCounter) where
  sem _ := by
    have hzero : total Place.holds (start true loopCounter).place = 0 := total_eq_zero fun _ => rfl
    exact ⟨_, rfl, by decide, by rw [hzero]; rfl⟩
  gone h := by cases h
  ended h := by rcases h with h | h <;> cases h
  child := ⟨nofun, nofun⟩
  alive p h := by cases h
  counter p h := by rcases h with h | h | h <;> cases h
  range p _ := hcounter p
  lines p := rfl
  terminal := rfl

section Step

variable {loopCounter : Process → ℤ} {s s' : State} {p : Process} {x : Place}

theorem toWrite_eq (hplace : s'.place p = s.place p) (hcounter : s'.loopCounter p = s.loopCounter p) :
    s'.toWrite p = s.toWrite p := by
  rw [State.toWrite, State.toWrite, hplace, hcounter]

theorem pending_eq (hplace : s'.place p = s.place p) (hcounter : s'.loopCounter p = s.loopCounter p) :
    s'.pending p = s.pending p := by
  rw [State.pending, State.pending, hplace, hcounter]

theorem loops_append (p : Process) (file : List Entry) (entry : Entry) :
    loops p (file ++ [entry]) =
      if entry.process = p then loops p file ++ [entry.loop] else loops p file := by
  unfold loops
  split_ifs with h <;> simp [h]

/-- A process that has the semaphore has it alone. -/
theorem Inv.alone (hs : Inv loopCounter s) (hp : 0 < (s.place p).holds) {q : Process} (hq : q ≠ p) :
    (s.place q).holds = 0 := by
  have hlive : s.place .parent ≠ .returned := by
    intro hreturned
    have hended := hs.ended (.inr hreturned)
    cases p with
    | parent => rw [hreturned] at hp; exact absurd hp (by decide)
    | child => rw [hended] at hp; exact absurd hp (by decide)
  obtain ⟨value, -, hnonneg, hvalue⟩ := hs.sem hlive
  have hboth := add_le_total holds_nonneg s.place hq
  have hle := holds_nonneg (s.place q)
  omega

theorem Place.InLoop.ne (h : x.InLoop) :
    x ≠ .ended ∧ x ≠ .removing ∧ x ≠ .returned ∧ x ≠ .killed := by
  refine ⟨?_, ?_, ?_, ?_⟩ <;> rintro rfl <;> exact h

theorem Inv.live (hs : Inv loopCounter s) (hbefore : (s.place p).InLoop) :
    s.place .parent ≠ .returned := by
  intro hreturned
  cases p with
  | parent => exact hbefore.ne.2.2.1 hreturned
  | child => exact hbefore.ne.1 (hs.ended (.inr hreturned))

theorem Inv.inLoop (hs : Inv loopCounter s) (hbefore : (s.place p).InLoop) (hx : x.InLoop)
    (hplace : s'.place = Function.update s.place p x)
    (hrange : 0 ≤ s'.loopCounter p ∧ s'.loopCounter p ≤ INT_MAX)
    (hcounter : ∀ q, q ≠ p → s'.loopCounter q = s.loopCounter q)
    (hsem : ∃ value : Unit → ℤ, s'.sem = some value ∧ 0 ≤ value () ∧
      value () + total Place.holds s'.place = 1)
    (hloops : loops p s'.file ++ s'.toWrite p = loops p s.file ++ s.toWrite p)
    (hothers : ∀ q, q ≠ p → loops q s'.file = loops q s.file)
    (hterminal : s'.file = s'.terminal ++ s'.pending .parent ++ s'.pending .child) :
    Inv loopCounter s' := by
  have hself : s'.place p = x := by rw [hplace, Function.update_self]
  have hother : ∀ q, q ≠ p → s'.place q = s.place q := fun q hq => by
    rw [hplace, Function.update_of_ne hq]
  obtain ⟨hended, hremoving, hreturned, hkilled⟩ := hx.ne
  refine ⟨fun _ => hsem, fun h => ?_, fun h => ?_, ?_, fun q h => ?_, fun q h => ?_, fun q h => ?_,
    fun q => ?_, hterminal⟩
  · cases p with
    | parent => exact absurd (hself.symm.trans h) hreturned
    | child =>
      rw [hother .parent (by decide)] at h
      exact absurd h (hs.live hbefore)
  · cases p with
    | parent =>
      rw [hself] at h
      exact absurd h (by simp [hremoving, hreturned])
    | child =>
      rw [hother .parent (by decide)] at h
      exact absurd (hs.ended h) hbefore.ne.1
  · cases p with
    | parent =>
      rw [hother .child (by decide)]
      exact hs.child
    | child =>
      rw [hself]
      exact ⟨hremoving, hreturned⟩
  · by_cases hq : q = p
    · rw [hq, hself] at h
      exact hkilled h
    · rw [hother q hq] at h
      exact hs.alive q h
  · by_cases hq : q = p
    · rw [hq, hself] at h
      exact absurd h (by simp [hended, hremoving, hreturned])
    · rw [hother q hq] at h
      rw [hcounter q hq]
      exact hs.counter q h
  · by_cases hq : q = p
    · rw [hq]
      exact hrange
    · rw [hother q hq] at h
      rw [hcounter q hq]
      exact hs.range q h
  · by_cases hq : q = p
    · subst hq
      exact hloops.trans (hs.lines q)
    · rw [hothers q hq, toWrite_eq (hother q hq) (hcounter q hq)]
      exact hs.lines q

theorem Inv.sem_same (hs : Inv loopCounter s) (hlive : s.place .parent ≠ .returned)
    (hplace : s'.place = Function.update s.place p x) (hsem : s'.sem = s.sem)
    (hholds : x.holds = (s.place p).holds) :
    ∃ value : Unit → ℤ, s'.sem = some value ∧ 0 ≤ value () ∧
      value () + total Place.holds s'.place = 1 := by
  obtain ⟨value, hvalue, hnonneg, htotal⟩ := hs.sem hlive
  have hupdate := total_update Place.holds s.place p x
  rw [← hplace] at hupdate
  exact ⟨value, hsem.trans hvalue, hnonneg, by omega⟩

theorem Inv.call (hs : Inv loopCounter s) (hbefore : (s.place p).InLoop) (hx : x.InLoop) {sem_op : ℤ}
    (h : s.call p sem_op x = some s') (hholds : sem_op + x.holds = (s.place p).holds)
    (hwrite : ∀ t : State, t.place p = x → t.loopCounter p = s.loopCounter p →
      t.toWrite p = s.toWrite p ∧ t.pending p = s.pending p) : Inv loopCounter s' := by
  obtain ⟨value, hvalue, hnonneg, htotal⟩ := hs.sem (hs.live hbefore)
  rw [State.call_of_sem hvalue] at h
  obtain ⟨sem, hsem, rfl⟩ := Option.map_eq_some_iff.mp h
  obtain ⟨hops, hsem⟩ := semop_eq_some.mp hsem
  have hupdate := total_update Place.holds s.place p x
  obtain ⟨hself, hpending⟩ := hwrite { s.setPlace p x with sem := some sem }
    (Function.update_self ..) rfl
  refine hs.inLoop hbefore hx rfl (hs.range p hbefore) (fun _ _ => rfl) ⟨sem, rfl, ?_, ?_⟩ ?_
    (fun _ _ => rfl) ?_
  · have hop := hops ((), sem_op) (List.mem_singleton_self _)
    have hchange := hsem ()
    simp at hchange hop
    omega
  · have hchange := hsem ()
    simp at hchange
    change sem () + total Place.holds (Function.update s.place p x) = 1
    omega
  · rw [hself]
    rfl
  · have hother : ∀ q, q ≠ p → State.pending { s.setPlace p x with sem := some sem } q =
        s.pending q := fun q hq => pending_eq (Function.update_of_ne hq _ _) rfl
    have hterminal := hs.terminal
    cases p with
    | parent => rw [hpending, hother .child (by decide)]; exact hterminal
    | child => rw [hpending, hother .parent (by decide)]; exact hterminal

theorem pending_others (hplace : s'.place = Function.update s.place p x)
    (hcounter : ∀ q, q ≠ p → s'.loopCounter q = s.loopCounter q) {q : Process} (hq : q ≠ p) :
    s'.pending q = s.pending q :=
  pending_eq (by rw [hplace, Function.update_of_ne hq]) (hcounter q hq)

theorem pending_of_ne (h : ∀ t, s.place p ≠ .echoing t) : s.pending p = [] := by
  unfold State.pending
  cases hp : s.place p with
  | echoing t => exact absurd hp (h t)
  | _ => rfl

/-- The process has the semaphore, so only its own line can be on its way to the terminal. -/
theorem Inv.pending_alone (hs : Inv loopCounter s) (hp : 0 < (s.place p).holds) {q : Process}
    (hq : q ≠ p) : s.pending q = [] := by
  refine pending_of_ne fun t ht => ?_
  have halone := hs.alone hp hq
  rw [ht] at halone
  exact absurd halone (by simp [Place.holds])

theorem Inv.terminal_of_holds (hs : Inv loopCounter s) (hp : 0 < (s.place p).holds) :
    s.file = s.terminal ++ s.pending p := by
  have hterminal := hs.terminal
  cases p with
  | parent =>
    rw [hs.pending_alone hp (by decide : Process.child ≠ .parent), List.append_nil] at hterminal
    exact hterminal
  | child =>
    rw [hs.pending_alone hp (by decide : Process.parent ≠ .child), List.append_nil] at hterminal
    exact hterminal

theorem terminal_of_alone (h : s.file = s.terminal ++ s.pending p)
    (hnone : ∀ q, q ≠ p → s.pending q = []) :
    s.file = s.terminal ++ s.pending .parent ++ s.pending .child := by
  cases p with
  | parent => rw [hnone .child (by decide), List.append_nil, h]
  | child => rw [hnone .parent (by decide), List.append_nil, h]

theorem Inv.terminal_of_nothing (hs : Inv loopCounter s) (hnone : s.pending p = [])
    (hnone' : s'.pending p = []) (hfile : s'.file = s.file) (hterminal : s'.terminal = s.terminal)
    (hothers : ∀ q, q ≠ p → s'.pending q = s.pending q) :
    s'.file = s'.terminal ++ s'.pending .parent ++ s'.pending .child := by
  have hbefore := hs.terminal
  rw [hfile, hterminal]
  cases p with
  | parent => rwa [hnone', ← hnone, hothers .child (by decide)]
  | child => rwa [hnone', ← hnone, hothers .parent (by decide)]

theorem Inv.leave (hs : Inv loopCounter s) (hp : s.place p = .head) (hzero : s.loopCounter p = 0)
    (hplace : s'.place = Function.update s.place p .ended)
    (hcounter : s'.loopCounter = Function.update s.loopCounter p (-1)) (hsem : s'.sem = s.sem)
    (hfile : s'.file = s.file) (hterminal : s'.terminal = s.terminal) : Inv loopCounter s' := by
  have hbefore : (s.place p).InLoop := by rw [hp]; trivial
  have hself : s'.place p = .ended := by rw [hplace, Function.update_self]
  have hother : ∀ q, q ≠ p → s'.place q = s.place q := fun q hq => by
    rw [hplace, Function.update_of_ne hq]
  have hcounted : ∀ q, q ≠ p → s'.loopCounter q = s.loopCounter q := fun q hq => by
    rw [hcounter, Function.update_of_ne hq]
  refine ⟨fun _ => hs.sem_same (hs.live hbefore) hplace hsem (by rw [hp]; rfl), fun h => ?_,
    fun h => ?_, ?_, fun q h => ?_, fun q h => ?_, fun q h => ?_, fun q => ?_, ?_⟩
  · cases p with
    | parent => cases hself.symm.trans h
    | child =>
      rw [hother .parent (by decide)] at h
      exact absurd h (hs.live hbefore)
  · cases p with
    | parent => rcases h with h | h <;> cases hself.symm.trans h
    | child => exact hself
  · cases p with
    | parent =>
      rw [hother .child (by decide)]
      exact hs.child
    | child => exact ⟨by rw [hself]; nofun, by rw [hself]; nofun⟩
  · by_cases hq : q = p
    · rw [hq] at h
      cases hself.symm.trans h
    · rw [hother q hq] at h
      exact hs.alive q h
  · by_cases hq : q = p
    · rw [hq, hcounter, Function.update_self]
    · rw [hother q hq] at h
      rw [hcounted q hq]
      exact hs.counter q h
  · by_cases hq : q = p
    · rw [hq, hself] at h
      exact h.elim
    · rw [hother q hq] at h
      rw [hcounted q hq]
      exact hs.range q h
  · rw [hfile]
    by_cases hq : q = p
    · subst hq
      have hwrite := hs.lines q
      rw [State.toWrite, hp, hzero] at hwrite
      rw [State.toWrite, hself, hcounter, Function.update_self]
      exact hwrite
    · rw [toWrite_eq (hother q hq) (hcounted q hq)]
      exact hs.lines q
  · exact hs.terminal_of_nothing (pending_of_ne fun t => by rw [hp]; nofun)
      (pending_of_ne fun t => by rw [hself]; nofun) hfile hterminal
      fun q hq => pending_eq (hother q hq) (hcounted q hq)

theorem Inv.atEnd (hs : Inv loopCounter s) (hp : s.place .parent = .ended ∨ s.place .parent = .removing)
    (hx : x = .removing ∨ x = .returned) (hchild : s.place .child = .ended)
    (hplace : s'.place = Function.update s.place .parent x) (hcounter : s'.loopCounter = s.loopCounter)
    (hfile : s'.file = s.file) (hterminal : s'.terminal = s.terminal)
    (hsem : s'.place .parent ≠ .returned → ∃ value : Unit → ℤ, s'.sem = some value ∧ 0 ≤ value () ∧
      value () + total Place.holds s'.place = 1)
    (hgone : s'.place .parent = .returned → s'.sem = none) : Inv loopCounter s' := by
  have hself : s'.place .parent = x := by rw [hplace, Function.update_self]
  have hother : s'.place .child = s.place .child := by
    rw [hplace, Function.update_of_ne (by decide)]
  have hzero : s.loopCounter .parent = -1 :=
    hs.counter .parent (hp.elim .inl fun h => .inr (.inl h))
  refine ⟨hsem, hgone, fun _ => hother.trans hchild, ?_, fun q h => ?_, fun q h => ?_,
    fun q h => ?_, fun q => ?_, ?_⟩
  · rw [hother]
    exact hs.child
  · cases q with
    | parent =>
      rw [hself] at h
      rcases hx with rfl | rfl <;> cases h
    | child =>
      rw [hother] at h
      exact hs.alive .child h
  · rw [hcounter]
    cases q with
    | parent => exact hzero
    | child => exact hs.counter .child (.inl hchild)
  · cases q with
    | parent =>
      rw [hself] at h
      rcases hx with rfl | rfl <;> exact h.elim
    | child =>
      rw [hother, hchild] at h
      exact h.elim
  · rw [hfile]
    cases q with
    | parent =>
      have hlines := hs.lines .parent
      have hsame : s'.toWrite .parent = s.toWrite .parent := by
        rw [State.toWrite, State.toWrite, hself, hcounter]
        rcases hp with hp | hp <;> rcases hx with rfl | rfl <;> rw [hp]
      rw [hsame]
      exact hlines
    | child =>
      rw [toWrite_eq hother (by rw [hcounter])]
      exact hs.lines .child
  · refine hs.terminal_of_nothing (p := .parent) (pending_of_ne fun t ht => ?_)
      (pending_of_ne fun t ht => ?_) hfile hterminal fun q hq => ?_
    · rcases hp with hp | hp <;> cases hp.symm.trans ht
    · rw [hself] at ht
      rcases hx with rfl | rfl <;> cases ht
    · exact pending_others hplace (fun _ _ => by rw [hcounter]) hq

theorem Inv.step {max_sleep_time : ℤ} (hmax : max_sleep_time ≠ 0) {e : Process × ℕ}
    (hs : Inv loopCounter s) (h : s.step max_sleep_time e = some s') : Inv loopCounter s' := by
  obtain ⟨p, rand⟩ := e
  unfold State.step at h
  dsimp only at h
  cases hp : s.place p with
  | head =>
    have hbefore : (s.place p).InLoop := by rw [hp]; trivial
    rw [hp] at h
    dsimp only at h
    split_ifs at h with hzero
    · obtain rfl := Option.some.inj h
      exact hs.leave hp hzero rfl (by rw [hzero]; rfl) rfl rfl rfl
    · obtain rfl := Option.some.inj h
      obtain ⟨hlow, hhigh⟩ := hs.range p hbefore
      have hcounted : toInt (s.loopCounter p - 1) = s.loopCounter p - 1 :=
        toInt_eq_self (by omega) (by omega)
      refine hs.inLoop hbefore (x := .locking _) trivial rfl ?_
        (fun q hq => Function.update_of_ne hq _ _)
        (hs.sem_same (hs.live hbefore) rfl rfl (by rw [hp]; rfl)) ?_ (fun _ _ => rfl) ?_
      · simp only [State.setPlace, Function.update_self, hcounted]
        omega
      · have hn : (s.loopCounter p - 1).toNat + 1 = (s.loopCounter p).toNat := by omega
        simp only [State.toWrite, State.setPlace, Function.update_self, hp, hcounted, hn]
      · exact hs.terminal_of_nothing (pending_of_ne fun t => by rw [hp]; nofun)
          (pending_of_ne fun t => by simp [State.setPlace]) rfl rfl
          fun q hq => pending_others rfl (fun q hq => Function.update_of_ne hq _ _) hq
  | locking t =>
    rw [hp] at h
    refine hs.call (x := .writing t) (by rw [hp]; trivial) trivial h (by rw [hp]; rfl)
      fun s'' hplace hcounter => ?_
    simp only [State.toWrite, State.pending, hplace, hcounter, hp, and_self]
  | unlocking =>
    rw [hp] at h
    refine hs.call (x := .head) (by rw [hp]; trivial) trivial h (by rw [hp]; rfl)
      fun s'' hplace hcounter => ?_
    simp only [State.toWrite, State.pending, hplace, hcounter, hp, and_self]
  | writing t =>
    have hbefore : (s.place p).InLoop := by rw [hp]; trivial
    have hholds : 0 < (s.place p).holds := by rw [hp]; exact Int.one_pos
    have hfile := hs.terminal_of_holds hholds
    rw [hp] at h
    obtain rfl := Option.some.inj h
    refine hs.inLoop hbefore (x := .echoing t) trivial rfl (hs.range p hbefore) (fun _ _ => rfl)
      (hs.sem_same (hs.live hbefore) rfl rfl (by rw [hp]; rfl)) ?_ (fun q hq => ?_) ?_
    · have hcounter := Int.toNat_of_nonneg (hs.range p hbefore).1
      simp [loops_append, State.toWrite, State.setPlace, hp, countdown_succ, hcounter]
    · rw [loops_append, if_neg hq.symm]
    · refine terminal_of_alone (p := p) ?_ fun q hq => ?_
      · simp [hfile, State.pending, State.setPlace, hp]
      · rw [← hs.pending_alone hholds hq]
        refine pending_others (x := .echoing t) ?_ (fun _ _ => ?_) hq <;> rfl
  | echoing t =>
    have hbefore : (s.place p).InLoop := by rw [hp]; trivial
    have hholds : 0 < (s.place p).holds := by rw [hp]; exact Int.one_pos
    have hfile := hs.terminal_of_holds hholds
    rw [hp] at h
    obtain rfl := Option.some.inj h
    refine hs.inLoop hbefore (x := .unlocking) trivial rfl (hs.range p hbefore) (fun _ _ => rfl)
      (hs.sem_same (hs.live hbefore) rfl rfl (by rw [hp]; rfl)) ?_ (fun _ _ => rfl) ?_
    · simp [State.toWrite, State.setPlace, hp]
    · refine terminal_of_alone (p := p) ?_ fun q hq => ?_
      · simp [hfile, State.pending, State.setPlace, hp]
      · rw [← hs.pending_alone hholds hq]
        refine pending_others (x := .unlocking) ?_ (fun _ _ => ?_) hq <;> rfl
  | ended =>
    rw [hp] at h
    dsimp only at h
    split_ifs at h with hboth
    obtain ⟨rfl, hgone⟩ := hboth
    have hchild := hgone.resolve_right (hs.alive .child)
    obtain rfl := Option.some.inj h
    refine hs.atEnd (.inl hp) (.inl rfl) hchild rfl rfl rfl rfl (fun _ => ?_) fun h => ?_
    · exact hs.sem_same (by rw [hp]; nofun) rfl rfl (by rw [hp]; rfl)
    · simp [State.setPlace] at h
  | removing =>
    rw [hp] at h
    obtain rfl := Option.some.inj h
    cases p with
    | parent =>
      exact hs.atEnd (.inr hp) (.inr rfl) (hs.ended (.inl hp)) rfl rfl rfl rfl
        (fun hlive => absurd (by simp [State.setPlace]) hlive) fun _ => rfl
    | child => exact absurd hp hs.child.1
  | returned | killed =>
    rw [hp] at h
    cases h

/-! ## The end of a run -/

/-- The steps of a process to the end of its loop, and of the parent to the end of `main`. -/
def Place.left : Place → ℕ
  | .locking _ => 7
  | .writing _ => 6
  | .echoing _ => 5
  | .unlocking => 4
  | .head => 3
  | .ended => 2
  | .removing => 1
  | .returned | .killed => 0

def left (s : State) : ℕ :=
  (5 * (s.loopCounter .parent).toNat + (s.place .parent).left) +
    (5 * (s.loopCounter .child).toNat + (s.place .child).left)

theorem left_lt_of_place (hplace : s'.place = Function.update s.place p x)
    (hothers : ∀ q, q ≠ p → s'.loopCounter q = s.loopCounter q)
    (hless : 5 * (s'.loopCounter p).toNat + x.left <
      5 * (s.loopCounter p).toNat + (s.place p).left) :
    left s' < left s := by
  have hself : s'.place p = x := by rw [hplace, Function.update_self]
  have hother : ∀ q, q ≠ p → s'.place q = s.place q := fun q hq => by
    rw [hplace, Function.update_of_ne hq]
  unfold left
  cases p with
  | parent =>
    rw [hself, hother .child (by decide), hothers .child (by decide)]
    omega
  | child =>
    rw [hself, hother .parent (by decide), hothers .parent (by decide)]
    omega

theorem left_call {sem_op : ℤ} (h : s.call p sem_op x = some s')
    (hless : x.left < (s.place p).left) : left s' < left s := by
  unfold State.call at h
  cases hsem : s.sem with
  | none =>
    rw [hsem] at h
    obtain rfl := Option.some.inj h
    exact left_lt_of_place rfl (fun _ _ => rfl) (by simpa [State.setPlace] using hless)
  | some sem =>
    rw [hsem] at h
    obtain ⟨sem, -, rfl⟩ := Option.map_eq_some_iff.mp h
    exact left_lt_of_place rfl (fun _ _ => rfl) (by simpa [State.setPlace] using hless)

theorem Inv.left_step {max_sleep_time : ℤ} (hmax : max_sleep_time ≠ 0) {e : Process × ℕ}
    (hs : Inv loopCounter s) (h : s.step max_sleep_time e = some s') : left s' < left s := by
  obtain ⟨p, rand⟩ := e
  unfold State.step at h
  dsimp only at h
  cases hp : s.place p with
  | head =>
    rw [hp] at h
    dsimp only at h
    split_ifs at h with hzero
    · obtain rfl := Option.some.inj h
      refine left_lt_of_place rfl (fun q hq => Function.update_of_ne hq _ _) ?_
      have hcounted : toInt (0 - 1) = -1 := rfl
      simp only [State.setPlace, Function.update_self, hp, hzero, hcounted, Place.left]
      decide
    · obtain rfl := Option.some.inj h
      obtain ⟨hlow, hhigh⟩ := hs.range p (by rw [hp]; trivial)
      have hcounted : toInt (s.loopCounter p - 1) = s.loopCounter p - 1 :=
        toInt_eq_self (by omega) (by omega)
      refine left_lt_of_place rfl (fun q hq => Function.update_of_ne hq _ _) ?_
      simp only [State.setPlace, Function.update_self, hcounted, hp, Place.left]
      omega
  | locking t | unlocking =>
    rw [hp] at h
    exact left_call h (by rw [hp]; simp [Place.left])
  | writing t | echoing t | removing =>
    rw [hp] at h
    obtain rfl := Option.some.inj h
    exact left_lt_of_place rfl (fun _ _ => rfl) (by simp [State.setPlace, hp, Place.left])
  | ended =>
    rw [hp] at h
    dsimp only at h
    split_ifs at h
    obtain rfl := Option.some.inj h
    exact left_lt_of_place rfl (fun _ _ => rfl) (by simp [State.setPlace, hp, Place.left])
  | returned | killed =>
    rw [hp] at h
    cases h

theorem Inv.can_step (hs : Inv loopCounter s) {max_sleep_time : ℤ} (hbefore : (s.place p).InLoop)
    (hlock : ∀ t, s.place p = .locking t → ∀ q, (s.place q).holds = 0) :
    ∃ e, (s.step max_sleep_time e).isSome := by
  refine ⟨(p, 0), ?_⟩
  obtain ⟨value, hvalue, hnonneg, htotal⟩ := hs.sem (hs.live hbefore)
  unfold State.step
  dsimp only
  cases hp : s.place p with
  | head =>
    dsimp only
    split_ifs <;> rfl
  | locking t =>
    have hzero : total Place.holds s.place = 0 := total_eq_zero (hlock t hp)
    have hfree : ∀ op ∈ [((), (-1 : ℤ))], 0 ≤ value op.1 + op.2 := by
      simp
      omega
    dsimp only
    rw [State.call_of_sem hvalue, semop, if_pos hfree]
    rfl
  | unlocking =>
    have hfree : ∀ op ∈ [((), (1 : ℤ))], 0 ≤ value op.1 + op.2 := by
      simp
      omega
    dsimp only
    rw [State.call_of_sem hvalue, semop, if_pos hfree]
    rfl
  | writing t | echoing t => rfl
  | ended | removing | returned | killed =>
    rw [hp] at hbefore
    exact hbefore.elim

/-- Until the parent returns, somebody can step. -/
theorem Inv.exists_step (hs : Inv loopCounter s) {max_sleep_time : ℤ}
    (hlive : s.place .parent ≠ .returned) : ∃ e, (s.step max_sleep_time e).isSome := by
  by_cases hholder : ∃ p, 0 < (s.place p).holds
  · obtain ⟨p, hp⟩ := hholder
    refine hs.can_step (p := p) ?_ fun t ht => ?_
    · cases hplace : s.place p <;> simp [hplace, Place.holds, Place.InLoop] at hp ⊢
    · rw [ht] at hp
      exact absurd hp (by simp [Place.holds])
  · push Not at hholder
    have hfree : ∀ q, (s.place q).holds = 0 := fun q => le_antisymm (hholder q) (holds_nonneg _)
    by_cases hloop : ∃ p, (s.place p).InLoop
    · obtain ⟨p, hp⟩ := hloop
      exact hs.can_step hp fun _ _ => hfree
    · push Not at hloop
      have hparent := hloop .parent
      have hchild := hloop .child
      have hended : s.place .child = .ended := by
        cases hplace : s.place .child with
        | ended => rfl
        | removing => exact absurd hplace hs.child.1
        | returned => exact absurd hplace hs.child.2
        | killed => exact absurd hplace (hs.alive .child)
        | _ => rw [hplace] at hchild; exact absurd trivial hchild
      refine ⟨(.parent, 0), ?_⟩
      unfold State.step
      cases hplace : s.place .parent with
      | ended => simp [hplace, hended]
      | removing => simp [hplace]
      | returned => exact absurd hplace hlive
      | killed => exact absurd hplace (hs.alive .parent)
      | _ => rw [hplace] at hparent; exact absurd trivial hparent

end Step

end Sysopy.Kolokwium.SemFile
