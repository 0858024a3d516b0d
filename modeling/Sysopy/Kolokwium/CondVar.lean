import Sysopy.Library.Mutex
import Sysopy.Library.Transition

/-!
# A counter and a condition variable

In each round `main` counts from zero to `reps`, with one signal for every step, and a new thread
waits until the counter is at least 1000 and then adds 10. The waiting may end without a signal.
A thread that is woken is at a lock again, and from there goes back to its test.
-/
namespace Sysopy.Kolokwium.CondVar

open Mutex Transition

def LIMIT : ℕ := 1000
def BONUS : ℕ := 10

/-- The next statement of `main`, with the counter of its inner loop. -/
inductive Main
  /-- `for (int k = 0; ...)`. -/
  | head
  /-- `count = 0`. -/
  | reset
  | create
  | loop (i : ℕ)
  | lock (i : ℕ)
  | increment (i : ℕ)
  | signal (i : ℕ)
  | unlock (i : ℕ)
  | join
  | lockCheck
  /-- `if (count != reps + 10)`. -/
  | check
  | unlockCheck
  /-- After `puts("OK")`. -/
  | ok
  /-- After `exit(-1)`. -/
  | wrong
  deriving DecidableEq

/-- The next statement of `wait_for_counter`, if there is such a thread. -/
inductive Waiter
  | absent
  | lock
  /-- `while (count < 1000)`. -/
  | test
  | asleep
  /-- `count += 10`. -/
  | add
  | unlock
  | exited
  deriving DecidableEq

inductive Thread
  | main
  | waiter
  deriving DecidableEq

structure State where
  k : ℕ
  main : Main
  waiter : Waiter
  mutex : Option Thread
  count : ℕ

def start : State := ⟨0, .head, .absent, none, 0⟩

/-- `pthread_cond_signal`, and any other end of the waiting. -/
def Waiter.wake : Waiter → Waiter
  | .asleep => .lock
  | waiter => waiter

section Step

variable (rounds reps : ℕ) (s : State)

def stepMain : Option State :=
  match s.main with
  | .head => some { s with main := if s.k < rounds then .reset else .ok }
  | .reset => some { s with count := 0, main := .create }
  | .create => some { s with waiter := .lock, main := .loop 0 }
  | .loop i => some { s with main := if i < reps then .lock i else .join }
  | .lock i =>
    if s.mutex = none then some { s with mutex := some .main, main := .increment i } else none
  | .increment i => some { s with count := s.count + 1, main := .signal i }
  | .signal i => some { s with waiter := s.waiter.wake, main := .unlock i }
  | .unlock i => some { s with mutex := none, main := .loop (i + 1) }
  | .join => if s.waiter = .exited then some { s with main := .lockCheck } else none
  | .lockCheck => if s.mutex = none then some { s with mutex := some .main, main := .check } else none
  | .check => some { s with main := if s.count ≠ reps + BONUS then .wrong else .unlockCheck }
  | .unlockCheck => some { s with mutex := none, k := s.k + 1, main := .head }
  | .ok | .wrong => none

def stepWaiter : Option State :=
  match s.waiter with
  | .lock => if s.mutex = none then some { s with mutex := some .waiter, waiter := .test } else none
  | .test =>
    if s.count < LIMIT then some { s with mutex := none, waiter := .asleep }
    else some { s with waiter := .add }
  | .add => some { s with count := s.count + BONUS, waiter := .unlock }
  | .unlock => some { s with mutex := none, waiter := .exited }
  | .absent | .asleep | .exited => none

/-- A step of a thread, or an end of the waiting without a signal. -/
inductive Event
  | main
  | waiter
  | spurious
  deriving DecidableEq

def step : Event → Option State
  | .main => stepMain rounds reps s
  | .waiter => stepWaiter s
  | .spurious => if s.waiter = .asleep then some { s with waiter := .lock } else none

end Step

/-! ## The invariant -/

def Main.holds : Main → Prop
  | .increment _ | .signal _ | .unlock _ | .check | .unlockCheck => True
  | _ => False

def Waiter.holds : Waiter → Prop
  | .test | .add | .unlock => True
  | _ => False

/-- What the waiting thread has added. -/
def Waiter.added : Waiter → ℕ
  | .unlock | .exited => BONUS
  | _ => 0

/-- Where `main` stands, the counter has the increments of `main` and what the other thread has
added. Between two rounds there is no other thread. -/
def Counted (reps : ℕ) (s : State) : Prop :=
  match s.main with
  | .head | .reset | .ok => s.waiter = .absent ∨ s.waiter = .exited
  | .create => (s.waiter = .absent ∨ s.waiter = .exited) ∧ s.count = 0
  | .loop i => s.waiter ≠ .absent ∧ i ≤ reps ∧ s.count = i + s.waiter.added
  | .lock i | .increment i => s.waiter ≠ .absent ∧ i < reps ∧ s.count = i + s.waiter.added
  | .signal i | .unlock i => s.waiter ≠ .absent ∧ i < reps ∧ s.count = i + 1 + s.waiter.added
  | .join => s.waiter ≠ .absent ∧ s.count = reps + s.waiter.added
  | .lockCheck | .check | .unlockCheck => s.waiter = .exited ∧ s.count = reps + BONUS
  | .wrong => False

def State.holds (s : State) : Thread → Prop
  | .main => s.main.holds
  | .waiter => s.waiter.holds

structure Inv (reps : ℕ) (s : State) : Prop where
  owned : Owned s.mutex s.holds
  counted : Counted reps s
  enough : s.waiter = .add → LIMIT ≤ s.count
  /-- Nobody sleeps through the last signal. -/
  asleep : s.waiter = .asleep → s.count < LIMIT ∨ ∃ i, s.main = .signal i

theorem inv_start (reps : ℕ) : Inv reps start where
  owned t := by cases t <;> simp [start, State.holds, Main.holds, Waiter.holds]
  counted := .inl rfl
  enough h := by cases h
  asleep h := by cases h

section Invariant

variable {rounds reps : ℕ} {s s' : State}

@[simp] theorem holds_wake (x : Waiter) : x.wake.holds ↔ x.holds := by
  cases x <;> simp [Waiter.wake, Waiter.holds]

@[simp] theorem added_wake (x : Waiter) : x.wake.added = x.added := by
  cases x <;> rfl

theorem Inv.ownedMain (hs : Inv reps s) (hwaiter : s'.waiter.holds ↔ s.waiter.holds)
    (hmain : Uses .main s.mutex s'.mutex s.main.holds s'.main.holds) : Owned s'.mutex s'.holds := by
  refine hs.owned.step (fun u hu => ?_) hmain
  cases u with
  | main => exact absurd rfl hu
  | waiter => exact hwaiter

theorem Inv.ownedWaiter (hs : Inv reps s) (hmain : s'.main = s.main)
    (hwaiter : Uses .waiter s.mutex s'.mutex s.waiter.holds s'.waiter.holds) :
    Owned s'.mutex s'.holds := by
  refine hs.owned.step (fun u hu => ?_) hwaiter
  cases u with
  | main => simp only [State.holds, hmain]
  | waiter => exact absurd rfl hu

theorem Inv.of_count (hs : Inv reps s) (howned : Owned s'.mutex s'.holds)
    (hcounted : Counted reps s') (hwaiter : s'.waiter = s.waiter) (hcount : s'.count = s.count)
    (hsignal : ∀ i, s.main ≠ .signal i) : Inv reps s' := by
  refine ⟨howned, hcounted, ?_, ?_⟩
  · rw [hwaiter, hcount]
    exact hs.enough
  · rw [hwaiter, hcount]
    exact fun h => .inl ((hs.asleep h).resolve_right fun ⟨i, hi⟩ => hsignal i hi)

theorem Inv.stepMain (hs : Inv reps s) (h : stepMain rounds reps s = some s') : Inv reps s' := by
  have hcounted := hs.counted
  unfold CondVar.stepMain at h
  unfold Counted at hcounted
  cases hmain : s.main with
  | head =>
    rw [hmain] at h hcounted
    obtain rfl := Option.some.inj h
    refine hs.of_count (hs.ownedMain Iff.rfl (.keep ?_)) ?_ rfl rfl (by simp [hmain])
    · rw [hmain]
      dsimp only
      split_ifs <;> simp [Main.holds]
    · unfold Counted
      dsimp only
      split_ifs <;> exact hcounted
  | reset =>
    rw [hmain] at h hcounted
    obtain rfl := Option.some.inj h
    refine ⟨hs.ownedMain Iff.rfl (.keep (by simp [hmain, Main.holds])), ⟨hcounted, rfl⟩, ?_, ?_⟩
    · intro hadd
      rcases hcounted with hw | hw <;> simp [hw] at hadd
    · intro hasleep
      rcases hcounted with hw | hw <;> simp [hw] at hasleep
  | create =>
    rw [hmain] at h hcounted
    obtain rfl := Option.some.inj h
    obtain ⟨hw, hcount⟩ := hcounted
    refine ⟨hs.ownedMain ?_ (.keep (by simp [hmain, Main.holds])), ?_, ?_, ?_⟩
    · rcases hw with hw | hw <;> simp [hw, Waiter.holds]
    · exact ⟨by simp, Nat.zero_le reps, hcount⟩
    · intro hadd
      cases hadd
    · intro hasleep
      cases hasleep
  | loop i =>
    rw [hmain] at h hcounted
    obtain rfl := Option.some.inj h
    refine hs.of_count (hs.ownedMain Iff.rfl (.keep ?_)) ?_ rfl rfl (by simp [hmain])
    · rw [hmain]
      dsimp only
      split_ifs <;> simp [Main.holds]
    · obtain ⟨hw, hle, hcount⟩ := hcounted
      unfold Counted
      dsimp only
      split_ifs with hlt
      · exact ⟨hw, hlt, hcount⟩
      · exact ⟨hw, by rw [hcount, le_antisymm hle (not_lt.mp hlt)]⟩
  | lock i =>
    rw [hmain] at h hcounted
    dsimp only at h
    split_ifs at h with hfree
    obtain rfl := Option.some.inj h
    refine hs.of_count (hs.ownedMain Iff.rfl ?_) hcounted rfl rfl (by simp [hmain])
    rw [hfree]
    exact .lock trivial
  | increment i =>
    rw [hmain] at h hcounted
    obtain rfl := Option.some.inj h
    obtain ⟨hw, hlt, hcount⟩ := hcounted
    refine ⟨hs.ownedMain Iff.rfl (.keep (by simp [hmain, Main.holds])), ?_, ?_, ?_⟩
    · exact ⟨hw, hlt, by dsimp only; omega⟩
    · intro hadd
      exact (hs.enough hadd).trans (Nat.le_succ _)
    · exact fun _ => .inr ⟨i, rfl⟩
  | signal i =>
    rw [hmain] at h hcounted
    obtain rfl := Option.some.inj h
    obtain ⟨hw, hlt, hcount⟩ := hcounted
    refine ⟨hs.ownedMain (holds_wake _) (.keep (by simp [hmain, Main.holds])), ?_, ?_, ?_⟩
    · exact ⟨by cases hx : s.waiter <;> simp_all [Waiter.wake], hlt, by simpa using hcount⟩
    · intro hadd
      apply hs.enough
      cases hx : s.waiter <;> simp_all [Waiter.wake]
    · intro hasleep
      cases hx : s.waiter <;> simp_all [Waiter.wake]
  | unlock i =>
    rw [hmain] at h hcounted
    obtain rfl := Option.some.inj h
    refine hs.of_count (hs.ownedMain Iff.rfl (.unlock ?_ (by simp [Main.holds]))) hcounted rfl rfl
      (by simp [hmain])
    rw [hmain]
    trivial
  | join =>
    rw [hmain] at h hcounted
    dsimp only at h
    split_ifs at h with hexited
    obtain rfl := Option.some.inj h
    refine hs.of_count (hs.ownedMain Iff.rfl (.keep (by simp [hmain, Main.holds]))) ?_ rfl rfl
      (by simp [hmain])
    obtain ⟨-, hcount⟩ := hcounted
    rw [hexited] at hcount
    exact ⟨hexited, hcount⟩
  | lockCheck =>
    rw [hmain] at h hcounted
    dsimp only at h
    split_ifs at h with hfree
    obtain rfl := Option.some.inj h
    refine hs.of_count (hs.ownedMain Iff.rfl ?_) hcounted rfl rfl (by simp [hmain])
    rw [hfree]
    exact .lock trivial
  | check =>
    rw [hmain] at h hcounted
    obtain rfl := Option.some.inj h
    obtain ⟨hexited, hcount⟩ := hcounted
    refine hs.of_count (hs.ownedMain Iff.rfl (.keep ?_)) ?_ rfl rfl (by simp [hmain])
    · rw [hmain]
      simp [hcount, Main.holds]
    · simp only [Counted, hcount, ne_eq, not_true_eq_false, if_false]
      exact ⟨hexited, trivial⟩
  | unlockCheck =>
    rw [hmain] at h hcounted
    obtain rfl := Option.some.inj h
    refine hs.of_count (hs.ownedMain Iff.rfl (.unlock ?_ (by simp [Main.holds]))) (.inr hcounted.1)
      rfl rfl (by simp [hmain])
    rw [hmain]
    trivial
  | ok | wrong =>
    rw [hmain] at h
    cases h

theorem Counted.of_waiter (h : Counted reps s) (hmain : s'.main = s.main)
    (hlive : s.waiter ≠ .absent ∧ s.waiter ≠ .exited) (hlive' : s'.waiter ≠ .absent)
    (hcount : s'.count + s.waiter.added = s.count + s'.waiter.added) : Counted reps s' := by
  unfold Counted at h ⊢
  rw [hmain]
  cases hm : s.main with
  | head | reset | ok =>
    rw [hm] at h
    exact absurd h (by simp [hlive])
  | create =>
    rw [hm] at h
    exact absurd h.1 (by simp [hlive])
  | lockCheck | check | unlockCheck =>
    rw [hm] at h
    exact absurd h.1 hlive.2
  | loop i | lock i | increment i | signal i | unlock i =>
    rw [hm] at h
    exact ⟨hlive', h.2.1, by have hcounted := h.2.2; omega⟩
  | join =>
    rw [hm] at h
    exact ⟨hlive', by have hcounted := h.2; omega⟩
  | wrong =>
    rw [hm] at h
    exact h

theorem Inv.stepWaiter (hs : Inv reps s) (h : stepWaiter s = some s') : Inv reps s' := by
  unfold CondVar.stepWaiter at h
  cases hwaiter : s.waiter with
  | lock =>
    rw [hwaiter] at h
    dsimp only at h
    split_ifs at h with hfree
    obtain rfl := Option.some.inj h
    refine ⟨hs.ownedWaiter rfl ?_, hs.counted.of_waiter rfl (by simp [hwaiter]) (by simp)
      (by simp [hwaiter, Waiter.added]), by simp, by simp⟩
    rw [hfree]
    exact .lock trivial
  | test =>
    rw [hwaiter] at h
    have hholds : s.waiter.holds := by rw [hwaiter]; trivial
    dsimp only at h
    split_ifs at h with hless
    · obtain rfl := Option.some.inj h
      refine ⟨hs.ownedWaiter rfl (.unlock hholds (by simp [Waiter.holds])),
        hs.counted.of_waiter rfl (by simp [hwaiter]) (by simp) (by simp [hwaiter, Waiter.added]),
        by simp, fun _ => .inl hless⟩
    · obtain rfl := Option.some.inj h
      refine ⟨hs.ownedWaiter rfl (.keep (iff_of_true trivial hholds)),
        hs.counted.of_waiter rfl (by simp [hwaiter]) (by simp) (by simp [hwaiter, Waiter.added]),
        fun _ => not_lt.mp hless, by simp⟩
  | add =>
    rw [hwaiter] at h
    obtain rfl := Option.some.inj h
    have hholds : s.waiter.holds := by rw [hwaiter]; trivial
    exact ⟨hs.ownedWaiter rfl (.keep (iff_of_true trivial hholds)),
      hs.counted.of_waiter rfl (by simp [hwaiter]) (by simp) (by simp [hwaiter, Waiter.added]),
      by simp, by simp⟩
  | unlock =>
    rw [hwaiter] at h
    obtain rfl := Option.some.inj h
    have hholds : s.waiter.holds := by rw [hwaiter]; trivial
    exact ⟨hs.ownedWaiter rfl (.unlock hholds (by simp [Waiter.holds])),
      hs.counted.of_waiter rfl (by simp [hwaiter]) (by simp) (by simp [hwaiter, Waiter.added]),
      by simp, by simp⟩
  | absent | asleep | exited =>
    rw [hwaiter] at h
    cases h

theorem Inv.step {e : Event} (hs : Inv reps s) (h : step rounds reps s e = some s') :
    Inv reps s' := by
  cases e with
  | main => exact hs.stepMain h
  | waiter => exact hs.stepWaiter h
  | spurious =>
    unfold CondVar.step at h
    split_ifs at h with hasleep
    obtain rfl := Option.some.inj h
    exact ⟨hs.ownedWaiter rfl (.keep (by simp [hasleep, Waiter.holds])),
      hs.counted.of_waiter rfl (by simp [hasleep]) (by simp) (by simp [hasleep, Waiter.added]),
      by simp, by simp⟩

/-! ## Progress -/

/-- Where the counter gets far enough, somebody can always step without being woken for nothing. -/
theorem Inv.exists_step (hs : Inv reps s) (hreps : LIMIT ≤ reps) (hok : s.main ≠ .ok) :
    (CondVar.stepMain rounds reps s).isSome ∨ (CondVar.stepWaiter s).isSome := by
  have hcounted := hs.counted
  unfold Counted at hcounted
  by_cases hwaiter : s.waiter.holds
  · refine .inr ?_
    unfold CondVar.stepWaiter
    cases hw : s.waiter <;> simp only [hw, Waiter.holds] at hwaiter
    · dsimp only
      split_ifs <;> rfl
    · rfl
    · rfl
  have hfree : ¬ s.main.holds → s.mutex = none := by
    intro hmain
    have hnone := hs.owned
    cases hm : s.mutex with
    | none => rfl
    | some t =>
      have ht := (hnone t).mp hm
      cases t with
      | main => exact absurd ht hmain
      | waiter => exact absurd ht hwaiter
  unfold CondVar.stepMain
  cases hm : s.main with
  | lock i | lockCheck =>
    have hnone := hfree (by simp [hm, Main.holds])
    simp [hnone]
  | join =>
    rw [hm] at hcounted
    have hnone := hfree (by simp [hm, Main.holds])
    obtain ⟨hlive, hcount⟩ := hcounted
    cases hw : s.waiter with
    | absent => exact absurd hw hlive
    | lock => exact .inr (by simp [CondVar.stepWaiter, hw, hnone])
    | test | add | unlock => exact absurd trivial (by rw [hw] at hwaiter; exact hwaiter)
    | asleep =>
      -- the last signal came when the counter was far enough
      rcases hs.asleep hw with hless | ⟨i, hi⟩
      · rw [hw] at hcount
        simp only [Waiter.added] at hcount
        omega
      · rw [hm] at hi
        cases hi
    | exited => exact .inl (by simp)
  | wrong =>
    rw [hm] at hcounted
    exact hcounted.elim
  | ok => exact absurd hm hok
  | _ => exact .inl rfl

/-- The steps of `main` to the end; a round has `5 * reps + 8`. -/
def mainLeft (rounds reps : ℕ) (s : State) : ℕ :=
  let rest := (rounds - s.k - 1) * (5 * reps + 8)
  match s.main with
  | .head => (rounds - s.k) * (5 * reps + 8) + 1
  | .reset => rest + (5 * reps + 8)
  | .create => rest + (5 * reps + 7)
  | .loop i => rest + (5 * (reps - i) + 6)
  | .lock i => rest + (5 * (reps - i) + 5)
  | .increment i => rest + (5 * (reps - i) + 4)
  | .signal i => rest + (5 * (reps - i) + 3)
  | .unlock i => rest + (5 * (reps - i) + 2)
  | .join => rest + 5
  | .lockCheck => rest + 4
  | .check => rest + 3
  | .unlockCheck => rest + 2
  | .ok | .wrong => 0

/-- The steps of the other thread until it sleeps or ends. -/
def Waiter.left : Waiter → ℕ
  | .absent | .asleep | .exited => 0
  | .lock => 4
  | .test => 3
  | .add => 2
  | .unlock => 1

/-- With each of its steps `main` starts or wakes the other thread at most once. -/
def left (rounds reps : ℕ) (s : State) : ℕ := 5 * mainLeft rounds reps s + s.waiter.left

theorem left_wake (x : Waiter) : x.wake.left ≤ x.left + 4 := by
  cases x <;> simp [Waiter.wake, Waiter.left]

theorem Inv.left_stepMain (hs : Inv reps s) (h : CondVar.stepMain rounds reps s = some s') :
    mainLeft rounds reps s' < mainLeft rounds reps s ∧ s'.waiter.left ≤ s.waiter.left + 4 := by
  have hcounted := hs.counted
  unfold Counted at hcounted
  unfold CondVar.stepMain at h
  unfold mainLeft
  cases hm : s.main with
  | head =>
    rw [hm] at h
    obtain rfl := Option.some.inj h
    refine ⟨?_, Nat.le_add_right _ 4⟩
    dsimp only
    split_ifs with hlt
    · obtain ⟨d, hd⟩ : ∃ d, rounds - s.k = d + 1 := ⟨rounds - s.k - 1, by omega⟩
      rw [hd, Nat.add_sub_cancel, Nat.succ_mul]
      exact Nat.lt_succ_self _
    · exact Nat.succ_pos _
  | create =>
    rw [hm] at h
    obtain rfl := Option.some.inj h
    exact ⟨by dsimp only; omega, Nat.le_add_left 4 _⟩
  | signal i =>
    rw [hm] at h
    obtain rfl := Option.some.inj h
    exact ⟨by dsimp only; omega, left_wake s.waiter⟩
  | loop i =>
    rw [hm] at h
    obtain rfl := Option.some.inj h
    refine ⟨?_, Nat.le_add_right _ 4⟩
    dsimp only
    split_ifs with hlt <;> dsimp only <;> omega
  | unlock i =>
    rw [hm] at h hcounted
    obtain rfl := Option.some.inj h
    have hlt := hcounted.2.1
    exact ⟨by dsimp only; omega, Nat.le_add_right _ 4⟩
  | check =>
    rw [hm] at h
    obtain rfl := Option.some.inj h
    refine ⟨?_, Nat.le_add_right _ 4⟩
    dsimp only
    split_ifs with hwrong <;> dsimp only <;> omega
  | lock i | join | lockCheck =>
    rw [hm] at h
    dsimp only at h
    split_ifs at h
    obtain rfl := Option.some.inj h
    exact ⟨by dsimp only; omega, Nat.le_add_right _ 4⟩
  | unlockCheck =>
    rw [hm] at h
    obtain rfl := Option.some.inj h
    refine ⟨?_, Nat.le_add_right _ 4⟩
    dsimp only
    rw [Nat.sub_sub]
    omega
  | reset | increment i =>
    rw [hm] at h
    obtain rfl := Option.some.inj h
    exact ⟨by dsimp only; omega, Nat.le_add_right _ 4⟩
  | ok | wrong =>
    rw [hm] at h
    cases h

theorem left_stepWaiter (h : CondVar.stepWaiter s = some s') :
    mainLeft rounds reps s' = mainLeft rounds reps s ∧ s'.waiter.left < s.waiter.left := by
  unfold CondVar.stepWaiter at h
  cases hw : s.waiter with
  | lock | test =>
    rw [hw] at h
    dsimp only at h
    split_ifs at h
    all_goals
      obtain rfl := Option.some.inj h
      exact ⟨rfl, by simp [Waiter.left]⟩
  | add | unlock =>
    rw [hw] at h
    obtain rfl := Option.some.inj h
    exact ⟨rfl, by simp [Waiter.left]⟩
  | absent | asleep | exited =>
    rw [hw] at h
    cases h

theorem Inv.left_step (hs : Inv reps s) {e : Event} (he : e ≠ .spurious)
    (h : CondVar.step rounds reps s e = some s') : left rounds reps s' < left rounds reps s := by
  unfold left
  cases e with
  | main =>
    obtain ⟨hmain, hwaiter⟩ := hs.left_stepMain h
    omega
  | waiter =>
    have hleft : mainLeft rounds reps s' = mainLeft rounds reps s ∧
        s'.waiter.left < s.waiter.left := left_stepWaiter h
    omega
  | spurious => exact absurd rfl he

theorem Inv.length_le {schedule : List Event} (hs : Inv reps s)
    (hrun : exec (CondVar.step rounds reps) s schedule = some s')
    (hnone : ∀ e ∈ schedule, e ≠ .spurious) :
    schedule.length + left rounds reps s' ≤ left rounds reps s := by
  induction schedule generalizing s with
  | nil =>
    obtain rfl := Option.some.inj hrun
    simp
  | cons e schedule ih =>
    obtain ⟨t, ht, hrun⟩ := exec_cons_eq_some.mp hrun
    have hrest := ih (hs.step ht) hrun fun e he => hnone e (List.mem_cons_of_mem _ he)
    have hless := hs.left_step (hnone e (List.mem_cons_self ..)) ht
    rw [List.length_cons]
    omega

/-! ## A counter that does not get far enough -/

/-- The first round, in which nobody adds anything. -/
structure Short (reps : ℕ) (s : State) : Prop where
  inv : Inv reps s
  k : s.k = 0
  main : s.main ≠ .lockCheck ∧ s.main ≠ .check ∧ s.main ≠ .unlockCheck ∧ s.main ≠ .ok
  waiter : s.waiter ≠ .add ∧ s.waiter ≠ .unlock ∧ s.waiter ≠ .exited

/-- While the other thread runs, the counter has no more than the two have added. -/
theorem Counted.count_le (h : Counted reps s) (hlive : s.waiter ≠ .absent ∧ s.waiter ≠ .exited) :
    s.count ≤ reps + s.waiter.added := by
  unfold Counted at h
  cases hm : s.main with
  | head | reset | ok =>
    rw [hm] at h
    exact absurd h (by simp [hlive])
  | create =>
    rw [hm] at h
    exact absurd h.1 (by simp [hlive])
  | lockCheck | check | unlockCheck =>
    rw [hm] at h
    exact absurd h.1 hlive.2
  | loop i | lock i | increment i | signal i | unlock i =>
    rw [hm] at h
    have hle := h.2.1
    have hcount := h.2.2
    omega
  | join =>
    rw [hm] at h
    exact h.2.le
  | wrong =>
    rw [hm] at h
    exact h.elim

theorem Short.stepMain (hs : Short reps s) (hrounds : 0 < rounds)
    (h : CondVar.stepMain rounds reps s = some s') : Short reps s' := by
  obtain ⟨hinv, hk, hmain, hwaiter⟩ := hs
  have hinv' := hinv.stepMain h
  unfold CondVar.stepMain at h
  cases hm : s.main with
  | head =>
    rw [hm] at h
    obtain rfl := Option.some.inj h
    have hlt : s.k < rounds := by omega
    exact ⟨hinv', hk, by simp [hlt], hwaiter⟩
  | loop i =>
    rw [hm] at h
    obtain rfl := Option.some.inj h
    refine ⟨hinv', hk, ?_, hwaiter⟩
    dsimp only
    split_ifs <;> simp
  | signal i =>
    rw [hm] at h
    obtain rfl := Option.some.inj h
    refine ⟨hinv', hk, by simp, ?_⟩
    cases hw : s.waiter <;> simp_all [Waiter.wake]
  | lock i =>
    rw [hm] at h
    dsimp only at h
    split_ifs at h
    obtain rfl := Option.some.inj h
    exact ⟨hinv', hk, by simp, hwaiter⟩
  | join =>
    rw [hm] at h
    dsimp only at h
    split_ifs at h with hexited
    exact absurd hexited hwaiter.2.2
  | create =>
    rw [hm] at h
    obtain rfl := Option.some.inj h
    exact ⟨hinv', hk, by simp, by simp⟩
  | reset | increment i | unlock i =>
    rw [hm] at h
    obtain rfl := Option.some.inj h
    exact ⟨hinv', hk, by simp, hwaiter⟩
  | wrong =>
    rw [hm] at h
    cases h
  | lockCheck | check | unlockCheck | ok => simp [hm] at hmain

theorem Short.step (hs : Short reps s) (hrounds : 0 < rounds) (hreps : reps < LIMIT) {e : Event}
    (h : CondVar.step rounds reps s e = some s') : Short reps s' := by
  cases e with
  | main => exact hs.stepMain hrounds h
  | waiter =>
    have hinv := hs.inv.stepWaiter h
    obtain ⟨hadd, hunlock, hexited⟩ := hs.waiter
    change CondVar.stepWaiter s = some s' at h
    unfold CondVar.stepWaiter at h
    cases hw : s.waiter with
    | lock =>
      rw [hw] at h
      dsimp only at h
      split_ifs at h
      obtain rfl := Option.some.inj h
      exact ⟨hinv, hs.k, hs.main, by simp⟩
    | test =>
      have hle := hs.inv.counted.count_le (by simp [hw])
      rw [hw] at h hle
      dsimp only [Waiter.added] at h hle
      rw [if_pos (by omega)] at h
      obtain rfl := Option.some.inj h
      exact ⟨hinv, hs.k, hs.main, by simp⟩
    | add => exact absurd hw hadd
    | unlock => exact absurd hw hunlock
    | absent | asleep | exited =>
      rw [hw] at h
      cases h
  | spurious =>
    have hinv := hs.inv.step h
    unfold CondVar.step at h
    split_ifs at h
    obtain rfl := Option.some.inj h
    exact ⟨hinv, hs.k, hs.main, by simp⟩

end Invariant

/-- `main` never leaves with a wrong value, and the other thread adds only when the counter is at
least 1000. Where the counter gets so far, nobody gets stuck before `main` is done, and without
waiting that ends for nothing no run is longer than a bound; where it does not, `main` never gets
done. -/
theorem counter_correct (rounds reps : ℕ) :
    (∀ schedule s, exec (step rounds reps) start schedule = some s →
      s.main ≠ .wrong ∧ (s.waiter = .add → LIMIT ≤ s.count)) ∧
    (LIMIT ≤ reps → (∀ schedule s, exec (step rounds reps) start schedule = some s →
      s.main ≠ .ok → ∃ e, e ≠ .spurious ∧ (step rounds reps s e).isSome) ∧
      ∃ bound, ∀ schedule s, exec (step rounds reps) start schedule = some s →
        (∀ e ∈ schedule, e ≠ .spurious) → schedule.length ≤ bound) ∧
    (reps < LIMIT → 0 < rounds →
      ∀ schedule s, exec (step rounds reps) start schedule = some s → s.main ≠ .ok) := by
  have hinv : ∀ schedule s, exec (step rounds reps) start schedule = some s → Inv reps s :=
    fun schedule s hrun => exec_invariant' (fun _ _ _ hs h => hs.step h) (inv_start reps) hrun
  refine ⟨fun schedule s hrun => ?_, fun hreps => ⟨fun schedule s hrun hok => ?_, ?_⟩,
    fun hreps hrounds schedule s hrun => ?_⟩
  · have hs := hinv schedule s hrun
    refine ⟨fun hwrong => ?_, hs.enough⟩
    have hcounted := hs.counted
    unfold Counted at hcounted
    rw [hwrong] at hcounted
    exact hcounted
  · have hgo : (stepMain rounds reps s).isSome ∨ (stepWaiter s).isSome :=
      (hinv schedule s hrun).exists_step hreps hok
    rcases hgo with hmain | hwaiter
    · exact ⟨.main, by decide, hmain⟩
    · exact ⟨.waiter, by decide, hwaiter⟩
  · refine ⟨left rounds reps start, fun schedule s hrun hnone => ?_⟩
    have hle := (inv_start reps).length_le hrun hnone
    omega
  · have hs : Short reps s := exec_invariant' (fun _ _ _ hs h => hs.step hrounds hreps h)
      ⟨inv_start reps, rfl, by simp [start], by simp [start]⟩ hrun
    exact hs.main.2.2.2

end Sysopy.Kolokwium.CondVar
