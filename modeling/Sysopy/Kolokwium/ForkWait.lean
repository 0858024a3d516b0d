import Sysopy.Library.CInteger
import Sysopy.Library.Transition
import Mathlib.Data.Nat.Fib.Basic

/-!
# A Fibonacci number from a tree of processes

A process that needs two numbers starts the program for each of them and adds the exit codes that
`wait` brings, in whichever order the children end. A step is one call of `fork`, `execl` or
`wait`, or the way of `main` to the first of them, in one process of the tree. No `fork` and no
`execl` fails.
-/
namespace Sysopy.Kolokwium.ForkWait

open CInteger Transition

def atoi (s : List UInt8) : ℤ := toInt (strtol s)

/-- A process with the children that it has not waited for. -/
inductive Process
  | main (argv : List (List UInt8))
  | fib (n : ℤ)
  /-- In `spawn_fib(n)` after `fork`, with its child 0. -/
  | spawned (n : ℤ)
  | forked (n : ℤ) (first : Process)
  | waiting (first second : Process)
  | adding (code : ℤ) (child : Process)
  | exited (status : ℕ)
  deriving DecidableEq

/-- The process itself moves, its `wait` returns for a child, or a child moves. -/
inductive Event
  | run
  | waitFirst
  | waitSecond
  | first (e : Event)
  | second (e : Event)

/-- `exit`, of whose argument the low 8 bits are left. -/
def exit (code : ℤ) : Process := .exited (code % 256).toNat

/-- `WEXITSTATUS` of a child that `wait` can return for. -/
def Process.status : Process → Option ℕ
  | .exited status => some status
  | _ => none

def fib (n : ℤ) : Process := if n = 0 ∨ n = 1 then exit 1 else .fib n

def main (argv : List (List UInt8)) : Process :=
  match argv with
  | [_, arg] => if atoi arg > 11 ∨ atoi arg < 0 then exit (-1) else fib (atoi arg)
  | _ => exit (-1)

/-- The bytes of `"main"`. -/
def program : List UInt8 := [109, 97, 105, 110]

def step : Process → Event → Option Process
  | .main argv, .run => some (main argv)
  | .spawned n, .run => some (.main [program, decimal n])
  | .fib n, .run => some (.forked n (.spawned (n - 1)))
  | .forked n child, .run => some (.waiting child (.spawned (n - 2)))
  | .forked n child, .first e => (step child e).map (.forked n)
  | .waiting first second, .waitFirst => first.status.map fun code : ℕ => .adding code second
  | .waiting first second, .waitSecond => second.status.map fun code : ℕ => .adding code first
  | .waiting first second, .first e => (step first e).map fun first => .waiting first second
  | .waiting first second, .second e => (step second e).map fun second => .waiting first second
  | .adding code child, .waitFirst => child.status.map fun code' : ℕ => exit (code + code')
  | .adding code child, .first e => (step child e).map (.adding code)
  | _, _ => none

/-! ## What the program is to answer -/

/-- The number of the argument, where it is in range. -/
def argumentOf : List (List UInt8) → Option ℕ
  | [_, arg] => if 0 ≤ atoi arg ∧ atoi arg ≤ 11 then some (atoi arg).toNat else none
  | _ => none

/-- The exit code. -/
def codeOf (argv : List (List UInt8)) : ℕ :=
  match argumentOf argv with
  | some n => Nat.fib (n + 1)
  | none => 255

/-- The steps of the processes that start for a number. -/
def stepsFor (n : ℕ) : ℕ := 8 * Nat.fib (n + 1) - 7

def stepsOf (argv : List (List UInt8)) : ℕ :=
  match argumentOf argv with
  | some n => stepsFor n
  | none => 1

theorem stepsFor_add_two (k : ℕ) : stepsFor (k + 2) = stepsFor (k + 1) + stepsFor k + 7 := by
  have hfib : Nat.fib (k + 2 + 1) = Nat.fib (k + 1) + Nat.fib (k + 1 + 1) := Nat.fib_add_two
  have hfirst : 0 < Nat.fib (k + 1) := Nat.fib_pos.mpr (by omega)
  have hsecond : 0 < Nat.fib (k + 1 + 1) := Nat.fib_pos.mpr (by omega)
  unfold stepsFor
  omega

theorem fib_lt {n : ℕ} (h : n ≤ 11) : Nat.fib (n + 1) < 256 := by
  have hmono := Nat.fib_mono (show n + 1 ≤ 12 by omega)
  have hlast : Nat.fib 12 = 144 := by decide
  omega

theorem argumentOf_decimal {n : ℕ} (h : n ≤ 11) : argumentOf [program, decimal n] = some n := by
  have hatoi : atoi (decimal n) = n := toInt_strtol_decimal (by omega) (by simp only [INT_MAX]; omega)
  rw [argumentOf, hatoi, if_pos (by omega), Int.toNat_natCast]

theorem exit_natCast {n : ℕ} (h : n < 256) : exit n = .exited n := by
  rw [exit, Int.emod_eq_of_lt (by omega) (by omega), Int.toNat_natCast]

/-- The process ends with the code, after so many steps of it and its descendants. -/
inductive Answers : Process → ℕ → ℕ → Prop
  | main (argv : List (List UInt8)) : Answers (.main argv) (codeOf argv) (stepsOf argv)
  | spawned {n : ℕ} (h : n ≤ 11) : Answers (.spawned n) (Nat.fib (n + 1)) (stepsFor n + 1)
  | fib {k : ℕ} (h : k ≤ 9) :
    Answers (.fib (k + 2 : ℕ)) (Nat.fib (k + 3)) (stepsFor (k + 1) + stepsFor k + 6)
  | forked {k i : ℕ} {first : Process} (h : k ≤ 9) (hfirst : Answers first (Nat.fib (k + 2)) i) :
    Answers (.forked (k + 2 : ℕ) first) (Nat.fib (k + 3)) (i + stepsFor k + 4)
  | waiting {a b i j : ℕ} {first second : Process} (h : a + b < 256) (hfirst : Answers first a i)
      (hsecond : Answers second b j) : Answers (.waiting first second) (a + b) (i + j + 2)
  | adding {a b j : ℕ} {child : Process} (h : a + b < 256) (hchild : Answers child b j) :
    Answers (.adding a child) (a + b) (j + 1)
  | exited (status : ℕ) : Answers (.exited status) status 0

theorem Answers.eq_exited {p : Process} {v : ℕ} (h : Answers p v 0) : p = .exited v := by
  generalize hk : 0 = k at h
  cases h with
  | exited status => rfl
  | main argv =>
    unfold stepsOf at hk
    split at hk
    · rename_i n _
      have hpos : 0 < Nat.fib (n + 1) := Nat.fib_pos.mpr (by omega)
      unfold stepsFor at hk
      omega
    · omega
  | spawned | fib | forked | waiting | adding => omega

theorem Answers.of_status {p : Process} {v k status : ℕ} (h : Answers p v k)
    (hstatus : p.status = some status) : status = v ∧ k = 0 := by
  cases h with
  | exited v => exact ⟨(Option.some.inj hstatus).symm, rfl⟩
  | main | spawned | fib | forked | waiting | adding => cases hstatus

theorem answers_fib {n : ℕ} (h : n ≤ 11) :
    ∃ j, stepsFor n = j + 1 ∧ Answers (ForkWait.fib n) (Nat.fib (n + 1)) j := by
  match n with
  | 0 => exact ⟨0, rfl, .exited 1⟩
  | 1 => exact ⟨0, rfl, .exited 1⟩
  | k + 2 =>
    have hmore : ¬ (((k + 2 : ℕ) : ℤ) = 0 ∨ ((k + 2 : ℕ) : ℤ) = 1) := by omega
    rw [ForkWait.fib, if_neg hmore]
    exact ⟨_, stepsFor_add_two k, .fib (by omega)⟩

/-- The way of `main` to its end or to the first `fork`. -/
theorem answers_main (argv : List (List UInt8)) :
    ∃ j, stepsOf argv = j + 1 ∧ Answers (ForkWait.main argv) (codeOf argv) j := by
  rcases argv with _ | ⟨program, _ | ⟨arg, _ | ⟨more, rest⟩⟩⟩
  · exact ⟨0, rfl, .exited 255⟩
  · exact ⟨0, rfl, .exited 255⟩
  · by_cases hrange : 0 ≤ atoi arg ∧ atoi arg ≤ 11
    · obtain ⟨n, hn⟩ := Int.eq_ofNat_of_zero_le hrange.1
      have hargument : argumentOf [program, arg] = some n := by
        rw [argumentOf, if_pos hrange, hn, Int.toNat_natCast]
      rw [stepsOf, codeOf, hargument, ForkWait.main, if_neg (by omega), hn]
      exact answers_fib (by omega)
    · have hargument : argumentOf [program, arg] = none := if_neg hrange
      rw [stepsOf, codeOf, hargument, ForkWait.main, if_pos (by omega)]
      exact ⟨0, rfl, .exited 255⟩
  · exact ⟨0, rfl, .exited 255⟩

/-- A step is one of those that are left, and the code stays. -/
theorem Answers.step {p p' : Process} {v k : ℕ} {e : Event} (h : Answers p v k)
    (hstep : ForkWait.step p e = some p') : ∃ j, k = j + 1 ∧ Answers p' v j := by
  induction h generalizing e p' with
  | main argv =>
    cases e <;> cases hstep
    exact answers_main argv
  | @spawned n hn =>
    cases e <;> cases hstep
    have hmain := Answers.main [program, decimal n]
    rw [codeOf, stepsOf, argumentOf_decimal hn] at hmain
    exact ⟨_, rfl, hmain⟩
  | @fib k hk =>
    cases e <;> cases hstep
    have hfirst := Answers.spawned (show k + 1 ≤ 11 by omega)
    refine ⟨stepsFor (k + 1) + 1 + stepsFor k + 4, by omega, ?_⟩
    have hcast : ((k + 2 : ℕ) : ℤ) - 1 = (k + 1 : ℕ) := by omega
    rw [hcast]
    exact .forked hk hfirst
  | @forked k i first hk hfirst ih =>
    cases e with
    | run =>
      cases hstep
      have hcast : ((k + 2 : ℕ) : ℤ) - 2 = k := by omega
      have hfib : Nat.fib (k + 3) = Nat.fib (k + 2) + Nat.fib (k + 1) := by
        rw [Nat.fib_add_two, Nat.add_comm]
      have hless := fib_lt (show k + 2 ≤ 11 by omega)
      rw [hcast, hfib]
      refine ⟨i + (stepsFor k + 1) + 2, by omega, .waiting (hfib ▸ hless) hfirst ?_⟩
      exact .spawned (by omega)
    | first e =>
      obtain ⟨first', hfirst', rfl⟩ := Option.map_eq_some_iff.mp hstep
      obtain ⟨j, rfl, hnext⟩ := ih hfirst'
      exact ⟨j + stepsFor k + 4, by omega, .forked hk hnext⟩
    | waitFirst | waitSecond | second => cases hstep
  | @waiting a b i j first second hless hfirst hsecond ihfirst ihsecond =>
    cases e with
    | waitFirst =>
      obtain ⟨status, hstatus, rfl⟩ := Option.map_eq_some_iff.mp hstep
      obtain ⟨rfl, rfl⟩ := hfirst.of_status hstatus
      exact ⟨j + 1, by omega, .adding hless hsecond⟩
    | waitSecond =>
      obtain ⟨status, hstatus, rfl⟩ := Option.map_eq_some_iff.mp hstep
      obtain ⟨rfl, rfl⟩ := hsecond.of_status hstatus
      refine ⟨i + 1, by omega, ?_⟩
      rw [Nat.add_comm a]
      exact .adding (by omega) hfirst
    | first e =>
      obtain ⟨first', hfirst', rfl⟩ := Option.map_eq_some_iff.mp hstep
      obtain ⟨i', rfl, hnext⟩ := ihfirst hfirst'
      exact ⟨i' + j + 2, by omega, .waiting hless hnext hsecond⟩
    | second e =>
      obtain ⟨second', hsecond', rfl⟩ := Option.map_eq_some_iff.mp hstep
      obtain ⟨j', rfl, hnext⟩ := ihsecond hsecond'
      exact ⟨i + j' + 2, by omega, .waiting hless hfirst hnext⟩
    | run => cases hstep
  | @adding a b j child hless hchild ih =>
    cases e with
    | waitFirst =>
      obtain ⟨status, hstatus, rfl⟩ := Option.map_eq_some_iff.mp hstep
      obtain ⟨rfl, rfl⟩ := hchild.of_status hstatus
      rw [← Nat.cast_add, exit_natCast hless]
      exact ⟨0, rfl, .exited _⟩
    | first e =>
      obtain ⟨child', hchild', rfl⟩ := Option.map_eq_some_iff.mp hstep
      obtain ⟨j', rfl, hnext⟩ := ih hchild'
      exact ⟨j' + 1, rfl, .adding hless hnext⟩
    | run | waitSecond | second => cases hstep
  | exited status => cases e <;> cases hstep

/-- While steps are left, some process can take one. -/
theorem Answers.goes {p : Process} {v k : ℕ} (h : Answers p v k) (hk : k ≠ 0) :
    ∃ e p', ForkWait.step p e = some p' := by
  induction h with
  | main | spawned | fib | forked => exact ⟨.run, _, rfl⟩
  | @waiting a b i j first second _ hfirst _ ih =>
    by_cases hi : i = 0
    · subst hi
      rw [hfirst.eq_exited]
      exact ⟨.waitFirst, _, rfl⟩
    · obtain ⟨e, first', hstep⟩ := ih hi
      exact ⟨.first e, _, by rw [ForkWait.step, hstep]; rfl⟩
  | @adding a b j child _ hchild ih =>
    by_cases hj : j = 0
    · subst hj
      rw [hchild.eq_exited]
      exact ⟨.waitFirst, _, rfl⟩
    · obtain ⟨e, child', hstep⟩ := ih hj
      exact ⟨.first e, _, by rw [ForkWait.step, hstep]; rfl⟩
  | exited => exact absurd rfl hk

theorem Answers.exec {p p' : Process} {v k : ℕ} {schedule : List Event} (h : Answers p v k)
    (hrun : Transition.exec ForkWait.step p schedule = some p') :
    ∃ j, k = schedule.length + j ∧ Answers p' v j := by
  induction schedule generalizing p k with
  | nil =>
    obtain rfl := Option.some.inj hrun
    exact ⟨k, by simp, h⟩
  | cons e schedule ih =>
    obtain ⟨q, hstep, hrun⟩ := exec_cons_eq_some.mp hrun
    obtain ⟨i, rfl, hq⟩ := h.step hstep
    obtain ⟨j, rfl, hp'⟩ := ih hq hrun
    exact ⟨j, by simp only [List.length_cons]; omega, hp'⟩

/-- Whatever the order in which the processes move and end: some process can move until a number
of steps that depends on the arguments alone, and then the program has exited, with the Fibonacci
number of its argument, and has waited for all its children. -/
theorem exits_with_fib (argv : List (List UInt8)) (schedule : List Event) (p : Process)
    (hrun : Transition.exec step (.main argv) schedule = some p) :
    schedule.length ≤ stepsOf argv ∧
    (schedule.length < stepsOf argv → ∃ e p', step p e = some p') ∧
    (schedule.length = stepsOf argv ↔ p = .exited (codeOf argv)) := by
  obtain ⟨j, hsteps, hp⟩ := (Answers.main argv).exec hrun
  refine ⟨by omega, fun hless => hp.goes (by omega), fun heq => ?_, ?_⟩
  · obtain rfl : j = 0 := by omega
    exact hp.eq_exited
  · rintro rfl
    obtain ⟨-, rfl⟩ := hp.of_status rfl
    omega

/-- The number 2, where the second child ends first. -/
def secondFirst : List Event :=
  [.run, .run, .first .run, .run, .second .run, .second .run, .waitSecond, .first .run, .waitFirst]

theorem exits_with_fib_two :
    Transition.exec step (.main [program, decimal 2]) secondFirst = some (.exited 2) := by
  have hrun : (Transition.exec step (.main [program, decimal 2]) secondFirst).isSome := by
    decide +kernel
  obtain ⟨p, hp⟩ := Option.isSome_iff_exists.mp hrun
  obtain ⟨-, -, hend⟩ := exits_with_fib [program, decimal 2] secondFirst p hp
  rw [hp, hend.mp (by decide +kernel)]
  decide +kernel

end Sysopy.Kolokwium.ForkWait
