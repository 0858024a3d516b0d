import Sysopy.Library.Signals
import Sysopy.Library.Transition

/-!
# Acknowledged signals

The sender of `ex3/b` in mode `KILL` sends `to_send` times `SIGUSR1` and then `SIGUSR2`, and
waits in `sigsuspend` after each for the same signal from the catcher. The catcher answers from
its handlers, which let both signals interrupt them; the handler of `SIGUSR1` then waits in a
`sigsuspend` of its own. One action is one statement of a process or one delivery; the only
signals are those that the two send to each other.
-/
namespace Sysopy.Signals.Acknowledged

inductive Sig
  | usr1
  | usr2
  deriving DecidableEq, Repr

/-- Where `main` of the sender is in round `i`, the handlers being installed. -/
inductive SenderPlace
  | sending (i : ℕ)
  | sent (i : ℕ)
  | suspended (i : ℕ)
  | returning
  | exited
  deriving DecidableEq, Repr

/-- The handler of the sender: for `SIGUSR1` before and behind the count, for `SIGUSR2`. -/
inductive SenderHandler
  | counting
  | counted
  | reporting
  deriving DecidableEq, Repr

/-- Where `main` of the catcher is; `dead` is also the end by a signal without a handler. -/
inductive CatcherPlace
  | starting
  | installing
  | installed
  | suspended
  | returning
  | dead
  deriving DecidableEq, Repr

/-- `receive`. For `SIGUSR1`: before `received++`, which reads and writes, then before
`sendback`, before and in `sigsuspend`, and behind it; for `SIGUSR2`: before and behind
`sendback`. -/
inductive CatcherHandler
  | entered
  | loaded (received : ℕ)
  | counted
  | answered
  | waiting
  | leaving
  | ending
  | ended
  deriving DecidableEq, Repr

structure State where
  sender : Process SenderPlace SenderHandler Sig
  senderReceived : ℕ
  catcher : Process CatcherPlace CatcherHandler Sig
  catcherReceived : ℕ

def start : State where
  sender := ⟨.sending 0, [], fun _ => 0⟩
  senderReceived := 0
  catcher := ⟨.starting, [], fun _ => 0⟩
  catcherReceived := 0

/-- A signal to a process that has ended is lost. -/
def killCatcher (s : State) (signal : Sig) : State :=
  if s.catcher.main = .dead then s else { s with catcher := s.catcher.raise signal }

/-- `sendback`. -/
def sendback (s : State) (signal : Sig) : State :=
  if s.sender.main = .exited then s else { s with sender := s.sender.raise signal }

variable (to_send : ℕ)

/-- The signal of round `i`. -/
def signalOf (i : ℕ) : Sig := if i < to_send then .usr1 else .usr2

/-- `sigsuspend` of the sender returns. -/
def senderWake : Wake SenderPlace SenderHandler where
  main
    | .suspended i => if i < to_send then .sending (i + 1) else .returning
    | place => place
  handler := id

def catcherWake : Wake CatcherPlace CatcherHandler where
  main
    | .suspended => .returning
    | place => place
  handler
    | .waiting => .leaving
    | place => place

def State.senderAt (s : State) (place : SenderPlace) : State :=
  { s with sender := { s.sender with main := place } }

def State.senderIn (s : State) (handlers : List SenderHandler) : State :=
  { s with sender := { s.sender with handlers := handlers } }

def State.catcherAt (s : State) (place : CatcherPlace) : State :=
  { s with catcher := { s.catcher with main := place } }

def State.catcherIn (s : State) (handlers : List CatcherHandler) : State :=
  { s with catcher := { s.catcher with handlers := handlers } }

/-- `main` and `handler` of the sender. -/
def stepSender (s : State) : Option State :=
  match s.sender.handlers with
  | [] =>
    match s.sender.main with
    | .sending i => some (killCatcher (s.senderAt (.sent i)) (signalOf to_send i))
    | .sent i => some (s.senderAt (.suspended i))
    | .suspended _ => none
    | .returning => some (s.senderAt .exited)
    | .exited => none
  | .counting :: rest =>
    some { s.senderIn (.counted :: rest) with senderReceived := s.senderReceived + 1 }
  | .counted :: rest => some (s.senderIn rest)
  | .reporting :: _ => some ((s.senderIn []).senderAt .exited)

/-- `main` and `receive` of the catcher. -/
def stepCatcher (s : State) : Option State :=
  match s.catcher.handlers with
  | [] =>
    match s.catcher.main with
    | .starting => some (s.catcherAt .installing)
    | .installing => some (s.catcherAt .installed)
    | .installed => some (s.catcherAt .suspended)
    | .suspended => none
    | .returning => some (s.catcherAt .dead)
    | .dead => none
  | .entered :: rest => some (s.catcherIn (.loaded s.catcherReceived :: rest))
  | .loaded received :: rest =>
    some { s.catcherIn (.counted :: rest) with catcherReceived := received + 1 }
  | .counted :: rest => some (sendback (s.catcherIn (.answered :: rest)) .usr1)
  | .answered :: rest => some (s.catcherIn (.waiting :: rest))
  | .waiting :: _ => none
  | .leaving :: rest => some (s.catcherIn rest)
  | .ending :: rest => some (sendback (s.catcherIn (.ended :: rest)) .usr2)
  | .ended :: rest => some (s.catcherIn rest)

/-- A handler of the sender blocks the signal that it handles. -/
def blocks : SenderHandler → Sig
  | .counting => .usr1
  | .counted => .usr1
  | .reporting => .usr2

def senderEntry : Sig → SenderHandler
  | .usr1 => .counting
  | .usr2 => .reporting

def deliverToSender (s : State) (signal : Sig) : Option State :=
  if s.sender.main ≠ .exited ∧ s.sender.pending signal ≠ 0 ∧
      ∀ handler ∈ s.sender.handlers, blocks handler ≠ signal then
    some { s with
      sender := s.sender.interrupt (senderWake to_send) signal (senderEntry signal) }
  else none

def catcherEntry : Sig → CatcherHandler
  | .usr1 => .entered
  | .usr2 => .ending

/-- `main` installs the handler of `SIGUSR1` first. -/
def hasHandler : CatcherPlace → Sig → Bool
  | .starting, _ => false
  | .installing, .usr2 => false
  | _, _ => true

/-- Without a handler the signal ends the process. -/
def deliverToCatcher (s : State) (signal : Sig) : Option State :=
  if s.catcher.main ≠ .dead ∧ s.catcher.pending signal ≠ 0 then
    if hasHandler s.catcher.main signal then
      some { s with catcher := s.catcher.interrupt catcherWake signal (catcherEntry signal) }
    else some ((s.catcherIn []).catcherAt .dead)
  else none

inductive Action
  | sender
  | catcher
  | toSender (signal : Sig)
  | toCatcher (signal : Sig)
  deriving DecidableEq, Repr

def step (s : State) : Action → Option State
  | .sender => stepSender to_send s
  | .catcher => stepCatcher s
  | .toSender signal => deliverToSender to_send s signal
  | .toCatcher signal => deliverToCatcher s signal

end Sysopy.Signals.Acknowledged
