import Sysopy.Library.Signals
import Sysopy.Library.Transition

/-!
# Queued signals

`ex3/a` in mode `SIGRT`: the sender sends `to_send` times `SIGRTMAX` and then `SIGRTMIN`, and
the catcher, which counts the first in nested handlers, answers the second with `sendback`.
Real-time signals queue. Of several signals that wait and are not blocked the lower one,
`SIGRTMIN`, is delivered first, and its handler runs before the others are delivered. One
action is one statement of a process or one delivery; the only signals are those that the two
send to each other.
-/
namespace Sysopy.Signals.Queued

inductive Sig
  | rtmax
  | rtmin
  deriving DecidableEq, Repr

/-- `main` of the sender, the handlers being installed. -/
inductive SenderPlace
  | sending (i : ℕ)
  | sent
  | suspended
  | returning
  | exited
  deriving DecidableEq, Repr

/-- `rt_handler`. For `SIGRTMAX`: before the count, before and in `sigsuspend`, and behind it;
for `SIGRTMIN`. -/
inductive SenderHandler
  | counting
  | counted
  | waiting
  | leaving
  | reporting
  deriving DecidableEq, Repr

/-- Where `main` of the catcher is; `dead` is also the end by a signal without a handler. -/
inductive CatcherPlace
  | starting
  | installing
  | installed
  | suspended
  | returning
  | dead
  deriving DecidableEq, Repr

/-- `rt_receive`. For `SIGRTMAX`: before `received++`, which reads and writes, before and in
`sigsuspend`, and behind it; for `SIGRTMIN`: before `sendback`, and in its loop. -/
inductive CatcherHandler
  | entered
  | loaded (received : ℕ)
  | counted
  | waiting
  | leaving
  | ending
  | sendingBack (i : ℕ)
  deriving DecidableEq, Repr

structure State where
  sender : Process SenderPlace SenderHandler Sig
  senderReceived : ℕ
  catcher : Process CatcherPlace CatcherHandler Sig
  catcherReceived : ℕ

def start : State where
  sender := ⟨.sending 0, [], fun _ => 0⟩
  senderReceived := 0
  catcher := ⟨.starting, [], fun _ => 0⟩
  catcherReceived := 0

/-- `kill`; a signal to a process that has ended is lost. -/
def killCatcher (s : State) (signal : Sig) : State :=
  if s.catcher.main = .dead then s else { s with catcher := s.catcher.queue signal }

def killSender (s : State) (signal : Sig) : State :=
  if s.sender.main = .exited then s else { s with sender := s.sender.queue signal }

def senderWake : Wake SenderPlace SenderHandler where
  main
    | .suspended => .returning
    | place => place
  handler
    | .waiting => .leaving
    | place => place

def catcherWake : Wake CatcherPlace CatcherHandler where
  main
    | .suspended => .returning
    | place => place
  handler
    | .waiting => .leaving
    | place => place

def State.senderAt (s : State) (place : SenderPlace) : State :=
  { s with sender := { s.sender with main := place } }

def State.senderIn (s : State) (handlers : List SenderHandler) : State :=
  { s with sender := { s.sender with handlers := handlers } }

def State.catcherAt (s : State) (place : CatcherPlace) : State :=
  { s with catcher := { s.catcher with main := place } }

def State.catcherIn (s : State) (handlers : List CatcherHandler) : State :=
  { s with catcher := { s.catcher with handlers := handlers } }

variable (to_send : ℕ)

/-- `main` and `rt_handler` of the sender. -/
def stepSender (s : State) : Option State :=
  match s.sender.handlers with
  | [] =>
    match s.sender.main with
    | .sending i =>
      if i < to_send then some (killCatcher (s.senderAt (.sending (i + 1))) .rtmax)
      else some (killCatcher (s.senderAt .sent) .rtmin)
    | .sent => some (s.senderAt .suspended)
    | .suspended => none
    | .returning => some (s.senderAt .exited)
    | .exited => none
  | .counting :: rest =>
    some { s.senderIn (.counted :: rest) with senderReceived := s.senderReceived + 1 }
  | .counted :: rest => some (s.senderIn (.waiting :: rest))
  | .waiting :: _ => none
  | .leaving :: rest => some (s.senderIn rest)
  | .reporting :: _ => some ((s.senderIn []).senderAt .exited)

/-- `main`, `rt_receive` and `sendback` of the catcher. -/
def stepCatcher (s : State) : Option State :=
  match s.catcher.handlers with
  | [] =>
    match s.catcher.main with
    | .starting => some (s.catcherAt .installing)
    | .installing => some (s.catcherAt .installed)
    | .installed => some (s.catcherAt .suspended)
    | .suspended => none
    | .returning => some (s.catcherAt .dead)
    | .dead => none
  | .entered :: rest => some (s.catcherIn (.loaded s.catcherReceived :: rest))
  | .loaded received :: rest =>
    some { s.catcherIn (.counted :: rest) with catcherReceived := received + 1 }
  | .counted :: rest => some (s.catcherIn (.waiting :: rest))
  | .waiting :: _ => none
  | .leaving :: rest => some (s.catcherIn rest)
  | .ending :: rest => some (s.catcherIn (.sendingBack 0 :: rest))
  | .sendingBack i :: rest =>
    if i < s.catcherReceived then
      some (killSender (s.catcherIn (.sendingBack (i + 1) :: rest)) .rtmax)
    else some (killSender ((s.catcherIn []).catcherAt .dead) .rtmin)

/-- A handler blocks its own signal until it is in `sigsuspend`. The handler of `SIGRTMIN`
runs before any other signal is delivered. -/
def senderBlocks : List SenderHandler → Sig → Bool
  | [], _ => false
  | .waiting :: _, _ => false
  | .reporting :: _, _ => true
  | _ :: _, signal => signal = .rtmax

def catcherBlocks : List CatcherHandler → Sig → Bool
  | [], _ => false
  | .waiting :: _, _ => false
  | .ending :: _, _ => true
  | .sendingBack _ :: _, _ => true
  | _ :: _, signal => signal = .rtmax

def senderEntry : Sig → SenderHandler
  | .rtmax => .counting
  | .rtmin => .reporting

/-- `SIGRTMIN` is delivered before `SIGRTMAX`. -/
def deliverToSender (s : State) (signal : Sig) : Option State :=
  if s.sender.main ≠ .exited ∧ s.sender.pending signal ≠ 0 ∧
      senderBlocks s.sender.handlers signal = false ∧
      (signal = .rtmax → s.sender.pending .rtmin = 0 ∨
        senderBlocks s.sender.handlers .rtmin = true) then
    some { s with sender := s.sender.interrupt senderWake signal (senderEntry signal) }
  else none

def catcherEntry : Sig → CatcherHandler
  | .rtmax => .entered
  | .rtmin => .ending

/-- `main` installs the handler of `SIGRTMAX` first. -/
def hasHandler : CatcherPlace → Sig → Bool
  | .starting, _ => false
  | .installing, .rtmin => false
  | _, _ => true

/-- Without a handler the signal ends the process. -/
def deliverToCatcher (s : State) (signal : Sig) : Option State :=
  if s.catcher.main ≠ .dead ∧ s.catcher.pending signal ≠ 0 ∧
      catcherBlocks s.catcher.handlers signal = false ∧
      (signal = .rtmax → s.catcher.pending .rtmin = 0 ∨
        catcherBlocks s.catcher.handlers .rtmin = true) then
    if hasHandler s.catcher.main signal then
      some { s with catcher := s.catcher.interrupt catcherWake signal (catcherEntry signal) }
    else some ((s.catcherIn []).catcherAt .dead)
  else none

inductive Action
  | sender
  | catcher
  | toSender (signal : Sig)
  | toCatcher (signal : Sig)
  deriving DecidableEq, Repr

def step (s : State) : Action → Option State
  | .sender => stepSender to_send s
  | .catcher => stepCatcher s
  | .toSender signal => deliverToSender s signal
  | .toCatcher signal => deliverToCatcher s signal

end Sysopy.Signals.Queued
