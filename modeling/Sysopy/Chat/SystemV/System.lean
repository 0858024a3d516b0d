import Sysopy.Chat.SystemV.Server
import Sysopy.Library.Transition
import Mathlib.Logic.Function.Basic

/-!
# The System V chat as a system

Any number of clients, known by their pids, run next to the server. The public
queue and the private queues deliver in FIFO order. A step is one call of
`msgsnd`, `msgrcv`, `msgget` or `exit` of a client with the statements around it,
or the handling of one request by the server.
-/
namespace Sysopy.Chat.SystemV

open CInteger Transition

/-- Where a client stands. In `chat` it has the descriptor of its peer and the
`message` of `direct_connection`, whose first contents are arbitrary. -/
inductive Process
  | absent
  | created
  | initSent
  | prompt
  | connectSent
  | listSent
  | chat (dqd : ℤ) (message : Message)
  | leaving
  | stopping
  | stopped
  | exiting
  | exited
  deriving DecidableEq, Repr

structure State where
  clients : List Client
  running : Bool
  requests : List Message
  queue : ℤ → Option (List Message)
  process : ℤ → Process
  message : ℤ → Message
  pqd : ℤ → ℤ

def start : State where
  clients := []
  running := true
  requests := []
  queue _ := none
  process _ := .absent
  message _ := ⟨0, 0, []⟩
  pqd _ := -1

inductive Action
  | msgget (c : ℤ) (qd : ℤ)
  | init (c : ℤ)
  | receive (c : ℤ) (junk : Message)
  | connect (c : ℤ) (line : List UInt8)
  | list (c : ℤ)
  | stop (c : ℤ)
  | interrupt (c : ℤ)
  | say (c : ℤ) (line : List UInt8)
  | disconnect (c : ℤ)
  | sendStop (c : ℤ)
  | exit (c : ℤ)
  | serve

/-- `msgsnd` to a private queue fails without the queue, or for a type below 1. -/
def State.msgsnd (s : State) (qd : ℤ) (message : Message) : Option State :=
  if message.type < 1 then none
  else (s.queue qd).map fun messages =>
    { s with queue := Function.update s.queue qd (some (messages ++ [message])) }

def State.move (s : State) (c : ℤ) (process : Process) : State :=
  { s with process := Function.update s.process c process }

/-- A request of client `c` to the server. -/
def State.request (s : State) (message : Message) : State :=
  { s with requests := s.requests ++ [message] }

def State.setMessage (s : State) (c : ℤ) (message : Message) : State :=
  { s with message := Function.update s.message c message }

/-- What client `c` does with a message from its private queue. -/
def received (s : State) (c : ℤ) (message junk : Message) : Option State :=
  match s.process c with
  | .initSent => some ((s.setMessage c message).move c .prompt)
  | .prompt =>
    some <| (s.setMessage c message).move c <|
      if message.type = CONNECT then .chat (parseInt message.message_text) junk
      else if message.type = STOP then .stopping
      else .prompt
  | .connectSent =>
    some <| (s.setMessage c message).move c <|
      if message.sender_pid = c then .prompt else .chat (parseInt message.message_text) junk
  | .listSent => some ((s.setMessage c message).move c .prompt)
  | .chat dqd _ =>
    some <| s.move c <| if isDisconnectLine message.message_text then .leaving else .chat dqd message
  | _ => none

/-- A line typed in `direct_connection`; a failing `MSGSND` ends the client. -/
def State.sayLine (s : State) (c dqd : ℤ) (message : Message) : State :=
  match s.msgsnd dqd message with
  | some s => s.move c <| if isDisconnectLine message.message_text then .leaving else .chat dqd message
  | none => s.move c .exiting

variable (getpid : ℤ)

/-- The calls of `MSGSND` of a handler, up to the first that fails and ends the server. -/
def State.deliver (s : State) : List (ℤ × Message) → State
  | [] => s
  | (qd, message) :: sends =>
    match s.msgsnd qd message with
    | some s => s.deliver sends
    | none => { s with running := false }

/-- The server handles the first request. -/
def serve (s : State) : Option State :=
  if s.running then
    match s.requests with
    | [] => none
    | message :: requests =>
      match handle getpid s.clients message with
      | some (clients, sends) =>
        some ({ s with clients := clients, requests := requests }.deliver sends)
      | none => some { s with requests := requests, running := false }
  else none

def step (s : State) : Action → Option State
  | .msgget c qd =>
    if s.process c = .absent ∧ c ≠ getpid ∧ s.queue qd = none ∧ 0 ≤ qd ∧ qd ≤ INT_MAX then
      some { s.move c .created with
        queue := Function.update s.queue qd (some [])
        pqd := Function.update s.pqd c qd }
    else none
  | .init c =>
    if s.process c = .created then
      let message : Message := ⟨INIT, c, decimal (s.pqd c)⟩
      some (((s.setMessage c message).request message).move c .initSent)
    else none
  | .receive c junk =>
    match s.queue (s.pqd c) with
    | some (message :: messages) =>
      received { s with queue := Function.update s.queue (s.pqd c) (some messages) } c message junk
    | _ => none
  | .connect c line =>
    if s.process c = .prompt then
      let message : Message := ⟨CONNECT, c, trim line⟩
      some (((s.setMessage c message).request message).move c .connectSent)
    else none
  | .list c =>
    if s.process c = .prompt then
      let message : Message := ⟨LIST, c, (s.message c).message_text⟩
      some (((s.setMessage c message).request message).move c .listSent)
    else none
  | .stop c => if s.process c = .prompt then some (s.move c .stopping) else none
  | .interrupt c => if s.process c = .prompt then some (s.move c .exiting) else none
  | .say c line =>
    match s.process c with
    | .chat dqd message => some (s.sayLine c dqd { message with message_text := line })
    | _ => none
  | .disconnect c =>
    match s.process c with
    | .leaving => some ((s.request ⟨DISCONNECT, c, decimal (s.pqd c)⟩).move c .prompt)
    | .stopping => some ((s.request ⟨DISCONNECT, c, decimal (s.pqd c)⟩).move c .stopped)
    | _ => none
  | .sendStop c =>
    if s.process c = .stopped then
      some ((s.request ⟨STOP, c, decimal (s.pqd c)⟩).move c .exiting)
    else none
  | .exit c =>
    if s.process c = .exiting then
      some { s.move c .exited with queue := Function.update s.queue (s.pqd c) none }
    else none
  | .serve => serve getpid s

/-- The private queue of the client exists. -/
def Alive (s : State) (c : ℤ) : Prop := s.process c ≠ .absent ∧ s.process c ≠ .exited

instance (s : State) (c : ℤ) : Decidable (Alive s c) := inferInstanceAs (Decidable (_ ∧ _))

/-- The client that made the request still runs and is not marked as busy, the list of the
others fits into a message, and neither has a free client that it names gone. -/
def Answerable (s : State) (message : Message) : Prop :=
  (message.type = INIT ∨ message.type = CONNECT ∨ message.type = LIST →
    Alive s message.sender_pid) ∧
  (message.type = CONNECT ∨ message.type = LIST → ¬ Busy s.clients message.sender_pid) ∧
  (message.type = LIST → (listText s.clients message.sender_pid).length < MSG_SIZE) ∧
  (message.type = CONNECT → Registered s.clients (parseInt message.message_text) →
    ¬ Busy s.clients (parseInt message.message_text) →
    Alive s (parseInt message.message_text))

instance (s : State) (message : Message) : Decidable (Answerable s message) :=
  inferInstanceAs (Decidable (_ ∧ _ ∧ _ ∧ _))

/-- The server handles only requests that can be answered. -/
def OnlyAnswerable (s : State) : Action → Prop
  | .serve => ∀ message ∈ s.requests.head?, Answerable s message
  | _ => True

instance (s : State) : DecidablePred (OnlyAnswerable s) := fun a => by
  cases a <;> unfold OnlyAnswerable <;> infer_instance

end Sysopy.Chat.SystemV
