import Sysopy.Chat.POSIX.Server
import Sysopy.Library.PriorityQueue
import Sysopy.Library.Transition
import Mathlib.Logic.Function.Basic

/-!
# The POSIX chat as a system

Any number of clients, known by their pids, run next to the server. All requests
have priority 0, so the queue of the server is FIFO; the private queues deliver by
priority. A step is one call of `mq_open`, `mq_send`, `mq_receive` or `exit` with
the statements around it. The two sends of `handle_connect` are two steps, and so
are the sends of the handler of `SIGINT`, each with its `mq_open`. A send to a full
queue is one that comes later.
-/
namespace Sysopy.Chat.POSIX

open CInteger CString Transition PriorityQueue

/-- Where a client stands, with the `message` of the function it is in. In `entering` it has
received the `key` and not yet called `signal` in `direct_connection`; in `chat` it has also
opened the queue, if there is one. -/
inductive Process
  | absent
  | created (privateid : ℤ)
  | initSent
  | prompt
  | connectSent
  | listSent
  | entering (key : List UInt8)
  | chat (key : List UInt8) (clientid : Option Mqd) (message : Message)
  | leaving (message : Message)
  | stopping (message : Message)
  | stopped (message : Message)
  | exiting
  | exited
  deriving DecidableEq, Repr

/-- What the server still has to send: for a request, or to the rest of its clients
once it is interrupted. -/
inductive Server
  | sending (sends : List (Mqd × Entry))
  | stopping (clients : List Client) (message : Message)
  | exited
  deriving DecidableEq, Repr

/-- With the clients that have been started in `pids`. -/
structure State where
  pids : List ℤ
  clients : List Client
  server : Server
  requests : List Message
  queue : ℤ → Option (List Entry)
  process : ℤ → Process
  message : ℤ → Message

def start : State where
  pids := []
  clients := []
  server := .sending []
  requests := []
  queue _ := none
  process _ := .absent
  message _ := ⟨0, 0, []⟩

/-- The memory that a new `struct message` happens to hold is part of an action. -/
inductive Action
  | create (c : ℤ) (privateid : ℤ)
  | init (c : ℤ)
  | receive (c : ℤ) (junk : Message)
  | enter (c : ℤ) (junk : Message)
  | connect (c : ℤ) (line : List UInt8)
  | endOfInput (c : ℤ)
  | list (c : ℤ)
  | stop (c : ℤ) (junk : Message)
  | interrupt (c : ℤ)
  | say (c : ℤ) (line : List UInt8)
  | disconnect (c : ℤ)
  | sendStop (c : ℤ)
  | exit (c : ℤ)
  | serve
  | send
  | shutdown (text : List UInt8)
  | sendShutdown

/-- `mq_open` for writing. -/
def State.mqOpen (s : State) (name : List UInt8) : Option Mqd :=
  let pid := parseInt name.tail
  if name = PATH then if s.server = .exited then none else some .server
  else if name = keyOf pid ∧ (s.queue pid).isSome then some (.client pid)
  else none

/-- `mq_send`; a queue that has been unlinked swallows the message. -/
def State.mqSend (s : State) (mqd : Mqd) (entry : Entry) : State :=
  match mqd with
  | .server => { s with requests := s.requests ++ [entry.message] }
  | .client pid =>
    { s with queue := Function.update s.queue pid ((s.queue pid).map (enqueue Entry.prio entry)) }

def State.move (s : State) (c : ℤ) (process : Process) : State :=
  { s with process := Function.update s.process c process }

/-- A request of client `c` to the server. -/
def State.request (s : State) (message : Message) : State :=
  { s with requests := s.requests ++ [message] }

def State.setMessage (s : State) (c : ℤ) (message : Message) : State :=
  { s with message := Function.update s.message c message }

/-- What client `c` does with a message from its private queue. -/
def received (s : State) (c : ℤ) (message junk : Message) : Option State :=
  match s.process c with
  | .initSent => some ((s.setMessage c message).move c .prompt)
  | .prompt =>
    some <| (s.setMessage c message).move c <|
      if message.type = CONNECT then .entering (contents message.message_text)
      else if message.type = STOP then .stopping junk
      else .prompt
  | .connectSent =>
    some <| (s.setMessage c message).move c <|
      if message.sender_pid = c then .prompt else .entering (contents message.message_text)
  | .listSent => some ((s.setMessage c message).move c .prompt)
  | .chat key clientid _ =>
    some <| s.move c <|
      if isDisconnectLine message.message_text then .leaving message else .chat key clientid message
  | _ => none

/-- A line typed in `direct_connection`; a failing `MQ_SEND` ends the client. -/
def State.sayLine (s : State) (c : ℤ) (key : List UInt8) (clientid : Option Mqd)
    (message : Message) : State :=
  match clientid with
  | some mqd =>
    (s.mqSend mqd ⟨0, message⟩).move c <|
      if isDisconnectLine message.message_text then .leaving message else .chat key clientid message
  | none => s.move c .exiting

/-- `SIGINT` ends a client, except in a chat and on the way out of it. -/
def Process.interruptible : Process → Bool
  | .created _ | .initSent | .prompt | .connectSent | .listSent | .entering _ => true
  | .stopping _ | .stopped _ => true
  | _ => false

variable (getpid : ℤ)

/-- The server handles the first request. -/
def serve (s : State) : Option State :=
  match s.server, s.requests with
  | .sending [], message :: requests =>
    match handle getpid s.mqOpen s.clients message with
    | some (clients, sends) =>
      some { s with clients := clients, requests := requests, server := .sending sends }
    | none => some { s with requests := requests, server := .exited }
  | _, _ => none

def step (s : State) : Action → Option State
  | .create c privateid =>
    if s.process c = .absent ∧ s.server ≠ .exited ∧ c ≠ getpid ∧ 1 ≤ c ∧ c ≤ INT_MAX then
      some { s.move c (.created privateid) with
        pids := c :: s.pids
        queue := Function.update s.queue c (some []) }
    else none
  | .init c =>
    match s.process c with
    | .created privateid =>
      let message : Message := ⟨INIT, c, decimal privateid⟩
      some (((s.setMessage c message).request message).move c .initSent)
    | _ => none
  | .receive c junk =>
    match s.queue c with
    | some (entry :: entries) =>
      received { s with queue := Function.update s.queue c (some entries) } c entry.message junk
    | _ => none
  | .enter c junk =>
    -- `direct_connection` up to its loop
    match s.process c with
    | .entering key => some (s.move c (.chat key (s.mqOpen key) junk))
    | _ => none
  | .connect c line =>
    if s.process c = .prompt then
      let message : Message := ⟨CONNECT, c, line⟩
      some (((s.setMessage c message).request message).move c .connectSent)
    else none
  | .endOfInput c =>
    -- `connect` finds no line, and exits
    if s.process c = .prompt then some (s.move c .exiting) else none
  | .list c =>
    if s.process c = .prompt then
      let message : Message := ⟨LIST, c, (s.message c).message_text⟩
      some (((s.setMessage c message).request message).move c .listSent)
    else none
  | .stop c junk => if s.process c = .prompt then some (s.move c (.stopping junk)) else none
  | .interrupt c => if (s.process c).interruptible then some (s.move c .exiting) else none
  | .say c line =>
    match s.process c with
    | .chat key clientid message =>
      some (s.sayLine c key clientid { message with message_text := line })
    | _ => none
  | .disconnect c =>
    match s.process c with
    | .leaving message =>
      some ((s.request { message with type := DISCONNECT, sender_pid := c }).move c .prompt)
    | .stopping message =>
      let message := { message with type := DISCONNECT, sender_pid := c }
      some ((s.request message).move c (.stopped message))
    | _ => none
  | .sendStop c =>
    match s.process c with
    | .stopped message =>
      some ((s.request { message with type := STOP, sender_pid := c }).move c .exiting)
    | _ => none
  | .exit c =>
    if s.process c = .exiting then
      some { s.move c .exited with queue := Function.update s.queue c none }
    else none
  | .serve => serve getpid s
  | .send =>
    match s.server with
    | .sending ((mqd, entry) :: sends) => some { s.mqSend mqd entry with server := .sending sends }
    | _ => none
  | .shutdown text =>
    match s.server with
    | .sending _ => some { s with server := .stopping s.clients ⟨STOP, getpid, text⟩ }
    | _ => none
  | .sendShutdown =>
    match s.server with
    | .stopping (client :: clients) message =>
      match s.mqOpen (keyOf client.pid) with
      | some mqd =>
        some { s.mqSend mqd ⟨message.type, message⟩ with server := .stopping clients message }
      | none => some { s with server := .exited }
    | .stopping [] _ => some { s with server := .exited }
    | _ => none

/-! ## Pairings -/

/-- What waits in the private queue of a client. -/
def State.inbox (s : State) (c : ℤ) : List Entry := (s.queue c).getD []

/-- What the server still has to send to a client for the request that it handles. -/
def Server.pending (server : Server) (c : ℤ) : List Entry :=
  match server with
  | .sending sends => (sends.filter fun send => send.1 = .client c).map Prod.snd
  | _ => []

/-- The messages of `handle_connect`, by the names of the peers in them. The server
sends only these with the priority `CONNECT`. -/
def pairings (entries : List Entry) : List (List UInt8) :=
  (entries.filter fun entry => entry.prio = CONNECT).map fun entry => entry.message.message_text

/-- The pairings that a client has not taken. -/
def State.awaited (s : State) (c : ℤ) : List (List UInt8) :=
  pairings (s.inbox c ++ s.server.pending c)

/-- The `key` of the chat that a process is in or about to enter. -/
def Process.key : Process → Option (List UInt8)
  | .entering key | .chat key _ _ => some key
  | _ => none

def InChat (s : State) (c : ℤ) (key : List UInt8) : Prop := (s.process c).key = some key

/-- The line that ends a chat waits in the queue of the client. -/
def Noticed (s : State) (c : ℤ) : Prop :=
  ∃ entry ∈ s.inbox c, isDisconnectLine entry.message.message_text = true

/-- The client is in a chat with `p`, or has been paired with `p`. -/
def Engaged (s : State) (c p : ℤ) : Prop := InChat s c (keyOf p) ∨ keyOf p ∈ s.awaited c

/-- The client waits for a command or for the reply to `CONNECT`, and nothing is left
of an earlier chat. -/
def Free (s : State) (c : ℤ) : Prop :=
  (s.process c = .prompt ∨ s.process c = .connectSent) ∧ s.awaited c = [] ∧ ¬ Noticed s c ∧
    ∀ p ∈ s.pids, ¬ Engaged s p c

/-- The client starts a chat with this message. -/
def StartsChat (process : Process) (c : ℤ) (message : Message) : Prop :=
  process = .prompt ∧ message.type = CONNECT ∨
    process = .connectSent ∧ message.sender_pid ≠ c

/-- The conditions under which pairings are kept apart from the other messages. -/
def KeepsApart (s : State) : Action → Prop
  | .serve => ∀ message ∈ s.requests.head?, message.type = CONNECT →
      (s.mqOpen (keyOf message.sender_pid)).isSome →
      (s.mqOpen (keyOf (parseInt message.message_text))).isSome →
      message.sender_pid ≠ parseInt message.message_text ∧
        Free s message.sender_pid ∧ Free s (parseInt message.message_text)
  | .receive c _ => ∀ entry ∈ (s.inbox c).head?,
      (StartsChat (s.process c) c entry.message → entry.prio = CONNECT) ∧
      (s.process c = .prompt → entry.message.type = STOP → s.awaited c = []) ∧
      (isDisconnectLine entry.message.message_text → pairings (s.server.pending c) = [])
  | .list c | .stop c _ | .endOfInput c => s.awaited c = []
  | .interrupt c => s.awaited c = [] ∧ (s.process c).key = none
  | .shutdown text => s.server = .sending [] ∧ isDisconnectLine text = false
  | _ => True

section Decidable

variable (s : State)

instance (c : ℤ) (key : List UInt8) : Decidable (InChat s c key) :=
  inferInstanceAs (Decidable (_ = _))

instance (c : ℤ) : Decidable (Noticed s c) := inferInstanceAs (Decidable (∃ _ ∈ _, _))

instance (c p : ℤ) : Decidable (Engaged s c p) := inferInstanceAs (Decidable (_ ∨ _))

instance (c : ℤ) : Decidable (Free s c) := inferInstanceAs (Decidable (_ ∧ _ ∧ _ ∧ ∀ _ ∈ _, _))

instance (process : Process) (c : ℤ) (message : Message) :
    Decidable (StartsChat process c message) :=
  inferInstanceAs (Decidable (_ ∧ _ ∨ _ ∧ _))

instance : DecidablePred (KeepsApart s) := fun a => by
  cases a <;> unfold KeepsApart <;> infer_instance

end Decidable

/-- A pairing that a client takes makes it enter the chat with the peer that it names, and no
client leaves before it has entered, or with a pairing in its queue. -/
def Answers (s : State) : Action → Prop
  | .receive c junk => ∀ entry entries t, s.queue c = some (entry :: entries) →
      entry.prio = CONNECT → step getpid s (.receive c junk) = some t →
      (s.process c = .prompt ∨ s.process c = .connectSent) ∧
        t.process c = .entering entry.message.message_text
  | .interrupt c => ∀ key, s.process c ≠ .entering key
  | .exit c => ∀ t, step getpid s (.exit c) = some t → pairings (s.inbox c) = []
  | _ => True

/-- The peer of a client in a chat is in the chat with it or still has the pairing to
take, or the end of the chat waits for the client. -/
def Paired (s : State) : Prop :=
  ∀ c p, InChat s c (keyOf p) → InChat s p (keyOf c) ∨ keyOf c ∈ s.awaited p ∨ Noticed s c

end Sysopy.Chat.POSIX
