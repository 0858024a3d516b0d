import Sysopy.GameServer.Threads

/-!
# The server over datagrams

`main` receives every datagram into one variable `args`, which the accepting threads
read field by field. A message to a client goes to the `addr` and `socklen` of its slot.
Every assignment and every call is a step; what `epoll_wait`, `recvfrom`, `accept` and
`read` return comes with it. Of the descriptors nothing is kept. Datagrams carry the
address that they came from, and `source` records whose `MSG_CONNECT` a slot was filled
with.
-/
namespace Sysopy.GameServer.Datagrams

open Transition Threads

/-- `sizeof(union addr_union)`. -/
abbrev ADDR_UNION_SIZE : ℕ := 112

abbrev AddrUnion := Fin ADDR_UNION_SIZE → UInt8

/-- The bytes of a socket address; a socket without a name has none. -/
abbrev Address := List UInt8

/-- A `union addr_union` with its `socklen`. -/
structure Peer where
  addr : AddrUnion
  socklen : ℕ

/-- The address that `recvfrom` stores. -/
def Peer.receive (peer : Peer) (source : Address) : Peer :=
  ⟨fun k => source.getD k (peer.addr k), source.length⟩

/-- A `struct message_t` with the address of its sender. -/
structure Datagram where
  msg : Message
  source : Address

/-- `struct client_t`. -/
structure Client extends GameServer.Client where
  peer : Peer

/-- `struct accepting_routine_args`. -/
structure Args where
  socket_fd : ℤ
  peer : Peer
  datagram : Datagram

/-- Where `main` stands in the loop of `init_threads`. -/
inductive Main
  | waiting
  | naming (event : ℤ)
  | receiving
  | creating
  deriving DecidableEq

/-- The locals of an accepting thread. -/
structure Call where
  client_fd : ℤ
  peer : Peer
  datagram : Datagram

/-- Where an accepting thread stands. The loops keep the slots that they have not looked
at. -/
inductive Thread
  | absent
  | created
  | hasSocket (socket_fd : ℤ)
  | hasLength (socket_fd : ℤ) (socklen : ℕ)
  | hasMessage (socket_fd : ℤ) (socklen : ℕ) (datagram : Datagram)
  | accepting (socket_fd : ℤ) (peer : Peer) (datagram : Datagram)
  | reading (call : Call)
  | locking (call : Call)
  | checking (call : Call) (rest : List Slot)
  | rejecting (call : Call)
  | rejected
  | creating (call : Call) (rest : List Slot)
  | filling (call : Call) (id : Slot) (assignment : Assignment)
  | pairing (call : Call) (id : Slot) (rest : List Slot)
  | marking (id : Slot) (i : Slot)
  | unlocking (id : Slot) (i : Slot)
  | idling (call : Call) (id : Slot)
  | parting (call : Call)
  | greeting (call : Call)
  | game (game : Game)
  | done

/-- Where the pinger stands in its loop. -/
inductive Pinger
  | lock (i : Slot)
  | test (i : Slot)
  | ping (i : Slot)
  | wait (i : Slot)
  | pingAgain (i : Slot)
  | clearTaken (i : Slot)
  | close (i : Slot)
  | unlock (i : Slot)
  deriving DecidableEq

structure State where
  running : Bool
  clients : Slot → Client
  mutex : Slot → Option Owner
  clients_mutex : Option ℕ
  main : Main
  args : Args
  count : ℕ
  thread : ℕ → Thread
  pinger : Pinger
  source : Slot → Address

-- the first slot
scoped instance neZeroSlots : NeZero MAX_CLIENT_COUNT := ⟨by decide⟩

/-- `clients` is zeroed, `args` is not. -/
def start (args : Args) : State where
  running := true
  clients _ := ⟨⟨false, false, Vector.replicate _ 0, 0⟩, ⟨fun _ => 0, 0⟩⟩
  mutex _ := none
  clients_mutex := none
  main := .waiting
  args := args
  count := 0
  thread _ := .absent
  pinger := .lock 0
  source _ := []

inductive Action
  | main (event : ℤ) (datagram : Option Datagram)
  | run (t : ℕ) (client_fd : ℤ) (reading : Reading) (junk : Message)
  | ping (available : Bool)

def State.goto (s : State) (t : ℕ) (thread : Thread) : State :=
  { s with thread := Function.update s.thread t thread }

def State.exit (s : State) : State := { s with running := false }

def State.setClient (s : State) (id : Slot) (client : Client) : State :=
  { s with clients := Function.update s.clients id client }

/-- `clients[id].playing = playing`. -/
def State.mark (s : State) (id : Slot) (playing : Bool) : State :=
  s.setClient id { s.clients id with playing := playing }

/-- `clients[id].taken = false`. -/
def State.clearTaken (s : State) (id : Slot) : State :=
  s.setClient id { s.clients id with taken := false }

/-- The loop of `init_threads`. A failing `recvfrom` leaves `args` as it is. -/
def runMain (s : State) (event : ℤ) (datagram : Option Datagram) : State :=
  match s.main with
  | .waiting =>
    { s with
      args := { s.args with peer := { s.args.peer with socklen := ADDR_UNION_SIZE } }
      main := .naming event }
  | .naming event => { s with args := { s.args with socket_fd := event }, main := .receiving }
  | .receiving =>
    match datagram with
    | some datagram =>
      { s with
        args := { s.args with peer := s.args.peer.receive datagram.source, datagram := datagram }
        main := .creating }
    | none => { s with main := .creating }
  | .creating => { s with count := s.count + 1, main := .waiting }.goto s.count .created

/-- A statement of `game_connection`, with `sendto` in the place of `write`: the state and
the `msg` after it. -/
def State.perform (s : State) (t : ℕ) (msg : Message) (reading : Reading) :
    Statement → Option (State × Message)
  | .lock id =>
    if s.mutex id = none then
      some ({ s with mutex := Function.update s.mutex id (some (.thread t)) }, msg)
    else none
  | .unlock id => some ({ s with mutex := Function.update s.mutex id none }, msg)
  | .write _ => some (s, msg)
  | .read _ => some (s, reading.into msg)
  | .clearTaken id => some (s.clearTaken id, msg)
  | .close _ => some (s, msg)

def runGame (s : State) (t : ℕ) (game : Game) (reading : Reading) : Option State :=
  match game.todo with
  | statement :: todo =>
    (s.perform t game.msg reading statement).map fun (s, msg) =>
      s.goto t (.game { game with msg := msg, todo := todo })
  | [] =>
    match game.decide with
    | some game => some (s.goto t (.game game))
    | none => some (s.goto t .done)

/-- `create_client` on the slot that it has found. -/
def fill (s : State) (t : ℕ) (call : Call) (id : Slot) : Assignment → State
  | .taken =>
    { s.setClient id { s.clients id with taken := true } with
      source := Function.update s.source id call.datagram.source }.goto t (.filling call id .playing)
  | .playing => (s.mark id true).goto t (.filling call id .socket_fd)
  | .socket_fd =>
    (s.setClient id { s.clients id with socket_fd := call.client_fd }).goto t
      (.filling call id .name)
  | .name =>
    (s.setClient id { s.clients id with name := copiedName call.datagram.msg }).goto t
      (.pairing call id (List.finRange MAX_CLIENT_COUNT))

/-- `accepting_routine`. -/
def runThread (s : State) (t : ℕ) (client_fd : ℤ) (reading : Reading) (junk : Message) :
    Option State :=
  match s.thread t with
  | .absent | .done => none
  | .created => some (s.goto t (.hasSocket s.args.socket_fd))
  | .hasSocket socket_fd => some (s.goto t (.hasLength socket_fd s.args.peer.socklen))
  | .hasLength socket_fd socklen =>
    some (s.goto t (.hasMessage socket_fd socklen s.args.datagram))
  | .hasMessage socket_fd socklen datagram =>
    some (s.goto t (.accepting socket_fd ⟨s.args.peer.addr, socklen⟩ datagram))
  | .accepting _ peer datagram => some (s.goto t (.reading ⟨client_fd, peer, datagram⟩))
  | .reading call =>
    let msg := reading.into call.datagram.msg
    if msg.type = .msgConnect then
      some (s.goto t (.locking { call with datagram := ⟨msg, call.datagram.source⟩ }))
    else some s.exit
  | .locking call =>
    if s.clients_mutex = none then
      some ({ s with clients_mutex := some t }.goto t
        (.checking call (List.finRange MAX_CLIENT_COUNT)))
    else none
  | .checking call (i :: rest) =>
    some (s.goto t (if sameName (s.clients i).toClient call.datagram.msg then .rejecting call
      else .checking call rest))
  | .checking call [] => some (s.goto t (.creating call (List.finRange MAX_CLIENT_COUNT)))
  | .rejecting _ => some (s.goto t .rejected)
  | .rejected => some ({ s with clients_mutex := none }.goto t .done)
  | .creating call (i :: rest) =>
    some (s.goto t (if (s.clients i).taken then .creating call rest else .filling call i .taken))
  | .creating _ [] => some s.exit
  | .filling call id assignment => some (fill s t call id assignment)
  | .pairing call id (i :: rest) =>
    some (s.goto t (if (s.clients i).taken ∧ (s.clients i).playing = false then .marking id i
      else .pairing call id rest))
  | .pairing call id [] => some (s.goto t (.idling call id))
  | .marking id i => some ((s.mark i true).goto t (.unlocking id i))
  | .unlocking id i =>
    some ({ s with clients_mutex := none }.goto t
      (.game (startGame (fun p => (s.clients p).name) (fun _ => 0) i id junk)))
  | .idling call id => some ((s.mark id false).goto t (.parting call))
  | .parting call => some ({ s with clients_mutex := none }.goto t (.greeting call))
  | .greeting _ => some (s.goto t .done)
  | .game game => runGame s t game reading

/-- `pinger_routine`. -/
def runPinger (s : State) (available : Bool) : Option State :=
  match s.pinger with
  | .lock i =>
    if s.mutex i = none then
      some { s with mutex := Function.update s.mutex i (some .pinger), pinger := .test i }
    else none
  | .test i => some { s with pinger := if (s.clients i).taken then .ping i else .unlock i }
  | .ping i => some { s with pinger := .wait i }
  | .wait i => some { s with pinger := if available then .pingAgain i else .clearTaken i }
  | .pingAgain i => some { s with pinger := .unlock i }
  | .clearTaken i => some { s.clearTaken i with pinger := .close i }
  | .close i => some { s with pinger := .unlock i }
  | .unlock i =>
    some { s with mutex := Function.update s.mutex i none, pinger := .lock (nextSlot i) }

def step (s : State) (a : Action) : Option State :=
  if s.running then
    match a with
    | .main event datagram => some (runMain s event datagram)
    | .run t client_fd reading junk => runThread s t client_fd reading junk
    | .ping available => runPinger s available
  else none

/-! ## Where messages go -/

/-- A client that gets a slot in this step has sent its `MSG_CONNECT` from a socket without
a name. -/
def Unnamed (s : State) : Action → Prop
  | .run t _ _ _ => s.running = true → ∀ call id, s.thread t = .filling call id .taken →
      call.datagram.source = []
  | _ => True

/-! ## No address is ever stored -/

variable {s s' : State}

/-- What nearly every step does to the slots: no address changes, and no slot is filled. -/
structure Frame (s s' : State) : Prop where
  peer : ∀ id, (s'.clients id).peer = (s.clients id).peer
  taken : ∀ id, (s'.clients id).taken = true → (s.clients id).taken = true
  source : s'.source = s.source

theorem Frame.of_clients (hclients : s'.clients = s.clients) (hsource : s'.source = s.source) :
    Frame s s' :=
  ⟨fun id => by rw [hclients], fun id h => by rwa [hclients] at h, hsource⟩

theorem Frame.of_setClient {id : Slot} {c : Client}
    (hclients : s'.clients = Function.update s.clients id c)
    (hpeer : c.peer = (s.clients id).peer)
    (htaken : c.taken = true → (s.clients id).taken = true) (hsource : s'.source = s.source) :
    Frame s s' := by
  refine ⟨fun j => ?_, fun j h => ?_, hsource⟩
  · rw [hclients]
    by_cases hj : j = id
    · subst hj
      rw [Function.update_self, hpeer]
    · rw [Function.update_of_ne hj]
  · rw [hclients] at h
    by_cases hj : j = id
    · subst hj
      rw [Function.update_self] at h
      exact htaken h
    · rwa [Function.update_of_ne hj] at h

theorem frame_runMain (event : ℤ) (datagram : Option Datagram) :
    Frame s (runMain s event datagram) := by
  unfold runMain
  split
  case h_3 => cases datagram <;> exact .of_clients rfl rfl
  all_goals exact .of_clients rfl rfl

theorem frame_perform {t : ℕ} {msg msg' : Message} {reading : Reading} {statement : Statement}
    (h : s.perform t msg reading statement = some (s', msg')) : Frame s s' := by
  cases statement with
  | lock id =>
    unfold State.perform at h
    dsimp only at h
    split_ifs at h
    obtain ⟨rfl, _⟩ := Prod.mk.inj (Option.some.inj h)
    exact .of_clients rfl rfl
  | clearTaken id =>
    obtain ⟨rfl, _⟩ := Prod.mk.inj (Option.some.inj h)
    exact .of_setClient (c := { s.clients id with taken := false }) rfl rfl (by simp) rfl
  | unlock id | write w | read id | close id =>
    obtain ⟨rfl, _⟩ := Prod.mk.inj (Option.some.inj h)
    exact .of_clients rfl rfl

theorem frame_runGame {t : ℕ} {game : Game} {reading : Reading}
    (h : runGame s t game reading = some s') : Frame s s' := by
  unfold runGame at h
  split at h
  · obtain ⟨⟨u, msg⟩, hperform, rfl⟩ := Option.map_eq_some_iff.mp h
    have hframe := frame_perform hperform
    exact ⟨hframe.peer, hframe.taken, hframe.source⟩
  · split at h <;> obtain rfl := Option.some.inj h <;> exact .of_clients rfl rfl

theorem frame_fill {t : ℕ} {call : Call} {id : Slot} {assignment : Assignment}
    (h : assignment ≠ .taken) : Frame s (fill s t call id assignment) := by
  cases assignment with
  | taken => exact absurd rfl h
  | playing =>
    exact .of_setClient (c := { s.clients id with playing := true }) rfl rfl
      (fun h => h) rfl
  | socket_fd =>
    exact .of_setClient (c := { s.clients id with socket_fd := call.client_fd }) rfl rfl
      (fun h => h) rfl
  | name =>
    exact .of_setClient (c := { s.clients id with name := copiedName call.datagram.msg })
      rfl rfl (fun h => h) rfl

theorem frame_runThread {t : ℕ} {client_fd : ℤ} {reading : Reading} {junk : Message}
    (hfill : ∀ call id, s.thread t ≠ .filling call id .taken)
    (h : runThread s t client_fd reading junk = some s') : Frame s s' := by
  unfold runThread at h
  split at h
  case h_1 | h_2 => cases h
  case h_8 =>
    dsimp only at h
    split_ifs at h <;> obtain rfl := Option.some.inj h <;> exact .of_clients rfl rfl
  case h_9 =>
    split_ifs at h
    obtain rfl := Option.some.inj h
    exact .of_clients rfl rfl
  case h_16 call id assignment hat =>
    obtain rfl := Option.some.inj h
    apply frame_fill
    rintro rfl
    exact hfill call id hat
  case h_19 id i hat =>
    obtain rfl := Option.some.inj h
    exact .of_setClient (c := { s.clients i with playing := true }) rfl rfl (fun h => h) rfl
  case h_21 call id hat =>
    obtain rfl := Option.some.inj h
    exact .of_setClient (c := { s.clients id with playing := false }) rfl rfl (fun h => h) rfl
  case h_24 => exact frame_runGame h
  all_goals
    obtain rfl := Option.some.inj h
    exact .of_clients rfl rfl

theorem frame_runPinger {available : Bool} (h : runPinger s available = some s') : Frame s s' := by
  unfold runPinger at h
  split at h
  case h_1 =>
    split_ifs at h
    obtain rfl := Option.some.inj h
    exact .of_clients rfl rfl
  case h_6 i hat =>
    obtain rfl := Option.some.inj h
    exact .of_setClient (c := { s.clients i with taken := false }) rfl rfl (by simp) rfl
  all_goals
    obtain rfl := Option.some.inj h
    exact .of_clients rfl rfl

/-- A slot gets a client, or the step is framed. -/
theorem step_cases {a : Action} (h : step s a = some s') :
    Frame s s' ∨ ∃ t client_fd reading junk call id, a = .run t client_fd reading junk ∧
      s.thread t = .filling call id .taken ∧ s' = fill s t call id .taken := by
  unfold step at h
  split_ifs at h
  cases a with
  | main event datagram =>
    obtain rfl := Option.some.inj h
    exact .inl (frame_runMain event datagram)
  | run t client_fd reading junk =>
    by_cases hfill : ∃ call id, s.thread t = .filling call id .taken
    · obtain ⟨call, id, hat⟩ := hfill
      simp only [runThread, hat, Option.some.injEq] at h
      exact .inr ⟨t, client_fd, reading, junk, call, id, rfl, hat, h.symm⟩
    · push Not at hfill
      exact .inl (frame_runThread hfill h)
  | ping available => exact .inl (frame_runPinger h)

/-- The slots are still as they were in the zeroed table, which is right for clients without
an address. -/
structure Zeroed (s : State) : Prop where
  socklen : ∀ id, (s.clients id).peer.socklen = 0
  source : ∀ id, (s.clients id).taken = true → s.source id = []

theorem Zeroed.step {a : Action} (hs : Zeroed s) (ha : Unnamed s a) (h : step s a = some s') :
    Zeroed s' := by
  have hrunning : s.running = true := by
    unfold Datagrams.step at h
    split_ifs at h with hrunning
    exact hrunning
  rcases step_cases h with hframe | ⟨t, client_fd, reading, junk, call, id, rfl, hat, rfl⟩
  · refine ⟨fun id => ?_, fun id htaken => ?_⟩
    · rw [hframe.peer]
      exact hs.socklen id
    · rw [hframe.source]
      exact hs.source id (hframe.taken id htaken)
  · have hunnamed := ha hrunning call id hat
    refine ⟨fun j => ?_, fun j htaken => ?_⟩
    · change (Function.update s.clients id _ j).peer.socklen = 0
      by_cases hj : j = id
      · subst hj
        rw [Function.update_self]
        exact hs.socklen j
      · rw [Function.update_of_ne hj]
        exact hs.socklen j
    · change Function.update s.source id call.datagram.source j = []
      change (Function.update s.clients id _ j).taken = true at htaken
      by_cases hj : j = id
      · subst hj
        rw [Function.update_self]
        exact hunnamed
      · rw [Function.update_of_ne hj] at htaken ⊢
        exact hs.source j htaken

end Sysopy.GameServer.Datagrams
