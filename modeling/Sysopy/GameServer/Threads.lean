import Sysopy.GameServer.Matchmaking

/-!
# The threads of the server

Every accepting thread, which plays the game of the client that it pairs, and the
pinger move one statement at a time, with each call of a function of the system a
statement. Locks of `print_mutex` and calls of `epoll_ctl` are left out: they
change nothing that another statement reads. A write to a client that has closed its
end raises `SIGPIPE`, for which the server has no handler. The connections are known
by the thread that accepted them. Some fields only record what happened: whose connection
a slot was filled with, which thread a slot belongs to at the moment, and which
clients have left without their slot being released.
-/
namespace Sysopy.GameServer.Threads

open Transition

/-- The statements on the table and the sockets, apart from the accepting. -/
inductive Statement
  | lock (id : Slot)
  | unlock (id : Slot)
  | write (w : Write)
  | read (id : Slot)
  | clearTaken (id : Slot)
  | close (id : Slot)
  deriving DecidableEq

/-- The slot of the client to which the statement writes. -/
def Statement.receiver : Statement → Option Slot
  | .write w => some w.player
  | _ => none

/-- `disconnect_client`. -/
def disconnectClient (id : Slot) : List Statement := [.clearTaken id, .close id]

/-- `synchronized` with the mutex of a slot. -/
def synchronized (id : Slot) (codeblock : List Statement) : List Statement :=
  .lock id :: (codeblock ++ [.unlock id])

def sendMsgDisconnect (msg : Message) (player : Slot) : List Statement :=
  (GameServer.sendMsgDisconnect msg player).2.map .write ++ disconnectClient player

def sendMsgWaiting (msg : Message) (player : Slot) : List Statement :=
  (GameServer.sendMsgWaiting msg player).2.map .write

/-- What follows the statements to do: the test of the loop, the tests on the message
that was read, or the end of `game_connection`, after `send_msg_end` or after the
branch for a player that left. -/
inductive Next
  | loop
  | moved
  | ended
  | left
  deriving DecidableEq

/-- A call of `game_connection`, with the connections of all slots at its start. -/
structure Game where
  player1 : Slot
  player2 : Slot
  position : Position
  msg : Message
  todo : List Statement
  next : Next
  occupant : Slot → ℕ

/-- `players[round % 2]`. -/
def Game.player (game : Game) : Slot := onTurn game.player1 game.player2 game.position.round

/-- `players[(round + 1) % 2]`. -/
def Game.opponent (game : Game) : Slot :=
  onTurn game.player1 game.player2 (game.position.round + 1)

/-- The statements of `create_client` on the slot. -/
inductive Assignment
  | taken
  | playing
  | socket_fd
  | name
  deriving DecidableEq

/-- Where an accepting thread stands, with its `client_fd`, its `msg` and its `id`. The
loops keep the slots that they have not looked at. -/
inductive Thread
  | absent
  | accepted (client_fd : ℤ)
  | locking (client_fd : ℤ) (msg : Message)
  | checking (client_fd : ℤ) (msg : Message) (rest : List Slot)
  | rejecting (client_fd : ℤ)
  | rejected
  | creating (client_fd : ℤ) (msg : Message) (rest : List Slot)
  | filling (client_fd : ℤ) (msg : Message) (id : Slot) (assignment : Assignment)
  | pairing (client_fd : ℤ) (id : Slot) (rest : List Slot)
  | marking (client_fd : ℤ) (id : Slot) (i : Slot)
  | unlocking (client_fd : ℤ) (id : Slot) (i : Slot)
  | idling (client_fd : ℤ) (id : Slot)
  | parting (client_fd : ℤ)
  | greeting (client_fd : ℤ)
  | game (game : Game)
  | done

/-- Where the pinger stands in its loop. -/
inductive Pinger
  | lock (i : Slot)
  | test (i : Slot)
  | write (i : Slot)
  | wait (i : Slot)
  | read (i : Slot)
  | clearTaken (i : Slot)
  | close (i : Slot)
  | unlock (i : Slot)
  deriving DecidableEq

inductive Owner
  | pinger
  | thread (t : ℕ)
  deriving DecidableEq

/-- To which thread a slot belongs: to none, to the one that fills it, to the one that
pairs it or plays its game, or to the one that is about to close its socket. -/
inductive Claim
  | free
  | filling (t : ℕ)
  | owned (t : ℕ)
  | closing (owner : Owner)
  deriving DecidableEq

/-- The open descriptors in `fds` lead to the connections; `count` threads have been
started. After an `ERROR_MSG` the server does not run. -/
structure State where
  running : Bool
  clients : Clients
  mutex : Slot → Option Owner
  clients_mutex : Option ℕ
  fds : ℤ → Option ℕ
  count : ℕ
  thread : ℕ → Thread
  pinger : Pinger
  occupant : Slot → ℕ
  claim : Slot → Claim
  departed : ℕ → Bool

def start : State where
  running := true
  clients := initClients
  mutex _ := none
  clients_mutex := none
  fds _ := none
  count := 0
  thread _ := .absent
  pinger := .lock 0
  occupant _ := 0
  claim _ := .free
  departed _ := false

/-- What a call of `read` returns: a message, the end of file or an error. -/
inductive Reading
  | got (msg : Message)
  | eof
  | failed

/-- The contents of `msg` after the call. -/
def Reading.into (reading : Reading) (msg : Message) : Message :=
  match reading with
  | .got received => received
  | _ => msg

/-- The client has left: with `MSG_DISCONNECT` or by closing its end. -/
def Reading.departs : Reading → Bool
  | .got msg => msg.type = .msgDisconnect
  | .eof => true
  | .failed => false

/-- A closed descriptor cannot be read. -/
def Reading.possible (reading : Reading) (connection : Option ℕ) : Bool :=
  match reading with
  | .failed => true
  | _ => connection.isSome

/-- A step: a connection is accepted, or an accepting thread or the pinger takes one
step, with what its `read` returns, the contents of a new `msg`, and whether
`epoll_wait` succeeds, or its `write` raises `SIGPIPE`. -/
inductive Action
  | accept (client_fd : ℤ)
  | run (t : ℕ) (reading : Reading) (junk : Message)
  | ping (available : Bool) (reading : Reading)
  | sigpipe (owner : Owner)

/-! ## Statements -/

@[simps -fullyApplied] def State.goto (s : State) (t : ℕ) (thread : Thread) : State :=
  { s with thread := Function.update s.thread t thread }

@[simp] theorem thread_goto_self (s : State) (t : ℕ) (thread : Thread) :
    (s.goto t thread).thread t = thread :=
  Function.update_self _ _ _

@[simp] theorem thread_goto_of_ne (s : State) {t x : ℕ} (thread : Thread) (hx : x ≠ t) :
    (s.goto t thread).thread x = s.thread x :=
  Function.update_of_ne hx _ _

/-- `exit(EXIT_FAILURE)`. -/
def State.exit (s : State) : State := { s with running := false }

def State.socket (s : State) (id : Slot) : Option ℕ := s.fds (s.clients id).socket_fd

@[simps -fullyApplied] def State.setClaim (s : State) (id : Slot) (claim : Claim) : State :=
  { s with claim := Function.update s.claim id claim }

/-- `read(clients[id].socket_fd, msg, sizeof(struct message_t))`. -/
def State.noteRead (s : State) (id : Slot) (reading : Reading) : State :=
  { s with departed := match s.socket id with
      | some k => if reading.departs then Function.update s.departed k true else s.departed
      | none => s.departed }

/-- `clients[id].taken = false`. -/
@[simps -fullyApplied] def State.clearTaken (s : State) (owner : Owner) (id : Slot) : State :=
  { s.setClaim id (.closing owner) with
    clients := s.clients.release id
    departed := Function.update s.departed (s.occupant id) false }

/-- `close(clients[id].socket_fd)`. -/
@[simps -fullyApplied] def State.close (s : State) (id : Slot) : State :=
  { s.setClaim id .free with fds := Function.update s.fds (s.clients id).socket_fd none }

/-! ## `game_connection` -/

/-- `game_connection` up to its loop. -/
def startGame (name : Slot → Name) (occupant : Slot → ℕ) (player1 player2 : Slot)
    (msg : Message) : Game :=
  let start := sendMsgStart name msg player1 player2
  let update := sendMsgUpdate start.1 player1 player2 emptyBoard
  { player1 := player1
    player2 := player2
    position := Position.start
    msg := update.1
    todo := (start.2 ++ update.2).map .write
    next := .loop
    occupant := occupant }

/-- `send_msg_move`. -/
def Game.sendMove (game : Game) : Game :=
  let request := sendMsgMove game.msg game.player
  { game with
    msg := request.1
    todo := synchronized game.player (request.2.map .write ++ [.read game.player])
    next := .moved }

/-- `send_msg_end`. -/
def Game.sendEnd (game : Game) (winner : CChar) : Game :=
  { game with
    msg := (game.msg.withType .msgEnd).withWinner winner
    todo := (sendMsgEnd game.msg game.player1 game.player2 winner).map .write ++
      disconnectClient game.player1 ++ disconnectClient game.player2
    next := .ended }

/-- The branch of `game_connection` for a player that left. -/
def Game.leave (game : Game) : Game :=
  { game with
    todo := synchronized game.player (disconnectClient game.player) ++
      sendMsgDisconnect game.msg game.opponent ++ sendMsgWaiting game.msg game.opponent
    next := .left }

/-- A move on the board and `send_msg_update`. -/
def Game.sendUpdate (game : Game) (board : Board) : Game :=
  let update := sendMsgUpdate game.msg game.player1 game.player2 board
  { game with
    position := ⟨board, game.position.round + 1⟩
    msg := update.1
    todo := update.2.map .write
    next := .loop }

/-- The tests of `game_connection` between its statements; none at its end. -/
def Game.decide (game : Game) : Option Game :=
  match game.next with
  | .loop =>
    if checkBoard game.position.board ≠ 0 then
      some (game.sendEnd (checkBoard game.position.board))
    else some game.sendMove
  | .moved =>
    match turn game.position game.msg with
    | .leaves => some game.leave
    | .rejected => some { game with next := .loop }
    | .accepted board => some (game.sendUpdate board)
  | .ended | .left => none

/-- A statement of `game_connection`: the state and the `msg` after it. -/
def State.perform (s : State) (t : ℕ) (msg : Message) (reading : Reading) :
    Statement → Option (State × Message)
  | .lock id =>
    if s.mutex id = none then
      some ({ s with mutex := Function.update s.mutex id (some (.thread t)) }, msg)
    else none
  | .unlock id => some ({ s with mutex := Function.update s.mutex id none }, msg)
  | .write _ => some (s, msg)
  | .read id =>
    if reading.possible (s.socket id) then some (s.noteRead id reading, reading.into msg) else none
  | .clearTaken id => some (s.clearTaken (.thread t) id, msg)
  | .close id => some (s.close id, msg)

def runGame (s : State) (t : ℕ) (game : Game) (reading : Reading) : Option State :=
  match game.todo with
  | statement :: todo =>
    (s.perform t game.msg reading statement).map fun (s, msg) =>
      s.goto t (.game { game with msg := msg, todo := todo })
  | [] =>
    match game.decide with
    | some game => some (s.goto t (.game game))
    | none => some (s.goto t .done)

/-! ## `accepting_routine` -/

/-- `create_client` on the slot that it has found. -/
def fill (s : State) (t : ℕ) (client_fd : ℤ) (msg : Message) (id : Slot) : Assignment → State
  | .taken =>
    { s with clients := Function.update s.clients id { s.clients id with taken := true } }.goto t
      (.filling client_fd msg id .playing)
  | .playing => { s with clients := s.clients.mark id true }.goto t
      (.filling client_fd msg id .socket_fd)
  | .socket_fd =>
    { s.setClaim id (.owned t) with
      clients := Function.update s.clients id { s.clients id with socket_fd := client_fd }
      occupant := Function.update s.occupant id t }.goto t (.filling client_fd msg id .name)
  | .name =>
    { s with clients := Function.update s.clients id { s.clients id with name := copiedName msg } }.goto
      t (.pairing client_fd id (List.finRange MAX_CLIENT_COUNT))

def runThread (s : State) (t : ℕ) (reading : Reading) (junk : Message) : Option State :=
  match s.thread t with
  | .absent | .done => none
  | .accepted client_fd =>
    if reading.possible (s.fds client_fd) then
      if (reading.into junk).type = .msgConnect then
        some (s.goto t (.locking client_fd (reading.into junk)))
      else some s.exit
    else none
  | .locking client_fd msg =>
    if s.clients_mutex = none then
      some ({ s with clients_mutex := some t }.goto t
        (.checking client_fd msg (List.finRange MAX_CLIENT_COUNT)))
    else none
  | .checking client_fd msg (i :: rest) =>
    some (s.goto t (if sameName (s.clients i) msg then .rejecting client_fd
      else .checking client_fd msg rest))
  | .checking client_fd msg [] =>
    some (s.goto t (.creating client_fd msg (List.finRange MAX_CLIENT_COUNT)))
  | .rejecting _ => some (s.goto t .rejected)
  | .rejected => some ({ s with clients_mutex := none }.goto t .done)
  | .creating client_fd msg (i :: rest) =>
    if (s.clients i).taken then some (s.goto t (.creating client_fd msg rest))
    else some ((s.setClaim i (.filling t)).goto t (.filling client_fd msg i .taken))
  | .creating _ _ [] => some s.exit
  | .filling client_fd msg id assignment => some (fill s t client_fd msg id assignment)
  | .pairing client_fd id (i :: rest) =>
    if (s.clients i).taken ∧ (s.clients i).playing = false then
      some ((s.setClaim i (.owned t)).goto t (.marking client_fd id i))
    else some (s.goto t (.pairing client_fd id rest))
  | .pairing client_fd id [] => some (s.goto t (.idling client_fd id))
  | .marking client_fd id i =>
    some ({ s with clients := s.clients.mark i true }.goto t (.unlocking client_fd id i))
  | .unlocking _ id i =>
    some ({ s with clients_mutex := none }.goto t
      (.game (startGame (fun p => (s.clients p).name) s.occupant i id junk)))
  | .idling client_fd id =>
    some (({ s with clients := s.clients.mark id false }.setClaim id .free).goto t (.parting client_fd))
  | .parting client_fd => some ({ s with clients_mutex := none }.goto t (.greeting client_fd))
  | .greeting _ => some (s.goto t .done)
  | .game game => runGame s t game reading

/-! ## `pinger_routine` -/

/-- `i + 1`, and the first slot after the last. -/
def nextSlot (i : Slot) : Slot := i + 1

def runPinger (s : State) (available : Bool) (reading : Reading) : Option State :=
  match s.pinger with
  | .lock i =>
    if s.mutex i = none then
      some { s with mutex := Function.update s.mutex i (some .pinger), pinger := .test i }
    else none
  | .test i => some { s with pinger := if (s.clients i).taken then .write i else .unlock i }
  | .write i => some { s with pinger := .wait i }
  | .wait i => some { s with pinger := if available then .read i else .clearTaken i }
  | .read i =>
    if reading.possible (s.socket i) then some { s.noteRead i reading with pinger := .unlock i }
    else none
  | .clearTaken i => some { s.clearTaken .pinger i with pinger := .close i }
  | .close i => some { s.close i with pinger := .unlock i }
  | .unlock i =>
    some { s with mutex := Function.update s.mutex i none, pinger := .lock (nextSlot i) }

/-- The descriptor to which the next statement writes. -/
def State.receiver (s : State) : Owner → Option ℤ
  | .thread t =>
    match s.thread t with
    | .rejecting client_fd | .greeting client_fd => some client_fd
    | .game game => (game.todo.head?.bind Statement.receiver).map fun p => (s.clients p).socket_fd
    | _ => none
  | .pinger =>
    match s.pinger with
    | .write i => some (s.clients i).socket_fd
    | _ => none

/-- `accept` returns a descriptor that was closed. -/
def step (s : State) (action : Action) : Option State :=
  if s.running then
    match action with
    | .accept client_fd =>
      if s.fds client_fd = none then
        some ({ s with fds := Function.update s.fds client_fd (some s.count), count := s.count + 1 }.goto
          s.count (.accepted client_fd))
      else none
    | .run t reading junk => runThread s t reading junk
    | .ping available reading => runPinger s available reading
    | .sigpipe owner => if ((s.receiver owner).bind s.fds).isSome then some s.exit else none
  else none

/-! ## What a step does to the games -/

variable {s s' : State} {t : ℕ} {reading : Reading} {junk : Message}

/-- A step of a game is one statement, or what it decides. -/
theorem runGame_cases {game : Game} (h : runGame s t game reading = some s') :
    (∃ statement todo u msg, game.todo = statement :: todo ∧
      s.perform t game.msg reading statement = some (u, msg) ∧
        s' = u.goto t (.game { game with msg := msg, todo := todo })) ∨
      game.todo = [] ∧ ((∃ game', game.decide = some game' ∧ s' = s.goto t (.game game')) ∨
        s' = s.goto t .done) := by
  unfold runGame at h
  split at h
  · rename_i statement todo htodo
    obtain ⟨⟨u, msg⟩, hperform, rfl⟩ := Option.map_eq_some_iff.mp h
    exact .inl ⟨statement, todo, u, msg, htodo, hperform, rfl⟩
  · rename_i htodo
    split at h
    · rename_i game' hdecide
      exact .inr ⟨htodo, .inl ⟨game', hdecide, (Option.some.inj h).symm⟩⟩
    · exact .inr ⟨htodo, .inr (Option.some.inj h).symm⟩

theorem thread_perform {u : State} {msg msg' : Message} {statement : Statement}
    (h : s.perform t msg reading statement = some (u, msg')) : u.thread = s.thread := by
  cases statement <;> simp only [State.perform] at h
  case lock | read =>
    split_ifs at h
    obtain ⟨rfl, -⟩ := Prod.mk.inj (Option.some.inj h)
    rfl
  all_goals rw [← (Prod.mk.inj (Option.some.inj h)).1]
  all_goals rfl

theorem thread_runThread (h : runThread s t reading junk = some s') {x : ℕ} (hx : x ≠ t) :
    s'.thread x = s.thread x := by
  unfold runThread at h
  split at h
  case h_11 assignment _ =>
    obtain rfl := Option.some.inj h
    cases assignment <;> exact thread_goto_of_ne _ _ hx
  case h_19 game _ =>
    rcases runGame_cases h with ⟨_, _, u, _, _, hperform, rfl⟩ | ⟨_, ⟨_, _, rfl⟩ | rfl⟩
    · rw [thread_goto_of_ne _ _ hx, thread_perform hperform]
    · exact thread_goto_of_ne _ _ hx
    · exact thread_goto_of_ne _ _ hx
  all_goals
    (try split_ifs at h) <;> cases h <;> first | exact thread_goto_of_ne _ _ hx | rfl

theorem game_of_runThread {game' : Game} (h : runThread s t reading junk = some s')
    (hat : s'.thread t = .game game') :
    (∃ client_fd id i, s.thread t = .unlocking client_fd id i ∧
      game' = startGame (fun p => (s.clients p).name) s.occupant i id junk) ∨
      ∃ game, s.thread t = .game game ∧ runGame s t game reading = some s' := by
  unfold runThread at h
  split at h
  case h_15 client_fd id i hbefore =>
    obtain rfl := Option.some.inj h
    rw [thread_goto_self] at hat
    exact .inl ⟨client_fd, id, i, hbefore, (Thread.game.inj hat).symm⟩
  case h_19 game hbefore => exact .inr ⟨game, hbefore, h⟩
  case h_11 assignment _ =>
    obtain rfl := Option.some.inj h
    cases assignment <;> rw [fill, thread_goto_self] at hat <;> cases hat
  case h_10 hbefore =>
    obtain rfl := Option.some.inj h
    exact absurd (hbefore.symm.trans hat) (by simp)
  case h_3 hbefore =>
    split_ifs at h <;> obtain rfl := Option.some.inj h
    · rw [thread_goto_self] at hat
      cases hat
    · exact absurd (hbefore.symm.trans hat) (by simp)
  all_goals
    (try split_ifs at h) <;> cases h <;> rw [thread_goto_self] at hat <;> cases hat

theorem thread_runPinger {available : Bool} (h : runPinger s available reading = some s') :
    s'.thread = s.thread := by
  unfold runPinger at h
  split at h
  all_goals
    (try split_ifs at h) <;> cases h <;> rfl

/-- What holds when a game begins and is kept by its statements and by what it decides,
holds of all games. -/
theorem games_step {P : Game → Prop} {a : Action} (h : step s a = some s')
    (hs : ∀ t game, s.thread t = .game game → P game)
    (hbegin : ∀ name occupant player1 player2 msg, P (startGame name occupant player1 player2 msg))
    (hstatement : ∀ game statement todo msg, P game → game.todo = statement :: todo →
      P { game with msg := msg, todo := todo })
    (hdecide : ∀ t reading junk game game', a = .run t reading junk → s.thread t = .game game →
      game.todo = [] → game.decide = some game' → P game → P game') : ∀ t game, s'.thread t = .game game → P game := by
  intro x game' hat
  unfold step at h
  split_ifs at h
  cases a with
  | accept client_fd =>
    dsimp only at h
    split_ifs at h
    obtain rfl := Option.some.inj h
    by_cases hx : x = s.count
    · rw [hx, thread_goto_self] at hat
      cases hat
    · rw [thread_goto_of_ne _ _ hx] at hat
      exact hs x game' hat
  | run t reading junk =>
    by_cases hx : x = t
    · subst hx
      rcases game_of_runThread h hat with ⟨_, _, _, _, rfl⟩ | ⟨game, hbefore, hrun⟩
      · exact hbegin _ _ _ _ _
      · rcases runGame_cases hrun with ⟨statement, todo, u, msg, htodo, _, rfl⟩ |
          ⟨htodo, ⟨_, hdecides, rfl⟩ | rfl⟩
        · rw [thread_goto_self] at hat
          obtain rfl := Thread.game.inj hat
          exact hstatement game statement todo msg (hs x game hbefore) htodo
        · rw [thread_goto_self] at hat
          obtain rfl := Thread.game.inj hat
          exact hdecide x reading junk game _ rfl hbefore htodo hdecides (hs x game hbefore)
        · rw [thread_goto_self] at hat
          cases hat
    · rw [thread_runThread h hx] at hat
      exact hs x game' hat
  | ping available reading =>
    rw [thread_runPinger h] at hat
    exact hs x game' hat
  | sigpipe owner =>
    dsimp only at h
    split_ifs at h
    obtain rfl := Option.some.inj h
    exact hs x game' hat

end Sysopy.GameServer.Threads
