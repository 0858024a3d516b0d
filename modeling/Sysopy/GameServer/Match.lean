import Sysopy.GameServer.Threads
import Sysopy.GameServer.Player

/-!
# A game over its sockets

Two clients are connected and paired. The thread of the game, the pinger, the thread that has
still to tell the first client that it waits, and the two clients move one call at a time. The
server writes whole messages, a client answers with a few bytes, and a `read` returns what has
come, up to the size of a message. A statement of the game is performed as it is.

The model ends when a client has been told the end. Until then the sockets stay open, so nobody
leaves. Then that client sends `MSG_DISCONNECT` as it exits, and nothing more is said of what the
pinger, which may read it, and the other client do with that.

`played` and `given` record the numbers that the players have typed: those that the game has
dealt with and the one that it has not.
-/
namespace Sysopy.GameServer.Match

open Transition
open Threads (Game Statement Pinger Next startGame nextSlot disconnectClient)

inductive Side
  | pinger
  | game
  deriving DecidableEq

/-- What does not change: the slots of the players, the names, the bytes that the pointers of the
clients have, and the contents of the messages that are not initialised. -/
structure Setup where
  player1 : Slot
  player2 : Slot
  ne : player1 ≠ player2
  name : Slot → Name
  pointer : Slot → Vector UInt8 POINTER_SIZE
  junk : Message
  pingJunk : Message
  connect : Slot → Message

/-- The bytes in `sent` are on their way to a client, those in `replies` on their way back. A read
of the server that leaves something other than a message in its buffer is `garbled`. -/
structure State where
  game : Option Game
  greeting : Bool
  pinger : Pinger
  ping : Message
  mutex : Slot → Option Side
  sent : Slot → List UInt8
  replies : Slot → List UInt8
  player : Slot → Player
  played : List (BitVec 32)
  given : Option (BitVec 32)
  garbled : Bool

-- the first slot
scoped instance neZeroSlots : NeZero MAX_CLIENT_COUNT := ⟨by decide⟩

def start (m : Setup) : State where
  game := none
  greeting := true
  pinger := .lock 0
  ping := m.pingJunk.withType .msgPing
  mutex _ := none
  sent _ := []
  replies _ := []
  player p := ⟨.reading, (m.connect p).withType .msgConnect, 0, none⟩
  played := []
  given := none
  garbled := false

/-! ## The server -/

/-- `write(clients[w.player].socket_fd, msg, sizeof(struct message_t))`. -/
@[simps -fullyApplied] def State.write (s : State) (w : Write) : State :=
  { s with sent := Function.update s.sent w.player (s.sent w.player ++ w.msg.bytes) }

/-- `read(clients[p].socket_fd, msg, sizeof(struct message_t))`: the state and `msg` after it. -/
def State.read (s : State) (p : Slot) (msg : Message) : Option (State × Message) :=
  let chunk := (s.replies p).take MESSAGE_SIZE
  if s.replies p = [] then none
  else
    some ({ s with
        replies := Function.update s.replies p ((s.replies p).drop MESSAGE_SIZE)
        garbled := s.garbled || (msg.read chunk).isNone },
      (msg.read chunk).getD msg)

/-- A statement of `game_connection`. -/
def State.perform (s : State) (msg : Message) : Statement → Option (State × Message)
  | .lock id =>
    if s.mutex id = none then
      some ({ s with mutex := Function.update s.mutex id (some .game) }, msg)
    else none
  | .unlock id => some ({ s with mutex := Function.update s.mutex id none }, msg)
  | .write w => some (s.write w, msg)
  | .read id => s.read id msg
  | .clearTaken _ | .close _ => none

/-- After the tests on a message the number in it has been dealt with. -/
def State.decided (s : State) (game game' : Game) : State :=
  match game.next with
  | .moved => { s with game := some game', played := s.played ++ s.given.toList, given := none }
  | _ => { s with game := some game' }

def stepGame (s : State) (game : Game) : Option State :=
  match game.todo with
  | statement :: todo =>
    (s.perform game.msg statement).map fun (s, msg) =>
      { s with game := some { game with msg := msg, todo := todo } }
  | [] => game.decide.map (s.decided game)

/-- `pinger_routine`, where `epoll_wait` does not fail. -/
def stepPinger (m : Setup) (s : State) : Option State :=
  match s.pinger with
  | .lock i =>
    if s.mutex i = none then
      some { s with mutex := Function.update s.mutex i (some .pinger), pinger := .test i }
    else none
  | .test i =>
    some { s with pinger := if i = m.player1 ∨ i = m.player2 then .write i else .unlock i }
  | .write i => some { s.write ⟨i, s.ping⟩ with pinger := .wait i }
  | .wait i => some { s with pinger := .read i }
  | .read i => (s.read i s.ping).map fun (s, ping) => { s with ping := ping, pinger := .unlock i }
  | .unlock i =>
    some { s with mutex := Function.update s.mutex i none, pinger := .lock (nextSlot i) }
  | .clearTaken _ | .close _ => none

/-! ## The clients -/

/-- A step of the client in a slot; `n` is the number that its player types. -/
def stepPlayer (m : Setup) (s : State) (p : Slot) (n : BitVec 32) : Option State :=
  match (s.player p).place with
  | .reading =>
    if s.sent p = [] then none
    else
      some { s with
        sent := Function.update s.sent p ((s.sent p).drop MESSAGE_SIZE)
        player := Function.update s.player p
          ((s.player p).receive (m.pointer p) ((s.sent p).take MESSAGE_SIZE)) }
  | .choosing =>
    some { s with player := Function.update s.player p ((s.player p).choose n), given := some n }
  | .replying bytes =>
    some { s with
      replies := Function.update s.replies p (s.replies p ++ bytes)
      player := Function.update s.player p { s.player p with place := .reading } }
  | .ended _ | .left | .aborted => none

inductive Event
  | begin
  | greet
  | game
  | pinger
  | player (p : Slot) (n : BitVec 32)

/-- Some client has been told the end. -/
def State.Over (m : Setup) (s : State) : Prop :=
  ∃ p, (p = m.player1 ∨ p = m.player2) ∧ (s.player p).place.isEnd = true

instance decidableOver (m : Setup) (s : State) : Decidable (s.Over m) :=
  inferInstanceAs (Decidable (∃ _, _))

/-- `greet` is `accepting_routine` of the first client after its critical section. -/
def move (m : Setup) (s : State) : Event → Option State
  | .begin =>
    if s.game.isNone then
      some { s with game := some (startGame m.name (fun _ => 0) m.player1 m.player2 m.junk) }
    else none
  | .greet =>
    if s.greeting then
      some { s.write ⟨m.player1, (m.connect m.player1).withType .msgWaiting⟩ with
        greeting := false }
    else none
  | .game => s.game.bind (stepGame s)
  | .pinger => stepPinger m s
  | .player p n => stepPlayer m s p n

def step (m : Setup) (s : State) (e : Event) : Option State :=
  if s.Over m then none else move m s e

/-! ## What the players are to see -/

/-- A number as the server gets it. -/
def answer (n : BitVec 32) : Message := (Message.mk (fun _ => 0) .msgMove).withMove n

/-- The numbers typed so far. -/
def State.typed (s : State) : List (BitVec 32) := s.played ++ s.given.toList

/-- The game that numbers make. -/
def positionOf (typed : List (BitVec 32)) : Position := Position.start.after (typed.map answer)

def Setup.symbolOf (m : Setup) (p : Slot) : CChar := if p = m.player1 then TICK1 else TICK2

end Sysopy.GameServer.Match
