import Sysopy.GameServer.Framing
import Sysopy.GameServer.Board

/-!
# The program of a player

`main` of the client reads a message and lets its handler answer it, again and again. The
program is followed from its `MSG_CONNECT` to the end of the game: each call of `read` and
of `write` and the number that `scanf` reads is a step. What the player has on the screen is
kept beside it.
-/
namespace Sysopy.GameServer

/-! ## Messages out of bytes -/

/-- The enumerator with the value. -/
def MessageType.ofCode : UInt8 → Option MessageType
  | 0 => some .msgConnect
  | 1 => some .msgDisconnect
  | 2 => some .msgEnd
  | 3 => some .msgMove
  | 4 => some .msgNameTakenError
  | 5 => some .msgPing
  | 6 => some .msgStart
  | 7 => some .msgUpdate
  | 8 => some .msgWaiting
  | _ => none

@[simp] theorem MessageType.ofCode_code (type : MessageType) : ofCode type.code = some type := by
  cases type <;> rfl

namespace Message

/-- The message whose bytes these are; none where `type` holds no enumerator. -/
def ofBytes (bytes : List UInt8) : Option Message :=
  if bytes.drop 21 = [0, 0, 0] then
    (MessageType.ofCode (bytes.getD 20 0)).map fun type => ⟨fun k => bytes.getD k 0, type⟩
  else none

@[simp] theorem ofBytes_bytes (msg : Message) : ofBytes msg.bytes = some msg := by
  have hdata : (List.ofFn msg.data).length = 20 := List.length_ofFn
  have htype : msg.bytes.getD 20 0 = msg.type.code := by
    rw [bytes, List.getD_eq_getElem?_getD, List.getElem?_append_right (by omega), hdata]
    rfl
  have hrest : msg.bytes.drop 21 = [0, 0, 0] := by
    rw [bytes, List.drop_append, hdata]
    simp [List.drop_eq_nil_of_le]
  rw [ofBytes, if_pos hrest, htype, MessageType.ofCode_code]
  refine congrArg some (congrArg (Message.mk · _) (funext fun k => ?_))
  rw [bytes, List.getD_eq_getElem?_getD, List.getElem?_append_left (by rw [hdata]; exact k.isLt),
    List.getElem?_ofFn, dif_pos k.isLt]
  rfl

/-- `read(fd, msg, sizeof(struct message_t))` that gets the bytes. -/
def read (msg : Message) (chunk : List UInt8) : Option Message := ofBytes (readInto msg.bytes chunk)

theorem read_bytes (msg received : Message) : msg.read received.bytes = some received := by
  rw [read, readInto, List.drop_eq_nil_of_le (by simp), List.append_nil, ofBytes_bytes]

theorem move_withMove (msg : Message) (n : BitVec 32) : (msg.withMove n).move = n.toInt := by
  have hbytes : (n.extractLsb' 24 8 ++ n.extractLsb' 16 8 ++ n.extractLsb' 8 8 ++
      n.extractLsb' 0 8 : BitVec 32) = n := by
    ext i hi
    simp only [BitVec.getElem_append, BitVec.getElem_extractLsb']
    split_ifs <;> rw [BitVec.getLsbD_eq_getElem (by omega)] <;> congr 1 <;> omega
  exact congrArg BitVec.toInt hbytes

@[simp] theorem withMove_type (msg : Message) (n : BitVec 32) : (msg.withMove n).type = msg.type :=
  rfl

/-- The bytes of an answer, on top of what was asked, are the whole answer. -/
theorem read_withMove (msg : Message) (n : BitVec 32) :
    msg.read ((msg.withMove n).bytes.take POINTER_SIZE) = some (msg.withMove n) := by
  have hanswers : (msg.withMove n).bytes.drop POINTER_SIZE = msg.bytes.drop POINTER_SIZE := by
    apply List.ext_getElem?
    intro i
    rw [List.getElem?_drop, List.getElem?_drop]
    by_cases hi : POINTER_SIZE + i < 20
    · rw [bytes, bytes, List.getElem?_append_left (by simpa using hi),
        List.getElem?_append_left (by simpa using hi), List.getElem?_ofFn, List.getElem?_ofFn]
      have hfirst : ¬ POINTER_SIZE + i < 4 := by
        unfold POINTER_SIZE
        omega
      simp [hi, withMove, hfirst]
    · rw [bytes, bytes, List.getElem?_append_right (by simpa using hi),
        List.getElem?_append_right (by simpa using hi)]
      simp
  have hlength : ((msg.withMove n).bytes.take POINTER_SIZE).length = POINTER_SIZE := by
    rw [List.length_take, length_bytes]
    rfl
  rw [read, readInto, hlength, ← hanswers, List.take_append_drop, ofBytes_bytes]

theorem exists_read (msg : Message) {chunk : List UInt8} (h : chunk.length ≤ POINTER_SIZE) :
    ∃ msg', msg.read chunk = some msg' ∧ msg'.type = msg.type := by
  have hlater : ∀ i, 20 ≤ i → (readInto msg.bytes chunk)[i]? = msg.bytes[i]? := by
    intro i hi
    have hchunk : chunk.length ≤ i := by
      unfold POINTER_SIZE at h
      omega
    rw [readInto, List.getElem?_append_right hchunk, List.getElem?_drop, Nat.add_sub_cancel' hchunk]
  have hrest : (readInto msg.bytes chunk).drop 21 = msg.bytes.drop 21 := by
    apply List.ext_getElem?
    intro i
    rw [List.getElem?_drop, List.getElem?_drop, hlater _ (by omega)]
  have hof := ofBytes_bytes msg
  unfold ofBytes at hof
  rw [read, ofBytes, hrest, List.getD_eq_getElem?_getD, hlater 20 le_rfl,
    ← List.getD_eq_getElem?_getD]
  split_ifs at hof ⊢
  obtain ⟨type, htype, hmsg⟩ := Option.map_eq_some_iff.mp hof
  have hsame : type = msg.type := congrArg Message.type hmsg
  rw [htype]
  exact ⟨_, rfl, hsame⟩

end Message

/-! ## The program -/

/-- What `handle_end` prints. -/
inductive Verdict
  | draw
  | won
  | lost
  deriving DecidableEq

def verdict (winner symbol : CChar) : Verdict :=
  if winner = DRAW then .draw else if winner = symbol then .won else .lost

def handleEnd (msg : Message) (symbol : CChar) : Verdict := verdict msg.winner symbol

/-- In the `read` of `main`, in the `scanf` or the `write` of a handler, or at one of the ends
of the program. -/
inductive Player.Place
  | reading
  | choosing
  | replying (bytes : List UInt8)
  | ended (verdict : Verdict)
  | left
  | aborted
  deriving DecidableEq

def Player.Place.isEnd : Player.Place → Bool
  | .ended _ => true
  | _ => false

/-- The variables `msg` and `symbol`, and the board that `handle_update` has printed last. -/
structure Player where
  place : Player.Place
  msg : Message
  symbol : CChar
  shown : Option Board

namespace Player

/-- The `switch` of `main`, with the bytes of the pointer that `handle_ping` writes. -/
def handle (pointer : Vector UInt8 POINTER_SIZE) (player : Player) : Player :=
  match player.msg.type with
  | .msgDisconnect => { player with place := .left }
  | .msgEnd => { player with place := .ended (handleEnd player.msg player.symbol) }
  | .msgMove => { player with place := .choosing }
  | .msgNameTakenError => player
  | .msgPing => { player with place := .replying pointer.toList }
  | .msgStart => { player with symbol := player.msg.symbol }
  | .msgUpdate => { player with shown := some player.msg.board }
  | .msgWaiting => player
  | .msgConnect => { player with place := .aborted }

/-- `read`, and the handler of what it gets. -/
def receive (pointer : Vector UInt8 POINTER_SIZE) (player : Player) (chunk : List UInt8) : Player :=
  match player.msg.read chunk with
  | some msg => { player with msg := msg }.handle pointer
  | none => { player with place := .aborted }

theorem receive_bytes (pointer : Vector UInt8 POINTER_SIZE) (player : Player) (msg : Message) :
    player.receive pointer msg.bytes = { player with msg := msg }.handle pointer := by
  rw [receive, Message.read_bytes]

/-- The number that `handle_move` reads, and what it then writes. -/
def choose (player : Player) (n : BitVec 32) : Player :=
  { player with
    msg := player.msg.withMove n
    place := .replying ((player.msg.withMove n).bytes.take POINTER_SIZE) }

end Player

end Sysopy.GameServer
