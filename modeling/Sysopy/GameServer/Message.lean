import Sysopy.Library.CString

/-!
# Messages of the tic-tac-toe server

`struct message_t` is a tagged union. The union is kept as the twenty bytes it
occupies (`int move` aligns the seventeen bytes of `init` to twenty), so that a
field written under one name and read under another behaves as in the source:
`msg` is one variable that every `send_msg_*` function and every `read` reuses.
-/
namespace Sysopy.GameServer

/-- A `char`. Only equality, the test against zero and sums wrapped to eight
bits are ever used, so the signedness of the platform does not matter. -/
abbrev CChar := UInt8

abbrev CLIENT_NAME_LEN : ℕ := 16
abbrev MAX_CLIENT_COUNT : ℕ := 32
abbrev BOARD_SIZE : ℕ := 9

def TICK1 : CChar := 79
def TICK2 : CChar := 88
def BLANK : CChar := 32
/-- The winner `'d'` that `handle_end` of the client prints as a draw. -/
def DRAW : CChar := 100

inductive MessageType
  | msgConnect
  | msgDisconnect
  | msgEnd
  | msgMove
  | msgNameTakenError
  | msgPing
  | msgStart
  | msgUpdate
  | msgWaiting
  deriving DecidableEq, Repr

abbrev Board := Fin BOARD_SIZE → CChar
abbrev Name := Vector CChar CLIENT_NAME_LEN

instance neZeroData : NeZero 20 := ⟨by decide⟩

/-- `struct message_t`: the bytes of the union and the tag behind it. -/
structure Message where
  data : Fin 20 → UInt8
  type : MessageType
  deriving DecidableEq

namespace Message

/-- `msg.data.move`, a little-endian two's complement `int`. -/
def move (msg : Message) : ℤ :=
  ((msg.data 3).toBitVec ++ (msg.data 2).toBitVec ++
    (msg.data 1).toBitVec ++ (msg.data 0).toBitVec).toInt

def board (msg : Message) : Board := fun k => msg.data ⟨k, k.isLt.trans (by decide)⟩

def winner (msg : Message) : CChar := msg.data 0

def symbol (msg : Message) : CChar := msg.data 16

/-- `msg.data.init.name`. -/
def name (msg : Message) : Name :=
  Vector.ofFn fun k => msg.data ⟨k, k.isLt.trans (by decide)⟩

def withType (msg : Message) (type : MessageType) : Message := { msg with type := type }

/-- `strncpy(msg->data.board, board, BOARD_SIZE)`; a board holds no NUL. -/
def withBoard (msg : Message) (board : Board) : Message :=
  { msg with data := fun k => if h : k.val < BOARD_SIZE then board ⟨k, h⟩ else msg.data k }

def withWinner (msg : Message) (winner : CChar) : Message :=
  { msg with data := fun k => if k = 0 then winner else msg.data k }

/-- The symbol and the name copied by `strncpy(msg->data.init.name, name, CLIENT_NAME_LEN)`. -/
def withInit (msg : Message) (symbol : CChar) (name : Name) : Message :=
  { msg with data := fun k =>
      if k.val < CLIENT_NAME_LEN then
        (CString.strncpy CLIENT_NAME_LEN name.toList).getD k 0
      else if k = 16 then symbol else msg.data k }

@[simp] theorem withType_type (msg : Message) (t : MessageType) : (msg.withType t).type = t := rfl
@[simp] theorem withType_data (msg : Message) (t : MessageType) :
    (msg.withType t).data = msg.data := rfl
@[simp] theorem withBoard_type (msg : Message) (b : Board) :
    (msg.withBoard b).type = msg.type := rfl
@[simp] theorem withWinner_type (msg : Message) (c : CChar) :
    (msg.withWinner c).type = msg.type := rfl
@[simp] theorem withWinner_winner (msg : Message) (c : CChar) :
    (msg.withWinner c).winner = c := rfl
@[simp] theorem withInit_type (msg : Message) (c : CChar) (n : Name) :
    (msg.withInit c n).type = msg.type := rfl

@[simp] theorem withBoard_board (msg : Message) (b : Board) : (msg.withBoard b).board = b := by
  funext k
  simp [withBoard, board]

end Message

end Sysopy.GameServer
