import Sysopy.Library.CInteger
import Sysopy.Library.CString

/-!
# Messages of the chat

`struct message` of both versions of the chat, and the texts they put into it.
-/
namespace Sysopy.Chat

open CInteger CString

abbrev MSG_SIZE : ℕ := 2048

structure Message where
  type : ℤ
  sender_pid : ℤ
  message_text : List UInt8
  deriving DecidableEq, Repr

def utf8 (s : String) : List UInt8 := s.toUTF8.toList

/-- The line that ends a chat, with its newline. -/
def DISCONNECT_LINE : List UInt8 := [68, 73, 83, 67, 79, 78, 78, 69, 67, 84, 10]

/-- `!strcmp(text, "DISCONNECT\\n")`. -/
def isDisconnectLine (text : List UInt8) : Bool := contents text = DISCONNECT_LINE

/-- A line from `fgets` without its newline. -/
def trim (s : List UInt8) : List UInt8 := if s.getLast? = some 10 then s.dropLast else s

/-- `strtol` into an `int` variable. -/
def parseInt (text : List UInt8) : ℤ := toInt (strtol text)

end Sysopy.Chat
