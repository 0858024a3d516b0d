import Sysopy.Library.CInteger
import Sysopy.Library.Transition
import Mathlib.Logic.Function.Basic

/-!
# The FIFO between producers and consumers

A producer writes a record, which is a row number, a separator, a chunk of text
and a separator, under a file lock and so in one piece. A consumer calls
`readtosep` for the number and for the text in turn, and `readtosep` reads the
FIFO byte by byte, so between two bytes any other consumer may read. It calls `realloc` on
its own copy of the pointer, so when the block moves, `main` goes on with the old one. The
state keeps the records sent and the calls of `writeaddline` made so far.
-/
namespace Sysopy.Rows

open CInteger Transition

abbrev SEP : UInt8 := 92

-- the numerals of one or two consumers
scoped instance neZeroOne : NeZero 1 := ⟨by decide⟩

scoped instance neZeroTwo : NeZero 2 := ⟨by decide⟩

/-- What a producer writes while it holds the lock. -/
structure Record where
  row : List UInt8
  text : List UInt8
  row_clean : SEP ∉ row
  text_clean : SEP ∉ text
  text_ne_nil : text ≠ []

/-- The row number in the first field, as the consumer understands it. -/
def rowno (data : List UInt8) : ℤ := toInt (strtol data)

namespace Record

def bytes (r : Record) : List UInt8 := r.row ++ SEP :: (r.text ++ [SEP])

/-- What a consumer should make of the record. -/
def pair (r : Record) : ℤ × List UInt8 := (rowno r.row, r.text)

end Record

/-- Where a consumer stands in the loop of `main`: in a call of `readtosep` with
the bytes read by it so far, or behind the loop. -/
inductive Reader
  | number (data : List UInt8)
  | text (rowno : ℤ) (data : List UInt8)
  | ended
  deriving DecidableEq, Repr

namespace Pipe

structure State (M : ℕ) where
  fifo : List UInt8
  closed : Bool
  reader : Fin M → Reader
  sent : List Record
  calls : List (Fin M × ℤ × List UInt8)

variable {M : ℕ}

def start : State M := ⟨[], false, fun _ => .number [], [], []⟩

/-- The loop condition of `readtosep` on the result of `read`: the byte that
continues the field. -/
def continuing (b : Option UInt8) : Option UInt8 := b.filter (· ≠ SEP)

@[simp] theorem continuing_none : continuing none = none := rfl

@[simp] theorem continuing_sep : continuing (some SEP) = none := rfl

theorem continuing_of_ne {b : UInt8} (hb : b ≠ SEP) : continuing (some b) = some b := by
  simp [continuing, hb]

def State.moveReader (s : State M) (c : Fin M) (reader : Reader) : State M :=
  { s with reader := Function.update s.reader c reader }

/-- Consumer `c` goes on with the result of a `read`, a byte or the end of the file. At the
end of a field whose block has moved, `main` finds the bytes `moved` instead. -/
def State.advance (s : State M) (c : Fin M) (b : Option UInt8) (moved : Option (List UInt8)) :
    Option (State M) :=
  match s.reader c, continuing b with
  | .number data, some b => some (s.moveReader c (.number (data ++ [b])))
  | .number data, none => some (s.moveReader c (.text (rowno (moved.getD data)) []))
  | .text rowno data, some b => some (s.moveReader c (.text rowno (data ++ [b])))
  | .text rowno data, none =>
    let len := data.length
    some { s.moveReader c (if len > 0 then .number [] else .ended) with
      calls := s.calls ++ [(c, rowno, moved.getD data)] }
  | .ended, _ => none

inductive Action (M : ℕ)
  | write (record : Record)
  | close
  | read (c : Fin M) (moved : Option (List UInt8))

/-- A `read` waits while the FIFO is empty and some producer has it open. -/
def step (s : State M) : Action M → Option (State M)
  | .write record =>
    if s.closed then none
    else some { s with fifo := s.fifo ++ record.bytes, sent := s.sent ++ [record] }
  | .close => some { s with closed := true }
  | .read c moved =>
    match s.fifo with
    | b :: fifo => { s with fifo := fifo }.advance c (some b) moved
    | [] => if s.closed then s.advance c none moved else none

/-- `realloc` has extended the block of the field in place. -/
def InPlace : Action M → Prop
  | .read _ moved => moved = none
  | _ => True

instance : DecidablePred (InPlace (M := M))
  | .read _ moved => inferInstanceAs (Decidable (moved = none))
  | .write _ => isTrue trivial
  | .close => isTrue trivial

theorem inPlace_read (c : Fin M) : InPlace (.read c none) := rfl

/-- The arguments of the calls of `writeaddline`, in their order. -/
def State.pairs (s : State M) : List (ℤ × List UInt8) := s.calls.map Prod.snd

end Pipe

end Sysopy.Rows
