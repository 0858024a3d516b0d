import Mathlib.Tactic

/-!
# Unbuffered byte files

A stream opened for reading and writing has the bytes of its file, a position
and an end-of-file indicator. Writing replaces bytes from the position on and
extends the file, with zeros where the position lies behind its end.
-/
namespace Sysopy.ByteFile

@[ext] structure File where
  bytes : List UInt8
  pos : ℕ
  eof : Bool
  deriving DecidableEq, Repr

namespace File

/-- A file opened without truncation. -/
def fopen (bytes : List UInt8) : File := ⟨bytes, 0, false⟩

/-- `fseek` with `SEEK_SET`; a negative offset is an error and changes nothing. -/
def fseek (f : File) (offset : ℤ) : File :=
  if offset < 0 then f else { f with pos := offset.toNat, eof := false }

/-- `fseek` with `SEEK_END` and offset 0. -/
def fseekEnd (f : File) : File := { f with pos := f.bytes.length, eof := false }

/-- `fseek` with `SEEK_CUR`; in front of the file is an error and changes nothing. -/
def fseekCur (f : File) (offset : ℤ) : File :=
  if f.pos + offset < 0 then f else { f with pos := (f.pos + offset).toNat, eof := false }

def rewind (f : File) : File := { f with pos := 0, eof := false }

/-- `fread` of one byte; `none` sets the end-of-file indicator. -/
def fread (f : File) : Option UInt8 × File :=
  match f.bytes[f.pos]? with
  | some b => (some b, { f with pos := f.pos + 1 })
  | none => (none, { f with eof := true })

/-- `fread` of up to `n` bytes; the end of the file among them sets the indicator. -/
def freadBlock (f : File) (n : ℕ) : List UInt8 × File :=
  let block := (f.bytes.drop f.pos).take n
  (block, { f with pos := f.pos + block.length, eof := f.eof || decide (block.length < n) })

def fwrite (f : File) (data : List UInt8) : File :=
  { f with
    bytes := f.bytes.take f.pos ++ List.replicate (f.pos - f.bytes.length) 0 ++ data ++
      f.bytes.drop (f.pos + data.length)
    pos := f.pos + data.length }

/-- The bytes that are still to be read. -/
def unread (f : File) : List UInt8 := f.bytes.drop f.pos

variable {f : File}

theorem unread_of_fread_eq_none (h : f.fread.1 = none) : f.unread = [] := by
  unfold fread at h
  split at h
  · cases h
  · rename_i hnone
    exact List.drop_eq_nil_of_le (List.getElem?_eq_none_iff.mp hnone)

theorem unread_of_fread {c : UInt8} (h : f.fread.1 = some c) :
    f.unread = c :: f.fread.2.unread := by
  unfold fread at h ⊢
  split at h
  · rename_i hsome
    obtain rfl := Option.some.inj h
    obtain ⟨hlt, hget⟩ := List.getElem?_eq_some_iff.mp hsome
    rw [unread, List.drop_eq_getElem_cons hlt, hget]
    rfl
  · cases h

@[simp] theorem pos_fwrite (data : List UInt8) : (f.fwrite data).pos = f.pos + data.length := rfl

theorem fwrite_nil (hpos : f.pos ≤ f.bytes.length) : f.fwrite [] = f := by
  simp [fwrite, Nat.sub_eq_zero_of_le hpos]

theorem length_fwrite (hpos : f.pos ≤ f.bytes.length) (data : List UInt8) :
    (f.fwrite data).bytes.length = max f.bytes.length (f.pos + data.length) := by
  simp only [fwrite, List.length_append, List.length_take, List.length_replicate,
    List.length_drop]
  omega

theorem bytes_fwrite (hpos : f.pos ≤ f.bytes.length) (data : List UInt8) :
    (f.fwrite data).bytes = f.bytes.take f.pos ++ data ++ f.bytes.drop (f.pos + data.length) := by
  simp [fwrite, Nat.sub_eq_zero_of_le hpos]

theorem pos_le_length_fwrite (hpos : f.pos ≤ f.bytes.length) (data : List UInt8) :
    (f.fwrite data).pos ≤ (f.fwrite data).bytes.length := by
  rw [pos_fwrite, length_fwrite hpos]
  exact le_max_right _ _

theorem fwrite_fwrite (hpos : f.pos ≤ f.bytes.length) (data data' : List UInt8) :
    (f.fwrite data).fwrite data' = f.fwrite (data ++ data') := by
  have hpos' := pos_le_length_fwrite hpos data
  have hhead : (f.bytes.take f.pos ++ data).length = f.pos + data.length := by
    simp [Nat.min_eq_left hpos]
  apply File.ext
  · rw [bytes_fwrite hpos', bytes_fwrite hpos, bytes_fwrite hpos, pos_fwrite,
      List.take_left' hhead, ← List.drop_drop, List.drop_left' hhead, List.drop_drop,
      List.length_append]
    simp only [List.append_assoc, Nat.add_assoc]
  · simp only [pos_fwrite, List.length_append, Nat.add_assoc]
  · rfl

theorem foldl_fwrite (hpos : f.pos ≤ f.bytes.length) (blocks : List (List UInt8)) :
    blocks.foldl fwrite f = f.fwrite blocks.flatten := by
  induction blocks generalizing f with
  | nil => exact (fwrite_nil hpos).symm
  | cons data blocks ih =>
    rw [List.foldl_cons, ih (pos_le_length_fwrite hpos data), fwrite_fwrite hpos,
      List.flatten_cons]

/-- Data at least as long as the file, written from its start, replace it. -/
theorem bytes_fwrite_of_length_le (hpos : f.pos = 0) {data : List UInt8}
    (hlen : f.bytes.length ≤ data.length) : (f.fwrite data).bytes = data := by
  simp [fwrite, hpos, List.drop_of_length_le hlen]

end File

end Sysopy.ByteFile
