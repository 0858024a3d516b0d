import Sysopy.Library.ByteFile

/-!
# Buffered streams

A stream of the C library reads its file ahead, and collects what is written to it until some of
it is due or the stream is closed. The buffers decide when bytes move, not which.
-/
namespace Sysopy.Stdio

open ByteFile

/-- How many bytes are read ahead at a time, and how many of the collected bytes are due. -/
structure Buffering where
  size : ℕ
  size_pos : 0 < size
  due : List UInt8 → ℕ

structure FILE where
  file : File
  ahead : List UInt8
  pending : List UInt8
  deriving DecidableEq, Repr

namespace FILE

def fopen (bytes : List UInt8) : FILE := ⟨.fopen bytes, [], []⟩

/-- `fread` of one byte. -/
def fread (buffering : Buffering) (f : FILE) : Option (UInt8 × FILE) :=
  match f.ahead with
  | c :: ahead => some (c, { f with ahead := ahead })
  | [] =>
    match (f.file.bytes.drop f.file.pos).take buffering.size with
    | [] => none
    | c :: ahead =>
      some (c, { f with file.pos := f.file.pos + (c :: ahead).length, ahead := ahead })

def fwrite (buffering : Buffering) (f : FILE) (data : List UInt8) : FILE :=
  let pending := f.pending ++ data
  { f with
    file := f.file.fwrite (pending.take (buffering.due pending))
    pending := pending.drop (buffering.due pending) }

/-- The stream after the `exit` of a child process, which gives back what has been read ahead by
moving the position of the file. The position is common to both processes, and the bytes that the
parent has read ahead stay there. -/
def exitChild (f : FILE) : FILE := { f with file := f.file.fseekCur (-f.ahead.length) }

/-- The bytes of the file after `fclose`. -/
def fclose (f : FILE) : List UInt8 := (f.file.fwrite f.pending).bytes

/-- The bytes that are still to be read. -/
def unread (f : FILE) : List UInt8 := f.ahead ++ f.file.bytes.drop f.file.pos

variable {buffering : Buffering} {f f' : FILE}

@[simp] theorem unread_fopen (bytes : List UInt8) : (fopen bytes).unread = bytes := rfl

theorem unread_of_fread_eq_none (h : f.fread buffering = none) : f.unread = [] := by
  unfold fread at h
  split at h
  · cases h
  · rename_i hahead
    split at h
    · rename_i htake
      rw [unread, hahead, List.nil_append]
      exact (List.take_eq_nil_iff.mp htake).resolve_left buffering.size_pos.ne'
    · cases h

theorem unread_of_fread {c : UInt8} (h : f.fread buffering = some (c, f')) :
    f.unread = c :: f'.unread := by
  unfold fread at h
  split at h
  · rename_i hahead
    cases h
    rw [unread, hahead]
    rfl
  · rename_i hahead
    split at h
    · cases h
    · rename_i ahead htake
      cases h
      have hdrop : f.file.bytes.drop f.file.pos =
          (c :: ahead) ++ f.file.bytes.drop (f.file.pos + (c :: ahead).length) := by
        rw [← List.drop_drop, ← htake]
        exact (List.prefix_iff_eq_append.mp (List.take_prefix _ _)).symm
      rw [unread, hahead, hdrop]
      rfl

theorem unread_exitChild (h : f.ahead = []) : f.exitChild.unread = f.unread := by
  have hpos : ¬ ((f.file.pos : ℤ) + -([] : List UInt8).length < 0) := by simp
  rw [exitChild, h, File.fseekCur, if_neg hpos]
  simp [unread, h]

/-- Where nothing is read ahead the children's exits leave the stream as it is. -/
theorem unread_iterate_exitChild {n : ℕ} (h : n = 0 ∨ f.ahead = []) :
    (exitChild^[n] f).unread = f.unread := by
  rcases h with rfl | hahead
  · rfl
  · have hkept : (exitChild^[n] f).unread = f.unread ∧ (exitChild^[n] f).ahead = [] := by
      induction n with
      | zero => exact ⟨rfl, hahead⟩
      | succ n ih =>
        rw [Function.iterate_succ_apply']
        refine ⟨?_, ih.2⟩
        rw [← ih.1]
        exact unread_exitChild ih.2
    exact hkept.1

theorem fwrite_pending (hpos : f.file.pos ≤ f.file.bytes.length) (data : List UInt8) :
    (f.fwrite buffering data).file.fwrite (f.fwrite buffering data).pending =
      f.file.fwrite (f.pending ++ data) := by
  rw [fwrite, File.fwrite_fwrite hpos, List.take_append_drop]

/-- What is written to a stream is in the file when the stream is closed. -/
theorem fclose_foldl_fwrite (hpos : f.file.pos ≤ f.file.bytes.length)
    (blocks : List (List UInt8)) :
    (blocks.foldl (fwrite buffering) f).fclose =
      (f.file.fwrite (f.pending ++ blocks.flatten)).bytes := by
  induction blocks generalizing f with
  | nil => rw [List.foldl_nil, List.flatten_nil, List.append_nil, fclose]
  | cons data blocks ih =>
    have hpos' : (f.fwrite buffering data).file.pos ≤ (f.fwrite buffering data).file.bytes.length :=
      File.pos_le_length_fwrite hpos _
    rw [List.foldl_cons, ih hpos', ← File.fwrite_fwrite hpos', fwrite_pending hpos,
      File.fwrite_fwrite hpos, List.flatten_cons, List.append_assoc]

end FILE

end Sysopy.Stdio
