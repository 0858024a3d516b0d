import Sysopy.Library.CText
import Sysopy.Library.Stdio

/-!
# The two builds of the text library

The library is compiled against descriptors or against streams: macros stand for the type of an
open file and for what is done with it. A file is given by its bytes; an output file that does
not exist is created empty, and the paths of a call are those of different files.

`fgetline` reads to a single byte and hands its address to `strcat`, which reads on up to a zero.
What lies behind that byte is up to the compiler: with a stack protector it is the zero byte of
the canary, otherwise it may be anything.
-/
namespace Sysopy.TextLibrary

open ByteFile CString CText Stdio

def MAX_LINE_LEN : ℕ := 255

inductive Mode
  | r
  | w
  deriving DecidableEq, Repr

/-- The macros of a build, with what the library relies on: bytes are read in order, and what is
written begins the file, in front of what its opening has kept. -/
structure Interface where
  TYPE : Type
  STDOUT : TYPE
  OPEN : List UInt8 → Mode → TYPE
  READ : TYPE → Option (UInt8 × TYPE)
  WRITE : TYPE → List UInt8 → TYPE
  CLOSE : TYPE → List UInt8
  unread : TYPE → List UInt8
  kept : List UInt8 → List UInt8
  /-- Whether a zero always lies behind the `buf` of `fgetline`. -/
  zeroBehindBuf : Bool
  unread_OPEN : ∀ bytes, unread (OPEN bytes .r) = bytes
  unread_of_READ_eq_none : ∀ {file}, READ file = none → unread file = []
  unread_of_READ : ∀ {file c file'}, READ file = some (c, file') →
    unread file = c :: unread file'
  CLOSE_OPEN : ∀ (bytes : List UInt8) (blocks : List (List UInt8)), CLOSE (blocks.foldl WRITE (OPEN bytes .w)) =
    blocks.flatten ++ (kept bytes).drop blocks.flatten.length
  CLOSE_STDOUT : ∀ blocks : List (List UInt8), CLOSE (blocks.foldl WRITE STDOUT) = blocks.flatten

theorem bytes_fwrite_fopen (bytes data : List UInt8) :
    ((File.fopen bytes).fwrite data).bytes = data ++ bytes.drop data.length := by
  rw [File.bytes_fwrite (Nat.zero_le _)]
  simp [File.fopen]

/-- The build with `-Dsys`: files are opened for writing with `O_WRONLY | O_CREAT`. -/
def sys (zeroBehindBuf : Bool) : Interface where
  TYPE := File
  STDOUT := File.fopen []
  OPEN bytes _ := File.fopen bytes
  READ file := file.fread.1.map fun c => (c, file.fread.2)
  WRITE := File.fwrite
  CLOSE := File.bytes
  unread := File.unread
  kept bytes := bytes
  zeroBehindBuf := zeroBehindBuf
  unread_OPEN _ := rfl
  unread_of_READ_eq_none h := File.unread_of_fread_eq_none (Option.map_eq_none_iff.mp h)
  unread_of_READ h := by
    obtain ⟨c, hread, heq⟩ := Option.map_eq_some_iff.mp h
    obtain ⟨rfl, rfl⟩ := Prod.mk.inj heq
    exact File.unread_of_fread hread
  CLOSE_OPEN bytes blocks := by
    rw [File.foldl_fwrite (Nat.zero_le _), bytes_fwrite_fopen]
  CLOSE_STDOUT blocks := by
    rw [File.foldl_fwrite (Nat.zero_le _), bytes_fwrite_fopen, List.drop_nil, List.append_nil]

/-- The build with `-Dlib`: `fopen` truncates a file that it opens for writing. -/
def lib (zeroBehindBuf : Bool) (buffering : Buffering) : Interface where
  TYPE := FILE
  STDOUT := FILE.fopen []
  OPEN
    | bytes, .r => FILE.fopen bytes
    | _, .w => FILE.fopen []
  READ := FILE.fread buffering
  WRITE := FILE.fwrite buffering
  CLOSE := FILE.fclose
  unread := FILE.unread
  kept _ := []
  zeroBehindBuf := zeroBehindBuf
  unread_OPEN _ := rfl
  unread_of_READ_eq_none := FILE.unread_of_fread_eq_none
  unread_of_READ := FILE.unread_of_fread
  CLOSE_OPEN _ blocks := by
    rw [FILE.fclose_foldl_fwrite (Nat.zero_le _)]
    exact bytes_fwrite_fopen [] blocks.flatten
  CLOSE_STDOUT blocks := by
    rw [FILE.fclose_foldl_fwrite (Nat.zero_le _)]
    exact (bytes_fwrite_fopen [] blocks.flatten).trans (by rw [List.drop_nil, List.append_nil])

end Sysopy.TextLibrary
