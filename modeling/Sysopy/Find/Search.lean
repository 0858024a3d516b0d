import Sysopy.Find.Pattern
import Sysopy.Library.ByteFile

/-!
# The search as the file sees it

`containsPattern` reads a block and seeks back by all of its bytes but one, until a block is the
pattern or the file ends in it. The next position is one byte further each time, so the search
ends, and it is the one over positions.
-/
namespace Sysopy.Find

open ByteFile CString

/-- The loop of `containsPattern`, at most `fuel` blocks of it. -/
def searchLoop (pattern : List UInt8) : ℕ → File → Option Bool
  | 0, _ => none
  | fuel + 1, file =>
    let length := pattern.length
    let (buf, file) := file.freadBlock length
    if buf.length = length then
      if strncmp buf pattern = 0 then some true
      else searchLoop pattern fuel (file.fseekCur (-length + 1))
    else some false

/-- `containsPattern` on an opened file, for the bytes in memory where the pattern begins. -/
def search (fuel : ℕ) (content memory : List UInt8) : Option Bool :=
  searchLoop (contents memory) fuel (File.fopen content)

theorem fseekCur_freadBlock {file : File} {length : ℕ}
    (hread : (file.freadBlock length).1.length = length) :
    (file.freadBlock length).2.fseekCur (-length + 1) =
      { file with pos := file.pos + 1, eof := false } := by
  have hpos : ((file.freadBlock length).2.pos : ℤ) + (-length + 1) = file.pos + 1 := by
    have hpos : (file.freadBlock length).2.pos = file.pos + (file.freadBlock length).1.length := rfl
    rw [hpos, hread]
    omega
  rw [File.fseekCur, hpos, if_neg (by omega)]
  rfl

theorem searchLoop_succ (pattern : List UInt8) (fuel : ℕ) (file : File) :
    searchLoop pattern (fuel + 1) file =
      if (file.freadBlock pattern.length).1.length = pattern.length then
        if strncmp (file.freadBlock pattern.length).1 pattern = 0 then some true
        else searchLoop pattern fuel
          ((file.freadBlock pattern.length).2.fseekCur (-pattern.length + 1))
      else some false := rfl

/-- With a block for every byte that is left, and one more, the loop ends. -/
theorem searchLoop_eq (pattern : List UInt8) {fuel : ℕ} {file : File}
    (hfuel : file.bytes.length - file.pos < fuel) :
    searchLoop pattern fuel file = some (containsPatternFrom file.bytes pattern file.pos) := by
  induction fuel generalizing file with
  | zero => exact absurd hfuel (Nat.not_lt_zero _)
  | succ fuel ih =>
    have hblock : (file.freadBlock pattern.length).1 =
        (file.bytes.drop file.pos).take pattern.length := rfl
    rw [searchLoop_succ, containsPatternFrom]
    by_cases hread : (file.freadBlock pattern.length).1.length = pattern.length
    · rw [fseekCur_freadBlock hread]
      rw [hblock] at hread ⊢
      rw [if_pos hread, if_pos hread]
      by_cases hcmp : strncmp ((file.bytes.drop file.pos).take pattern.length) pattern = 0
      · rw [if_pos hcmp, dif_pos hcmp]
      · have hlt := lt_length_of_strncmp hcmp
        have hnext : file.bytes.length - (file.pos + 1) < fuel := by omega
        rw [if_neg hcmp, dif_neg hcmp]
        exact ih hnext
    · rw [hblock] at hread ⊢
      rw [if_neg hread, if_neg hread]

/-- The search ends, and with `true` exactly where the pattern occurs in the file. -/
theorem search_eq {fuel : ℕ} {content : List UInt8} (hfuel : content.length < fuel)
    (memory : List UInt8) :
    search fuel content memory = some (decide (contents memory <:+: content)) := by
  have hfound : containsPattern content (contents memory) = true ↔ _ :=
    containsPattern_iff (zero_notMem_contents memory)
  rw [search, searchLoop_eq _ hfuel]
  exact congrArg some (Bool.eq_iff_iff.mpr (hfound.trans decide_eq_true_iff.symm))

theorem search_eq_aab :
    search 7 [97, 0, 97, 97, 97, 98] [97, 97, 98, 0] =
      some (decide (contents [97, 97, 98, 0] <:+: [97, 0, 97, 97, 97, 98])) :=
  search_eq (by decide) _

end Sysopy.Find
