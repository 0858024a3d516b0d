import Sysopy.Library.CString

/-!
# Searching a file for a pattern

`containsPattern` reads as many bytes as the pattern has from every position of the file in
turn, and stops at the first block that is the pattern or that the end of the file cuts short.
-/
namespace Sysopy.Find

open CString

theorem strncmp_eq_zero_iff_eq {buf pattern : List UInt8} (hpattern : 0 ∉ pattern)
    (hlen : buf.length = pattern.length) : strncmp buf pattern = 0 ↔ buf = pattern := by
  have hcontents : contents pattern = pattern := contents_of_notMem hpattern
  rw [strncmp_eq_zero_iff buf pattern hlen, hcontents]
  constructor
  · intro h
    have hstart : contents buf <+: buf := List.takeWhile_prefix _
    have hfull : (contents buf).length = buf.length := by rw [h, hlen]
    rw [← h]
    exact (hstart.eq_of_length hfull).symm
  · rintro rfl
    exact hcontents

theorem lt_length_of_strncmp {content pattern : List UInt8} {position : ℕ}
    (hcmp : strncmp ((content.drop position).take pattern.length) pattern ≠ 0) :
    position < content.length := by
  by_contra hle
  have hnil : content.drop position = [] := List.drop_eq_nil_iff.mpr (Nat.le_of_not_lt hle)
  rw [hnil, List.take_nil] at hcmp
  exact hcmp rfl

/-- The loop of `containsPattern`, from a position of the file: the block is read, and the
position then set to the one behind where the block began. -/
def containsPatternFrom (content pattern : List UInt8) (position : ℕ) : Bool :=
  let buf := (content.drop position).take pattern.length
  if buf.length = pattern.length then
    if hcmp : strncmp buf pattern = 0 then true
    else containsPatternFrom content pattern (position + 1)
  else false
termination_by content.length - position
decreasing_by
  have hlt := lt_length_of_strncmp hcmp
  omega

def containsPattern (content pattern : List UInt8) : Bool :=
  containsPatternFrom content pattern 0

theorem containsPatternFrom_iff {content pattern : List UInt8} (hpattern : 0 ∉ pattern)
    (position : ℕ) :
    containsPatternFrom content pattern position = true ↔ pattern <:+: content.drop position := by
  fun_induction containsPatternFrom content pattern position with
  | case1 position buf hread hcmp =>
    have hbuf : buf = pattern := (strncmp_eq_zero_iff_eq hpattern hread).mp hcmp
    have hstart : pattern <+: content.drop position := hbuf ▸ List.take_prefix _ _
    exact iff_of_true rfl hstart.isInfix
  | case2 position buf hread hcmp ih =>
    have hlt : position < content.length := lt_length_of_strncmp hcmp
    have hnot : ¬ pattern <+: content.drop position := by
      intro hstart
      apply hcmp
      rw [strncmp_eq_zero_iff_eq hpattern hread]
      exact (List.prefix_iff_eq_take.mp hstart).symm
    rw [ih, List.drop_eq_getElem_cons hlt] 
    rw [List.drop_eq_getElem_cons hlt] at hnot
    rw [List.infix_cons_iff, or_iff_right hnot]
  | case3 position buf hread =>
    refine iff_of_false Bool.false_ne_true fun hinfix => hread ?_
    exact List.length_take_of_le hinfix.length_le

/-- The pattern is found where it occurs, and nowhere else. -/
theorem containsPattern_iff {content pattern : List UInt8} (hpattern : 0 ∉ pattern) :
    containsPattern content pattern = true ↔ pattern <:+: content :=
  containsPatternFrom_iff hpattern 0

end Sysopy.Find
