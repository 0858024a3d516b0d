import Sysopy.Library.CInteger
import Sysopy.TextLibrary.Lines

/-!
# The functions of the text library

`merge` and `filterWithSign` write to standard output, the others to files whose paths they
get. Blocks of fixed size are written out of zeroed memory that holds a string; their bytes are
those that `strncpy` copies. What reads or writes outside of its memory, divides by zero or
does not end gives no result.
-/
namespace Sysopy.TextLibrary

open CInteger CString CText

theorem tdiv_ten_lt {number : ℤ} (h : number.tdiv 10 > 0) :
    (number.tdiv 10).toNat < number.toNat := by
  have hpos : 0 ≤ number := by
    by_contra hneg
    have hquotient : 0 ≤ (-number).tdiv 10 := Int.tdiv_nonneg (by omega) (by decide)
    rw [Int.neg_tdiv] at hquotient
    omega
  rw [Int.tdiv_eq_ediv_of_nonneg hpos] at h ⊢
  omega

def numberSize (number : ℤ) : ℕ :=
  if _h : number.tdiv 10 > 0 then numberSize (number.tdiv 10) + 1 else 1
termination_by number.toNat
decreasing_by exact tdiv_ten_lt _h

/-- The length of a string, or of its first line with the newline. -/
def stringSize : List UInt8 → ℕ
  | [] => 0
  | c :: string =>
    if c = 0 then 0 else if c = NEWLINE then 1 else stringSize string + 1

def atoi (s : List UInt8) : ℤ := toInt (strtol s)

/-! ## Standard output -/

section Output

variable (m : Interface)

/-- A file of `merge`, with its flag. -/
structure Source where
  file : m.TYPE
  eof : Bool

/-- The half of the loop of `merge` that is about one of the files. After the file's end the last
line that was read is written again. -/
def turn (source : Source m) (line : List UInt8) (out : m.TYPE) :
    Option (Source m × List UInt8 × m.TYPE) :=
  if source.eof then some (source, line, m.WRITE out (strncpy MAX_LINE_LEN line))
  else
    match fgetline m source.file with
    | none => none
    | some (line, file) =>
      if line = [] then some (⟨file, true⟩, line, out)
      else some (⟨file, false⟩, line, m.WRITE out (strncpy MAX_LINE_LEN line))

variable {m} in
def Source.rank (source : Source m) : ℕ :=
  (m.unread source.file).length + if source.eof then 0 else 1

variable {m} in
theorem rank_turn {source source' : Source m} {line line' : List UInt8} {out out' : m.TYPE}
    (h : turn m source line out = some (source', line', out')) :
    source.eof = true ∧ source' = source ∨
      source.eof = false ∧ source'.rank < source.rank := by
  unfold turn at h
  split_ifs at h with heof
  · obtain ⟨rfl, _⟩ := Prod.mk.inj (Option.some.inj h)
    exact Or.inl ⟨heof, rfl⟩
  · refine Or.inr ⟨by simpa using heof, ?_⟩
    split at h
    · cases h
    · rename_i line file hget
      split_ifs at h with hnil
      · obtain ⟨rfl, _⟩ := Prod.mk.inj (Option.some.inj h)
        obtain ⟨_, _, _, hrest⟩ := fgetline_eq_some hget
        simp only [Source.rank, hrest, restOf, List.length_drop, heof, Bool.false_eq_true, if_true,
          if_false]
        omega
      · obtain ⟨rfl, _⟩ := Prod.mk.inj (Option.some.inj h)
        have hlt := fgetline_lt hget hnil
        simpa [Source.rank, heof] using hlt

def mergeLoop (f1 f2 : Source m) (line : List UInt8) (out : m.TYPE) : Option m.TYPE :=
  if _heof : f1.eof = true ∧ f2.eof = true then some out
  else
    match _h1 : turn m f1 line out with
    | none => none
    | some (f1', line', out') =>
      match _h2 : turn m f2 line' out' with
      | none => none
      | some (f2', line'', out'') => mergeLoop f1' f2' line'' out''
termination_by f1.rank + f2.rank
decreasing_by
  rcases rank_turn _h1 with ⟨heof1, rfl⟩ | ⟨_, hlt1⟩
  · rcases rank_turn _h2 with ⟨heof2, _⟩ | ⟨_, hlt2⟩
    · exact absurd ⟨heof1, heof2⟩ _heof
    · omega
  · rcases rank_turn _h2 with ⟨_, rfl⟩ | ⟨_, hlt2⟩
    · omega
    · omega

variable {m} in
theorem mergeLoop_eq_bind {f1 f2 : Source m} (h : ¬ (f1.eof = true ∧ f2.eof = true))
    (line : List UInt8) (out : m.TYPE) :
    mergeLoop m f1 f2 line out = (turn m f1 line out).bind fun t1 =>
      (turn m f2 t1.2.1 t1.2.2).bind fun t2 => mergeLoop m t1.1 t2.1 t2.2.1 t2.2.2 := by
  rw [mergeLoop, dif_neg h]
  split
  · rename_i h1
    rw [h1, Option.bind_none]
  · rename_i h1
    rw [h1, Option.bind_some]
    split
    · rename_i h2
      rw [h2, Option.bind_none]
    · rename_i h2
      rw [h2, Option.bind_some]

/-- What `merge` writes to standard output. -/
def merge (file1 file2 : List UInt8) : Option (List UInt8) :=
  (mergeLoop m ⟨m.OPEN file1 .r, false⟩ ⟨m.OPEN file2 .r, false⟩ [] m.STDOUT).map m.CLOSE

/-- `strchr` finds the character that ends the string, too. -/
def HasSign (sign : UInt8) (line : List UInt8) : Prop := sign = 0 ∨ sign ∈ line

instance decidableHasSign (sign : UInt8) (line : List UInt8) : Decidable (HasSign sign line) :=
  inferInstanceAs (Decidable (_ ∨ _))

/-- What `filterWithSign` writes to standard output. -/
def filterWithSign (file : List UInt8) (sign : UInt8) : Option (List UInt8) :=
  (whileLine m (fun out line =>
    some (if HasSign sign line then m.WRITE out (strncpy MAX_LINE_LEN line) else out))
    (m.OPEN file .r) m.STDOUT).map m.CLOSE

end Output

/-! ## Output files -/

/-- The variables of the loop of `filterNumbers`. -/
structure Numbers (m : Interface) where
  outB : m.TYPE
  outC : m.TYPE
  evenCounter : ℤ

/-- The numbers above 10 whose tens digit is 0 or 7. -/
def InB (number : ℤ) : Prop :=
  number > 10 ∧ ((number.tdiv 10).tmod 10 = 0 ∨ (number.tdiv 10).tmod 10 = 7)

instance decidableInB : DecidablePred InB := fun _ => inferInstanceAs (Decidable (_ ∧ (_ ∨ _)))

/-- The numbers that are the square of their rounded root. -/
def InC (root : ℤ → ℤ) (number : ℤ) : Prop := toInt (root number * root number) = number

instance decidableInC (root : ℤ → ℤ) : DecidablePred (InC root) :=
  fun _ => inferInstanceAs (Decidable (_ = _))

/-- The bytes of a line that are written for its number. -/
def numberBlock (buf : List UInt8) : List UInt8 := strncpy (numberSize (atoi buf) + 1) buf

/-- The line "Liczb parzystych jest %d\n", of which as many bytes are written as it should
have. -/
def evenBlock (evenCounter : ℤ) : List UInt8 :=
  strncpy (23 + numberSize evenCounter)
    ([76, 105, 99, 122, 98, 32, 112, 97, 114, 122, 121, 115, 116, 121, 99, 104, 32, 106, 101, 115,
      116, 32] ++ decimal evenCounter ++ [NEWLINE])

section Files

variable (m : Interface) (root : ℤ → ℤ)

/-- The body of the loop of `filterNumbers`, where `root` is what a number becomes by
`(int) round(sqrt((double) number))`. -/
def filterNumber (s : Numbers m) (buf : List UInt8) : Numbers m where
  outB := if InB (atoi buf) then m.WRITE s.outB (numberBlock buf) else s.outB
  outC := if InC root (atoi buf) then m.WRITE s.outC (numberBlock buf) else s.outC
  evenCounter := if (atoi buf).tmod 2 = 0 then toInt (s.evenCounter + 1) else s.evenCounter

/-- The contents of the files `a`, `b` and `c` after `filterNumbers`, from their contents
before. -/
def filterNumbers (file a b c : List UInt8) : Option (List UInt8 × List UInt8 × List UInt8) :=
  (whileLine m (fun s buf => some (filterNumber m root s buf)) (m.OPEN file .r)
    ⟨m.OPEN b .w, m.OPEN c .w, 0⟩).map fun s =>
      (m.CLOSE (m.WRITE (m.OPEN a .w) (evenBlock s.evenCounter)), m.CLOSE s.outB, m.CLOSE s.outC)

/-- The loop that fills the buffer of `replace` from the place `i` of the line on. -/
def replaceLoop (pattern replacement line : List UInt8) (i : ℕ) (buf : List UInt8) :
    Option (List UInt8) :=
  if i + 1 < stringSize line then
    if pattern <+: line.drop i then
      if pattern = [] then none
      else replaceLoop pattern replacement line (i + pattern.length) (buf ++ replacement)
    else replaceLoop pattern replacement line (i + 1) (buf ++ (line.drop i).take 1)
  else some buf
termination_by stringSize line - i
decreasing_by
  · have hpos : 0 < pattern.length := List.length_pos_iff.mpr (by assumption)
    omega
  · omega

/-- How often the pattern of `replace` is counted in a line. -/
def countMatches (pattern line : List UInt8) : ℕ :=
  (List.range (stringSize line - pattern.length)).countP (pattern <+: line.drop ·)

/-- The size of the block that `replace` writes for a line, as an `int`. -/
def bufSize (n1 n2 line : List UInt8) : ℤ :=
  toInt (stringSize line +
    ((stringSize n2 : ℤ) - stringSize n1) * countMatches (n1.take (stringSize n1)) line)

/-- The body of the loop of `replace`: the bytes that are written. -/
def replaceLine (n1 n2 line : List UInt8) : Option (List UInt8) :=
  match replaceLoop (n1.take (stringSize n1)) (n2.take (stringSize n2)) line 0 [] with
  | none => none
  | some buf =>
    if buf.length < bufSize n1 n2 line then
      some (strncpy ((bufSize n1 n2 line).toNat - 1) buf ++ [NEWLINE])
    else none

/-- The content of the output file after `replace`. -/
def replace (file outFile n1 n2 : List UInt8) : Option (List UInt8) :=
  -- `stringSize` counts with an `int`
  if INT_MAX < stringSize n1 ∨ INT_MAX < stringSize n2 then none
  else
    (whileLine m (fun out line => (replaceLine n1 n2 line).map (m.WRITE out))
      (m.OPEN file .r) (m.OPEN outFile .w)).map m.CLOSE

/-- The pieces that `breakLines` copies, each ended by a newline. -/
def brokenLine (line : List UInt8) (count : ℕ) : List UInt8 :=
  (List.range count).flatMap fun i => (line.drop (50 * i)).take 50 ++ [NEWLINE]

/-- The size of the block that `breakLines` writes for a line. -/
def brokenSize (breakpoint : ℤ) (line : List UInt8) : ℤ :=
  stringSize line + (stringSize line : ℤ).tdiv breakpoint

/-- The body of the loop of `breakLines`: the bytes that are written. -/
def breakLine (breakpoint : ℤ) (line : List UInt8) : Option (List UInt8) :=
  let breaks_num := (stringSize line : ℤ).tdiv breakpoint
  if breakpoint = 0 then none
  else if breaks_num = 0 then some (strncpy (stringSize line) line)
  else if 50 * breaks_num < MAX_LINE_LEN then
    some (strncpy (brokenSize breakpoint line).toNat (brokenLine line (breaks_num + 1).toNat))
  else none

/-- The content of the output file after `breakLines`. -/
def breakLines (file outFile : List UInt8) (breakpoint : ℤ) : Option (List UInt8) :=
  (whileLine m (fun out line => (breakLine breakpoint line).map (m.WRITE out))
    (m.OPEN file .r) (m.OPEN outFile .w)).map m.CLOSE

end Files

end Sysopy.TextLibrary
