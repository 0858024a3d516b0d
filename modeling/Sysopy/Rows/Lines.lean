import Sysopy.Library.ByteFile
import Sysopy.Library.CInteger
import Sysopy.Library.CString
import Mathlib.Logic.Function.Basic

/-!
# Adding text to a row of the output file

`writeaddline` appends a text to row `rowno`: it adds the missing rows, finds the
end of the row from a table of lengths, writes the new contents into the
temporary file and copies them back. The entry `i` of the table belongs to row
`i + 1`. Offsets are `int`, so the file has to stay below 2 GiB.
-/
namespace Sysopy.Rows

open ByteFile ByteFile.File CInteger CString

abbrev NEWLINE : UInt8 := 10

/-- `struct fileinfo`; `len` is the memory around the array. -/
structure FileInfo where
  len : ℤ → ℤ
  lines : ℤ

/-- The output file, the bytes of the temporary file and the table. -/
structure Output where
  original : File
  tmp : List UInt8
  fileinfo : FileInfo

/-- The loop of `fcpn` with the number of iterations that are left; a byte that
cannot be read leaves `buf` as it is. -/
def fcpnLoop (dest src : File) (buf : UInt8) : ℕ → File × File
  | 0 => (dest, src)
  | k + 1 =>
    if src.eof then (dest, src)
    else
      let buf := src.fread.1.getD buf
      fcpnLoop (dest.fwrite [buf]) src.fread.2 buf k

/-- The new `dest` and `src`; `junk` is what the fresh buffer holds. -/
def fcpn (junk : UInt8) (dest src : File) (start stop : ℤ) : File × File :=
  fcpnLoop dest (src.fseek start) junk (toInt (stop - start)).toNat

/-- The size, and the file whose end-of-file indicator the seeks have cleared. -/
def fsize (file : File) : ℤ × File := (file.bytes.length, { file with eof := false })

/-- The first loop of `writeaddline` with the number of iterations that are left. -/
def addLines (original : File) (fileinfo : FileInfo) : ℕ → File × FileInfo
  | 0 => (original, fileinfo)
  | k + 1 =>
    addLines (original.fwrite [NEWLINE])
      ⟨Function.update fileinfo.len fileinfo.lines 0, fileinfo.lines + 1⟩ k

/-- Inserts a text at an offset by means of the temporary file: the new file and
the new temporary file. -/
def insertText (junk : UInt8) (original : File) (tmp text : List UInt8) (pos : ℤ) : File × File :=
  let head := fcpn junk (fopen tmp) original 0 pos
  let copy := head.1.fwrite text
  let size := fsize head.2
  let tail := fcpn junk copy size.2 pos (toInt size.1)
  let size := fsize tail.1
  fcpn junk tail.2.rewind size.2 0 (toInt size.1)

/-- `text` is a C string; the first loop ends for every `rowno < INT_MAX`. -/
def writeaddline (junk : UInt8) (o : Output) (text : List UInt8) (rowno : ℤ) : Output :=
  let text := contents text
  let added := addLines o.original.fseekEnd o.fileinfo (rowno + 1 - o.fileinfo.lines).toNat
  let fileinfo := added.2
  let pos := toInt (((List.range rowno.toNat).map fun i : ℕ => fileinfo.len i).sum + rowno)
  let files := insertText junk added.1.rewind o.tmp text pos
  let len := Function.update fileinfo.len (rowno - 1)
    (toInt (fileinfo.len (rowno - 1) + text.length))
  ⟨files.1, files.2.bytes, ⟨len, fileinfo.lines⟩⟩

/-- The file opened by `main`, next to an empty temporary file. -/
def Output.start : Output := ⟨fopen [], [], ⟨fun _ => 0, 1⟩⟩

/-! ## Rows of a file -/

/-- The rows before row `r` with their newlines. -/
def lead (rows : ℕ → List UInt8) (r : ℕ) : List UInt8 :=
  (List.range r).flatMap fun i => rows i ++ [NEWLINE]

/-- The rows up to row `last`, joined by newlines. -/
def joined (rows : ℕ → List UInt8) (last : ℕ) : List UInt8 := lead rows last ++ rows last

theorem lead_succ (rows : ℕ → List UInt8) (r : ℕ) :
    lead rows (r + 1) = lead rows r ++ (rows r ++ [NEWLINE]) := by
  simp [lead, List.range_succ]

theorem joined_succ (rows : ℕ → List UInt8) (last : ℕ) :
    joined rows (last + 1) = joined rows last ++ NEWLINE :: rows (last + 1) := by
  simp [joined, lead_succ]

theorem intercalate_concat (sep l : List UInt8) {ls : List (List UInt8)} (hls : ls ≠ []) :
    sep.intercalate (ls ++ [l]) = sep.intercalate ls ++ sep ++ l := by
  induction ls with
  | nil => exact absurd rfl hls
  | cons l' ls ih =>
    cases ls with
    | nil => simp
    | cons l'' ls =>
      have hrec := ih (List.cons_ne_nil _ _)
      simp only [List.cons_append, List.intercalate_cons_cons] at hrec ⊢
      rw [hrec]
      simp only [List.append_assoc]

theorem intercalate_rows (rows : ℕ → List UInt8) (last : ℕ) :
    [NEWLINE].intercalate ((List.range (last + 1)).map rows) = joined rows last := by
  induction last with
  | zero => simp [joined, lead]
  | succ last ih =>
    have hne : (List.range (last + 1)).map rows ≠ [] := by simp
    rw [List.range_succ, List.map_append, List.map_singleton, intercalate_concat _ _ hne, ih,
      joined_succ]
    simp

theorem lead_update {rows : ℕ → List UInt8} {r k : ℕ} (hk : k ≤ r) (x : List UInt8) :
    lead (Function.update rows r x) k = lead rows k := by
  unfold lead
  apply List.flatMap_congr
  intro i hi
  rw [Function.update_of_ne]
  have := List.mem_range.mp hi
  omega

theorem exists_tail (rows : ℕ → List UInt8) {r last : ℕ} (hr : r ≤ last) :
    ∃ tail, ∀ x, joined (Function.update rows r x) last = lead rows r ++ x ++ tail := by
  induction last, hr using Nat.le_induction with
  | base =>
    refine ⟨[], fun x => ?_⟩
    rw [joined, lead_update le_rfl, Function.update_self, List.append_nil]
  | succ last hr ih =>
    obtain ⟨tail, htail⟩ := ih
    refine ⟨tail ++ NEWLINE :: rows (last + 1), fun x => ?_⟩
    rw [joined_succ, htail, Function.update_of_ne (by omega)]
    simp

theorem joined_add {rows : ℕ → List UInt8} {last : ℕ} (hrows : ∀ r, last < r → rows r = [])
    (k : ℕ) : joined rows (last + k) = joined rows last ++ List.replicate k NEWLINE := by
  induction k with
  | zero => simp
  | succ k ih =>
    rw [← Nat.add_assoc, joined_succ, ih, hrows _ (by omega), List.replicate_succ']
    simp

theorem length_lead_add (rows : ℕ → List UInt8) (hrow0 : rows 0 = []) (r : ℕ) :
    ((List.range r).map fun i => (rows (i + 1)).length).sum + r =
      (lead rows r).length + (rows r).length := by
  induction r with
  | zero => simp [lead, hrow0]
  | succ r ih =>
    rw [List.range_succ, List.map_append, List.sum_append, lead_succ]
    simp only [List.map_cons, List.map_nil, List.sum_cons, List.sum_nil, List.length_append,
      List.length_singleton]
    omega

/-! ## Copies -/

theorem fcpnLoop_eq {dest src : File} (hdest : dest.pos ≤ dest.bytes.length)
    (heof : src.eof = false) {k : ℕ} (hk : src.pos + k ≤ src.bytes.length) (buf : UInt8) :
    fcpnLoop dest src buf k =
      (dest.fwrite ((src.bytes.drop src.pos).take k), { src with pos := src.pos + k }) := by
  induction k generalizing dest src buf with
  | zero => simp [fcpnLoop, fwrite_nil hdest]
  | succ k ih =>
    have hlt : src.pos < src.bytes.length := by omega
    have hread : src.fread = (some src.bytes[src.pos], { src with pos := src.pos + 1 }) := by
      simp [fread, List.getElem?_eq_getElem hlt]
    have heof' : (⟨src.bytes, src.pos + 1, src.eof⟩ : File).eof = false := heof
    have hwritten : (dest.fwrite [src.bytes[src.pos]]).pos ≤
        (dest.fwrite [src.bytes[src.pos]]).bytes.length := by
      rw [pos_fwrite, length_fwrite hdest]
      exact le_max_right _ _
    rw [fcpnLoop, if_neg (by simp [heof]), hread, Option.getD_some,
      ih hwritten heof' (by simp only; omega),
      fwrite_fwrite hdest, List.drop_eq_getElem_cons hlt, List.take_succ_cons]
    simp [Nat.add_assoc, Nat.add_comm 1 k]

/-- The bytes from `a` on and before `b` are copied. -/
theorem fcpn_eq (dest src : File) (hdest : dest.pos ≤ dest.bytes.length) {a b : ℕ} (hab : a ≤ b)
    (hb : b ≤ src.bytes.length) (hsize : src.bytes.length < 2 ^ 31) (junk : UInt8) :
    fcpn junk dest src a b =
      (dest.fwrite ((src.bytes.drop a).take (b - a)), { src with pos := b, eof := false }) := by
  have hcount : (toInt ((b : ℤ) - a)).toNat = b - a := by
    rw [← Nat.cast_sub hab, toInt_of_nat (by omega), Int.toNat_natCast]
  have hseek : src.fseek a = { src with pos := a, eof := false } := by
    simp [fseek]
  rw [fcpn, hcount, hseek, fcpnLoop_eq hdest rfl (by simp only; omega)]
  simp only [Nat.add_sub_cancel' hab]

theorem addLines_eq {original : File} (hpos : original.pos = original.bytes.length)
    (fileinfo : FileInfo) (k : ℕ) :
    (addLines original fileinfo k).1.bytes = original.bytes ++ List.replicate k NEWLINE ∧
    (addLines original fileinfo k).2.lines = fileinfo.lines + k ∧
    (∀ i < fileinfo.lines, (addLines original fileinfo k).2.len i = fileinfo.len i) ∧
    ∀ i, fileinfo.lines ≤ i → i < fileinfo.lines + k →
      (addLines original fileinfo k).2.len i = 0 := by
  induction k generalizing original fileinfo with
  | zero =>
    refine ⟨by simp [addLines], by simp [addLines], fun i _ => rfl, fun i h₁ h₂ => ?_⟩
    push_cast at h₂
    omega
  | succ k ih =>
    have hbytes : (original.fwrite [NEWLINE]).bytes = original.bytes ++ [NEWLINE] := by
      rw [bytes_fwrite hpos.le, hpos]
      simp
    have hpos' : (original.fwrite [NEWLINE]).pos = (original.fwrite [NEWLINE]).bytes.length := by
      rw [pos_fwrite, hbytes, hpos]
      simp
    obtain ⟨h₁, h₂, h₃, h₄⟩ := ih hpos'
      ⟨Function.update fileinfo.len fileinfo.lines 0, fileinfo.lines + 1⟩
    rw [addLines]
    refine ⟨?_, ?_, fun i hi => ?_, fun i hle hlt => ?_⟩
    · rw [h₁, hbytes, List.replicate_succ]
      simp
    · rw [h₂]
      push_cast
      ring
    · exact (h₃ i (by simp only; omega)).trans (Function.update_of_ne (by omega) _ _)
    · push_cast at hlt
      rcases eq_or_lt_of_le hle with heq | hlt'
      · subst heq
        exact (h₃ _ (by simp only; omega)).trans (Function.update_self _ _ _)
      · exact h₄ i (by simp only; omega) (by simp only; omega)

/-! ## The table -/

/-- The table has the entry `len i` for each row `i + 1` of the `last` rows. -/
structure Table (len : ℕ → ℕ) (last : ℕ) (fileinfo : FileInfo) : Prop where
  lines : fileinfo.lines = last + 1
  entry : ∀ i : ℕ, i ≤ last → fileinfo.len i = len i
  unused : ∀ i, last ≤ i → len i = 0

/-- Where the table says that row `r` ends. -/
def offset (len : ℕ → ℕ) (r : ℕ) : ℕ := ((List.range r).map len).sum + r

theorem offset_succ (len : ℕ → ℕ) (r : ℕ) : offset len (r + 1) = offset len r + len r + 1 := by
  simp only [offset, List.range_succ, List.map_append, List.sum_append, List.map_cons,
    List.map_nil, List.sum_cons, List.sum_nil]
  omega

theorem offset_le_of_le (len : ℕ → ℕ) {r r' : ℕ} (h : r ≤ r') : offset len r ≤ offset len r' := by
  induction r', h using Nat.le_induction with
  | base => exact le_rfl
  | succ r' _ ih =>
    rw [offset_succ]
    omega

theorem offset_max {len : ℕ → ℕ} {last : ℕ} (hunused : ∀ i, last ≤ i → len i = 0) (r : ℕ) :
    offset len (max last r) = offset len last + (max last r - last) := by
  have hadd : ∀ k, offset len (last + k) = offset len last + k := by
    intro k
    induction k with
    | zero => rfl
    | succ k ih => rw [← Nat.add_assoc, offset_succ, ih, hunused _ (Nat.le_add_right _ _), add_zero,
        Nat.add_assoc]
  have hsame := hadd (max last r - last)
  rwa [Nat.add_sub_cancel' (le_max_left _ _)] at hsame

theorem Table.addLines {len : ℕ → ℕ} {last : ℕ} {fileinfo : FileInfo}
    (ho : Table len last fileinfo) (original : File) (r : ℕ) {added : File × FileInfo}
    (hadded : addLines original.fseekEnd fileinfo (r + 1 - fileinfo.lines).toNat = added) :
    added.1.bytes = original.bytes ++ List.replicate (max last r - last) NEWLINE ∧
    Table len (max last r) added.2 := by
  have hend : original.fseekEnd.pos = original.fseekEnd.bytes.length := rfl
  obtain ⟨h₁, h₂, h₃, h₄⟩ := addLines_eq hend fileinfo ((r : ℤ) + 1 - fileinfo.lines).toNat
  rw [hadded] at h₁ h₂ h₃ h₄
  have hlines := ho.lines
  have hcount : ((r : ℤ) + 1 - fileinfo.lines).toNat = max last r - last := by omega
  refine ⟨?_, ?_, fun i hi => ?_, fun i hi => ho.unused i (by omega)⟩
  · rw [h₁, hcount, fseekEnd]
  · omega
  · by_cases hlast : i ≤ last
    · rw [h₃ i (by omega), ho.entry i hlast]
    · rw [h₄ i (by omega) (by omega), ho.unused i (by omega)]
      rfl

theorem Table.update {len : ℕ → ℕ} {last r n : ℕ} {fileinfo : FileInfo}
    (ho : Table len last fileinfo) (hr : r ≤ last) (hn : 1 ≤ r ∨ n = 0)
    (hlong : 1 ≤ r → len (r - 1) + n < 2 ^ 31) :
    Table (Function.update len (r - 1) (len (r - 1) + n)) last
      ⟨Function.update fileinfo.len (r - 1) (toInt (fileinfo.len (r - 1) + n)), fileinfo.lines⟩ := by
  rcases Nat.eq_zero_or_pos r with hzero | hpos
  · -- without a row the assignment is to the memory before the array
    obtain rfl := hn.resolve_left (by omega)
    rw [add_zero, Function.update_eq_self]
    refine ⟨ho.lines, fun i hi => ?_, ho.unused⟩
    have hindex : (i : ℤ) ≠ (r : ℤ) - 1 := by omega
    exact (Function.update_of_ne hindex _ _).trans (ho.entry i hi)
  · have hcast : ((r - 1 : ℕ) : ℤ) = (r : ℤ) - 1 := by omega
    refine ⟨ho.lines, fun i hi => ?_, fun i hi => ?_⟩
    · by_cases hir : i = r - 1
      · subst hir
        simp only [← hcast, Function.update_self, ho.entry _ hi]
        rw [← Nat.cast_add, toInt_of_nat (hlong hpos)]
      · have hindex : (i : ℤ) ≠ (r : ℤ) - 1 := by omega
        simp only [Function.update_of_ne hindex, Function.update_of_ne hir, ho.entry i hi]
    · rw [Function.update_of_ne (by omega), ho.unused i hi]

theorem Table.toInt_offset {len : ℕ → ℕ} {last r : ℕ} {fileinfo : FileInfo}
    (ho : Table len last fileinfo) (hr : r ≤ last) (hpos : offset len r < 2 ^ 31) :
    toInt (((List.range (r : ℤ).toNat).map fun i : ℕ => fileinfo.len i).sum + (r : ℤ)) =
      offset len r := by
  have hmap : ((List.range r).map fun i : ℕ => fileinfo.len i) =
      ((List.range r).map len).map Nat.cast := by
    rw [List.map_map]
    apply List.map_congr_left
    intro i hi
    exact ho.entry i ((List.mem_range.mp hi).le.trans hr)
  rw [Int.toNat_natCast, hmap, ← Nat.cast_list_sum, ← Nat.cast_add]
  exact toInt_of_nat hpos

theorem Table.writeaddline_eq {len : ℕ → ℕ} {last r : ℕ} {fileinfo : FileInfo} {text : List UInt8}
    (ho : Table len last fileinfo) (junk : UInt8) (original : File) (htext : contents text = text)
    (hpos : offset len r < 2 ^ 31) :
    ∃ fileinfo',
      (∀ tmp files, insertText junk
          ⟨original.bytes ++ List.replicate (max last r - last) NEWLINE, 0, false⟩ tmp text
          (offset len r) = files →
        writeaddline junk ⟨original, tmp, fileinfo⟩ text r =
          ⟨files.1, files.2.bytes, fileinfo'⟩) ∧
      fileinfo'.lines = max last r + 1 ∧
      ((1 ≤ r ∨ text = []) → (1 ≤ r → len (r - 1) + text.length < 2 ^ 31) →
        Table (Function.update len (r - 1) (len (r - 1) + text.length)) (max last r)
          fileinfo') := by
  obtain ⟨added, hadded⟩ : ∃ added, Rows.addLines original.fseekEnd fileinfo
    ((r : ℤ) + 1 - fileinfo.lines).toNat = added := ⟨_, rfl⟩
  obtain ⟨hbytes, htable⟩ := ho.addLines original r hadded
  have hposInt := htable.toInt_offset (le_max_right last r) hpos
  have hrewind : added.1.rewind =
      ⟨original.bytes ++ List.replicate (max last r - last) NEWLINE, 0, false⟩ := by
    rw [rewind, hbytes]
  refine ⟨⟨Function.update added.2.len (r - 1) (toInt (added.2.len (r - 1) + text.length)),
    added.2.lines⟩, fun tmp files hfiles => ?_, htable.lines, fun hr hlong => ?_⟩
  · rw [Rows.writeaddline, htext, hadded, hposInt, hrewind, hfiles]
  · exact htable.update (le_max_right _ _) (hr.imp_right fun h => by rw [h]; rfl) hlong

/-! ## One call -/

/-- The output file holds the rows, and the table their lengths. -/
structure Holds (rows : ℕ → List UInt8) (last : ℕ) (o : Output) : Prop where
  bytes : o.original.bytes = joined rows last
  lines : o.fileinfo.lines = last + 1
  len : ∀ i : ℕ, i ≤ last → o.fileinfo.len i = (rows (i + 1)).length
  row0 : rows 0 = []
  unused : ∀ r, last < r → rows r = []
  tmp : o.tmp.length ≤ o.original.bytes.length

theorem holds_start : Holds (fun _ => []) 0 Output.start where
  bytes := rfl
  lines := rfl
  len _ _ := rfl
  row0 := rfl
  unused _ _ := rfl
  tmp := Nat.zero_le _

theorem insertText_eq (junk : UInt8) (tmp front text : List UInt8) {back : List UInt8}
    (hsize : (front ++ back).length < 2 ^ 31) :
    insertText junk ⟨front ++ back, 0, false⟩ tmp text front.length =
      fcpn junk ⟨front ++ back, 0, false⟩
        ⟨((fopen tmp).fwrite (front ++ text ++ back)).bytes,
          ((fopen tmp).fwrite (front ++ text ++ back)).pos, false⟩ 0
        (toInt ((fopen tmp).fwrite (front ++ text ++ back)).bytes.length) := by
  have hlen : (front ++ back).length = front.length + back.length := List.length_append
  have hopen : (fopen tmp).pos ≤ (fopen tmp).bytes.length := Nat.zero_le _
  have hhead : fcpn junk (fopen tmp) ⟨front ++ back, 0, false⟩ 0 front.length =
      ((fopen tmp).fwrite front, ⟨front ++ back, front.length, false⟩) := by
    have h := fcpn_eq _ ⟨front ++ back, 0, false⟩ hopen (Nat.zero_le front.length)
      (by simp only; omega) (by simp only; omega) junk
    simpa using h
  have hcopied : ((fopen tmp).fwrite (front ++ text)).pos ≤
      ((fopen tmp).fwrite (front ++ text)).bytes.length := by
    rw [pos_fwrite, length_fwrite hopen]
    exact le_max_right _ _
  have htail : fcpn junk ((fopen tmp).fwrite (front ++ text))
      ⟨front ++ back, front.length, false⟩ front.length (front ++ back).length =
      ((fopen tmp).fwrite (front ++ text ++ back),
        ⟨front ++ back, (front ++ back).length, false⟩) := by
    have h := fcpn_eq _ ⟨front ++ back, front.length, false⟩ hcopied
      (a := front.length) (b := (front ++ back).length) (by omega) le_rfl (by simp only; omega) junk
    rw [h, fwrite_fwrite hopen]
    simp
  rw [insertText, hhead]
  simp only [fsize, fwrite_fwrite hopen]
  rw [toInt_of_nat (n := (front ++ back).length) (by omega), htail]
  simp only [rewind]

theorem insertText_bytes (junk : UInt8) (tmp front text back : List UInt8)
    (hsize : (front ++ text ++ back ++ tmp.drop (front ++ text ++ back).length).length < 2 ^ 31) :
    (insertText junk ⟨front ++ back, 0, false⟩ tmp text front.length).1.bytes =
      front ++ text ++ back ++ tmp.drop (front ++ text ++ back).length ∧
    (insertText junk ⟨front ++ back, 0, false⟩ tmp text front.length).2.bytes =
      front ++ text ++ back ++ tmp.drop (front ++ text ++ back).length := by
  have hcopy : ((fopen tmp).fwrite (front ++ text ++ back)).bytes =
      front ++ text ++ back ++ tmp.drop (front ++ text ++ back).length := by
    simp [bytes_fwrite, fopen]
  have hlong : (front ++ back).length ≤
      (front ++ text ++ back ++ tmp.drop (front ++ text ++ back).length).length := by
    simp only [List.length_append]
    omega
  have hback := fcpn_eq ⟨front ++ back, 0, false⟩
    ⟨front ++ text ++ back ++ tmp.drop (front ++ text ++ back).length,
      ((fopen tmp).fwrite (front ++ text ++ back)).pos, false⟩
    (Nat.zero_le _) (Nat.zero_le _) le_rfl hsize junk
  rw [List.drop_zero, Nat.sub_zero, List.take_length, Nat.cast_zero] at hback
  have hwritten := bytes_fwrite_of_length_le (f := ⟨front ++ back, 0, false⟩) rfl hlong
  rw [insertText_eq junk tmp front text (hlong.trans_lt hsize), hcopy, toInt_of_nat hsize, hback]
  exact ⟨hwritten, rfl⟩

theorem insertText_of_lt (junk : UInt8) {tmp front text back : List UInt8}
    (htmp : tmp.length ≤ (front ++ back).length) (hsize : (front ++ text ++ back).length < 2 ^ 31) :
    (insertText junk ⟨front ++ back, 0, false⟩ tmp text front.length).1.bytes =
      front ++ text ++ back ∧
    (insertText junk ⟨front ++ back, 0, false⟩ tmp text front.length).2.bytes =
      front ++ text ++ back := by
  have hnothing : tmp.drop (front ++ text ++ back).length = [] := by
    apply List.drop_of_length_le
    simp only [List.length_append] at htmp ⊢
    omega
  have hbytes := insertText_bytes junk tmp front text back
  rw [hnothing, List.append_nil] at hbytes
  exact hbytes hsize

/-- From 2 GiB on the size of the temporary file is negative as an `int`, and nothing
is copied back. -/
theorem insertText_of_le (junk : UInt8) (tmp front text back : List UInt8)
    (hsize : (front ++ back).length < 2 ^ 31)
    (hlow : 2 ^ 31 ≤ max tmp.length (front ++ text ++ back).length)
    (hhigh : max tmp.length (front ++ text ++ back).length < 2 ^ 32) :
    (insertText junk ⟨front ++ back, 0, false⟩ tmp text front.length).1.bytes = front ++ back ∧
    (insertText junk ⟨front ++ back, 0, false⟩ tmp text front.length).2.bytes.length =
      max tmp.length (front ++ text ++ back).length := by
  have hcopy : ((fopen tmp).fwrite (front ++ text ++ back)).bytes.length =
      max tmp.length (front ++ text ++ back).length := by
    rw [length_fwrite (Nat.zero_le _)]
    simp only [fopen, Nat.zero_add]
  have hnegative := toInt_of_le hlow hhigh
  have hcount : (toInt (toInt (max tmp.length (front ++ text ++ back).length : ℕ) - 0)).toNat = 0 := by
    rw [hnegative, sub_zero, toInt_eq_self (by omega) (by simp only [INT_MAX]; omega)]
    omega
  rw [insertText_eq junk tmp front text hsize, fcpn, hcopy, hcount]
  exact ⟨rfl, hcopy⟩

theorem Holds.table {rows : ℕ → List UInt8} {last : ℕ} {o : Output} (ho : Holds rows last o) :
    Table (fun i => (rows (i + 1)).length) last o.fileinfo where
  lines := ho.lines
  entry := ho.len
  unused := by
    intro i hi
    rw [ho.unused _ (Nat.lt_succ_of_le hi), List.length_nil]

theorem Holds.writeaddline_eq {rows : ℕ → List UInt8} {last r : ℕ} {o : Output}
    {text tail : List UInt8} (ho : Holds rows last o) (junk : UInt8) (htext : contents text = text)
    (hold : joined rows (max last r) = lead rows r ++ rows r ++ tail)
    (hsize : (joined rows (max last r)).length < 2 ^ 31) :
    ∃ files fileinfo, insertText junk ⟨lead rows r ++ rows r ++ tail, 0, false⟩ o.tmp text
        (lead rows r ++ rows r).length = files ∧
      writeaddline junk o text r = ⟨files.1, files.2.bytes, fileinfo⟩ ∧
      fileinfo.lines = max last r + 1 ∧
      ((1 ≤ r ∨ text = []) → (rows r).length + text.length < 2 ^ 31 →
        Table (fun i => (Function.update rows r (rows r ++ text) (i + 1)).length) (max last r)
          fileinfo) := by
  have hend : offset (fun i => (rows (i + 1)).length) r = (lead rows r ++ rows r).length := by
    rw [offset, length_lead_add rows ho.row0, List.length_append]
  have hgrown := joined_add ho.unused (max last r - last)
  rw [Nat.add_sub_cancel' (le_max_left _ _), hold, ← ho.bytes] at hgrown
  have hpos : offset (fun i => (rows (i + 1)).length) r < 2 ^ 31 := by
    rw [hold] at hsize
    rw [hend]
    simp only [List.length_append] at hsize ⊢
    omega
  obtain ⟨fileinfo, hcall, hlines, htable⟩ :=
    ho.table.writeaddline_eq junk o.original htext hpos
  rw [hend, ← hgrown] at hcall
  refine ⟨_, fileinfo, rfl, hcall o.tmp _ rfl, hlines, fun hr hlong => ?_⟩
  rcases Nat.eq_zero_or_pos r with rfl | hpos
  · obtain rfl := hr.resolve_left (by omega)
    simpa using htable hr (by omega)
  · obtain ⟨i, rfl⟩ := Nat.exists_eq_add_of_le' hpos
    have hrows : (fun j => (Function.update rows (i + 1) (rows (i + 1) ++ text) (j + 1)).length) =
        Function.update (fun j => (rows (j + 1)).length) i
          ((rows (i + 1)).length + text.length) := by
      funext j
      by_cases hj : j = i
      · simp [hj]
      · simp [hj]
    rw [hrows]
    exact htable hr fun _ => hlong

theorem Holds.tmp_le {rows : ℕ → List UInt8} {last : ℕ} {o : Output} (ho : Holds rows last o)
    (r : ℕ) : o.tmp.length ≤ (joined rows (max last r)).length := by
  have hgrown := joined_add ho.unused (max last r - last)
  rw [Nat.add_sub_cancel' (le_max_left _ _)] at hgrown
  rw [hgrown, List.length_append, ← ho.bytes]
  exact ho.tmp.trans (Nat.le_add_right _ _)

/-- A call appends a text to a row, and makes the rows up to it. -/
theorem Holds.writeaddline {rows : ℕ → List UInt8} {last r : ℕ} {o : Output} {text : List UInt8}
    (ho : Holds rows last o) (junk : UInt8) (htext : contents text = text)
    (hr : 1 ≤ r ∨ text = [])
    (hsize : (joined (Function.update rows r (rows r ++ text)) (max last r)).length < 2 ^ 31) :
    Holds (Function.update rows r (rows r ++ text)) (max last r)
      (writeaddline junk o text r) := by
  obtain ⟨tail, htail⟩ := exists_tail rows (le_max_right last r)
  have hold : joined rows (max last r) = lead rows r ++ rows r ++ tail := by
    rw [← htail, Function.update_eq_self]
  have hnew : joined (Function.update rows r (rows r ++ text)) (max last r) =
      lead rows r ++ rows r ++ text ++ tail := by
    rw [htail]
    simp only [List.append_assoc]
  rw [hnew] at hsize
  have hlong : (rows r).length + text.length < 2 ^ 31 := by
    simp only [List.length_append] at hsize
    omega
  have hsize' : (joined rows (max last r)).length < 2 ^ 31 := by
    rw [hold]
    simp only [List.length_append] at hsize ⊢
    omega
  obtain ⟨files, fileinfo, hfiles, hcall, _, htable⟩ := ho.writeaddline_eq junk htext hold hsize'
  obtain ⟨horiginal, hcopy⟩ := insertText_of_lt junk (hold ▸ ho.tmp_le r) hsize
  rw [hfiles] at horiginal hcopy
  rw [hcall]
  obtain ⟨hlines, hentry, _⟩ := htable hr hlong
  refine ⟨horiginal.trans hnew.symm, hlines, hentry, ?_, fun s hs => ?_, ?_⟩
  · rcases hr with hr | hr
    · rw [Function.update_of_ne (by omega), ho.row0]
    · rw [hr, List.append_nil, Function.update_eq_self, ho.row0]
  · rw [Function.update_of_ne (by omega)]
    exact ho.unused s (by omega)
  · rw [horiginal, hcopy]

/-- The temporary file has grown to 2 GiB, and what the file had before is all it keeps. -/
structure Lost (kept : List UInt8) (o : Output) : Prop where
  bytes : o.original.bytes = kept
  size : kept.length < 2 ^ 31
  lines : 1 ≤ o.fileinfo.lines
  tmp : 2 ^ 31 ≤ o.tmp.length
  tmp_lt : o.tmp.length < 2 ^ 32

/-- A text that would bring the file to 2 GiB is lost. -/
theorem Holds.lost {rows : ℕ → List UInt8} {last r : ℕ} {o : Output} {text : List UInt8}
    (ho : Holds rows last o) (junk : UInt8) (htext : contents text = text)
    (hsize : (joined rows (max last r)).length < 2 ^ 31)
    (hlow : 2 ^ 31 ≤ (joined rows (max last r)).length + text.length)
    (hhigh : (joined rows (max last r)).length + text.length < 2 ^ 32) :
    Lost (joined rows (max last r)) (Rows.writeaddline junk o text r) := by
  obtain ⟨tail, htail⟩ := exists_tail rows (le_max_right last r)
  have hold : joined rows (max last r) = lead rows r ++ rows r ++ tail := by
    rw [← htail, Function.update_eq_self]
  have hlength : (lead rows r ++ rows r ++ text ++ tail).length =
      (joined rows (max last r)).length + text.length := by
    rw [hold]
    simp only [List.length_append]
    omega
  have htmp := ho.tmp_le r
  obtain ⟨files, fileinfo, hfiles, hcall, hlines, _⟩ := ho.writeaddline_eq junk htext hold hsize
  obtain ⟨horiginal, hcopy⟩ := insertText_of_le junk o.tmp (lead rows r ++ rows r) text tail
    (hold ▸ hsize) (by omega) (by omega)
  rw [hfiles] at horiginal hcopy
  rw [hcall]
  refine ⟨horiginal.trans hold.symm, hsize, ?_, ?_, ?_⟩
  · simp only
    omega
  · simp only [hcopy]
    omega
  · simp only [hcopy]
    omega

theorem Lost.endCall {kept : List UInt8} {o : Output} (ho : Lost kept o) (junk : UInt8) :
    Lost kept (Rows.writeaddline junk o [] 0) := by
  have hlines := ho.lines
  have htmp := ho.tmp
  have htmp' := ho.tmp_lt
  have hsize := ho.size
  have hcount : (0 + 1 - o.fileinfo.lines).toNat = 0 := by omega
  have hrewind : o.original.fseekEnd.rewind = ⟨kept, 0, false⟩ := by
    rw [fseekEnd, rewind, ho.bytes]
  obtain ⟨files, hfiles⟩ : ∃ files, insertText junk ⟨kept, 0, false⟩ o.tmp [] 0 = files :=
    ⟨_, rfl⟩
  have hlost := insertText_of_le junk o.tmp [] [] kept hsize (le_max_of_le_left htmp)
    (max_lt htmp' (hsize.trans (by norm_num)))
  simp only [List.nil_append, List.length_nil, Nat.cast_zero, hfiles] at hlost
  obtain ⟨horiginal, hcopy⟩ := hlost
  have hzero : toInt 0 = 0 := toInt_of_nat (n := 0) (by norm_num)
  rw [Rows.writeaddline, contents_nil, hcount]
  simp only [addLines, hrewind, Int.toNat_zero, List.range_zero, List.map_nil, List.sum_nil,
    add_zero, hzero, hfiles]
  refine ⟨horiginal, hsize, hlines, ?_, ?_⟩
  · rw [hcopy]
    exact le_max_of_le_left htmp
  · rw [hcopy]
    exact max_lt htmp' (hsize.trans (by norm_num))

end Sysopy.Rows
