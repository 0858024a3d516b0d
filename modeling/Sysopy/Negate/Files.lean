import Sysopy.Library.CText
import Sysopy.Negate.Image

/-!
# Image files

`saveImage` writes the type, the size, the largest value and the cells, each cell in four
columns and a row of cells to a line. `loadImage` reads the header line by line and then the
tokens of every line that follows. `Rows` describes a body as rows of cells, and both
directions meet there: the writer produces such bodies, and the reader stores their cells.
-/
namespace Sysopy.Negate

open CInteger CString CText

def MAX_PIXELS : ℕ := 8294400

def LINE_LEN : ℕ := 70

def MAX_LINE_LEN : ℕ := 3840 * 4

/-- `struct image` with its type. -/
structure TypedImage extends Image where
  type : ℕ → UInt8

/-! ## Writing -/

/-- `"%3hhu "`. -/
def cellText (c : UInt8) : List UInt8 :=
  List.replicate (3 - (digits c.toNat).length) 32 ++ digits c.toNat ++ [32]

def maxInLine : ℕ := LINE_LEN / 4

/-- What iteration `i` of the loop writes. -/
def cellLine (image : Image) (i : ℕ) : List UInt8 :=
  cellText (image.cells i) ++ if (i + 1) % maxInLine = 0 then [NEWLINE] else []

def saveImage (image : TypedImage) : List UInt8 :=
  [image.type 0, image.type 1] ++ [NEWLINE] ++
  decimal image.width ++ [32] ++ decimal image.height ++ [NEWLINE] ++
  decimal image.pixel_max ++ [NEWLINE] ++
  (List.range image.size).flatMap (cellLine image.toImage)

/-! ## Reading -/

/-- `fgets(image.type, LINE_LEN, file)` stores the line and a NUL. -/
def TypedImage.setType (image : TypedImage) (line : List UInt8) : TypedImage :=
  { image with type := fun j => (line ++ [0])[j]?.getD (image.type j) }

def bodyDelims : List UInt8 := [32, 9, 13, 10]

/-- `image.cells[i++] = strtol(tokbuf, NULL, 10)`, which is undefined behind the array. -/
def storeToken (s : Image × ℕ) (token : List UInt8) : Option (Image × ℕ) :=
  if s.2 < MAX_PIXELS then some (s.1.store s.2 (strtol token), s.2 + 1) else none

def loadLine (s : Image × ℕ) (line : List UInt8) : Option (Image × ℕ) :=
  (tokens bodyDelims (contents line)).foldlM storeToken s

/-- `none` where the program stops with an error message or has no defined behaviour. -/
def loadImage (memory : TypedImage) (file : List UInt8) : Option TypedImage := do
  let (typeLine, file) ← fgets LINE_LEN file
  let image := memory.setType typeLine
  let (buf, file) ← fgets MAX_LINE_LEN file
  let (width, rest) ← strtok [32] (contents buf)
  let (height, _) ← strtok [32] rest
  let (buf, file) ← fgets MAX_LINE_LEN file
  let image := { image with
    width := toInt (strtol width)
    height := toInt (strtol height)
    pixel_max := toInt (strtol (contents buf)) }
  let (loaded, _) ← (pieces MAX_LINE_LEN (by decide) file).foldlM loadLine (image.toImage, 0)
  return { image with toImage := loaded }

/-! ## Rows -/

/-- A body: full rows, each ended by a newline, and a last row that is not full. -/
inductive Rows : List UInt8 → List UInt8 → Prop
  | last {row : List UInt8} : row.length < maxInLine → Rows row (row.flatMap cellText)
  | cons {row cells text : List UInt8} : row.length = maxInLine → Rows cells text →
      Rows (row ++ cells) (row.flatMap cellText ++ NEWLINE :: text)

theorem length_cellText (c : UInt8) : (cellText c).length = 4 := by
  have hdigits : (digits c.toNat).length ≤ 3 := by
    have hc := c.toNat_lt
    rw [digits, List.length_map, Nat.length_toDigits_le_iff (by decide) (by decide)]
    omega
  simp only [cellText, List.length_append, List.length_replicate, List.length_singleton]
  omega

theorem length_rowText (row : List UInt8) : (row.flatMap cellText).length = 4 * row.length := by
  induction row with
  | nil => rfl
  | cons c row ih =>
    rw [List.flatMap_cons, List.length_append, length_cellText, ih, List.length_cons]
    omega

theorem notMem_bodyDelims_of_isdigit {c : UInt8} (hc : isdigit c = true) : c ∉ bodyDelims := by
  intro hmem
  have hspace : isspace c = true := by
    simp only [bodyDelims, List.mem_cons, List.not_mem_nil, or_false] at hmem
    rcases hmem with rfl | rfl | rfl | rfl <;> decide
  rw [isspace_of_isdigit hc] at hspace
  cases hspace

theorem mem_cellText {c d : UInt8} (hd : d ∈ cellText c) : d = 32 ∨ isdigit d = true := by
  simp only [cellText, List.mem_append, List.mem_singleton] at hd
  rcases hd with (hd | hd) | hd
  · exact .inl (List.eq_of_mem_replicate hd)
  · exact .inr (isdigit_of_mem_digits _ d hd)
  · exact .inl hd

theorem mem_rowText {row : List UInt8} {d : UInt8} (hd : d ∈ row.flatMap cellText) :
    d ≠ NEWLINE ∧ d ≠ 0 := by
  obtain ⟨c, _, hd⟩ := List.mem_flatMap.mp hd
  rcases mem_cellText hd with rfl | hd
  · decide
  · constructor <;> rintro rfl <;> revert hd <;> decide

/-- The writer ends a line after every `maxInLine` cells. -/
theorem row_saved (image : Image) {i n : ℕ} (hi : maxInLine ∣ i) (hn : n < maxInLine) :
    (List.range' i n).flatMap (cellLine image) =
      ((List.range' i n).map image.cells).flatMap cellText := by
  rw [List.flatMap_map]
  apply List.flatMap_congr
  intro j hj
  obtain ⟨k, hk, rfl⟩ := List.mem_range'.mp hj
  have hmod : ¬ (i + 1 * k + 1) % maxInLine = 0 := by
    obtain ⟨r, rfl⟩ := hi
    rw [Nat.one_mul, Nat.add_assoc, Nat.mul_add_mod, Nat.mod_eq_of_lt (by omega)]
    omega
  rw [cellLine, if_neg hmod, List.append_nil]

theorem rows_saved (image : Image) (n : ℕ) : ∀ i, maxInLine ∣ i →
    Rows ((List.range' i n).map image.cells) ((List.range' i n).flatMap (cellLine image)) := by
  induction n using Nat.strong_induction_on with
  | h n ih =>
    intro i hi
    rcases Nat.lt_or_ge n maxInLine with hn | hn
    · rw [row_saved image hi hn]
      apply Rows.last
      simpa using hn
    · -- a full row ends with the cell that the newline follows
      obtain ⟨m, rfl⟩ := Nat.exists_eq_add_of_le hn
      have hnext : maxInLine ∣ i + maxInLine := Nat.dvd_add hi (dvd_refl maxInLine)
      have hlast : (i + 16 + 1) % maxInLine = 0 := Nat.mod_eq_zero_of_dvd hnext
      have hrow : (List.range' i maxInLine).flatMap (cellLine image) =
          ((List.range' i maxInLine).map image.cells).flatMap cellText ++ [NEWLINE] := by
        have hsplit : List.range' i maxInLine = List.range' i 16 ++ [i + 16] := rfl
        rw [hsplit, List.flatMap_append, row_saved image hi (by decide), List.map_append,
          List.flatMap_append, List.flatMap_singleton, List.map_singleton,
          List.flatMap_singleton, cellLine, if_pos hlast, List.append_assoc]
      have hrest := ih m (by simp [maxInLine, LINE_LEN]) (i + maxInLine) hnext
      have hcells := List.range'_append_1 (s := i) (m := maxInLine) (n := m)
      rw [← hcells, List.map_append, List.flatMap_append, hrow, List.append_assoc,
        List.singleton_append]
      exact .cons (by simp) hrest

/-! ## Reading a body -/

theorem tokens_row (row : List UInt8) {tail : List UInt8} (htail : ∀ c ∈ tail, c ∈ bodyDelims) :
    tokens bodyDelims (row.flatMap cellText ++ tail) = row.map fun c => digits c.toNat := by
  induction row with
  | nil => exact tokens_delims htail
  | cons c row ih =>
    have htext : (c :: row).flatMap cellText ++ tail =
        List.replicate (3 - (digits c.toNat).length) 32 ++
          (digits c.toNat ++ 32 :: (row.flatMap cellText ++ tail)) := by
      simp [cellText]
    have hskip : ∀ d ∈ List.replicate (3 - (digits c.toNat).length) 32, d ∈ bodyDelims := by
      intro d hd
      rw [List.eq_of_mem_replicate hd]
      decide
    rw [htext, tokens_append hskip (digits_ne_nil _)
      (fun d hd => notMem_bodyDelims_of_isdigit (isdigit_of_mem_digits _ d hd)) (by decide), ih,
      List.map_cons]

/-- The cells from `i` on. -/
def Image.storeAll (image : Image) (i : ℕ) (cells : List UInt8) : Image :=
  { image with cells := fun j => if i ≤ j then cells[j - i]?.getD (image.cells j) else image.cells j }

theorem Image.storeAll_nil (image : Image) (i : ℕ) : image.storeAll i [] = image := by
  simp [Image.storeAll]

theorem Image.storeAll_store (image : Image) (i : ℕ) (value : ℤ) (cells : List UInt8) :
    (image.store i value).storeAll (i + 1) cells =
      image.storeAll i (UInt8.ofInt value :: cells) := by
  have hcells : ((image.store i value).storeAll (i + 1) cells).cells =
      (image.storeAll i (UInt8.ofInt value :: cells)).cells := by
    funext j
    simp only [Image.storeAll, Image.cells_store]
    rcases Nat.lt_trichotomy j i with hj | rfl | hj
    · rw [if_neg (by omega), if_neg (by omega), if_neg (by omega)]
    · simp
    · have hsub : j - i = j - (i + 1) + 1 := by omega
      rw [if_pos (by omega : i + 1 ≤ j), if_pos hj.le, if_neg hj.ne', hsub,
        List.getElem?_cons_succ]
  exact congrArg (fun cells => { image with cells := cells }) hcells

theorem ofInt_toNat (c : UInt8) : UInt8.ofInt (c.toNat : ℤ) = c := by
  apply UInt8.toNat_inj.mp
  have hlt := c.toNat_lt
  have h := toNat_ofInt c.toNat
  omega

theorem Image.storeAll_cons (image : Image) (i : ℕ) (c : UInt8) (cells : List UInt8) :
    image.storeAll i (c :: cells) = (image.store i c.toNat).storeAll (i + 1) cells := by
  rw [Image.storeAll_store, ofInt_toNat]

theorem Image.storeAll_append (image : Image) (i : ℕ) (row cells : List UInt8) :
    image.storeAll i (row ++ cells) = (image.storeAll i row).storeAll (i + row.length) cells := by
  induction row generalizing image i with
  | nil => rw [Image.storeAll_nil, List.nil_append, List.length_nil, Nat.add_zero]
  | cons c row ih =>
    rw [List.cons_append, Image.storeAll_cons, Image.storeAll_cons, ih, List.length_cons,
      Nat.add_assoc, Nat.add_comm 1]

/-- The cell that a token becomes. -/
def tokenCell (token : List UInt8) : UInt8 := UInt8.ofInt (strtol token)

theorem storeTokens_eq (image : Image) {i : ℕ} (hi : i ≤ MAX_PIXELS) (ts : List (List UInt8)) :
    ts.foldlM storeToken (image, i) =
      if i + ts.length ≤ MAX_PIXELS then
        some (image.storeAll i (ts.map tokenCell), i + ts.length)
      else none := by
  induction ts generalizing image i with
  | nil =>
    rw [List.length_nil, Nat.add_zero, if_pos hi, List.map_nil, Image.storeAll_nil]
    rfl
  | cons token ts ih =>
    rw [List.foldlM_cons, storeToken, List.length_cons, List.map_cons]
    by_cases hlt : i < MAX_PIXELS
    · have hcount : i + 1 + ts.length = i + (ts.length + 1) := by omega
      rw [if_pos hlt, Option.bind_eq_bind, Option.bind_some,
        ih _ (by omega : i + 1 ≤ MAX_PIXELS), hcount, Image.storeAll_store, tokenCell]
    · rw [if_neg hlt, if_neg (by omega)]
      rfl

theorem tokenCell_digits (c : UInt8) : tokenCell (digits c.toNat) = c := by
  have hvalue : strtol (digits c.toNat) = c.toNat := by
    have hlt := c.toNat_lt
    rw [strtol_of_isdigit (digits_ne_nil _) (isdigit_of_mem_digits _), digitsValue_digits]
    apply min_eq_right
    simp only [LONG_MAX]
    omega
  rw [tokenCell, hvalue, ofInt_toNat]

theorem storeTokens_row (image : Image) {i : ℕ} {row : List UInt8}
    (hi : i + row.length ≤ MAX_PIXELS) :
    (row.map fun c => digits c.toNat).foldlM storeToken (image, i) =
      some (image.storeAll i row, i + row.length) := by
  have hcells : (row.map fun c => digits c.toNat).map tokenCell = row := by
    rw [List.map_map]
    exact List.map_id'' tokenCell_digits row
  rw [storeTokens_eq image (by omega), List.length_map, if_pos hi, hcells]

theorem loadLine_row (image : Image) {i : ℕ} {row : List UInt8}
    (hi : i + row.length ≤ MAX_PIXELS) {tail : List UInt8}
    (htail : ∀ c ∈ tail, c ∈ bodyDelims) :
    loadLine (image, i) (row.flatMap cellText ++ tail) =
      some (image.storeAll i row, i + row.length) := by
  have hzero : 0 ∉ row.flatMap cellText ++ tail := by
    intro hmem
    rcases List.mem_append.mp hmem with hmem | hmem
    · exact (mem_rowText hmem).2 rfl
    · exact absurd (htail 0 hmem) (by decide)
  rw [loadLine, contents_of_notMem hzero, tokens_row row htail, storeTokens_row image hi]

/-- The reader stores the cells of a body in order and goes no further. -/
theorem Rows.load {cells text : List UInt8} (h : Rows cells text) (image : Image) {i : ℕ}
    (hi : i + cells.length ≤ MAX_PIXELS) :
    (pieces MAX_LINE_LEN (by decide) text).foldlM loadLine (image, i) =
      some (image.storeAll i cells, i + cells.length) := by
  induction h generalizing image i with
  | @last row hrow =>
    by_cases hnil : row = []
    · simp [hnil, Image.storeAll_nil]
    · have hlen := length_rowText row
      have hpos := List.length_pos_iff.mpr hnil
      have hne : row.flatMap cellText ≠ [] := List.length_pos_iff.mp (by omega)
      have hfits : (row.flatMap cellText).length + 1 ≤ MAX_LINE_LEN := by
        simp only [maxInLine, LINE_LEN, MAX_LINE_LEN] at hrow ⊢
        omega
      have hload : loadLine (image, i) (row.flatMap cellText) =
          some (image.storeAll i row, i + row.length) := by
        have h := loadLine_row image hi (List.forall_mem_nil (· ∈ bodyDelims))
        rwa [List.append_nil] at h
      rw [pieces_last (fun d hd => (mem_rowText hd).1) hne hfits, List.foldlM_cons, hload]
      rfl
  | @cons row cells text hrow _ ih =>
    have hlen := length_rowText row
    have hfits : (row.flatMap cellText).length + 2 ≤ MAX_LINE_LEN := by
      simp only [maxInLine, LINE_LEN, MAX_LINE_LEN] at hrow ⊢
      omega
    rw [List.length_append] at hi
    have hload : loadLine (image, i) (row.flatMap cellText ++ [NEWLINE]) =
        some (image.storeAll i row, i + row.length) :=
      loadLine_row image (by omega) (by simp [bodyDelims, NEWLINE])
    rw [pieces_line (fun d hd => (mem_rowText hd).1) hfits, List.foldlM_cons, hload,
      Option.bind_eq_bind, Option.bind_some, ih _ (by omega), Image.storeAll_append,
      List.length_append, Nat.add_assoc]

/-! ## The lines of a file -/

/-- The lines behind the type, the size and the largest value. -/
def bodyLines (file : List UInt8) : List (List UInt8) := (file.splitOn NEWLINE).drop 3

theorem Rows.length_line_le {cells text : List UInt8} (h : Rows cells text) :
    ∀ line ∈ text.splitOn NEWLINE, line.length ≤ LINE_LEN := by
  have hnewline : ∀ row : List UInt8, NEWLINE ∉ row.flatMap cellText := fun row hmem =>
    (mem_rowText hmem).1 rfl
  have hle : ∀ row : List UInt8, row.length ≤ maxInLine →
      (row.flatMap cellText).length ≤ LINE_LEN := by
    intro row hrow
    rw [length_rowText]
    simp only [maxInLine] at hrow
    omega
  induction h with
  | @last row hrow =>
    rw [List.splitOn_eq_singleton (hnewline row)]
    simpa using hle row hrow.le
  | @cons row cells text hrow _ ih =>
    rw [List.splitOn_append_cons_self_of_not_mem (hnewline row)]
    intro line hline
    rcases List.mem_cons.mp hline with rfl | hline
    · exact hle row hrow.le
    · exact ih line hline

/-! ## A saved image -/

/-- An image that fits the array, as its fields are typed; its type does not break the line. -/
structure Storable (image : TypedImage) : Prop where
  type : image.type 0 ≠ NEWLINE ∧ image.type 1 ≠ NEWLINE
  width : 0 ≤ image.width ∧ image.width ≤ INT_MAX
  height : 0 ≤ image.height ∧ image.height ≤ INT_MAX
  size : image.width * image.height ≤ MAX_PIXELS
  pixel_max : -2 ^ 31 ≤ image.pixel_max ∧ image.pixel_max ≤ INT_MAX

/-- What was saved is in memory again, and no cell behind it was written. -/
structure GivenBack (image memory loaded : TypedImage) : Prop where
  type : loaded.type 0 = image.type 0 ∧ loaded.type 1 = image.type 1
  width : loaded.width = image.width
  height : loaded.height = image.height
  pixel_max : loaded.pixel_max = image.pixel_max
  cells : ∀ i < image.size, loaded.cells i = image.cells i
  unread : ∀ i, image.size ≤ i → loaded.cells i = memory.cells i

theorem decimal_ne {x : ℤ} {c d : UInt8} (hc : c ∈ decimal x) (hd : d ≠ 45)
    (hdigit : isdigit d = false) : c ≠ d := by
  rintro rfl
  rcases mem_decimal hc with rfl | hc
  · exact hd rfl
  · rw [hdigit] at hc
    cases hc

theorem strtok_size {width height : List UInt8} (hne : width ≠ [])
    (hwidth : ∀ c ∈ width, c ≠ 32 ∧ c ≠ 0) (hheight : ∀ c ∈ height, c ≠ 32 ∧ c ≠ 0) :
    ∃ rest rest', strtok [32] (contents (width ++ 32 :: height ++ [NEWLINE])) =
        some (width, rest) ∧
      strtok [32] rest = some (height ++ [NEWLINE], rest') := by
  have hzero : 0 ∉ width ++ 32 :: (height ++ [NEWLINE]) := by
    intro hmem
    simp only [List.mem_append, List.mem_cons, List.not_mem_nil, or_false] at hmem
    rcases hmem with hmem | hmem | hmem | hmem
    · exact (hwidth 0 hmem).2 rfl
    · exact absurd hmem (by decide)
    · exact (hheight 0 hmem).2 rfl
    · exact absurd hmem (by decide)
  have hskip : ∀ c ∈ ([] : List UInt8), c ∈ [(32 : UInt8)] := by simp
  have htoken : ∀ c ∈ width, c ∉ [(32 : UInt8)] := fun c hc hmem =>
    (hwidth c hc).1 (List.mem_singleton.mp hmem)
  refine ⟨height ++ [NEWLINE], [], ?_, ?_⟩
  · rw [List.append_assoc, List.cons_append, contents_of_notMem hzero]
    exact strtok_append hskip hne htoken (List.mem_singleton_self 32)
  · apply strtok_last
    · simp
    · intro c hc hmem
      obtain rfl := List.mem_singleton.mp hmem
      rcases List.mem_append.mp hc with hc | hc
      · exact (hheight 32 hc).1 rfl
      · exact absurd (List.mem_singleton.mp hc) (by decide)

theorem saveImage_eq (image : TypedImage) :
    saveImage image = [image.type 0, image.type 1] ++ NEWLINE ::
      ((decimal image.width ++ 32 :: decimal image.height) ++ NEWLINE ::
        (decimal image.pixel_max ++ NEWLINE ::
          (List.range image.size).flatMap (cellLine image.toImage))) := by
  simp [saveImage]

theorem rows_saveImage (image : TypedImage) :
    Rows ((List.range image.size).map image.cells)
      ((List.range image.size).flatMap (cellLine image.toImage)) := by
  rw [List.range_eq_range']
  exact rows_saved image.toImage image.size 0 (dvd_zero _)

section Saved

variable {image : TypedImage} (himage : Storable image)

include himage

theorem Storable.newline_notMem_type : ∀ c ∈ [image.type 0, image.type 1], c ≠ NEWLINE := by
  intro c hc
  simp only [List.mem_cons, List.not_mem_nil, or_false] at hc
  rcases hc with rfl | rfl
  · exact himage.type.1
  · exact himage.type.2

omit himage in
theorem newline_notMem_size :
    ∀ c ∈ decimal image.width ++ 32 :: decimal image.height, c ≠ NEWLINE := by
  intro c hc
  rcases List.mem_append.mp hc with hc | hc
  · exact decimal_ne hc (by decide) (by decide)
  · rcases List.mem_cons.mp hc with rfl | hc
    · decide
    · exact decimal_ne hc (by decide) (by decide)

theorem Storable.length_size_le :
    (decimal image.width ++ 32 :: decimal image.height).length ≤ 23 := by
  have hwidth := length_decimal_le (by linarith [himage.width.1]) himage.width.2
  have hheight := length_decimal_le (by linarith [himage.height.1]) himage.height.2
  rw [List.length_append, List.length_cons]
  omega

theorem Storable.width_height :
    ∃ rest height rest', strtok [32] (contents
        (decimal image.width ++ 32 :: decimal image.height ++ [NEWLINE])) =
          some (decimal image.width, rest) ∧
      strtok [32] rest = some (height, rest') ∧ toInt (strtol height) = image.height := by
  have hne : decimal image.width ≠ [] := by
    unfold decimal
    split_ifs
    · exact List.cons_ne_nil _ _
    · exact digits_ne_nil _
  have hbytes : ∀ x : ℤ, ∀ c ∈ decimal x, c ≠ 32 ∧ c ≠ 0 := fun x c hc =>
    ⟨decimal_ne hc (by decide) (by decide), decimal_ne hc (by decide) (by decide)⟩
  obtain ⟨rest, rest', hwidth, hheight⟩ := strtok_size hne (hbytes _) (hbytes image.height)
  refine ⟨rest, _, rest', hwidth, hheight, ?_⟩
  have hlow : -2 ^ 31 ≤ image.height := by linarith [himage.height.1]
  rw [strtol_decimal_append _ (by decide), toInt_strtol_decimal hlow himage.height.2]

theorem Storable.pixel_max_eq :
    toInt (strtol (contents (decimal image.pixel_max ++ [NEWLINE]))) = image.pixel_max := by
  have hzero : 0 ∉ decimal image.pixel_max ++ [NEWLINE] := by
    rw [List.mem_append, not_or]
    exact ⟨fun hc => decimal_ne hc (by decide) (by decide) rfl, by decide⟩
  rw [contents_of_notMem hzero, strtol_decimal_append _ (by decide),
    toInt_strtol_decimal himage.pixel_max.1 himage.pixel_max.2]

/-- The header is read, and then the body from the first cell on. -/
theorem Storable.loadImage_eq (memory : TypedImage) :
    loadImage memory (saveImage image) =
      some { memory.setType [image.type 0, image.type 1, NEWLINE] with
        width := image.width
        height := image.height
        pixel_max := image.pixel_max
        cells := (memory.storeAll 0 ((List.range image.size).map image.cells)).cells } := by
  have hsize := himage.length_size_le
  have hmax := length_decimal_le himage.pixel_max.1 himage.pixel_max.2
  obtain ⟨rest, height, rest', hwidth, hheight, hvalue⟩ := himage.width_height
  have hwidth' : toInt (strtol (decimal image.width)) = image.width :=
    toInt_strtol_decimal (by linarith [himage.width.1]) himage.width.2
  have htype : fgets LINE_LEN (saveImage image) = some ([image.type 0, image.type 1, NEWLINE],
      (decimal image.width ++ 32 :: decimal image.height) ++ NEWLINE ::
        (decimal image.pixel_max ++ NEWLINE ::
          (List.range image.size).flatMap (cellLine image.toImage))) := by
    rw [saveImage_eq]
    exact fgets_line himage.newline_notMem_type (by simp [LINE_LEN])
  have hcells : image.size ≤ MAX_PIXELS := by
    have h := himage.size
    have hpixels : image.pixels = image.width * image.height :=
      Image.pixels_eq himage.width.1 himage.height.1 (h.trans (by decide))
    rw [Image.size]
    omega
  have hload := fun start : Image =>
    (rows_saveImage image).load start (by simpa using hcells : 0 + _ ≤ MAX_PIXELS)
  unfold Negate.loadImage
  simp only [htype, Option.bind_eq_bind, Option.bind_some]
  rw [fgets_line newline_notMem_size (by simp only [MAX_LINE_LEN]; omega)]
  simp only [Option.bind_some, hwidth, hheight]
  rw [fgets_line (fun c hc => decimal_ne hc (by decide) (by decide))
    (by simp only [MAX_LINE_LEN]; omega)]
  simp only [Option.bind_some, hload, himage.pixel_max_eq, hvalue, hwidth']
  rfl

theorem Storable.givenBack (memory : TypedImage) :
    ∃ loaded, loadImage memory (saveImage image) = some loaded ∧
      GivenBack image memory loaded := by
  refine ⟨_, himage.loadImage_eq memory, ⟨rfl, rfl⟩, rfl, rfl, rfl, ?_, ?_⟩
  · intro i hi
    simp [Image.storeAll, hi]
  · intro i hi
    simp [Image.storeAll, Nat.not_lt.mpr hi]

theorem Storable.length_bodyLines_le :
    ∀ line ∈ bodyLines (saveImage image), line.length ≤ LINE_LEN := by
  have hlines : bodyLines (saveImage image) =
      ((List.range image.size).flatMap (cellLine image.toImage)).splitOn NEWLINE := by
    rw [bodyLines, saveImage_eq,
      List.splitOn_append_cons_self_of_not_mem fun hc => himage.newline_notMem_type _ hc rfl,
      List.splitOn_append_cons_self_of_not_mem fun hc => newline_notMem_size _ hc rfl,
      List.splitOn_append_cons_self_of_not_mem fun hc => decimal_ne hc (by decide) (by decide) rfl]
    rfl
  rw [hlines]
  exact (rows_saveImage image).length_line_le

end Saved

/-- Loading a saved image gives the image back, and its lines have the length of the format. -/
theorem loadImage_saveImage (image memory : TypedImage) (himage : Storable image) :
    (∃ loaded, loadImage memory (saveImage image) = some loaded ∧
      GivenBack image memory loaded) ∧
    ∀ line ∈ bodyLines (saveImage image), line.length ≤ LINE_LEN :=
  ⟨himage.givenBack memory, himage.length_bodyLines_le⟩

/-- `P2`, two cells. -/
def twoCells : TypedImage where
  cells := fun i => if i = 0 then 7 else 200
  height := 1
  width := 2
  pixel_max := 255
  type := fun i => if i = 0 then 80 else 50

theorem loadImage_saveImage_twoCells :
    (∃ loaded, loadImage twoCells (saveImage twoCells) = some loaded ∧
      GivenBack twoCells twoCells loaded) ∧
    ∀ line ∈ bodyLines (saveImage twoCells), line.length ≤ LINE_LEN :=
  loadImage_saveImage twoCells twoCells
    ⟨by decide, by decide, by decide, by decide, by decide⟩

end Sysopy.Negate
