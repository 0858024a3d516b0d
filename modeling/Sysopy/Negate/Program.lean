import Sysopy.Negate.Columns

/-!
# The program

`main` loads an image, has the threads of one method negate it, and saves it. The threads
run in any interleaving, so what the program writes is a relation between its input and its
output. For an image whose cells lie below its maximum the relation is a function, the same
one for both methods and every number of threads, and a second run undoes the first.
-/
namespace Sysopy.Negate

open Transition CInteger Family

/-- `enum options`. -/
inductive Options
  | NUMBERS
  | BLOCK
  deriving DecidableEq

/-- `"numbers"`. -/
def numbersText : List UInt8 := [110, 117, 109, 98, 101, 114, 115]

/-- `"block"`. -/
def blockText : List UInt8 := [98, 108, 111, 99, 107]

/-- The `option` that `main` takes from `argv[2]`. -/
def optionOf (text : List UInt8) : Option Options :=
  if text = numbersText then some .NUMBERS
  else if text = blockText then some .BLOCK
  else none

/-- `negate` has joined its threads: the image is what some schedule leaves that brings all of
them to their ends. -/
inductive Joined (T : ℕ) (image : Image) : Options → Image → Prop
  | numbers {schedule : List (Fin T)} {s : Numbers T} :
      exec Numbers.step (Numbers.start image) schedule = some s → s.Finished →
      Joined T image .NUMBERS s.image
  | block {schedule : List (Fin T)} {s : Columns T} :
      exec Columns.step (Columns.start image) schedule = some s → s.Finished →
      Joined T image .BLOCK s.image

/-- The global `image` before `load_image`. -/
def staticImage : TypedImage where
  cells := fun _ => 0
  height := 0
  width := 0
  pixel_max := 0
  type := fun _ => 0

/-- `main` returns, with `argv[1]` and `argv[2]`, the file that it reads and the file that it
writes. -/
def Runs (threads_no method input output : List UInt8) : Prop :=
  ∃ option loaded image, optionOf method = some option ∧
    loadImage staticImage input = some loaded ∧
    Joined (toInt (strtol threads_no)).toNat loaded.toImage option image ∧
    output = saveImage { loaded with toImage := image }

/-- The image with every cell negated. -/
def Image.negative (image : Image) : Image := image.negateWhere (· < image.size)

def TypedImage.negative (image : TypedImage) : TypedImage :=
  { image with toImage := image.toImage.negative }

/-- An image with rows, in the array, whose cells are not above its maximum. -/
structure WellFormed (image : Image) : Prop where
  width_nonneg : 0 ≤ image.width
  width_le : image.width ≤ INT_MAX
  height_pos : 0 < image.height
  pixels : image.width * image.height ≤ MAX_PIXELS
  cells : ∀ i < image.size, image.cell i ≤ image.pixel_max
  pixel_max : image.pixel_max ≤ 255

theorem WellFormed.sizes {T : ℕ} {image : Image} (himage : WellFormed image) (hT : 0 < T)
    (hmax : (T : ℤ) ≤ INT_MAX) : Columns.Sizes T image where
  threads_pos := hT
  threads_le := hmax
  width_nonneg := himage.width_nonneg
  width_le := himage.width_le
  height_nonneg := himage.height_pos.le
  pixels := himage.pixels

/-! ## What the threads leave -/

section Joined

variable {T : ℕ} {image image' : Image}

theorem ofInt_emod (x : ℤ) : UInt8.ofInt (x % 256) = UInt8.ofInt x := by
  apply UInt8.toNat_inj.mp
  have h := toNat_ofInt x
  have h' := toNat_ofInt (x % 256)
  omega

theorem cells_eq_of_cell {i : ℕ} {value : ℤ} (h : image.cell i = value) :
    image.cells i = UInt8.ofInt value := by
  rw [← h, Image.cell, ofInt_toNat]

theorem eq_negative (hwidth : image'.width = image.width) (hheight : image'.height = image.height)
    (hmax : image'.pixel_max = image.pixel_max)
    (hinside : ∀ i < image.size, image'.cells i = negated image.pixel_max (image.cells i))
    (houtside : ∀ i, image.size ≤ i → image'.cells i = image.cells i) :
    image' = image.negative := by
  have hcells : image'.cells = image.negative.cells := by
    funext i
    by_cases hi : i < image.size
    · simp only [Image.negative, Image.negateWhere, if_pos hi, hinside i hi]
    · simp only [Image.negative, Image.negateWhere, if_neg hi, houtside i (not_lt.mp hi)]
  cases image'
  simp only at hcells hwidth hheight hmax
  subst hcells hwidth hheight hmax
  rfl

theorem numbersIteration_size_fields (context : Context) (image : Image) (i : ℕ) :
    (numbersIteration context image i).width = image.width ∧
      (numbersIteration context image i).height = image.height := by
  unfold numbersIteration
  split_ifs <;> exact ⟨rfl, rfl⟩

/-- The invariant of `numbers` with the two sides of the image. -/
structure NumbersInv (hT : 0 < T) (image : Image) (s : Numbers T) : Prop where
  inv : Numbers.Inv hT image s
  width : s.image.width = image.width
  height : s.image.height = image.height

theorem Numbers.step_eq_some {s s' : Numbers T} {t : Fin T} (h : s.step t = some s') :
    s.counter t < s.image.size ∧
    s'.image = numbersIteration (Numbers.context t) s.image (s.counter t) ∧
    s'.counter = Function.update s.counter t (s.counter t + 1) := by
  unfold Numbers.step at h
  by_cases hlt : s.counter t < s.image.size
  · rw [if_pos hlt, Option.some.injEq] at h
    subst h
    exact ⟨hlt, rfl, rfl⟩
  · rw [if_neg hlt] at h
    cases h

theorem NumbersInv.step {hT : 0 < T} (himage : WellFormed image) {s s' : Numbers T} {t : Fin T}
    (hs : NumbersInv hT image s) (h : s.step t = some s') : NumbersInv hT image s' := by
  have hinv := hs.inv.step himage.cells himage.pixel_max h
  obtain ⟨-, himage', -⟩ := Numbers.step_eq_some h
  obtain ⟨hwidth, hheight⟩ :=
    numbersIteration_size_fields (Numbers.context t) s.image (s.counter t)
  rw [← himage'] at hwidth hheight
  exact ⟨hinv, hwidth.trans hs.width, hheight.trans hs.height⟩

/-- The iterations that the threads of `numbers` have before them. -/
def Numbers.left (size : ℕ) (s : Numbers T) : ℕ := total (size - ·) s.counter

theorem Numbers.left_lt {s s' : Numbers T} {t : Fin T} {size : ℕ} (hsize : s.image.size = size)
    (h : s.step t = some s') : s'.left size < s.left size := by
  obtain ⟨hlt, -, hcounter⟩ := Numbers.step_eq_some h
  have htotal := total_update (size - ·) s.counter t (s.counter t + 1)
  rw [← hcounter] at htotal
  unfold Numbers.left
  omega

theorem Numbers.exists_step {s : Numbers T} (h : ¬ s.Finished) : ∃ t s', s.step t = some s' := by
  unfold Numbers.Finished at h
  push Not at h
  obtain ⟨t, ht⟩ := h
  exact ⟨t, _, if_pos ht⟩

theorem Columns.exists_step {s : Columns T}
    (hs : Columns.Inv image s) (h : ¬ s.Finished) : ∃ t s', s.step t = some s' := by
  unfold Columns.Finished at h
  push Not at h
  obtain ⟨t, ht⟩ := h
  have hplaced := hs.placed t
  refine ⟨t, Columns.step_isSome ⟨fun hat => ?_, ht⟩⟩
  rw [hat] at hplaced
  exact hplaced

theorem exists_joined (hT : 0 < T) (hmax : (T : ℤ) ≤ INT_MAX) (himage : WellFormed image)
    (option : Options) : ∃ image', Joined T image option image' := by
  cases option with
  | NUMBERS =>
    obtain ⟨schedule, s, hrun, -, hdone⟩ := exists_exec_of_progress
      (fun _ _ _ hs h => NumbersInv.step himage hs h)
      (fun _ _ _ hs h => Numbers.left_lt hs.inv.size h) (fun _ _ => Numbers.exists_step)
      (⟨Numbers.inv_start hT image, rfl, rfl⟩ : NumbersInv hT image (Numbers.start image))
    exact ⟨_, .numbers hrun hdone⟩
  | BLOCK =>
    have hsizes := himage.sizes hT hmax
    have hstart : 0 < image.height ∨ ((T : ℤ) - 1) * columns T image.width ≤ INT_MAX :=
      .inl himage.height_pos
    obtain ⟨schedule, s, hrun, -, hdone⟩ := exists_exec_of_progress
      (fun _ _ _ hs h => Columns.Inv.step hsizes hstart hs h)
      (fun _ _ _ hs h => Columns.Inv.allRemaining_lt hsizes hstart hs h)
      (fun _ hs => Columns.exists_step hs) (Columns.inv_start image)
    exact ⟨_, .block hrun hdone⟩

theorem eq_negative_of_numbers (hT : 0 < T) (himage : WellFormed image)
    {schedule : List (Fin T)} {s : Numbers T}
    (hrun : exec Numbers.step (Numbers.start image) schedule = some s) (hdone : s.Finished) :
    s.image = image.negative := by
  have hs : NumbersInv hT image s := exec_invariant' (fun _ _ _ hs h => hs.step himage h)
    ⟨Numbers.inv_start hT image, rfl, rfl⟩ hrun
  apply eq_negative hs.width hs.height hs.inv.pixel_max
  · intro i hi
    have hpassed : i < s.counter (Numbers.ownerOf hT image i) := hi.trans_le (hs.inv.size ▸ hdone _)
    exact cells_eq_of_cell (hs.inv.after i hi hpassed).1
  · exact fun i hi => (hs.inv.outside i hi).1

theorem eq_negative_of_block (hsizes : Columns.Sizes T image) (himage : WellFormed image)
    {schedule : List (Fin T)} {s : Columns T}
    (hrun : exec Columns.step (Columns.start image) schedule = some s) (hdone : s.Finished) :
    s.image = image.negative := by
  have hs : Columns.Inv image s :=
    exec_invariant' (fun _ _ _ hs h => hs.step hsizes (.inl himage.height_pos) h)
      (Columns.inv_start image) hrun
  apply eq_negative hs.width hs.height hs.pixel_max
  · intro i hi
    obtain ⟨hwidth, _⟩ := hsizes.width_le_size (by omega)
    obtain ⟨t, howner⟩ : ∃ t : Fin T, Columns.Owns image t i :=
      ⟨⟨_, column_lt hsizes.threads_pos hwidth _⟩, rfl⟩
    have hpast : Columns.Passed image i (s.place t) := by
      rw [hdone]
      trivial
    rw [cells_eq_of_cell (hs.after t i hi howner hpast).1, ofInt_emod]
    rfl
  · exact fun i hi => (hs.outside i hi).1

/-- Without threads the image stays; with threads, whichever they are, it is negated. -/
theorem joined_iff (hmax : (T : ℤ) ≤ INT_MAX) (himage : WellFormed image) (option : Options) :
    Joined T image option image' ↔ image' = if 0 < T then image.negative else image := by
  split_ifs with hT
  · have honly : ∀ {image'}, Joined T image option image' → image' = image.negative := by
      intro image' h
      cases h with
      | numbers hrun hdone => exact eq_negative_of_numbers hT himage hrun hdone
      | block hrun hdone => exact eq_negative_of_block (himage.sizes hT hmax) himage hrun hdone
    refine ⟨honly, ?_⟩
    rintro rfl
    obtain ⟨image', h⟩ := exists_joined hT hmax himage option
    rwa [honly h] at h
  · obtain rfl : T = 0 := by omega
    constructor
    · intro h
      cases h with
      | @numbers schedule s hrun _ =>
        cases schedule with
        | nil => exact congrArg Numbers.image (Option.some.inj hrun).symm
        | cons t _ => exact t.elim0
      | @block schedule s hrun _ =>
        cases schedule with
        | nil => exact congrArg Columns.image (Option.some.inj hrun).symm
        | cons t _ => exact t.elim0
    · rintro rfl
      cases option with
      | NUMBERS => exact .numbers (exec_nil (Numbers.start _)) fun t => t.elim0
      | BLOCK => exact .block (exec_nil (Columns.start _)) fun t => t.elim0

end Joined

/-! ## Runs -/

theorem cell_negative {image : Image} (himage : WellFormed image) {i : ℕ} (hi : i < image.size) :
    image.negative.cell i = image.pixel_max - image.cell i := by
  have hcell := himage.cells i hi
  have hmax := himage.pixel_max
  have hnonneg : 0 ≤ image.cell i := Int.natCast_nonneg _
  have hvalue : image.negative.cells i = UInt8.ofInt (image.pixel_max - image.cell i) := if_pos hi
  rw [Image.cell, hvalue, toNat_ofInt]
  omega

theorem WellFormed.negative {image : Image} (himage : WellFormed image) :
    WellFormed image.negative where
  width_nonneg := himage.width_nonneg
  width_le := himage.width_le
  height_pos := himage.height_pos
  pixels := himage.pixels
  cells i hi := by
    have hnonneg : 0 ≤ image.cell i := Int.natCast_nonneg _
    rw [cell_negative himage hi]
    change image.pixel_max - image.cell i ≤ image.pixel_max
    omega
  pixel_max := himage.pixel_max

theorem WellFormed.congr {image image' : Image} (himage : WellFormed image)
    (hwidth : image'.width = image.width) (hheight : image'.height = image.height)
    (hmax : image'.pixel_max = image.pixel_max)
    (hcells : ∀ i < image.size, image'.cells i = image.cells i) : WellFormed image' where
  width_nonneg := hwidth ▸ himage.width_nonneg
  width_le := hwidth ▸ himage.width_le
  height_pos := hheight ▸ himage.height_pos
  pixels := hwidth ▸ hheight ▸ himage.pixels
  cells i hi := by
    have hsize : image'.size = image.size := Image.size_congr hwidth hheight
    rw [hsize] at hi
    rw [Image.cell, hcells i hi, hmax]
    exact himage.cells i hi
  pixel_max := hmax ▸ himage.pixel_max

theorem toNat_threads (threads_no : List UInt8) :
    ((toInt (strtol threads_no)).toNat : ℤ) ≤ INT_MAX := by
  have h := toInt_lt (strtol threads_no)
  simp only [INT_MAX]
  omega

section Runs

variable {threads_no method input output : List UInt8} {image : TypedImage}
  (hload : loadImage staticImage input = some image) (himage : WellFormed image.toImage)

include hload himage

theorem Runs.output_eq (h : Runs threads_no method input output) :
    output = saveImage (if 0 < toInt (strtol threads_no) then image.negative else image) := by
  obtain ⟨option, loaded, result, hoption, hload', hjoined, rfl⟩ := h
  rw [hload, Option.some.injEq] at hload'
  subst hload'
  rw [joined_iff (toNat_threads threads_no) himage] at hjoined
  rw [hjoined]
  by_cases hpos : 0 < toInt (strtol threads_no)
  · rw [if_pos hpos, if_pos (by omega)]
    rfl
  · rw [if_neg hpos, if_neg (by omega)]

end Runs

theorem Storable.negative {image : TypedImage} (h : Storable image) : Storable image.negative where
  type := h.type
  width := h.width
  height := h.height
  size := h.size
  pixel_max := h.pixel_max

end Sysopy.Negate
