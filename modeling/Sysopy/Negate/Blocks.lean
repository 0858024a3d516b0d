import Sysopy.Negate.Files
import Sysopy.Negate.Numbers

/-!
# The method `block` and its agreement with `numbers`

A thread of `start_routine_blocks` negates the columns of its own range, each cell once.
A thread of `start_routine_numbers` decides by the value of a cell, which `load_image`
does not compare with the maximum. When the threads run one after another, a cell can
belong to no class of `numbers`, or be negated a second time by a later thread. The bounds of
the loops are products and sums of `int`s: in an image that is wider than it has cells they can
wrap around, and a thread of `block` writes before the array.
-/
namespace Sysopy.Negate

open CInteger

/-! ## `start_routine_blocks` -/

/-- `(int)ceil((double)image.width / context->threads_no)`: a quotient of two `int`s that is
not an integer is too far from the next one to be rounded to it. -/
def coeff (context : Context) (image : Image) : ℤ := -(-image.width / context.threads_no)

/-- `image.cells[j] = image.pixel_max - image.cells[j]`. -/
def Image.negateCell (image : Image) (j : ℕ) : Image :=
  image.store j (image.pixel_max - image.cell j)

/-- `context->index * coeff`. -/
def firstColumn (context : Context) (image : Image) : ℤ :=
  toInt (context.index * coeff context image)

/-- `(context->index + 1) * coeff`. -/
def endColumn (context : Context) (image : Image) : ℤ :=
  toInt ((context.index + 1) * coeff context image)

/-- The loop over the cells of a column, from `j` on; `none` before the array. -/
def blocksColumn (image : Image) (j : ℤ) : ℕ → Option Image
  | 0 => some image
  | fuel + 1 =>
    if j < image.pixels then
      if 0 ≤ j then blocksColumn (image.negateCell j.toNat) (toInt (j + image.width)) fuel
      else none
    else some image

/-- The loop over the columns of the thread, from `i` on. -/
def blocksColumns (context : Context) (image : Image) (i : ℤ) : ℕ → Option Image
  | 0 => some image
  | fuel + 1 =>
    if i < endColumn context image ∧ i < image.width then
      (blocksColumn image i (image.size + 1)).bind fun image =>
        blocksColumns context image (toInt (i + 1)) fuel
    else some image

/-- The columns are at most as many as the bounds are apart, the cells of a column at most
`size` many. -/
def startRoutineBlocks (context : Context) (image : Image) : Option Image :=
  blocksColumns context image (firstColumn context image)
    (endColumn context image - firstColumn context image).toNat

/-- `start_routine_numbers` of a thread that is not interrupted. -/
def startRoutineNumbers (context : Context) (image : Image) : Option Image :=
  some ((List.range image.size).foldl (numbersIteration context) image)

/-- `negate` with threads that run one after another. -/
def negateInOrder {T : ℕ} (routine : Context → Image → Option Image) (order : List (Fin T))
    (image : Image) : Option Image :=
  order.foldlM (fun image t => routine (Numbers.context t) image) image

/-- The `int`s that `load_image` and `main` leave to `negate`. -/
structure Loaded (T : ℕ) (image : Image) : Prop where
  threads_pos : 0 < T
  threads_le : (T : ℤ) ≤ INT_MAX
  width_ge : -2 ^ 31 ≤ image.width
  width_le : image.width ≤ INT_MAX
  pixels_le : image.pixels ≤ MAX_PIXELS

/-- The loops of the thread do not begin at a cell before the array. -/
def StartsInside (context : Context) (image : Image) : Prop :=
  0 ≤ firstColumn context image ∨ endColumn context image ≤ firstColumn context image ∨
    image.width ≤ firstColumn context image ∨ image.pixels ≤ firstColumn context image

instance (context : Context) (image : Image) : Decidable (StartsInside context image) :=
  inferInstanceAs (Decidable (_ ∨ _ ∨ _ ∨ _))

/-- No inner loop goes on to a cell before the array. -/
def StepsInside (image : Image) : Prop :=
  image.width ≤ 0 ∨ image.pixels ≤ 0 ∨ image.pixels + image.width ≤ 2 ^ 31

instance (image : Image) : Decidable (StepsInside image) :=
  inferInstanceAs (Decidable (_ ∨ _ ∨ _))

/-- Both methods stay inside the array and leave the same cells. -/
def SameCells {T : ℕ} (image : Image) (order order' : List (Fin T)) : Prop :=
  ∃ numbers blocks, negateInOrder startRoutineNumbers order image = some numbers ∧
    negateInOrder startRoutineBlocks order' image = some blocks ∧
    ∀ k, numbers.cells k = blocks.cells k

/-! ## When the methods agree -/

/-- The byte that replaces the byte `c`. -/
def negated (pixel_max : ℤ) (c : UInt8) : UInt8 := UInt8.ofInt (pixel_max - c.toNat)

/-- The thread `t` of `numbers` negates a cell that holds `c`. -/
def Selects {T : ℕ} (pixel_max : ℤ) (t : Fin T) (c : UInt8) : Prop :=
  (val pixel_max c.toNat).tmod T = t.val

instance {T : ℕ} (pixel_max : ℤ) (t : Fin T) (c : UInt8) : Decidable (Selects pixel_max t c) :=
  inferInstanceAs (Decidable (_ = _))

/-- The thread that `c` belongs to runs, and after it no thread that the negated byte
belongs to. -/
def NegatedOnce {T : ℕ} (pixel_max : ℤ) (order : List (Fin T)) (c : UInt8) : Prop :=
  ∃ before t after, order = before ++ t :: after ∧ Selects pixel_max t c ∧
    ∀ t' ∈ after, ¬ Selects pixel_max t' (negated pixel_max c)

/-- Both methods leave the same in a cell with `c`; without a positive width `block` negates
nothing. -/
def Agrees {T : ℕ} (image : Image) (order : List (Fin T)) (c : UInt8) : Prop :=
  negated image.pixel_max c = c ∨ (NegatedOnce image.pixel_max order c ↔ 0 < image.width)

theorem negated_negated (pixel_max : ℤ) (c : UInt8) :
    negated pixel_max (negated pixel_max c) = c := by
  apply UInt8.toNat_inj.mp
  have hc := c.toNat_lt
  have h₁ := toNat_ofInt (pixel_max - c.toNat)
  have h₂ := toNat_ofInt (pixel_max - (negated pixel_max c).toNat)
  simp only [negated] at h₂ ⊢
  omega

/-! ## What a thread negates -/

/-- The image with the cells in `P` negated once. -/
def Image.negateWhere (image : Image) (P : ℕ → Prop) [DecidablePred P] : Image :=
  { image with
    cells k := if P k then negated image.pixel_max (image.cells k) else image.cells k }

section NegateWhere

variable (image : Image) {P Q : ℕ → Prop} [DecidablePred P] [DecidablePred Q]

theorem Image.size_negateWhere : (image.negateWhere P).size = image.size := rfl

theorem Image.negateWhere_congr (h : ∀ k, P k ↔ Q k) :
    image.negateWhere P = image.negateWhere Q := by
  simp [Image.negateWhere, h]

theorem Image.negateWhere_of_not (h : ∀ k, ¬ P k) : image.negateWhere P = image := by
  simp [Image.negateWhere, h]

theorem Image.negateWhere_negateWhere (h : ∀ k, P k → ¬ Q k) :
    (image.negateWhere P).negateWhere Q = image.negateWhere fun k => P k ∨ Q k := by
  simp only [Image.negateWhere, Image.mk.injEq, and_true]
  funext k
  by_cases hP : P k
  · simp [hP, h k hP]
  · simp [hP]

theorem Image.negateCell_eq (j : ℕ) : image.negateCell j = image.negateWhere (· = j) := by
  simp only [Image.negateCell, Image.store, Image.negateWhere, Image.mk.injEq, and_true]
  funext k
  rw [Function.update_apply]
  split_ifs with hk
  · rw [hk]
    rfl
  · rfl

end NegateWhere

theorem blocksColumn_eq {width : ℕ} (hwidth : 0 < width) (fuel : ℕ) (image : Image) (j : ℕ)
    (hw : image.width = width) (hsteps : image.size + width ≤ 2 ^ 31)
    (hfuel : image.size ≤ j + fuel) : blocksColumn image j fuel =
      some (image.negateWhere fun k => k < image.size ∧ j ≤ k ∧ width ∣ k - j) := by
  induction fuel generalizing image j with
  | zero =>
    rw [Image.negateWhere_of_not]
    · rfl
    · omega
  | succ fuel ih =>
    rw [blocksColumn]
    split_ifs with hj hpos
    · have hsize : j < image.size := by
        rw [Image.size]
        omega
      have hnext : toInt ((j : ℤ) + image.width) = (j + width : ℕ) := by
        rw [hw, ← Nat.cast_add, toInt_of_nat (by omega)]
      rw [Int.toNat_natCast, hnext, ih (image.negateCell j) (j + width) hw hsteps (by
        change image.size ≤ j + width + fuel
        omega), Image.negateCell_eq, Image.negateWhere_negateWhere]
      · refine congrArg some (Image.negateWhere_congr _ fun k => ?_)
        change k = j ∨ k < image.size ∧ j + width ≤ k ∧ width ∣ k - (j + width) ↔ _
        constructor
        · rintro (rfl | ⟨hk, hle, hdvd⟩)
          · simp [hsize]
          · refine ⟨hk, by omega, ?_⟩
            have hsplit : k - j = k - (j + width) + width := by omega
            rw [hsplit]
            exact hdvd.add (dvd_refl width)
        · rintro ⟨hk, hle, hdvd⟩
          by_cases hkj : k = j
          · exact .inl hkj
          · have hstep : width ≤ k - j := Nat.le_of_dvd (by omega) hdvd
            have hsplit : k - (j + width) = k - j - width := by omega
            refine .inr ⟨hk, by omega, ?_⟩
            rw [hsplit]
            exact Nat.dvd_sub hdvd (dvd_refl width)
      · rintro k rfl ⟨_, hle, _⟩
        omega
    · exact absurd (Int.natCast_nonneg j) hpos
    · rw [Image.negateWhere_of_not]
      rintro k ⟨hk, hle, _⟩
      rw [Image.size] at hk
      omega

theorem dvd_sub_iff {width j k : ℕ} (hj : j < width) : j ≤ k ∧ width ∣ k - j ↔ k % width = j := by
  constructor
  · rintro ⟨hle, m, hm⟩
    have hk : k = j + width * m := by omega
    rw [hk, Nat.add_mul_mod_self_left, Nat.mod_eq_of_lt hj]
  · rintro rfl
    refine ⟨Nat.mod_le k width, ?_⟩
    exact Nat.dvd_sub_mod k

theorem blocksColumns_eq {width : ℕ} (hwidth : 0 < width) (context : Context) (last : ℕ) (fuel : ℕ)
    (image : Image) (i : ℕ) (hw : image.width = width) (hsteps : image.size + width ≤ 2 ^ 31)
    (hlast : endColumn context image = last) (hfuel : last ≤ i + fuel) :
    blocksColumns context image i fuel =
      some (image.negateWhere fun k => k < image.size ∧ i ≤ k % width ∧ k % width < last) := by
  induction fuel generalizing image i with
  | zero =>
    rw [Image.negateWhere_of_not]
    · rfl
    · omega
  | succ fuel ih =>
    rw [blocksColumns, hlast, hw]
    split_ifs with hi
    · obtain ⟨hlt, hcolumn⟩ := hi
      rw [Nat.cast_lt] at hlt hcolumn
      have hlt' : (last : ℤ) < 2 ^ 31 := hlast ▸ toInt_lt _
      have hnext : toInt ((i : ℤ) + 1) = (i + 1 : ℕ) := by
        rw [← Nat.cast_add_one, toInt_of_nat (by omega)]
      rw [hnext, blocksColumn_eq hwidth (image.size + 1) image i hw hsteps (by omega),
        Option.bind_some, ih (image.negateWhere _) (i + 1) hw hsteps hlast (by omega),
        Image.negateWhere_negateWhere]
      · refine congrArg some (Image.negateWhere_congr _ fun k => ?_)
        rw [Image.size_negateWhere, dvd_sub_iff hcolumn]
        omega
      · rintro k ⟨_, hk⟩ ⟨_, hle, _⟩
        rw [dvd_sub_iff hcolumn] at hk
        omega
    · rw [Image.negateWhere_of_not]
      rintro k ⟨_, hle, hlt⟩
      have hmod := Nat.mod_lt k hwidth
      apply hi
      rw [Nat.cast_lt, Nat.cast_lt]
      omega

/-! ## The range of a thread -/

/-- The number of columns of a thread. -/
def columns (T : ℕ) (width : ℤ) : ℕ := (-(-width / T)).toNat

theorem columns_bounds {T : ℕ} (hT : 0 < T) {width : ℤ} (hwidth : 0 ≤ width) :
    width ≤ columns T width * T ∧ (columns T width : ℤ) * T < width + T ∧
      (columns T width : ℤ) = -(-width / T) := by
  have hT' : (0 : ℤ) < T := by exact_mod_cast hT
  have hmul := Int.ediv_mul_le (-width) hT'.ne'
  have hlt := Int.lt_ediv_add_one_mul_self (-width) hT'
  have hneg : -width / (T : ℤ) ≤ 0 := Int.ediv_nonpos_of_nonpos_of_neg (by omega) hT'
  have hcolumns : (columns T width : ℤ) = -(-width / T) := Int.toNat_of_nonneg (by omega)
  rw [hcolumns]
  refine ⟨by linarith, by linarith, rfl⟩

theorem columns_pos {T : ℕ} (hT : 0 < T) {width : ℤ} (hwidth : 0 < width) :
    0 < columns T width := by
  obtain ⟨hle, _⟩ := columns_bounds hT hwidth.le
  by_contra hzero
  rw [Nat.eq_zero_of_not_pos hzero, Nat.cast_zero, zero_mul] at hle
  omega

theorem columns_mul_le {T : ℕ} (hT : 0 < T) (hthreads : (T : ℤ) ≤ INT_MAX) {width : ℤ}
    (hwidth : 0 < width) (hmax : width ≤ MAX_PIXELS) : (columns T width : ℤ) * T ≤ INT_MAX := by
  obtain ⟨_, hlt, _⟩ := columns_bounds hT hwidth.le
  have hmax' : width ≤ 8294400 := by exact_mod_cast hmax
  rcases lt_or_ge (T : ℤ) width with hless | hmore
  · simp only [INT_MAX]
    omega
  · -- every thread has at most one column
    have hone : (columns T width : ℤ) ≤ 1 := by
      by_contra htwo
      have htwo' : (2 : ℤ) ≤ columns T width := by omega
      have hmul := mul_le_mul_of_nonneg_right htwo' (Int.natCast_nonneg T)
      omega
    have hmul := mul_le_mul_of_nonneg_right hone (Int.natCast_nonneg T)
    omega

theorem sub_one_mul_lt {T : ℕ} (hT : 0 < T) {width : ℤ} (hwidth : 0 < width) {n : ℕ}
    (hn : n ≤ T) : ((columns T width : ℤ) - 1) * n < width := by
  obtain ⟨_, hlt, _⟩ := columns_bounds hT hwidth.le
  have hpos := columns_pos hT hwidth
  have hle : (n : ℤ) ≤ T := by exact_mod_cast hn
  have hmul := mul_le_mul_of_nonneg_left hle (by omega : 0 ≤ (columns T width : ℤ) - 1)
  rw [sub_mul _ _ (T : ℤ), one_mul] at hmul
  omega

/-! ## Threads that write nothing, or before the array -/

section Idle

variable {context : Context} {image : Image}

theorem startRoutineBlocks_of_end_le (h : endColumn context image ≤ firstColumn context image) :
    startRoutineBlocks context image = some image := by
  rw [startRoutineBlocks, Int.toNat_of_nonpos (by omega)]
  rfl

theorem blocksColumns_of_le (fuel : ℕ) {i : ℤ} (hlow : -2 ^ 31 ≤ i) (h : image.pixels ≤ i) :
    blocksColumns context image i fuel = some image := by
  induction fuel generalizing i with
  | zero => rfl
  | succ fuel ih =>
    rw [blocksColumns]
    split_ifs with hi
    · have hlt := toInt_lt ((context.index + 1) * coeff context image)
      have hnext : toInt (i + 1) = i + 1 := by
        have hbound := hi.1
        rw [endColumn] at hbound
        exact toInt_eq_self (by omega) (by simp only [INT_MAX]; omega)
      rw [blocksColumn, if_neg (not_lt.mpr h), Option.bind_some, hnext]
      exact ih (by omega) (by omega)
    · rfl

theorem startRoutineBlocks_of_startsInside (hpixels : image.pixels ≤ 0)
    (h : StartsInside context image) : startRoutineBlocks context image = some image := by
  rw [startRoutineBlocks]
  have hlow : -2 ^ 31 ≤ firstColumn context image := neg_le_toInt _
  rcases h with hfirst | hend | hwidth | hcells
  · exact blocksColumns_of_le _ hlow (hpixels.trans hfirst)
  · exact startRoutineBlocks_of_end_le hend
  · cases (endColumn context image - firstColumn context image).toNat with
    | zero => rfl
    | succ fuel => rw [blocksColumns, if_neg (fun hi => absurd hi.2 (not_lt.mpr hwidth))]
  · exact blocksColumns_of_le _ hlow hcells

/-- A thread that starts before the array writes there at once. -/
theorem startRoutineBlocks_of_not_startsInside (h : ¬ StartsInside context image) :
    startRoutineBlocks context image = none := by
  simp only [StartsInside, not_or, not_le] at h
  obtain ⟨hfirst, hend, hwidth, hcells⟩ := h
  obtain ⟨fuel, hfuel⟩ : ∃ fuel,
      (endColumn context image - firstColumn context image).toNat = fuel + 1 :=
    ⟨(endColumn context image - firstColumn context image).toNat - 1, by omega⟩
  rw [startRoutineBlocks, hfuel, blocksColumns, if_pos ⟨hend, hwidth⟩, blocksColumn, if_pos hcells,
    if_neg (not_le.mpr hfirst)]
  rfl

end Idle

/-! ## The two sides of the image stay -/

section SameSides

variable {context : Context} {image image' : Image}

theorem blocksColumn_sides {fuel : ℕ} {j : ℤ} (h : blocksColumn image j fuel = some image') :
    image'.width = image.width ∧ image'.height = image.height := by
  induction fuel generalizing image j with
  | zero =>
    obtain rfl := Option.some.inj h
    exact ⟨rfl, rfl⟩
  | succ fuel ih =>
    rw [blocksColumn] at h
    split_ifs at h
    · have hsides := ih h
      exact hsides
    · obtain rfl := Option.some.inj h
      exact ⟨rfl, rfl⟩

theorem blocksColumns_sides {fuel : ℕ} {i : ℤ}
    (h : blocksColumns context image i fuel = some image') :
    image'.width = image.width ∧ image'.height = image.height := by
  induction fuel generalizing image i with
  | zero =>
    obtain rfl := Option.some.inj h
    exact ⟨rfl, rfl⟩
  | succ fuel ih =>
    rw [blocksColumns] at h
    split_ifs at h
    · obtain ⟨next, hnext, h⟩ := Option.bind_eq_some_iff.mp h
      obtain ⟨hwidth, hheight⟩ := blocksColumn_sides hnext
      exact ⟨(ih h).1.trans hwidth, (ih h).2.trans hheight⟩
    · obtain rfl := Option.some.inj h
      exact ⟨rfl, rfl⟩

theorem coeff_congr (hwidth : image'.width = image.width) :
    coeff context image' = coeff context image := by
  rw [coeff, coeff, hwidth]

theorem startsInside_congr (hwidth : image'.width = image.width)
    (hheight : image'.height = image.height) :
    StartsInside context image' ↔ StartsInside context image := by
  simp only [StartsInside, firstColumn, endColumn, coeff_congr hwidth, hwidth,
    Image.pixels_congr hwidth hheight]

theorem Loaded.congr {T : ℕ} (hloaded : Loaded T image) (hwidth : image'.width = image.width)
    (hheight : image'.height = image.height) : Loaded T image' where
  threads_pos := hloaded.threads_pos
  threads_le := hloaded.threads_le
  width_ge := hwidth ▸ hloaded.width_ge
  width_le := hwidth ▸ hloaded.width_le
  pixels_le := Image.pixels_congr hwidth hheight ▸ hloaded.pixels_le

theorem stepsInside_congr (hwidth : image'.width = image.width)
    (hheight : image'.height = image.height) : StepsInside image' ↔ StepsInside image := by
  rw [StepsInside, StepsInside, hwidth, Image.pixels_congr hwidth hheight]

end SameSides

/-! ## What a thread of `block` negates -/

section Loaded

variable {T : ℕ} {image : Image} (hloaded : Loaded T image) (t : Fin T)

theorem Image.pixels_eq_size (hsize : 0 < image.size) : image.pixels = image.size := by
  rw [Image.size] at hsize ⊢
  omega

include hloaded

/-- The bounds of a thread that begins at a cell are the products. -/
theorem Loaded.columns_eq (hwidth : 0 < image.width)
    (hlt : t.val * columns T image.width < image.size) :
    firstColumn (Numbers.context t) image = (t.val * columns T image.width : ℕ) ∧
      endColumn (Numbers.context t) image = ((t.val + 1) * columns T image.width : ℕ) := by
  have hcoeff : coeff (Numbers.context t) image = columns T image.width :=
    (columns_bounds hloaded.threads_pos hwidth.le).2.2.symm
  have hindex : (Numbers.context t).index = t.val := rfl
  have hmax := hloaded.width_le
  have hpixels : image.size ≤ 8294400 := by
    have hle := hloaded.pixels_le
    simp only [MAX_PIXELS] at hle
    rw [Image.size]
    omega
  have hsucc := Nat.add_one_mul t.val (columns T image.width)
  have hend : ((t.val + 1) * columns T image.width : ℕ) ≤ INT_MAX := by
    rw [hsucc]
    rcases Nat.eq_zero_or_pos t.val with ht | ht
    · have hone := sub_one_mul_lt hloaded.threads_pos hwidth hloaded.threads_pos
      rw [ht, zero_mul, zero_add]
      omega
    · have htwo := sub_one_mul_lt hloaded.threads_pos hwidth (by have := t.isLt; omega : 2 ≤ T)
      simp only [INT_MAX] at hmax ⊢
      omega
  constructor
  · rw [firstColumn, hcoeff, hindex, ← Nat.cast_mul, toInt_eq_self (by omega) (by omega)]
  · rw [endColumn, hcoeff, hindex, ← Nat.cast_add_one, ← Nat.cast_mul,
      toInt_eq_self (by omega) (by omega)]

/-- The other threads begin behind the cells, or before the array. -/
theorem Loaded.startRoutineBlocks_of_size_le (hwidth : 0 < image.width) (hsize : 0 < image.size)
    (hle : image.size ≤ t.val * columns T image.width)
    (hinside : StartsInside (Numbers.context t) image) :
    startRoutineBlocks (Numbers.context t) image = some image := by
  have hpixels := Image.pixels_eq_size hsize
  obtain ⟨_, hlt, hcolumns⟩ := columns_bounds hloaded.threads_pos hwidth.le
  have hfirst : firstColumn (Numbers.context t) image =
      toInt (t.val * columns T image.width : ℕ) := by
    rw [Nat.cast_mul, hcolumns]
    rfl
  have hend : endColumn (Numbers.context t) image =
      toInt ((t.val + 1) * columns T image.width : ℕ) := by
    rw [Nat.cast_mul, Nat.cast_add_one, hcolumns]
    rfl
  rcases lt_or_ge (t.val * columns T image.width) (2 ^ 31) with hsmall | hlarge
  · rw [toInt_of_nat hsmall] at hfirst
    exact blocksColumns_of_le _ (by omega) (by omega)
  · -- both bounds are negative
    have hpos := columns_pos hloaded.threads_pos hwidth
    have hmul : (t.val + 1) * columns T image.width ≤ T * columns T image.width :=
      Nat.mul_le_mul_right _ t.isLt
    have hmul' : ((t.val + 1) * columns T image.width : ℕ) < image.width + T := by
      rw [mul_comm] at hlt
      refine lt_of_le_of_lt ?_ hlt
      exact_mod_cast hmul
    have hsucc := Nat.add_one_mul t.val (columns T image.width)
    have hmax := hloaded.width_le
    have hthreads := hloaded.threads_le
    simp only [INT_MAX] at hmax hthreads
    rw [toInt_of_le hlarge (by omega)] at hfirst
    rw [toInt_of_le (by omega) (by omega)] at hend
    rcases hinside with hnonneg | hempty | hbehind | hbehind <;> omega

/-- With cells and a positive width, a thread negates the columns of its range. -/
theorem Loaded.startRoutineBlocks_eq (hwidth : 0 < image.width) (hsize : 0 < image.size)
    (hinside : StartsInside (Numbers.context t) image) (hsteps : StepsInside image) :
    startRoutineBlocks (Numbers.context t) image = some (image.negateWhere fun k =>
      k < image.size ∧ k % image.width.toNat / columns T image.width = t) := by
  have hpos := columns_pos hloaded.threads_pos hwidth
  have hpixels := Image.pixels_eq_size hsize
  rcases lt_or_ge (t.val * columns T image.width) image.size with hlt | hle
  · obtain ⟨hfirst, hend⟩ := hloaded.columns_eq t hwidth hlt
    have hsmall : image.size + image.width.toNat ≤ 2 ^ 31 := by
      rcases hsteps with hnone | hnone | hsum <;> omega
    rw [startRoutineBlocks, hfirst, blocksColumns_eq (by omega : 0 < image.width.toNat) _ _ _
      image _ (by omega) hsmall hend (by omega)]
    refine congrArg some (Image.negateWhere_congr _ fun k => ?_)
    rw [Nat.div_eq_iff hpos]
    have hsucc := Nat.add_one_mul t.val (columns T image.width)
    omega
  · rw [hloaded.startRoutineBlocks_of_size_le t hwidth hsize hle hinside,
      Image.negateWhere_of_not]
    rintro k ⟨hk, ht⟩
    have hdiv := Nat.div_mul_le_self (k % image.width.toNat) (columns T image.width)
    have hmod := Nat.mod_le k image.width.toNat
    rw [ht] at hdiv
    omega

theorem Loaded.endColumn_le (hwidth : image.width ≤ 0) :
    endColumn (Numbers.context t) image ≤ firstColumn (Numbers.context t) image := by
  have hT : (0 : ℤ) < T := by exact_mod_cast hloaded.threads_pos
  have hdiv : 0 ≤ -image.width / (T : ℤ) := Int.ediv_nonneg (by omega) hT.le
  have hcoeff : coeff (Numbers.context t) image = -(-image.width / T) := rfl
  have hindex : (Numbers.context t).index = t.val := rfl
  have hlt : (t.val : ℤ) + 1 ≤ T := by exact_mod_cast t.isLt
  have hle : ((t.val : ℤ) + 1) * (-image.width / T) ≤ -image.width := by
    refine (mul_le_mul_of_nonneg_right hlt hdiv).trans ?_
    exact Int.mul_ediv_self_le hT.ne'
  have hnonneg : 0 ≤ (t.val : ℤ) * (-image.width / T) := mul_nonneg (by omega) hdiv
  have hsucc : ((t.val : ℤ) + 1) * (-image.width / T) =
      (t.val : ℤ) * (-image.width / T) + -image.width / T := by rw [add_mul, one_mul]
  have hge := hloaded.width_ge
  rw [endColumn, firstColumn, hcoeff, hindex, mul_neg, mul_neg, toInt_eq_self (by omega)
    (by simp only [INT_MAX]; omega), toInt_eq_self (by omega) (by simp only [INT_MAX]; omega)]
  omega

end Loaded

/-! ## Steps out of the array -/

section Leaving

variable {context : Context} {image : Image}

/-- In the column of the last cell. -/
theorem blocksColumn_eq_none {i : ℕ} (hi : i + 1 = image.size) (hmax : image.width ≤ INT_MAX)
    (hsteps : 2 ^ 31 < image.size + image.width) :
    blocksColumn image i (image.size + 1) = none := by
  have hpixels := Image.pixels_eq_size (by omega : 0 < image.size)
  have hsmall : image.pixels < 2 ^ 31 := toInt_lt _
  have hnext : toInt ((i : ℤ) + image.width) = i + image.width - 2 ^ 32 := by
    have hcast : (i : ℤ) + image.width = (i + image.width.toNat : ℕ) := by omega
    simp only [INT_MAX] at hmax
    rw [hcast, toInt_of_le (by omega) (by omega)]
  rw [blocksColumn, if_pos (by omega), if_pos (Int.natCast_nonneg i), hnext, ← hi, blocksColumn,
    if_pos, if_neg]
  · simp only [INT_MAX] at hmax
    omega
  · change _ < image.pixels
    simp only [INT_MAX] at hmax
    omega

theorem blocksColumns_eq_none {last : ℕ} (fuel : ℕ) (image : Image) (i : ℕ)
    (hlast : endColumn context image = last) (hi : i < image.size) (hend : image.size ≤ last)
    (hwidth : image.size ≤ image.width) (hmax : image.width ≤ INT_MAX)
    (hsteps : 2 ^ 31 < image.size + image.width) (hfuel : image.size ≤ i + fuel) :
    blocksColumns context image i fuel = none := by
  induction fuel generalizing image i with
  | zero => omega
  | succ fuel ih =>
    rw [blocksColumns, if_pos ⟨by omega, by omega⟩]
    cases hcolumn : blocksColumn image i (image.size + 1) with
    | none => rfl
    | some next =>
      obtain ⟨hwidth', hheight'⟩ := blocksColumn_sides hcolumn
      have hsize' : next.size = image.size := Image.size_congr hwidth' hheight'
      have hlt : i + 1 < image.size := by
        by_contra hge
        rw [blocksColumn_eq_none (by omega) hmax hsteps] at hcolumn
        cases hcolumn
      have hpixels := Image.pixels_eq_size (by omega : 0 < image.size)
      have hsmall : image.pixels < 2 ^ 31 := toInt_lt _
      have hnext : toInt ((i : ℤ) + 1) = (i + 1 : ℕ) := by
        rw [← Nat.cast_add_one, toInt_of_nat (by omega)]
      have hlast' : endColumn context next = last := by
        rw [← hlast, endColumn, endColumn, coeff_congr hwidth']
      rw [← hsize'] at hlt hend hwidth hsteps hfuel
      rw [← hwidth'] at hwidth hmax hsteps
      rw [Option.bind_some, hnext]
      exact ih next (i + 1) hlast' hlt hend hwidth hmax hsteps (hfuel.trans (by omega))

/-- The thread of the last cell's column. -/
theorem Loaded.startRoutineBlocks_eq_none {T : ℕ} (hloaded : Loaded T image) {t : Fin T}
    (ht : t.val = (image.size - 1) / columns T image.width) (hsteps : ¬ StepsInside image) :
    startRoutineBlocks (Numbers.context t) image = none := by
  simp only [StepsInside, not_or, not_le] at hsteps
  obtain ⟨hwidth, hpos, hsum⟩ := hsteps
  have hsize : 0 < image.size := by
    rw [Image.size]
    omega
  have hpixels := Image.pixels_eq_size hsize
  have hle := hloaded.pixels_le
  have hmax := hloaded.width_le
  simp only [MAX_PIXELS] at hle
  have hcolumns := columns_pos hloaded.threads_pos hwidth
  obtain ⟨hfirst, hlast⟩ := (Nat.div_eq_iff hcolumns).mp ht.symm
  have hsucc := Nat.add_one_mul t.val (columns T image.width)
  obtain ⟨hfirst', hend⟩ := hloaded.columns_eq t hwidth (by omega)
  rw [startRoutineBlocks, hfirst']
  exact blocksColumns_eq_none _ image _ hend (by omega) (by omega) (by omega) hmax (by omega)
    (by omega)

end Leaving

/-! ## The method `numbers` -/

section Routines

variable {T : ℕ} (image : Image) (t : Fin T)

theorem numbersIteration_eq (i : ℕ) : numbersIteration (Numbers.context t) image i =
    image.negateWhere fun k => k = i ∧ Selects image.pixel_max t (image.cells k) := by
  unfold numbersIteration
  split_ifs with hselects
  · change image.negateCell i = _
    rw [Image.negateCell_eq]
    apply Image.negateWhere_congr
    intro k
    constructor
    · rintro rfl
      exact ⟨rfl, hselects⟩
    · exact fun h => h.1
  · rw [Image.negateWhere_of_not]
    rintro k ⟨rfl, h⟩
    exact hselects h

theorem startRoutineNumbers_eq :
    startRoutineNumbers (Numbers.context t) image = some (image.negateWhere fun k =>
      k < image.size ∧ Selects image.pixel_max t (image.cells k)) := by
  have hloop : ∀ n, (List.range n).foldl (numbersIteration (Numbers.context t)) image =
      image.negateWhere fun k => k < n ∧ Selects image.pixel_max t (image.cells k) := by
    intro n
    induction n with
    | zero =>
      rw [Image.negateWhere_of_not]
      · rfl
      · exact fun k h => absurd h.1 (Nat.not_lt_zero k)
    | succ n ih =>
      rw [List.range_succ, List.foldl_append, ih, List.foldl_cons, List.foldl_nil,
        numbersIteration_eq]
      -- the cell is still as it was
      rw [Image.negateWhere_congr _ (Q := fun k => k = n ∧ Selects image.pixel_max t (image.cells k)),
        Image.negateWhere_negateWhere]
      · apply Image.negateWhere_congr
        intro k
        rw [Nat.lt_succ_iff_lt_or_eq]
        tauto
      · rintro k ⟨hlt, _⟩ ⟨rfl, _⟩
        exact Nat.lt_irrefl _ hlt
      · intro k
        apply and_congr_right
        rintro rfl
        simp [Image.negateWhere]
  exact congrArg some (hloop image.size)

end Routines

/-! ## Threads one after another -/

section Order

variable {T : ℕ} {image : Image}

variable (image) in
/-- The cells after all threads, when each thread decides by the cell. -/
theorem exists_negateInOrder {routine : Context → Image → Option Image}
    (P : Fin T → ℕ → UInt8 → Prop) [∀ t k c, Decidable (P t k c)]
    (hroutine : ∀ cells t, routine (Numbers.context t) { image with cells := cells } =
      some ({ image with cells := cells }.negateWhere fun k => P t k (cells k)))
    (order : List (Fin T)) : ∃ result, negateInOrder routine order image = some result ∧
      ∀ k, result.cells k = order.foldl
        (fun c t => if P t k c then negated image.pixel_max c else c) (image.cells k) := by
  have hall : ∀ cells, ∃ result,
      negateInOrder routine order { image with cells := cells } = some result ∧
      ∀ k, result.cells k = order.foldl
        (fun c t => if P t k c then negated image.pixel_max c else c) (cells k) := by
    induction order with
    | nil => exact fun cells => ⟨_, rfl, fun _ => rfl⟩
    | cons t order ih =>
      intro cells
      rw [negateInOrder, List.foldlM_cons, hroutine]
      exact ih _
  exact hall image.cells

theorem negateInOrder_of_forall {routine : Context → Image → Option Image} {order : List (Fin T)}
    (h : ∀ t ∈ order, routine (Numbers.context t) image = some image) :
    negateInOrder routine order image = some image := by
  induction order with
  | nil => rfl
  | cons t order ih =>
    rw [List.forall_mem_cons] at h
    rw [negateInOrder, List.foldlM_cons, h.1]
    exact ih h.2

/-- In a run of `block` that ends no thread leaves the array. -/
theorem isSome_of_negateInOrder {order : List (Fin T)} {image result : Image}
    (h : negateInOrder startRoutineBlocks order image = some result) {t : Fin T} (ht : t ∈ order) :
    ∃ image' : Image, image'.width = image.width ∧ image'.height = image.height ∧
      startRoutineBlocks (Numbers.context t) image' ≠ none := by
  induction order generalizing image with
  | nil => cases ht
  | cons first order ih =>
    rw [negateInOrder, List.foldlM_cons] at h
    obtain ⟨next, hnext, h⟩ := Option.bind_eq_some_iff.mp h
    rcases List.mem_cons.mp ht with rfl | ht
    · exact ⟨image, rfl, rfl, by rw [hnext]; rintro ⟨⟩⟩
    · obtain ⟨hwidth, hheight⟩ := blocksColumns_sides hnext
      obtain ⟨image', hwidth', hheight', hsome⟩ := ih h ht
      exact ⟨image', hwidth'.trans hwidth, hheight'.trans hheight, hsome⟩

variable {pixel_max : ℤ} {c : UInt8} {P : Fin T → UInt8 → Prop} [∀ t c, Decidable (P t c)]

/-- The byte after the threads of `order`. -/
def foldBytes (pixel_max : ℤ) (P : Fin T → UInt8 → Prop) [∀ t c, Decidable (P t c)]
    (order : List (Fin T)) (c : UInt8) : UInt8 :=
  order.foldl (fun c t => if P t c then negated pixel_max c else c) c

theorem foldBytes_of_forall_not {order : List (Fin T)} (h : ∀ t ∈ order, ¬ P t c) :
    foldBytes pixel_max P order c = c := by
  induction order with
  | nil => rfl
  | cons t order ih =>
    rw [foldBytes, List.foldl_cons, if_neg (h t (by simp))]
    exact ih fun t' ht' => h t' (by simp [ht'])

theorem foldBytes_append (order order' : List (Fin T)) (c : UInt8) :
    foldBytes pixel_max P (order ++ order') c =
      foldBytes pixel_max P order' (foldBytes pixel_max P order c) :=
  List.foldl_append

theorem foldBytes_cons {t : Fin T} (ht : P t c) (order : List (Fin T)) :
    foldBytes pixel_max P (t :: order) c = foldBytes pixel_max P order (negated pixel_max c) := by
  rw [foldBytes, List.foldl_cons, if_pos ht]
  rfl

theorem foldBytes_of_first {before after : List (Fin T)} {t : Fin T} (hbefore : ∀ x ∈ before, ¬ P x c)
    (ht : P t c) : foldBytes pixel_max P (before ++ t :: after) c =
      foldBytes pixel_max P after (negated pixel_max c) := by
  rw [foldBytes_append, foldBytes_of_forall_not hbefore, foldBytes_cons ht]

end Order

section Numbers

variable {T : ℕ} {pixel_max : ℤ} {c : UInt8} {order : List (Fin T)}

theorem selects_unique {t t' : Fin T} (h : Selects pixel_max t c) (h' : Selects pixel_max t' c) :
    t = t' := by
  apply Fin.ext
  have hval : (t.val : ℤ) = t'.val := h.symm.trans h'
  exact_mod_cast hval

theorem foldBytes_of_selects {t : Fin T} (ht : Selects pixel_max t c) (hnot : t ∉ order) :
    foldBytes pixel_max (Selects pixel_max) order c = c := by
  apply foldBytes_of_forall_not
  intro x hx hselects
  rw [selects_unique hselects ht] at hx
  exact hnot hx

theorem NegatedOnce.after {before after : List (Fin T)} {t : Fin T}
    (ht : Selects pixel_max t c) (hbefore : t ∉ before) (hafter : t ∉ after)
    (h : NegatedOnce pixel_max (before ++ t :: after) c) :
    ∀ t' ∈ after, ¬ Selects pixel_max t' (negated pixel_max c) := by
  obtain ⟨before', t', after', hsplit, ht', hleft⟩ := h
  obtain rfl := selects_unique ht ht'
  obtain ⟨-, -, hsame⟩ := (List.append_cons_inj_of_notMem hbefore hafter).mp hsplit
  exact hsame ▸ hleft

/-- A cell of `numbers` is negated, or as before: never negated, or negated twice. -/
theorem foldBytes_selects (hnodup : order.Nodup) :
    (NegatedOnce pixel_max order c ∧ foldBytes pixel_max (Selects pixel_max) order c =
      negated pixel_max c) ∨
    (¬ NegatedOnce pixel_max order c ∧ foldBytes pixel_max (Selects pixel_max) order c = c) := by
  by_cases hexists : ∃ t ∈ order, Selects pixel_max t c
  · obtain ⟨t, hmem, ht⟩ := hexists
    obtain ⟨before, after, rfl⟩ := List.append_of_mem hmem
    rw [List.nodup_middle, List.nodup_cons, List.mem_append, not_or] at hnodup
    obtain ⟨⟨hnotBefore, hnotAfter⟩, hrest⟩ := hnodup
    have hbefore : ∀ x ∈ before, ¬ Selects pixel_max x c := by
      intro x hx hselects
      exact hnotBefore (selects_unique hselects ht ▸ hx)
    rw [foldBytes_of_first hbefore ht]
    by_cases hagain : ∃ t' ∈ after, Selects pixel_max t' (negated pixel_max c)
    · right
      obtain ⟨t', hmem', ht'⟩ := hagain
      refine ⟨fun honce => honce.after ht hnotBefore hnotAfter t' hmem' ht', ?_⟩
      obtain ⟨between, last, rfl⟩ := List.append_of_mem hmem'
      have hnodupAfter := (List.nodup_append.mp hrest).2.1
      rw [List.nodup_middle, List.nodup_cons, List.mem_append, not_or] at hnodupAfter
      have hbetween : ∀ x ∈ between, ¬ Selects pixel_max x (negated pixel_max c) := by
        intro x hx hselects
        exact hnodupAfter.1.1 (selects_unique hselects ht' ▸ hx)
      rw [foldBytes_of_first hbetween ht', negated_negated]
      apply foldBytes_of_selects ht
      intro hlast
      apply hnotAfter
      simp [hlast]
    · left
      push Not at hagain
      exact ⟨⟨before, t, after, rfl, ht, hagain⟩, foldBytes_of_forall_not hagain⟩
  · right
    push Not at hexists
    refine ⟨?_, foldBytes_of_forall_not hexists⟩
    rintro ⟨before, t, after, rfl, ht, _⟩
    exact hexists t (by simp) ht

end Numbers

theorem foldBytes_blocks {T : ℕ} {pixel_max : ℤ} {order : List (Fin T)} (hnodup : order.Nodup)
    {t : Fin T} (ht : t ∈ order) (c : UInt8) :
    foldBytes pixel_max (fun t' _ => t.val = t'.val) order c = negated pixel_max c := by
  obtain ⟨before, after, rfl⟩ := List.append_of_mem ht
  rw [List.nodup_middle, List.nodup_cons, List.mem_append, not_or] at hnodup
  obtain ⟨⟨hnotBefore, hnotAfter⟩, -⟩ := hnodup
  have hother : ∀ order' : List (Fin T), t ∉ order' → ∀ x ∈ order', t.val ≠ x.val := by
    intro order' hnot x hx heq
    exact hnot (Fin.ext heq ▸ hx)
  rw [foldBytes_of_first (hother before hnotBefore) rfl,
    foldBytes_of_forall_not (hother after hnotAfter)]

/-! ## Agreement -/

section Agreement

variable {T : ℕ} {image : Image}

variable (image) in
theorem exists_numbers (order : List (Fin T)) :
    ∃ numbers, negateInOrder startRoutineNumbers order image = some numbers ∧
      ∀ k, numbers.cells k = foldBytes image.pixel_max
        (fun t c => k < image.size ∧ Selects image.pixel_max t c) order (image.cells k) :=
  exists_negateInOrder image (fun t k c => k < image.size ∧ Selects image.pixel_max t c)
    (fun _ t => startRoutineNumbers_eq _ t) order

variable (image) in
theorem foldBytes_numbers_cases {order : List (Fin T)} (horder : order.Perm (List.finRange T))
    (c : UInt8) : (NegatedOnce image.pixel_max order c ∧
      foldBytes image.pixel_max (Selects image.pixel_max) order c = negated image.pixel_max c) ∨
    (¬ NegatedOnce image.pixel_max order c ∧
      foldBytes image.pixel_max (Selects image.pixel_max) order c = c) :=
  foldBytes_selects (horder.nodup_iff.mpr (List.nodup_finRange T))

theorem column_lt (hT : 0 < T) (hwidth : 0 < image.width) (k : ℕ) :
    k % image.width.toNat / columns T image.width < T := by
  have hpos := columns_pos hT hwidth
  have hle := (columns_bounds hT hwidth.le).1
  have hmod : k % image.width.toNat < image.width.toNat := Nat.mod_lt k (by omega)
  rw [Nat.div_lt_iff_lt_mul hpos, mul_comm]
  zify
  omega

/-- In a run of `block` that ends no thread starts before the array, or goes on there. -/
theorem Loaded.inside_of_negateInOrder (hloaded : Loaded T image) {order : List (Fin T)}
    (horder : order.Perm (List.finRange T)) {blocks : Image}
    (h : negateInOrder startRoutineBlocks order image = some blocks) :
    (∀ t : Fin T, StartsInside (Numbers.context t) image) ∧ StepsInside image := by
  have hmem : ∀ t, t ∈ order := fun t => horder.mem_iff.mpr (List.mem_finRange t)
  constructor
  · intro t
    obtain ⟨image', hwidth, hheight, hsome⟩ := isSome_of_negateInOrder h (hmem t)
    by_contra hoff
    rw [← startsInside_congr hwidth hheight] at hoff
    exact hsome (startRoutineBlocks_of_not_startsInside hoff)
  · by_contra hoff
    have hoff' := hoff
    simp only [StepsInside, not_or, not_le] at hoff'
    obtain ⟨hwidth, hpos, hsum⟩ := hoff'
    have hle := hloaded.pixels_le
    simp only [MAX_PIXELS] at hle
    have hlast : image.size - 1 < image.width.toNat := by
      rw [Image.size]
      omega
    have hlt := column_lt hloaded.threads_pos hwidth (image.size - 1)
    rw [Nat.mod_eq_of_lt hlast] at hlt
    obtain ⟨image', hwidth', hheight', hsome⟩ := isSome_of_negateInOrder h (hmem ⟨_, hlt⟩)
    refine hsome ((hloaded.congr hwidth' hheight').startRoutineBlocks_eq_none ?_ ?_)
    · rw [Image.size_congr hwidth' hheight', hwidth']
    · rwa [stepsInside_congr hwidth' hheight']

/-- In every cell of the image `block` leaves the negated byte. -/
theorem Loaded.exists_blocks (hloaded : Loaded T image) {order : List (Fin T)}
    (horder : order.Perm (List.finRange T))
    (hinside : ∀ t : Fin T, StartsInside (Numbers.context t) image) (hsteps : StepsInside image) :
    ∃ blocks, negateInOrder startRoutineBlocks order image = some blocks ∧
      ∀ k, blocks.cells k = if k < image.size ∧ 0 < image.width then
        negated image.pixel_max (image.cells k) else image.cells k := by
  rcases lt_or_ge 0 image.width with hwidth | hwidth
  · rcases Nat.eq_zero_or_pos image.size with hsize | hsize
    · -- no cells
      have hpixels : image.pixels ≤ 0 := by
        rw [Image.size] at hsize
        omega
      refine ⟨image, negateInOrder_of_forall fun t _ =>
        startRoutineBlocks_of_startsInside hpixels (hinside t), fun k => ?_⟩
      rw [if_neg fun h => by omega]
    · have hroutine : ∀ cells (t : Fin T),
          startRoutineBlocks (Numbers.context t) { image with cells := cells } =
            some ({ image with cells := cells }.negateWhere fun k =>
              k < image.size ∧ k % image.width.toNat / columns T image.width = t.val) := by
        intro cells t
        have hsame : Loaded T { image with cells := cells } := hloaded.congr rfl rfl
        exact hsame.startRoutineBlocks_eq t hwidth hsize (hinside t) hsteps
      obtain ⟨blocks, hblocks, hcells⟩ := exists_negateInOrder image
        (fun t k _ => k < image.size ∧ k % image.width.toNat / columns T image.width = t.val)
        hroutine order
      refine ⟨blocks, hblocks, fun k => ?_⟩
      have hnodup : order.Nodup := horder.nodup_iff.mpr (List.nodup_finRange T)
      have hmem := horder.mem_iff.mpr
        (List.mem_finRange ⟨_, column_lt hloaded.threads_pos hwidth k⟩)
      have hfold : blocks.cells k = foldBytes image.pixel_max
          (fun t _ => k < image.size ∧ k % image.width.toNat / columns T image.width = t.val) order
          (image.cells k) := hcells k
      rw [hfold]
      split_ifs with hk
      · simp only [hk.1, true_and]
        exact foldBytes_blocks hnodup hmem (image.cells k)
      · exact foldBytes_of_forall_not fun _ _ h => hk ⟨h.1, hwidth⟩
  · refine ⟨image, negateInOrder_of_forall fun t _ =>
      startRoutineBlocks_of_end_le (hloaded.endColumn_le t hwidth), fun k => ?_⟩
    rw [if_neg fun h => absurd h.2 (not_lt.mpr hwidth)]

end Agreement

/-- The two methods leave the same cells when they agree on every byte of the image, and no
thread of `block` starts before the array or goes on there. -/
theorem numbers_eq_blocks_iff {T : ℕ} (image : Image) (hloaded : Loaded T image)
    (order order' : List (Fin T)) (horder : order.Perm (List.finRange T))
    (horder' : order'.Perm (List.finRange T)) :
    SameCells image order order' ↔
      (∀ k < image.size, Agrees image order (image.cells k)) ∧
        (∀ t : Fin T, StartsInside (Numbers.context t) image) ∧ StepsInside image := by
  obtain ⟨numbers, hnumbers, hcells⟩ := exists_numbers image order
  have hbehind : ∀ k, image.size ≤ k → numbers.cells k = image.cells k := by
    intro k hk
    rw [hcells]
    exact foldBytes_of_forall_not fun _ _ h => absurd h.1 (not_lt.mpr hk)
  have hcell : ∀ k < image.size, numbers.cells k =
      (if k < image.size ∧ 0 < image.width then negated image.pixel_max (image.cells k)
        else image.cells k) ↔ Agrees image order (image.cells k) := by
    intro k hk
    rw [hcells, Agrees]
    simp only [hk, true_and]
    obtain ⟨honce, hfold⟩ | ⟨honce, hfold⟩ := foldBytes_numbers_cases image horder (image.cells k)
    · rw [hfold]
      split_ifs with hwidth
      · simp [honce, hwidth]
      · simp [honce, hwidth]
    · rw [hfold]
      split_ifs with hwidth
      · simp [honce, hwidth, eq_comm]
      · simp [honce, hwidth]
  constructor
  · rintro ⟨numbers', blocks, hnumbers', hblocks, hsame⟩
    obtain rfl := Option.some.inj (hnumbers.symm.trans hnumbers')
    have hinside := hloaded.inside_of_negateInOrder horder' hblocks
    obtain ⟨blocks', hblocks', hcells'⟩ := hloaded.exists_blocks horder' hinside.1 hinside.2
    obtain rfl := Option.some.inj (hblocks.symm.trans hblocks')
    refine ⟨fun k hk => (hcell k hk).mp ?_, hinside⟩
    rw [hsame, hcells']
  · rintro ⟨hagrees, hinside, hsteps⟩
    obtain ⟨blocks, hblocks, hcells'⟩ := hloaded.exists_blocks horder' hinside hsteps
    refine ⟨numbers, blocks, hnumbers, hblocks, fun k => ?_⟩
    rw [hcells']
    rcases lt_or_ge k image.size with hk | hk
    · exact (hcell k hk).mpr (hagrees k hk)
    · rw [hbehind k hk, if_neg fun h => absurd h.1 (not_lt.mpr hk)]

/-- Two threads and the cells 0 and 3, with the maximum 3. -/
theorem numbers_eq_blocks_iff_two : SameCells ⟨fun i => if i = 1 then 3 else 0, 1, 2, 3⟩
    ([1, 0] : List (Fin 2)) [0, 1] := by
  have hloaded : Loaded 2 ⟨fun i => if i = 1 then 3 else 0, 1, 2, 3⟩ :=
    ⟨by decide, by decide, by decide, by decide, by decide⟩
  refine (numbers_eq_blocks_iff _ hloaded _ _ (by decide) (by decide)).mpr
    ⟨fun k hk => ?_, by decide, by decide⟩
  right
  rw [iff_true_right (by decide)]
  have hk' : k < 2 := hk
  refine ⟨[1], 0, [], rfl, ?_, by simp⟩
  interval_cases k <;> decide

/-- A cell 1 above the maximum 0: its class -1 belongs to no thread. -/
theorem numbers_ne_blocks : ¬ SameCells ⟨fun _ => 1, 1, 1, 0⟩ ([0, 1] : List (Fin 2)) [0, 1] := by
  rintro ⟨numbers, blocks, hnumbers, hblocks, hsame⟩
  have hleft : (negateInOrder startRoutineNumbers ([0, 1] : List (Fin 2))
      ⟨fun _ => 1, 1, 1, 0⟩).map (fun image => image.cells 0) = some 1 := by decide +kernel
  have hright : (negateInOrder startRoutineBlocks ([0, 1] : List (Fin 2))
      ⟨fun _ => 1, 1, 1, 0⟩).map (fun image => image.cells 0) = some 255 := by decide +kernel
  rw [hnumbers, Option.map_some, Option.some.injEq] at hleft
  rw [hblocks, Option.map_some, Option.some.injEq] at hright
  have hcell := hsame 0
  rw [hleft, hright] at hcell
  exact absurd hcell (by decide)

end Sysopy.Negate
