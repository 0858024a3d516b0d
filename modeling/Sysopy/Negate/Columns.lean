import Sysopy.Negate.Blocks
import Sysopy.Negate.Files
import Sysopy.Library.Family

/-!
# The method `block`, thread by thread

The threads of `start_routine_blocks` at the same time. A thread reads a cell in one step
and stores the difference in another. Each column is in the range of one thread, whatever
the width and the number of threads. The ranges are products of `int`s, which wrap around:
with a height of zero the width is not bounded by the number of cells, and a thread can
start at a negative column.
-/
namespace Sysopy.Negate

open Transition CInteger Family

/-- Where a thread stands: at the head of one of the loops, between reading the cell `j`
and the store, or outside of the array. -/
inductive Place
  | created
  | column (i : ℤ)
  | cell (i j : ℤ)
  | storing (i j value : ℤ)
  | astray
  | finished
  deriving DecidableEq

/-- The image, the places of the threads, and the stores done so far as pairs of the thread
and the cell. -/
structure Columns (T : ℕ) where
  image : Image
  place : Fin T → Place
  stores : List (Fin T × ℕ)

namespace Columns

variable {T : ℕ}

def start (image : Image) : Columns T := ⟨image, fun _ => .created, []⟩

def first (image : Image) (t : Fin T) : ℤ := firstColumn (Numbers.context t) image

def bound (image : Image) (t : Fin T) : ℤ := endColumn (Numbers.context t) image

def moveTo (s : Columns T) (t : Fin T) (place : Place) : Columns T :=
  { s with place := Function.update s.place t place }

@[simp] theorem place_moveTo_self (s : Columns T) (t : Fin T) (place : Place) :
    (s.moveTo t place).place t = place :=
  Function.update_self _ _ _

@[simp] theorem place_moveTo_of_ne (s : Columns T) {t t' : Fin T} (place : Place) (h : t' ≠ t) :
    (s.moveTo t place).place t' = s.place t' :=
  Function.update_of_ne h _ _

/-- The next step of thread `t` in `start_routine_blocks`. -/
def step (s : Columns T) (t : Fin T) : Option (Columns T) :=
  match s.place t with
  | .created => some (s.moveTo t (.column (first s.image t)))
  | .column i =>
    some (s.moveTo t (if i < bound s.image t ∧ i < s.image.width then .cell i i else .finished))
  | .cell i j =>
    some (s.moveTo t
      (if j < s.image.pixels then
        if 0 ≤ j then .storing i j (s.image.pixel_max - s.image.cell j.toNat) else .astray
      else .column (toInt (i + 1))))
  | .storing i j value =>
    some ({ s with
      image := s.image.store j.toNat value
      stores := s.stores ++ [(t, j.toNat)] }.moveTo t (.cell i (toInt (j + s.image.width))))
  | .astray | .finished => none

/-- All threads are through their loops. -/
def Finished (s : Columns T) : Prop := ∀ t, s.place t = .finished

/-- The stores that hit cell `k`. -/
def storesAt (s : Columns T) (k : ℕ) : List (Fin T × ℕ) := s.stores.filter fun store => store.2 = k

/-- In every interleaving each cell of the image is replaced once, and nothing else is
touched; every run ends, and it ends with all threads through. -/
structure Negates (T : ℕ) (image : Image) : Prop where
  inside : ∀ (schedule : List (Fin T)) (s : Columns T), exec step (start image) schedule = some s →
    (∀ t, s.place t ≠ .astray) ∧ (∀ k, (s.storesAt k).length ≤ 1) ∧
      ∀ k, image.size ≤ k → s.storesAt k = [] ∧ s.image.cells k = image.cells k
  once : ∀ (schedule : List (Fin T)) (s : Columns T), exec step (start image) schedule = some s →
    s.Finished → ∀ k < image.size, (∃ t, s.storesAt k = [(t, k)]) ∧
      s.image.cell k = (image.pixel_max - image.cell k) % 256
  goesOn : ∀ (schedule : List (Fin T)) (s : Columns T), exec step (start image) schedule = some s →
    ¬ s.Finished → ∃ t s', step s t = some s'
  ends : ∃ n, ∀ (schedule : List (Fin T)) (s : Columns T),
    exec step (start image) schedule = some s → schedule.length ≤ n

/-- The `int`s that `negate` gets. -/
structure Sizes (T : ℕ) (image : Image) : Prop where
  threads_pos : 0 < T
  threads_le : (T : ℤ) ≤ INT_MAX
  width_nonneg : 0 ≤ image.width
  width_le : image.width ≤ INT_MAX
  height_nonneg : 0 ≤ image.height
  pixels : image.width * image.height ≤ MAX_PIXELS

/-! ## Products of the source -/

section Sizes

variable {image : Image} (hsizes : Sizes T image) (t : Fin T)

include hsizes

theorem Sizes.coeff_eq : coeff (Numbers.context t) image = columns T image.width :=
  (columns_bounds hsizes.threads_pos hsizes.width_nonneg).2.2.symm

theorem Sizes.pixels_eq : image.pixels = image.width * image.height :=
  Image.pixels_eq hsizes.width_nonneg hsizes.height_nonneg (hsizes.pixels.trans (by decide))

theorem Sizes.width_le_size (hsize : 0 < image.size) :
    0 < image.width ∧ 0 < image.height ∧ image.width ≤ image.size ∧ image.size ≤ MAX_PIXELS := by
  have hw := hsizes.width_nonneg
  have hh := hsizes.height_nonneg
  have hpixels := hsizes.pixels
  rw [Image.size, hsizes.pixels_eq] at hsize ⊢
  have hwidth : 0 < image.width := by
    rcases hw.lt_or_eq with hlt | heq
    · exact hlt
    · rw [← heq, zero_mul] at hsize
      exact absurd hsize (by decide)
  have hheight : 0 < image.height := by
    rcases hh.lt_or_eq with hlt | heq
    · exact hlt
    · rw [← heq, mul_zero] at hsize
      exact absurd hsize (by decide)
  have hle : image.width ≤ image.width * image.height := le_mul_of_one_le_right hw hheight
  refine ⟨hwidth, hheight, ?_, ?_⟩ <;> omega

theorem Sizes.columns_mul_le (hsize : 0 < image.size) :
    (columns T image.width : ℤ) * T ≤ INT_MAX := by
  obtain ⟨hwidth, _, hle, hpixels⟩ := hsizes.width_le_size hsize
  exact Negate.columns_mul_le hsizes.threads_pos hsizes.threads_le hwidth (by omega)

theorem Sizes.bound_eq (hsize : 0 < image.size) :
    bound image t = ((t.val + 1) * columns T image.width : ℕ) := by
  have hmul := hsizes.columns_mul_le hsize
  have hle : (t.val + 1) * columns T image.width ≤ T * columns T image.width :=
    Nat.mul_le_mul_right _ t.isLt
  have hle' : ((t.val + 1) * columns T image.width : ℕ) ≤ (columns T image.width : ℤ) * T := by
    rw [mul_comm (columns T image.width : ℤ)]
    exact_mod_cast hle
  have hvalue : ((Numbers.context t).index + 1) * coeff (Numbers.context t) image =
      ((t.val + 1) * columns T image.width : ℕ) := by
    rw [hsizes.coeff_eq]
    push_cast
    rfl
  rw [bound, endColumn, hvalue, toInt_eq_self (by omega) (by omega)]

theorem Sizes.first_eq
    (hstart : 0 < image.height ∨ ((T : ℤ) - 1) * columns T image.width ≤ INT_MAX) :
    first image t = (t.val * columns T image.width : ℕ) := by
  have hlast : ((T : ℤ) - 1) * columns T image.width ≤ INT_MAX := by
    rcases hstart with hheight | hlast
    · rcases hsizes.width_nonneg.lt_or_eq with hwidth | hwidth
      · have hsize : 0 < image.size := by
          have hmul := mul_pos hwidth hheight
          rw [Image.size, hsizes.pixels_eq]
          omega
        have hmul := hsizes.columns_mul_le hsize
        have hcolumns := Int.natCast_nonneg (columns T image.width)
        rw [sub_mul, one_mul, mul_comm]
        omega
      · have hzero : columns T image.width = 0 := by
          rw [← hwidth]
          simp [columns]
        rw [hzero]
        simp [INT_MAX]
    · exact hlast
  have hle : t.val * columns T image.width ≤ (T - 1) * columns T image.width := by
    apply Nat.mul_le_mul_right
    have hlt := t.isLt
    omega
  have hle' : (t.val * columns T image.width : ℕ) ≤ ((T : ℤ) - 1) * columns T image.width := by
    have hcast : ((T : ℤ) - 1) = ((T - 1 : ℕ) : ℤ) := by
      have hpos := hsizes.threads_pos
      omega
    rw [hcast]
    exact_mod_cast hle
  have hvalue : (Numbers.context t).index * coeff (Numbers.context t) image =
      (t.val * columns T image.width : ℕ) := by
    rw [hsizes.coeff_eq]
    push_cast
    rfl
  rw [first, firstColumn, hvalue, toInt_eq_self (by omega) (by omega)]

end Sizes

/-! ## Every interleaving -/

/-- Thread `t` has the column of cell `k`. -/
def Owns (image : Image) (t : Fin T) (k : ℕ) : Prop :=
  k % image.width.toNat / columns T image.width = t

/-- The loops of a thread are past the cell `k`. -/
def Passed (image : Image) (k : ℕ) : Place → Prop
  | .created | .astray => False
  | .column i => (k % image.width.toNat : ℕ) < i
  | .cell i j | .storing i j _ =>
    (k % image.width.toNat : ℕ) < i ∨ (k % image.width.toNat : ℕ) = i ∧ (k : ℤ) < j
  | .finished => True

/-- The inner loop of thread `t` is in one of its columns. -/
structure InColumn (image : Image) (t : Fin T) (i j : ℤ) : Prop where
  first_le : (t.val * columns T image.width : ℕ) ≤ i
  lt_bound : 0 < image.size → i < ((t.val + 1) * columns T image.width : ℕ)
  lt_width : i < image.width
  row : ∃ r : ℕ, j = i + r * image.width

/-- What is true of a thread at a place. -/
def Placed (image : Image) (t : Fin T) : Place → Prop
  | .created | .finished => True
  | .astray => False
  | .column i => (t.val * columns T image.width : ℕ) ≤ i
  | .cell i j => InColumn image t i j
  | .storing i j value => InColumn image t i j ∧ j < image.pixels ∧
      value = image.pixel_max - image.cell j.toNat

/-- A cell is untouched until its thread has passed it, and replaced by one store of the
thread afterwards. -/
structure Inv (image : Image) (s : Columns T) : Prop where
  width : s.image.width = image.width
  height : s.image.height = image.height
  pixel_max : s.image.pixel_max = image.pixel_max
  placed : ∀ t, Placed image t (s.place t)
  before : ∀ t, ∀ k < image.size, Owns image t k → ¬ Passed image k (s.place t) →
    s.image.cells k = image.cells k ∧ s.storesAt k = []
  after : ∀ t, ∀ k < image.size, Owns image t k → Passed image k (s.place t) →
    s.image.cell k = (image.pixel_max - image.cell k) % 256 ∧ s.storesAt k = [(t, k)]
  outside : ∀ k, image.size ≤ k → s.image.cells k = image.cells k ∧ s.storesAt k = []

theorem inv_start (image : Image) : Inv image (start image : Columns T) where
  width := rfl
  height := rfl
  pixel_max := rfl
  placed _ := trivial
  before _ _ _ _ _ := ⟨rfl, rfl⟩
  after _ _ _ _ h := h.elim
  outside _ _ := ⟨rfl, rfl⟩

section Cells

variable {image : Image} {t t' : Fin T} {k : ℕ}

theorem Owns.unique (h : Owns image t k) (h' : Owns image t' k) : t = t' :=
  Fin.ext (h.symm.trans h')

theorem owns_iff (hcolumns : 0 < columns T image.width) :
    Owns image t k ↔ t.val * columns T image.width ≤ k % image.width.toNat ∧
      k % image.width.toNat < (t.val + 1) * columns T image.width := by
  have hsucc : (t.val + 1) * columns T image.width =
      t.val * columns T image.width + columns T image.width := by
    rw [add_mul, one_mul]
  rw [Owns, Nat.div_eq_iff hcolumns]
  omega

theorem InColumn.cell {i j : ℤ} (h : InColumn image t i j) :
    0 ≤ i ∧ ∃ r : ℕ, j.toNat = i.toNat + r * image.width.toNat ∧ i ≤ j ∧
      j.toNat % image.width.toNat = i.toNat := by
  obtain ⟨r, hrow⟩ := h.row
  have hfirst := h.first_le
  have hwidth := h.lt_width
  have hi : 0 ≤ i := by omega
  have hmul : (0 : ℤ) ≤ r * image.width := mul_nonneg (by omega) (by omega)
  have hcell : j.toNat = i.toNat + r * image.width.toNat := by
    zify
    rw [Int.toNat_of_nonneg hi, Int.toNat_of_nonneg (by omega), Int.toNat_of_nonneg (by omega)]
    exact hrow
  refine ⟨hi, r, hcell, by omega, ?_⟩
  rw [hcell, Nat.add_mul_mod_self_right, Nat.mod_eq_of_lt (by omega)]

theorem InColumn.owns {i j : ℤ} (h : InColumn image t i j) (hsize : 0 < image.size)
    (hcolumns : 0 < columns T image.width) : Owns image t j.toNat := by
  obtain ⟨hi, r, _, _, hmod⟩ := h.cell
  have hfirst := h.first_le
  have hbound := h.lt_bound hsize
  rw [owns_iff hcolumns, hmod]
  omega

theorem InColumn.lt_next_iff {i j : ℤ} (h : InColumn image t i j)
    (hk : (k % image.width.toNat : ℕ) = i) :
    (k : ℤ) < j + image.width ↔ (k : ℤ) < j ∨ k = j.toNat := by
  obtain ⟨hi, r, hcell, hle, _⟩ := h.cell
  have hwidth := h.lt_width
  have hsplit := Nat.div_add_mod k image.width.toNat
  have hmod : k % image.width.toNat = i.toNat := by omega
  constructor
  · intro hlt
    rcases lt_or_ge (k : ℤ) j with hless | hge
    · exact .inl hless
    · right
      have hupper : image.width.toNat * (k / image.width.toNat) < image.width.toNat * (r + 1) := by
        rw [mul_add, mul_one, mul_comm _ r]
        omega
      have hlower : image.width.toNat * r ≤ image.width.toNat * (k / image.width.toNat) := by
        rw [mul_comm _ r]
        omega
      have hdiv : k / image.width.toNat = r := by
        have hlt' := Nat.lt_of_mul_lt_mul_left hupper
        have hle' := Nat.le_of_mul_le_mul_left hlower (by omega)
        omega
      rw [hdiv, mul_comm] at hsplit
      omega
  · rintro (hless | rfl) <;> omega

theorem InColumn.lt_size {i j : ℤ} (h : InColumn image t i j) (hlt : j < image.pixels) :
    j.toNat < image.size := by
  obtain ⟨hi, _, _, hle, _⟩ := h.cell
  unfold Image.size
  omega

/-- With the store to its cell, the thread gets past this one and no other. -/
theorem InColumn.passed_iff {i j value : ℤ} (h : InColumn image t i j) :
    Passed image k (.cell i (j + image.width)) ↔
      Passed image k (.storing i j value) ∨ k = j.toNat := by
  obtain ⟨hi, _, _, _, hmod⟩ := h.cell
  by_cases hk : (k % image.width.toNat : ℕ) = i
  · have hstep := h.lt_next_iff hk
    simp only [Passed]
    rw [hstep]
    omega
  · have hne : k ≠ j.toNat := by
      rintro rfl
      omega
    simp only [Passed, hk, hne, false_and, or_false]

end Cells

/-! ### Steps -/

section Steps

variable {image : Image} {s s' : Columns T} {t : Fin T}

theorem Sizes.columns_pos (hsizes : Sizes T image) (hsize : 0 < image.size) :
    0 < columns T image.width :=
  Negate.columns_pos hsizes.threads_pos (hsizes.width_le_size hsize).1

theorem Inv.moveTo (hs : Inv image s) {place : Place} (hplaced : Placed image t place)
    (hpassed : ∀ k < image.size, Owns image t k →
      (Passed image k place ↔ Passed image k (s.place t))) :
    Inv image (s.moveTo t place) := by
  refine ⟨hs.width, hs.height, hs.pixel_max, fun t' => ?_, fun t' k hk howns hnot => ?_,
    fun t' k hk howns hpast => ?_, hs.outside⟩
  · by_cases ht : t' = t
    · subst ht
      rwa [place_moveTo_self]
    · rw [place_moveTo_of_ne _ _ ht]
      exact hs.placed t'
  · by_cases ht : t' = t
    · subst ht
      rw [place_moveTo_self, hpassed k hk howns] at hnot
      exact hs.before t' k hk howns hnot
    · rw [place_moveTo_of_ne _ _ ht] at hnot
      exact hs.before t' k hk howns hnot
  · by_cases ht : t' = t
    · subst ht
      rw [place_moveTo_self, hpassed k hk howns] at hpast
      exact hs.after t' k hk howns hpast
    · rw [place_moveTo_of_ne _ _ ht] at hpast
      exact hs.after t' k hk howns hpast

theorem storesAt_store (s : Columns T) (image' : Image) (place : Fin T → Place) (t : Fin T)
    (k k' : ℕ) : storesAt ⟨image', place, s.stores ++ [(t, k)]⟩ k' =
      if k = k' then s.storesAt k' ++ [(t, k)] else s.storesAt k' := by
  by_cases h : k = k' <;> simp [storesAt, h]

/-- What the next step of a thread does, in numbers that are no longer `int`s. -/
inductive Next (image : Image) (s : Columns T) (t : Fin T) : Columns T → Prop
  | start (hat : s.place t = .created) :
      Next image s t (s.moveTo t (.column (t.val * columns T image.width : ℕ)))
  | enter (i : ℤ) (hat : s.place t = .column i) (hwidth : i < image.width)
      (hbound : 0 < image.size → i < ((t.val + 1) * columns T image.width : ℕ)) :
      Next image s t (s.moveTo t (.cell i i))
  | finish (i : ℤ) (hat : s.place t = .column i) (hlast : 0 < image.size →
      ((t.val + 1) * columns T image.width : ℕ) ≤ i ∨ image.width ≤ i) :
      Next image s t (s.moveTo t .finished)
  | read (i j : ℤ) (hat : s.place t = .cell i j) (hlt : j < image.pixels) :
      Next image s t (s.moveTo t (.storing i j (image.pixel_max - s.image.cell j.toNat)))
  | column (i j : ℤ) (hat : s.place t = .cell i j) (hend : image.pixels ≤ j) :
      Next image s t (s.moveTo t (.column (i + 1)))
  | store (i j value : ℤ) (hat : s.place t = .storing i j value) :
      Next image s t ({ s with
        image := s.image.store j.toNat value
        stores := s.stores ++ [(t, j.toNat)] }.moveTo t (.cell i (j + image.width)))

theorem Inv.bound_eq (hsizes : Sizes T image) (hs : Inv image s) (t : Fin T)
    (hsize : 0 < image.size) : bound s.image t = ((t.val + 1) * columns T image.width : ℕ) := by
  rw [← hsizes.bound_eq t hsize]
  simp only [bound, endColumn, coeff, hs.width]

theorem Inv.toInt_eq (hsizes : Sizes T image) (hs : Inv image s) :
    (∀ i j, s.place t = .cell i j → toInt (i + 1) = i + 1) ∧
      ∀ i j value, s.place t = .storing i j value →
        toInt (j + s.image.width) = j + image.width := by
  have hplaced := hs.placed t
  constructor
  · intro i j hat
    rw [hat] at hplaced
    have hi := hplaced.cell.1
    have hwidth := hplaced.lt_width
    have hmax := hsizes.width_le
    exact toInt_eq_self (by omega) (by omega)
  · intro i j value hat
    rw [hat] at hplaced
    obtain ⟨hcolumn, hlt, _⟩ := hplaced
    obtain ⟨hi, _, _, hle, _⟩ := hcolumn.cell
    have hj := hcolumn.lt_size hlt
    obtain ⟨hwidth, _, hwidthSize, hpixels⟩ := hsizes.width_le_size (by omega)
    have hmax : (image.size : ℤ) ≤ 8294400 := by exact_mod_cast hpixels
    rw [hs.width]
    apply toInt_eq_self
    · omega
    · simp only [INT_MAX]
      omega

theorem Inv.next (hsizes : Sizes T image)
    (hstart : 0 < image.height ∨ ((T : ℤ) - 1) * columns T image.width ≤ INT_MAX)
    (hs : Inv image s) (h : s.step t = some s') : Next image s t s' := by
  have hplaced := hs.placed t
  obtain ⟨hcolumn, hcell⟩ := hs.toInt_eq hsizes (t := t)
  unfold Columns.step at h
  split at h
  case h_1 hat =>
    obtain rfl := Option.some.inj h
    have hfirst : first s.image t = (t.val * columns T image.width : ℕ) := by
      rw [← hsizes.first_eq t hstart]
      simp only [first, firstColumn, coeff, hs.width]
    rw [hfirst]
    exact .start hat
  case h_2 i hat =>
    obtain rfl := Option.some.inj h
    rw [hs.width]
    split_ifs with hi
    · exact .enter i hat hi.2 fun hsize => hs.bound_eq hsizes t hsize ▸ hi.1
    · refine .finish i hat fun hsize => ?_
      rw [hs.bound_eq hsizes t hsize] at hi
      omega
  case h_3 i j hat =>
    obtain rfl := Option.some.inj h
    rw [hat] at hplaced
    obtain ⟨hi, _, _, hle, _⟩ := hplaced.cell
    rw [Image.pixels_congr hs.width hs.height, hs.pixel_max, hcolumn i j hat]
    split_ifs with hlt hj
    · exact .read i j hat hlt
    · omega
    · exact .column i j hat (not_lt.mp hlt)
  case h_4 i j value hat =>
    obtain rfl := Option.some.inj h
    rw [hcell i j value hat]
    exact .store i j value hat
  case h_5 | h_6 => cases h

theorem Inv.store (hsizes : Sizes T image) (hs : Inv image s) {i j value : ℤ}
    (hat : s.place t = .storing i j value) :
    Inv image ({ s with
      image := s.image.store j.toNat value
      stores := s.stores ++ [(t, j.toNat)] }.moveTo t (.cell i (j + image.width))) := by
  have hplaced := hs.placed t
  rw [hat] at hplaced
  obtain ⟨hcolumn, hlt, rfl⟩ := hplaced
  have hj := hcolumn.lt_size hlt
  have howner := hcolumn.owns (by omega) (hsizes.columns_pos (by omega))
  obtain ⟨hi, _, _, hle, hmod⟩ := hcolumn.cell
  obtain ⟨hcell, hstores⟩ := hs.before t j.toNat hj howner (by
    rw [hat]
    rintro (hless | ⟨_, hless⟩) <;> omega)
  have hpassed : ∀ k, Passed image k (.cell i (j + image.width)) ↔
      Passed image k (s.place t) ∨ k = j.toNat := by
    intro k
    rw [hat]
    exact hcolumn.passed_iff
  have hother : ∀ t', t' ≠ t → ∀ k, Owns image t' k → k ≠ j.toNat := by
    rintro t' ht k howns rfl
    exact ht (howns.unique howner)
  refine ⟨hs.width, hs.height, hs.pixel_max, fun t' => ?_, fun t' k hk howns hnot => ?_,
    fun t' k hk howns hpast => ?_, fun k hk => ?_⟩
  · by_cases ht : t' = t
    · subst ht
      rw [place_moveTo_self]
      obtain ⟨r, hrow⟩ := hcolumn.row
      refine ⟨hcolumn.first_le, hcolumn.lt_bound, hcolumn.lt_width, r + 1, ?_⟩
      rw [hrow]
      push_cast
      ring
    · rw [place_moveTo_of_ne _ _ ht]
      exact hs.placed t'
  · change (s.image.store j.toNat _).cells k = _ ∧ storesAt ⟨_, _, s.stores ++ [(t, j.toNat)]⟩ k = []
    have hk' : k ≠ j.toNat ∧ ¬ Passed image k (s.place t') := by
      by_cases ht : t' = t
      · subst ht
        rw [place_moveTo_self, hpassed, not_or] at hnot
        exact ⟨hnot.2, hnot.1⟩
      · rw [place_moveTo_of_ne _ _ ht] at hnot
        exact ⟨hother t' ht k howns, hnot⟩
    rw [storesAt_store, if_neg (Ne.symm hk'.1), Image.cells_store, if_neg hk'.1]
    exact hs.before t' k hk howns hk'.2
  · change (s.image.store j.toNat _).cell k = _ ∧
      storesAt ⟨_, _, s.stores ++ [(t, j.toNat)]⟩ k = [(t', k)]
    by_cases hkj : k = j.toNat
    · subst hkj
      obtain rfl := howns.unique howner
      rw [storesAt_store, if_pos rfl, hstores, Image.cell_store_self]
      exact ⟨rfl, rfl⟩
    · have hpast' : Passed image k (s.place t') := by
        by_cases ht : t' = t
        · subst ht
          rw [place_moveTo_self, hpassed] at hpast
          exact hpast.resolve_right hkj
        · rwa [place_moveTo_of_ne _ _ ht] at hpast
      rw [storesAt_store, if_neg (Ne.symm hkj), Image.cell_store_of_ne _ _ hkj]
      exact hs.after t' k hk howns hpast'
  · have hne : k ≠ j.toNat := by omega
    change (s.image.store j.toNat _).cells k = _ ∧ storesAt ⟨_, _, s.stores ++ [(t, j.toNat)]⟩ k = []
    rw [storesAt_store, if_neg (Ne.symm hne), Image.cells_store, if_neg hne]
    exact hs.outside k hk

theorem Inv.step (hsizes : Sizes T image)
    (hstart : 0 < image.height ∨ ((T : ℤ) - 1) * columns T image.width ≤ INT_MAX)
    (hs : Inv image s) (h : s.step t = some s') : Inv image s' := by
  have hplaced := hs.placed t
  cases hs.next hsizes hstart h with
  | start hat =>
    apply hs.moveTo
    · exact le_rfl
    · intro k hk howns
      rw [owns_iff (hsizes.columns_pos (by omega))] at howns
      rw [hat]
      simp only [Passed, iff_false, not_lt]
      exact_mod_cast howns.1
  | enter i hat hwidth hbound =>
    rw [hat] at hplaced
    apply hs.moveTo
    · exact ⟨hplaced, hbound, hwidth, 0, by simp⟩
    · intro k hk howns
      have hmod := Nat.mod_le k image.width.toNat
      rw [hat]
      simp only [Passed]
      omega
  | finish i hat hlast =>
    apply hs.moveTo
    · trivial
    · intro k hk howns
      have hsize : 0 < image.size := by omega
      have hlast := hlast hsize
      obtain ⟨hwidth, _⟩ := hsizes.width_le_size hsize
      have hmod := Nat.mod_lt k (by omega : 0 < image.width.toNat)
      rw [owns_iff (hsizes.columns_pos hsize)] at howns
      rw [hat]
      simp only [Passed, true_iff]
      omega
  | read i j hat hlt =>
    rw [hat] at hplaced
    obtain ⟨hi, _, _, hle, hmod⟩ := hplaced.cell
    have hj := hplaced.lt_size hlt
    have hcell := (hs.before t j.toNat hj
      (hplaced.owns (by omega) (hsizes.columns_pos (by omega))) (by
        rw [hat]
        rintro (hless | ⟨_, hless⟩) <;> omega)).1
    apply hs.moveTo
    · refine ⟨hplaced, hlt, ?_⟩
      rw [Image.cell, hcell, Image.cell]
    · intro k hk howns
      rw [hat]
      rfl
  | column i j hat hend =>
    rw [hat] at hplaced
    apply hs.moveTo
    · have hfirst := hplaced.first_le
      change _ ≤ i + 1
      omega
    · intro k hk howns
      have hlt : (k : ℤ) < j := by
        unfold Image.size at hk
        omega
      rw [hat]
      simp only [Passed]
      omega
  | store i j value hat => exact hs.store hsizes hat

end Steps

/-! ### The end of a run -/

/-- The steps that a thread has before it. -/
def remaining (image : Image) : Place → ℕ
  | .created => image.width.toNat * (2 * image.size + 2) + 2
  | .column i => (image.width - i).toNat * (2 * image.size + 2) + 1
  | .cell i j => (image.width - i - 1).toNat * (2 * image.size + 2) +
      2 * (image.size - j.toNat) + 2
  | .storing i j _ => (image.width - i - 1).toNat * (2 * image.size + 2) +
      2 * (image.size - j.toNat) + 1
  | .astray | .finished => 0

section End

variable {image : Image} {s s' : Columns T} {t : Fin T}

theorem remaining_column {i : ℤ} (h : i < image.width) :
    remaining image (.column i) = remaining image (.column (i + 1)) + (2 * image.size + 2) := by
  have hsucc : (image.width - i).toNat = (image.width - (i + 1)).toNat + 1 := by omega
  rw [remaining, remaining, hsucc, add_mul, one_mul]
  omega

theorem Inv.remaining_lt (hsizes : Sizes T image)
    (hstart : 0 < image.height ∨ ((T : ℤ) - 1) * columns T image.width ≤ INT_MAX)
    (hs : Inv image s) (h : s.step t = some s') :
    remaining image (s'.place t) < remaining image (s.place t) ∧
      ∀ t', t' ≠ t → s'.place t' = s.place t' := by
  have hplaced := hs.placed t
  cases hs.next hsizes hstart h with
  | start hat =>
    refine ⟨?_, fun t' ht => place_moveTo_of_ne _ _ ht⟩
    rw [hat, place_moveTo_self, remaining, remaining]
    have hle : (image.width - (t.val * columns T image.width : ℕ)).toNat ≤ image.width.toNat := by
      omega
    have hmul := Nat.mul_le_mul_right (2 * image.size + 2) hle
    omega
  | enter i hat hwidth _ =>
    refine ⟨?_, fun t' ht => place_moveTo_of_ne _ _ ht⟩
    have hsub : image.width - i - 1 = image.width - (i + 1) := by omega
    rw [hat, place_moveTo_self, remaining_column hwidth, remaining, remaining, hsub]
    omega
  | finish i hat _ =>
    refine ⟨?_, fun t' ht => place_moveTo_of_ne _ _ ht⟩
    rw [hat, place_moveTo_self, remaining, remaining]
    omega
  | read i j hat _ =>
    refine ⟨?_, fun t' ht => place_moveTo_of_ne _ _ ht⟩
    rw [hat, place_moveTo_self, remaining, remaining]
    omega
  | column i j hat _ =>
    refine ⟨?_, fun t' ht => place_moveTo_of_ne _ _ ht⟩
    have hsub : image.width - i - 1 = image.width - (i + 1) := by omega
    rw [hat, place_moveTo_self, remaining, remaining, hsub]
    omega
  | store i j value hat =>
    refine ⟨?_, fun t' ht => place_moveTo_of_ne _ _ ht⟩
    rw [hat] at hplaced
    obtain ⟨hcolumn, hlt, _⟩ := hplaced
    obtain ⟨hi, _, _, hle, _⟩ := hcolumn.cell
    have hj := hcolumn.lt_size hlt
    have hwidth := hcolumn.lt_width
    have hless : image.size - (j + image.width).toNat < image.size - j.toNat := by omega
    rw [hat, place_moveTo_self, remaining, remaining]
    omega

/-- The steps that all threads have before them. -/
def allRemaining (image : Image) (s : Columns T) : ℕ := total (remaining image) s.place

theorem Inv.allRemaining_lt (hsizes : Sizes T image)
    (hstart : 0 < image.height ∨ ((T : ℤ) - 1) * columns T image.width ≤ INT_MAX)
    (hs : Inv image s) (h : s.step t = some s') : allRemaining image s' < allRemaining image s := by
  obtain ⟨hless, hothers⟩ := hs.remaining_lt hsizes hstart h
  have hplace : s'.place = Function.update s.place t (s'.place t) := by
    funext t'
    by_cases ht : t' = t
    · rw [ht, Function.update_self]
    · rw [Function.update_of_ne ht, hothers t' ht]
  have htotal := total_update (remaining image) s.place t (s'.place t)
  rw [← hplace] at htotal
  unfold allRemaining
  omega

theorem step_isSome (hplace : s.place t ≠ .astray ∧ s.place t ≠ .finished) :
    ∃ s', s.step t = some s' := by
  unfold Columns.step
  cases hat : s.place t with
  | astray => exact absurd hat hplace.1
  | finished => exact absurd hat hplace.2
  | _ => exact ⟨_, rfl⟩

end End

end Columns

open Columns in
/-- The threads of `block` negate every cell once, also when there are more threads than
columns. Without a height the first columns of the threads have to be `int`s. -/
theorem columns_negate (T : ℕ) (image : Image) (hsizes : Sizes T image)
    (hstart : 0 < image.height ∨ ((T : ℤ) - 1) * columns T image.width ≤ INT_MAX) :
    Negates T image := by
  have hinv : ∀ (schedule : List (Fin T)) (s : Columns T),
      exec Columns.step (start image) schedule = some s → Inv image s :=
    fun schedule s hrun => exec_invariant' (fun _ _ _ hs h => hs.step hsizes hstart h)
      (inv_start image) hrun
  -- a cell of the image has a thread
  have howner : ∀ k < image.size, ∃ t : Fin T, Owns image t k := by
    intro k hk
    obtain ⟨hwidth, _⟩ := hsizes.width_le_size (by omega)
    exact ⟨⟨_, column_lt hsizes.threads_pos hwidth _⟩, rfl⟩
  constructor
  · intro schedule s hrun
    have hs := hinv schedule s hrun
    refine ⟨fun t hat => ?_, fun k => ?_, fun k hk => (hs.outside k hk).symm⟩
    · have hplaced := hs.placed t
      rw [hat] at hplaced
      exact hplaced
    · rcases lt_or_ge k image.size with hk | hk
      · obtain ⟨t, ht⟩ := howner k hk
        by_cases hpast : Passed image k (s.place t)
        · rw [(hs.after t k hk ht hpast).2]
          rfl
        · rw [(hs.before t k hk ht hpast).2]
          exact Nat.zero_le 1
      · rw [(hs.outside k hk).2]
        exact Nat.zero_le 1
  · intro schedule s hrun hdone k hk
    obtain ⟨t, ht⟩ := howner k hk
    have hpast : Passed image k (s.place t) := by
      rw [hdone t]
      trivial
    obtain ⟨hcell, hstores⟩ := (hinv schedule s hrun).after t k hk ht hpast
    exact ⟨⟨t, hstores⟩, hcell⟩
  · intro schedule s hrun hdone
    unfold Finished at hdone
    push Not at hdone
    obtain ⟨t, ht⟩ := hdone
    have hplaced := (hinv schedule s hrun).placed t
    refine ⟨t, step_isSome ⟨fun hat => ?_, ht⟩⟩
    rw [hat] at hplaced
    exact hplaced
  · refine ⟨allRemaining image (start image : Columns T), fun schedule s hrun => ?_⟩
    have hle := length_add_le (fun _ _ _ hs h => hs.step hsizes hstart h)
      (fun _ _ _ hs h => hs.allRemaining_lt hsizes hstart h) (inv_start image) hrun
    omega

/-- Two rows of three cells, and more threads than columns. -/
theorem columns_negate_four : Columns.Negates 4 ⟨fun _ => 7, 2, 3, 15⟩ :=
  columns_negate 4 ⟨fun _ => 7, 2, 3, 15⟩
    ⟨by decide, by decide, by decide, by decide, by decide, by decide⟩ (.inl (by decide))

open Columns in
/-- With `INT_MAX` columns of no cells, the first column of the last of 65537 threads is
`65536 * 32768`, which is negative as an `int`, and the thread writes before the array. -/
theorem not_columns_negate :
    ¬ ∀ (T : ℕ) (image : Image), Sizes T image → Negates T image := by
  intro h
  let last : Fin 65537 := ⟨65536, by decide⟩
  let image : Image := ⟨fun _ => 0, 0, 2147483647, 255⟩
  have hnegates := h 65537 image ⟨by decide, by decide, by decide, by decide, by decide, by decide⟩
  have hastray : ∃ s, exec Columns.step (start image) [last, last, last] = some s ∧
      s.place last = .astray := by
    have hany : (exec Columns.step (start image) [last, last, last]).any (fun s =>
        decide (s.place last = .astray)) = true := by decide +kernel
    simpa only [Option.any_eq_true, decide_eq_true_eq] using hany
  obtain ⟨s, hrun, hplace⟩ := hastray
  exact (hnegates.inside _ s hrun).1 last hplace

end Sysopy.Negate
