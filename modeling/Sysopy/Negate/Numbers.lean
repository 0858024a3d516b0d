import Sysopy.Negate.Image
import Sysopy.Library.Transition

/-!
# The method `numbers`

Every thread of `start_routine_numbers` visits every cell and negates those
whose class belongs to it. The class of a cell is computed from its current
value, which another thread may have negated before. It does not change under
negation, so exactly one thread writes each cell, whatever the interleaving.
-/
namespace Sysopy.Negate

open Transition CInteger

/-- `val` of the loop body: the smaller of a cell and its negation. -/
def val (pixel_max cell : ℤ) : ℤ :=
  if cell > pixel_max.tdiv 2 then toInt (pixel_max - cell) else cell

/-- `val % context->threads_no == context->index`. -/
def selects (context : Context) (image : Image) (i : ℕ) : Prop :=
  (val image.pixel_max (image.cell i)).tmod context.threads_no = context.index

instance (context : Context) (image : Image) (i : ℕ) : Decidable (selects context image i) :=
  inferInstanceAs (Decidable (_ = _))

/-- One iteration of the loop of `start_routine_numbers`. -/
def numbersIteration (context : Context) (image : Image) (i : ℕ) : Image :=
  if selects context image i then image.store i (image.pixel_max - image.cell i) else image

/-- The image, the loop counter of each thread, and the stores done so far as
pairs of the thread and the cell. -/
structure Numbers (T : ℕ) where
  image : Image
  counter : Fin T → ℕ
  stores : List (Fin T × ℕ)

namespace Numbers

variable {T : ℕ}

/-- `negate` starts thread `i` with `contexts[i]`. -/
def context (t : Fin T) : Context := ⟨T, t.val⟩

def start (image : Image) : Numbers T := ⟨image, fun _ => 0, []⟩

/-- Thread `t` runs one iteration, unless its loop is over. -/
def step (s : Numbers T) (t : Fin T) : Option (Numbers T) :=
  let i := s.counter t
  if i < s.image.size then
    some
      { image := numbersIteration (context t) s.image i
        counter := Function.update s.counter t (i + 1)
        stores := if selects (context t) s.image i then s.stores ++ [(t, i)] else s.stores }
  else none

def Finished (s : Numbers T) : Prop := ∀ t, s.image.size ≤ s.counter t

/-- The stores that hit cell `i`. -/
def storesAt (s : Numbers T) (i : ℕ) : List (Fin T × ℕ) := s.stores.filter fun w => w.2 = i

end Numbers

/-! ## The class of a cell -/

section Class

variable {pixel_max cell : ℤ}

theorem val_eq (h0 : 0 ≤ cell) (hle : cell ≤ pixel_max) (hmax : pixel_max ≤ INT_MAX) :
    val pixel_max cell = if cell > pixel_max / 2 then pixel_max - cell else cell := by
  rw [val, Int.tdiv_eq_ediv_of_nonneg (h0.trans hle), toInt_eq_self (by omega) (by omega)]

theorem val_negated (h0 : 0 ≤ cell) (hle : cell ≤ pixel_max) (hmax : pixel_max ≤ INT_MAX) :
    val pixel_max (pixel_max - cell) = val pixel_max cell := by
  rw [val_eq h0 hle hmax, val_eq (by omega) (by omega) hmax]
  split_ifs <;> omega

theorem val_nonneg (h0 : 0 ≤ cell) (hle : cell ≤ pixel_max) (hmax : pixel_max ≤ INT_MAX) :
    0 ≤ val pixel_max cell := by
  rw [val_eq h0 hle hmax]
  split_ifs <;> omega

/-- The thread that owns the cells of a class. -/
def owner {T : ℕ} (hT : 0 < T) (pixel_max cell : ℤ) : Fin T :=
  ⟨(val pixel_max cell % T).toNat, by
    have hpos := Int.emod_lt_of_pos (val pixel_max cell) (b := (T : ℤ)) (by omega)
    omega⟩

theorem tmod_eq_index_iff {T : ℕ} (hT : 0 < T) (h0 : 0 ≤ cell) (hle : cell ≤ pixel_max)
    (hmax : pixel_max ≤ INT_MAX) (t : Fin T) :
    (val pixel_max cell).tmod T = (t.val : ℤ) ↔ t = owner hT pixel_max cell := by
  rw [Int.tmod_eq_emod_of_nonneg (val_nonneg h0 hle hmax), Fin.ext_iff, owner]
  have hmod := Int.emod_nonneg (val pixel_max cell) (b := (T : ℤ)) (by omega)
  constructor <;> intro h <;> simp only at h ⊢ <;> omega

end Class

/-! ## Every interleaving -/

namespace Numbers

variable {T : ℕ} (hT : 0 < T) (image : Image)

/-- The thread that negates cell `i` of the original image. -/
def ownerOf (i : ℕ) : Fin T := owner hT image.pixel_max (image.cell i)

/-- A cell is untouched until its owner has passed it, and negated by one store
of the owner afterwards. -/
structure Inv (s : Numbers T) : Prop where
  pixel_max : s.image.pixel_max = image.pixel_max
  size : s.image.size = image.size
  before : ∀ i < image.size, s.counter (ownerOf hT image i) ≤ i →
    s.image.cells i = image.cells i ∧ s.storesAt i = []
  after : ∀ i < image.size, i < s.counter (ownerOf hT image i) →
    s.image.cell i = image.pixel_max - image.cell i ∧ s.storesAt i = [(ownerOf hT image i, i)]
  outside : ∀ i, image.size ≤ i → s.image.cells i = image.cells i ∧ s.storesAt i = []

theorem inv_start : Inv hT image (start image) where
  pixel_max := rfl
  size := rfl
  before _ _ _ := ⟨rfl, rfl⟩
  after _ _ h := absurd h (Nat.not_lt_zero _)
  outside _ _ := ⟨rfl, rfl⟩

variable {hT image}

theorem storesAt_append (s : Numbers T) (image' : Image) (counter : Fin T → ℕ) (t : Fin T)
    (i j : ℕ) : storesAt ⟨image', counter, s.stores ++ [(t, i)]⟩ j =
      if i = j then s.storesAt j ++ [(t, i)] else s.storesAt j := by
  by_cases h : i = j <;> simp [storesAt, h]

/-- Whether a thread selects a cell depends on the original image only. -/
theorem Inv.selects_iff (hcells : ∀ i < image.size, image.cell i ≤ image.pixel_max)
    (hmax : image.pixel_max ≤ 255) {s : Numbers T} (hs : Inv hT image s) (t : Fin T) {i : ℕ}
    (hi : i < image.size) : selects (context t) s.image i ↔ t = ownerOf hT image i := by
  have h0 : 0 ≤ image.cell i := Int.natCast_nonneg _
  have hint : image.pixel_max ≤ INT_MAX := hmax.trans (by decide)
  have hval : val s.image.pixel_max (s.image.cell i) = val image.pixel_max (image.cell i) := by
    rw [hs.pixel_max]
    rcases Nat.lt_or_ge i (s.counter (ownerOf hT image i)) with hlt | hge
    · rw [(hs.after i hi hlt).1]
      exact val_negated h0 (hcells i hi) hint
    · rw [Image.cell, (hs.before i hi hge).1, Image.cell]
  rw [selects, hval]
  exact tmod_eq_index_iff hT h0 (hcells i hi) hint t

theorem counter_le_iff (counter : Fin T → ℕ) (t o : Fin T) {j : ℕ} (hj : j ≠ counter t) :
    Function.update counter t (counter t + 1) o ≤ j ↔ counter o ≤ j := by
  rw [Function.update_apply]
  split_ifs with ho
  · subst ho
    omega
  · rfl

theorem Inv.step (hcells : ∀ i < image.size, image.cell i ≤ image.pixel_max)
    (hmax : image.pixel_max ≤ 255) {s s' : Numbers T} {t : Fin T} (hs : Inv hT image s)
    (h : s.step t = some s') : Inv hT image s' := by
  unfold Numbers.step at h
  dsimp only at h
  split_ifs at h with hlt hselect
  · -- the thread owns the cell and negates it
    rw [Option.some.injEq] at h
    subst h
    rw [hs.size] at hlt
    have howner := (hs.selects_iff hcells hmax t hlt).mp hselect
    obtain ⟨hcell, hstores⟩ := hs.before _ hlt (by rw [← howner])
    rw [numbersIteration, if_pos hselect]
    refine ⟨hs.pixel_max, hs.size, fun j hj hle => ?_, fun j hj hgt => ?_, fun j hj => ?_⟩
    · have hne : j ≠ s.counter t := by
        rintro rfl
        simp only [← howner, Function.update_self] at hle
        omega
      rw [counter_le_iff _ _ _ hne] at hle
      obtain ⟨hcellj, hstoresj⟩ := hs.before j hj hle
      rw [storesAt_append, if_neg (Ne.symm hne), Image.cells_store, if_neg hne]
      exact ⟨hcellj, hstoresj⟩
    · rw [storesAt_append]
      by_cases hne : j = s.counter t
      · subst hne
        have h0 : 0 ≤ image.cell (s.counter t) := Int.natCast_nonneg _
        have hc := hcells _ hlt
        have hsame : s.image.cell (s.counter t) = image.cell (s.counter t) := by
          rw [Image.cell, hcell, Image.cell]
        rw [Image.cell_store_self, hsame, hs.pixel_max, if_pos rfl, hstores, ← howner]
        exact ⟨by omega, rfl⟩
      · rw [← not_le, counter_le_iff _ _ _ hne, not_le] at hgt
        rw [if_neg (Ne.symm hne), Image.cell_store_of_ne _ _ hne]
        exact hs.after j hj hgt
    · have hne : j ≠ s.counter t := by omega
      rw [storesAt_append, if_neg (Ne.symm hne), Image.cells_store, if_neg hne]
      exact hs.outside j hj
  · -- the cell belongs to another thread
    rw [Option.some.injEq] at h
    subst h
    rw [hs.size] at hlt
    have howner : t ≠ ownerOf hT image (s.counter t) :=
      fun h => hselect ((hs.selects_iff hcells hmax t hlt).mpr h)
    rw [numbersIteration, if_neg hselect]
    have hcounter : ∀ j, Function.update s.counter t (s.counter t + 1) (ownerOf hT image j) ≤ j ↔
        s.counter (ownerOf hT image j) ≤ j := by
      intro j
      by_cases hne : j = s.counter t
      · subst hne
        rw [Function.update_of_ne (Ne.symm howner)]
      · exact counter_le_iff _ _ _ hne
    refine ⟨hs.pixel_max, hs.size, fun j hj hle => ?_, fun j hj hgt => ?_, hs.outside⟩
    · exact hs.before j hj ((hcounter j).mp hle)
    · rw [← not_le, hcounter j, not_le] at hgt
      exact hs.after j hj hgt

end Numbers

/-- When all threads have finished, every cell of the image is negated by one
store of one thread, and nothing else has changed. -/
theorem numbers_negates_once {T : ℕ} (hT : 0 < T) (image : Image)
    (hcells : ∀ i < image.size, image.cell i ≤ image.pixel_max) (hmax : image.pixel_max ≤ 255)
    (schedule : List (Fin T)) (s : Numbers T)
    (hrun : exec Numbers.step (Numbers.start image) schedule = some s) (hdone : s.Finished) :
    (∀ i < image.size, s.image.cell i = image.pixel_max - image.cell i ∧
      ∃ t, s.storesAt i = [(t, i)]) ∧
    (∀ i, image.size ≤ i → s.image.cells i = image.cells i ∧ s.storesAt i = []) := by
  have hs : Numbers.Inv hT image s :=
    exec_invariant' (fun _ _ _ hs h => hs.step hcells hmax h) (Numbers.inv_start hT image) hrun
  refine ⟨fun i hi => ?_, hs.outside⟩
  have hpassed : i < s.counter (Numbers.ownerOf hT image i) :=
    hi.trans_le (hs.size ▸ hdone _)
  obtain ⟨hcell, hstores⟩ := hs.after i hi hpassed
  exact ⟨hcell, _, hstores⟩

/-- Two threads take turns on the cells 0 and 3 of an image with maximum 3. -/
theorem numbers_negates_once_two :
    ∃ s : Numbers 2, exec Numbers.step
      (Numbers.start ⟨fun i => if i = 1 then 3 else 0, 1, 2, 3⟩) [0, 1, 1, 0] = some s ∧
      s.image.cell 0 = 3 ∧ s.image.cell 1 = 0 := by
  refine ⟨_, rfl, ?_⟩
  have h := numbers_negates_once (by decide : 0 < 2) ⟨fun i => if i = 1 then 3 else 0, 1, 2, 3⟩
    (by decide) (by decide) [0, 1, 1, 0] _ rfl (by unfold Numbers.Finished; decide)
  exact ⟨(h.1 0 (by decide)).1, (h.1 1 (by decide)).1⟩

end Sysopy.Negate
