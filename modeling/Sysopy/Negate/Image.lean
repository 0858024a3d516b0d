import Sysopy.Library.CInteger
import Mathlib.Tactic

/-!
# Images and the negation of a cell

The part of `struct image` and `struct context` that the threads of `negate`
read and write. A cell is an `unsigned char`, so a store keeps the value modulo
256, and the loop bound `image.width * image.height` is an `int`.
-/
namespace Sysopy.Negate

open CInteger

structure Image where
  cells : ℕ → UInt8
  height : ℤ
  width : ℤ
  pixel_max : ℤ

structure Context where
  threads_no : ℤ
  index : ℤ

/-- `image.width * image.height`. -/
def Image.pixels (image : Image) : ℤ := toInt (image.width * image.height)

/-- The loops run over the indices below `image.width * image.height`. -/
def Image.size (image : Image) : ℕ := image.pixels.toNat

def Image.cell (image : Image) (i : ℕ) : ℤ := (image.cells i).toNat

/-- `image.cells[i] = value`. -/
def Image.store (image : Image) (i : ℕ) (value : ℤ) : Image :=
  { image with cells := Function.update image.cells i (UInt8.ofInt value) }

theorem Image.pixels_congr {image image' : Image} (hwidth : image'.width = image.width)
    (hheight : image'.height = image.height) : image'.pixels = image.pixels := by
  rw [Image.pixels, Image.pixels, hwidth, hheight]

theorem Image.size_congr {image image' : Image} (hwidth : image'.width = image.width)
    (hheight : image'.height = image.height) : image'.size = image.size := by
  rw [Image.size, Image.size, Image.pixels_congr hwidth hheight]

theorem Image.pixels_eq {image : Image} (hwidth : 0 ≤ image.width) (hheight : 0 ≤ image.height)
    (hmax : image.width * image.height ≤ INT_MAX) :
    image.pixels = image.width * image.height := by
  have hnonneg := mul_nonneg hwidth hheight
  exact toInt_eq_self (by omega) hmax

@[simp] theorem Image.size_store (image : Image) (i : ℕ) (value : ℤ) :
    (image.store i value).size = image.size := rfl

@[simp] theorem Image.pixel_max_store (image : Image) (i : ℕ) (value : ℤ) :
    (image.store i value).pixel_max = image.pixel_max := rfl

theorem Image.cells_store (image : Image) (i : ℕ) (value : ℤ) (j : ℕ) :
    (image.store i value).cells j = if j = i then UInt8.ofInt value else image.cells j := by
  simp [Image.store, Function.update_apply]

theorem toNat_ofInt (value : ℤ) : ((UInt8.ofInt value).toNat : ℤ) = value % 256 := by
  rw [UInt8.ofInt, UInt8.toNat_ofNat']
  omega

theorem Image.cell_store_self (image : Image) (i : ℕ) (value : ℤ) :
    (image.store i value).cell i = value % 256 := by
  rw [Image.cell, Image.cells_store, if_pos rfl, toNat_ofInt]

theorem Image.cell_store_of_ne (image : Image) (value : ℤ) {i j : ℕ} (h : j ≠ i) :
    (image.store i value).cell j = image.cell j := by
  rw [Image.cell, Image.cells_store, if_neg h, Image.cell]

end Sysopy.Negate
