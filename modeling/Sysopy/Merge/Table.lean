import Mathlib.Data.List.ReduceOption
import Sysopy.Library.Transition
import Sysopy.Merge.Files

/-!
# The table of blocks

The driver fills a table with one block a file and then removes rows and blocks, counts and
prints. A block says in three ways how many rows it has: by the counter `current_size`, by
the row pointers that are not `NULL`, and by the pointer to its rows. `remove_row` counts a row
that is gone once more, and `remove_block` leaves the counter as it is.
-/
namespace Sysopy.Merge

open CText Transition

/-- `struct array`; its size is the number of its blocks. -/
abbrev Table := List Block

def createArray (n : ℕ) : Table := List.replicate n ⟨none, 0, 0⟩

/-- `add_blocks` reads one block a file; the table must have room for them. -/
def addBlocks (files : List (List UInt8)) (array : Table) : Option Table :=
  if files.length ≤ array.length then some (files.map readBlock ++ array.drop files.length)
  else none

/-- `remove_block`. The rows of the block are freed. -/
def removeBlock (array : Table) (block_index : ℕ) : Option Table :=
  array[block_index]?.map fun block => array.set block_index { block with rows := none }

/-- `remove_row`, which reads the pointer to the rows without a test. -/
def removeRow (array : Table) (block_index row_index : ℕ) : Option Table := do
  let block ← array[block_index]?
  let rows ← block.rows
  if row_index < rows.length then
    some (array.set block_index { block with
      rows := some (rows.set row_index none)
      current_size := block.current_size - 1 })
  else none

/-- The rows that `print_array` writes for a block. -/
def Block.printed (block : Block) : List (List UInt8) :=
  match block.rows with
  | none => []
  | some rows => rows.reduceOption

/-- `print_array` ends the rows of a block with a newline. No NUL ends a row in its memory;
what `printf` may find behind it is not part of the model. -/
def printArray (array : Table) : List UInt8 :=
  array.flatMap fun block =>
    if block.rows = none then [] else block.printed.flatten ++ [NEWLINE]

/-- The number that the driver prints for `count_lines`. -/
def countLines (array : Table) (block : ℕ) : Option ℤ := array[block]?.map Block.current_size

inductive Command
  | addBlocks
  | removeRow (block row : ℕ)
  | removeBlock (block : ℕ)
  | countLines (block : ℕ)
  | print
  deriving DecidableEq, Repr

/-- One command of the driver; `files` are the merged files. -/
def step (files : List (List UInt8)) (array : Table) : Command → Option Table
  | .addBlocks => addBlocks files array
  | .removeRow block row => removeRow array block row
  | .removeBlock block => removeBlock array block
  | .countLines block => (countLines array block).map fun _ => array
  | .print => some array

/-! ## What the commands should do -/

/-- What `count_lines` reports is the number of rows that are printed. -/
def Consistent (array : Table) : Prop :=
  ∀ block ∈ array, block.current_size = block.printed.length

/-- The row pointer of a block; a removed block has none. -/
def rowAt (array : Table) (block row : ℕ) : Option Row :=
  (array[block]?.bind Block.rows).bind fun rows => rows[row]?

/-- The blocks that a command names; `add_blocks` fills the first ones. -/
def Command.Names (files : List (List UInt8)) (block : ℕ) : Command → Prop
  | .addBlocks => block < files.length
  | .removeRow b _ => block = b
  | .removeBlock b => block = b
  | .countLines _ => False
  | .print => False

/-- Other blocks, and other rows of the block of a removed row, are as before. -/
structure Framed (files : List (List UInt8)) (c : Command) (array array' : Table) : Prop where
  size : array'.length = array.length
  blocks : ∀ block, ¬ c.Names files block → array'[block]? = array[block]?
  rows : ∀ block row, c = .removeRow block row → ∀ row' ≠ row,
    rowAt array' block row' = rowAt array block row'

/-- Every command completes, changes what it names, and leaves the counters right. -/
def RunsWell (files : List (List UInt8)) : Table → List Command → Prop
  | _, [] => True
  | array, c :: cs => ∃ array', step files array c = some array' ∧
      Framed files c array array' ∧ Consistent array' ∧ RunsWell files array' cs

/-- A row is removed while it is there, and a block when it has no row left. -/
def Allowed (array : Table) : Command → Prop
  | .removeRow block row => ∃ text, rowAt array block row = some (some text)
  | .removeBlock block => countLines array block = some 0
  | _ => True

/-- The indices of a command lie in a table that was filled as `array` is. -/
def InRange (array : Table) : Command → Prop
  | .removeRow block row => ∃ b, array[block]? = some b ∧ row < b.size
  | .removeBlock block => block < array.length
  | .countLines block => block < array.length
  | _ => True

/-! ## The invariant -/

/-- The table has the blocks and rows that it was filled with, some of them removed. -/
structure Sound (files : List (List UInt8)) (filled array : Table) : Prop where
  blocks : ∃ rest, filled = files.map readBlock ++ rest
  sizes : array.map Block.size = filled.map Block.size
  rows : ∀ block ∈ array, ∀ rows, block.rows = some rows → rows.length = block.size
  consistent : Consistent array

section Rows

variable {rows : List Row} {r : ℕ}

theorem length_reduceOption_set {text : List UInt8} (h : rows[r]? = some (some text)) :
    (rows.set r none).reduceOption.length + 1 = rows.reduceOption.length := by
  induction rows generalizing r with
  | nil => simp at h
  | cons row rows ih =>
    cases r with
    | zero =>
      obtain rfl := Option.some.inj h
      simp
    | succ r =>
      have hrest := ih h
      cases row <;> simp [hrest]

theorem set_none_eq (h : rows[r]? = some none) : rows.set r none = rows := by
  obtain ⟨hlt, hr⟩ := List.getElem?_eq_some_iff.mp h
  rw [← hr]
  exact List.set_getElem_self hlt

theorem ne_none_of_mem_readRows {n : ℕ} {f : List UInt8} (hn : n ≤ (lines f).length)
    {row : Row} (hrow : row ∈ readRows n f) : row ≠ none := by
  induction n generalizing f with
  | zero => cases hrow
  | succ n ih =>
    rw [readRows] at hrow
    split at hrow
    next hnone =>
      rw [getline_eq_none_iff.mp hnone] at hn
      cases hn
    next line f' hsome =>
      rcases List.mem_cons.mp hrow with rfl | hrow
      · simp
      · rw [lines_of_getline hsome, List.length_cons] at hn
        exact ih (by omega) hrow

theorem consistent_readBlock (file : List UInt8) :
    (readBlock file).current_size = (readBlock file).printed.length := by
  have hall : ∀ row ∈ readRows (countlines file) file, row.isSome = true := fun row hrow =>
    Option.isSome_iff_ne_none.mpr (ne_none_of_mem_readRows (length_lines_le file).1 hrow)
  have hlength : (readRows (countlines file) file).reduceOption.length = countlines file := by
    rw [List.reduceOption_length_eq_iff.mpr hall, length_readRows]
  simp only [readBlock, Block.printed, hlength]

end Rows

/-! ## One command -/

variable {files : List (List UInt8)} {filled array array' : Table} {b r : ℕ} {block block' : Block}

theorem removeRow_eq_some :
    removeRow array b r = some array' ↔ ∃ block rows, array[b]? = some block ∧
      block.rows = some rows ∧ r < rows.length ∧ array' = array.set b { block with
        rows := some (rows.set r none)
        current_size := block.current_size - 1 } := by
  simp only [removeRow, Option.bind_eq_bind, Option.bind_eq_some_iff, Option.ite_none_right_eq_some,
    Option.some.injEq, eq_comm (a := array')]
  constructor
  · rintro ⟨block, hblock, rows, hrows, hr, rfl⟩
    exact ⟨block, rows, hblock, hrows, hr, rfl⟩
  · rintro ⟨block, rows, hblock, hrows, hr, rfl⟩
    exact ⟨block, hblock, rows, hrows, hr, rfl⟩

theorem removeBlock_eq_some :
    removeBlock array b = some array' ↔ ∃ block, array[b]? = some block ∧
      array' = array.set b { block with rows := none } := by
  simp only [removeBlock, Option.map_eq_some_iff, eq_comm (a := array')]

theorem mem_set_self (h : array[b]? = some block) : block' ∈ array.set b block' :=
  List.mem_set (List.getElem?_eq_some_iff.mp h).1 block'

theorem map_size_set (h : array[b]? = some block) (hsize : block'.size = block.size) :
    (array.set b block').map Block.size = array.map Block.size := by
  obtain ⟨hlt, rfl⟩ := List.getElem?_eq_some_iff.mp h
  rw [List.map_set, hsize, ← List.getElem_map Block.size (h := by simpa using hlt),
    List.set_getElem_self]

theorem Sound.set (hs : Sound files filled array) (h : array[b]? = some block)
    (hsize : block'.size = block.size)
    (hrows : ∀ rows, block'.rows = some rows → rows.length = block'.size)
    (hconsistent : block'.current_size = block'.printed.length) :
    Sound files filled (array.set b block') := by
  refine ⟨hs.blocks, (map_size_set h hsize).trans hs.sizes, ?_, ?_⟩
  · intro c hc
    rcases List.mem_or_eq_of_mem_set hc with hc | rfl
    · exact hs.rows c hc
    · exact hrows
  · intro c hc
    rcases List.mem_or_eq_of_mem_set hc with hc | rfl
    · exact hs.consistent c hc
    · exact hconsistent

theorem framed_set {c : Command} (hnames : ∀ i, ¬ c.Names files i → i ≠ b)
    (hrows : ∀ i row, c = .removeRow i row → ∀ row' ≠ row,
      rowAt (array.set b block') i row' = rowAt array i row') :
    Framed files c array (array.set b block') :=
  ⟨List.length_set, fun _ hi => List.getElem?_set_ne (hnames _ hi).symm, hrows⟩

theorem framed_self (c : Command) : Framed files c array array :=
  ⟨rfl, fun _ _ => rfl, fun _ _ _ _ _ => rfl⟩

theorem framed_removeRow (h : removeRow array b r = some array') :
    Framed files (.removeRow b r) array array' := by
  obtain ⟨block, rows, hblock, hrows, _, rfl⟩ := removeRow_eq_some.mp h
  have hlt := (List.getElem?_eq_some_iff.mp hblock).1
  refine framed_set (fun i hi => hi) ?_
  rintro _ _ ⟨⟩ row' hrow'
  simp only [rowAt, List.getElem?_set_self hlt, hblock, Option.bind_some, hrows]
  exact List.getElem?_set_ne hrow'.symm

theorem framed_removeBlock (h : removeBlock array b = some array') :
    Framed files (.removeBlock b) array array' := by
  obtain ⟨block, _, rfl⟩ := removeBlock_eq_some.mp h
  exact framed_set (fun i hi => hi) fun _ _ hc => by cases hc

section Sound

variable (hs : Sound files filled array)

include hs

theorem Sound.length : array.length = filled.length := by
  have h := congrArg List.length hs.sizes
  rwa [List.length_map, List.length_map] at h

/-! ### Removing a row -/

theorem Sound.removeRow (h : removeRow array b r = some array') {text : List UInt8}
    (hrow : rowAt array b r = some (some text)) : Sound files filled array' := by
  obtain ⟨block, rows, hblock, hrows, _, rfl⟩ := removeRow_eq_some.mp h
  have hmem := List.mem_of_getElem? hblock
  have hcount := hs.consistent block hmem
  have hset : (rows.set r none).reduceOption.length + 1 = rows.reduceOption.length := by
    have hr : rows[r]? = some (some text) := by simpa [rowAt, hblock, hrows] using hrow
    exact length_reduceOption_set hr
  rw [Block.printed, hrows] at hcount
  refine hs.set hblock rfl ?_ ?_
  · rintro _ ⟨⟩
    rw [List.length_set]
    exact hs.rows block hmem rows hrows
  · simp only [Block.printed]
    simp only at hcount
    omega

theorem Sound.row_of_consistent (h : Merge.removeRow array b r = some array')
    (hconsistent : Consistent array') : ∃ text, rowAt array b r = some (some text) := by
  obtain ⟨block, rows, hblock, hrows, hr, rfl⟩ := removeRow_eq_some.mp h
  have hcount := hs.consistent block (List.mem_of_getElem? hblock)
  have hafter := hconsistent _ (mem_set_self hblock)
  have hrowAt : rowAt array b r = some rows[r] := by simp [rowAt, hblock, hrows, hr]
  rw [Block.printed, hrows] at hcount
  simp only [Block.printed] at hafter
  simp only at hcount
  cases hrow : rows[r] with
  | some text => exact ⟨text, by rw [hrowAt, hrow]⟩
  | none =>
    have hsame : rows.set r none = rows := by
      apply set_none_eq
      rw [List.getElem?_eq_getElem hr, hrow]
    rw [hsame] at hafter
    omega

/-! ### Removing a block -/

theorem Sound.removeBlock (h : removeBlock array b = some array') :
    (countLines array b = some 0 → Sound files filled array') ∧
      (Consistent array' → countLines array b = some 0) := by
  obtain ⟨block, hblock, rfl⟩ := removeBlock_eq_some.mp h
  rw [countLines, hblock, Option.map_some]
  constructor
  · intro hzero
    exact hs.set hblock rfl (by rintro _ ⟨⟩) (Option.some.inj hzero)
  · intro hconsistent
    exact congrArg some (hconsistent _ (mem_set_self hblock))

/-! ### Filling the table -/

theorem Sound.addBlocks :
    ∃ array', addBlocks files array = some array' ∧ Sound files filled array' ∧
      Framed files .addBlocks array array' := by
  obtain ⟨rest, hrest⟩ := hs.blocks
  have hle : files.length ≤ array.length := by
    rw [hs.length, hrest, List.length_append, List.length_map]
    exact Nat.le_add_right _ _
  refine ⟨_, if_pos hle, ⟨hs.blocks, ?_, ?_, ?_⟩, ?_, ?_, ?_⟩
  · rw [List.map_append, List.map_drop, hs.sizes, hrest, List.map_append, List.drop_left']
    simp
  · intro block hblock rows hrows
    rcases List.mem_append.mp hblock with hblock | hblock
    · obtain ⟨file, _, rfl⟩ := List.mem_map.mp hblock
      obtain rfl := Option.some.inj hrows
      exact length_readRows _ _
    · exact hs.rows block (List.mem_of_mem_drop hblock) rows hrows
  · intro block hblock
    rcases List.mem_append.mp hblock with hblock | hblock
    · obtain ⟨file, _, rfl⟩ := List.mem_map.mp hblock
      exact consistent_readBlock file
    · exact hs.consistent block (List.mem_of_mem_drop hblock)
  · rw [List.length_append, List.length_map, List.length_drop]
    omega
  · intro i hi
    have hi : files.length ≤ i := Nat.not_lt.mp hi
    rw [List.getElem?_append_right (by simpa using hi), List.length_map, List.getElem?_drop,
      Nat.add_sub_cancel' hi]
  · intro _ _ hc
    cases hc

/-! ## Runs -/

/-- A command that is allowed completes and keeps the table sound. -/
theorem Sound.step {c : Command} (hrange : InRange filled c) (hallowed : Allowed array c) :
    ∃ array', step files array c = some array' ∧ Framed files c array array' ∧
      Sound files filled array' := by
  cases c with
  | addBlocks =>
    obtain ⟨array', hadd, hsound, hframed⟩ := hs.addBlocks
    exact ⟨array', hadd, hframed, hsound⟩
  | removeRow b r =>
    obtain ⟨text, hrow⟩ := hallowed
    have hrow' := hrow
    rw [rowAt, Option.bind_eq_some_iff] at hrow'
    obtain ⟨rows, hrows, hr⟩ := hrow'
    obtain ⟨block, hblock, hrows⟩ := Option.bind_eq_some_iff.mp hrows
    have hremove := removeRow_eq_some.mpr
      ⟨block, rows, hblock, hrows, (List.getElem?_eq_some_iff.mp hr).1, rfl⟩
    exact ⟨_, hremove, framed_removeRow hremove, hs.removeRow hremove hrow⟩
  | removeBlock b =>
    obtain ⟨block, hblock, _⟩ := Option.map_eq_some_iff.mp hallowed
    have hremove := removeBlock_eq_some.mpr ⟨block, hblock, rfl⟩
    exact ⟨_, hremove, framed_removeBlock hremove, (hs.removeBlock hremove).1 hallowed⟩
  | countLines b =>
    have hb : b < array.length := by
      rw [hs.length]
      exact hrange
    have hcount : countLines array b = some array[b].current_size := by
      rw [countLines, List.getElem?_eq_getElem hb, Option.map_some]
    refine ⟨array, ?_, framed_self _, hs⟩
    simp only [Merge.step, hcount, Option.map_some]
  | print => exact ⟨array, rfl, framed_self _, hs⟩

/-- A command that leaves the counters right is allowed. -/
theorem Sound.allowed {c : Command} (h : Merge.step files array c = some array')
    (hconsistent : Consistent array') : Allowed array c := by
  cases c with
  | removeRow b r => exact hs.row_of_consistent h hconsistent
  | removeBlock b => exact (hs.removeBlock h).2 hconsistent
  | _ => trivial

theorem Sound.runsWell_iff {cs : List Command} (hrange : ∀ c ∈ cs, InRange filled c) :
    RunsWell files array cs ↔ Along (Merge.step files) Allowed array cs := by
  induction cs generalizing array with
  | nil => exact Iff.rfl
  | cons c cs ih =>
    have hrest : ∀ c ∈ cs, InRange filled c := fun d hd => hrange d (List.mem_cons_of_mem c hd)
    constructor
    · rintro ⟨array', hstep, _, hconsistent, hruns⟩
      have hallowed := hs.allowed hstep hconsistent
      obtain ⟨_, hstep', _, hs'⟩ := hs.step (hrange c List.mem_cons_self) hallowed
      obtain rfl := Option.some.inj (hstep.symm.trans hstep')
      refine ⟨hallowed, fun t ht => ?_⟩
      obtain rfl := Option.some.inj (hstep.symm.trans ht)
      exact (ih hs' hrest).mp hruns
    · rintro ⟨hallowed, hruns⟩
      obtain ⟨array', hstep, hframed, hs'⟩ := hs.step (hrange c List.mem_cons_self) hallowed
      exact ⟨array', hstep, hframed, hs'.consistent, (ih hs' hrest).mpr (hruns array' hstep)⟩

end Sound

theorem sound_filled {size : ℕ} (hfilled : addBlocks files (createArray size) = some filled) :
    Sound files filled filled := by
  unfold addBlocks at hfilled
  split_ifs at hfilled
  obtain rfl := Option.some.inj hfilled
  refine ⟨⟨_, rfl⟩, rfl, ?_, ?_⟩
  · intro block hblock rows hrows
    rcases List.mem_append.mp hblock with hblock | hblock
    · obtain ⟨file, _, rfl⟩ := List.mem_map.mp hblock
      obtain rfl := Option.some.inj hrows
      exact length_readRows _ _
    · obtain rfl := List.eq_of_mem_replicate (List.mem_of_mem_drop hblock)
      cases hrows
  · intro block hblock
    rcases List.mem_append.mp hblock with hblock | hblock
    · obtain ⟨file, _, rfl⟩ := List.mem_map.mp hblock
      exact consistent_readBlock file
    · obtain rfl := List.eq_of_mem_replicate (List.mem_of_mem_drop hblock)
      rfl

/-- A run on a table that was filled goes well if and only if it removes only rows that are
there and blocks that have none. -/
theorem runs_well_iff (files : List (List UInt8)) (size : ℕ) (filled : Table)
    (hfilled : addBlocks files (createArray size) = some filled) (cs : List Command)
    (hrange : ∀ c ∈ cs, InRange filled c) :
    RunsWell files filled cs ↔ Along (step files) Allowed filled cs :=
  (sound_filled hfilled).runsWell_iff hrange

/-- One file of one line. -/
def oneRow : Table := [readBlock [97, 10]]

theorem runs_well_iff_oneRow :
    RunsWell [[97, 10]] oneRow [.removeRow 0 0, .removeBlock 0] ↔
      Along (step [[97, 10]]) Allowed oneRow [.removeRow 0 0, .removeBlock 0] :=
  runs_well_iff [[97, 10]] 1 oneRow rfl [.removeRow 0 0, .removeBlock 0] (by
    intro c hc
    rcases List.mem_cons.mp hc with rfl | hc
    · exact ⟨_, rfl, by decide⟩
    · rw [List.mem_singleton.mp hc]
      exact Nat.zero_lt_one)

/-- The only row is removed twice, so the block has minus one rows. -/
theorem not_runs_well : ¬ RunsWell [[97, 10]] oneRow [.removeRow 0 0, .removeRow 0 0] := by
  rintro ⟨_, ⟨⟩, _, _, _, ⟨⟩, _, hconsistent, _⟩
  exact absurd (hconsistent _ List.mem_cons_self) (by decide)

end Sysopy.Merge
