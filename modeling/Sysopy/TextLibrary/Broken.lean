import Sysopy.Library.Chunks
import Sysopy.TextLibrary.Results

/-!
# What `breakLines` writes for a line

The number of pieces comes from the size of the line with its newline and from the breakpoint,
the pieces are 50 bytes long, and the block is as long as the line and one byte for every break.
So a line is broken as it should be only by a breakpoint of 50, and not if it ends where a piece
does or one byte before.
-/
namespace Sysopy.TextLibrary

open CString CText Chunks

/-- A line with its newline, in pieces. -/
def broken (n : ℕ) (line : List UInt8) : List UInt8 :=
  (cut n line.dropLast).flatMap (· ++ [NEWLINE])

/-- The block of a line, where it is defined. -/
def breakBlock (n : ℕ) (line : List UInt8) : List UInt8 :=
  if line.length / n = 0 then line
  else strncpy (line.length + line.length / n) (brokenLine line (line.length / n + 1))

/-- A byte of a line that is neither a NUL nor the newline. -/
def plain (c : UInt8) : Bool := c ≠ 0 ∧ c ≠ NEWLINE

/-! ## The pieces of 50 bytes -/

section Pieces

theorem brokenLine_succ (line : List UInt8) (count : ℕ) :
    brokenLine line (count + 1) =
      line.take 50 ++ NEWLINE :: brokenLine (line.drop 50) count := by
  rw [brokenLine, List.range_succ_eq_map, List.flatMap_cons, List.flatMap_map, Nat.mul_zero,
    List.drop_zero, List.append_assoc, List.singleton_append, brokenLine]
  congr 3
  funext i
  rw [List.drop_drop, Nat.mul_succ, Nat.add_comm]

theorem length_brokenLine (line : List UInt8) (count : ℕ) :
    (brokenLine line count).length = min line.length (50 * count) + count := by
  induction count generalizing line with
  | zero => simp [brokenLine]
  | succ count ih =>
    rw [brokenLine_succ, List.length_append, List.length_cons, ih, List.length_take,
      List.length_drop]
    omega

theorem countP_brokenLine (line : List UInt8) (count : ℕ) :
    (brokenLine line count).countP plain = (line.take (50 * count)).countP plain := by
  induction count generalizing line with
  | zero => rfl
  | succ count ih =>
    have htake : line.take (50 * (count + 1)) = line.take 50 ++ (line.drop 50).take (50 * count) := by
      rw [Nat.mul_succ, Nat.add_comm, List.take_add]
    have hnewline : ¬ plain NEWLINE = true := by decide
    rw [brokenLine_succ, htake, List.countP_append, List.countP_append,
      List.countP_cons_of_neg hnewline, ih]

theorem zero_notMem_brokenLine {line : List UInt8} (hline : 0 ∉ line) (count : ℕ) :
    0 ∉ brokenLine line count := by
  intro hmem
  obtain ⟨i, _, hi⟩ := List.mem_flatMap.mp hmem
  rcases List.mem_append.mp hi with hi | hi
  · exact hline (List.mem_of_mem_drop (List.mem_of_mem_take hi))
  · revert hi
    decide

/-- Lines that end inside a piece, not with its last byte. -/
theorem brokenLine_eq {s : List UInt8} {count : ℕ} (hlow : 50 * count < s.length ∨ count = 0)
    (hhigh : s.length < 50 * count + 49) :
    brokenLine (s ++ [NEWLINE]) (count + 1) =
      (cut 50 s).flatMap (· ++ [NEWLINE]) ++ [NEWLINE] := by
  induction count generalizing s with
  | zero =>
    have hle : (s ++ [NEWLINE]).length ≤ 50 := by
      rw [List.length_append, List.length_singleton]
      omega
    rw [brokenLine_succ, List.take_of_length_le hle, cut_of_le (by omega)]
    simp [brokenLine]
  | succ count ih =>
    have hlong : 50 < s.length := by omega
    have hsplit := List.take_append_drop 50 s
    generalize hfirst : s.take 50 = first at hsplit
    generalize hrest : s.drop 50 = rest at hsplit
    have hlength : first.length = 50 := by
      rw [← hfirst, List.length_take_of_le hlong.le]
    have hlength' := congrArg List.length hsplit
    rw [List.length_append] at hlength'
    have hne : rest ≠ [] := by
      rintro rfl
      rw [List.length_nil] at hlength'
      omega
    rw [← hsplit, brokenLine_succ, List.append_assoc, List.take_left' hlength,
      List.drop_left' hlength, ih (by omega) (by omega), cut_append (by decide) hlength hne]
    simp

end Pieces

/-! ## One line -/

/-- The line is broken as it should be. -/
def Breakable (n : ℕ) (line : List UInt8) : Prop :=
  0 ∉ line ∧ (line.length < n ∨ n = 50 ∧ 2 ≤ line.length % 50)

section Line

variable {n : ℕ} (hn : 0 < n) {s : List UInt8}

theorem length_flatMap_newline (ls : List (List UInt8)) :
    (ls.flatMap (· ++ [NEWLINE])).length = ls.flatten.length + ls.length := by
  induction ls with
  | nil => rfl
  | cons line ls ih =>
    simp only [List.flatMap_cons, List.flatten_cons, List.length_append, List.length_cons,
      List.length_nil, ih]
    omega

include hn in
theorem length_broken (s : List UInt8) :
    (broken n (s ++ [NEWLINE])).length = s.length + (s.length - 1) / n + 1 := by
  rw [broken, List.dropLast_concat, length_flatMap_newline, flatten_cut hn, length_cut hn,
    Nat.add_assoc]

include hn in
/-- The lines of a broken line have at most as many bytes as the breakpoint, and only an empty
line gives an empty one. -/
theorem of_mem_lines_broken {s : List UInt8} (hs : NEWLINE ∉ s) {line : List UInt8}
    (h : line ∈ lines (broken n (s ++ [NEWLINE]))) :
    ∃ piece, line = piece ++ [NEWLINE] ∧ piece.length ≤ n ∧ (s ≠ [] → piece ≠ []) := by
  have hlines : lines (broken n (s ++ [NEWLINE])) = (cut n s).map (· ++ [NEWLINE]) := by
    rw [broken, List.dropLast_concat, List.flatMap_def]
    apply lines_flatten
    intro line hline
    obtain ⟨piece, hpiece, rfl⟩ := List.mem_map.mp hline
    refine ⟨piece, fun hmem => hs ?_, rfl⟩
    rw [← flatten_cut hn s]
    exact List.mem_flatten_of_mem hpiece hmem
  rw [hlines] at h
  obtain ⟨piece, hpiece, rfl⟩ := List.mem_map.mp h
  exact ⟨piece, rfl, length_le_of_mem_cut hn hpiece, fun hne => ne_nil_of_mem_cut hn hne hpiece⟩

theorem length_breakBlock (n : ℕ) (line : List UInt8) :
    (breakBlock n line).length = line.length + line.length / n := by
  unfold breakBlock
  split_ifs with hwhole
  · rw [hwhole, Nat.add_zero]
  · exact length_strncpy _ _

include hn in
theorem length_broken_le (s : List UInt8) :
    (broken n (s ++ [NEWLINE])).length ≤ (breakBlock n (s ++ [NEWLINE])).length := by
  have hle : (s.length - 1) / n ≤ (s.length + 1) / n := Nat.div_le_div_right (by omega)
  rw [length_broken hn, length_breakBlock, List.length_append, List.length_singleton]
  omega

variable (hzero : 0 ∉ s) (hnewline : NEWLINE ∉ s)

include hzero

theorem breakBlock_first (hlong : n ≤ s.length + 1) (hn : 0 < n) :
    ∃ after, breakBlock n (s ++ [NEWLINE]) = s.take 50 ++ NEWLINE :: after := by
  have hlength : (s ++ [NEWLINE]).length = s.length + 1 := by simp
  have hbreaks : 0 < (s.length + 1) / n := Nat.div_pos hlong hn
  obtain ⟨rest, hrest⟩ : ∃ rest, brokenLine (s ++ [NEWLINE]) ((s.length + 1) / n + 1) =
      (s.take 50 ++ [NEWLINE]) ++ rest := by
    rw [brokenLine_succ]
    rcases Nat.lt_or_ge s.length 50 with hlt | hge
    · refine ⟨NEWLINE :: brokenLine ((s ++ [NEWLINE]).drop 50) ((s.length + 1) / n), ?_⟩
      rw [List.take_of_length_le (by omega : (s ++ [NEWLINE]).length ≤ 50),
        List.take_of_length_le hlt.le]
    · exact ⟨_, by rw [List.take_append_of_le_length hge, ← List.append_cons]⟩
  have hpiece : 0 ∉ s.take 50 ++ [NEWLINE] := by
    simp only [List.mem_append, List.mem_singleton, not_or]
    exact ⟨fun hmem => hzero (List.mem_of_mem_take hmem), by decide⟩
  have hfits : (s.take 50 ++ [NEWLINE]).length ≤ s.length + 1 + (s.length + 1) / n := by
    rw [List.length_append, List.length_singleton, List.length_take]
    omega
  rw [breakBlock, hlength, if_neg hbreaks.ne', hrest, strncpy_append hpiece hfits,
    List.append_assoc]
  exact ⟨_, rfl⟩

include hnewline

include hn in
theorem breakBlock_eq_iff : breakBlock n (s ++ [NEWLINE]) = broken n (s ++ [NEWLINE]) ↔
    Breakable n (s ++ [NEWLINE]) := by
  have hfree : 0 ∉ s ++ [NEWLINE] := by simp [hzero, NEWLINE]
  have hlength : (s ++ [NEWLINE]).length = s.length + 1 := by simp
  rw [Breakable, and_iff_right hfree, hlength]
  constructor
  · intro h
    by_contra hnot
    rw [not_or, Nat.not_lt] at hnot
    have hsize := congrArg List.length h
    rw [length_breakBlock, length_broken hn, hlength] at hsize
    have hpos : 0 < (s.length + 1) / n := Nat.div_pos hnot.1 hn
    have hlt : n ≤ s.length - 1 := by
      by_contra hle
      rw [Nat.div_eq_of_lt (by omega : s.length - 1 < n)] at hsize
      omega
    obtain ⟨after, hafter⟩ := breakBlock_first hzero hnot.1 hn
    -- the first piece of the block and of the text
    have hne : s.drop n ≠ [] := by
      rw [Ne, List.drop_eq_nil_iff]
      omega
    have htake : (s.take n).length = n := List.length_take_of_le (by omega)
    have hbroken := cut_append hn htake hne
    rw [List.take_append_drop] at hbroken
    rw [hafter, broken, List.dropLast_concat, hbroken, List.flatMap_cons, List.append_assoc] at h
    have hpiece := (append_cons_inj (fun hmem => hnewline (List.mem_of_mem_take hmem))
      (fun hmem => hnewline (List.mem_of_mem_take hmem)) h).1
    have hfifty := congrArg List.length hpiece
    rw [htake, List.length_take] at hfifty
    obtain rfl : n = 50 := by omega
    omega
  · rintro (hshort | ⟨rfl, hrest⟩)
    · have hwhole : (s ++ [NEWLINE]).length / n = 0 := Nat.div_eq_of_lt (by omega)
      rw [breakBlock, if_pos hwhole, broken, List.dropLast_concat, cut_of_le (by omega),
        List.flatMap_singleton]
    · have hpieces : brokenLine (s ++ [NEWLINE]) ((s.length + 1) / 50 + 1) = _ :=
        brokenLine_eq (by omega) (by omega)
      have hwritten : 0 ∉ (cut 50 s).flatMap (· ++ [NEWLINE]) := by
        intro hmem
        have := zero_notMem_brokenLine hfree ((s.length + 1) / 50 + 1)
        rw [hpieces] at this
        exact this (List.mem_append_left _ hmem)
      have hsize := length_broken hn s
      rw [broken, List.dropLast_concat] at hsize ⊢
      unfold breakBlock
      split_ifs with hwhole
      · rw [hlength] at hwhole
        rw [cut_of_le (by omega), List.flatMap_singleton]
      · have hnone : s.length + 1 + (s.length + 1) / 50 -
            ((cut 50 s).flatMap (· ++ [NEWLINE])).length = 0 := by omega
        rw [hlength, hpieces, strncpy_append hwritten (by omega), hnone]
        exact List.append_nil _

theorem countP_plain : (s ++ [NEWLINE]).countP plain = s.length := by
  have hplain : ∀ c ∈ s, plain c = true := fun c hc =>
    decide_eq_true ⟨fun h => hzero (h ▸ hc), fun h => hnewline (h ▸ hc)⟩
  rw [List.countP_append, List.countP_eq_length.mpr hplain]
  rfl

theorem countP_breakBlock (n : ℕ) :
    (breakBlock n (s ++ [NEWLINE])).countP plain ≤ s.length ∧
      (0 ∈ breakBlock n (s ++ [NEWLINE]) →
        (breakBlock n (s ++ [NEWLINE])).countP plain < s.length) := by
  have hfree : 0 ∉ s ++ [NEWLINE] := by simp [hzero, NEWLINE]
  have hlength : (s ++ [NEWLINE]).length = s.length + 1 := by simp
  have hcount := countP_plain hzero hnewline
  unfold breakBlock
  split_ifs with hwhole
  · exact ⟨hcount.le, fun h => absurd h hfree⟩
  · rw [hlength]
    generalize (s.length + 1) / n = breaks
    have hwritten := zero_notMem_brokenLine hfree (breaks + 1)
    have hsize := length_brokenLine (s ++ [NEWLINE]) (breaks + 1)
    have hplain := countP_brokenLine (s ++ [NEWLINE]) (breaks + 1)
    rw [hlength] at hsize
    generalize brokenLine (s ++ [NEWLINE]) (breaks + 1) = pieces at hwritten hsize hplain ⊢
    have hnul : (List.replicate (s.length + 1 + breaks - (pieces.take (s.length + 1 + breaks)).length)
        (0 : UInt8)).countP plain = 0 := by
      rw [List.countP_replicate]
      rfl
    rw [strncpy, contents_of_notMem hwritten, List.countP_append, hnul, Nat.add_zero]
    have hpart := ((List.take_sublist (s.length + 1 + breaks) pieces).countP_le (p := plain))
    constructor
    · refine hpart.trans ?_
      rw [hplain]
      exact ((List.take_sublist _ _).countP_le).trans hcount.le
    · intro hmem
      have hpad : pieces.length < s.length + 1 + breaks := by
        by_contra hge
        rw [List.length_take, Nat.min_eq_left (by omega), Nat.sub_self, List.replicate_zero,
          List.append_nil] at hmem
        exact hwritten (List.mem_of_mem_take hmem)
      refine (hpart.trans (hplain.le.trans List.countP_le_length)).trans_lt ?_
      rw [List.length_take, hlength]
      omega

end Line

/-! ## Whole files -/

theorem countP_broken {n : ℕ} (hn : 0 < n) {s : List UInt8} (hnewline : NEWLINE ∉ s) :
    (broken n (s ++ [NEWLINE])).countP plain = (s.filter (· ≠ 0)).length := by
  have hpieces (ls : List (List UInt8)) :
      (ls.flatMap (· ++ [NEWLINE])).countP plain = ls.flatten.countP plain := by
    induction ls with
    | nil => rfl
    | cons piece ls ih =>
      rw [List.flatMap_cons, List.flatten_cons, List.countP_append, List.countP_append,
        List.countP_append, ih]
      rfl
  rw [broken, List.dropLast_concat, hpieces, flatten_cut hn, ← List.countP_eq_length_filter]
  apply List.countP_congr
  intro c hc
  have hne : c ≠ NEWLINE := fun h => hnewline (h ▸ hc)
  simp [plain, hne]

theorem mem_broken {n : ℕ} (hn : 0 < n) {s : List UInt8} {c : UInt8} (hc : c ∈ s) :
    c ∈ broken n (s ++ [NEWLINE]) := by
  rw [← flatten_cut hn s] at hc
  obtain ⟨piece, hpiece, hmem⟩ := List.mem_flatten.mp hc
  rw [broken, List.dropLast_concat]
  exact List.mem_flatMap.mpr ⟨piece, hpiece, List.mem_append_left _ hmem⟩

section File

variable {n : ℕ} (hn : 0 < n) {file : List UInt8}

include hn

theorem breakLine_eq {line : List UInt8} (hline : line ∈ strings file) :
    breakLine n line =
      if line.length / n = 0 ∨ 50 * (line.length / n) < MAX_LINE_LEN then some (breakBlock n line)
      else none := by
  have hbreaks : ((line.length : ℤ).tdiv n) = (line.length / n : ℕ) := by
    rw [Int.tdiv_eq_ediv_of_nonneg (Int.natCast_nonneg _), Int.natCast_ediv]
  have hsize : brokenSize n line = (line.length + line.length / n : ℕ) := by
    rw [brokenSize, stringSize_of_mem_strings hline, hbreaks, Nat.cast_add]
  rw [breakLine, hsize, stringSize_of_mem_strings hline, hbreaks, if_neg (by omega), breakBlock,
    strncpy_eq_self (zero_notMem_of_mem_strings hline)]
  by_cases hwhole : line.length / n = 0
  · simp [hwhole]
  · have hcast : ¬ ((line.length / n : ℕ) : ℤ) = 0 := by exact_mod_cast hwhole
    have hbound : (50 * ((line.length / n : ℕ) : ℤ) < (MAX_LINE_LEN : ℕ)) ↔
        50 * (line.length / n) < MAX_LINE_LEN := by exact_mod_cast Iff.rfl
    rw [if_neg hcast, if_neg hwhole]
    simp only [hbound, hwhole, false_or, Int.toNat_natCast]
    rfl

variable (hterm : Terminated file) (hfits : Fits file)

include hterm hfits

theorem breaks_iff : (∃ written, blocksOf (breakLine n) (strings file) = some written ∧
      written.flatten = (lines file).flatMap (broken n)) ↔
    ∀ line ∈ lines file, Breakable n line := by
  have hstrings := strings_of_terminated hterm
  have hblock : ∀ line ∈ strings file, ∀ block, breakLine n line = some block →
      block = breakBlock n line := by
    intro line hline block h
    rw [breakLine_eq hn hline] at h
    split_ifs at h
    exact (Option.some.inj h).symm
  constructor
  · rintro ⟨written, hwritten, htext⟩
    have hmap := blocksOf_eq_some_map hblock (by rw [hwritten]; rfl)
    obtain rfl := Option.some.inj (hwritten.symm.trans hmap)
    rw [hstrings, List.map_map, ← List.flatMap_def] at htext
    -- the bytes that are counted are those of the line, so no block has a NUL
    have hcount : ∀ line ∈ lines file,
        (breakBlock n (line.filter (· ≠ 0))).countP plain ≤ (broken n line).countP plain ∧
          (0 ∈ breakBlock n (line.filter (· ≠ 0)) →
            (breakBlock n (line.filter (· ≠ 0))).countP plain < (broken n line).countP plain) := by
      intro line hline
      obtain ⟨s, hs, rfl⟩ := exists_of_mem_lines hterm hline
      rw [List.filter_append, countP_broken hn hs]
      exact countP_breakBlock (by simp) (fun hmem => hs (List.mem_of_mem_filter hmem)) n
    have hsum := congrArg (List.countP plain) htext
    rw [List.countP_flatMap, List.countP_flatMap] at hsum
    have hequal := eq_of_sum_eq (fun line hline => (hcount line hline).1) hsum
    have hwhole : ∀ line ∈ lines file, 0 ∉ line := by
      intro line hline hzero
      obtain ⟨s, _, rfl⟩ := exists_of_mem_lines hterm hline
      have hmem : (0 : UInt8) ∈ (lines file).flatMap (broken n) := by
        refine List.mem_flatMap.mpr ⟨_, hline, mem_broken hn ?_⟩
        simpa [NEWLINE] using hzero
      rw [← htext] at hmem
      obtain ⟨line', hline', hzero'⟩ := List.mem_flatMap.mp hmem
      exact absurd (hequal line' hline') ((hcount line' hline').2 hzero').ne
    have hblocks : (lines file).flatMap (broken n) = (lines file).flatMap (breakBlock n) := by
      rw [← htext]
      exact List.flatMap_congr fun line hline =>
        congrArg (breakBlock n) (filter_of_notMem (hwhole line hline))
    have hsame := eq_of_flatMap_eq (fun line hline => by
      obtain ⟨s, _, rfl⟩ := exists_of_mem_lines hterm hline
      exact length_broken_le hn s) hblocks
    intro line hline
    have hzero := hwhole line hline
    have hline' := hsame line hline
    obtain ⟨s, hs, rfl⟩ := exists_of_mem_lines hterm hline
    exact (breakBlock_eq_iff hn (fun h => hzero (List.mem_append_left _ h)) hs).mp hline'.symm
  · intro h
    have hfree : ∀ line ∈ lines file, line.filter (· ≠ 0) = line :=
      fun line hline => filter_of_notMem (h line hline).1
    rw [List.map_congr_left hfree, List.map_id'] at hstrings
    rw [hstrings] at hblock ⊢
    have hsome : (blocksOf (breakLine n) (lines file)).isSome := by
      rw [blocksOf_isSome_iff]
      intro line hline
      have hlong : line.length < MAX_LINE_LEN := hfits line (hstrings ▸ hline)
      refine ⟨hlong, ?_⟩
      have hbreaks : line.length / n = 0 ∨ 50 * (line.length / n) < MAX_LINE_LEN := by
        rcases (h line hline).2 with hshort | ⟨rfl, _⟩
        · exact .inl (Nat.div_eq_of_lt hshort)
        · exact .inr (by omega)
      rw [breakLine_eq hn (hstrings ▸ hline), if_pos hbreaks]
      rfl
    refine ⟨_, blocksOf_eq_some_map hblock hsome, ?_⟩
    rw [← List.flatMap_def]
    apply List.flatMap_congr
    intro line hline
    have hbreakable := h line hline
    obtain ⟨s, hs, rfl⟩ := exists_of_mem_lines hterm hline
    have hzero : 0 ∉ s := fun hmem => hbreakable.1 (List.mem_append_left _ hmem)
    exact (breakBlock_eq_iff hn hzero hs).mpr hbreakable

/-- Lines are broken at the breakpoint exactly if they can be read and are shorter, or if it is
the length of the pieces that are copied, and not if the last piece is then full or one byte
short. -/
theorem breakLines_breaks_iff (build : Build) :
    build.Writes (breakLines build.interface file · n) ((lines file).flatMap (broken n)) ↔
      build.interface.Reads file ∧ ∀ line ∈ lines file, Breakable n line := by
  simp only [breakLines_eq]
  rw [build.writes_iff, exists_blocks_iff, breaks_iff hn hterm hfits]

end File

theorem breakLines_breaks_iff_oneLine :
    (Build.sys true).Writes (breakLines (Build.sys true).interface [97, 98, 10] · (4 : ℕ))
        ((lines [97, 98, 10]).flatMap (broken 4)) ↔
      (Build.sys true).interface.Reads [97, 98, 10] ∧
        ∀ line ∈ lines [97, 98, 10], Breakable 4 line :=
  breakLines_breaks_iff (by decide) (.inr rfl) (fits_of_length_lt (by decide)) (.sys true)

/-- A breakpoint of two does not break a line of three bytes. -/
theorem not_breakLines_breaks :
    ¬ ∀ (file : List UInt8) (n : ℕ), 0 < n → Terminated file → Fits file →
      (Build.sys true).Writes (breakLines (Build.sys true).interface file · n)
        ((lines file).flatMap (broken n)) := by
  intro hclaim
  have hfits : Fits [97, 98, 99, 10] := fits_of_length_lt (by decide)
  have h := hclaim [97, 98, 99, 10] 2 (by decide) (.inr rfl) hfits
  simp only [breakLines_eq] at h
  rw [Build.writes_iff, exists_blocks_iff, breaks_iff (by decide) (.inr rfl) hfits] at h
  have hline := (h.2 [97, 98, 99, 10] (by decide)).2
  revert hline
  decide

end Sysopy.TextLibrary
