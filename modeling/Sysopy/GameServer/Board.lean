import Sysopy.GameServer.Message

/-!
# The board and `check_board`

`checkBoard` is the function of the server. It adds the symbols of the complete
lines in one `char` and leaves early while the sum is still zero. The rules of
the game are stated beside it: the eight lines, when a board is decided, and
which character a decided board should announce.
-/
namespace Sysopy.GameServer

def emptyBoard : Board := fun _ => BLANK

/-- `check_line`: the common symbol of three fields, or zero. -/
def checkLine (field1 field2 field3 : CChar) : CChar :=
  if field1 ≠ BLANK ∧ field1 = field2 ∧ field2 = field3 then field1 else 0

/-- The loop of `check_board` over all fields. -/
def full (board : Board) : Bool := decide (∀ i, board i ≠ BLANK)

def columnSum (board : Board) : CChar :=
  checkLine (board 0) (board 3) (board 6) + checkLine (board 1) (board 4) (board 7) +
    checkLine (board 2) (board 5) (board 8)

def rowSum (board : Board) : CChar :=
  checkLine (board 0) (board 1) (board 2) + checkLine (board 3) (board 4) (board 5) +
    checkLine (board 6) (board 7) (board 8)

/-- `check_board`; zero lets the game go on. -/
def checkBoard (board : Board) : CChar :=
  let columns := columnSum board
  if columns = 0 then columns
  else
    let rows := columns + rowSum board
    if rows = 0 then rows
    else
      let diagonal := rows + checkLine (board 0) (board 4) (board 8)
      if diagonal = 0 then diagonal
      else
        let winner := diagonal + checkLine (board 2) (board 4) (board 6)
        if full board then DRAW else winner

/-! ## The rules -/

abbrev Line := Fin BOARD_SIZE × Fin BOARD_SIZE × Fin BOARD_SIZE

def columns : List Line := [(0, 3, 6), (1, 4, 7), (2, 5, 8)]
def rows : List Line := [(0, 1, 2), (3, 4, 5), (6, 7, 8)]
def diagonals : List Line := [(0, 4, 8), (2, 4, 6)]
def winningLines : List Line := columns ++ rows ++ diagonals

def Line.fields (l : Line) : List (Fin BOARD_SIZE) := [l.1, l.2.1, l.2.2]

/-- One symbol fills the line. -/
def CompleteLine (board : Board) (l : Line) : Prop :=
  board l.1 ≠ BLANK ∧ board l.1 = board l.2.1 ∧ board l.2.1 = board l.2.2

instance (board : Board) (l : Line) : Decidable (CompleteLine board l) :=
  inferInstanceAs (Decidable (_ ∧ _ ∧ _))

def Full (board : Board) : Prop := ∀ i, board i ≠ BLANK

instance (board : Board) : Decidable (Full board) := inferInstanceAs (Decidable (∀ _, _))

theorem full_eq_true (board : Board) : full board = true ↔ Full board := by
  simp [full, Full]

/-- A row, column or diagonal is complete, or no field is left. -/
def Decided (board : Board) : Prop :=
  (∃ l ∈ winningLines, CompleteLine board l) ∨ Full board

instance (board : Board) : Decidable (Decided board) :=
  inferInstanceAs (Decidable ((∃ l ∈ winningLines, _) ∨ _))

/-- What a decided board announces: the owner of a complete line, or a draw on
a full board without one. -/
def Announces (board : Board) (c : CChar) : Prop :=
  (∃ l ∈ winningLines, CompleteLine board l ∧ board l.1 = c) ∨
    (Full board ∧ (∀ l ∈ winningLines, ¬ CompleteLine board l) ∧ c = DRAW)

instance (board : Board) (c : CChar) : Decidable (Announces board c) :=
  inferInstanceAs (Decidable ((∃ l ∈ winningLines, _) ∨ (_ ∧ (∀ l ∈ winningLines, _) ∧ _)))

/-- The only boards on which `check_board` follows the rules: one column is
complete, no other line is, and a field is left. -/
def SingleColumn (board : Board) : Prop :=
  (∃ l ∈ columns, CompleteLine board l ∧
    ∀ l' ∈ winningLines, CompleteLine board l' → l' = l) ∧ ¬ Full board

instance (board : Board) : Decidable (SingleColumn board) :=
  inferInstanceAs (Decidable ((∃ l ∈ columns, _ ∧ ∀ l' ∈ winningLines, _ → _) ∧ _))

theorem not_decided_emptyBoard : ¬ Decided emptyBoard := by decide

/-! ## One move on an undecided board -/

theorem completeLine_update_of_notMem {board : Board} {i : Fin BOARD_SIZE} {s : CChar} {l : Line}
    (hi : i ∉ l.fields) :
    CompleteLine (Function.update board i s) l ↔ CompleteLine board l := by
  simp only [Line.fields, List.mem_cons, List.not_mem_nil, or_false, not_or] at hi
  obtain ⟨h1, h2, h3⟩ := hi
  simp [CompleteLine, Function.update_of_ne (Ne.symm h1), Function.update_of_ne (Ne.symm h2),
    Function.update_of_ne (Ne.symm h3)]

theorem CompleteLine.eq_of_mem {board : Board} {l : Line} (h : CompleteLine board l)
    {i : Fin BOARD_SIZE} (hi : i ∈ l.fields) : board l.1 = board i := by
  obtain ⟨_, h12, h23⟩ := h
  simp only [Line.fields, List.mem_cons, List.not_mem_nil, or_false] at hi
  rcases hi with rfl | rfl | rfl
  · rfl
  · exact h12
  · exact h12.trans h23

theorem mem_fields_of_completes {board : Board} (hboard : ¬ Decided board)
    {i : Fin BOARD_SIZE} {s : CChar} {l : Line} (hl : l ∈ winningLines)
    (h : CompleteLine (Function.update board i s) l) : i ∈ l.fields := by
  by_contra hi
  exact hboard (Or.inl ⟨l, hl, (completeLine_update_of_notMem hi).mp h⟩)

theorem symbol_of_completes {board : Board} (hboard : ¬ Decided board)
    {i : Fin BOARD_SIZE} {s : CChar} {l : Line} (hl : l ∈ winningLines)
    (h : CompleteLine (Function.update board i s) l) :
    Function.update board i s l.1 = s := by
  rw [h.eq_of_mem (mem_fields_of_completes hboard hl h)]
  simp

/-- `check_line` on a line of the board. -/
def lineValue (board : Board) (l : Line) : CChar :=
  checkLine (board l.1) (board l.2.1) (board l.2.2)

theorem lineValue_eq (board : Board) (l : Line) :
    lineValue board l = if CompleteLine board l then board l.1 else 0 := rfl

theorem lineValue_of_not_complete {board : Board} {l : Line} (h : ¬ CompleteLine board l) :
    lineValue board l = 0 := by
  rw [lineValue_eq, if_neg h]

/-- A nonzero result of `check_board` comes from a complete column. -/
theorem exists_column_of_checkBoard_ne_zero {board : Board} (h : checkBoard board ≠ 0) :
    ∃ l ∈ columns, CompleteLine board l := by
  by_contra hnone
  push Not at hnone
  have hsum : columnSum board = 0 := by
    change lineValue board (0, 3, 6) + lineValue board (1, 4, 7) + lineValue board (2, 5, 8) = 0
    rw [lineValue_of_not_complete (hnone _ (by decide)),
      lineValue_of_not_complete (hnone _ (by decide)),
      lineValue_of_not_complete (hnone _ (by decide))]
    rfl
  exact h (by simp [checkBoard, hsum])

theorem columns_subset (l : Line) (hl : l ∈ columns) : l ∈ winningLines :=
  List.mem_append_left _ (List.mem_append_left _ hl)

theorem rows_subset (l : Line) (hl : l ∈ rows) : l ∈ winningLines :=
  List.mem_append_left _ (List.mem_append_right _ hl)

theorem decided_of_checkBoard_ne_zero {board : Board} (h : checkBoard board ≠ 0) :
    Decided board := by
  obtain ⟨l, hl, hc⟩ := exists_column_of_checkBoard_ne_zero h
  exact Or.inl ⟨l, columns_subset l hl, hc⟩

section Move

variable {board : Board} {i : Fin BOARD_SIZE} {s : CChar}

theorem lineValue_after_move (hboard : ¬ Decided board) {l : Line} (hl : l ∈ winningLines) :
    lineValue (Function.update board i s) l =
      if CompleteLine (Function.update board i s) l then s else 0 := by
  rw [lineValue_eq]
  split_ifs with h
  · exact symbol_of_completes hboard hl h
  · rfl

/-- Three lines of which at most one goes through the field of the move: their
sum is the symbol of the mover when one of them is completed, else zero. -/
theorem sum_after_move (hboard : ¬ Decided board) (l₁ l₂ l₃ : Line)
    (hl : ∀ l ∈ [l₁, l₂, l₃], l ∈ winningLines)
    (hdisjoint : ∀ l ∈ [l₁, l₂, l₃], ∀ l' ∈ [l₁, l₂, l₃], i ∈ l.fields → i ∈ l'.fields → l = l')
    (hne : [l₁, l₂, l₃].Nodup) :
    lineValue (Function.update board i s) l₁ + lineValue (Function.update board i s) l₂ +
        lineValue (Function.update board i s) l₃ =
      if ∃ l ∈ [l₁, l₂, l₃], CompleteLine (Function.update board i s) l then s else 0 := by
  have hthrough : ∀ l ∈ [l₁, l₂, l₃], CompleteLine (Function.update board i s) l →
      i ∈ l.fields := fun l h hc => mem_fields_of_completes hboard (hl l h) hc
  have honce : ∀ l ∈ [l₁, l₂, l₃], ∀ l' ∈ [l₁, l₂, l₃], l ≠ l' →
      CompleteLine (Function.update board i s) l →
      ¬ CompleteLine (Function.update board i s) l' :=
    fun l h l' h' hll hc hc' => hll (hdisjoint l h l' h' (hthrough l h hc) (hthrough l' h' hc'))
  simp only [List.nodup_cons, List.mem_cons, List.not_mem_nil, or_false, not_or] at hne
  obtain ⟨⟨h12, h13⟩, h23, _⟩ := hne
  rw [lineValue_after_move hboard (hl l₁ (by simp)), lineValue_after_move hboard (hl l₂ (by simp)),
    lineValue_after_move hboard (hl l₃ (by simp))]
  by_cases c₁ : CompleteLine (Function.update board i s) l₁
  · have c₂ := honce l₁ (by simp) l₂ (by simp) h12 c₁
    have c₃ := honce l₁ (by simp) l₃ (by simp) h13 c₁
    simp [c₁, c₂, c₃]
  · by_cases c₂ : CompleteLine (Function.update board i s) l₂
    · have c₃ := honce l₂ (by simp) l₃ (by simp) h23 c₂
      simp [c₁, c₂, c₃]
    · simp [c₁, c₂]

theorem eq_of_mem_fields {ls : List Line}
    (hapart : ls.Pairwise fun l l' => ∀ j ∈ l.fields, j ∉ l'.fields) (i : Fin BOARD_SIZE) :
    ∀ l ∈ ls, ∀ l' ∈ ls, i ∈ l.fields → i ∈ l'.fields → l = l' := by
  have : Std.Symm fun l l' : Line => ∀ j ∈ l.fields, j ∉ l'.fields :=
    ⟨fun _ _ h j hj' hj => h j hj hj'⟩
  intro l hl l' hl' hi hi'
  by_contra hne
  exact hapart.forall hl hl' hne i hi hi'

theorem columns_disjoint : ∀ i : Fin BOARD_SIZE, ∀ l ∈ columns, ∀ l' ∈ columns,
    i ∈ l.fields → i ∈ l'.fields → l = l' :=
  eq_of_mem_fields (by decide)

theorem rows_disjoint : ∀ i : Fin BOARD_SIZE, ∀ l ∈ rows, ∀ l' ∈ rows,
    i ∈ l.fields → i ∈ l'.fields → l = l' :=
  eq_of_mem_fields (by decide)

theorem columnSum_after_move (hboard : ¬ Decided board) :
    columnSum (Function.update board i s) =
      if ∃ l ∈ columns, CompleteLine (Function.update board i s) l then s else 0 := by
  have h := sum_after_move (i := i) (s := s) hboard (0, 3, 6) (1, 4, 7) (2, 5, 8)
    columns_subset (columns_disjoint i) (by decide)
  exact h

theorem rowSum_after_move (hboard : ¬ Decided board) :
    rowSum (Function.update board i s) =
      if ∃ l ∈ rows, CompleteLine (Function.update board i s) l then s else 0 := by
  have h := sum_after_move (i := i) (s := s) hboard (0, 1, 2) (3, 4, 5) (6, 7, 8)
    rows_subset (rows_disjoint i) (by decide)
  exact h

theorem announces_of_complete (hboard : ¬ Decided board) {l : Line} (hl : l ∈ winningLines)
    (hc : CompleteLine (Function.update board i s) l) (c : CChar) :
    Announces (Function.update board i s) c ↔ c = s := by
  constructor
  · rintro (⟨l', hl', hc', rfl⟩ | ⟨_, hnone, _⟩)
    · exact symbol_of_completes hboard hl' hc'
    · exact absurd hc (hnone l hl)
  · rintro rfl
    exact Or.inl ⟨l, hl, hc, symbol_of_completes hboard hl hc⟩

theorem early_returns : ∀ s ∈ [TICK1, TICK2], ∀ column row diagonal₁ diagonal₂ isFull : Bool,
    (let columns := if column then s else 0
      if columns = 0 then columns
      else
        let rows := columns + if row then s else 0
        if rows = 0 then rows
        else
          let diagonal := rows + if diagonal₁ then s else 0
          if diagonal = 0 then diagonal
          else
            let winner := diagonal + if diagonal₂ then s else 0
            if isFull then DRAW else winner) =
      if column then
        if isFull then DRAW
        else s + (if row then s else 0) + (if diagonal₁ then s else 0) +
          (if diagonal₂ then s else 0)
      else 0 :=
  List.forall_mem_cons.mpr ⟨by decide, List.forall_mem_singleton.mpr (by decide)⟩

/-- `check_board` after a move on an undecided board, by the kinds of lines
that the move completes. -/
theorem checkBoard_after_move (hboard : ¬ Decided board) (hs : s = TICK1 ∨ s = TICK2) :
    checkBoard (Function.update board i s) =
      if ∃ l ∈ columns, CompleteLine (Function.update board i s) l then
        if Full (Function.update board i s) then DRAW
        else s + (if ∃ l ∈ rows, CompleteLine (Function.update board i s) l then s else 0) +
          (if CompleteLine (Function.update board i s) (0, 4, 8) then s else 0) +
          (if CompleteLine (Function.update board i s) (2, 4, 6) then s else 0)
      else 0 := by
  have hd₁ := lineValue_after_move (i := i) (s := s) hboard (l := (0, 4, 8)) (by decide)
  have hd₂ := lineValue_after_move (i := i) (s := s) hboard (l := (2, 4, 6)) (by decide)
  have hreturns := early_returns s (by simpa using hs)
    (decide (∃ l ∈ columns, CompleteLine (Function.update board i s) l))
    (decide (∃ l ∈ rows, CompleteLine (Function.update board i s) l))
    (decide (CompleteLine (Function.update board i s) (0, 4, 8)))
    (decide (CompleteLine (Function.update board i s) (2, 4, 6)))
    (full (Function.update board i s))
  simp only [decide_eq_true_eq] at hreturns
  rw [← columnSum_after_move hboard, ← rowSum_after_move hboard, ← hd₁, ← hd₂] at hreturns
  rw [← rowSum_after_move hboard, ← hd₁, ← hd₂]
  simp only [← full_eq_true]
  exact hreturns

theorem checkBoard_of_singleColumn (hboard : ¬ Decided board) (hs : s = TICK1 ∨ s = TICK2)
    (h : SingleColumn (Function.update board i s)) :
    checkBoard (Function.update board i s) = s := by
  obtain ⟨⟨l, hl, hc, honly⟩, hfull⟩ := h
  have hrows : ¬ ∃ l' ∈ rows, CompleteLine (Function.update board i s) l' := by
    rintro ⟨l', hl', hc'⟩
    have hmem : l ∈ rows := honly l' (rows_subset l' hl') hc' ▸ hl'
    exact (by simp [columns, rows] : ∀ l ∈ columns, l ∉ rows) l hl hmem
  have hdiagonal : ∀ d ∈ diagonals, ¬ CompleteLine (Function.update board i s) d := by
    intro d hd hc'
    have hmem : l ∈ diagonals := honly d (List.mem_append_right _ hd) hc' ▸ hd
    exact (by simp [columns, diagonals] : ∀ l ∈ columns, l ∉ diagonals) l hl hmem
  rw [checkBoard_after_move hboard hs, if_pos ⟨l, hl, hc⟩, if_neg hfull, if_neg hrows,
    if_neg (hdiagonal _ (by decide)), if_neg (hdiagonal _ (by decide))]
  simp

/-- When `check_board` names the mover on a board that a move has decided, the
move completed one column and nothing else: one more line would change the sum. -/
theorem singleColumn_of_checkBoard (hboard : ¬ Decided board) (hs : s = TICK1 ∨ s = TICK2)
    (h : checkBoard (Function.update board i s) = s) :
    SingleColumn (Function.update board i s) := by
  have hne : s ≠ 0 := by rcases hs with rfl | rfl <;> decide
  obtain ⟨l, hl, hc⟩ := exists_column_of_checkBoard_ne_zero (h ▸ hne)
  rw [checkBoard_after_move hboard hs, if_pos ⟨l, hl, hc⟩] at h
  have hfull : ¬ Full (Function.update board i s) := by
    intro hfull
    rw [if_pos hfull] at h
    rcases hs with rfl | rfl <;> exact absurd h (by decide)
  rw [if_neg hfull] at h
  have hrows : ¬ ∃ l' ∈ rows, CompleteLine (Function.update board i s) l' := by
    intro hrow
    rw [if_pos hrow] at h
    rcases hs with rfl | rfl <;> split_ifs at h <;> exact absurd h (by decide)
  rw [if_neg hrows] at h
  have hdiagonal : ∀ d ∈ diagonals, ¬ CompleteLine (Function.update board i s) d := by
    have hboth : ¬ CompleteLine (Function.update board i s) (0, 4, 8) ∧
        ¬ CompleteLine (Function.update board i s) (2, 4, 6) := by
      rcases hs with rfl | rfl <;> split_ifs at h <;>
        first | exact ⟨‹_›, ‹_›⟩ | exact absurd h (by decide)
    intro d hd
    simp only [diagonals, List.mem_cons, List.not_mem_nil, or_false] at hd
    rcases hd with rfl | rfl
    · exact hboth.1
    · exact hboth.2
  refine ⟨⟨l, hl, hc, ?_⟩, hfull⟩
  intro l' hl' hc'
  rcases List.mem_append.mp hl' with hl' | hl'
  · rcases List.mem_append.mp hl' with hl' | hl'
    · exact columns_disjoint i l' hl' l hl
        (mem_fields_of_completes hboard (columns_subset l' hl') hc')
        (mem_fields_of_completes hboard (columns_subset l hl) hc)
    · exact absurd ⟨l', hl', hc'⟩ hrows
  · exact absurd hc' (hdiagonal l' hl')

end Move

end Sysopy.GameServer
