import Sysopy.GameServer.Game

/-!
# When a game ends

By the rules a game ends right after the first accepted move that decides the
board, and announces the owner of the complete line or a draw. `check_board`
leaves early while its sum is zero, so it sees no row and no diagonal without a
complete column, no full board without one, and it adds the symbols of two lines
completed at once. `gameConnection_followsRules_iff` says exactly which sequences
of moves the server handles by the rules.
-/
namespace Sysopy.GameServer

/-- The game ends after reading `k` messages, and the last two writes announce
`c` to both players. -/
def GameRun.EndsAfter (player1 player2 : Slot) (run : GameRun) (k : ℕ) (c : CChar) : Prop :=
  run.reads = k ∧ run.outcome = .ended c ∧
    ∃ msg : Message, msg.type = .msgEnd ∧ msg.winner = c ∧
      [Write.mk player1 msg, Write.mk player2 msg] <:+ run.writes

/-- By the rules the game ends after `k` messages and announces `c`: the board
is decided for the first time, and `c` is what it announces. -/
def RulesEndAt (msgs : List Message) (k : ℕ) (c : CChar) : Prop :=
  k ≤ msgs.length ∧ Decided (Position.start.after (msgs.take k)).board ∧
    (∀ j < k, ¬ Decided (Position.start.after (msgs.take j)).board) ∧
    Announces (Position.start.after (msgs.take k)).board c

/-- On these messages the server ends the game when the rules do, with the same
announcement, and lets it go on as long as they do. -/
def FollowsRules (name : Slot → Name) (player1 player2 : Slot) (msg : Message)
    (msgs : List Message) : Prop :=
  ∀ k c, (gameConnection name player1 player2 msg msgs).EndsAfter player1 player2 k c ↔
    RulesEndAt msgs k c

/-- If some move decides the board, the first such move completes one column
and nothing else. -/
def FirstDecisionIsColumn (msgs : List Message) : Prop :=
  ∀ k ≤ msgs.length, Decided (Position.start.after (msgs.take k)).board →
    (∀ j < k, ¬ Decided (Position.start.after (msgs.take j)).board) →
    SingleColumn (Position.start.after (msgs.take k)).board

section

variable (name : Slot → Name) (player1 player2 : Slot) (msg : Message)

theorem gameConnection_endsAfter_iff (msgs : List Message)
    (hmsgs : ∀ m ∈ msgs, m.type ≠ .msgDisconnect) (k : ℕ) (c : CChar) :
    (gameConnection name player1 player2 msg msgs).EndsAfter player1 player2 k c ↔
      k ≤ msgs.length ∧ checkBoard (Position.start.after (msgs.take k)).board = c ∧ c ≠ 0 ∧
        ∀ j < k, checkBoard (Position.start.after (msgs.take j)).board = 0 := by
  rw [← gameLoop_ended_iff player1 player2 msgs hmsgs
    (sendMsgUpdate (sendMsgStart name msg player1 player2).1 player1 player2 emptyBoard).1
    Position.start k c]
  constructor
  · rintro ⟨hreads, houtcome, _⟩
    exact ⟨hreads, houtcome⟩
  · rintro ⟨hreads, houtcome⟩
    obtain ⟨final, htype, hwinner, hsuffix⟩ :=
      gameLoop_ended_writes player1 player2 msgs _ _ c houtcome
    exact ⟨hreads, houtcome, final, htype, hwinner, hsuffix.trans (List.suffix_append _ _)⟩

/-- The first decided board of a game comes from one move on an undecided board. -/
theorem exists_deciding_move {msgs : List Message} {k : ℕ} (hk : k ≤ msgs.length)
    (hdecided : Decided (Position.start.after (msgs.take k)).board)
    (hfirst : ∀ j < k, ¬ Decided (Position.start.after (msgs.take j)).board) :
    ∃ (board : Board) (i : Fin BOARD_SIZE) (s : CChar), ¬ Decided board ∧
      (s = TICK1 ∨ s = TICK2) ∧
      (Position.start.after (msgs.take k)).board = Function.update board i s := by
  cases k with
  | zero => exact absurd hdecided not_decided_emptyBoard
  | succ k =>
    have hbefore := hfirst k (Nat.lt_succ_self k)
    rw [Position.after_take_succ _ _ hk] at hdecided ⊢
    rcases Position.play_board (Position.start.after (msgs.take k)) msgs[k] with h | ⟨i, h⟩
    · rw [h] at hdecided
      exact absurd hdecided hbefore
    · exact ⟨_, i, _, hbefore, tick_symbol _, h⟩

theorem rulesEndAt_of_first {msgs : List Message} {k : ℕ} (hk : k ≤ msgs.length)
    (hdecided : Decided (Position.start.after (msgs.take k)).board)
    (hfirst : ∀ j < k, ¬ Decided (Position.start.after (msgs.take j)).board) :
    ∃ c, RulesEndAt msgs k c := by
  rcases em (∃ l ∈ winningLines, CompleteLine (Position.start.after (msgs.take k)).board l)
    with ⟨l, hl, hc⟩ | hnone
  · exact ⟨_, hk, hdecided, hfirst, Or.inl ⟨l, hl, hc, rfl⟩⟩
  · push Not at hnone
    have hfull : Full (Position.start.after (msgs.take k)).board :=
      hdecided.resolve_left fun ⟨l, hl, hc⟩ => hnone l hl hc
    exact ⟨DRAW, hk, hdecided, hfirst, Or.inr ⟨hfull, hnone, rfl⟩⟩

/-- The first decision in a list of messages that decides the board at all. -/
theorem exists_first_decision {msgs : List Message} {k : ℕ}
    (hdecided : Decided (Position.start.after (msgs.take k)).board) :
    ∃ j ≤ k, Decided (Position.start.after (msgs.take j)).board ∧
      ∀ i < j, ¬ Decided (Position.start.after (msgs.take i)).board := by
  classical
  have hex : ∃ j, Decided (Position.start.after (msgs.take j)).board := ⟨k, hdecided⟩
  exact ⟨Nat.find hex, Nat.find_le hdecided, Nat.find_spec hex, fun i hi => Nat.find_min hex hi⟩

/-- The server follows the rules exactly on the move sequences whose first
decision, if any, is a single column on a board that is not full. -/
theorem gameConnection_followsRules_iff (msgs : List Message)
    (hmsgs : ∀ m ∈ msgs, m.type ≠ .msgDisconnect) :
    FollowsRules name player1 player2 msg msgs ↔ FirstDecisionIsColumn msgs := by
  constructor
  · intro hrules k hk hdecided hfirst
    obtain ⟨c, hend⟩ := rulesEndAt_of_first hk hdecided hfirst
    obtain ⟨_, hcheck, hne, _⟩ :=
      (gameConnection_endsAfter_iff name player1 player2 msg msgs hmsgs k c).mp
        ((hrules k c).mpr hend)
    obtain ⟨board, i, s, hboard, hs, hmove⟩ := exists_deciding_move hk hdecided hfirst
    have hannounce := hend.2.2.2
    rw [hmove] at hcheck hannounce ⊢
    obtain ⟨l, hl, hc⟩ := exists_column_of_checkBoard_ne_zero (hcheck ▸ hne)
    have hcs : c = s := (announces_of_complete hboard (columns_subset l hl) hc c).mp hannounce
    exact singleColumn_of_checkBoard hboard hs (hcheck.trans hcs)
  · intro hcolumn k c
    rw [gameConnection_endsAfter_iff name player1 player2 msg msgs hmsgs]
    -- at the first decision `check_board` names the mover, as the rules do
    have hdecision : ∀ k ≤ msgs.length, Decided (Position.start.after (msgs.take k)).board →
        (∀ j < k, ¬ Decided (Position.start.after (msgs.take j)).board) →
        checkBoard (Position.start.after (msgs.take k)).board ≠ 0 ∧
          ∀ c, Announces (Position.start.after (msgs.take k)).board c ↔
            checkBoard (Position.start.after (msgs.take k)).board = c := by
      intro k hk hdecided hfirst
      have hsingle := hcolumn k hk hdecided hfirst
      obtain ⟨board, i, s, hboard, hs, hmove⟩ := exists_deciding_move hk hdecided hfirst
      rw [hmove] at hsingle ⊢
      have hcheck := checkBoard_of_singleColumn hboard hs hsingle
      obtain ⟨⟨l, hl, hc, _⟩, _⟩ := hsingle
      refine ⟨?_, fun c => ?_⟩
      · rw [hcheck]
        rcases hs with rfl | rfl <;> decide
      · rw [announces_of_complete hboard (columns_subset l hl) hc c, hcheck]
        exact eq_comm
    constructor
    · rintro ⟨hk, hcheck, hne, hfirst⟩
      obtain ⟨j, hj, hdecided, hmin⟩ :=
        exists_first_decision (decided_of_checkBoard_ne_zero (hcheck ▸ hne))
      obtain ⟨hjne, hannounce⟩ := hdecision j (hj.trans hk) hdecided hmin
      have hjk : j = k := by
        by_contra hjk
        exact hjne (hfirst j (lt_of_le_of_ne hj hjk))
      subst hjk
      exact ⟨hk, hdecided, hmin, (hannounce c).mpr hcheck⟩
    · rintro ⟨hk, hdecided, hmin, hannounce⟩
      obtain ⟨hne, hiff⟩ := hdecision k hk hdecided hmin
      have hcheck := (hiff c).mp hannounce
      refine ⟨hk, hcheck, hcheck ▸ hne, fun j hj => ?_⟩
      by_contra hj0
      exact hmin j hj (decided_of_checkBoard_ne_zero hj0)

end

/-- A MOVE message as a client sends it. -/
def moveMessage (move : UInt8) : Message :=
  ⟨fun k => if k = 0 then move else 0, .msgMove⟩

/-- The first player takes fields 1, 4 and 7 and wins with the left column. -/
theorem leftColumn_followsRules :
    FollowsRules (fun _ => Vector.replicate _ 0) 0 1 (moveMessage 0)
      ([1, 2, 4, 5, 7].map moveMessage) :=
  (gameConnection_followsRules_iff _ 0 1 _ _ (by decide)).mpr (by
    intro k hk
    have hk5 : k ≤ 5 := hk
    interval_cases k <;> decide +kernel)

/-- The first player completes the top row with 1, 2, 3 and the server asks for
another move. -/
theorem not_followsRules_topRow :
    ¬ FollowsRules (fun _ => Vector.replicate _ 0) 0 1 (moveMessage 0)
      ([1, 4, 2, 5, 3].map moveMessage) := by
  intro h
  have hend : RulesEndAt ([1, 4, 2, 5, 3].map moveMessage) 5 TICK1 := by
    refine ⟨by decide, by decide +kernel, ?_, by decide +kernel⟩
    intro j hj
    interval_cases j <;> decide +kernel
  have hrun := ((h 5 TICK1).mpr hend).2.1
  revert hrun
  decide +kernel

end Sysopy.GameServer
