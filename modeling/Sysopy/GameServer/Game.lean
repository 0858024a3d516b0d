import Sysopy.GameServer.Board

/-!
# One game of the server

`gameConnection` is the function `game_connection` of the server, driven by the
messages that the `read` calls of `send_msg_move` return. It produces every
`write` in order and stops where the source stops: at the end of the game, after
a disconnection, or inside a `read` for which no message has come yet.
-/
namespace Sysopy.GameServer

abbrev Slot := Fin MAX_CLIENT_COUNT

/-- One `write(clients[player].socket_fd, msg, sizeof(struct message_t))`. -/
structure Write where
  player : Slot
  msg : Message
  deriving DecidableEq

/-! ## The `send_msg` functions: the message left in `msg` and the writes -/

def sendMsgStart (name : Slot → Name) (msg : Message) (player1 player2 : Slot) :
    Message × List Write :=
  let first := (msg.withType .msgStart).withInit TICK1 (name player2)
  let second := first.withInit TICK2 (name player1)
  (second, [⟨player1, first⟩, ⟨player2, second⟩])

def sendMsgUpdate (msg : Message) (player1 player2 : Slot) (board : Board) :
    Message × List Write :=
  let msg := (msg.withType .msgUpdate).withBoard board
  (msg, [⟨player1, msg⟩, ⟨player2, msg⟩])

/-- The request of `send_msg_move`; its `read` then overwrites `msg`. -/
def sendMsgMove (msg : Message) (player : Slot) : Message × List Write :=
  let msg := msg.withType .msgMove
  (msg, [⟨player, msg⟩])

/-- What `send_msg_disconnect` writes before it disconnects the client. -/
def sendMsgDisconnect (msg : Message) (player : Slot) : Message × List Write :=
  let msg := msg.withType .msgDisconnect
  (msg, [⟨player, msg⟩])

def sendMsgWaiting (msg : Message) (player : Slot) : Message × List Write :=
  let msg := msg.withType .msgWaiting
  (msg, [⟨player, msg⟩])

/-- What the player is told whose opponent has left. -/
def sendMsgDisconnectWaiting (msg : Message) (player : Slot) : List Write :=
  let disconnect := sendMsgDisconnect msg player
  disconnect.2 ++ (sendMsgWaiting disconnect.1 player).2

def sendMsgEnd (msg : Message) (player1 player2 : Slot) (winner : CChar) : List Write :=
  let msg := (msg.withType .msgEnd).withWinner winner
  [⟨player1, msg⟩, ⟨player2, msg⟩]

/-! ## The loop -/

/-- The board and the number of accepted moves at the head of the loop. -/
structure Position where
  board : Board
  round : ℕ

def Position.start : Position := ⟨emptyBoard, 0⟩

/-- `round % 2 ? TICK2 : TICK1`. -/
def tick (round : ℕ) : CChar := if round % 2 ≠ 0 then TICK2 else TICK1

/-- `players[round % 2]`. -/
def onTurn (player1 player2 : Slot) (round : ℕ) : Slot :=
  if round % 2 ≠ 0 then player2 else player1

/-- The field of a legal move; the loop goes on with `continue` without one. -/
def freeField (board : Board) (move : ℤ) : Option (Fin BOARD_SIZE) :=
  if h : 1 ≤ move ∧ move ≤ 9 then
    let i : Fin BOARD_SIZE := ⟨(move - 1).toNat, by unfold BOARD_SIZE; omega⟩
    if board i = BLANK then some i else none
  else none

inductive Turn
  | leaves
  | rejected
  | accepted (board : Board)

/-- The tests of the loop body on the message read by `send_msg_move`. -/
def turn (p : Position) (msg : Message) : Turn :=
  if msg.type = .msgDisconnect then .leaves
  else
    match freeField p.board msg.move with
    | none => .rejected
    | some i => .accepted (Function.update p.board i (tick p.round))

inductive Outcome
  | blocked
  | left
  | ended (winner : CChar)
  deriving DecidableEq

/-- The writes of a game, how many messages it read, and where it stopped. -/
structure GameRun where
  writes : List Write
  reads : ℕ
  outcome : Outcome
  deriving DecidableEq

/-- The same run with the writes of one more turn in front of it. -/
def GameRun.afterTurn (writes : List Write) (run : GameRun) : GameRun :=
  { run with writes := writes ++ run.writes, reads := run.reads + 1 }

/-- The `while` loop of `game_connection`; the list holds the messages that
the successive reads return. -/
def gameLoop (player1 player2 : Slot) (msg : Message) (p : Position) (inputs : List Message) :
    GameRun :=
  if checkBoard p.board ≠ 0 then
    ⟨sendMsgEnd msg player1 player2 (checkBoard p.board), 0, .ended (checkBoard p.board)⟩
  else
    let request := (sendMsgMove msg (onTurn player1 player2 p.round)).2
    match inputs with
    | [] => ⟨request, 0, .blocked⟩
    | input :: rest =>
      match turn p input with
      | .leaves =>
        ⟨request ++ sendMsgDisconnectWaiting input (onTurn player1 player2 (p.round + 1)), 1, .left⟩
      | .rejected => (gameLoop player1 player2 input p rest).afterTurn request
      | .accepted board =>
        let update := sendMsgUpdate input player1 player2 board
        (gameLoop player1 player2 update.1 ⟨board, p.round + 1⟩ rest).afterTurn
          (request ++ update.2)

/-- `game_connection`; `msg` is the uninitialised local variable. -/
def gameConnection (name : Slot → Name) (player1 player2 : Slot) (msg : Message)
    (inputs : List Message) : GameRun :=
  let start := sendMsgStart name msg player1 player2
  let update := sendMsgUpdate start.1 player1 player2 emptyBoard
  let run := gameLoop player1 player2 update.1 Position.start inputs
  { run with writes := start.2 ++ update.2 ++ run.writes }

/-! ## Positions of a game -/

/-- The position after one message, whether or not `check_board` would stop. -/
def Position.play (p : Position) (msg : Message) : Position :=
  match turn p msg with
  | .leaves => p
  | .rejected => p
  | .accepted board => ⟨board, p.round + 1⟩

def Position.after (p : Position) (msgs : List Message) : Position := msgs.foldl Position.play p

@[simp] theorem Position.after_nil (p : Position) : p.after [] = p := rfl

@[simp] theorem Position.after_cons (p : Position) (msg : Message) (msgs : List Message) :
    p.after (msg :: msgs) = (p.play msg).after msgs := rfl

theorem Position.after_take_succ (p : Position) (msgs : List Message) {k : ℕ}
    (hk : k < msgs.length) : p.after (msgs.take (k + 1)) = (p.after (msgs.take k)).play msgs[k] := by
  rw [List.take_succ_eq_append_getElem hk, Position.after, List.foldl_append]
  rfl

theorem tick_symbol (round : ℕ) : tick round = TICK1 ∨ tick round = TICK2 := by
  unfold tick
  split_ifs
  · exact Or.inr rfl
  · exact Or.inl rfl

theorem Position.play_board (p : Position) (msg : Message) :
    (p.play msg).board = p.board ∨
      ∃ i, (p.play msg).board = Function.update p.board i (tick p.round) := by
  unfold Position.play turn
  split_ifs with htype
  · exact Or.inl rfl
  · cases freeField p.board msg.move with
    | none => exact Or.inl rfl
    | some i => exact Or.inr ⟨i, rfl⟩

section Loop

variable (player1 player2 : Slot)

theorem gameLoop_nil_eq (msg : Message) (p : Position) : gameLoop player1 player2 msg p [] =
    if checkBoard p.board ≠ 0 then
      ⟨sendMsgEnd msg player1 player2 (checkBoard p.board), 0, .ended (checkBoard p.board)⟩
    else ⟨(sendMsgMove msg (onTurn player1 player2 p.round)).2, 0, .blocked⟩ :=
  rfl

theorem gameLoop_cons_eq (msg input : Message) (p : Position) (rest : List Message) :
    gameLoop player1 player2 msg p (input :: rest) =
      if checkBoard p.board ≠ 0 then
        ⟨sendMsgEnd msg player1 player2 (checkBoard p.board), 0, .ended (checkBoard p.board)⟩
      else
        let request := (sendMsgMove msg (onTurn player1 player2 p.round)).2
        match turn p input with
        | .leaves =>
          ⟨request ++ sendMsgDisconnectWaiting input (onTurn player1 player2 (p.round + 1)), 1, .left⟩
        | .rejected => (gameLoop player1 player2 input p rest).afterTurn request
        | .accepted board =>
          let update := sendMsgUpdate input player1 player2 board
          (gameLoop player1 player2 update.1 ⟨board, p.round + 1⟩ rest).afterTurn
            (request ++ update.2) :=
  rfl

theorem gameLoop_of_checkBoard_ne_zero {msg : Message} {p : Position} {msgs : List Message}
    (h : checkBoard p.board ≠ 0) : gameLoop player1 player2 msg p msgs =
      ⟨sendMsgEnd msg player1 player2 (checkBoard p.board), 0, .ended (checkBoard p.board)⟩ := by
  cases msgs with
  | nil => rw [gameLoop_nil_eq, if_pos h]
  | cons input rest => rw [gameLoop_cons_eq, if_pos h]

theorem gameLoop_cons (msg : Message) {input : Message} {p : Position} (rest : List Message)
    (hboard : checkBoard p.board = 0) (htype : input.type ≠ .msgDisconnect) :
    ∃ (msg' : Message) (writes : List Write),
      gameLoop player1 player2 msg p (input :: rest) =
        (gameLoop player1 player2 msg' (p.play input) rest).afterTurn writes := by
  rw [gameLoop_cons_eq, if_neg (not_not.mpr hboard)]
  unfold Position.play
  cases hturn : turn p input with
  | leaves =>
    unfold turn at hturn
    rw [if_neg htype] at hturn
    cases hfield : freeField p.board input.move <;> simp [hfield] at hturn
  | rejected => exact ⟨_, _, rfl⟩
  | accepted board => exact ⟨_, _, rfl⟩

/-- A game that ends has just told both players. -/
theorem gameLoop_ended_writes (msgs : List Message) : ∀ (msg : Message) (p : Position) (c : CChar),
    (gameLoop player1 player2 msg p msgs).outcome = .ended c →
      ∃ final : Message, final.type = .msgEnd ∧ final.winner = c ∧
        [Write.mk player1 final, Write.mk player2 final] <:+
          (gameLoop player1 player2 msg p msgs).writes := by
  induction msgs with
  | nil =>
    intro msg p c hc
    by_cases hboard : checkBoard p.board = 0
    · simp [gameLoop_nil_eq, hboard] at hc
    · rw [gameLoop_of_checkBoard_ne_zero _ _ hboard] at hc ⊢
      cases hc
      exact ⟨_, rfl, rfl, List.suffix_refl _⟩
  | cons input rest ih =>
    intro msg p c hc
    by_cases hboard : checkBoard p.board = 0
    · rw [gameLoop_cons_eq, if_neg (not_not.mpr hboard)] at hc ⊢
      cases hturn : turn p input with
      | leaves => simp [hturn] at hc
      | rejected =>
        simp only [hturn] at hc ⊢
        obtain ⟨final, htype, hwinner, hsuffix⟩ := ih _ _ c hc
        exact ⟨final, htype, hwinner, hsuffix.trans (List.suffix_append _ _)⟩
      | accepted board =>
        simp only [hturn] at hc ⊢
        obtain ⟨final, htype, hwinner, hsuffix⟩ := ih _ _ c hc
        exact ⟨final, htype, hwinner, hsuffix.trans (List.suffix_append _ _)⟩
    · rw [gameLoop_of_checkBoard_ne_zero _ _ hboard] at hc ⊢
      cases hc
      exact ⟨_, rfl, rfl, List.suffix_refl _⟩

/-- The loop stops at the first position at which `check_board` is not zero. -/
theorem gameLoop_ended_iff (msgs : List Message) (hmsgs : ∀ m ∈ msgs, m.type ≠ .msgDisconnect) :
    ∀ (msg : Message) (p : Position) (k : ℕ) (c : CChar),
      ((gameLoop player1 player2 msg p msgs).reads = k ∧
        (gameLoop player1 player2 msg p msgs).outcome = .ended c) ↔
      k ≤ msgs.length ∧ checkBoard (p.after (msgs.take k)).board = c ∧ c ≠ 0 ∧
        ∀ j < k, checkBoard (p.after (msgs.take j)).board = 0 := by
  -- at a position that ends the loop both sides say that nothing more is read
  have hnow : ∀ (msgs : List Message) (msg : Message) (p : Position) (k : ℕ) (c : CChar),
      checkBoard p.board ≠ 0 →
      (((gameLoop player1 player2 msg p msgs).reads = k ∧
        (gameLoop player1 player2 msg p msgs).outcome = .ended c) ↔
      k ≤ msgs.length ∧ checkBoard (p.after (msgs.take k)).board = c ∧ c ≠ 0 ∧
        ∀ j < k, checkBoard (p.after (msgs.take j)).board = 0) := by
    intro msgs msg p k c hboard
    rw [gameLoop_of_checkBoard_ne_zero _ _ hboard]
    constructor
    · rintro ⟨rfl, hc⟩
      cases hc
      exact ⟨Nat.zero_le _, by simp, hboard, by simp⟩
    · rintro ⟨_, hc, _, hfirst⟩
      cases k with
      | zero => exact ⟨rfl, by simpa using hc⟩
      | succ k => exact absurd (hfirst 0 (Nat.succ_pos k)) hboard
  induction msgs with
  | nil =>
    intro msg p k c
    by_cases hboard : checkBoard p.board = 0
    · constructor
      · rintro ⟨_, houtcome⟩
        simp [gameLoop_nil_eq, hboard] at houtcome
      · rintro ⟨_, hc, hne, _⟩
        simp only [List.take_nil, Position.after_nil] at hc
        exact absurd (hc.symm.trans hboard) hne
    · exact hnow [] msg p k c hboard
  | cons input rest ih =>
    intro msg p k c
    by_cases hboard : checkBoard p.board = 0
    · obtain ⟨msg', writes, hrun⟩ := gameLoop_cons player1 player2 msg rest
        hboard (hmsgs input (by simp))
      rw [hrun]
      cases k with
      | zero =>
        constructor
        · rintro ⟨hreads, _⟩
          exact absurd hreads (Nat.succ_ne_zero _)
        · rintro ⟨_, hc, hne, _⟩
          exact absurd (hc.symm.trans hboard) hne
      | succ k =>
        have hrest := ih (fun m hm => hmsgs m (by simp [hm])) msg' (p.play input) k c
        have hreads : ((gameLoop player1 player2 msg' (p.play input) rest).afterTurn writes).reads
            = k + 1 ↔ (gameLoop player1 player2 msg' (p.play input) rest).reads = k :=
          Nat.succ_inj
        simp only [hreads, List.length_cons, Nat.add_le_add_iff_right, List.take_succ_cons,
          Position.after_cons]
        refine hrest.trans (and_congr_right fun _ => and_congr_right fun _ =>
          and_congr_right fun _ => ⟨fun h j hj => ?_, fun h j hj => h (j + 1) (by omega)⟩)
        cases j with
        | zero => exact hboard
        | succ j => exact h j (by omega)
    · exact hnow (input :: rest) msg p k c hboard

end Loop

end Sysopy.GameServer
