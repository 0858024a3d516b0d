import Sysopy.GameServer.Game
import Sysopy.Library.Family

/-!
# Legal play

`passes` lists the passes through the loop of `game_connection` that read a message,
whatever the clients send, and `heads` the positions at its head. The messages are not
checked anywhere but in the loop: the turns, the symbols and the fields of the board stay
right because of the tests there.
-/
namespace Sysopy.GameServer

open Family

/-- One pass through the loop, from its head to the message that `read` returns. -/
structure Pass where
  head : Position
  request : Write
  input : Message

/-- The position at the next head of the loop, unless the player has left. -/
def Pass.next (pass : Pass) : Option Position :=
  match turn pass.head pass.input with
  | .leaves => none
  | .rejected => some pass.head
  | .accepted board => some ⟨board, pass.head.round + 1⟩

/-- The writes of `send_msg_update` at the end of the pass. -/
def Pass.updates (player1 player2 : Slot) (pass : Pass) : List Write :=
  match turn pass.head pass.input with
  | .leaves | .rejected => []
  | .accepted board => (sendMsgUpdate pass.input player1 player2 board).2

/-- The passes of the loop, in the recursion of `gameLoop`. -/
def passes (player1 player2 : Slot) (msg : Message) (p : Position) : List Message → List Pass
  | [] => []
  | input :: rest =>
    if checkBoard p.board ≠ 0 then []
    else
      let player := onTurn player1 player2 p.round
      ⟨p, ⟨player, (sendMsgMove msg player).1⟩, input⟩ ::
        match turn p input with
        | .leaves => []
        | .rejected => passes player1 player2 input p rest
        | .accepted board =>
          passes player1 player2 (sendMsgUpdate input player1 player2 board).1
            ⟨board, p.round + 1⟩ rest

/-- The positions at the head of the loop, from `p` on. -/
def heads (p : Position) (passes : List Pass) : List Position := p :: passes.filterMap Pass.next

/-- Each pass begins where the one before it has led, and asks the player on turn. -/
inductive Played (player1 player2 : Slot) : Position → List Pass → Prop
  | stops (p : Position) : Played player1 player2 p []
  | leaves (pass : Pass) (hplayer : pass.request.player = onTurn player1 player2 pass.head.round)
      (hnext : pass.next = none) : Played player1 player2 pass.head [pass]
  | goesOn (pass : Pass) (hplayer : pass.request.player = onTurn player1 player2 pass.head.round)
      {q : Position} (hnext : pass.next = some q) {rest : List Pass}
      (hrest : Played player1 player2 q rest) : Played player1 player2 pass.head (pass :: rest)

/-! ## The run in passes -/

section Loop

variable (player1 player2 : Slot)

theorem played_passes (inputs : List Message) : ∀ (msg : Message) (p : Position),
    Played player1 player2 p (passes player1 player2 msg p inputs) := by
  induction inputs with
  | nil => exact fun _ p => .stops p
  | cons input rest ih =>
    intro msg p
    rw [passes]
    split_ifs with hboard
    · exact .stops p
    · let pass : Pass := ⟨p, ⟨onTurn player1 player2 p.round,
        (sendMsgMove msg (onTurn player1 player2 p.round)).1⟩, input⟩
      cases hturn : turn p input with
      | leaves => exact Played.leaves pass rfl (by simp [pass, Pass.next, hturn])
      | rejected =>
        exact Played.goesOn pass rfl (by simp [pass, Pass.next, hturn]) (ih input p)
      | accepted board =>
        exact Played.goesOn pass rfl (by simp [pass, Pass.next, hturn]) (ih _ _)

/-- What the loop writes, pass by pass; after the last one it writes no board. -/
theorem gameLoop_writes (inputs : List Message) : ∀ (msg : Message) (p : Position),
    ∃ closing : List Write, (∀ write ∈ closing, write.msg.type ≠ .msgUpdate) ∧
      (gameLoop player1 player2 msg p inputs).writes =
        (passes player1 player2 msg p inputs).flatMap (fun pass =>
          pass.request :: pass.updates player1 player2) ++ closing := by
  induction inputs with
  | nil =>
    intro msg p
    refine ⟨_, ?_, (List.nil_append _).symm⟩
    rw [gameLoop_nil_eq]
    split_ifs <;> simp [sendMsgEnd, sendMsgMove]
  | cons input rest ih =>
    intro msg p
    rw [gameLoop_cons_eq, passes]
    by_cases hboard : checkBoard p.board = 0
    · rw [if_neg (not_not.mpr hboard), if_neg (not_not.mpr hboard)]
      cases hturn : turn p input with
      | leaves =>
        exact ⟨sendMsgDisconnectWaiting input (onTurn player1 player2 (p.round + 1)),
          by simp [sendMsgDisconnectWaiting, sendMsgDisconnect, sendMsgWaiting],
          by simp [Pass.updates, hturn, sendMsgMove]⟩
      | rejected =>
        obtain ⟨closing, htypes, hwrites⟩ := ih input p
        refine ⟨closing, htypes, ?_⟩
        simp [Pass.updates, hturn, sendMsgMove, GameRun.afterTurn, hwrites]
      | accepted board =>
        obtain ⟨closing, htypes, hwrites⟩ := ih
          (sendMsgUpdate input player1 player2 board).1 ⟨board, p.round + 1⟩
        refine ⟨closing, htypes, ?_⟩
        simp [Pass.updates, hturn, sendMsgMove, GameRun.afterTurn, hwrites]
    · rw [if_pos hboard, if_pos hboard]
      exact ⟨sendMsgEnd msg player1 player2 (checkBoard p.board), by simp [sendMsgEnd],
        (List.nil_append _).symm⟩

theorem length_passes (inputs : List Message) : ∀ (msg : Message) (p : Position),
    (passes player1 player2 msg p inputs).length =
      (gameLoop player1 player2 msg p inputs).reads := by
  induction inputs with
  | nil =>
    intro msg p
    rw [gameLoop_nil_eq]
    split_ifs <;> rfl
  | cons input rest ih =>
    intro msg p
    rw [gameLoop_cons_eq, passes]
    split_ifs with hboard
    · rfl
    · cases hturn : turn p input with
      | leaves => simp
      | rejected => simp [GameRun.afterTurn, ih]
      | accepted board => simp [GameRun.afterTurn, ih]

end Loop

/-! ## One move -/

theorem freeField_eq_some {board : Board} {move : ℤ} {i : Fin BOARD_SIZE}
    (h : freeField board move = some i) : move = i + 1 ∧ board i = BLANK := by
  unfold freeField at h
  split_ifs at h with hmove
  dsimp only at h
  split_ifs at h with hblank
  obtain rfl := Option.some.inj h
  refine ⟨?_, hblank⟩
  simp only
  omega

theorem turn_eq_accepted {p : Position} {input : Message} {board : Board}
    (h : turn p input = .accepted board) : ∃ i, freeField p.board input.move = some i ∧
      board = Function.update p.board i (tick p.round) := by
  unfold turn at h
  split_ifs at h
  cases hfield : freeField p.board input.move with
  | none => simp [hfield] at h
  | some i =>
    rw [hfield] at h
    exact ⟨i, rfl, (Turn.accepted.inj h).symm⟩

theorem turn_ne_leaves_of_next {pass : Pass} {q : Position} (h : pass.next = some q) :
    (turn pass.head pass.input = .rejected ∧ q = pass.head) ∨
      ∃ board, turn pass.head pass.input = .accepted board ∧ q = ⟨board, pass.head.round + 1⟩ := by
  unfold Pass.next at h
  cases hturn : turn pass.head pass.input with
  | leaves => simp [hturn] at h
  | rejected => exact .inl ⟨rfl, by simpa [hturn] using h.symm⟩
  | accepted board => exact .inr ⟨board, rfl, by simpa [hturn] using h.symm⟩

/-- The number of fields with a symbol of some kind. -/
def fields (P : CChar → Prop) [DecidablePred P] (board : Board) : ℕ :=
  (Finset.univ.filter fun i => P (board i)).card

theorem fields_eq_total (P : CChar → Prop) [DecidablePred P] (board : Board) :
    fields P board = total (fun c => if P c then 1 else 0) board :=
  Finset.card_filter _ _

theorem fields_update (P : CChar → Prop) [DecidablePred P] (hP : ¬ P BLANK) {board : Board}
    {i : Fin BOARD_SIZE} (hi : board i = BLANK) (c : CChar) :
    fields P (Function.update board i c) = fields P board + if P c then 1 else 0 := by
  have h := total_update (fun c => if P c then 1 else 0) board i c
  rw [hi, if_neg hP] at h
  rw [fields_eq_total, fields_eq_total]
  exact h

/-- The symbols on the board are those of the rounds played so far. -/
structure Counted (p : Position) : Prop where
  filled : p.round = fields (· ≠ BLANK) p.board
  first : fields (· = TICK1) p.board = (p.round + 1) / 2
  second : fields (· = TICK2) p.board = p.round / 2

theorem counted_start : Counted Position.start := by
  constructor <;> decide

theorem Counted.move {p : Position} (hp : Counted p) {i : Fin BOARD_SIZE}
    (hi : p.board i = BLANK) : Counted ⟨Function.update p.board i (tick p.round), p.round + 1⟩ := by
  obtain ⟨hfilled, hfirst, hsecond⟩ := hp
  have hupdate₀ := fields_update (· ≠ BLANK) (by decide) hi (tick p.round)
  have hupdate₁ := fields_update (· = TICK1) (by decide) hi (tick p.round)
  have hupdate₂ := fields_update (· = TICK2) (by decide) hi (tick p.round)
  rcases Nat.mod_two_eq_zero_or_one p.round with hround | hround
  · have htick : tick p.round = TICK1 := by simp [tick, hround]
    rw [htick] at hupdate₀ hupdate₁ hupdate₂ ⊢
    rw [if_pos (by decide)] at hupdate₀ hupdate₁
    rw [if_neg (by decide)] at hupdate₂
    constructor <;> dsimp only <;> omega
  · have htick : tick p.round = TICK2 := by simp [tick, hround]
    rw [htick] at hupdate₀ hupdate₁ hupdate₂ ⊢
    rw [if_pos (by decide)] at hupdate₀ hupdate₂
    rw [if_neg (by decide)] at hupdate₁
    constructor <;> dsimp only <;> omega

/-- The fields that are filled in `board` are the same in `later`. -/
def Kept (board later : Board) : Prop := ∀ i, board i ≠ BLANK → later i = board i

theorem Kept.trans {board later latest : Board} (h : Kept board later) (h' : Kept later latest) :
    Kept board latest := by
  intro i hi
  have hlater := h i hi
  rw [h' i (by rwa [hlater]), hlater]

theorem kept_update {board : Board} {i : Fin BOARD_SIZE} (hi : board i = BLANK) (c : CChar) :
    Kept board (Function.update board i c) := by
  intro j hj
  have hne : j ≠ i := by
    rintro rfl
    exact hj hi
  exact Function.update_of_ne hne _ _

/-! ## Whole games -/

section Game

variable {player1 player2 : Slot} {p : Position} {passes : List Pass}

theorem Pass.counted_next {pass : Pass} {q : Position} (hcounted : Counted pass.head)
    (h : pass.next = some q) : Counted q := by
  rcases turn_ne_leaves_of_next h with ⟨_, rfl⟩ | ⟨board, hturn, rfl⟩
  · exact hcounted
  · obtain ⟨i, hfield, rfl⟩ := turn_eq_accepted hturn
    exact hcounted.move (freeField_eq_some hfield).2

theorem Pass.kept_next {pass : Pass} {q : Position} (h : pass.next = some q) :
    Kept pass.head.board q.board := by
  rcases turn_ne_leaves_of_next h with ⟨_, rfl⟩ | ⟨board, hturn, rfl⟩
  · exact fun _ _ => rfl
  · obtain ⟨i, hfield, rfl⟩ := turn_eq_accepted hturn
    exact kept_update (freeField_eq_some hfield).2 _

theorem heads_cons {pass : Pass} {q : Position} (hnext : pass.next = some q)
    (rest : List Pass) : heads p (pass :: rest) = p :: heads q rest := by
  rw [heads, heads, List.filterMap_cons_some hnext]

theorem heads_leaves {pass : Pass} (hnext : pass.next = none) : heads p [pass] = [p] := by
  rw [heads, List.filterMap_cons_none hnext, List.filterMap_nil]

theorem Played.counted (h : Played player1 player2 p passes) (hp : Counted p) :
    ∀ q ∈ heads p passes, Counted q := by
  induction h with
  | stops p =>
    intro q hq
    obtain rfl := List.mem_singleton.mp hq
    exact hp
  | leaves pass hplayer hnext =>
    rw [heads_leaves hnext]
    intro q hq
    obtain rfl := List.mem_singleton.mp hq
    exact hp
  | goesOn pass hplayer hnext hrest ih =>
    rw [heads_cons hnext]
    intro q hq
    rcases List.mem_cons.mp hq with rfl | hq
    · exact hp
    · exact ih (pass.counted_next hp hnext) q hq

/-- Fields filled at one head are the same at every later one. -/
theorem Played.kept (h : Played player1 player2 p passes) :
    (heads p passes).Pairwise fun q r => Kept q.board r.board := by
  induction h with
  | stops p => exact List.pairwise_singleton _ _
  | leaves pass hplayer hnext =>
    rw [heads_leaves hnext]
    exact List.pairwise_singleton _ _
  | @goesOn pass hplayer q hnext rest hrest ih =>
    rw [heads_cons hnext]
    refine List.pairwise_cons.mpr ⟨fun r hr => ?_, ih⟩
    rcases List.mem_cons.mp hr with rfl | hr
    · exact pass.kept_next hnext
    · exact (pass.kept_next hnext).trans ((List.pairwise_cons.mp ih).1 r hr)

theorem Played.follows (h : Played player1 player2 p passes) :
    passes.map Pass.head <+: heads p passes := by
  induction h with
  | stops p => exact List.nil_prefix
  | leaves pass hplayer hnext =>
    rw [heads_leaves hnext]
    exact List.prefix_refl _
  | goesOn pass hplayer hnext hrest ih =>
    rw [heads_cons hnext, List.map_cons]
    exact List.cons_prefix_cons.mpr ⟨rfl, ih⟩

theorem Played.player (h : Played player1 player2 p passes) :
    ∀ pass ∈ passes, pass.request.player = onTurn player1 player2 pass.head.round := by
  induction h with
  | stops p => simp
  | leaves pass hplayer hnext =>
    intro pass' hpass'
    obtain rfl := List.mem_singleton.mp hpass'
    exact hplayer
  | goesOn pass hplayer hnext hrest ih =>
    intro pass' hpass'
    rcases List.mem_cons.mp hpass' with rfl | hpass'
    · exact hplayer
    · exact ih pass' hpass'

end Game

/-- What one pass does to the board: nothing, or it fills the blank field that was asked for
with the symbol that `starts` has announced to the player, and shows the new board to both. -/
structure LegalPass (player1 player2 : Slot) (starts : List Write) (pass : Pass)
    (next : Position) (i : Fin BOARD_SIZE) (start update : Message) : Prop where
  move : pass.input.move = i + 1
  blank : pass.head.board i = BLANK
  announced : starts[pass.head.round % 2]? = some ⟨pass.request.player, start⟩
  isStart : start.type = .msgStart
  store : next.board = Function.update pass.head.board i start.symbol
  shown : pass.updates player1 player2 = [⟨player1, update⟩, ⟨player2, update⟩]
  isUpdate : update.type = .msgUpdate
  sameBoard : update.board = next.board

/-- Legal play in the passes through the loop that a run of `game_connection` consists of. -/
structure LegalPlay (name : Slot → Name) (player1 player2 : Slot) (msg : Message)
    (inputs : List Message) (passes : List Pass) : Prop where
  reads : passes.length = (gameConnection name player1 player2 msg inputs).reads
  writes : ∃ closing : List Write, (∀ write ∈ closing, write.msg.type ≠ .msgUpdate) ∧
    (gameConnection name player1 player2 msg inputs).writes =
      (sendMsgStart name msg player1 player2).2 ++
        (sendMsgUpdate (sendMsgStart name msg player1 player2).1 player1 player2 emptyBoard).2 ++
        (passes.flatMap (fun pass => pass.request :: pass.updates player1 player2) ++ closing)
  follows : passes.map Pass.head <+: heads Position.start passes
  counted : ∀ p ∈ heads Position.start passes, Counted p
  stores : ∀ pass ∈ passes, ∀ next, pass.next = some next →
    (next = pass.head ∧ pass.updates player1 player2 = []) ∨
      ∃ i start update, LegalPass player1 player2 (sendMsgStart name msg player1 player2).2 pass
        next i start update
  kept : (heads Position.start passes).Pairwise fun p q => Kept p.board q.board

theorem legalPass {name : Slot → Name} {player1 player2 : Slot} {msg : Message} {pass : Pass}
    (hplayer : pass.request.player = onTurn player1 player2 pass.head.round) {next : Position}
    (hnext : pass.next = some next) :
    (next = pass.head ∧ pass.updates player1 player2 = []) ∨
      ∃ i start update, LegalPass player1 player2 (sendMsgStart name msg player1 player2).2 pass
        next i start update := by
  rcases turn_ne_leaves_of_next hnext with ⟨hturn, rfl⟩ | ⟨board, hturn, rfl⟩
  · exact .inl ⟨rfl, by simp [Pass.updates, hturn]⟩
  · obtain ⟨i, hfield, rfl⟩ := turn_eq_accepted hturn
    obtain ⟨hmove, hblank⟩ := freeField_eq_some hfield
    -- the two messages of `send_msg_start` lie in the order of the players
    obtain ⟨start, hannounced, hstart, hsymbol⟩ : ∃ start,
        (sendMsgStart name msg player1 player2).2[pass.head.round % 2]? =
          some ⟨pass.request.player, start⟩ ∧
        start.type = .msgStart ∧ start.symbol = tick pass.head.round := by
      rw [hplayer]
      rcases Nat.mod_two_eq_zero_or_one pass.head.round with hround | hround
      · rw [onTurn, tick, hround]
        exact ⟨_, rfl, rfl, rfl⟩
      · rw [onTurn, tick, hround]
        exact ⟨_, rfl, rfl, rfl⟩
    right
    refine ⟨i, start, (sendMsgUpdate pass.input player1 player2
      (Function.update pass.head.board i (tick pass.head.round))).1, hmove, hblank, hannounced,
      hstart, by rw [hsymbol], ?_, rfl, Message.withBoard_board _ _⟩
    rw [Pass.updates, hturn]
    rfl

/-- Whatever the clients send, the play is legal. -/
theorem gameConnection_legal (name : Slot → Name) (player1 player2 : Slot) (msg : Message)
    (inputs : List Message) :
    LegalPlay name player1 player2 msg inputs
      (passes player1 player2
        (sendMsgUpdate (sendMsgStart name msg player1 player2).1 player1 player2 emptyBoard).1
        Position.start inputs) := by
  have hplayed := played_passes player1 player2 inputs
    (sendMsgUpdate (sendMsgStart name msg player1 player2).1 player1 player2 emptyBoard).1
    Position.start
  obtain ⟨closing, htypes, hwrites⟩ := gameLoop_writes player1 player2 inputs
    (sendMsgUpdate (sendMsgStart name msg player1 player2).1 player1 player2 emptyBoard).1
    Position.start
  refine ⟨length_passes player1 player2 inputs _ _, ⟨closing, htypes, ?_⟩, hplayed.follows,
    hplayed.counted counted_start, fun pass hpass next hnext => ?_, hplayed.kept⟩
  · rw [gameConnection, ← hwrites]
  · exact legalPass (hplayed.player pass hpass) hnext

end Sysopy.GameServer
