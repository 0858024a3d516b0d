import Sysopy.GameServer.Requests

/-!
# The invariant of a game over its sockets

A request is on a connection exactly while a thread of the server waits for the answer with the
mutex of the slot. The position of the game is the one that the numbers make with which it has
dealt, and every client is going to see it once it has read what has been sent and what the game is
about to send.
-/
namespace Sysopy.GameServer.Match

open Transition
open Threads (Game Statement Pinger Next startGame nextSlot disconnectClient)

/-! ## Who holds which slot -/

/-- The slot whose mutex the pinger has. -/
def pingerIn : Pinger → Option Slot
  | .test i | .write i | .wait i | .read i | .unlock i => some i
  | .lock _ | .clearTaken _ | .close _ => none

/-- The slot of the ping that is not answered. -/
def pingerAsks : Pinger → Option Slot
  | .wait i | .read i => some i
  | _ => none

/-- The slot whose mutex the game has. -/
def gameIn : List Statement → Option Slot
  | .write _ :: .read p :: _ | .read p :: _ | .unlock p :: _ => some p
  | _ => none

/-- The slot of the request for a move that is not answered. -/
def gameAsks : List Statement → Option Slot
  | .read p :: _ => some p
  | _ => none

/-- The messages that the game is about to write to the client. -/
def due (p : Slot) (todo : List Statement) : List Message :=
  todo.filterMap fun
    | .write w => if w.player = p then some w.msg else none
    | _ => none

def State.todo (s : State) : List Statement :=
  match s.game with
  | some game => game.todo
  | none => []

/-- The position of the game, and what comes next. -/
def State.table (s : State) : Option (Position × Next) :=
  s.game.map fun game => (game.position, game.next)

/-- The request to the client that is not answered. -/
def State.request (s : State) (p : Slot) : Option Message :=
  if pingerAsks s.pinger = some p then some s.ping
  else if gameAsks s.todo = some p then s.game.map Game.msg
  else none

theorem pingerIn_of_asks {pinger : Pinger} {p : Slot} (h : pingerAsks pinger = some p) :
    pingerIn pinger = some p := by
  cases pinger <;> first | exact h | cases h

theorem gameIn_of_asks {todo : List Statement} {p : Slot} (h : gameAsks todo = some p) :
    gameIn todo = some p := by
  unfold gameAsks at h
  split at h
  · exact h
  · cases h

theorem due_append (p : Slot) (todo todo' : List Statement) :
    due p (todo ++ todo') = due p todo ++ due p todo' := List.filterMap_append

@[simp] theorem due_nil (p : Slot) : due p [] = [] := rfl

theorem due_write_self (w : Write) (todo : List Statement) :
    due w.player (.write w :: todo) = w.msg :: due w.player todo := by
  simp [due]

theorem due_write_of_ne {w : Write} {p : Slot} (h : w.player ≠ p) (todo : List Statement) :
    due p (.write w :: todo) = due p todo := by
  simp [due, h]

theorem due_both {player1 player2 : Slot} (hne : player1 ≠ player2) (msg : Message) (p : Slot)
    {todo : List Statement} (htodo : due p todo = []) :
    due p ([Write.mk player1 msg, Write.mk player2 msg].map .write ++ todo) =
      if p = player1 ∨ p = player2 then [msg] else [] := by
  rw [due_append, htodo, List.append_nil, List.map_cons, List.map_singleton]
  split_ifs with hp
  · rcases hp with rfl | rfl
    · rw [due_write_self ⟨p, msg⟩, due_write_of_ne hne.symm, due_nil]
    · rw [due_write_of_ne hne, due_write_self ⟨p, msg⟩, due_nil]
  · rw [not_or] at hp
    rw [due_write_of_ne (Ne.symm hp.1), due_write_of_ne (Ne.symm hp.2), due_nil]

theorem gameIn_writes (writes : List Write) {todo : List Statement} (h : gameIn todo = none) :
    gameIn (writes.map .write ++ todo) = none := by
  match writes, todo, h with
  | [], todo, h => exact h
  | [w], [], _ => rfl
  | [w], .read p :: todo, h => cases h
  | [w], .write _ :: _, _ | [w], .lock _ :: _, _ | [w], .unlock _ :: _, _
  | [w], .clearTaken _ :: _, _ | [w], .close _ :: _, _ => rfl
  | _ :: _ :: _, _, _ => rfl

/-! ## The invariant -/

/-- The board of a game that some of the numbers have made. -/
def Seen (typed : List (BitVec 32)) (board : Board) : Prop :=
  ∃ before, before <+: typed ∧ board = (positionOf before).board

theorem Seen.mono {typed typed' : List (BitVec 32)} {board : Board} (h : Seen typed board)
    (htyped : typed <+: typed') : Seen typed' board := by
  obtain ⟨before, hbefore, hboard⟩ := h
  exact ⟨before, hbefore.trans htyped, hboard⟩

/-- The connection of a slot and its client. -/
structure SlotInv (m : Setup) (s : State) (p : Slot) (unread : List Message) : Prop where
  sent : s.sent p = unread.flatMap Message.bytes
  link : Link (s.player p) s.given unread (s.replies p) (s.request p)
  seen : ∀ msg ∈ unread ++ due p s.todo, msg.type = .msgUpdate → Seen s.typed msg.board
  shown : ∀ board, (s.player p).shown = some board → Seen s.typed board
  unbegun : s.table = none → (∀ msg ∈ unread, Idles msg.type) ∧
    (∀ v, (s.player p).place ≠ .ended v)
  told : ∀ position next, s.table = some (position, next) → p = m.player1 ∨ p = m.player2 →
    Told (m.symbolOf p) position next (s.player p) (unread ++ due p s.todo)

/-- Where the thread of the game stands. -/
inductive Phase (game : Game) : Option (BitVec 32) → Prop
  | tells (writes : List Write) (hnext : game.next = .loop)
      (hwrites : ∀ w ∈ writes, w.msg.type = .msgStart ∨ w.msg.type = .msgUpdate)
      (htodo : game.todo = writes.map .write) : Phase game none
  | locks (hnext : game.next = .moved) (hopen : checkBoard game.position.board = 0)
      (hmsg : game.msg.type = .msgMove)
      (htodo : game.todo = [.lock game.player, .write ⟨game.player, game.msg⟩, .read game.player,
        .unlock game.player]) : Phase game none
  | asks (hnext : game.next = .moved) (hopen : checkBoard game.position.board = 0)
      (hmsg : game.msg.type = .msgMove)
      (htodo : game.todo = [.write ⟨game.player, game.msg⟩, .read game.player,
        .unlock game.player]) : Phase game none
  | waits (given : Option (BitVec 32)) (hnext : game.next = .moved)
      (hopen : checkBoard game.position.board = 0) (hmsg : game.msg.type = .msgMove)
      (htodo : game.todo = [.read game.player, .unlock game.player]) : Phase game given
  | heard (n : BitVec 32) (hnext : game.next = .moved) (hmsg : game.msg.type = .msgMove)
      (hmove : game.msg.move = n.toInt) (htodo : game.todo = [.unlock game.player]) :
      Phase game (some n)
  | moved (n : BitVec 32) (hnext : game.next = .moved) (hmsg : game.msg.type = .msgMove)
      (hmove : game.msg.move = n.toInt) (htodo : game.todo = []) : Phase game (some n)
  | ends (writes : List Write) (hnext : game.next = .ended)
      (hclosed : checkBoard game.position.board ≠ 0)
      (hwrites : ∀ w ∈ writes, w.msg.type = .msgEnd)
      (htodo : game.todo = writes.map .write ++
        (disconnectClient game.player1 ++ disconnectClient game.player2)) : Phase game none

theorem Phase.waits_of_asks {game : Game} {given : Option (BitVec 32)} (h : Phase game given)
    {p : Slot} (hasks : gameAsks game.todo = some p) :
    game.next = .moved ∧ checkBoard game.position.board = 0 ∧ p = game.player ∧
      game.todo = [.read game.player, .unlock game.player] ∧ ∀ given, Phase game given := by
  cases h with
  | waits _ hnext hopen hmsg htodo =>
    have hp := hasks
    rw [htodo] at hp
    exact ⟨hnext, hopen, (Option.some.inj hp).symm, htodo,
      fun given => .waits given hnext hopen hmsg htodo⟩
  | tells writes _ _ htodo | ends writes _ _ _ htodo =>
    rw [htodo] at hasks
    cases writes <;> cases hasks
  | locks _ _ _ htodo | asks _ _ _ htodo | heard _ _ _ _ htodo | moved _ _ _ _ htodo =>
    rw [htodo] at hasks
    cases hasks

structure GameInv (m : Setup) (s : State) (game : Game) : Prop where
  player1 : game.player1 = m.player1
  player2 : game.player2 = m.player2
  position : game.position = positionOf s.played
  phase : Phase game s.given

structure Inv (m : Setup) (s : State) : Prop where
  clean : s.garbled = false
  ping : s.ping.type = .msgPing
  mutex : ∀ p, s.mutex p = if pingerIn s.pinger = some p then some .pinger
    else if gameIn s.todo = some p then some .game else none
  apart : ∀ p, pingerIn s.pinger = some p → gameIn s.todo ≠ some p
  slot : ∀ p, ∃ unread, SlotInv m s p unread
  game : ∀ game, s.game = some game → GameInv m s game
  unbegun : s.game = none → s.played = [] ∧ s.given = none

variable {m : Setup} {s s' : State} {p : Slot} {unread : List Message}

theorem inv_start (m : Setup) : Inv m (start m) where
  clean := rfl
  ping := rfl
  mutex _ := rfl
  apart _ h := by cases h
  slot p := by
    refine ⟨[], rfl, .idle rfl (by simp), by simp [State.todo, start], ?_, ?_, ?_⟩
    · rintro board ⟨⟩
    · exact fun _ => ⟨by simp, by rintro v ⟨⟩⟩
    · rintro position next ⟨⟩
  game _ h := by cases h
  unbegun _ := ⟨rfl, rfl⟩

theorem SlotInv.congr (h : SlotInv m s p unread) (hsent : s'.sent p = s.sent p)
    (hlink : Link (s'.player p) s'.given unread (s'.replies p) (s'.request p))
    (hplayer : s'.player p = s.player p) (htyped : s.typed <+: s'.typed)
    (hdue : due p s'.todo = due p s.todo) (htable : s'.table = s.table) :
    SlotInv m s' p unread where
  sent := hsent.trans h.sent
  link := hlink
  seen msg hmsg htype := (h.seen msg (by rwa [← hdue]) htype).mono htyped
  shown board hboard := (h.shown board (by rwa [← hplayer])).mono htyped
  unbegun hnone := by
    rw [hplayer]
    exact h.unbegun (htable.symm.trans hnone)
  told position next hsome hp := by
    rw [hplayer, hdue]
    exact h.told position next (htable.symm.trans hsome) hp

theorem SlotInv.idles (hp : SlotInv m s p unread) {msg : Message} (hmsg : Idles msg.type)
    (hsent : s'.sent p = s.sent p ++ msg.bytes) (hplayer : s'.player p = s.player p)
    (hlink : Link (s'.player p) s'.given (unread ++ [msg]) (s'.replies p) (s'.request p))
    (htyped : s'.typed = s.typed) (hgame : s'.game = s.game) :
    SlotInv m s' p (unread ++ [msg]) := by
  have htodo : s'.todo = s.todo := by rw [State.todo, State.todo, hgame]
  have htable : s'.table = s.table := by rw [State.table, State.table, hgame]
  refine ⟨?_, hlink, ?_, ?_, ?_, ?_⟩
  · rw [hsent, hp.sent, List.flatMap_append, List.flatMap_singleton]
  · intro later hlater htype
    rw [htodo, List.append_assoc, List.mem_append, List.singleton_append, List.mem_cons] at hlater
    rw [htyped]
    rcases hlater with hlater | rfl | hlater
    · exact hp.seen later (List.mem_append_left _ hlater) htype
    · rcases hmsg with h | h <;> rw [h] at htype <;> cases htype
    · exact hp.seen later (List.mem_append_right _ hlater) htype
  · rw [hplayer, htyped]
    exact hp.shown
  · intro hnone
    obtain ⟨hidles, hplace⟩ := hp.unbegun (htable.symm.trans hnone)
    rw [hplayer]
    refine ⟨fun later hlater => ?_, hplace⟩
    rcases List.mem_append.mp hlater with hlater | hlater
    · exact hidles later hlater
    · rwa [List.mem_singleton.mp hlater]
  · intro position next hsome hplayer'
    rw [hplayer, htodo]
    exact (hp.told position next (htable.symm.trans hsome) hplayer').insert hmsg

theorem SlotInv.written (hp : SlotInv m s p unread) {msg : Message}
    (hsent : s'.sent p = s.sent p ++ msg.bytes) (hplayer : s'.player p = s.player p)
    (hlink : Link (s'.player p) s'.given (unread ++ [msg]) (s'.replies p) (s'.request p))
    (htyped : s'.typed = s.typed) (hdue : due p s.todo = msg :: due p s'.todo)
    (htable : s'.table = s.table) (hbegun : s.table ≠ none) : SlotInv m s' p (unread ++ [msg]) := by
  have hmessages : unread ++ [msg] ++ due p s'.todo = unread ++ due p s.todo := by
    rw [hdue, List.append_assoc, List.singleton_append]
  refine ⟨?_, hlink, ?_, ?_, fun hnone => absurd (htable.symm.trans hnone) hbegun, ?_⟩
  · rw [hsent, hp.sent, List.flatMap_append, List.flatMap_singleton]
  · rw [hmessages, htyped]
    exact hp.seen
  · rw [hplayer, htyped]
    exact hp.shown
  · rw [hplayer, hmessages, htable]
    exact hp.told

theorem SlotInv.reply (hp : SlotInv m s p unread) {bytes : List UInt8}
    (hplace : (s.player p).place = .replying bytes) : SlotInv m { s with
      replies := Function.update s.replies p (s.replies p ++ bytes)
      player := Function.update s.player p { s.player p with place := .reading } } p unread := by
  refine ⟨hp.sent, ?_, hp.seen, ?_, ?_, ?_⟩
  · have hlink := hp.link
    simp only [Function.update_self]
    change Link _ s.given unread _ (s.request p)
    generalize s.replies p = replies, s.request p = request at hlink ⊢
    cases hlink with
    | replying h hanswers hunread =>
      obtain rfl := Player.Place.replying.inj (hplace.symm.trans h)
      exact .answered rfl hanswers hunread
    | idle h | asked h | choosing h | answered h | finished h =>
      rw [hplace] at h
      cases h
  · simp only [Function.update_self]
    exact hp.shown
  · simp only [Function.update_self]
    exact fun hnone => ⟨(hp.unbegun hnone).1, nofun⟩
  · simp only [Function.update_self]
    exact fun position next hsome hplayer => (hp.told position next hsome hplayer).congr rfl rfl
      (by rw [hplace]; nofun) nofun

theorem request_of_not_asks (h : gameAsks s.todo ≠ some p) :
    s.request p = if pingerAsks s.pinger = some p then some s.ping else none := by
  rw [State.request, if_neg h]

theorem request_of_not_pinged (h : pingerAsks s.pinger ≠ some p) :
    s.request p = if gameAsks s.todo = some p then s.game.map Game.msg else none := if_neg h

theorem request_eq_none (hpinger : pingerAsks s.pinger ≠ some p)
    (hgame : gameAsks s.todo ≠ some p) :
    s.request p = none := by
  rw [request_of_not_asks hgame, if_neg hpinger]

theorem State.todo_eq {game : Game} (hgame : s.game = some game) : s.todo = game.todo := by
  rw [State.todo, hgame]

theorem due_startGame_player (m : Setup) (hp : p = m.player1 ∨ p = m.player2) :
    ∃ first update : Message,
      due p (startGame m.name (fun _ => 0) m.player1 m.player2 m.junk).todo = [first, update] ∧
      first.type = .msgStart ∧ first.symbol = m.symbolOf p ∧ update.type = .msgUpdate ∧
      update.board = emptyBoard := by
  let start := sendMsgStart m.name m.junk m.player1 m.player2
  let update := (sendMsgUpdate start.1 m.player1 m.player2 emptyBoard).1
  have hboard : update.board = emptyBoard := Message.withBoard_board _ _
  rcases hp with rfl | rfl
  · refine ⟨(m.junk.withType .msgStart).withInit TICK1 (m.name m.player2), update, ?_, rfl, ?_, rfl,
      hboard⟩
    · simp [startGame, sendMsgStart, sendMsgUpdate, due, m.ne.symm, update, start]
    · simp [Setup.symbolOf, Message.symbol, Message.withInit]
  · refine ⟨start.1, update, ?_, rfl, ?_, rfl, hboard⟩
    · simp [startGame, sendMsgStart, sendMsgUpdate, due, m.ne, update, start]
    · simp [Setup.symbolOf, Message.symbol, Message.withInit, m.ne.symm, start, sendMsgStart]

theorem board_of_due_startGame {msg : Message}
    (hmsg : msg ∈ due p (startGame m.name (fun _ => 0) m.player1 m.player2 m.junk).todo)
    (htype : msg.type = .msgUpdate) : msg.board = emptyBoard := by
  simp only [due, startGame, sendMsgStart, sendMsgUpdate, List.mem_filterMap, List.mem_map] at hmsg
  obtain ⟨_, ⟨w, hw, rfl⟩, hmsg⟩ := hmsg
  dsimp only at hmsg
  split_ifs at hmsg
  obtain rfl := Option.some.inj hmsg
  simp only [List.cons_append, List.nil_append, List.mem_cons, List.not_mem_nil, or_false] at hw
  rcases hw with rfl | rfl | rfl | rfl
  · cases htype
  · cases htype
  · exact Message.withBoard_board _ _
  · exact Message.withBoard_board _ _

section Step

variable (hs : Inv m s)

include hs

theorem Inv.not_asks_of_mutex (hmutex : s.mutex p = none) :
    pingerIn s.pinger ≠ some p ∧ gameIn s.todo ≠ some p := by
  have h := hs.mutex p
  rw [hmutex] at h
  split_ifs at h with hpinger hgame
  exact ⟨hpinger, hgame⟩

theorem Inv.request_ne_move (h : gameAsks s.todo ≠ some p) {msg : Message}
    (hmsg : s.request p = some msg) : msg.type ≠ .msgMove := by
  rw [request_of_not_asks h] at hmsg
  split_ifs at hmsg
  obtain rfl := Option.some.inj hmsg
  rw [hs.ping]
  decide

/-! ### The pinger -/

theorem Inv.pingerMoves {pinger : Pinger} {mutex : Slot → Option Side}
    (hasks : pingerAsks pinger = pingerAsks s.pinger)
    (hmutex : ∀ p, mutex p = if pingerIn pinger = some p then some .pinger
      else if gameIn s.todo = some p then some .game else none)
    (hapart : ∀ p, pingerIn pinger = some p → gameIn s.todo ≠ some p) :
    Inv m { s with pinger := pinger, mutex := mutex } where
  clean := hs.clean
  ping := hs.ping
  mutex := hmutex
  apart := hapart
  slot p := by
    obtain ⟨unread, hp⟩ := hs.slot p
    have hrequest : State.request { s with pinger := pinger, mutex := mutex } p = s.request p := by
      rw [State.request, State.request, ← hasks]
      rfl
    exact ⟨unread, hp.congr rfl (hrequest ▸ hp.link) rfl (List.prefix_refl _) rfl rfl⟩
  game game hgame := ⟨(hs.game game hgame).player1, (hs.game game hgame).player2,
    (hs.game game hgame).position, (hs.game game hgame).phase⟩
  unbegun := hs.unbegun

theorem Inv.pings {i : Slot} (hpinger : s.pinger = .write i) :
    Inv m { s.write ⟨i, s.ping⟩ with pinger := .wait i } where
  clean := hs.clean
  ping := hs.ping
  mutex p := by
    have hp := hs.mutex p
    rwa [hpinger] at hp
  apart p hp := by
    refine hs.apart p ?_
    rw [hpinger]
    exact hp
  slot p := by
    obtain ⟨unread, hp⟩ := hs.slot p
    by_cases hi : p = i
    · subst hi
      have hrequest : s.request p = none := request_eq_none (by rw [hpinger]; nofun)
        fun hasks => hs.apart p (by rw [hpinger]; rfl) (gameIn_of_asks hasks)
      have hasked : State.request { s.write ⟨p, s.ping⟩ with pinger := .wait p } p = some s.ping :=
        if_pos (by rfl)
      have hlink := hp.link
      rw [hrequest] at hlink
      refine ⟨_, hp.idles (.inr hs.ping) (Function.update_self ..) rfl ?_ rfl rfl⟩
      rw [hasked]
      exact hlink.ask (.inl hs.ping)
    · have hrequest : State.request { s.write ⟨i, s.ping⟩ with pinger := .wait i } p =
          s.request p := by
        rw [request_of_not_pinged (s := s) (by rw [hpinger]; nofun)]
        exact request_of_not_pinged fun h => hi (Option.some.inj h).symm
      refine ⟨unread, hp.congr ?_ (hrequest ▸ hp.link) rfl (List.prefix_refl _) rfl rfl⟩
      exact Function.update_of_ne hi _ _
  game game hgame := ⟨(hs.game game hgame).player1, (hs.game game hgame).player2,
    (hs.game game hgame).position, (hs.game game hgame).phase⟩
  unbegun := hs.unbegun

/-- A read that gets few bytes gets all that have come, and a message of the same type. -/
theorem Inv.read_eq {msg : Message} {u : State × Message} (h : s.read p msg = some u)
    (hlength : (s.replies p).length ≤ POINTER_SIZE) :
    ∃ msg', msg.read (s.replies p) = some msg' ∧ msg'.type = msg.type ∧
      u = ({ s with replies := Function.update s.replies p [] }, msg') := by
  obtain ⟨msg', hread, htype⟩ := msg.exists_read hlength
  have hshort : (s.replies p).length ≤ MESSAGE_SIZE := hlength.trans (by decide)
  refine ⟨msg', hread, htype, ?_⟩
  unfold State.read at h
  simp only at h
  split_ifs at h
  rw [List.take_of_length_le hshort, List.drop_eq_nil_of_le hshort, hread] at h
  rw [← Option.some.inj h]
  simp [hs.clean]

theorem Inv.readsPing {i : Slot} (hpinger : s.pinger = .read i) {u : State × Message}
    (h : s.read i s.ping = some u) :
    Inv m { u.1 with ping := u.2, pinger := .unlock i } := by
  obtain ⟨unread, hi⟩ := hs.slot i
  obtain ⟨ping, -, htype, rfl⟩ := hs.read_eq h hi.link.length_replies
  have hreplies : s.replies i ≠ [] := by
    intro hnil
    simp [State.read, hnil] at h
  refine ⟨hs.clean, htype.trans hs.ping, ?_, ?_, ?_, ?_, hs.unbegun⟩
  · intro p
    have hp := hs.mutex p
    rwa [hpinger] at hp
  · intro p hp
    refine hs.apart p ?_
    rw [hpinger]
    exact hp
  · intro p
    by_cases hp : p = i
    · subst hp
      have hrequest : s.request p = some s.ping := if_pos (by rw [hpinger]; rfl)
      have hnone : State.request { s with
          replies := Function.update s.replies p [], ping := ping, pinger := .unlock p } p = none :=
        request_eq_none (by nofun) fun hasks =>
          hs.apart p (by rw [hpinger]; rfl) (gameIn_of_asks hasks)
      have hlink := hi.link
      rw [hrequest] at hlink
      refine ⟨unread, hi.congr rfl ?_ rfl (List.prefix_refl _) rfl rfl⟩
      rw [hnone]
      simp only [Function.update_self]
      rcases hlink.heard hreplies with ⟨v, hended, -⟩ | ⟨hplace, -, hunread⟩
      · exact .finished hended (Nat.zero_le _)
      · exact .idle hplace hunread
    · obtain ⟨unread, hslot⟩ := hs.slot p
      have hrequest : State.request { s with
          replies := Function.update s.replies i [], ping := ping, pinger := .unlock i } p =
          s.request p := by
        rw [request_of_not_pinged (s := s)
          (by rw [hpinger]; exact fun h => hp (Option.some.inj h).symm)]
        exact request_of_not_pinged nofun
      refine ⟨unread, hslot.congr rfl ?_ rfl (List.prefix_refl _) rfl rfl⟩
      rw [hrequest]
      simp only [Function.update_of_ne hp]
      exact hslot.link
  · exact fun game hgame => ⟨(hs.game game hgame).player1, (hs.game game hgame).player2,
      (hs.game game hgame).position, (hs.game game hgame).phase⟩

theorem Inv.stepPinger (h : Match.stepPinger m s = some s') : Inv m s' := by
  unfold Match.stepPinger at h
  cases hpinger : s.pinger <;> rw [hpinger] at h <;> dsimp only at h
  case lock i =>
    split_ifs at h with hmutex
    obtain rfl := Option.some.inj h
    obtain ⟨hfree, hgame⟩ := hs.not_asks_of_mutex hmutex
    refine hs.pingerMoves (by rw [hpinger]; rfl) (fun p => ?_) ?_
    · by_cases hp : p = i
      · subst hp
        rw [Function.update_self, if_pos (by rfl)]
      · have hother := hs.mutex p
        rw [hpinger, if_neg nofun] at hother
        rw [Function.update_of_ne hp,
          if_neg fun h : pingerIn (.test i) = some p => hp (Option.some.inj h).symm]
        exact hother
    · rintro p ⟨⟩
      exact hgame
  case test i =>
    obtain rfl := Option.some.inj h
    have hin : ∀ p,
        pingerIn (if i = m.player1 ∨ i = m.player2 then .write i else .unlock i) = some p ↔
        pingerIn s.pinger = some p := by
      intro p
      rw [hpinger]
      split_ifs <;> rfl
    refine hs.pingerMoves ?_ (fun p => ?_) fun p hp => hs.apart p ((hin p).mp hp)
    · rw [hpinger]
      split_ifs <;> rfl
    · rw [hs.mutex p]
      simp only [hin p]
  case write i =>
    obtain rfl := Option.some.inj h
    exact hs.pings hpinger
  case wait i =>
    obtain rfl := Option.some.inj h
    refine hs.pingerMoves (by rw [hpinger]; rfl) (fun p => ?_) fun p hp => hs.apart p ?_
    · have hp := hs.mutex p
      rwa [hpinger] at hp
    · rw [hpinger]
      exact hp
  case read i =>
    obtain ⟨u, hu, rfl⟩ := Option.map_eq_some_iff.mp h
    exact hs.readsPing hpinger hu
  case unlock i =>
    obtain rfl := Option.some.inj h
    refine hs.pingerMoves (by rw [hpinger]; rfl) (fun p => ?_) nofun
    have hapart := hs.apart i (by rw [hpinger]; rfl)
    rw [if_neg nofun]
    by_cases hp : p = i
    · subst hp
      rw [Function.update_self, if_neg hapart]
    · have hother := hs.mutex p
      rw [hpinger,
        if_neg fun h : pingerIn (.unlock i) = some p => hp (Option.some.inj h).symm] at hother
      rw [Function.update_of_ne hp]
      exact hother
  all_goals cases h

/-! ### The clients -/

/-- A request for a move goes to a player, while the game waits for it. -/
theorem Inv.waits_of_move {msg : Message} (hrequest : s.request p = some msg)
    (hmsg : msg.type = .msgMove) : ∃ game, s.game = some game ∧ game.next = .moved ∧
      checkBoard game.position.board = 0 ∧ p = game.player ∧
      game.todo = [.read game.player, .unlock game.player] ∧ ∀ given, Phase game given := by
  have hasks : gameAsks s.todo = some p := by
    by_contra h
    exact hs.request_ne_move h hrequest hmsg
  unfold State.todo at hasks
  cases hgame : s.game with
  | none =>
    rw [hgame] at hasks
    cases hasks
  | some game =>
    rw [hgame] at hasks
    exact ⟨game, rfl, (hs.game game hgame).phase.waits_of_asks hasks⟩

theorem Inv.player_cases {game : Game} (hgame : s.game = some game) :
    game.player = m.player1 ∨ game.player = m.player2 := by
  have hg := hs.game game hgame
  rw [Game.player, onTurn, hg.player1, hg.player2]
  split_ifs
  · exact .inr rfl
  · exact .inl rfl

theorem Inv.playerMoves {player : Player} {sent replies : List UInt8} (given : Option (BitVec 32))
    (hgiven : given = s.given ∨ ∃ msg, s.request p = some msg ∧ msg.type = .msgMove)
    (htyped : s.typed <+: s.played ++ given.toList)
    (hphase : ∀ game, s.game = some game → Phase game given) (hnone : s.game = none → given = none)
    (hslot : ∃ unread, SlotInv m { s with
      sent := Function.update s.sent p sent
      replies := Function.update s.replies p replies
      player := Function.update s.player p player
      given := given } p unread) :
    Inv m { s with
      sent := Function.update s.sent p sent
      replies := Function.update s.replies p replies
      player := Function.update s.player p player
      given := given } where
  clean := hs.clean
  ping := hs.ping
  mutex := hs.mutex
  apart := hs.apart
  slot q := by
    by_cases hq : q = p
    · exact hq ▸ hslot
    · obtain ⟨unread, hother⟩ := hs.slot q
      refine ⟨unread, hother.congr ?_ ?_ ?_ htyped rfl rfl⟩
      · exact Function.update_of_ne hq _ _
      · simp only [Function.update_of_ne hq]
        rcases hgiven with rfl | ⟨msg, hmsg, hmove⟩
        · exact hother.link
        · refine hother.link.congr fun other hrequest hother => ?_
          obtain ⟨game, hgame, -, -, hp, -, -⟩ := hs.waits_of_move hmsg hmove
          obtain ⟨game', hgame', -, -, hq', -, -⟩ := hs.waits_of_move hrequest hother
          rw [hgame] at hgame'
          obtain rfl := Option.some.inj hgame'
          exact hq (hq'.trans hp.symm)
      · exact Function.update_of_ne hq _ _
  game game hgame := ⟨(hs.game game hgame).player1, (hs.game game hgame).player2,
    (hs.game game hgame).position, hphase game hgame⟩
  unbegun hgame := ⟨(hs.unbegun hgame).1, hnone hgame⟩

theorem SlotInv.receive (hp : SlotInv m s p unread) (hplace : (s.player p).place = .reading)
    (hsent : s.sent p ≠ []) : ∃ unread, SlotInv m { s with
      sent := Function.update s.sent p ((s.sent p).drop MESSAGE_SIZE)
      player := Function.update s.player p
        ((s.player p).receive (m.pointer p) ((s.sent p).take MESSAGE_SIZE)) } p unread := by
  cases unread with
  | nil => exact absurd hp.sent hsent
  | cons msg rest =>
    have hbytes : s.sent p = msg.bytes ++ rest.flatMap Message.bytes := by
      rw [hp.sent, List.flatMap_cons]
    have hlength : msg.bytes.length = MESSAGE_SIZE := msg.length_bytes
    rw [hbytes, List.take_left' hlength, List.drop_left' hlength, Player.receive_bytes]
    have hlater : msg.type = .msgMove → ∀ later ∈ rest, Idles later.type := by
      intro hmove later hl
      have hrequest : ∃ request, s.request p = some request ∧ request.type = .msgMove := by
        by_contra hnone
        have hnot := hp.link.not_move (fun request h h' => hnone ⟨request, h, h'⟩)
          (by rw [hplace]; nofun)
        exact hnot msg (List.mem_cons_self ..) hmove
      obtain ⟨request, hrequest, hrequest'⟩ := hrequest
      obtain ⟨game, hgame, -, -, rfl, -, -⟩ := hs.waits_of_move hrequest hrequest'
      have htold := hp.told game.position game.next (by rw [State.table, hgame]; rfl)
        (hs.player_cases hgame)
      exact htold.later (.inl hmove) later (List.mem_append_left _ hl)
    refine ⟨rest, ?_, ?_, ?_, ?_, ?_, ?_⟩
    · exact Function.update_self ..
    · simp only [Function.update_self]
      exact hp.link.receive (m.pointer p) hplace hlater
    · exact fun later hl => hp.seen later (List.mem_cons_of_mem _ hl)
    · simp only [Function.update_self]
      intro board hboard
      have hfirst := hp.seen msg (List.mem_cons_self ..)
      have hshown := hp.shown board
      unfold Player.handle at hboard
      dsimp only at hboard
      split at hboard
      all_goals first
        | exact hshown hboard
        | (rename_i htype; exact Option.some.inj hboard ▸ hfirst htype)
    · simp only [Function.update_self]
      intro hnone
      obtain ⟨hidles, -⟩ := hp.unbegun hnone
      refine ⟨fun later hl => hidles later (List.mem_cons_of_mem _ hl), ?_⟩
      rcases hidles msg (List.mem_cons_self ..) with htype | htype <;>
        simp [Player.handle, htype, hplace]
    · simp only [Function.update_self]
      exact fun position next hsome hplayer =>
        (hp.told position next hsome hplayer).handle hplace (hp.link.kind hplace) (m.pointer p)

theorem Inv.given_of_choosing (hplace : (s.player p).place = .choosing) :
    s.given = none ∧ s.request p = some (s.player p).msg ∧ (s.player p).msg.type = .msgMove := by
  obtain ⟨unread, hp⟩ := hs.slot p
  have hlink := hp.link
  generalize s.replies p = replies, s.request p = request, s.given = given at hlink
  cases hlink with
  | choosing _ hmsg hgiven => exact ⟨hgiven, rfl, hmsg⟩
  | idle h | asked h | replying h | answered h | finished h =>
    rw [hplace] at h
    cases h

theorem SlotInv.choose (hp : SlotInv m s p unread) (hplace : (s.player p).place = .choosing)
    (n : BitVec 32) : SlotInv m { s with
      player := Function.update s.player p ((s.player p).choose n), given := some n } p unread := by
  obtain ⟨hgiven, hrequest, hmove⟩ := hs.given_of_choosing hplace
  have htyped : s.typed <+: s.played ++ [n] := by
    rw [State.typed, hgiven]
    exact ⟨[n], by simp⟩
  refine ⟨hp.sent, ?_, fun msg hmsg htype => (hp.seen msg hmsg htype).mono htyped, ?_, ?_, ?_⟩
  · have hlink := hp.link
    rw [hrequest] at hlink
    simp only [Function.update_self]
    refine hrequest ▸ ?_
    generalize s.replies p = replies at hlink
    cases hlink with
    | choosing _ _ _ hunread =>
      exact .replying rfl (.inr ⟨hmove, n, rfl, rfl⟩) fun msg hmsg =>
        .inr (.inr (.inl (hunread msg hmsg)))
    | asked h | replying h | answered h | finished h =>
      rw [hplace] at h
      cases h
  · simp only [Function.update_self]
    exact fun board hboard => (hp.shown board hboard).mono htyped
  · simp only [Function.update_self]
    exact fun hnone => ⟨(hp.unbegun hnone).1, nofun⟩
  · simp only [Function.update_self]
    exact fun position next hsome hplayer => (hp.told position next hsome hplayer).congr rfl rfl
      (by rw [hplace]; nofun) nofun

theorem Inv.stepPlayer {n : BitVec 32} (h : Match.stepPlayer m s p n = some s') : Inv m s' := by
  obtain ⟨unread, hp⟩ := hs.slot p
  have hphase : ∀ game, s.game = some game → Phase game s.given :=
    fun game hgame => (hs.game game hgame).phase
  unfold Match.stepPlayer at h
  cases hplace : (s.player p).place <;> rw [hplace] at h <;> dsimp only at h
  case reading =>
    split_ifs at h with hsent
    obtain rfl := Option.some.inj h
    have hmoves := hs.playerMoves s.given (.inl rfl) (List.prefix_refl _) hphase
      (fun hnone => (hs.unbegun hnone).2) (by
        rw [Function.update_eq_self p s.replies]
        exact hp.receive hs hplace hsent)
    rwa [Function.update_eq_self p s.replies] at hmoves
  case choosing =>
    obtain rfl := Option.some.inj h
    obtain ⟨hgiven, hrequest, hmove⟩ := hs.given_of_choosing hplace
    obtain ⟨game, hgame, -, -, -, -, hwaits⟩ := hs.waits_of_move hrequest hmove
    have hmoves := hs.playerMoves (some n) (.inr ⟨_, hrequest, hmove⟩)
      (by rw [State.typed, hgiven]; exact ⟨[n], by simp⟩) ?_ (by rw [hgame]; nofun)
      ⟨unread, by
        rw [Function.update_eq_self p s.replies, Function.update_eq_self p s.sent]
        exact hp.choose hs hplace n⟩
    · rwa [Function.update_eq_self p s.replies, Function.update_eq_self p s.sent] at hmoves
    · intro game' hgame'
      rw [hgame] at hgame'
      obtain rfl := Option.some.inj hgame'
      exact hwaits (some n)
  case replying bytes =>
    obtain rfl := Option.some.inj h
    have hmoves := hs.playerMoves s.given (.inl rfl) (List.prefix_refl _) hphase
      (fun hnone => (hs.unbegun hnone).2) ⟨unread, by
        rw [Function.update_eq_self p s.sent]
        exact hp.reply hplace⟩
    rwa [Function.update_eq_self p s.sent] at hmoves
  all_goals cases h

end Step

end Sysopy.GameServer.Match
