import Sysopy.GameServer.Conversation

/-!
# The steps of a game over its sockets

Each statement of the thread of the game, and what it decides between them, keeps the invariant. An
answer is a few bytes that land in front of the request in the buffer of the server, so together
they are the message that the client meant.
-/
namespace Sysopy.GameServer.Match

open Transition
open Threads (Game Statement Pinger Next startGame nextSlot disconnectClient)

variable {m : Setup} {s s' : State} {p : Slot} {unread : List Message}

section Step

variable (hs : Inv m s)

include hs

/-! ### The game -/

theorem Inv.greets : Inv m
    { s.write ⟨m.player1, (m.connect m.player1).withType .msgWaiting⟩ with greeting := false } where
  clean := hs.clean
  ping := hs.ping
  mutex := hs.mutex
  apart := hs.apart
  slot p := by
    obtain ⟨unread, hp⟩ := hs.slot p
    by_cases hplayer : p = m.player1
    · subst hplayer
      exact ⟨_, hp.idles (.inl rfl) (Function.update_self ..) rfl
        (hp.link.inform (.inr (.inr (.inl rfl))) fun _ => rfl) rfl rfl⟩
    · refine ⟨unread, hp.congr ?_ hp.link rfl (List.prefix_refl _) rfl rfl⟩
      exact Function.update_of_ne hplayer _ _
  game game hgame := ⟨(hs.game game hgame).player1, (hs.game game hgame).player2,
    (hs.game game hgame).position, (hs.game game hgame).phase⟩
  unbegun := hs.unbegun

theorem Inv.begins (hgame : s.game = none) : Inv m
    { s with game := some (startGame m.name (fun _ => 0) m.player1 m.player2 m.junk) } := by
  obtain ⟨hplayed, hgiven⟩ := hs.unbegun hgame
  have htodo : s.todo = [] := by rw [State.todo, hgame]
  refine ⟨hs.clean, hs.ping, ?_, by rintro p - ⟨⟩, fun p => ?_, ?_, by rintro ⟨⟩⟩
  · intro p
    have hp := hs.mutex p
    rw [htodo] at hp
    exact hp
  · obtain ⟨unread, hp⟩ := hs.slot p
    obtain ⟨hidles, hplace⟩ := hp.unbegun (by rw [State.table, hgame]; rfl)
    have hrequest : State.request
        { s with game := some (startGame m.name (fun _ => 0) m.player1 m.player2 m.junk) } p =
        s.request p := by
      rw [request_of_not_asks (s := s) (by rw [htodo]; rintro ⟨⟩)]
      exact request_of_not_asks (by rintro ⟨⟩)
    refine ⟨unread, hp.sent, hrequest ▸ hp.link, ?_, hp.shown, by rintro ⟨⟩, ?_⟩
    · intro msg hmsg htype
      rcases List.mem_append.mp hmsg with hmsg | hmsg
      · rcases hidles msg hmsg with h | h <;> rw [h] at htype <;> cases htype
      · exact ⟨[], List.nil_prefix, board_of_due_startGame hmsg htype⟩
    · rintro position next ⟨⟩ hplayer
      obtain ⟨first, update, hdue, hfirst, hsymbol, hupdate, hboard⟩ :=
        due_startGame_player m hplayer
      have hbegin := Told.begin hidles hplace hfirst hupdate 0
      rw [hsymbol, hboard] at hbegin
      exact hdue ▸ hbegin
  · rintro game ⟨⟩
    refine ⟨rfl, rfl, ?_, ?_⟩
    · rw [hplayed]
      rfl
    · rw [hgiven]
      exact .tells _ rfl (by simp [sendMsgStart, sendMsgUpdate]) rfl

theorem Inv.gameLocks {game : Game} (hgame : s.game = some game) {todo : List Statement}
    {mutex : Slot → Option Side} (hdue : ∀ p, due p todo = due p game.todo)
    (hasks : gameAsks todo = none) (hbefore : gameAsks game.todo = none)
    (hmutex : ∀ p, mutex p = if pingerIn s.pinger = some p then some .pinger
      else if gameIn todo = some p then some .game else none)
    (hapart : ∀ p, pingerIn s.pinger = some p → gameIn todo ≠ some p)
    (hphase : Phase { game with todo := todo } s.given) :
    Inv m { s with mutex := mutex, game := some { game with todo := todo } } where
  clean := hs.clean
  ping := hs.ping
  mutex := hmutex
  apart := hapart
  slot p := by
    obtain ⟨unread, hp⟩ := hs.slot p
    have htodo := s.todo_eq hgame
    have hrequest : State.request
        { s with mutex := mutex, game := some { game with todo := todo } } p = s.request p := by
      rw [request_of_not_asks (s := s) (by rw [htodo, hbefore]; rintro ⟨⟩)]
      exact request_of_not_asks (by rw [State.todo, hasks]; rintro ⟨⟩)
    refine ⟨unread, hp.congr rfl (hrequest ▸ hp.link) rfl (List.prefix_refl _) ?_ ?_⟩
    · rw [htodo]
      exact hdue p
    · rw [State.table, State.table, hgame]
      rfl
  game game' hgame' := by
    obtain rfl := Option.some.inj hgame'
    exact ⟨(hs.game game hgame).player1, (hs.game game hgame).player2,
      (hs.game game hgame).position, hphase⟩
  unbegun hnone := by cases hnone

theorem Inv.gameTells {game : Game} (hgame : s.game = some game) {w : Write} {todo : List Statement}
    (htodo : game.todo = .write w :: todo) (hw : Informs w.msg.type)
    (hin : gameIn todo = none) (hbefore : gameIn game.todo = none)
    (hphase : Phase { game with todo := todo } s.given) :
    Inv m { s.write w with game := some { game with todo := todo } } where
  clean := hs.clean
  ping := hs.ping
  mutex p := by
    have hp := hs.mutex p
    rw [s.todo_eq hgame, hbefore] at hp
    refine hp.trans ?_
    rw [State.todo, hin]
    rfl
  apart p hp := by
    rw [State.todo, hin]
    rintro ⟨⟩
  slot p := by
    obtain ⟨unread, hp⟩ := hs.slot p
    have htodo' := s.todo_eq hgame
    have hasks : gameAsks s.todo ≠ some p := by
      intro h
      have h' := gameIn_of_asks h
      rw [htodo', hbefore] at h'
      cases h'
    have hasks' : gameAsks todo ≠ some p := by
      intro h
      have h' := gameIn_of_asks h
      rw [hin] at h'
      cases h'
    have hrequest : State.request { s.write w with game := some { game with todo := todo } } p =
        s.request p := by
      rw [request_of_not_asks (s := s) hasks]
      exact request_of_not_asks hasks'
    have htable : State.table { s.write w with game := some { game with todo := todo } } =
        s.table := by
      rw [State.table, State.table, hgame]
      rfl
    by_cases hplayer : w.player = p
    · subst hplayer
      refine ⟨unread ++ [w.msg], hp.written (Function.update_self ..) rfl ?_ rfl ?_ htable ?_⟩
      · rw [hrequest]
        refine hp.link.inform hw fun hchoosing => ?_
        exact absurd hchoosing (hp.link.not_choosing fun msg hmsg => hs.request_ne_move hasks hmsg)
      · rw [htodo', htodo, due_write_self]
        rfl
      · rw [State.table, hgame]
        rintro ⟨⟩
    · refine ⟨unread, hp.congr (Function.update_of_ne (Ne.symm hplayer) _ _) (hrequest ▸ hp.link)
        rfl (List.prefix_refl _) ?_ htable⟩
      rw [htodo', htodo, due_write_of_ne hplayer]
      rfl
  game game' hgame' := by
    obtain rfl := Option.some.inj hgame'
    exact ⟨(hs.game game hgame).player1, (hs.game game hgame).player2,
      (hs.game game hgame).position, hphase⟩
  unbegun hnone := by cases hnone

theorem Inv.gameAsksMove {game : Game} (hgame : s.game = some game) (hnext : game.next = .moved)
    (hopen : checkBoard game.position.board = 0) (hmsg : game.msg.type = .msgMove)
    (htodo : game.todo = [.write ⟨game.player, game.msg⟩, .read game.player, .unlock game.player])
    (hgiven : s.given = none) : Inv m { s.write ⟨game.player, game.msg⟩ with
      game := some { game with todo := [.read game.player, .unlock game.player] } } := by
  have htodo' : s.todo = _ := (s.todo_eq hgame).trans htodo
  have hin : gameIn s.todo = some game.player := by
    rw [htodo']
    rfl
  refine ⟨hs.clean, hs.ping, ?_, ?_, ?_, ?_, by rintro ⟨⟩⟩
  · intro p
    have hp := hs.mutex p
    rw [hin] at hp
    exact hp
  · intro p hp
    have hapart := hs.apart p hp
    rwa [hin] at hapart
  · intro p
    obtain ⟨unread, hp⟩ := hs.slot p
    have htable : State.table { s.write ⟨game.player, game.msg⟩ with
        game := some { game with todo := [.read game.player, .unlock game.player] } } =
        s.table := by
      rw [State.table, State.table, hgame]
      rfl
    have hasks : gameAsks s.todo ≠ some p := by
      rw [htodo']
      rintro ⟨⟩
    by_cases hplayer : p = game.player
    · subst hplayer
      have hpinger : pingerAsks s.pinger ≠ some game.player := fun h =>
        hs.apart _ (pingerIn_of_asks h) hin
      have hlink := hp.link
      rw [request_eq_none hpinger hasks] at hlink
      have hasked : State.request { s.write ⟨game.player, game.msg⟩ with
          game := some { game with todo := [.read game.player, .unlock game.player] } }
          game.player = some game.msg := (if_neg hpinger).trans (if_pos rfl)
      refine ⟨unread ++ [game.msg], hp.written (Function.update_self ..) rfl ?_ rfl ?_ htable ?_⟩
      · rw [hasked]
        exact hlink.ask (.inr ⟨hmsg, hgiven⟩)
      · rw [htodo']
        exact due_write_self ⟨game.player, game.msg⟩ _
      · rw [State.table, hgame]
        rintro ⟨⟩
    · have hrequest : State.request { s.write ⟨game.player, game.msg⟩ with
          game := some { game with todo := [.read game.player, .unlock game.player] } } p =
          s.request p := by
        rw [request_of_not_asks (s := s) hasks]
        exact request_of_not_asks fun h => hplayer (Option.some.inj h).symm
      refine ⟨unread, hp.congr (Function.update_of_ne hplayer _ _) (hrequest ▸ hp.link) rfl
        (List.prefix_refl _) ?_ htable⟩
      rw [htodo', due_write_of_ne (Ne.symm hplayer)]
      rfl
  · rintro game' ⟨⟩
    exact ⟨(hs.game game hgame).player1, (hs.game game hgame).player2,
      (hs.game game hgame).position, .waits s.given hnext hopen hmsg rfl⟩

theorem Inv.gameHears {game : Game} (hgame : s.game = some game) (hnext : game.next = .moved)
    (hmsg : game.msg.type = .msgMove) (htodo : game.todo = [.read game.player, .unlock game.player])
    {u : State × Message} (h : s.read game.player game.msg = some u) : Inv m { u.1 with
      game := some { game with msg := u.2, todo := [.unlock game.player] } } := by
  have htodo' : s.todo = _ := (s.todo_eq hgame).trans htodo
  have hin : gameIn s.todo = some game.player := by
    rw [htodo']
    rfl
  have hpinger : pingerAsks s.pinger ≠ some game.player := fun h =>
    hs.apart _ (pingerIn_of_asks h) hin
  obtain ⟨unread, hplayer⟩ := hs.slot game.player
  have hrequest : s.request game.player = some game.msg := by
    rw [request_of_not_pinged hpinger, htodo', hgame]
    exact if_pos rfl
  have hlink := hplayer.link
  rw [hrequest] at hlink
  have hreplies : s.replies game.player ≠ [] := by
    intro hnil
    simp [State.read, hnil] at h
  obtain ⟨v, hended, -⟩ | ⟨hplace, ⟨hping, -⟩ | ⟨-, n, hgiven, hbytes⟩, hunread⟩ :=
    hlink.heard hreplies
  · have htold := hplayer.told game.position game.next (by rw [State.table, hgame]; rfl)
      (hs.player_cases hgame)
    have hended' := (htold.ended v hended).1
    rw [hnext] at hended'
    cases hended'
  · rw [hmsg] at hping
    cases hping
  obtain ⟨msg, hread, -, rfl⟩ := hs.read_eq h hplayer.link.length_replies
  rw [hbytes, Message.read_withMove] at hread
  obtain rfl := Option.some.inj hread
  refine ⟨hs.clean, hs.ping, ?_, ?_, ?_, ?_, by rintro ⟨⟩⟩
  · intro p
    have hp := hs.mutex p
    rw [hin] at hp
    exact hp
  · intro p hp
    have hapart := hs.apart p hp
    rwa [hin] at hapart
  · intro p
    have htable : State.table { s with
        replies := Function.update s.replies game.player []
        game := some { game with msg := game.msg.withMove n, todo := [.unlock game.player] } } =
        s.table := by
      rw [State.table, State.table, hgame]
      rfl
    have hdue : ∀ p, due p s.todo = [] := by
      rw [htodo']
      exact fun _ => rfl
    by_cases hp : p = game.player
    · subst hp
      refine ⟨unread, hplayer.congr rfl ?_ rfl (List.prefix_refl _) (hdue _).symm htable⟩
      have hnone : State.request { s with
          replies := Function.update s.replies game.player []
          game := some { game with msg := game.msg.withMove n, todo := [.unlock game.player] } }
          game.player = none := request_eq_none (by exact hpinger) (by rintro ⟨⟩)
      rw [hnone]
      simp only [Function.update_self]
      exact .idle hplace hunread
    · obtain ⟨unread, hslot⟩ := hs.slot p
      have hrequest : State.request { s with
          replies := Function.update s.replies game.player []
          game := some { game with msg := game.msg.withMove n, todo := [.unlock game.player] } } p =
          s.request p := by
        rw [request_of_not_asks (s := s)
          (by rw [htodo']; exact fun h => hp (Option.some.inj h).symm)]
        exact request_of_not_asks (by rintro ⟨⟩)
      refine ⟨unread, hslot.congr rfl ?_ rfl (List.prefix_refl _) (hdue p).symm htable⟩
      rw [hrequest]
      simp only [Function.update_of_ne hp]
      exact hslot.link
  · rintro game' ⟨⟩
    refine ⟨(hs.game game hgame).player1, (hs.game game hgame).player2,
      (hs.game game hgame).position, ?_⟩
    simp only [hgiven]
    exact .heard n hnext hmsg (Message.move_withMove _ _) rfl

theorem Inv.decides {game : Game} (game' : Game) (hgame : s.game = some game)
    (htodo : game.todo = [])
    (hnext : game.next ≠ .ended) (hplayer1 : game'.player1 = game.player1)
    (hplayer2 : game'.player2 = game.player2) {played : List (BitVec 32)}
    {given : Option (BitVec 32)} (htyped : played ++ given.toList = s.typed)
    (hposition : game'.position = positionOf played) (hphase : Phase game' given)
    (hin : gameIn game'.todo = none)
    (hone : ∀ p, (due p game'.todo).length ≤ 1)
    (hnew : ∀ p, ∀ msg ∈ due p game'.todo, msg.type ≠ .msgStart ∧
      (msg.type = .msgUpdate → msg.board = game'.position.board) ∧
      (msg.type = .msgEnd → game'.next = .ended ∧ msg.winner = checkBoard game'.position.board))
    (hplayers : ∀ p, p = m.player1 ∨ p = m.player2 →
      shownAfter (some game.position.board) (due p game'.todo) = some game'.position.board ∧
      (game'.next = .ended → ∃ msg ∈ due p game'.todo, msg.type = .msgEnd)) :
    Inv m { s with game := some game', played := played, given := given } := by
  have htodo' : s.todo = [] := (s.todo_eq hgame).trans htodo
  refine ⟨hs.clean, hs.ping, ?_, fun p hp => by simp [State.todo, hin], ?_, ?_, by rintro ⟨⟩⟩
  · intro p
    have hp := hs.mutex p
    rw [htodo'] at hp
    refine hp.trans ?_
    rw [State.todo, hin]
    rfl
  · intro p
    obtain ⟨unread, hp⟩ := hs.slot p
    have hasks : gameAsks s.todo ≠ some p := by
      rw [htodo']
      rintro ⟨⟩
    have hasks' : gameAsks game'.todo ≠ some p := by
      intro h
      have h' := gameIn_of_asks h
      rw [hin] at h'
      cases h'
    have hrequest : State.request
        { s with game := some game', played := played, given := given } p =
        s.request p := by
      rw [request_of_not_asks (s := s) hasks]
      exact request_of_not_asks hasks'
    have hmove : ∀ msg, s.request p = some msg → msg.type ≠ .msgMove :=
      fun msg hmsg => hs.request_ne_move hasks hmsg
    refine ⟨unread, hp.sent, hrequest ▸ hp.link.congr hmove, ?_, ?_, by rintro ⟨⟩, ?_⟩
    · change ∀ msg ∈ unread ++ due p game'.todo, msg.type = .msgUpdate →
        Seen (played ++ given.toList) msg.board
      rw [htyped]
      intro msg hmsg htype
      rcases List.mem_append.mp hmsg with hmsg | hmsg
      · exact hp.seen msg (List.mem_append_left _ hmsg) htype
      · refine ⟨played, ⟨given.toList, htyped⟩, ?_⟩
        rw [← hposition]
        exact (hnew p msg hmsg).2.1 htype
    · change ∀ board, (s.player p).shown = some board → Seen (played ++ given.toList) board
      rw [htyped]
      exact hp.shown
    · rintro position next ⟨⟩ hplayer
      obtain ⟨hshown, hend⟩ := hplayers p hplayer
      have htold := hp.told game.position game.next (by rw [State.table, hgame]; rfl) hplayer
      rw [htodo', due_nil, List.append_nil] at htold
      refine htold.extend hnext ?_ (hone p) (fun msg hmsg => (hnew p msg hmsg).1) hshown
        (fun msg hmsg => (hnew p msg hmsg).2.2) hend
      exact hp.link.not_move hmove fun v hv => hnext (htold.ended v hv).1
  · rintro _ ⟨⟩
    exact ⟨hplayer1.trans (hs.game game hgame).player1, hplayer2.trans (hs.game game hgame).player2,
      hposition, hphase⟩

theorem Inv.gameLoops {game game' : Game} (hgame : s.game = some game) (htodo : game.todo = [])
    (hnext : game.next = .loop) (hgiven : s.given = none) (h : game.decide = some game') :
    Inv m { s with game := some game' } := by
  have hg := hs.game game hgame
  have hne : game.player1 ≠ game.player2 := by
    rw [hg.player1, hg.player2]
    exact m.ne
  rw [Game.decide, hnext] at h
  dsimp only at h
  split_ifs at h with hclosed
  · obtain rfl := Option.some.inj h
    have hdue : ∀ p, due p (game.sendEnd (checkBoard game.position.board)).todo =
        if p = game.player1 ∨ p = game.player2 then
          [(game.msg.withType .msgEnd).withWinner (checkBoard game.position.board)] else [] := by
      intro p
      rw [Game.sendEnd, List.append_assoc]
      exact due_both hne _ p rfl
    refine hs.decides (game.sendEnd _) hgame htodo (by simp [hnext]) rfl rfl rfl hg.position
      ?_ ?_ ?_ ?_ ?_
    · rw [hgiven]
      refine .ends (sendMsgEnd game.msg game.player1 game.player2 (checkBoard game.position.board))
        rfl hclosed ?_ (List.append_assoc ..)
      simp [sendMsgEnd]
    · rw [Game.sendEnd, List.append_assoc]
      exact gameIn_writes _ rfl
    · intro p
      rw [hdue]
      split_ifs <;> simp
    · intro p msg hmsg
      rw [hdue] at hmsg
      split_ifs at hmsg
      · obtain rfl := List.mem_singleton.mp hmsg
        exact ⟨by rintro ⟨⟩, by rintro ⟨⟩, fun _ => ⟨rfl, rfl⟩⟩
      · cases hmsg
    · intro p hp
      rw [hdue, if_pos (by rwa [hg.player1, hg.player2])]
      exact ⟨rfl, fun _ => ⟨_, List.mem_singleton_self _, rfl⟩⟩
  · obtain rfl := Option.some.inj h
    have hdue : ∀ p, due p game.sendMove.todo =
        if game.player = p then [game.msg.withType .msgMove] else [] := by
      intro p
      change due p [.write ⟨game.player, game.msg.withType .msgMove⟩] = _
      split_ifs with hp
      · subst hp
        exact due_write_self ⟨game.player, _⟩ []
      · exact due_write_of_ne hp []
    refine hs.decides game.sendMove hgame htodo (by simp [hnext]) rfl rfl rfl hg.position
      ?_ rfl ?_ ?_ ?_
    · rw [hgiven]
      exact .locks rfl (not_not.mp hclosed) rfl rfl
    · intro p
      rw [hdue]
      split_ifs <;> simp
    · intro p msg hmsg
      rw [hdue] at hmsg
      split_ifs at hmsg
      · obtain rfl := List.mem_singleton.mp hmsg
        exact ⟨by rintro ⟨⟩, by rintro ⟨⟩, by rintro ⟨⟩⟩
      · cases hmsg
    · intro p _
      rw [hdue]
      refine ⟨?_, by rintro ⟨⟩⟩
      split_ifs <;> rfl

theorem Inv.gameMoves {game game' : Game} (hgame : s.game = some game) (htodo : game.todo = [])
    (hnext : game.next = .moved) {n : BitVec 32} (hgiven : s.given = some n)
    (hmsg : game.msg.type = .msgMove) (hmove : game.msg.move = n.toInt)
    (h : game.decide = some game') :
    Inv m { s with game := some game', played := s.played ++ [n], given := none } := by
  have hg := hs.game game hgame
  have hne : game.player1 ≠ game.player2 := by
    rw [hg.player1, hg.player2]
    exact m.ne
  have htyped : s.played ++ [n] ++ (none : Option (BitVec 32)).toList = s.typed := by
    rw [State.typed, hgiven]
    exact List.append_nil _
  have hturn : turn game.position game.msg = turn (positionOf s.played) (answer n) := by
    have hanswer : (answer n).move = n.toInt := Message.move_withMove _ _
    rw [turn, turn, hg.position, hmsg, hmove, hanswer]
    rfl
  have hplay : positionOf (s.played ++ [n]) = (positionOf s.played).play (answer n) := by
    rw [positionOf, List.map_append, Position.after, List.foldl_append]
    rfl
  have hnext' : game.next ≠ .ended := by
    rw [hnext]
    rintro ⟨⟩
  rw [Game.decide, hnext] at h
  dsimp only at h
  rw [Position.play, ← hturn] at hplay
  cases hcase : turn game.position game.msg with
  | leaves =>
    rw [turn, if_neg (by rw [hmsg]; decide)] at hcase
    cases hfield : freeField game.position.board game.msg.move <;> simp [hfield] at hcase
  | rejected =>
    rw [hcase] at h hplay
    obtain rfl := Option.some.inj h
    dsimp only at hplay
    have hdue : ∀ p, due p game.todo = [] := by
      rw [htodo]
      exact fun _ => rfl
    refine hs.decides { game with next := .loop } hgame htodo hnext' rfl rfl htyped
      (hg.position.trans hplay.symm) ?_ ?_ ?_ ?_ ?_
    · exact .tells [] rfl (by simp) htodo
    · rw [htodo]
      rfl
    · exact fun p => (congrArg List.length (hdue p)).le.trans (Nat.zero_le _)
    · intro p msg hmsg
      rw [hdue] at hmsg
      cases hmsg
    · intro p _
      rw [hdue]
      exact ⟨rfl, by rintro ⟨⟩⟩
  | accepted board =>
    rw [hcase] at h hplay
    obtain rfl := Option.some.inj h
    dsimp only at hplay
    let update := (game.msg.withType .msgUpdate).withBoard board
    have hboard : update.board = board := Message.withBoard_board _ _
    have hdue : ∀ p, due p (game.sendUpdate board).todo =
        if p = game.player1 ∨ p = game.player2 then [update] else [] := fun p =>
      due_both hne update p (due_nil p)
    refine hs.decides (game.sendUpdate board) hgame htodo hnext' rfl rfl htyped ?_ ?_ ?_ ?_ ?_ ?_
    · rw [hplay, ← hg.position]
      rfl
    · refine .tells (sendMsgUpdate game.msg game.player1 game.player2 board).2 rfl ?_ rfl
      simp [sendMsgUpdate]
    · exact gameIn_writes [_, _] rfl
    · intro p
      rw [hdue]
      split_ifs <;> simp
    · intro p msg hmsg
      rw [hdue] at hmsg
      split_ifs at hmsg
      · obtain rfl := List.mem_singleton.mp hmsg
        exact ⟨by rintro ⟨⟩, fun _ => hboard, by rintro ⟨⟩⟩
      · cases hmsg
    · intro p hp
      rw [hdue, if_pos (by rwa [hg.player1, hg.player2])]
      exact ⟨congrArg some hboard, by rintro ⟨⟩⟩

theorem Inv.stepGame {game : Game} (hgame : s.game = some game)
    (h : Match.stepGame s game = some s') : Inv m s' := by
  have hg := hs.game game hgame
  have hphase := hg.phase
  unfold Match.stepGame at h
  generalize hgiven : s.given = given at hphase
  cases hphase with
  | tells writes hnext hwrites htodo =>
    cases writes with
    | nil =>
      rw [htodo] at h
      obtain ⟨game', hdecide, rfl⟩ := Option.map_eq_some_iff.mp h
      rw [State.decided, hnext]
      exact hs.gameLoops hgame htodo hnext hgiven hdecide
    | cons w writes =>
      rw [htodo] at h
      obtain rfl := Option.some.inj h
      refine hs.gameTells hgame htodo ?_ ?_ ?_ ?_
      · exact (hwrites w (List.mem_cons_self ..)).imp_right .inl
      · exact List.append_nil (writes.map _) ▸ gameIn_writes writes rfl
      · rw [htodo]
        exact List.append_nil ((w :: writes).map _) ▸ gameIn_writes (w :: writes) rfl
      · rw [hgiven]
        exact .tells writes hnext (fun w hw => hwrites w (List.mem_cons_of_mem _ hw)) rfl
  | ends writes hnext hclosed hwrites htodo =>
    cases writes with
    | nil =>
      rw [htodo] at h
      cases h
    | cons w writes =>
      rw [htodo] at h
      obtain rfl := Option.some.inj h
      refine hs.gameTells hgame htodo ?_ ?_ ?_ ?_
      · exact .inr (.inr (.inr (hwrites w (List.mem_cons_self ..))))
      · exact gameIn_writes writes rfl
      · rw [htodo]
        exact gameIn_writes (w :: writes) rfl
      · rw [hgiven]
        exact .ends writes hnext hclosed (fun w hw => hwrites w (List.mem_cons_of_mem _ hw)) rfl
  | locks hnext hopen hmsg htodo =>
    rw [htodo] at h
    obtain ⟨⟨u, msg⟩, hu, rfl⟩ := Option.map_eq_some_iff.mp h
    unfold State.perform at hu
    dsimp only at hu
    split_ifs at hu with hmutex
    obtain ⟨rfl, rfl⟩ := Prod.mk.inj (Option.some.inj hu)
    obtain ⟨hpinger, -⟩ := hs.not_asks_of_mutex hmutex
    refine hs.gameLocks hgame ?_ rfl (by rw [htodo]; rfl) (fun p => ?_) ?_ ?_
    · rw [htodo]
      exact fun _ => rfl
    · by_cases hp : p = game.player
      · subst hp
        rw [if_neg hpinger]
        exact (Function.update_self ..).trans (if_pos rfl).symm
      · have hother := hs.mutex p
        rw [s.todo_eq hgame, htodo] at hother
        refine (Function.update_of_ne hp _ _).trans (hother.trans (if_congr Iff.rfl rfl ?_))
        exact (if_neg fun h => hp (Option.some.inj h).symm).symm
    · rintro p hp ⟨⟩
      exact hpinger hp
    · rw [hgiven]
      exact .asks hnext hopen hmsg rfl
  | asks hnext hopen hmsg htodo =>
    rw [htodo] at h
    obtain rfl := Option.some.inj h
    exact hs.gameAsksMove hgame hnext hopen hmsg htodo hgiven
  | waits _ hnext hopen hmsg htodo =>
    rw [htodo] at h
    obtain ⟨u, hu, rfl⟩ := Option.map_eq_some_iff.mp h
    exact hs.gameHears hgame hnext hmsg htodo hu
  | heard n hnext hmsg hmove htodo =>
    rw [htodo] at h
    obtain rfl := Option.some.inj h
    have hin : gameIn s.todo = some game.player := by
      rw [s.todo_eq hgame, htodo]
      rfl
    refine hs.gameLocks hgame ?_ rfl (by rw [htodo]; rfl) (fun p => ?_) (by rintro p - ⟨⟩) ?_
    · rw [htodo]
      exact fun _ => rfl
    · by_cases hp : p = game.player
      · subst hp
        rw [if_neg fun h => hs.apart _ h hin]
        exact Function.update_self ..
      · have hother := hs.mutex p
        rw [hin] at hother
        refine (Function.update_of_ne hp _ _).trans (hother.trans (if_congr Iff.rfl rfl ?_))
        exact if_neg fun h => hp (Option.some.inj h).symm
    · rw [hgiven]
      exact .moved n hnext hmsg hmove rfl
  | moved n hnext hmsg hmove htodo =>
    rw [htodo] at h
    obtain ⟨game', hdecide, rfl⟩ := Option.map_eq_some_iff.mp h
    rw [State.decided, hnext]
    dsimp only
    rw [hgiven]
    exact hs.gameMoves hgame htodo hnext hgiven hmsg hmove hdecide

theorem Inv.move {e : Event} (h : Match.move m s e = some s') : Inv m s' := by
  cases e with
  | begin =>
    unfold Match.move at h
    dsimp only at h
    split_ifs at h with hgame
    obtain rfl := Option.some.inj h
    exact hs.begins (Option.isNone_iff_eq_none.mp hgame)
  | greet =>
    unfold Match.move at h
    dsimp only at h
    split_ifs at h
    obtain rfl := Option.some.inj h
    exact hs.greets
  | game =>
    obtain ⟨game, hgame, h⟩ := Option.bind_eq_some_iff.mp h
    exact hs.stepGame hgame h
  | pinger => exact hs.stepPinger h
  | player p n => exact hs.stepPlayer h

theorem Inv.step {e : Event} (h : Match.step m s e = some s') : Inv m s' := by
  unfold Match.step at h
  split_ifs at h
  exact hs.move h

end Step

end Sysopy.GameServer.Match
