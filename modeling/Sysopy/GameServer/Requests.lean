import Sysopy.GameServer.Match

/-!
# Requests and answers

`MSG_MOVE` and `MSG_PING` are requests, and the mutex of a slot stays with the thread that has sent
one until it has read the answer. So there is at most one request on each connection, and it is in
the stream to the client, with the client, or in the stream back. Everything else that is sent only
informs the client.
-/
namespace Sysopy.GameServer.Match

open Transition
open Threads (Game Statement Pinger Next startGame nextSlot disconnectClient)

/-- A message that is not answered. -/
def Informs (type : MessageType) : Prop :=
  type = .msgStart ∨ type = .msgUpdate ∨ type = .msgWaiting ∨ type = .msgEnd

/-- A message that says nothing of the game. -/
def Idles (type : MessageType) : Prop := type = .msgWaiting ∨ type = .msgPing

/-- The bytes that answer a message: any for a ping, the number for a move. -/
def Answers (msg : Message) (given : Option (BitVec 32)) (bytes : List UInt8) : Prop :=
  msg.type = .msgPing ∧ bytes.length = POINTER_SIZE ∨
    msg.type = .msgMove ∧ ∃ n, given = some n ∧ bytes = (msg.withMove n).bytes.take POINTER_SIZE

/-- The connection of a client: the messages that it has not read, the bytes that the server has
not read, and the request that is not answered. -/
inductive Link (player : Player) (given : Option (BitVec 32)) :
    List Message → List UInt8 → Option Message → Prop
  | idle {unread : List Message} (hplace : player.place = .reading)
      (hunread : ∀ msg ∈ unread, Informs msg.type) : Link player given unread [] none
  | asked {before after : List Message} {request : Message} (hplace : player.place = .reading)
      (hbefore : ∀ msg ∈ before, Informs msg.type) (hafter : ∀ msg ∈ after, Informs msg.type)
      (hrequest : request.type = .msgPing ∨ request.type = .msgMove ∧ given = none) :
      Link player given (before ++ request :: after) [] (some request)
  | choosing {unread : List Message} (hplace : player.place = .choosing)
      (hmsg : player.msg.type = .msgMove) (hgiven : given = none)
      (hunread : ∀ msg ∈ unread, msg.type = .msgWaiting) :
      Link player given unread [] (some player.msg)
  | replying {unread : List Message} {bytes : List UInt8} {request : Message}
      (hplace : player.place = .replying bytes) (hanswers : Answers request given bytes)
      (hunread : ∀ msg ∈ unread, Informs msg.type) : Link player given unread [] (some request)
  | answered {unread : List Message} {bytes : List UInt8} {request : Message}
      (hplace : player.place = .reading) (hanswers : Answers request given bytes)
      (hunread : ∀ msg ∈ unread, Informs msg.type) : Link player given unread bytes (some request)
  | finished {unread : List Message} {replies : List UInt8} {request : Option Message}
      {verdict : Verdict} (hplace : player.place = .ended verdict)
      (hreplies : replies.length ≤ POINTER_SIZE) : Link player given unread replies request

section Link

variable {player : Player} {given given' : Option (BitVec 32)} {unread : List Message}
  {replies : List UInt8} {request : Option Message}

theorem Answers.length {msg : Message} {bytes : List UInt8} (h : Answers msg given bytes) :
    bytes.length = POINTER_SIZE := by
  rcases h with ⟨-, h⟩ | ⟨-, n, -, rfl⟩
  · exact h
  · rw [List.length_take, Message.length_bytes]
    rfl

theorem Answers.ne_nil {msg : Message} {bytes : List UInt8} (h : Answers msg given bytes) :
    bytes ≠ [] := by
  rintro rfl
  exact absurd h.length (by decide)

theorem Link.congr (h : Link player given unread replies request)
    (hrequest : ∀ msg, request = some msg → msg.type ≠ .msgMove) :
    Link player given' unread replies request := by
  have hanswers : ∀ {msg bytes}, request = some msg → Answers msg given bytes →
      Answers msg given' bytes := by
    rintro msg bytes hmsg (hping | ⟨hmove, -⟩)
    · exact .inl hping
    · exact absurd hmove (hrequest msg hmsg)
  cases h with
  | idle hplace hunread => exact .idle hplace hunread
  | asked hplace hbefore hafter hping =>
    exact .asked hplace hbefore hafter (.inl (hping.resolve_right fun h => hrequest _ rfl h.1))
  | choosing _ hmsg => exact absurd hmsg (hrequest _ rfl)
  | replying hplace h hunread => exact .replying hplace (hanswers rfl h) hunread
  | answered hplace h hunread => exact .answered hplace (hanswers rfl h) hunread
  | finished hplace hreplies => exact .finished hplace hreplies

theorem Link.inform (h : Link player given unread replies request) {msg : Message}
    (hmsg : Informs msg.type) (hchoosing : player.place = .choosing → msg.type = .msgWaiting) :
    Link player given (unread ++ [msg]) replies request := by
  have happend : ∀ {P : Message → Prop} {messages : List Message}, (∀ m ∈ messages, P m) → P msg →
      ∀ m ∈ messages ++ [msg], P m := by
    intro P messages hall hnew m hm
    rcases List.mem_append.mp hm with hm | hm
    · exact hall m hm
    · rw [List.mem_singleton.mp hm]
      exact hnew
  cases h with
  | idle hplace hunread => exact .idle hplace (happend hunread hmsg)
  | asked hplace hbefore hafter hrequest =>
    rw [List.append_assoc, List.cons_append]
    exact .asked hplace hbefore (happend hafter hmsg) hrequest
  | choosing hplace hmove hgiven hunread =>
    exact .choosing hplace hmove hgiven (happend hunread (hchoosing hplace))
  | replying hplace hanswers hunread => exact .replying hplace hanswers (happend hunread hmsg)
  | answered hplace hanswers hunread => exact .answered hplace hanswers (happend hunread hmsg)
  | finished hplace hreplies => exact .finished hplace hreplies

theorem Link.ask (h : Link player given unread replies none) {msg : Message}
    (hmsg : msg.type = .msgPing ∨ msg.type = .msgMove ∧ given = none) :
    Link player given (unread ++ [msg]) replies (some msg) := by
  cases h with
  | idle hplace hunread => exact .asked hplace hunread (by simp) hmsg
  | finished hplace hreplies => exact .finished hplace hreplies

/-- What the server reads is the answer, unless the game is over for the client. -/
theorem Link.heard {msg : Message} (h : Link player given unread replies (some msg))
    (hreplies : replies ≠ []) :
    (∃ verdict, player.place = .ended verdict ∧ replies.length ≤ POINTER_SIZE) ∨
      player.place = .reading ∧ Answers msg given replies ∧
        ∀ msg ∈ unread, Informs msg.type := by
  cases h with
  | answered hplace hanswers hunread => exact .inr ⟨hplace, hanswers, hunread⟩
  | finished hplace hlength => exact .inl ⟨_, hplace, hlength⟩
  | _ => exact absurd rfl hreplies

theorem Link.length_replies (h : Link player given unread replies request) :
    replies.length ≤ POINTER_SIZE := by
  cases h with
  | answered _ hanswers => exact hanswers.length.le
  | finished _ hlength => exact hlength
  | _ => exact Nat.zero_le _

theorem Link.not_choosing (h : Link player given unread replies request)
    (hrequest : ∀ msg, request = some msg → msg.type ≠ .msgMove) : player.place ≠ .choosing := by
  cases h with
  | choosing _ hmsg => exact absurd hmsg (hrequest _ rfl)
  | idle hplace | asked hplace | replying hplace | answered hplace | finished hplace =>
    rw [hplace]
    nofun

theorem Link.not_move (h : Link player given unread replies request)
    (hrequest : ∀ msg, request = some msg → msg.type ≠ .msgMove)
    (hplace : ∀ v, player.place ≠ .ended v) : ∀ msg ∈ unread, msg.type ≠ .msgMove := by
  have hinforms : ∀ {type : MessageType}, Informs type → type ≠ .msgMove := by
    rintro type (rfl | rfl | rfl | rfl) <;> decide
  cases h with
  | idle _ hunread | replying _ _ hunread | answered _ _ hunread =>
    exact fun msg hmsg => hinforms (hunread msg hmsg)
  | asked _ hbefore hafter =>
    intro msg hmsg
    rcases List.mem_append.mp hmsg with hmsg | hmsg
    · exact hinforms (hbefore msg hmsg)
    · rcases List.mem_cons.mp hmsg with rfl | hmsg
      · exact hrequest _ rfl
      · exact hinforms (hafter msg hmsg)
  | choosing _ hmsg => exact absurd hmsg (hrequest _ rfl)
  | finished hended => exact absurd hended (hplace _)

theorem Link.kind {msg : Message} (h : Link player given (msg :: unread) replies request)
    (hplace : player.place = .reading) :
    Informs msg.type ∨ msg.type = .msgPing ∨ msg.type = .msgMove := by
  generalize hmessages : msg :: unread = messages at h
  cases h with
  | idle _ hunread | answered _ _ hunread =>
    exact .inl (hunread msg (hmessages ▸ List.mem_cons_self ..))
  | @asked before _ request _ hbefore _ hrequest =>
    cases before with
    | nil =>
      obtain ⟨rfl, rfl⟩ := List.cons.inj hmessages
      exact .inr (hrequest.imp_right And.left)
    | cons first before =>
      obtain ⟨rfl, rfl⟩ := List.cons.inj hmessages
      exact .inl (hbefore msg (List.mem_cons_self ..))
  | choosing h | replying h | finished h =>
    rw [hplace] at h
    cases h

theorem handle_of_informs {msg : Message} (hmsg : Informs msg.type)
    (pointer : Vector UInt8 POINTER_SIZE) (hplace : player.place = .reading) :
    (({ player with msg := msg } : Player).handle pointer).place = .reading ∨
      (({ player with msg := msg } : Player).handle pointer).place =
        .ended (handleEnd msg player.symbol) := by
  rcases hmsg with h | h | h | h <;> simp [Player.handle, h, hplace]

theorem Link.receive {msg : Message} (h : Link player given (msg :: unread) replies request)
    (pointer : Vector UInt8 POINTER_SIZE) (hplace : player.place = .reading)
    (hlater : msg.type = .msgMove → ∀ later ∈ unread, Idles later.type) :
    Link (({ player with msg := msg } : Player).handle pointer) given unread replies request := by
  have htail : ∀ {P : Message → Prop}, (∀ m ∈ msg :: unread, P m) → ∀ m ∈ unread, P m :=
    fun h m hm => h m (List.mem_cons_of_mem _ hm)
  generalize hmessages : msg :: unread = messages at h htail
  cases h with
  | idle _ hunread =>
    subst hmessages
    rcases handle_of_informs (hunread msg (List.mem_cons_self ..)) pointer hplace with h | h
    · exact .idle h (htail hunread)
    · exact .finished h (Nat.zero_le _)
  | answered _ hanswers hunread =>
    subst hmessages
    rcases handle_of_informs (hunread msg (List.mem_cons_self ..)) pointer hplace with h | h
    · exact .answered h hanswers (htail hunread)
    · exact .finished h hanswers.length.le
  | @asked before after request _ hbefore hafter hrequest =>
    cases before with
    | nil =>
      obtain ⟨rfl, rfl⟩ := List.cons.inj hmessages
      rcases hrequest with htype | ⟨htype, hgiven⟩
      · have hreplying : ({ player with msg := msg } : Player).handle pointer =
            { player with msg := msg, place := .replying pointer.toList } := by
          simp [Player.handle, htype]
        rw [hreplying]
        exact .replying rfl (.inl ⟨htype, by simp⟩) hafter
      · have hchoosing : ({ player with msg := msg } : Player).handle pointer =
            { player with msg := msg, place := .choosing } := by
          simp [Player.handle, htype]
        rw [hchoosing]
        refine .choosing rfl htype hgiven fun later hl => ?_
        rcases hlater htype later hl with hwaiting | hping
        · exact hwaiting
        · rcases hafter later hl with h | h | h | h <;> rw [hping] at h <;> cases h
    | cons m before =>
      obtain ⟨rfl, rfl⟩ := List.cons.inj hmessages
      rcases handle_of_informs (hbefore msg (List.mem_cons_self ..)) pointer hplace with h | h
      · exact .asked h (fun m hm => hbefore m (List.mem_cons_of_mem _ hm)) hafter hrequest
      · exact .finished h (Nat.zero_le _)
  | choosing h | replying h | finished h =>
    rw [hplace] at h
    cases h

end Link

/-! ## What a client is going to see -/

def shownAfter (shown : Option Board) (messages : List Message) : Option Board :=
  messages.foldl (fun shown msg => if msg.type = .msgUpdate then some msg.board else shown) shown

def symbolAfter (symbol : CChar) (messages : List Message) : CChar :=
  messages.foldl (fun symbol msg => if msg.type = .msgStart then msg.symbol else symbol) symbol

theorem shownAfter_of_idles {messages : List Message} (h : ∀ msg ∈ messages, Idles msg.type)
    (shown : Option Board) : shownAfter shown messages = shown := by
  induction messages generalizing shown with
  | nil => rfl
  | cons msg messages ih =>
    have hmsg : msg.type ≠ .msgUpdate := by
      rcases h msg (List.mem_cons_self ..) with h | h <;> rw [h] <;> decide
    rw [shownAfter, List.foldl_cons, if_neg hmsg]
    exact ih (fun msg hmsg => h msg (List.mem_cons_of_mem _ hmsg)) shown

theorem symbolAfter_of_idles {messages : List Message} (h : ∀ msg ∈ messages, Idles msg.type)
    (symbol : CChar) : symbolAfter symbol messages = symbol := by
  induction messages generalizing symbol with
  | nil => rfl
  | cons msg messages ih =>
    have hmsg : msg.type ≠ .msgStart := by
      rcases h msg (List.mem_cons_self ..) with h | h <;> rw [h] <;> decide
    rw [symbolAfter, List.foldl_cons, if_neg hmsg]
    exact ih (fun msg hmsg => h msg (List.mem_cons_of_mem _ hmsg)) symbol

/-- The message is a request for a move or the end, after which the game says nothing more. -/
def Closes (type : MessageType) : Prop := type = .msgMove ∨ type = .msgEnd

/-- What a client with the symbol sees and is going to see: in `messages` are those that it has not
read and those that the game is about to write to it. -/
structure Told (symbol : CChar) (position : Position) (next : Next) (player : Player)
    (messages : List Message) : Prop where
  shows : shownAfter player.shown messages = some position.board
  plays : symbolAfter player.symbol messages = symbol
  last : messages.Pairwise fun msg later => Closes msg.type → Idles later.type
  ending : ∀ msg ∈ messages, msg.type = .msgEnd →
    next = .ended ∧ msg.winner = checkBoard position.board
  ended : ∀ v, player.place = .ended v → next = .ended ∧ player.shown = some position.board ∧
    v = verdict (checkBoard position.board) symbol
  told : next = .ended → (∃ v, player.place = .ended v) ∨ ∃ msg ∈ messages, msg.type = .msgEnd

section Told

variable {symbol : CChar} {position : Position} {next : Next} {player : Player}
  {before after : List Message} {msg : Message}

theorem Told.insert (h : Told symbol position next player (before ++ after))
    (hmsg : Idles msg.type) : Told symbol position next player (before ++ [msg] ++ after) := by
  have hupdate : msg.type ≠ .msgUpdate := by rcases hmsg with h | h <;> rw [h] <;> decide
  have hstart : msg.type ≠ .msgStart := by rcases hmsg with h | h <;> rw [h] <;> decide
  have hcloses : ¬ Closes msg.type := by
    rintro (h | h) <;> rcases hmsg with h' | h' <;> exact absurd (h.symm.trans h') (by decide)
  refine ⟨?_, ?_, ?_, ?_, h.ended, ?_⟩
  · rw [← h.shows, shownAfter, shownAfter, List.foldl_append, List.foldl_append, List.foldl_append,
      List.foldl_cons, if_neg hupdate, List.foldl_nil]
  · rw [← h.plays, symbolAfter, symbolAfter, List.foldl_append, List.foldl_append,
      List.foldl_append, List.foldl_cons, if_neg hstart, List.foldl_nil]
  · have hlast := List.pairwise_append.mp h.last
    rw [List.append_assoc, List.singleton_append, List.pairwise_append, List.pairwise_cons]
    refine ⟨hlast.1, ⟨fun later _ hcl => absurd hcl hcloses, hlast.2.1⟩, ?_⟩
    rintro earlier hearlier later hlater hcl
    rcases List.mem_cons.mp hlater with rfl | hlater
    · exact hmsg
    · exact hlast.2.2 earlier hearlier later hlater hcl
  · intro m hm hend
    rw [List.append_assoc, List.singleton_append] at hm
    refine h.ending m ?_ hend
    rcases List.mem_append.mp hm with hm | hm
    · exact List.mem_append_left _ hm
    · rcases List.mem_cons.mp hm with rfl | hm
      · exact absurd (.inr hend) hcloses
      · exact List.mem_append_right _ hm
  · intro hnext
    refine (h.told hnext).imp_right ?_
    rintro ⟨m, hm, hend⟩
    refine ⟨m, ?_, hend⟩
    rw [List.append_assoc]
    exact (List.mem_append.mp hm).elim (List.mem_append_left _)
      fun hm => List.mem_append_right _ (List.mem_append_right _ hm)

theorem Told.later (h : Told symbol position next player (msg :: after)) (hmsg : Closes msg.type) :
    ∀ m ∈ after, Idles m.type := fun _ hm => List.rel_of_pairwise_cons h.last hm hmsg

theorem Told.begin {first update : Message} (hbefore : ∀ msg ∈ before, Idles msg.type)
    (hplace : ∀ v, player.place ≠ .ended v) (hfirst : first.type = .msgStart)
    (hupdate : update.type = .msgUpdate) (round : ℕ) :
    Told first.symbol ⟨update.board, round⟩ .loop player (before ++ [first, update]) := by
  have hcloses : ∀ msg ∈ before ++ [first, update], ¬ Closes msg.type := by
    rintro msg hmsg (htype | htype)
    all_goals
      rcases List.mem_append.mp hmsg with hmsg | hmsg
      · rcases hbefore msg hmsg with h | h <;> rw [h] at htype <;> cases htype
      · rcases List.mem_cons.mp hmsg with rfl | hmsg
        · rw [hfirst] at htype
          cases htype
        · rw [List.mem_singleton.mp hmsg, hupdate] at htype
          cases htype
  refine ⟨?_, ?_, ?_, ?_, fun v hv => absurd hv (hplace v), nofun⟩
  · simp [shownAfter, hfirst, hupdate]
  · simp [symbolAfter, hfirst, hupdate]
  · exact List.pairwise_of_forall_mem_list fun msg hmsg _ _ h => absurd h (hcloses msg hmsg)
  · exact fun msg hmsg h => absurd (.inr h) (hcloses msg hmsg)

theorem Told.congr (h : Told symbol position next player after) {player' : Player}
    (hshown : player'.shown = player.shown) (hsymbol : player'.symbol = player.symbol)
    (hplace : ∀ v, player.place ≠ .ended v) (hplace' : ∀ v, player'.place ≠ .ended v) :
    Told symbol position next player' after where
  shows := by rw [hshown]; exact h.shows
  plays := by rw [hsymbol]; exact h.plays
  last := h.last
  ending := h.ending
  ended v hv := absurd hv (hplace' v)
  told hnext := (h.told hnext).imp_left fun ⟨v, hv⟩ => absurd hv (hplace v)

theorem Told.receive (h : Told symbol position next player (msg :: after)) {player' : Player}
    (hend : msg.type ≠ .msgEnd)
    (hshown : player'.shown = if msg.type = .msgUpdate then some msg.board else player.shown)
    (hsymbol : player'.symbol = if msg.type = .msgStart then msg.symbol else player.symbol)
    (hplace : ∀ v, player.place ≠ .ended v) (hplace' : ∀ v, player'.place ≠ .ended v) :
    Told symbol position next player' after where
  shows := by rw [← h.shows, hshown]; rfl
  plays := by rw [← h.plays, hsymbol]; rfl
  last := h.last.of_cons
  ending m hm := h.ending m (List.mem_cons_of_mem _ hm)
  ended v hv := absurd hv (hplace' v)
  told hnext := by
    rcases h.told hnext with ⟨v, hv⟩ | ⟨m, hm, hm'⟩
    · exact absurd hv (hplace v)
    · rcases List.mem_cons.mp hm with rfl | hm
      · exact absurd hm' hend
      · exact .inr ⟨m, hm, hm'⟩

theorem Told.receiveEnd (h : Told symbol position next player (msg :: after))
    (hend : msg.type = .msgEnd) : Told symbol position next
      { player with msg := msg, place := .ended (handleEnd msg player.symbol) } after := by
  have hafter := h.later (.inr hend)
  obtain ⟨hnext, hwinner⟩ := h.ending msg (List.mem_cons_self ..) hend
  have hshown : player.shown = some position.board := by
    rw [← h.shows, shownAfter, List.foldl_cons, if_neg (by rw [hend]; decide)]
    exact (shownAfter_of_idles hafter _).symm
  have hsymbol : player.symbol = symbol := by
    rw [← h.plays, symbolAfter, List.foldl_cons, if_neg (by rw [hend]; decide)]
    exact (symbolAfter_of_idles hafter _).symm
  refine ⟨?_, ?_, h.last.of_cons, ?_, ?_, fun _ => .inl ⟨_, rfl⟩⟩
  · exact (shownAfter_of_idles hafter _).trans hshown
  · exact (symbolAfter_of_idles hafter _).trans hsymbol
  · exact fun m hm => h.ending m (List.mem_cons_of_mem _ hm)
  · rintro v ⟨⟩
    exact ⟨hnext, hshown, by rw [handleEnd, hwinner, hsymbol]⟩

theorem Told.handle (h : Told symbol position next player (msg :: after))
    (hplace : player.place = .reading)
    (hmsg : Informs msg.type ∨ msg.type = .msgPing ∨ msg.type = .msgMove)
    (pointer : Vector UInt8 POINTER_SIZE) : Told symbol position next
      (({ player with msg := msg } : Player).handle pointer) after := by
  have hreading : ∀ v, player.place ≠ .ended v := by
    rw [hplace]
    nofun
  rcases hmsg with (htype | htype | htype | htype) | htype | htype
  case inl.inr.inr.inr =>
    have hhandle := h.receiveEnd htype
    simpa [Player.handle, htype] using hhandle
  all_goals
    refine h.receive ?_ ?_ ?_ hreading ?_ <;> simp [Player.handle, htype, hplace]

theorem Told.extend (h : Told symbol position next player before) (hnext : next ≠ .ended)
    (hmove : ∀ msg ∈ before, msg.type ≠ .msgMove) {position' : Position} {next' : Next}
    {new : List Message} (hone : new.length ≤ 1) (hstart : ∀ msg ∈ new, msg.type ≠ .msgStart)
    (hshown : shownAfter (some position.board) new = some position'.board)
    (hending : ∀ msg ∈ new, msg.type = .msgEnd →
      next' = .ended ∧ msg.winner = checkBoard position'.board)
    (htold : next' = .ended → ∃ msg ∈ new, msg.type = .msgEnd) :
    Told symbol position' next' player (before ++ new) := by
  have hend : ∀ msg ∈ before, msg.type ≠ .msgEnd := fun msg hmsg hend =>
    hnext (h.ending msg hmsg hend).1
  refine ⟨?_, ?_, ?_, ?_, fun v hv => absurd (h.ended v hv).1 hnext, ?_⟩
  · rw [shownAfter, List.foldl_append]
    exact (congrArg (shownAfter · new) h.shows).trans hshown
  · rw [symbolAfter, List.foldl_append]
    refine (congrArg (symbolAfter · new) h.plays).trans ?_
    match new, hstart with
    | [], _ => rfl
    | [msg], hstart => exact if_neg (hstart msg (List.mem_singleton_self msg))
  · rw [List.pairwise_append]
    refine ⟨h.last, ?_, ?_⟩
    · match new, hone with
      | [], _ => exact List.Pairwise.nil
      | [msg], _ => exact List.pairwise_singleton _ _
    · rintro msg hmsg later - (hcl | hcl)
      · exact absurd hcl (hmove msg hmsg)
      · exact absurd hcl (hend msg hmsg)
  · intro msg hmsg htype
    rcases List.mem_append.mp hmsg with hmsg | hmsg
    · exact absurd htype (hend msg hmsg)
    · exact hending msg hmsg htype
  · intro hnext'
    obtain ⟨msg, hmsg, htype⟩ := htold hnext'
    exact .inr ⟨msg, List.mem_append_right _ hmsg, htype⟩

end Told

end Sysopy.GameServer.Match
