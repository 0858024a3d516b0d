import Sysopy.Chat.POSIX.Clients

/-!
# Pairing in the POSIX chat

The steps of the server keep the invariant as long as the clients that it pairs are free.
So in a run in which the pairings are kept apart from the other messages, every pairing
starts the chat with the peer that it names.
-/
namespace Sysopy.Chat.POSIX

open CInteger CString Transition PriorityQueue Coupling

section Steps

variable {getpid : ℤ} {s s' : State}

/-! ## Steps of the server -/

theorem Inv.serverStep (hs : Inv getpid s) {clients : List Client} {requests : List Message}
    {server : Server} (hrequests : ∀ message ∈ requests, message ∈ s.requests)
    (hserver : ServerInv server) (hbefore : ∀ c, s.server.pending c = [])
    (hafter : ∀ c, ∀ entry ∈ server.pending c,
      EntryInv getpid entry ∧ entry.prio ≠ 0 ∧ entry.prio ≠ CONNECT) :
    Inv getpid { s with clients := clients, requests := requests, server := server } := by
  have hnil : ∀ c, pairings (server.pending c) = [] := by
    intro c
    rw [pairings_eq_nil]
    exact fun entry hentry => (hafter c entry hentry).2.2
  refine hs.congr (fun message h => hs.requests message (hrequests message h)) hserver ?_
    (fun _ => rfl) (fun _ h => h) (fun _ h => h) hs.started ?_ (fun _ _ _ => Iff.rfl)
  · intro c
    have hclient := hs.client c
    rw [hbefore c] at hclient
    refine hclient.expect (fun entry hentry => ?_) (.inl (hnil c))
    exact ⟨(hafter c entry hentry).1, (hafter c entry hentry).2.1⟩
  · intro c name
    simp only [State.awaited, State.inbox, pairings_append, hnil, hbefore]
    rfl

theorem pending_cons (p x : ℤ) (entry : Entry) (sends : List (Mqd × Entry)) :
    (Server.sending ((.client p, entry) :: sends)).pending x =
      if x = p then entry :: (Server.sending sends).pending x
      else (Server.sending sends).pending x := by
  simp only [Server.pending, List.filter_cons, Mqd.client.injEq, decide_eq_true_eq]
  split_ifs with h h' h'
  · rfl
  · exact absurd h.symm h'
  · exact absurd h'.symm h
  · rfl

theorem Inv.send (hs : Inv getpid s) {mqd : Mqd} {entry : Entry} {sends : List (Mqd × Entry)}
    (hsending : s.server = .sending ((mqd, entry) :: sends)) :
    Inv getpid { s.mqSend mqd entry with server := .sending sends } := by
  have htargets : ∀ send ∈ (mqd, entry) :: sends, send.1 ≠ .server := by
    have hserver := hs.server
    rwa [hsending] at hserver
  obtain ⟨p, rfl⟩ : ∃ p, mqd = .client p := by
    cases mqd with
    | server => exact absurd rfl (htargets _ List.mem_cons_self)
    | client p => exact ⟨p, rfl⟩
  have hpending : ∀ x, s.server.pending x = if x = p then
      entry :: (Server.sending sends).pending x else (Server.sending sends).pending x := by
    intro x
    rw [hsending, pending_cons]
  have hp := hs.client p
  rw [hpending, if_pos rfl] at hp
  refine hs.congr hs.requests (fun send h => htargets send (List.mem_cons_of_mem _ h)) ?_
    (fun _ => rfl) (fun _ h => h) (fun _ h => h) hs.started ?_ ?_
  · intro x
    change ClientInv _ _ _ ((s.mqSend (.client p) entry).queue x) ((Server.sending sends).pending x)
    rw [State.mqSend]
    by_cases hx : x = p
    · subst hx
      simpa using hp.deliver
    · have hother := hs.client x
      rw [hpending, if_neg hx] at hother
      simpa [hx] using hother
  · intro x name
    change name ∈ pairings ((s.mqSend (.client p) entry).inbox x ++
      (Server.sending sends).pending x) ↔ name ∈ pairings (s.inbox x ++ s.server.pending x)
    rw [inbox_mqSend, hpending]
    split_ifs with hx
    · subst hx
      rw [State.inbox]
      cases hqueue : s.queue x with
      | none =>
        -- whoever is about to get a pairing has its queue
        have hnil : pairings (entry :: (Server.sending sends).pending x) = [] := by
          by_contra hne
          rw [hqueue] at hp
          exact absurd (hp.alive.mpr (hp.waiting hne).alive) (by simp)
        have hrest : pairings ((Server.sending sends).pending x) = [] := by
          rw [pairings_eq_nil] at hnil ⊢
          exact fun e he => hnil e (List.mem_cons_of_mem _ he)
        simp [hnil, hrest]
      | some entries =>
        rw [Option.map_some, Option.getD_some, Option.getD_some]
        apply (pairings_perm _).mem_iff
        exact ((enqueue_perm entry entries).append_right _).trans List.perm_middle.symm
    · rfl
  · intro x _ _
    have hline := (hp.entries entry (by simp)).line (hp.urgent entry List.mem_cons_self)
    change Noticed (s.mqSend (.client p) entry) x ↔ _
    simp [noticed_mqSend, hline]

/-- The server pairs two free clients. -/
theorem Inv.pair (hs : Inv getpid s) {a b : ℤ} (hne : a ≠ b) (ha : Free s a) (hb : Free s b)
    (hbefore : ∀ c, s.server.pending c = []) {clients : List Client} {requests : List Message}
    (hrequests : ∀ message ∈ requests, message ∈ s.requests) :
    Inv getpid { s with
      clients := clients
      requests := requests
      server := .sending [(.client b, ⟨CONNECT, ⟨CONNECT, getpid, keyOf a⟩⟩),
        (.client a, ⟨CONNECT, ⟨CONNECT, getpid, keyOf b⟩⟩)] } := by
  obtain ⟨server, hserver⟩ : ∃ server, server = Server.sending
      [(.client b, ⟨CONNECT, ⟨CONNECT, getpid, keyOf a⟩⟩),
        (.client a, ⟨CONNECT, ⟨CONNECT, getpid, keyOf b⟩⟩)] := ⟨_, rfl⟩
  rw [← hserver]
  have hpending : ∀ c, server.pending c =
      if c = b then [⟨CONNECT, ⟨CONNECT, getpid, keyOf a⟩⟩]
      else if c = a then [⟨CONNECT, ⟨CONNECT, getpid, keyOf b⟩⟩] else [] := by
    intro c
    rw [hserver, pending_cons, pending_cons]
    split_ifs with hb ha
    · exact absurd (ha.symm.trans hb) hne
    all_goals rfl
  have hnames : ∀ c, pairings (server.pending c) =
      if c = b then [keyOf a] else if c = a then [keyOf b] else [] := by
    intro c
    rw [hpending]
    split_ifs <;> rfl
  have hawaited : ∀ c, pairings (s.inbox c ++ server.pending c) =
      s.awaited c ++ if c = b then [keyOf a] else if c = a then [keyOf b] else [] := by
    intro c
    rw [State.awaited, hbefore, List.append_nil, pairings_append, hnames]
  have hfree : ∀ x, x = a ∨ x = b → Free s x := by
    rintro x (rfl | rfl)
    · exact ha
    · exact hb
  refine ⟨fun message h => hs.requests message (hrequests message h), ?_, ?_, hs.talking, ?_,
    hs.started, hs.coupled.couple (a := a) (b := b) ?_ (fun _ => Iff.rfl) ?_⟩
  · rw [hserver]
    intro send hsend
    simp only [List.mem_cons, List.not_mem_nil, or_false] at hsend
    rcases hsend with rfl | rfl <;> exact Mqd.noConfusion
  · intro c
    have hclient := hs.client c
    rw [hbefore c] at hclient
    change ClientInv _ _ _ _ (server.pending c)
    refine hclient.expect ?_ ?_
    · intro entry hentry
      rw [hpending] at hentry
      split_ifs at hentry
      · obtain rfl := List.mem_singleton.mp hentry
        exact ⟨⟨fun _ => not_isDisconnectLine_keyOf a, fun _ => ⟨rfl, rfl, a, rfl⟩⟩,
          (by decide : CONNECT ≠ 0)⟩
      · obtain rfl := List.mem_singleton.mp hentry
        exact ⟨⟨fun _ => not_isDisconnectLine_keyOf b, fun _ => ⟨rfl, rfl, b, rfl⟩⟩,
          (by decide : CONNECT ≠ 0)⟩
      · cases hentry
    · by_cases hc : c = a ∨ c = b
      · obtain ⟨hwaiting, hnil, _⟩ := hfree c hc
        rw [State.awaited, hbefore, List.append_nil] at hnil
        refine .inr ⟨?_, hnil, hwaiting⟩
        rw [hnames]
        split_ifs <;> simp
      · obtain ⟨hca, hcb⟩ := not_or.mp hc
        left
        rw [hnames, if_neg hcb, if_neg hca]
  · intro c p h
    rcases h with h | h
    · exact hs.known c p (.inl h)
    · change keyOf p ∈ pairings (s.inbox c ++ server.pending c) at h
      rw [hawaited, List.mem_append] at h
      rcases h with h | h
      · exact hs.known c p (.inr h)
      · have hp : p = a ∨ p = b := by
          split_ifs at h
          · exact .inl (keyOf_injective (List.mem_singleton.mp h))
          · exact .inr (keyOf_injective (List.mem_singleton.mp h))
          · cases h
        exact (Process.Waiting.alive (hfree p hp).1).ne_absent
  · intro x y
    change _ ∨ keyOf y ∈ pairings (s.inbox x ++ server.pending x) ↔ _
    rw [hawaited, List.mem_append, ← or_assoc]
    apply or_congr Iff.rfl
    split_ifs with hxb hxa
    · rw [List.mem_singleton, keyOf_injective.eq_iff]
      simp [hxb, hne.symm]
    · rw [List.mem_singleton, keyOf_injective.eq_iff]
      simp [hxa, hne]
    · simp [hxa, hxb]
  · intro x hx
    obtain ⟨hwaiting, hnil, hnoticed, hnobody⟩ := hfree x hx
    refine ⟨hnoticed, fun y => ⟨?_, fun h => hnobody y ?_ h⟩⟩
    case refine_2 =>
      exact hs.started y (hs.alive_of_engaged h).ne_absent
    rw [Engaged, hnil, InChat, Process.key_eq, Process.talk_of_waiting hwaiting]
    rintro (h | h) <;> cases h

theorem Inv.serve (hs : Inv getpid s) (hkeeps : KeepsApart s .serve)
    (h : POSIX.serve getpid s = some s') : Inv getpid s' := by
  unfold POSIX.serve at h
  split at h
  case h_2 => cases h
  rename_i message requests hserver hrequests
  have hbefore : ∀ c, s.server.pending c = [] := by
    intro c
    rw [hserver]
    rfl
  have hmem : ∀ m ∈ requests, m ∈ s.requests := by
    intro m hm
    rw [hrequests]
    exact List.mem_cons_of_mem _ hm
  have hnothing : ∀ {clients : List Client}, Inv getpid { s with
      clients := clients, requests := requests, server := .sending [] } :=
    hs.serverStep hmem (fun _ h => absurd h List.not_mem_nil) hbefore
      (fun _ _ h => absurd h List.not_mem_nil)
  -- a reply to the client that made the request
  have hreply : ∀ {clients : List Client} (p : ℤ) (entry : Entry), EntryInv getpid entry →
      entry.prio ≠ 0 → entry.prio ≠ CONNECT → Inv getpid { s with
        clients := clients, requests := requests, server := .sending [(.client p, entry)] } := by
    intro clients p entry hentry hurgent hprio
    refine hs.serverStep hmem ?_ hbefore ?_
    · intro send hsend
      obtain rfl := List.mem_singleton.mp hsend
      exact Mqd.noConfusion
    · intro c e he
      rw [pending_cons] at he
      split_ifs at he
      · obtain rfl := List.mem_singleton.mp he
        exact ⟨hentry, hurgent, hprio⟩
      · cases he
  split at h
  case h_2 =>
    obtain rfl := Option.some.inj h
    exact hs.serverStep hmem trivial hbefore (fun _ _ h => absurd h List.not_mem_nil)
  rename_i clients sends hhandle
  obtain rfl := Option.some.inj h
  unfold handle at hhandle
  split_ifs at hhandle with hconnect hinit hdisconnect hstop hlist
  · -- the reply to `CONNECT` goes to both
    unfold handleConnect at hhandle
    dsimp only at hhandle
    split at hhandle
    case h_2 => cases hhandle
    rename_i privateid1 privateid2 hopen1 hopen2
    obtain ⟨hne, ha, hb⟩ := hkeeps message (by simp [hrequests]) hconnect (by simp [hopen1])
      (by simp [hopen2])
    obtain ⟨rfl, rfl⟩ := Prod.mk.inj (Option.some.inj hhandle)
    rw [(mqOpen_keyOf hopen1).1, (mqOpen_keyOf hopen2).1, hconnect]
    exact hs.pair hne ha hb hbefore hmem
  · unfold handleInit at hhandle
    split at hhandle
    case h_2 => cases hhandle
    rename_i clientid hopen
    obtain ⟨rfl, rfl⟩ := Prod.mk.inj (Option.some.inj hhandle)
    rw [(mqOpen_keyOf hopen).1]
    have hline := hs.requests message (by simp [hrequests]) hinit
    refine hreply _ _ ⟨fun _ => hline, fun h => ?_⟩ ?_ ?_
    · exact absurd (hinit.symm.trans h) (by decide)
    · exact fun h => absurd (hinit.symm.trans h) (by decide)
    · exact fun h => absurd (hinit.symm.trans h) (by decide)
  · obtain ⟨rfl, rfl⟩ := Prod.mk.inj (Option.some.inj hhandle)
    exact hnothing
  · obtain ⟨rfl, rfl⟩ := Prod.mk.inj (Option.some.inj hhandle)
    exact hnothing
  · unfold handleList at hhandle
    split at hhandle
    case h_2 => cases hhandle
    rename_i clientid hopen
    split_ifs at hhandle
    obtain ⟨rfl, rfl⟩ := Prod.mk.inj (Option.some.inj hhandle)
    rw [(mqOpen_keyOf hopen).1]
    refine hreply _ _ ⟨fun _ => not_isDisconnectLine_listText _ _, fun h => ?_⟩ ?_ ?_
    · exact absurd h (by decide : LIST ≠ CONNECT)
    · exact (by decide : LIST ≠ 0)
    · exact (by decide : LIST ≠ CONNECT)

theorem Inv.sendShutdown (hs : Inv getpid s) {client : Client} {clients : List Client}
    {message : Message} (hserver : s.server = .stopping (client :: clients) message) {mqd : Mqd}
    (hopen : s.mqOpen (keyOf client.pid) = some mqd) : Inv getpid
      { s.mqSend mqd ⟨message.type, message⟩ with server := .stopping clients message } := by
  have hmessage : message.type = STOP ∧ isDisconnectLine message.message_text = false := by
    have h := hs.server
    rwa [hserver] at h
  rw [(mqOpen_keyOf hopen).1, hmessage.1]
  have hentry : EntryInv getpid ⟨STOP, message⟩ :=
    ⟨fun _ => hmessage.2, fun h => absurd h (by decide : STOP ≠ CONNECT)⟩
  have hpush := hs.push client.pid hentry (by decide : STOP ≠ CONNECT) hmessage.2
  refine hpush.serverStep (fun _ h => h) hmessage (fun c => ?_) (fun _ _ h => absurd h List.not_mem_nil)
  change s.server.pending c = []
  rw [hserver]
  rfl

end Steps

/-! ## Runs -/

section Runs

variable {getpid : ℤ} {s s' : State}

theorem Inv.step {a : Action} (hs : Inv getpid s) (hkeeps : KeepsApart s a)
    (h : step getpid s a = some s') : Inv getpid s' := by
  cases a with
  | create c privateid =>
    simp only [POSIX.step] at h
    split_ifs at h with hc
    exact Option.some.inj h ▸ hs.create privateid hc.1 hc.2.2
  | init c =>
    simp only [POSIX.step] at h
    split at h
    · rename_i privateid hc
      obtain rfl := Option.some.inj h
      have hnil := hs.awaited_of_not_waiting (c := c) (by rw [hc]; rintro (h | h) <;> cases h)
      refine hs.move ⟨rfl, rfl, rfl⟩ rfl ?_ (by rw [hc]; trivial) trivial (by rw [hc]; rfl)
        (fun hne => absurd hnil hne)
      intro message hmessage hnew _
      rcases List.mem_append.mp hmessage with hmessage | hmessage
      · exact absurd hmessage hnew
      · obtain rfl := List.mem_singleton.mp hmessage
        exact not_isDisconnectLine_decimal privateid
    · cases h
  | receive c junk =>
    simp only [POSIX.step] at h
    split at h
    · rename_i entry entries hqueue
      obtain ⟨hstarts, hstop, hpending⟩ := hkeeps entry (by simp [State.inbox, hqueue])
      exact hs.receive hqueue hstarts hstop hpending h
    · cases h
  | enter c junk =>
    simp only [POSIX.step] at h
    split at h
    · rename_i hc
      exact Option.some.inj h ▸ hs.enter hc junk
    · cases h
  | endOfInput c =>
    simp only [POSIX.step] at h
    split_ifs at h with hc
    obtain rfl := Option.some.inj h
    exact hs.move ⟨rfl, rfl, rfl⟩ rfl (fun _ h hnew => absurd h hnew)
      (by rw [hc]; trivial) trivial (by rw [hc]; rfl) (fun hne => absurd hkeeps hne)
  | connect c line =>
    simp only [POSIX.step] at h
    split_ifs at h with hc
    obtain rfl := Option.some.inj h
    exact hs.request ⟨rfl, rfl, rfl⟩ rfl rfl (by decide : CONNECT ≠ INIT)
      (by rw [hc]; trivial) trivial (by rw [hc]; rfl) (fun _ => .inr rfl)
  | list c =>
    simp only [POSIX.step] at h
    split_ifs at h with hc
    obtain rfl := Option.some.inj h
    exact hs.request ⟨rfl, rfl, rfl⟩ rfl rfl (by decide : LIST ≠ INIT)
      (by rw [hc]; trivial) trivial (by rw [hc]; rfl) (fun hne => absurd hkeeps hne)
  | stop c junk =>
    simp only [POSIX.step] at h
    split_ifs at h with hc
    obtain rfl := Option.some.inj h
    exact hs.move ⟨rfl, rfl, rfl⟩ rfl (fun _ h hnew => absurd h hnew)
      (by rw [hc]; trivial) trivial (by rw [hc]; rfl) (fun hne => absurd hkeeps hne)
  | interrupt c =>
    simp only [POSIX.step] at h
    split_ifs at h with hc
    obtain rfl := Option.some.inj h
    obtain ⟨hnil, hkey⟩ := hkeeps
    rw [Process.key_eq, Option.map_eq_none_iff] at hkey
    have halive : (s.process c).Alive := by
      cases hprocess : s.process c <;> rw [hprocess] at hc <;> trivial
    exact hs.move ⟨rfl, rfl, rfl⟩ rfl (fun _ h hnew => absurd h hnew) halive trivial
      hkey.symm (fun hne => absurd hnil hne)
  | say c line =>
    simp only [POSIX.step] at h
    split at h
    · rename_i hc
      exact Option.some.inj h ▸ hs.say hc _
    · cases h
  | disconnect c =>
    simp only [POSIX.step] at h
    split at h
    · rename_i hc
      obtain rfl := Option.some.inj h
      exact hs.request ⟨rfl, rfl, rfl⟩ rfl rfl (by decide : DISCONNECT ≠ INIT)
        (by rw [hc]; trivial) trivial (by rw [hc]; rfl) (fun _ => .inl rfl)
    · rename_i message hc
      obtain rfl := Option.some.inj h
      have hnil := hs.awaited_of_not_waiting (c := c) (by rw [hc]; rintro (h | h) <;> cases h)
      exact hs.request ⟨rfl, rfl, rfl⟩ rfl rfl (by decide : DISCONNECT ≠ INIT)
        (by rw [hc]; trivial) trivial (by rw [hc]; rfl) (fun hne => absurd hnil hne)
    · cases h
  | sendStop c =>
    simp only [POSIX.step] at h
    split at h
    · rename_i hc
      obtain rfl := Option.some.inj h
      have hnil := hs.awaited_of_not_waiting (c := c) (by rw [hc]; rintro (h | h) <;> cases h)
      exact hs.request ⟨rfl, rfl, rfl⟩ rfl rfl (by decide : STOP ≠ INIT)
        (by rw [hc]; trivial) trivial (by rw [hc]; rfl) (fun hne => absurd hnil hne)
    · cases h
  | exit c =>
    simp only [POSIX.step] at h
    split_ifs at h with hc
    exact Option.some.inj h ▸ hs.exit hc
  | serve => exact hs.serve hkeeps h
  | send =>
    simp only [POSIX.step] at h
    split at h
    · rename_i hserver
      exact Option.some.inj h ▸ hs.send hserver
    · cases h
  | shutdown text =>
    obtain ⟨hidle, hline⟩ := hkeeps
    simp only [POSIX.step, hidle, Option.some.injEq] at h
    subst h
    refine hs.serverStep (fun _ h => h) ⟨rfl, hline⟩ (fun c => ?_)
      (fun _ _ h => absurd h List.not_mem_nil)
    rw [hidle]
    rfl
  | sendShutdown =>
    simp only [POSIX.step] at h
    split at h
    · rename_i hserver
      have hbefore : ∀ c, s.server.pending c = [] := by
        intro c
        rw [hserver]
        rfl
      split at h
      · rename_i hopen
        rw [Option.some.injEq] at h
        exact h ▸ hs.sendShutdown hserver hopen
      · rw [Option.some.injEq] at h
        subst h
        exact hs.serverStep (fun _ h => h) trivial hbefore (fun _ _ h => absurd h List.not_mem_nil)
    · rename_i hserver
      obtain rfl := Option.some.inj h
      refine hs.serverStep (fun _ h => h) trivial (fun c => ?_)
        (fun _ _ h => absurd h List.not_mem_nil)
      rw [hserver]
      rfl
    · cases h

theorem Inv.answers {a : Action} (hs : Inv getpid s) (hkeeps : KeepsApart s a) :
    Answers getpid s a := by
  cases a with
  | receive c junk =>
    intro entry entries t hqueue hprio h
    obtain ⟨hwaiting, q, htype, hsender, hname⟩ := hs.pairing hqueue hprio
    refine ⟨hwaiting, ?_⟩
    simp only [POSIX.step, hqueue, received] at h
    rw [hname]
    rcases hwaiting with hprocess | hprocess
    · simp only [hprocess, htype, if_true, Option.some.injEq] at h
      subst h
      simp [State.move, hname, contents_keyOf]
    · simp only [hprocess, hsender, if_false, Option.some.injEq] at h
      subst h
      simp [State.move, hname, contents_keyOf]
  | interrupt c =>
    intro key hprocess
    have hkey := hkeeps.2
    rw [hprocess] at hkey
    cases hkey
  | exit c =>
    intro t h
    simp only [POSIX.step] at h
    split_ifs at h with hprocess
    have hnil := hs.awaited_of_not_waiting (c := c) (by rw [hprocess]; rintro (h | h) <;> cases h)
    rw [State.awaited, pairings_append, List.append_eq_nil_iff] at hnil
    exact hnil.1
  | _ => trivial

theorem Inv.paired (hs : Inv getpid s) : Paired s := by
  intro c p h
  rcases hs.coupled.symm c p (.inl h) with (hchat | hawaited) | hnoticed
  · exact .inl hchat
  · exact .inr (.inl hawaited)
  · exact .inr (.inr hnoticed)

/-- In a run that keeps the pairings apart from the other messages, every pairing that
a client takes makes it enter the chat with the peer that it names, none is lost, and a client
is in a chat only with a peer that is or will be in it, unless the end of the chat
waits for the client. -/
theorem paired_of_keepsApart (getpid : ℤ) (schedule : List Action) (s : State)
    (hkeeps : Along (POSIX.step getpid) KeepsApart start schedule)
    (hrun : exec (POSIX.step getpid) start schedule = some s) :
    Along (POSIX.step getpid) (Answers getpid) start schedule ∧ Paired s :=
  ⟨along_invariant (fun _ _ _ hs ha h => hs.step ha h) (fun _ _ hs ha => hs.answers ha)
      (inv_start getpid) hkeeps,
    (exec_invariant (fun _ _ _ hs ha h => hs.step ha h) (inv_start getpid) hkeeps hrun).paired⟩

end Runs

/-- The clients 2 and 3 register. -/
def introductions : List Action :=
  [.create 2 4, .init 2, .serve, .send, .receive 2 ⟨0, 0, []⟩,
    .create 3 4, .init 3, .serve, .send, .receive 3 ⟨0, 0, []⟩]

/-- Client 2 gets a chat with client 3 and ends it. -/
def chatOfTwo : List Action :=
  introductions ++ [.connect 2 [51, 10], .serve, .send, .send, .receive 3 ⟨0, 0, []⟩,
    .receive 2 ⟨0, 0, []⟩, .enter 3 ⟨0, 0, []⟩, .say 3 [104, 105, 10], .enter 2 ⟨0, 0, []⟩,
    .receive 2 ⟨0, 0, []⟩, .say 2 DISCONNECT_LINE]

theorem paired_chatOfTwo : ∃ s, exec (step 1) start chatOfTwo = some s ∧ Paired s :=
  ⟨_, rfl, (paired_of_keepsApart 1 chatOfTwo _ (by decide +kernel) rfl).2⟩

/-- Client 3 takes the pairing with client 2 for the list it asked for. -/
theorem not_paired_list :
    ¬ ∀ (getpid : ℤ) (schedule : List Action) (s : State),
      exec (step getpid) start schedule = some s →
      Along (step getpid) (Answers getpid) start schedule ∧ Paired s := by
  intro hclaim
  have halong := (hclaim 1 (introductions ++ [.connect 2 [51, 10], .list 3, .serve, .send] ++
    [.receive 3 ⟨0, 0, []⟩]) _ rfl).1
  have hanswers := (halong.append rfl).1
  rcases (hanswers _ _ _ rfl rfl rfl).1 with h | h <;> exact absurd h (by decide +kernel)

end Sysopy.Chat.POSIX
