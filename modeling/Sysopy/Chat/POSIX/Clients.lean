import Sysopy.Chat.POSIX.Invariant

/-!
# Steps of the clients

A client keeps the invariant when it takes a message from its queue, when it sends a
line to its peer, and when its queue is made or unlinked.
-/
namespace Sysopy.Chat.POSIX

open CInteger CString Transition PriorityQueue Coupling

variable {getpid : ℤ} {s s' : State}

/-! ## Sending to a client -/

section Send

variable {entry : Entry}

theorem inbox_mqSend (p x : ℤ) (entry : Entry) : (s.mqSend (.client p) entry).inbox x =
    if x = p then ((s.queue p).map (enqueue Entry.prio entry)).getD [] else s.inbox x := by
  simp only [State.inbox, State.mqSend, Function.update_apply]
  split_ifs with hx <;> rfl

theorem mem_awaited_mqSend (hprio : entry.prio ≠ CONNECT) (p x : ℤ) (name : List UInt8) :
    name ∈ (s.mqSend (.client p) entry).awaited x ↔ name ∈ s.awaited x := by
  rw [State.awaited, State.awaited, inbox_mqSend, pairings_append, pairings_append,
    List.mem_append, List.mem_append]
  apply or_congr_left
  split_ifs with hx
  · subst hx
    rw [State.inbox]
    cases s.queue x with
    | none => rfl
    | some entries =>
      rw [Option.map_some, Option.getD_some, Option.getD_some,
        (pairings_perm (enqueue_perm entry entries)).mem_iff, pairings_cons_of_ne hprio]
  · rfl

theorem noticed_mqSend (p x : ℤ) : Noticed (s.mqSend (.client p) entry) x ↔
    Noticed s x ∨
      x = p ∧ (s.queue p).isSome ∧ isDisconnectLine entry.message.message_text = true := by
  rw [Noticed, inbox_mqSend]
  split_ifs with hx
  · subst hx
    rw [Noticed, State.inbox]
    cases s.queue x with
    | none => simp
    | some entries => simp [or_comm]
  · simp [Noticed, hx]

theorem Inv.client_mqSend (hs : Inv getpid s) (hentry : EntryInv getpid entry)
    (hprio : entry.prio ≠ CONNECT) (p x : ℤ) : ClientInv getpid x (s.process x)
      ((s.mqSend (.client p) entry).queue x) (s.server.pending x) := by
  rw [State.mqSend]
  by_cases hx : x = p
  · subst hx
    simpa using (hs.client x).push hentry hprio
  · simpa [hx] using hs.client x

theorem Inv.push (hs : Inv getpid s) (p : ℤ) (hentry : EntryInv getpid entry)
    (hprio : entry.prio ≠ CONNECT) (hline : isDisconnectLine entry.message.message_text = false) :
    Inv getpid (s.mqSend (.client p) entry) := by
  refine hs.congr hs.requests hs.server (hs.client_mqSend hentry hprio p) ?_ ?_ ?_
    hs.started (mem_awaited_mqSend hprio p) ?_
  · exact fun _ => rfl
  · exact fun _ h => h
  · exact fun _ h => h
  · intro x _ _
    simp [noticed_mqSend, hline]

end Send

/-! ## Partners -/

theorem Process.alive_of_talk {process : Process} (h : process.talk ≠ none) : process.Alive := by
  cases process <;> trivial

theorem Inv.awaited_of_talk (hs : Inv getpid s) {c : ℤ} (h : (s.process c).talk ≠ none) :
    s.awaited c = [] := by
  by_contra hne
  exact h (Process.talk_of_waiting (hs.waiting hne))

theorem Inv.alive_of_engaged (hs : Inv getpid s) {c p : ℤ} (h : Engaged s c p) :
    (s.process c).Alive := by
  rcases h with h | h
  · apply Process.alive_of_talk
    intro htalk
    rw [InChat, Process.key_eq, htalk] at h
    cases h
  · exact (hs.waiting (List.ne_nil_of_mem h)).alive

theorem Inv.engaged_of_talk (hs : Inv getpid s) {c q : ℤ} {opened : Option (Option Mqd)}
    (h : (s.process c).talk = some (keyOf q, opened)) {p : ℤ} : Engaged s c p ↔ p = q := by
  rw [Engaged, hs.awaited_of_talk (by simp [h]), InChat, Process.key_eq, h, Option.map_some,
    Option.some.injEq]
  constructor
  · rintro (h | h)
    · exact (keyOf_injective h).symm
    · cases h
  · rintro rfl
    exact .inl rfl

theorem Inv.leave (hs : Inv getpid s) {c : ℤ} {process : Process}
    (hmoves : Moves s s' c process) (hchat : (s.process c).talk ≠ none)
    (htalk : process.talk = none) (halive : process.Alive)
    (hrequests : ∀ message ∈ s'.requests, message.type = INIT →
      isDisconnectLine message.message_text = false)
    (hclient : ∀ x, ClientInv getpid x (s.process x) (s'.queue x) (s.server.pending x))
    (hawaited : ∀ x name, name ∈ s'.awaited x ↔ name ∈ s.awaited x)
    (hkept : ∀ x y, Engaged s x y → x ≠ c → Noticed s x → Noticed s' x)
    (hold : ∀ x y, Engaged s x y → x ≠ c → ¬ Engaged s c x → Noticed s' x → Noticed s x)
    (hnotice : ∀ p, Engaged s c p → Engaged s p c → Noticed s' p) : Inv getpid s' := by
  have hnil : s.awaited c = [] := hs.awaited_of_talk hchat
  have halive₀ := Process.alive_of_talk hchat
  have hengaged : ∀ x y, Engaged s' x y ↔ Engaged s x y ∧ x ≠ c := by
    intro x y
    by_cases hx : x = c
    · subst hx
      have hnone : ¬ Engaged s' x y := by
        rw [Engaged, hawaited, hnil, InChat, hmoves.self, Process.key_eq, htalk]
        rintro (h | h) <;> cases h
      exact iff_of_false hnone fun h => h.2 rfl
    · rw [engaged_congr (by rw [hmoves.other hx]) (hawaited x)]
      exact (and_iff_left hx).symm
  refine ⟨hrequests, hmoves.server ▸ hs.server, ?_, ?_, ?_, ?_,
    hs.coupled.leave hengaged hkept hold hnotice⟩
  · intro x
    rw [hmoves.server]
    by_cases hx : x = c
    · subst hx
      rw [hmoves.self]
      refine (hclient x).move halive₀ halive fun hne => ?_
      exact absurd (Process.talk_of_waiting ((hclient x).waiting hne)) hchat
    · rw [hmoves.other hx]
      exact hclient x
  · intro x key opened h
    by_cases hx : x = c
    · subst hx
      rw [hmoves.self, htalk] at h
      cases h
    · rw [hmoves.other hx] at h
      obtain ⟨p, hkey, hopened⟩ := hs.talking x key opened h
      refine ⟨p, hkey, fun clientid h =>
        (hopened clientid h).imp_right (And.imp_right fun hexited => ?_)⟩
      rw [hmoves.other]
      · exact hexited
      · rintro rfl
        exact halive₀.ne_exited hexited
  · intro x p h heq
    by_cases hp : p = c
    · subst hp
      rw [hmoves.self] at heq
      exact halive.ne_absent heq
    · rw [hmoves.other hp] at heq
      exact hs.known x p ((hengaged x p).mp h).1 heq
  · intro x h
    rw [hmoves.pids]
    by_cases hx : x = c
    · subst hx
      exact hs.started x halive₀.ne_absent
    · rw [hmoves.other hx] at h
      exact hs.started x h

/-! ## Opening a queue -/

theorem mqOpen_keyOf {p : ℤ} {mqd : Mqd} (h : s.mqOpen (keyOf p) = some mqd) :
    mqd = .client p ∧ (s.queue p).isSome := by
  unfold State.mqOpen at h
  rw [if_neg (keyOf_ne_PATH p)] at h
  split_ifs at h with hkey
  obtain ⟨hkey, hqueue⟩ := hkey
  rw [← keyOf_injective hkey] at h hqueue
  exact ⟨(Option.some.inj h).symm, hqueue⟩

theorem Inv.mqOpen (hs : Inv getpid s) {p : ℤ} (h : s.process p ≠ .absent) :
    s.mqOpen (keyOf p) = some (.client p) ∨
      s.mqOpen (keyOf p) = none ∧ s.process p = .exited := by
  cases hopen : s.mqOpen (keyOf p) with
  | some mqd =>
    rw [(mqOpen_keyOf hopen).1]
    exact .inl rfl
  | none =>
    refine .inr ⟨rfl, ?_⟩
    obtain ⟨_, hlow, hhigh⟩ := (hs.client p).valid h
    have hparse : parseInt (keyOf p).tail = p :=
      toInt_strtol_decimal (by omega) hhigh
    have hqueue : ¬ (s.queue p).isSome := by
      intro hqueue
      unfold State.mqOpen at hopen
      simp [keyOf_ne_PATH, hparse, hqueue] at hopen
    rw [hs.queue_isSome] at hqueue
    cases hprocess : s.process p <;> simp_all [Process.Alive]

/-! ## Receiving -/

section Receive

variable {c : ℤ} {entry : Entry} {entries : List Entry}

theorem Inv.first (hs : Inv getpid s) (hqueue : s.queue c = some (entry :: entries)) :
    ClientInv getpid c (s.process c) (some (entry :: entries)) (s.server.pending c) := by
  rw [← hqueue]
  exact hs.client c

theorem awaited_of_queue (hqueue : s.queue c = some (entry :: entries)) :
    s.awaited c = pairings (entry :: (entries ++ s.server.pending c)) := by
  rw [State.awaited, State.inbox, hqueue, Option.getD_some, List.cons_append]

/-- The end of a chat is behind every pairing in the queue. -/
theorem Inv.awaited_of_line (hs : Inv getpid s) (hqueue : s.queue c = some (entry :: entries))
    (hline : isDisconnectLine entry.message.message_text = true)
    (hpending : pairings (s.server.pending c) = []) : s.awaited c = [] := by
  have hfirst := hs.first hqueue
  have hprio : entry.prio = 0 := by
    by_contra hne
    rw [(hfirst.entries entry (by simp)).line hne] at hline
    cases hline
  rw [State.awaited, State.inbox, hqueue, Option.getD_some, pairings_append, hpending,
    List.append_nil, pairings_eq_nil]
  intro e he hconnect
  have hle : e.prio ≤ 0 := by
    rcases List.mem_cons.mp he with rfl | he
    · exact hprio.le
    · exact hprio ▸ hfirst.ordered.le_first he
  rw [hconnect] at hle
  exact absurd hle (by decide)

theorem Inv.take (hs : Inv getpid s) {process : Process} (hmoves : Moves s s' c process)
    (hqueue : s.queue c = some (entry :: entries))
    (hqueue' : s'.queue = Function.update s.queue c (some entries))
    (hrequests : s'.requests = s.requests) (hprio : entry.prio ≠ CONNECT) (halive : process.Alive)
    (htalk : process.talk = (s.process c).talk) (hwaiting : s.awaited c ≠ [] → process.Waiting)
    (hline : isDisconnectLine entry.message.message_text = true → ∀ p, ¬ Engaged s c p) :
    Inv getpid s' := by
  have hentries : s'.queue c = some entries := by rw [hqueue', Function.update_self]
  have halive₀ : (s.process c).Alive := hs.queue_isSome.mp (by simp [hqueue])
  have hrest : pairings (entry :: (entries ++ s.server.pending c)) =
      pairings (entries ++ s.server.pending c) := pairings_cons_of_ne hprio _
  refine hs.local hmoves.server ?_ (fun x hx => hmoves.other hx) ?_ ?_ ?_ ?_ halive₀.ne_exited
    (hmoves.pids ▸ List.Subset.refl _) ?_ ?_ ?_
  · intro message hmessage hnew
    exact absurd (hrequests ▸ hmessage) hnew
  · intro x hx
    rw [hqueue', Function.update_of_ne hx]
  · rw [hmoves.self, hentries]
    refine (hs.first hqueue).pop.move halive₀ halive fun hne => hwaiting ?_
    rwa [awaited_of_queue hqueue, hrest]
  · rw [hmoves.self, htalk]
  · rw [hmoves.self]
    exact halive.ne_absent
  · rw [hmoves.pids]
    exact hs.started c halive₀.ne_absent
  · intro name
    rw [awaited_of_queue hqueue, hrest, State.awaited, State.inbox, hentries, hmoves.server,
      Option.getD_some]
  · intro p hp
    have hno : isDisconnectLine entry.message.message_text ≠ true := fun h => hline h p hp
    simp [Noticed, State.inbox, hentries, hqueue, hno]

theorem Inv.takePairing (hs : Inv getpid s) {q : ℤ} (hmoves : Moves s s' c (.entering (keyOf q)))
    (hqueue : s.queue c = some (entry :: entries))
    (hqueue' : s'.queue = Function.update s.queue c (some entries))
    (hrequests : s'.requests = s.requests) (hprio : entry.prio = CONNECT)
    (hname : entry.message.message_text = keyOf q) : Inv getpid s' := by
  have hfirst := hs.first hqueue
  have hawaited : s.awaited c = keyOf q :: pairings (entries ++ s.server.pending c) := by
    rw [awaited_of_queue hqueue, pairings_cons_of_eq hprio, hname]
  have hrest : pairings (entries ++ s.server.pending c) = [] := by
    have hsingle := (hs.client c).single
    change (s.awaited c).length ≤ 1 at hsingle
    rw [hawaited, List.length_cons] at hsingle
    exact List.length_eq_zero_iff.mp (by omega)
  have hwaiting : (s.process c).Waiting := hs.waiting (by simp [hawaited])
  have hentries : s'.queue c = some entries := by rw [hqueue', Function.update_self]
  have hother : ∀ x, x ≠ c → s'.queue x = s.queue x := by
    intro x hx
    rw [hqueue', Function.update_of_ne hx]
  have hengaged : ∀ x p, Engaged s' x p ↔ Engaged s x p := by
    intro x p
    by_cases hx : x = c
    · subst hx
      have htalk := Process.talk_of_waiting hwaiting
      rw [Engaged, Engaged, InChat, InChat, Process.key_eq, Process.key_eq, htalk, hawaited, hrest,
        hmoves.self, State.awaited, State.inbox, hentries, hmoves.server, Option.getD_some, hrest]
      simp [Process.talk, eq_comm]
    · apply engaged_congr
      · rw [hmoves.other hx]
      · intro name
        rw [State.awaited, State.awaited, State.inbox, State.inbox, hmoves.server, hother x hx]
  have hpresent : ∀ p, s'.process p = .absent → s.process p = .absent := by
    intro p h
    by_cases hp : p = c
    · subst hp
      rw [hmoves.self] at h
      cases h
    · rwa [hmoves.other hp] at h
  have hexited : ∀ p, s.process p = .exited → s'.process p = .exited := by
    intro p h
    by_cases hp : p = c
    · subst hp
      exact absurd h hwaiting.alive.ne_exited
    · rwa [hmoves.other hp]
  refine ⟨hrequests ▸ hs.requests, hmoves.server ▸ hs.server, ?_, ?_, ?_, ?_,
    hs.coupled.congr hengaged ?_⟩
  · intro x
    rw [hmoves.server]
    by_cases hx : x = c
    · subst hx
      rw [hmoves.self, hentries]
      exact hfirst.pop.move hwaiting.alive trivial fun hne => absurd hrest hne
    · rw [hmoves.other hx, hother x hx]
      exact hs.client x
  · intro x key opened h
    by_cases hx : x = c
    · subst hx
      rw [hmoves.self, Process.talk, Option.some.injEq, Prod.mk.injEq] at h
      obtain ⟨rfl, rfl⟩ := h
      exact ⟨q, rfl, fun _ h => by cases h⟩
    · rw [hmoves.other hx] at h
      obtain ⟨p, hkey, hopened⟩ := hs.talking x key opened h
      exact ⟨p, hkey, fun clientid h => (hopened clientid h).imp_right (And.imp_right (hexited p))⟩
  · intro x p h heq
    exact hs.known x p ((hengaged x p).mp h) (hpresent p heq)
  · intro x h
    rw [hmoves.pids]
    by_cases hx : x = c
    · subst hx
      exact hs.started x hwaiting.alive.ne_absent
    · rw [hmoves.other hx] at h
      exact hs.started x h
  · intro x p _
    by_cases hx : x = c
    · subst hx
      have hline := (hfirst.entries entry (by simp)).line (by rw [hprio]; decide)
      simp [Noticed, State.inbox, hentries, hqueue, hline]
    · rw [Noticed, Noticed, State.inbox, State.inbox, hother x hx]

theorem Inv.takeIdle (hs : Inv getpid s) {process : Process} (hmoves : Moves s s' c process)
    (hqueue : s.queue c = some (entry :: entries))
    (hqueue' : s'.queue = Function.update s.queue c (some entries))
    (hrequests : s'.requests = s.requests) (hprio : entry.prio ≠ CONNECT)
    (hidle : (s.process c).talk = none) (halive : process.Alive) (htalk : process.talk = none)
    (hwaiting : s.awaited c ≠ [] → process.Waiting)
    (hpending : isDisconnectLine entry.message.message_text = true →
      pairings (s.server.pending c) = []) : Inv getpid s' := by
  refine hs.take hmoves hqueue hqueue' hrequests hprio halive (htalk.trans hidle.symm) hwaiting ?_
  intro hdisconnect p hengaged
  rw [Engaged, InChat, Process.key_eq, hidle, hs.awaited_of_line hqueue hdisconnect
    (hpending hdisconnect)] at hengaged
  rcases hengaged with h | h <;> cases h

theorem Inv.takeLine (hs : Inv getpid s) {process : Process} (hmoves : Moves s s' c process)
    (hqueue : s.queue c = some (entry :: entries))
    (hqueue' : s'.queue = Function.update s.queue c (some entries))
    (hrequests : s'.requests = s.requests) (hprio : entry.prio ≠ CONNECT)
    (hchat : (s.process c).talk ≠ none) (halive : process.Alive) (htalk : process.talk = none)
    (hdisconnect : isDisconnectLine entry.message.message_text = true) : Inv getpid s' := by
  have hnoticed : Noticed s c := ⟨entry, by simp [State.inbox, hqueue], hdisconnect⟩
  have hself : s'.queue c = some entries := by rw [hqueue', Function.update_self]
  have hother : ∀ x, x ≠ c → s'.queue x = s.queue x := by
    intro x hx
    rw [hqueue', Function.update_of_ne hx]
  refine hs.leave hmoves hchat htalk halive (hrequests ▸ hs.requests) ?_ ?_ ?_ ?_ ?_
  · intro x
    by_cases hx : x = c
    · subst hx
      rw [hself]
      exact (hs.first hqueue).pop
    · rw [hother x hx]
      exact hs.client x
  · intro x name
    by_cases hx : x = c
    · subst hx
      rw [awaited_of_queue hqueue, pairings_cons_of_ne hprio, State.awaited, State.inbox, hself,
        hmoves.server, Option.getD_some]
    · rw [State.awaited, State.awaited, State.inbox, State.inbox, hmoves.server, hother x hx]
  · intro x y _ hx hnotice
    rwa [Noticed, State.inbox, hother x hx]
  · intro x y _ hx _ hnotice
    rwa [Noticed, State.inbox, hother x hx] at hnotice
  · intro p hc hp
    exact absurd hp (hs.coupled.left c p hc hnoticed)

/-- A pairing is taken while the client waits, and names its peer. -/
theorem Inv.pairing (hs : Inv getpid s) (hqueue : s.queue c = some (entry :: entries))
    (hprio : entry.prio = CONNECT) : (s.process c).Waiting ∧ ∃ q,
      entry.message.type = CONNECT ∧ entry.message.sender_pid ≠ c ∧
      entry.message.message_text = keyOf q := by
  obtain ⟨htype, hsender, q, hname⟩ := ((hs.first hqueue).entries entry (by simp)).pairing hprio
  have hwaiting : (s.process c).Waiting :=
    hs.waiting (by simp [awaited_of_queue hqueue, pairings_cons_of_eq hprio])
  have hvalid := (hs.client c).valid hwaiting.alive.ne_absent
  exact ⟨hwaiting, q, htype, fun heq => hvalid.1 (heq.symm.trans hsender), hname⟩

theorem Inv.prio_ne_of_not_waiting (hs : Inv getpid s)
    (hqueue : s.queue c = some (entry :: entries)) (hidle : ¬ (s.process c).Waiting) :
    entry.prio ≠ CONNECT :=
  fun hprio => hidle (hs.pairing hqueue hprio).1

theorem Inv.receive (hs : Inv getpid s) {junk : Message}
    (hqueue : s.queue c = some (entry :: entries))
    (hstarts : StartsChat (s.process c) c entry.message → entry.prio = CONNECT)
    (hstop : s.process c = .prompt → entry.message.type = STOP → s.awaited c = [])
    (hpending : isDisconnectLine entry.message.message_text = true →
      pairings (s.server.pending c) = [])
    (h : received { s with queue := Function.update s.queue c (some entries) } c entry.message
      junk = some s') : Inv getpid s' := by
  unfold received at h
  dsimp only at h
  split at h
  case h_6 => cases h
  all_goals
    rename_i hprocess
    obtain rfl := Option.some.inj h
  · -- the reply to `INIT`
    have hprio := hs.prio_ne_of_not_waiting hqueue (by rw [hprocess]; rintro (h | h) <;> cases h)
    exact hs.takeIdle ⟨rfl, rfl, rfl⟩ hqueue rfl rfl hprio (by rw [hprocess]; rfl) trivial rfl
      (fun _ => .inl rfl) hpending
  · have hidle : (s.process c).talk = none := by rw [hprocess]; rfl
    by_cases hprio : entry.prio = CONNECT
    · obtain ⟨_, q, htype, _, hname⟩ := hs.pairing hqueue hprio
      refine hs.takePairing ⟨rfl, rfl, ?_⟩ hqueue rfl rfl hprio hname
      simp only [State.move, State.setMessage, htype, if_true, hname, contents_keyOf]
    · have htype : entry.message.type ≠ CONNECT :=
        fun htype => hprio (hstarts (.inl ⟨hprocess, htype⟩))
      rw [if_neg htype]
      split_ifs with hstops
      · exact hs.takeIdle ⟨rfl, rfl, rfl⟩ hqueue rfl rfl hprio hidle trivial rfl
          (fun hne => absurd (hstop hprocess hstops) hne) hpending
      · exact hs.takeIdle ⟨rfl, rfl, rfl⟩ hqueue rfl rfl hprio hidle trivial rfl
          (fun _ => .inl rfl) hpending
  · by_cases hprio : entry.prio = CONNECT
    · obtain ⟨_, q, _, hsender, hname⟩ := hs.pairing hqueue hprio
      refine hs.takePairing ⟨rfl, rfl, ?_⟩ hqueue rfl rfl hprio hname
      simp only [State.move, State.setMessage, hsender, if_false, hname, contents_keyOf]
    · have hsender : entry.message.sender_pid = c := by
        by_contra hne
        exact hprio (hstarts (.inr ⟨hprocess, hne⟩))
      rw [if_pos hsender]
      exact hs.takeIdle ⟨rfl, rfl, rfl⟩ hqueue rfl rfl hprio (by rw [hprocess]; rfl) trivial rfl
        (fun _ => .inl rfl) hpending
  · -- the reply to `LIST`
    have hprio := hs.prio_ne_of_not_waiting hqueue (by rw [hprocess]; rintro (h | h) <;> cases h)
    exact hs.takeIdle ⟨rfl, rfl, rfl⟩ hqueue rfl rfl hprio (by rw [hprocess]; rfl) trivial rfl
      (fun _ => .inl rfl) hpending
  · have hprio := hs.prio_ne_of_not_waiting hqueue (by rw [hprocess]; rintro (h | h) <;> cases h)
    have htalk : (s.process c).talk ≠ none := by
      rw [hprocess]
      simp [Process.talk]
    split_ifs with hdisconnect
    · exact hs.takeLine ⟨rfl, rfl, rfl⟩ hqueue rfl rfl hprio htalk trivial rfl hdisconnect
    · refine hs.take ⟨rfl, rfl, rfl⟩ hqueue rfl rfl hprio trivial ?_ ?_ ?_
      · rw [hprocess]
        rfl
      · intro hne
        exact absurd (hs.awaited_of_talk htalk) hne
      · intro hyes
        exact absurd hyes hdisconnect

end Receive

/-! ## Other steps of a client -/

theorem Inv.request (hs : Inv getpid s) {c : ℤ} {process : Process} {request : Message}
    (hmoves : Moves s s' c process) (hqueue : s'.queue = s.queue)
    (hrequests : s'.requests = s.requests ++ [request]) (htype : request.type ≠ INIT)
    (halive : (s.process c).Alive) (halive' : process.Alive)
    (htalk : process.talk = (s.process c).talk)
    (hwaiting : s.awaited c ≠ [] → process.Waiting) : Inv getpid s' := by
  refine hs.move hmoves hqueue ?_ halive halive' htalk hwaiting
  intro message hmessage hnew hinit
  rw [hrequests] at hmessage
  rcases List.mem_append.mp hmessage with hmessage | hmessage
  · exact absurd hmessage hnew
  · obtain rfl := List.mem_singleton.mp hmessage
    exact absurd hinit htype

theorem Inv.enter (hs : Inv getpid s) {c : ℤ} {key : List UInt8}
    (hprocess : s.process c = .entering key) (junk : Message) :
    Inv getpid (s.move c (.chat key (s.mqOpen key) junk)) := by
  have htalk : (s.process c).talk = some (key, none) := by
    rw [hprocess]
    rfl
  obtain ⟨q, rfl, -⟩ := hs.talking c key none htalk
  have hself : (s.move c (.chat (keyOf q) (s.mqOpen (keyOf q)) junk)).process c =
      .chat (keyOf q) (s.mqOpen (keyOf q)) junk := Function.update_self _ _ _
  have hother : ∀ x, x ≠ c →
      (s.move c (.chat (keyOf q) (s.mqOpen (keyOf q)) junk)).process x = s.process x :=
    fun x hx => Function.update_of_ne hx _ _
  have hengaged : ∀ x p,
      Engaged (s.move c (.chat (keyOf q) (s.mqOpen (keyOf q)) junk)) x p ↔ Engaged s x p := by
    intro x p
    have hkey : ((s.move c (.chat (keyOf q) (s.mqOpen (keyOf q)) junk)).process x).key =
        (s.process x).key := by
      by_cases hx : x = c
      · rw [hx, hself, hprocess]
        rfl
      · rw [hother x hx]
    rw [Engaged, Engaged, InChat, InChat, hkey]
    rfl
  have hkept : ∀ p process, s.process p = process → (∀ key, process ≠ .entering key) →
      (s.move c (.chat (keyOf q) (s.mqOpen (keyOf q)) junk)).process p = process := by
    intro p process h hne
    rw [hother, h]
    rintro rfl
    exact hne _ (h.symm.trans hprocess)
  refine ⟨hs.requests, hs.server, ?_, ?_, ?_, ?_, hs.coupled.congr hengaged fun _ _ _ => Iff.rfl⟩
  · intro x
    by_cases hx : x = c
    · subst hx
      rw [hself]
      refine (hs.client x).move (by rw [hprocess]; trivial) trivial fun hne => ?_
      have hwaiting := (hs.client x).waiting hne
      rw [hprocess] at hwaiting
      rcases hwaiting with h | h <;> cases h
    · rw [hother x hx]
      exact hs.client x
  · intro x key opened h
    by_cases hx : x = c
    · subst hx
      rw [hself, Process.talk, Option.some.injEq, Prod.mk.injEq] at h
      obtain ⟨rfl, rfl⟩ := h
      have hengaged : Engaged s x q := .inl (by rw [InChat, hprocess]; rfl)
      refine ⟨q, rfl, fun clientid h => ?_⟩
      obtain rfl := Option.some.inj h
      exact (hs.mqOpen (hs.known x q hengaged)).imp_right
        (And.imp_right fun hexited => hkept q _ hexited (by simp))
    · rw [hother x hx] at h
      obtain ⟨p, hkey, hopened⟩ := hs.talking x key opened h
      exact ⟨p, hkey, fun clientid h => (hopened clientid h).imp_right
        (And.imp_right fun hexited => hkept p _ hexited (by simp))⟩
  · intro x p h heq
    by_cases hp : p = c
    · subst hp
      rw [hself] at heq
      cases heq
    · rw [hother p hp] at heq
      exact hs.known x p ((hengaged x p).mp h) heq
  · intro x h
    by_cases hx : x = c
    · exact hx ▸ hs.started c (by rw [hprocess]; simp)
    · rw [hother x hx] at h
      exact hs.started x h

theorem Inv.say (hs : Inv getpid s) {c : ℤ} {key : List UInt8} {clientid : Option Mqd}
    {old : Message} (hprocess : s.process c = .chat key clientid old) (message : Message) :
    Inv getpid (s.sayLine c key clientid message) := by
  have htalk : (s.process c).talk = some (key, some clientid) := by
    rw [hprocess]
    rfl
  have hchat : (s.process c).talk ≠ none := by simp [htalk]
  obtain ⟨p, rfl, hopened⟩ := hs.talking c key _ htalk
  obtain rfl | ⟨rfl, hexited⟩ := hopened clientid rfl
  · -- the queue of the peer was there when the chat began
    have hentry : EntryInv getpid ⟨0, message⟩ :=
      ⟨fun h => absurd rfl h, fun h => absurd h (by decide : (0 : ℤ) ≠ CONNECT)⟩
    have hprio : (0 : ℤ) ≠ CONNECT := by decide
    unfold State.sayLine
    dsimp only
    split_ifs with hline
    · refine hs.leave ⟨rfl, rfl, rfl⟩ hchat rfl trivial hs.requests
        (hs.client_mqSend hentry hprio p) (mem_awaited_mqSend hprio p) ?_ ?_ ?_
      · intro x y _ _ hnoticed
        exact noticed_mqSend p x |>.mpr (.inl hnoticed)
      · intro x y _ _ hx hnoticed
        rcases (noticed_mqSend p x).mp hnoticed with hnoticed | ⟨rfl, _⟩
        · exact hnoticed
        · exact absurd ((hs.engaged_of_talk htalk).mpr rfl) hx
      · intro q hc hq
        obtain rfl := (hs.engaged_of_talk htalk).mp hc
        have hqueue := hs.queue_isSome.mpr (hs.alive_of_engaged hq)
        exact (noticed_mqSend q q).mpr (.inr ⟨rfl, hqueue, hline⟩)
    · have hpush := hs.push p hentry hprio (by simpa using hline)
      refine hpush.move ⟨rfl, rfl, rfl⟩ rfl (fun _ h hnot => absurd h hnot) ?_ trivial ?_ ?_
      · exact Process.alive_of_talk hchat
      · exact htalk.symm
      · intro hne
        exact absurd (hpush.awaited_of_talk hchat) hne
  · -- the peer has gone
    refine hs.leave ⟨rfl, rfl, rfl⟩ hchat rfl trivial hs.requests hs.client ?_ ?_ ?_ ?_
    · exact fun _ _ => Iff.rfl
    · exact fun _ _ _ _ h => h
    · exact fun _ _ _ _ _ h => h
    · intro q hc hq
      obtain rfl := (hs.engaged_of_talk htalk).mp hc
      exact absurd hexited (hs.alive_of_engaged hq).ne_exited

theorem Inv.create (hs : Inv getpid s) {c : ℤ} (privateid : ℤ) (hprocess : s.process c = .absent)
    (hvalid : c ≠ getpid ∧ 1 ≤ c ∧ c ≤ INT_MAX) :
    Inv getpid { s.move c (.created privateid) with
      pids := c :: s.pids
      queue := Function.update s.queue c (some []) } := by
  have hself : (s.move c (.created privateid)).process c = .created privateid :=
    Function.update_self _ _ _
  have hidle : ¬ (s.process c).Waiting := by
    rw [hprocess]
    rintro (h | h) <;> cases h
  have hnone : s.queue c = none := by
    have hqueue := (hs.client c).alive.not.mpr (by rw [hprocess]; exact id)
    simpa using hqueue
  refine hs.local rfl (fun _ h hnot => absurd h hnot) ?_ ?_ ?_ ?_ ?_ ?_
    (List.subset_cons_self _ _) List.mem_cons_self ?_ ?_ (c := c)
  · exact fun x hx => Function.update_of_ne hx _ _
  · exact fun x hx => Function.update_of_ne hx _ _
  · change ClientInv _ _ ((s.move c (.created privateid)).process c)
      (Function.update s.queue c (some []) c) _
    rw [hself, Function.update_self]
    exact (hs.client c).renew rfl (iff_of_true rfl trivial) (fun _ => hvalid) hidle
  · change ((s.move c (.created privateid)).process c).talk = _
    rw [hself, hprocess]
    rfl
  · change (s.move c (.created privateid)).process c ≠ _
    rw [hself]
    intro h
    cases h
  · rw [hprocess]
    intro h
    cases h
  · intro name
    simp [State.awaited, State.inbox, State.move, hnone]
  · intro p _
    simp [Noticed, State.inbox, hnone]

theorem Inv.exit (hs : Inv getpid s) {c : ℤ} (hprocess : s.process c = .exiting) :
    Inv getpid { s.move c .exited with queue := Function.update s.queue c none } := by
  have hself : (s.move c .exited).process c = .exited := Function.update_self _ _ _
  have hidle : ¬ (s.process c).Waiting := by
    rw [hprocess]
    rintro (h | h) <;> cases h
  have hnil : s.awaited c = [] := by
    by_contra hne
    exact hidle (hs.waiting hne)
  refine hs.local rfl (fun _ h hnot => absurd h hnot) ?_ ?_ ?_ ?_ ?_ ?_
    (List.Subset.refl _) (hs.started c (by rw [hprocess]; simp)) ?_ ?_ (c := c)
  · exact fun x hx => Function.update_of_ne hx _ _
  · exact fun x hx => Function.update_of_ne hx _ _
  · change ClientInv _ _ ((s.move c .exited).process c) (Function.update s.queue c none c) _
    rw [hself, Function.update_self]
    refine (hs.client c).renew rfl (iff_of_false (by simp) id) (fun _ => ?_) hidle
    exact (hs.client c).valid (by rw [hprocess]; simp)
  · change ((s.move c .exited).process c).talk = _
    rw [hself, hprocess]
    rfl
  · change (s.move c .exited).process c ≠ _
    rw [hself]
    intro h
    cases h
  · rw [hprocess]
    intro h
    cases h
  · intro name
    rw [hnil]
    rw [State.awaited, pairings_append, List.append_eq_nil_iff] at hnil
    simp [State.awaited, State.inbox, State.move, hnil.2]
  · rintro p (h | h)
    · rw [InChat, hprocess] at h
      cases h
    · rw [hnil] at h
      cases h

end Sysopy.Chat.POSIX
