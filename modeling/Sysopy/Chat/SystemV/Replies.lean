import Sysopy.Chat.SystemV.Backlog

/-!
# Replies of the System V server

A client that asks for something is in the table, so a reply reaches it as long as it
runs and is not marked as busy.
-/
namespace Sysopy.Chat.SystemV

open CInteger Transition

/-! ## Steps of the server -/

theorem BacklogInv.cons {process : Process} {registered : Prop} {type : ℤ} {backlog : List ℤ}
    (h : BacklogInv process registered (type :: backlog)) :
    Introduced registered (type :: backlog) ∧ STOP ∉ (type :: backlog).dropLast := by
  cases process <;> first
    | exact absurd h.2 (List.cons_ne_nil _ _)
    | exact ⟨h.1, fun hmem => h.2 (List.mem_of_mem_dropLast hmem)⟩
    | exact h.resolve_left fun hnil => absurd hnil.2 (List.cons_ne_nil _ _)

theorem Introduced.registered {registered : Prop} {type : ℤ} {backlog : List ℤ}
    (h : Introduced registered (type :: backlog)) (htype : type ≠ INIT) : registered := by
  rcases h with ⟨hregistered, _⟩ | ⟨_, rest, heq, _⟩
  · exact hregistered
  · exact absurd (List.cons.inj heq).1 htype

/-- The backlog of a client after its next request, when the table keeps or gets the client. -/
theorem BacklogInv.tail {process : Process} {registered registered' : Prop} {type : ℤ}
    {backlog : List ℤ} (h : BacklogInv process registered (type :: backlog))
    (hregistered : registered') : BacklogInv process registered' backlog := by
  obtain ⟨hintro, _⟩ := h.cons
  have hinit : INIT ∉ backlog := by
    rcases hintro with ⟨_, hinit⟩ | ⟨_, rest, heq, hinit⟩
    · exact fun hmem => hinit (List.mem_cons_of_mem _ hmem)
    · rwa [(List.cons.inj heq).2]
  have hintro' : Introduced registered' backlog := .inl ⟨hregistered, hinit⟩
  cases process <;> first
    | exact absurd h.2 (List.cons_ne_nil _ _)
    | exact ⟨hintro', fun hmem => h.2 (List.mem_cons_of_mem _ hmem)⟩
    | refine .inr ⟨hintro', fun hmem => ?_⟩
      obtain ⟨_, hstop⟩ := h.cons
      cases backlog with
      | nil => cases hmem
      | cons type' backlog => exact hstop (List.mem_cons_of_mem _ hmem)

theorem BacklogInv.stop {process : Process} {registered registered' : Prop} {backlog : List ℤ}
    (h : BacklogInv process registered (STOP :: backlog)) (hregistered : ¬ registered') :
    BacklogInv process registered' backlog := by
  obtain ⟨_, hstop⟩ := h.cons
  have hnil : backlog = [] := by
    cases backlog with
    | nil => rfl
    | cons type backlog => exact absurd (List.mem_cons_self) hstop
  subst hnil
  cases process <;> first
    | exact ⟨hregistered, rfl⟩
    | exact .inl ⟨hregistered, rfl⟩
    | exact absurd List.mem_cons_self h.2

theorem backlog_cons {s : State} {message : Message} {requests : List Message}
    (h : s.requests = message :: requests) : s.backlog message.sender_pid = message.type ::
      (requests.filter fun m => m.sender_pid = message.sender_pid).map Message.type := by
  simp [State.backlog, h]

theorem backlog_cons_of_ne {s : State} {message : Message} {requests : List Message}
    (h : s.requests = message :: requests) {c : ℤ} (hc : c ≠ message.sender_pid) : s.backlog c =
      (requests.filter fun m => m.sender_pid = c).map Message.type := by
  simp [State.backlog, h, Ne.symm hc]

/-- A request is handled: the table changes for its sender only. -/
theorem Inv.handled {s : State} (hs : Inv s) {message : Message} {requests : List Message}
    (hrequests : s.requests = message :: requests) {clients : List Client}
    (htable : ∀ client ∈ clients, client.pqd = s.pqd client.id)
    (hnodup : (clients.map Client.id).Nodup)
    (hothers : ∀ c, c ≠ message.sender_pid → (Registered clients c ↔ Registered s.clients c))
    (hstop : message.type = STOP → ¬ Registered clients message.sender_pid)
    (hkept : message.type ≠ STOP → Registered clients message.sender_pid)
    {queue : ℤ → Option (List Message)} (hqueue : ∀ qd, s.queue qd ≠ none → queue qd ≠ none) :
    Inv { s with clients := clients, requests := requests, queue := queue } := by
  have hmem : ∀ m ∈ requests, m ∈ s.requests := fun m hm => by
    rw [hrequests]
    exact List.mem_cons_of_mem _ hm
  refine ⟨hs.running, fun c hc => hqueue _ (hs.queue c hc), hs.range, hs.distinct, htable, hnodup,
    fun c => ?_, fun m hm => hs.initText m (hmem m hm), fun m hm => hs.known m (hmem m hm)⟩
  have hbacklog := hs.backlog c
  by_cases hc : c = message.sender_pid
  · subst hc
    rw [backlog_cons hrequests] at hbacklog
    by_cases htype : message.type = STOP
    · rw [htype] at hbacklog
      exact hbacklog.stop (hstop htype)
    · exact hbacklog.tail (hkept htype)
  · rw [backlog_cons_of_ne hrequests hc] at hbacklog
    change BacklogInv (s.process c) (Registered clients c) _
    rw [hothers c hc]
    exact hbacklog

theorem deliver_eq {sends : List (ℤ × Message)} : ∀ {s : State},
    (∀ send ∈ sends, s.queue send.1 ≠ none ∧ 1 ≤ send.2.type) →
    ∃ queue, s.deliver sends = { s with queue := queue } ∧
      ∀ qd, s.queue qd ≠ none → queue qd ≠ none := by
  induction sends with
  | nil => exact fun {s} _ => ⟨s.queue, rfl, fun _ h => h⟩
  | cons send sends ih =>
    intro s hsends
    obtain ⟨qd, message⟩ := send
    obtain ⟨hexists, htype⟩ := hsends (qd, message) (by simp)
    obtain ⟨messages, hmessages⟩ := Option.ne_none_iff_exists'.mp hexists
    have hgrown : ∀ qd', s.queue qd' ≠ none →
        Function.update s.queue qd (some (messages ++ [message])) qd' ≠ none := by
      intro qd' hqd'
      by_cases heq : qd' = qd
      · simp [heq]
      · simpa [heq] using hqd'
    obtain ⟨queue, hdeliver, hqueue⟩ :=
      @ih { s with queue := Function.update s.queue qd (some (messages ++ [message])) }
        fun send hsend => ⟨hgrown _ (hsends send (by simp [hsend])).1, (hsends send (by simp [hsend])).2⟩
    have hsend : s.msgsnd qd message =
        some { s with queue := Function.update s.queue qd (some (messages ++ [message])) } := by
      simp only at hmessages htype
      rw [State.msgsnd, if_neg (by omega), hmessages, Option.map_some]
    refine ⟨queue, ?_, fun qd' hqd' => hqueue qd' (hgrown qd' hqd')⟩
    rw [State.deliver, hsend]
    exact hdeliver

section Server

variable {getpid : ℤ} {s : State} {message : Message} {requests : List Message}

theorem Inv.registered_of_request (hs : Inv s) (hrequests : s.requests = message :: requests)
    (htype : message.type ≠ INIT) : Registered s.clients message.sender_pid := by
  have hbacklog := hs.backlog message.sender_pid
  rw [backlog_cons hrequests] at hbacklog
  exact hbacklog.cons.1.registered htype

theorem Inv.not_registered_of_init (hs : Inv s) (hrequests : s.requests = message :: requests)
    (htype : message.type = INIT) : ¬ Registered s.clients message.sender_pid := by
  have hbacklog := hs.backlog message.sender_pid
  rw [backlog_cons hrequests] at hbacklog
  rcases hbacklog.cons.1 with ⟨_, hinit⟩ | ⟨hregistered, _⟩
  · exact absurd (htype ▸ List.mem_cons_self) hinit
  · exact hregistered

theorem Inv.queue_find (hs : Inv s) {c : ℤ} (hregistered : Registered s.clients c)
    (hbusy : ¬ Busy s.clients c) (halive : Alive s c) : s.queue (find s.clients c) ≠ none := by
  obtain ⟨client, hclient, rfl, hfind⟩ := find_of_registered hregistered hbusy
  rw [hfind, hs.table client hclient]
  exact hs.queue _ halive

/-- The replies to an answerable request reach their queues. -/
theorem Inv.replies (hs : Inv s) (hrequests : s.requests = message :: requests)
    (hanswerable : Answerable s message) {clients : List Client} {sends : List (ℤ × Message)}
    (hhandle : handle getpid s.clients message = some (clients, sends)) :
    ∀ send ∈ sends, s.queue send.1 ≠ none ∧ 1 ≤ send.2.type := by
  obtain ⟨halive, hbusy, -, hnamed⟩ := hanswerable
  intro send hsend
  unfold handle at hhandle
  split_ifs at hhandle with hinit hconnect hlist hdisconnect hstop
  · obtain ⟨rfl, rfl⟩ := Prod.mk.inj (Option.some.inj hhandle)
    obtain rfl := List.mem_singleton.mp hsend
    have htext := hs.initText message (by simp [hrequests]) hinit
    exact ⟨by rw [htext]; exact hs.queue _ (halive (.inl hinit)), (by decide : (1 : ℤ) ≤ INIT)⟩
  · have hregistered := hs.registered_of_request hrequests (by rw [hconnect]; decide)
    have hsender := hs.queue_find hregistered (hbusy (.inl hconnect))
      (halive (.inr (.inl hconnect)))
    have htype : 1 ≤ message.type := by rw [hconnect]; decide
    unfold handleConnect at hhandle
    dsimp only at hhandle
    split_ifs at hhandle with hfound
    · obtain ⟨rfl, rfl⟩ := Prod.mk.inj (Option.some.inj hhandle)
      obtain rfl := List.mem_singleton.mp hsend
      exact ⟨hsender, htype⟩
    · obtain ⟨rfl, rfl⟩ := Prod.mk.inj (Option.some.inj hhandle)
      obtain ⟨hregistered', hbusy'⟩ := registered_of_find fun h => hfound (.inl h)
      rcases List.mem_cons.mp hsend with rfl | hsend
      · exact ⟨hsender, htype⟩
      · obtain rfl := List.mem_singleton.mp hsend
        exact ⟨hs.queue_find hregistered' hbusy' (hnamed hconnect hregistered' hbusy'), htype⟩
  · obtain ⟨rfl, rfl⟩ := Prod.mk.inj (handleList_eq_some hhandle).2
    obtain rfl := List.mem_singleton.mp hsend
    have hregistered := hs.registered_of_request hrequests (by rw [hlist]; decide)
    exact ⟨hs.queue_find hregistered (hbusy (.inr hlist)) (halive (.inr (.inr hlist))),
      (by decide : (1 : ℤ) ≤ LIST)⟩
  · obtain ⟨rfl, rfl⟩ := Prod.mk.inj (Option.some.inj hhandle)
    cases hsend
  · obtain ⟨rfl, rfl⟩ := Prod.mk.inj (Option.some.inj hhandle)
    cases hsend

theorem Inv.handled_same (hs : Inv s) (hrequests : s.requests = message :: requests)
    (hinit : message.type ≠ INIT) (hstop : message.type ≠ STOP) {clients : List Client}
    (hids : clients.map Client.id = s.clients.map Client.id)
    (hpqds : ∀ client ∈ clients, ∃ client' ∈ s.clients,
      client'.id = client.id ∧ client'.pqd = client.pqd)
    {queue : ℤ → Option (List Message)} (hqueue : ∀ qd, s.queue qd ≠ none → queue qd ≠ none) :
    Inv { s with clients := clients, requests := requests, queue := queue } := by
  have hsame : ∀ c, Registered clients c ↔ Registered s.clients c := by
    intro c
    rw [Registered, hids, Registered]
  refine hs.handled hrequests (fun client hclient => ?_) (hids ▸ hs.nodup) (fun c _ => hsame c)
    (fun h => absurd h hstop) (fun _ => (hsame _).mpr (hs.registered_of_request hrequests hinit))
    hqueue
  obtain ⟨client', hclient', hid, hpqd⟩ := hpqds client hclient
  rw [← hpqd, ← hid]
  exact hs.table client' hclient'

theorem Inv.serve (hs : Inv s) (hanswerable : ∀ message ∈ s.requests.head?, Answerable s message)
    {s' : State} (h : serve getpid s = some s') : Inv s' := by
  unfold SystemV.serve at h
  rw [if_pos hs.running] at h
  split at h
  · cases h
  rename_i message requests hrequests
  have hanswer : Answerable s message := hanswerable message (by simp [hrequests])
  split at h
  · rename_i clients sends hhandle
    obtain rfl := Option.some.inj h
    have hreplies := hs.replies hrequests hanswer hhandle
    obtain ⟨queue, hdeliver, hqueue⟩ :=
      @deliver_eq sends { s with clients := clients, requests := requests } hreplies
    rw [hdeliver]
    unfold handle at hhandle
    split_ifs at hhandle with hinit hconnect hlist hdisconnect hstop
    · -- a new client in the table
      obtain ⟨rfl, rfl⟩ := Prod.mk.inj (Option.some.inj hhandle)
      have hnew := hs.not_registered_of_init hrequests hinit
      have htext := hs.initText message (by simp [hrequests]) hinit
      refine hs.handled hrequests (fun client hclient => ?_) ?_ (fun c hc => ?_) (fun h => ?_)
        (fun _ => ?_) hqueue
      · rcases List.mem_append.mp hclient with hclient | hclient
        · exact hs.table client hclient
        · obtain rfl := List.mem_singleton.mp hclient
          exact htext
      · rw [List.map_append, List.map_singleton, List.nodup_append]
        refine ⟨hs.nodup, List.nodup_singleton _, fun c hc c' hc' heq => hnew ?_⟩
        obtain rfl := List.mem_singleton.mp hc'
        have hid : c = message.sender_pid := heq
        exact hid ▸ hc
      · simp [Registered, hc]
      · rw [hinit] at h
        exact absurd h (by decide)
      · simp [Registered]
    · have hne : message.type ≠ INIT ∧ message.type ≠ STOP := by rw [hconnect]; decide
      unfold handleConnect at hhandle
      dsimp only at hhandle
      split_ifs at hhandle
      · obtain ⟨rfl, rfl⟩ := Prod.mk.inj (Option.some.inj hhandle)
        exact hs.handled_same hrequests hne.1 hne.2 rfl
          (fun client hclient => ⟨client, hclient, rfl, rfl⟩) hqueue
      · obtain ⟨rfl, rfl⟩ := Prod.mk.inj (Option.some.inj hhandle)
        refine hs.handled_same hrequests hne.1 hne.2 ?_ (fun client hclient => ?_) hqueue
        · rw [deactivate, ids_setActive, deactivate, ids_setActive]
        · obtain ⟨client₁, hclient₁, hid₁, hpqd₁⟩ := pqd_of_mem_setActive hclient
          obtain ⟨client₂, hclient₂, hid₂, hpqd₂⟩ := pqd_of_mem_setActive hclient₁
          exact ⟨client₂, hclient₂, hid₂.trans hid₁, hpqd₂.trans hpqd₁⟩
    · have hne : message.type ≠ INIT ∧ message.type ≠ STOP := by rw [hlist]; decide
      obtain ⟨rfl, rfl⟩ := Prod.mk.inj (handleList_eq_some hhandle).2
      exact hs.handled_same hrequests hne.1 hne.2 rfl
        (fun client hclient => ⟨client, hclient, rfl, rfl⟩) hqueue
    · have hne : message.type ≠ INIT ∧ message.type ≠ STOP := by rw [hdisconnect]; decide
      obtain ⟨rfl, rfl⟩ := Prod.mk.inj (Option.some.inj hhandle)
      exact hs.handled_same hrequests hne.1 hne.2 (ids_setActive _ _ _)
        (fun client hclient => pqd_of_mem_setActive hclient) hqueue
    · -- the last request of a client
      obtain ⟨rfl, rfl⟩ := Prod.mk.inj (Option.some.inj hhandle)
      have hremoved := registered_removeclient hs.nodup message.sender_pid
      refine hs.handled hrequests
        (fun client hclient => hs.table client (List.mem_of_mem_eraseP hclient))
        (hs.nodup.sublist (List.eraseP_sublist.map _)) (fun c hc => ?_) (fun _ h => ?_)
        (fun h => absurd hstop h) hqueue
      · exact (hremoved c).trans (and_iff_left hc)
      · exact ((hremoved _).mp h).2 rfl
  · rename_i hunknown
    have hknown := hs.known message (by simp [hrequests])
    simp only [List.mem_cons, List.not_mem_nil, or_false] at hknown
    rcases hknown with h | h | h | h | h
    · simp [handle, h] at hunknown
    · simp [handle, h] at hunknown
    · rw [handle_list getpid s.clients h, handleList, if_pos (hanswer.2.2.1 h)] at hunknown
      cases hunknown
    · simp [handle, h] at hunknown
    · simp [handle, h] at hunknown

end Server

/-! ## Runs -/

theorem Inv.step {getpid : ℤ} {s s' : State} {a : Action} (hs : Inv s)
    (hanswerable : OnlyAnswerable s a) (h : step getpid s a = some s') : Inv s' := by
  cases a with
  | msgget c qd =>
    simp only [SystemV.step] at h
    split_ifs at h with hc
    obtain ⟨habsent, _, hqd, hrange⟩ := hc
    exact Option.some.inj h ▸ hs.msgget habsent hqd hrange
  | init c =>
    simp only [SystemV.step] at h
    split_ifs at h with hc
    obtain rfl := Option.some.inj h
    exact hs.init ⟨rfl, rfl, rfl, rfl, rfl⟩ rfl hc
  | receive c junk =>
    simp only [SystemV.step] at h
    split at h
    · exact hs.receive h
    · cases h
  | connect c line =>
    simp only [SystemV.step] at h
    split_ifs at h with hc
    obtain rfl := Option.some.inj h
    exact hs.request ⟨rfl, rfl, rfl, rfl, rfl⟩ rfl (by rw [hc]; trivial) trivial rfl (by simp)
  | list c =>
    simp only [SystemV.step] at h
    split_ifs at h with hc
    obtain rfl := Option.some.inj h
    exact hs.request ⟨rfl, rfl, rfl, rfl, rfl⟩ rfl (by rw [hc]; trivial) trivial rfl (by simp)
  | stop c =>
    simp only [SystemV.step] at h
    split_ifs at h with hc
    obtain rfl := Option.some.inj h
    exact hs.local ⟨rfl, rfl, rfl, rfl, (List.append_nil _).symm⟩ (by rw [hc]; trivial)
      (.inl trivial) fun _ hqd => hqd
  | interrupt c =>
    simp only [SystemV.step] at h
    split_ifs at h with hc
    obtain rfl := Option.some.inj h
    exact hs.local ⟨rfl, rfl, rfl, rfl, (List.append_nil _).symm⟩ (by rw [hc]; trivial)
      (.inr rfl) fun _ hqd => hqd
  | say c line =>
    simp only [SystemV.step] at h
    split at h
    · rename_i hc
      exact Option.some.inj h ▸ hs.say (by rw [hc]; trivial) _ _
    · cases h
  | disconnect c =>
    simp only [SystemV.step] at h
    split at h
    · rename_i hc
      obtain rfl := Option.some.inj h
      exact hs.request ⟨rfl, rfl, rfl, rfl, rfl⟩ rfl (by rw [hc]; trivial) trivial rfl (by simp)
    · rename_i hc
      obtain rfl := Option.some.inj h
      exact hs.request ⟨rfl, rfl, rfl, rfl, rfl⟩ rfl (by rw [hc]; trivial) trivial rfl (by simp)
    · cases h
  | sendStop c =>
    simp only [SystemV.step] at h
    split_ifs at h with hc
    obtain rfl := Option.some.inj h
    exact hs.sendStop ⟨rfl, rfl, rfl, rfl, rfl⟩ rfl (by rw [hc]; trivial) rfl rfl
  | exit c =>
    simp only [SystemV.step] at h
    split_ifs at h with hc
    exact Option.some.inj h ▸ hs.exit hc
  | serve => exact hs.serve hanswerable h

/-- The clients 2 and 3 register. -/
def introductions : List Action :=
  [.msgget 2 0, .init 2, .serve, .receive 2 ⟨0, 0, []⟩,
    .msgget 3 1, .init 3, .serve, .receive 3 ⟨0, 0, []⟩]

end Sysopy.Chat.SystemV
