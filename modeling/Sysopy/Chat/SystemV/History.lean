import Sysopy.Chat.SystemV.Server
import Sysopy.Library.Transition

/-!
# The client table and its history

What the table of the System V server says, said by the requests that were handled: who
has registered and not stopped since, and whose last event was a pairing. The server
leaves when a `msgsnd` fails, which depends on the queues that exist at that moment.
-/
namespace Sysopy.Chat.SystemV

open CInteger Transition

/-- A request, with the queues that exist while it is handled. -/
structure Request where
  message : Message
  exists_queue : ℤ → Bool

/-- No call of `msgsnd` for the request fails. -/
def answered (exists_queue : ℤ → Bool) (sends : List (ℤ × Message)) : Bool :=
  sends.all fun send => 0 ≤ send.1 ∧ exists_queue send.1 ∧ 1 ≤ send.2.type

/-- The table after a request that the server handles without exiting. How much of the text of
a `LIST` arrives does not concern the table. -/
def handleRequest (getpid : ℤ) (clients : List Client) (request : Request) : Option (List Client) :=
  match handle getpid clients request.message with
  | some (clients, sends) => if answered request.exists_queue sends then some clients else none
  | none => none

/-! ## Histories -/

/-- The pids and descriptors of the `INIT`s that no `STOP` of the same pid follows. The
history begins with the oldest request. -/
def registrations : List Message → List (ℤ × ℤ)
  | [] => []
  | m :: later =>
    if m.type = INIT ∧ ∀ m' ∈ later, ¬ (m'.type = STOP ∧ m'.sender_pid = m.sender_pid) then
      (m.sender_pid, parseInt m.message_text) :: registrations later
    else registrations later

/-- The last event of the client among its `INIT`, its `DISCONNECT` and a successful pairing
with it was a pairing. A `CONNECT` pairs its sender with the client that it names if both
are registered and neither is paired. The history begins with the latest request. -/
def paired : List Message → ℤ → Bool
  | [], _ => false
  | m :: past, pid =>
    let named := parseInt m.message_text
    let free := fun pid => pid ∈ (registrations past.reverse).map Prod.fst ∧ paired past pid = false
    if (m.type = INIT ∨ m.type = DISCONNECT) ∧ m.sender_pid = pid then false
    else if m.type = CONNECT ∧ free m.sender_pid ∧ free named ∧
      (pid = m.sender_pid ∨ pid = named) then true
    else paired past pid

/-- Registered and not paired, so that a `CONNECT` with the client succeeds. -/
def Free (past : List Message) (pid : ℤ) : Prop :=
  pid ∈ (registrations past.reverse).map Prod.fst ∧ paired past pid = false

/-- The table says what its history does. -/
structure Records (clients : List Client) (past : List Message) : Prop where
  entries : clients.map (fun client => (client.id, client.pqd)) = registrations past.reverse
  once : (clients.map Client.id).Nodup
  active : ∀ client ∈ clients, client.active = false ↔ paired past client.id = true
  free : ∀ pid, find clients pid ≠ -1 ↔ Free past pid

/-- A pid sends `INIT` only while it is not in the table. -/
def Fresh (clients : List Client) (request : Request) : Prop :=
  request.message.type = INIT → ¬ Registered clients request.message.sender_pid

/-! ## One more request -/

theorem registrations_append_init (history : List Message) {m : Message} (hm : m.type = INIT) :
    registrations (history ++ [m]) =
      registrations history ++ [(m.sender_pid, parseInt m.message_text)] := by
  have hnot : m.type ≠ STOP := by
    rw [hm]
    decide
  induction history with
  | nil => simp [registrations, hm]
  | cons m' later ih =>
    rw [List.cons_append, registrations, registrations, ih]
    simp only [List.mem_append, List.mem_singleton, or_imp, forall_and, forall_eq, hnot, false_and,
      not_false_eq_true, and_true]
    split_ifs <;> rfl

theorem registrations_append_stop (history : List Message) {m : Message} (hm : m.type = STOP) :
    registrations (history ++ [m]) =
      (registrations history).filter fun entry => entry.1 ≠ m.sender_pid := by
  have hnot : m.type ≠ INIT := by
    rw [hm]
    decide
  induction history with
  | nil => simp [registrations, hnot]
  | cons m' later ih =>
    rw [List.cons_append, registrations, registrations, ih]
    simp only [List.mem_append, List.mem_singleton, or_imp, forall_and, forall_eq, hm, true_and]
    by_cases hinit : m'.type = INIT ∧ ∀ m'' ∈ later,
        ¬ (m''.type = STOP ∧ m''.sender_pid = m'.sender_pid)
    · by_cases hpid : m.sender_pid = m'.sender_pid
      · rw [if_neg (by tauto), if_pos hinit, List.filter_cons_of_neg (by simp [hpid])]
      · rw [if_pos (by tauto), if_pos hinit, List.filter_cons_of_pos (by simp [Ne.symm hpid])]
    · rw [if_neg (by tauto), if_neg hinit]

theorem registrations_append_other (history : List Message) {m : Message} (hinit : m.type ≠ INIT)
    (hstop : m.type ≠ STOP) : registrations (history ++ [m]) = registrations history := by
  induction history with
  | nil => simp [registrations, hinit]
  | cons m' later ih =>
    rw [List.cons_append, registrations, registrations, ih]
    simp only [List.mem_append, List.mem_singleton, or_imp, forall_and, forall_eq, hstop, false_and,
      not_false_eq_true, and_true]

/-! ## The table as a list with distinct ids -/

theorem setActive_eq_map {clients : List Client} (hnodup : (clients.map Client.id).Nodup) (id : ℤ)
    (active : Bool) : setActive clients id active =
      clients.map fun client => if client.id = id then { client with active := active } else client := by
  induction clients with
  | nil => rfl
  | cons client clients ih =>
    rw [List.map_cons, List.nodup_cons] at hnodup
    rw [setActive, List.map_cons]
    split_ifs with hid
    · -- no other client has this id
      have hothers : ∀ client' ∈ clients, (if client'.id = id then { client' with active := active }
          else client') = client' := by
        intro client' hmem
        rw [if_neg]
        rintro rfl
        exact hnodup.1 (hid ▸ List.mem_map_of_mem hmem)
      rw [List.map_congr_left hothers, List.map_id']
    · rw [ih hnodup.2]

theorem removeclient_eq_filter {clients : List Client} (hnodup : (clients.map Client.id).Nodup)
    (id : ℤ) : removeclient clients id = clients.filter fun client => client.id ≠ id := by
  induction clients with
  | nil => rfl
  | cons client clients ih =>
    rw [List.map_cons, List.nodup_cons] at hnodup
    by_cases hid : client.id = id
    · rw [removeclient, List.eraseP_cons_of_pos (by simpa using hid),
        List.filter_cons_of_neg (by simpa using hid), eq_comm, List.filter_eq_self]
      intro client' hmem
      rw [decide_eq_true_eq]
      rintro rfl
      exact hnodup.1 (hid ▸ List.mem_map_of_mem hmem)
    · rw [List.filter_cons_of_pos (by simpa using hid), ← ih hnodup.2, removeclient,
        List.eraseP_cons_of_neg (by simpa using hid), removeclient]

/-! ## One request -/

theorem paired_cons (m : Message) (past : List Message) (pid : ℤ) :
    paired (m :: past) pid = true ↔
      ¬ ((m.type = INIT ∨ m.type = DISCONNECT) ∧ m.sender_pid = pid) ∧
        ((m.type = CONNECT ∧ Free past m.sender_pid ∧ Free past (parseInt m.message_text) ∧
          (pid = m.sender_pid ∨ pid = parseInt m.message_text)) ∨ paired past pid = true) := by
  rw [paired]
  simp only [Free]
  split_ifs with hevent hconnect
  · simp [hevent]
  · simp only [true_iff]
    exact ⟨hevent, .inl hconnect⟩
  · tauto

/-- What the table keeps from request to request. -/
structure Kept (clients : List Client) (past : List Message) : Prop where
  entries : clients.map (fun client => (client.id, client.pqd)) = registrations past.reverse
  once : (clients.map Client.id).Nodup
  active : ∀ client ∈ clients, client.active = false ↔ paired past client.id = true
  pqd_nonneg : ∀ client ∈ clients, 0 ≤ client.pqd

section Kept

variable {clients clients' : List Client} {past : List Message} {request : Request}

theorem Kept.registered_iff (h : Kept clients past) (pid : ℤ) :
    Registered clients pid ↔ pid ∈ (registrations past.reverse).map Prod.fst := by
  rw [← h.entries, List.map_map]
  rfl

theorem Kept.busy_iff (h : Kept clients past) {pid : ℤ} (hpid : Registered clients pid) :
    Busy clients pid ↔ paired past pid = true := by
  obtain ⟨client, hmem, rfl⟩ := List.mem_map.mp hpid
  have hfind : clients.find? (fun client' => client'.id = client.id) = some client := by
    cases hfirst : clients.find? fun client' => client'.id = client.id with
    | none =>
      have hnone := List.find?_eq_none.mp hfirst client hmem
      simp at hnone
    | some first =>
      have hid : first.id = client.id := by simpa using List.find?_some hfirst
      rw [List.inj_on_of_nodup_map h.once (List.mem_of_find?_eq_some hfirst) hmem hid]
  rw [← h.active client hmem]
  constructor
  · rintro ⟨client', hfind', hactive⟩
    obtain rfl := Option.some.inj (hfind.symm.trans hfind')
    exact hactive
  · exact fun hactive => ⟨client, hfind, hactive⟩

theorem Kept.free (h : Kept clients past) (pid : ℤ) : find clients pid ≠ -1 ↔ Free past pid := by
  constructor
  · intro hfind
    obtain ⟨hregistered, hbusy⟩ := registered_of_find hfind
    rw [h.busy_iff hregistered, Bool.not_eq_true] at hbusy
    exact ⟨(h.registered_iff pid).mp hregistered, hbusy⟩
  · rintro ⟨hmem, hpaired⟩
    have hregistered := (h.registered_iff pid).mpr hmem
    obtain ⟨client, hclient, _, hfind⟩ := find_of_registered hregistered (by
      rw [h.busy_iff hregistered, hpaired]
      exact Bool.false_ne_true)
    have hpqd := h.pqd_nonneg client hclient
    rw [hfind]
    omega

theorem Kept.records (h : Kept clients past) : Records clients past :=
  ⟨h.entries, h.once, h.active, h.free⟩

theorem Kept.of_flags (h : Kept clients past) {m : Message} (hinit : m.type ≠ INIT)
    (hstop : m.type ≠ STOP) (flag : Client → Bool)
    (hflag : ∀ client ∈ clients, flag client = false ↔ paired (m :: past) client.id = true) :
    Kept (clients.map fun client => { client with active := flag client }) (m :: past) := by
  have hids : (clients.map fun client => { client with active := flag client }).map Client.id =
      clients.map Client.id := by
    rw [List.map_map]
    rfl
  refine ⟨?_, ?_, ?_, ?_⟩
  · rw [List.reverse_cons, registrations_append_other _ hinit hstop, ← h.entries, List.map_map]
    rfl
  · rw [hids]
    exact h.once
  · intro client hmem
    obtain ⟨client', hmem', rfl⟩ := List.mem_map.mp hmem
    exact hflag client' hmem'
  · intro client hmem
    obtain ⟨client', hmem', rfl⟩ := List.mem_map.mp hmem
    exact h.pqd_nonneg client' hmem'

theorem Kept.of_same (h : Kept clients past) {m : Message} (hinit : m.type ≠ INIT)
    (hstop : m.type ≠ STOP)
    (hpaired : ∀ client ∈ clients, paired (m :: past) client.id = true ↔
      paired past client.id = true) : Kept clients (m :: past) := by
  have hsame := h.of_flags hinit hstop Client.active fun client hmem => by
    rw [h.active client hmem, hpaired client hmem]
  simpa using hsame

theorem Kept.init (h : Kept clients past) {m : Message} (hm : m.type = INIT)
    (hfresh : ¬ Registered clients m.sender_pid) (hpqd : 0 ≤ parseInt m.message_text) :
    Kept (clients ++ [⟨parseInt m.message_text, m.sender_pid, true⟩]) (m :: past) := by
  refine ⟨?_, ?_, ?_, ?_⟩
  · rw [List.reverse_cons, registrations_append_init _ hm, List.map_append, h.entries]
    rfl
  · rw [List.map_append, List.nodup_append]
    refine ⟨h.once, by simp, ?_⟩
    rintro pid hpid _ hnew rfl
    obtain rfl := List.mem_singleton.mp hnew
    exact hfresh hpid
  · intro client hmem
    rw [paired_cons]
    rcases List.mem_append.mp hmem with hmem | hmem
    · have hne : m.sender_pid ≠ client.id := by
        intro heq
        exact hfresh (heq ▸ List.mem_map_of_mem hmem)
      have hconnect : m.type ≠ CONNECT := by
        rw [hm]
        decide
      simp only [hne, and_false, not_false_eq_true, true_and, hconnect, false_and, false_or]
      exact h.active client hmem
    · obtain rfl := List.mem_singleton.mp hmem
      simp [hm]
  · intro client hmem
    rcases List.mem_append.mp hmem with hmem | hmem
    · exact h.pqd_nonneg client hmem
    · obtain rfl := List.mem_singleton.mp hmem
      exact hpqd

theorem Kept.stop (h : Kept clients past) {m : Message} (hm : m.type = STOP) :
    Kept (removeclient clients m.sender_pid) (m :: past) := by
  have hother : m.type ≠ INIT ∧ m.type ≠ DISCONNECT ∧ m.type ≠ CONNECT := by
    rw [hm]
    decide
  rw [removeclient_eq_filter h.once]
  refine ⟨?_, ?_, ?_, ?_⟩
  · rw [List.reverse_cons, registrations_append_stop _ hm, ← h.entries, List.filter_map]
    rfl
  · exact h.once.sublist (List.filter_sublist.map _)
  · intro client hmem
    rw [paired_cons, h.active client (List.mem_of_mem_filter hmem)]
    tauto
  · exact fun client hmem => h.pqd_nonneg client (List.mem_of_mem_filter hmem)

theorem Kept.disconnect (h : Kept clients past) {m : Message} (hm : m.type = DISCONNECT) :
    Kept (setActive clients m.sender_pid true) (m :: past) := by
  have hother : m.type ≠ INIT ∧ m.type ≠ STOP ∧ m.type ≠ CONNECT := by
    rw [hm]
    decide
  have hflags := h.of_flags hother.1 hother.2.1
    (fun client => if client.id = m.sender_pid then true else client.active)
    fun client hmem => by
      rw [paired_cons, ← h.active client hmem]
      split_ifs with hid
      · simp [hm, hid]
      · tauto
  rw [setActive_eq_map h.once]
  convert hflags using 3
  split_ifs <;> rfl

theorem Kept.connect (h : Kept clients past) {m : Message} (hm : m.type = CONNECT)
    (hnamed : Free past (parseInt m.message_text)) (hsender : Free past m.sender_pid) :
    Kept (deactivate (deactivate clients (parseInt m.message_text)) m.sender_pid) (m :: past) := by
  have hother : m.type ≠ INIT ∧ m.type ≠ STOP ∧ m.type ≠ DISCONNECT := by
    rw [hm]
    decide
  have hflags := h.of_flags hother.1 hother.2.1
    (fun client => if client.id = m.sender_pid ∨ client.id = parseInt m.message_text
      then false else client.active)
    fun client hmem => by
      rw [paired_cons, ← h.active client hmem]
      split_ifs with hid <;> tauto
  have honce : ((setActive clients (parseInt m.message_text) false).map Client.id).Nodup := by
    rw [ids_setActive]
    exact h.once
  rw [deactivate, deactivate, setActive_eq_map honce, setActive_eq_map h.once, List.map_map]
  convert hflags using 3
  simp only [Function.comp_apply]
  split_ifs <;> first | rfl | tauto

theorem Kept.handleRequest {getpid : ℤ} (h : Kept clients past) (hfresh : Fresh clients request)
    (hrun : handleRequest getpid clients request = some clients') :
    Kept clients' (request.message :: past) := by
  unfold SystemV.handleRequest at hrun
  split at hrun
  · rename_i table sends hhandle
    split_ifs at hrun with hanswered
    obtain rfl := Option.some.inj hrun
    unfold handle at hhandle
    split_ifs at hhandle with hinit hconnect hlist hdisconnect hstop
    · obtain ⟨rfl, rfl⟩ := Prod.mk.inj (Option.some.inj hhandle)
      simp only [answered, List.all_cons, List.all_nil, Bool.and_true, decide_eq_true_eq] at hanswered
      exact h.init hinit (hfresh hinit) hanswered.1
    · obtain heffect := Option.some.inj hhandle
      rcases handleConnect_cases getpid clients request.message with
        ⟨hfails, heq⟩ | ⟨hnamed, hsender, heq⟩
      · obtain ⟨rfl, rfl⟩ := Prod.mk.inj (heq.symm.trans heffect)
        apply h.of_same hinit (by rw [hconnect]; decide)
        intro client _
        rw [paired_cons]
        have hnotFree : ¬ (Free past request.message.sender_pid ∧
            Free past (parseInt request.message.message_text)) := by
          rw [← h.free, ← h.free]
          tauto
        have hother : ¬ (request.message.type = INIT ∨ request.message.type = DISCONNECT) := by
          rw [hconnect]
          decide
        tauto
      · obtain ⟨rfl, rfl⟩ := Prod.mk.inj (heq.symm.trans heffect)
        exact h.connect hconnect ((h.free _).mp hnamed) ((h.free _).mp hsender)
    · obtain ⟨rfl, rfl⟩ := Prod.mk.inj (handleList_eq_some hhandle).2
      apply h.of_same hinit (by rw [hlist]; decide)
      intro client _
      rw [paired_cons]
      have hother : ¬ (request.message.type = INIT ∨ request.message.type = DISCONNECT) := by
        rw [hlist]
        decide
      tauto
    · obtain ⟨rfl, rfl⟩ := Prod.mk.inj (Option.some.inj hhandle)
      exact h.disconnect hdisconnect
    · obtain ⟨rfl, rfl⟩ := Prod.mk.inj (Option.some.inj hhandle)
      exact h.stop hstop
  · cases hrun

/-- A run of requests, from a table with a history of its own. -/
theorem Kept.run {getpid : ℤ} {requests : List Request} (h : Kept clients past)
    (hfresh : Along (SystemV.handleRequest getpid) Fresh clients requests)
    (hrun : exec (SystemV.handleRequest getpid) clients requests = some clients') :
    Kept clients' ((requests.map Request.message).reverse ++ past) := by
  induction requests generalizing clients past with
  | nil =>
    obtain rfl := Option.some.inj hrun
    exact h
  | cons request requests ih =>
    obtain ⟨table, hstep, hrun⟩ := exec_cons_eq_some.mp hrun
    have hrest := ih (h.handleRequest hfresh.1 hstep) (hfresh.2 table hstep) hrun
    rwa [List.map_cons, List.reverse_cons, List.append_assoc, List.singleton_append]

end Kept

/-- As long as no pid registers again while it is in the table, the table says what the
handled requests do. -/
theorem table_records (getpid : ℤ) (requests : List Request) (clients : List Client)
    (hrun : exec (handleRequest getpid) [] requests = some clients)
    (hfresh : Along (handleRequest getpid) Fresh [] requests) :
    Records clients (requests.map Request.message).reverse := by
  have hstart : Kept [] [] := by
    refine ⟨rfl, List.nodup_nil, ?_, ?_⟩ <;> simp
  have hkept := hstart.run hfresh hrun
  rw [List.append_nil] at hkept
  exact hkept.records

/-- Two clients register, are paired, and the first one stops. -/
def twoClients : List Request :=
  [⟨⟨INIT, 10, decimal 3⟩, fun _ => true⟩, ⟨⟨INIT, 11, decimal 4⟩, fun _ => true⟩,
    ⟨⟨CONNECT, 10, decimal 11⟩, fun _ => true⟩, ⟨⟨STOP, 10, []⟩, fun _ => true⟩]

theorem table_records_twoClients :
    Records [⟨4, 11, false⟩] (twoClients.map Request.message).reverse :=
  table_records 1 twoClients _ (by decide +kernel) (by
    refine ⟨fun _ => by decide, fun t ht => ⟨fun _ => ?_, fun u hu => ⟨?_, ?_⟩⟩⟩
    · obtain rfl : t = [⟨3, 10, true⟩] := by
        rw [← Option.some.injEq, ← ht]
        decide +kernel
      decide
    · intro h
      exact absurd h (by decide)
    · intro v _
      exact ⟨fun h => absurd h (by decide), fun _ _ => trivial⟩)

end Sysopy.Chat.SystemV
