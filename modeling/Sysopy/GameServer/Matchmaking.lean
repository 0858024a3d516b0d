import Sysopy.GameServer.Game
import Sysopy.Library.Transition

/-!
# Matchmaking of the server

The table `clients` and the critical section of `accepting_routine`:
`check_username`, `create_client` and `connect_pending` up to its unlock. The
flag `playing` is left as it is when a slot is released and set again when the
slot is reused, so the facts below tie all three fields of a slot together.
-/
namespace Sysopy.GameServer

open Transition

structure Client where
  taken : Bool
  playing : Bool
  name : Name
  socket_fd : ℤ
  deriving DecidableEq

abbrev Clients := Slot → Client

/-- `init_clients` on the zeroed global table. -/
def initClients : Clients := fun _ => ⟨false, false, Vector.replicate _ 0, 0⟩

/-- `clients[i].playing = playing`. -/
def Clients.mark (clients : Clients) (i : Slot) (playing : Bool) : Clients :=
  Function.update clients i { clients i with playing := playing }

/-- `clients[id].taken = false`, the first statement of `disconnect_client`. -/
def Clients.release (clients : Clients) (id : Slot) : Clients :=
  Function.update clients id { clients id with taken := false }

/-- The first slot, in the order of the loops over the table, with a property. -/
def firstSlot (p : Slot → Bool) : Option Slot := (List.finRange MAX_CLIENT_COUNT).find? p

theorem firstSlot_some {p : Slot → Bool} {i : Slot} (h : firstSlot p = some i) : p i = true :=
  List.find?_some h

theorem firstSlot_none {p : Slot → Bool} (h : firstSlot p = none) (i : Slot) : p i = false := by
  have hi := List.find?_eq_none.mp h i (List.mem_finRange i)
  simpa using hi

/-- The comparison of `check_username` with one slot. -/
def sameName (client : Client) (msg : Message) : Bool :=
  client.taken && CString.strncmp msg.name.toList client.name.toList == 0

/-- `check_username` fails when a taken slot holds the name. -/
def checkUsername (clients : Clients) (msg : Message) : Bool :=
  (firstSlot fun i => sameName (clients i) msg).isNone

/-- The name that `create_client` stores. -/
def copiedName (msg : Message) : Name :=
  ⟨(CString.strncpy CLIENT_NAME_LEN msg.name.toList).toArray, by
    simp [CString.length_strncpy]⟩

def createClient (clients : Clients) (client_fd : ℤ) (msg : Message) : Option (Clients × Slot) :=
  (firstSlot fun i => !(clients i).taken).map fun i =>
    (Function.update clients i ⟨true, true, copiedName msg, client_fd⟩, i)

/-- `connect_pending` up to the unlock: the waiting slot it marks, or none. -/
def connectPending (clients : Clients) (id : Slot) : Clients × Option Slot :=
  match firstSlot fun i => (clients i).taken && !(clients i).playing with
  | some i => (clients.mark i true, some i)
  | none => (clients.mark id false, none)

/-- How the critical section ends for the newcomer. -/
inductive Admission
  | nameTaken
  | waits (id : Slot)
  | paired (i id : Slot)
  deriving DecidableEq

/-- The critical section of `accepting_routine`. Without a result the server
has left through `ERROR_MSG`: it is full, or the first message was no CONNECT. -/
def acceptingRoutine (clients : Clients) (client_fd : ℤ) (msg : Message) : Option (Clients × Admission) :=
  if msg.type ≠ .msgConnect then none
  else if checkUsername clients msg = false then some (clients, .nameTaken)
  else
    match createClient clients client_fd msg with
    | none => none
    | some (created, id) =>
      match connectPending created id with
      | (paired, some i) => some (paired, .paired i id)
      | (waiting, none) => some (waiting, .waits id)

/-- A newcomer enters the critical section, or `disconnect_client` clears the
flag of some slot. -/
inductive TableAction
  | accepts (client_fd : ℤ) (msg : Message)
  | releases (id : Slot)

def tableStep (clients : Clients) : TableAction → Option Clients
  | .accepts client_fd msg => (acceptingRoutine clients client_fd msg).map Prod.fst
  | .releases id => some (clients.release id)

/-! ## The invariant -/

/-- A taken slot that no game has claimed. -/
def Waiting (clients : Clients) (i : Slot) : Prop :=
  (clients i).taken = true ∧ (clients i).playing = false

/-- The name as a string of at most `CLIENT_NAME_LEN` characters. -/
def Client.nickname (client : Client) : List CChar := CString.contents client.name.toList

def DistinctNames (clients : Clients) : Prop :=
  ∀ i j, i ≠ j → (clients i).taken = true → (clients j).taken = true →
    (clients i).nickname ≠ (clients j).nickname

structure TableInv (clients : Clients) : Prop where
  waiting : ∀ i j, Waiting clients i → Waiting clients j → i = j
  names : DistinctNames clients

theorem tableInv_initClients : TableInv initClients where
  waiting i _ hi := absurd hi.1 (by simp [initClients])
  names i _ _ hi := absurd hi (by simp [initClients])

theorem contents_copiedName (msg : Message) :
    CString.contents (copiedName msg).toList = CString.contents msg.name.toList :=
  CString.contents_strncpy _ (by simp)

theorem nickname_ne_of_checkUsername {clients : Clients} {msg : Message}
    (h : checkUsername clients msg = true) {i : Slot} (hi : (clients i).taken = true) :
    (clients i).nickname ≠ CString.contents msg.name.toList := by
  have hnone := firstSlot_none (Option.isNone_iff_eq_none.mp h) i
  intro heq
  have hcmp := (CString.strncmp_eq_zero_iff msg.name.toList (clients i).name.toList
    (by simp)).mpr heq.symm
  simp [sameName, hi, hcmp] at hnone

theorem createClient_spec {clients created : Clients} {client_fd : ℤ} {msg : Message} {id : Slot}
    (h : createClient clients client_fd msg = some (created, id)) :
    (clients id).taken = false ∧
      created = Function.update clients id ⟨true, true, copiedName msg, client_fd⟩ := by
  simp only [createClient, Option.map_eq_some_iff, Prod.mk.injEq] at h
  obtain ⟨i, hi, rfl, rfl⟩ := h
  exact ⟨by simpa using firstSlot_some hi, rfl⟩

/-- `connect_pending` claims a waiting slot, or makes `id` wait when there is none. -/
theorem connectPending_cases (clients : Clients) (id : Slot) :
    (∃ i, Waiting clients i ∧ connectPending clients id =
      (clients.mark i true, some i)) ∨
    ((∀ i, ¬ Waiting clients i) ∧ connectPending clients id =
      (clients.mark id false, none)) := by
  cases hfirst : firstSlot fun i => (clients i).taken && !(clients i).playing with
  | some i =>
    refine Or.inl ⟨i, ?_, by simp only [connectPending, hfirst]⟩
    simpa [Waiting] using firstSlot_some hfirst
  | none =>
    refine Or.inr ⟨fun i hi => ?_, by simp only [connectPending, hfirst]⟩
    have hi' := firstSlot_none hfirst i
    simp [hi.1, hi.2] at hi'

/-- Everything the critical section can do when it does not end the server. -/
theorem acceptingRoutine_cases {clients clients' : Clients} {client_fd : ℤ} {msg : Message} {a : Admission}
    (h : acceptingRoutine clients client_fd msg = some (clients', a)) :
    (a = .nameTaken ∧ clients' = clients) ∨
    ∃ (id : Slot) (created : Clients), checkUsername clients msg = true ∧ (clients id).taken = false ∧
      created = Function.update clients id ⟨true, true, copiedName msg, client_fd⟩ ∧
      ((∃ i, a = .paired i id ∧ Waiting created i ∧
        clients' = created.mark i true) ∨
      (a = .waits id ∧ (∀ i, ¬ Waiting created i) ∧
        clients' = created.mark id false)) := by
  unfold acceptingRoutine at h
  split_ifs at h with htype hname
  · simp only [Option.some.injEq, Prod.mk.injEq] at h
    exact Or.inl ⟨h.2.symm, h.1.symm⟩
  · cases hcreate : createClient clients client_fd msg with
    | none => simp [hcreate] at h
    | some result =>
      obtain ⟨created, id⟩ := result
      obtain ⟨hfree, hcreated⟩ := createClient_spec hcreate
      refine Or.inr ⟨id, created, by simpa using hname, hfree, hcreated, ?_⟩
      rcases connectPending_cases created id with ⟨i, hi, hpending⟩ | ⟨hnone, hpending⟩
      · simp only [hcreate, hpending, Option.some.injEq, Prod.mk.injEq] at h
        exact Or.inl ⟨i, h.2.symm, hi, h.1.symm⟩
      · simp only [hcreate, hpending, Option.some.injEq, Prod.mk.injEq] at h
        exact Or.inr ⟨h.2.symm, hnone, h.1.symm⟩

theorem waiting_created_iff {clients : Clients} {id : Slot} {name : Name} {fd : ℤ} {i : Slot} :
    Waiting (Function.update clients id ⟨true, true, name, fd⟩) i ↔
      i ≠ id ∧ Waiting clients i := by
  by_cases h : i = id
  · subst h
    simp [Waiting]
  · simp [Waiting, h]

@[simp] theorem Clients.mark_taken (clients : Clients) (i : Slot) (b : Bool) (j : Slot) :
    (clients.mark i b j).taken = (clients j).taken := by
  by_cases h : j = i
  · subst h
    simp [Clients.mark]
  · simp [Clients.mark, h]

@[simp] theorem Clients.mark_nickname (clients : Clients) (i : Slot) (b : Bool) (j : Slot) :
    (clients.mark i b j).nickname = (clients j).nickname := by
  by_cases h : j = i
  · subst h
    simp [Clients.mark, Client.nickname]
  · simp [Clients.mark, h]

@[simp] theorem Clients.mark_playing (clients : Clients) (i : Slot) (b : Bool) (j : Slot) :
    (clients.mark i b j).playing = if j = i then b else (clients j).playing := by
  by_cases h : j = i
  · subst h
    simp [Clients.mark]
  · simp [Clients.mark, h]

theorem distinctNames_mark {clients : Clients} (i : Slot) (b : Bool) (h : DistinctNames clients) :
    DistinctNames (clients.mark i b) := by
  intro j k hjk hj hk
  simp only [Clients.mark_taken, Clients.mark_nickname] at hj hk ⊢
  exact h j k hjk hj hk

theorem distinctNames_created {clients : Clients} (h : DistinctNames clients) {msg : Message}
    (hname : checkUsername clients msg = true) (id : Slot) (fd : ℤ) :
    DistinctNames (Function.update clients id ⟨true, true, copiedName msg, fd⟩) := by
  have hnew : ∀ k, (clients k).taken = true → (clients k).nickname ≠
      Client.nickname ⟨true, true, copiedName msg, fd⟩ := by
    intro k hk
    rw [Client.nickname, Client.nickname, contents_copiedName]
    exact nickname_ne_of_checkUsername hname hk
  intro i j hij hi hj
  by_cases hid : i = id
  · subst hid
    rw [Function.update_of_ne (Ne.symm hij)] at hj ⊢
    rw [Function.update_self]
    exact Ne.symm (hnew j hj)
  · rw [Function.update_of_ne hid] at hi ⊢
    by_cases hjd : j = id
    · subst hjd
      rw [Function.update_self]
      exact hnew i hi
    · rw [Function.update_of_ne hjd] at hj ⊢
      exact h i j hij hi hj

theorem TableInv.acceptingRoutine {clients clients' : Clients} {client_fd : ℤ} {msg : Message}
    {a : Admission} (h : TableInv clients)
    (ha : acceptingRoutine clients client_fd msg = some (clients', a)) : TableInv clients' := by
  rcases acceptingRoutine_cases ha with ⟨_, rfl⟩ | ⟨id, created, hname, _, hcreated, hcase⟩
  · exact h
  · have hnames : DistinctNames created := hcreated ▸ distinctNames_created h.names hname id client_fd
    rcases hcase with ⟨i, _, hi, rfl⟩ | ⟨_, hnone, rfl⟩
    · -- the waiting slot joins the newcomer, and nobody waits any more
      refine ⟨fun j k hj _ => ?_, distinctNames_mark i true hnames⟩
      obtain ⟨htaken, hplaying⟩ := hj
      simp only [Clients.mark_taken, Clients.mark_playing] at htaken hplaying
      split_ifs at hplaying with hji
      have hj' : Waiting created j := ⟨htaken, hplaying⟩
      rw [hcreated, waiting_created_iff] at hi hj'
      exact absurd (h.waiting j i hj'.2 hi.2) hji
    · -- nobody was waiting, so the newcomer is the only one
      refine ⟨fun j k hj hk => ?_, distinctNames_mark id false hnames⟩
      have honly : ∀ j, Waiting (created.mark id false) j → j = id := by
        rintro j ⟨htaken, hplaying⟩
        by_contra hne
        simp only [Clients.mark_taken, Clients.mark_playing, if_neg hne] at htaken hplaying
        exact hnone j ⟨htaken, hplaying⟩
      rw [honly j hj, honly k hk]

theorem Clients.release_of_taken {clients : Clients} {id j : Slot}
    (h : (clients.release id j).taken = true) : clients.release id j = clients j := by
  by_cases hid : j = id
  · subst hid
    simp [Clients.release] at h
  · simp [Clients.release, hid]

theorem TableInv.release {clients : Clients} (h : TableInv clients) (id : Slot) :
    TableInv (clients.release id) := by
  refine ⟨fun i j hi hj => ?_, fun i j hij hi hj => ?_⟩
  · have hi' : Waiting clients i := by
      rw [Waiting, ← Clients.release_of_taken hi.1]
      exact hi
    have hj' : Waiting clients j := by
      rw [Waiting, ← Clients.release_of_taken hj.1]
      exact hj
    exact h.waiting i j hi' hj'
  · have hi' := Clients.release_of_taken hi
    have hj' := Clients.release_of_taken hj
    rw [hi', hj']
    exact h.names i j hij (hi' ▸ hi) (hj' ▸ hj)

theorem TableInv.tableStep {clients clients' : Clients} {a : TableAction} (h : TableInv clients)
    (hstep : tableStep clients a = some clients') : TableInv clients' := by
  cases a with
  | accepts client_fd msg =>
    simp only [Sysopy.GameServer.tableStep, Option.map_eq_some_iff] at hstep
    obtain ⟨⟨admitted, a⟩, ha, rfl⟩ := hstep
    exact h.acceptingRoutine ha
  | releases id =>
    simp only [Sysopy.GameServer.tableStep, Option.some.injEq] at hstep
    exact hstep ▸ h.release id

/-- What a pairing means at the step that makes it: two different slots, both
taken and marked, and the first was the one that waited. -/
theorem TableInv.paired {clients clients' : Clients} {client_fd : ℤ} {msg : Message} {i id : Slot}
    (h : TableInv clients)
    (ha : GameServer.acceptingRoutine clients client_fd msg = some (clients', .paired i id)) :
    i ≠ id ∧ ((clients' i).taken = true ∧ (clients' i).playing = true) ∧
      ((clients' id).taken = true ∧ (clients' id).playing = true) ∧
      ∀ j, Waiting clients j ↔ j = i := by
  rcases acceptingRoutine_cases ha with
    ⟨hpair, _⟩ | ⟨id', created, _, hfree, hcreated, ⟨i', hpair, hi, rfl⟩ | ⟨hpair, _⟩⟩
  · cases hpair
  · cases hpair
    have htaken : (created i).taken = true := hi.1
    have hwait := hi
    rw [hcreated, waiting_created_iff] at hwait
    refine ⟨hwait.1, ⟨by simpa using htaken, by simp⟩, ⟨?_, ?_⟩, fun j => ⟨fun hj => ?_, ?_⟩⟩
    · simp [hcreated]
    · simp [hcreated]
    · exact h.waiting j i hj hwait.2
    · rintro rfl
      exact hwait.2
  · cases hpair

/-- In every reachable table at most one slot waits, names are distinct, and a
pairing joins the waiting slot with another one. -/
theorem matchmaking_safe (schedule : List TableAction) (clients : Clients)
    (hrun : exec tableStep initClients schedule = some clients) :
    (∀ i j, Waiting clients i → Waiting clients j → i = j) ∧
    (∀ i j, i ≠ j → (clients i).taken = true → (clients j).taken = true →
      (clients i).nickname ≠ (clients j).nickname) ∧
    ∀ client_fd msg clients' i id,
      acceptingRoutine clients client_fd msg = some (clients', .paired i id) →
      i ≠ id ∧ ((clients' i).taken = true ∧ (clients' i).playing = true) ∧
        ((clients' id).taken = true ∧ (clients' id).playing = true) ∧
        ∀ j, Waiting clients j ↔ j = i := by
  have h : TableInv clients :=
    exec_invariant' (fun _ _ _ hs h => hs.tableStep h) tableInv_initClients hrun
  exact ⟨h.waiting, h.names, fun _ _ _ _ _ ha => h.paired ha⟩

/-- A CONNECT message with a one-letter name. -/
def connectMessage (letter : CChar) : Message :=
  ⟨fun k => if k = 0 then letter else 0, .msgConnect⟩

/-- Two players arrive, the first leaves its slot, and a third one arrives. -/
theorem matchmaking_safe_three :
    ∃ clients, exec tableStep initClients [.accepts 4 (connectMessage 65),
        .accepts 5 (connectMessage 66), .releases 0, .accepts 6 (connectMessage 67)] =
          some clients ∧
      ∀ i j, Waiting clients i → Waiting clients j → i = j := by
  obtain ⟨clients, hrun⟩ := Option.isSome_iff_exists.mp (by decide +kernel :
    (exec tableStep initClients [.accepts 4 (connectMessage 65),
      .accepts 5 (connectMessage 66), .releases 0, .accepts 6 (connectMessage 67)]).isSome = true)
  exact ⟨clients, hrun, (matchmaking_safe _ _ hrun).1⟩

end Sysopy.GameServer
