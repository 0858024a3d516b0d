import Sysopy.Chat.Message

/-!
# The System V chat server

The handlers of the server on its table of clients. A handler returns the new
table and the messages it sends with `MSGSND`, in order, each with the descriptor
of the queue it is meant for.
-/
namespace Sysopy.Chat.SystemV

open CInteger

abbrev STOP : ℤ := 1
abbrev DISCONNECT : ℤ := 2
abbrev LIST : ℤ := 3
abbrev CONNECT : ℤ := 4
abbrev INIT : ℤ := 5

/-- `struct client`. -/
structure Client where
  pqd : ℤ
  id : ℤ
  active : Bool
  deriving DecidableEq, Repr

/-- The descriptor of a client, or `-1` for a client that is unknown or busy. -/
def find (clients : List Client) (id : ℤ) : ℤ :=
  match clients.find? fun client => client.id = id with
  | some client => if !client.active then -1 else client.pqd
  | none => -1

/-- The first client with this id is marked. -/
def setActive (clients : List Client) (id : ℤ) (active : Bool) : List Client :=
  match clients with
  | [] => []
  | client :: clients =>
    if client.id = id then { client with active := active } :: clients
    else client :: setActive clients id active

def deactivate (clients : List Client) (id : ℤ) : List Client := setActive clients id false

def removeclient (clients : List Client) (id : ℤ) : List Client :=
  clients.eraseP fun client => client.id = id

/-- What a handler does: the table and the calls of `MSGSND`. -/
abbrev Effect := List Client × List (ℤ × Message)

variable (getpid : ℤ)

def handleInit (clients : List Client) (message : Message) : Effect :=
  let pqd := parseInt message.message_text
  (clients ++ [⟨pqd, message.sender_pid, true⟩],
    [(pqd, ⟨INIT, getpid, decimal message.sender_pid⟩)])

def handleConnect (clients : List Client) (message : Message) : Effect :=
  let id := parseInt message.message_text
  let pqd := find clients id
  let fqd := find clients message.sender_pid
  if pqd = -1 ∨ fqd = -1 then (clients, [(fqd, message)])
  else
    (deactivate (deactivate clients id) message.sender_pid,
      [(fqd, ⟨message.type, getpid, decimal pqd⟩), (pqd, ⟨message.type, getpid, decimal fqd⟩)])

def handleDisconnect (clients : List Client) (message : Message) : Effect :=
  (setActive clients message.sender_pid true, [])

/-- The lines of the other clients. -/
def listText (clients : List Client) (sender_pid : ℤ) : List UInt8 :=
  utf8 "––– LIST OF AVAILABLE CLIENTS –––\n\n" ++ utf8 "ID\tPQD\tACTIVE\n" ++
    (clients.filter fun client => client.id ≠ sender_pid).flatMap (fun client =>
      decimal client.id ++ utf8 "\t" ++ decimal client.pqd ++
        (if client.active then utf8 "\tyes\n" else utf8 "\tno\n")) ++
    utf8 "\n\n"

/-- `none` when the calls of `strcat` run over the end of `message_text`. -/
def handleList (clients : List Client) (message : Message) : Option Effect :=
  let pqd := find clients message.sender_pid
  if (listText clients message.sender_pid).length < MSG_SIZE then
    some (clients, [(pqd, ⟨LIST, getpid, listText clients message.sender_pid⟩)])
  else none

def handleStop (clients : List Client) (message : Message) : Effect :=
  (removeclient clients message.sender_pid, [])

/-- The `switch` of `main`; an unknown type ends the server. -/
def handle (clients : List Client) (message : Message) : Option Effect :=
  if message.type = INIT then some (handleInit getpid clients message)
  else if message.type = CONNECT then some (handleConnect getpid clients message)
  else if message.type = LIST then handleList getpid clients message
  else if message.type = DISCONNECT then some (handleDisconnect clients message)
  else if message.type = STOP then some (handleStop clients message)
  else none

/-! ## `LIST` -/

theorem handle_list (getpid : ℤ) (clients : List Client) {message : Message}
    (htype : message.type = LIST) :
    handle getpid clients message = handleList getpid clients message := by
  rw [handle, if_neg (by rw [htype]; decide), if_neg (by rw [htype]; decide), if_pos htype]

theorem handleList_eq_some {getpid : ℤ} {clients : List Client} {message : Message}
    {effect : Effect} (h : handleList getpid clients message = some effect) :
    (listText clients message.sender_pid).length < MSG_SIZE ∧
      effect = (clients, [(find clients message.sender_pid,
        ⟨LIST, getpid, listText clients message.sender_pid⟩)]) := by
  unfold handleList at h
  split_ifs at h with hfits
  exact ⟨hfits, (Option.some.inj h).symm⟩

/-! ## `CONNECT` -/

theorem handle_connect (getpid : ℤ) (clients : List Client) {message : Message}
    (htype : message.type = CONNECT) :
    handle getpid clients message = some (handleConnect getpid clients message) := by
  rw [handle, if_neg (by rw [htype]; decide), if_pos htype]

theorem handleConnect_cases (getpid : ℤ) (clients : List Client) (message : Message) :
    let id := parseInt message.message_text
    let sender := message.sender_pid
    ((find clients id = -1 ∨ find clients sender = -1) ∧
      handleConnect getpid clients message = (clients, [(find clients sender, message)])) ∨
    (find clients id ≠ -1 ∧ find clients sender ≠ -1 ∧
      handleConnect getpid clients message = (deactivate (deactivate clients id) sender,
        [(find clients sender, ⟨message.type, getpid, decimal (find clients id)⟩),
          (find clients id, ⟨message.type, getpid, decimal (find clients sender)⟩)])) := by
  intro id sender
  unfold handleConnect
  by_cases h : find clients id = -1 ∨ find clients sender = -1
  · exact .inl ⟨h, if_pos h⟩
  · rw [not_or] at h
    exact .inr ⟨h.1, h.2, if_neg (not_or.mpr h)⟩

/-! ## The table -/

def Registered (clients : List Client) (id : ℤ) : Prop := id ∈ clients.map Client.id

/-- The client with this id is marked as busy. -/
def Busy (clients : List Client) (id : ℤ) : Prop :=
  ∃ client, clients.find? (fun client => client.id = id) = some client ∧ client.active = false

instance (clients : List Client) (id : ℤ) : Decidable (Registered clients id) :=
  inferInstanceAs (Decidable (_ ∈ _))

instance (clients : List Client) (id : ℤ) : Decidable (Busy clients id) :=
  match h : clients.find? fun client => client.id = id with
  | none => isFalse fun ⟨_, hfind, _⟩ => by rw [h] at hfind; cases hfind
  | some client => decidable_of_iff (client.active = false)
      ⟨fun hactive => ⟨client, h, hactive⟩, fun ⟨_, hfind, hactive⟩ => by
        rw [h, Option.some.injEq] at hfind
        exact hfind ▸ hactive⟩

theorem ids_setActive (clients : List Client) (id : ℤ) (active : Bool) :
    (setActive clients id active).map Client.id = clients.map Client.id := by
  induction clients with
  | nil => rfl
  | cons client clients ih =>
    unfold setActive
    split_ifs
    · rfl
    · rw [List.map_cons, ih, List.map_cons]

theorem setActive_comm (clients : List Client) (id id' : ℤ) (active : Bool) :
    setActive (setActive clients id active) id' active =
      setActive (setActive clients id' active) id active := by
  induction clients with
  | nil => rfl
  | cons client clients ih =>
    by_cases hid : client.id = id
    · by_cases hid' : client.id = id'
      · obtain rfl : id = id' := hid.symm.trans hid'
        rfl
      · have hne : id ≠ id' := fun h => hid' (hid.trans h)
        simp [setActive, hid, hne]
    · by_cases hid' : client.id = id'
      · have hne : id' ≠ id := fun h => hid (hid'.trans h)
        simp [setActive, hid', hne]
      · simp [setActive, hid, hid', ih]

theorem pqd_of_mem_setActive {clients : List Client} {id : ℤ} {active : Bool} {client : Client}
    (h : client ∈ setActive clients id active) :
    ∃ client' ∈ clients, client'.id = client.id ∧ client'.pqd = client.pqd := by
  induction clients with
  | nil => cases h
  | cons head clients ih =>
    unfold setActive at h
    split_ifs at h
    · rcases List.mem_cons.mp h with rfl | h
      · exact ⟨head, by simp, rfl, rfl⟩
      · exact ⟨client, by simp [h], rfl, rfl⟩
    · rcases List.mem_cons.mp h with rfl | h
      · exact ⟨client, by simp, rfl, rfl⟩
      · obtain ⟨client', hmem, heq⟩ := ih h
        exact ⟨client', by simp [hmem], heq⟩

/-- A registered client that is not busy is found. -/
theorem find_of_registered {clients : List Client} {id : ℤ} (h : Registered clients id)
    (hbusy : ¬ Busy clients id) : ∃ client ∈ clients, client.id = id ∧ find clients id = client.pqd := by
  cases hfind : clients.find? fun client => client.id = id with
  | none =>
    obtain ⟨client, hmem, hid⟩ := List.mem_map.mp h
    exact absurd hid (by simpa using List.find?_eq_none.mp hfind client hmem)
  | some client =>
    have hactive : client.active = true := by
      by_contra hinactive
      exact hbusy ⟨client, hfind, by simpa using hinactive⟩
    refine ⟨client, List.mem_of_find?_eq_some hfind, by simpa using List.find?_some hfind, ?_⟩
    simp [find, hfind, hactive]

theorem registered_of_find {clients : List Client} {id : ℤ} (h : find clients id ≠ -1) :
    Registered clients id ∧ ¬ Busy clients id := by
  cases hfind : clients.find? fun client => client.id = id with
  | none => simp [find, hfind] at h
  | some client =>
    have hactive : client.active = true := by
      by_contra hinactive
      simp [find, hfind, hinactive] at h
    refine ⟨List.mem_map.mpr ⟨client, List.mem_of_find?_eq_some hfind,
      by simpa using List.find?_some hfind⟩, ?_⟩
    rintro ⟨client', hfind', hinactive⟩
    rw [hfind, Option.some.injEq] at hfind'
    subst hfind'
    rw [hactive] at hinactive
    cases hinactive

theorem ids_removeclient (clients : List Client) (id : ℤ) :
    (removeclient clients id).map Client.id = (clients.map Client.id).erase id := by
  induction clients with
  | nil => rfl
  | cons client clients ih =>
    by_cases hid : client.id = id
    · simp [removeclient, hid]
    · simp only [removeclient] at ih ⊢
      rw [List.eraseP_cons_of_neg (by simpa using hid), List.map_cons, ih, List.map_cons,
        List.erase_cons_tail (by simpa using hid)]

theorem registered_removeclient {clients : List Client} (hnodup : (clients.map Client.id).Nodup)
    (id id' : ℤ) : Registered (removeclient clients id) id' ↔ Registered clients id' ∧ id' ≠ id := by
  rw [Registered, ids_removeclient, hnodup.mem_erase_iff, Registered, and_comm]

end Sysopy.Chat.SystemV
