import Sysopy.Chat.POSIX.Server
import Sysopy.Chat.SystemV.Server
import Sysopy.Library.Transition

/-!
# The two chat servers next to each other

Both servers keep a table of clients with a flag. An abstract table is a list of ids with
flags. The two versions make the same changes to it, but the POSIX server does not look at the
flags before it pairs two clients.
-/
namespace Sysopy.Chat

open CInteger Transition

/-- Ids and flags in the order of the table. -/
abbrev Table := List (ℤ × Bool)

namespace Table

/-- The first entry with this id gets the flag. -/
def mark : Table → ℤ → Bool → Table
  | [], _, _ => []
  | entry :: table, id, active =>
    if entry.1 = id then (id, active) :: table else entry :: mark table id active

def remove (table : Table) (id : ℤ) : Table := table.eraseP fun entry => entry.1 = id

/-- The first entry with this id is active. -/
def Free (table : Table) (id : ℤ) : Prop :=
  (table.find? fun entry => entry.1 = id) = some (id, true)

instance (table : Table) (id : ℤ) : Decidable (Free table id) :=
  inferInstanceAs (Decidable (_ = _))

end Table

/-! ## The tables of the servers -/

def POSIX.table (clients : List POSIX.Client) : Table :=
  clients.map fun client => (client.pid, client.active)

def SystemV.table (clients : List SystemV.Client) : Table :=
  clients.map fun client => (client.id, client.active)

section Tables

theorem POSIX.table_setActive (clients : List POSIX.Client) (pid : ℤ) (active : Bool) :
    POSIX.table (POSIX.setActive clients pid active) = (POSIX.table clients).mark pid active := by
  induction clients with
  | nil => rfl
  | cons client clients ih =>
    by_cases hpid : client.pid = pid
    · simp [POSIX.setActive, POSIX.table, Table.mark, hpid]
    · simp only [POSIX.table] at ih
      simp [POSIX.setActive, POSIX.table, Table.mark, hpid, ih]

theorem POSIX.pids_setActive (clients : List POSIX.Client) (pid : ℤ) (active : Bool) :
    (POSIX.setActive clients pid active).map POSIX.Client.pid = clients.map POSIX.Client.pid := by
  induction clients with
  | nil => rfl
  | cons client clients ih =>
    unfold POSIX.setActive
    split_ifs
    · rfl
    · rw [List.map_cons, ih, List.map_cons]

theorem POSIX.table_removeclient (clients : List POSIX.Client) (pid : ℤ) :
    POSIX.table (POSIX.removeclient clients pid) = (POSIX.table clients).remove pid := by
  rw [POSIX.table, POSIX.removeclient, POSIX.table, Table.remove, List.eraseP_map]
  rfl

theorem SystemV.table_setActive (clients : List SystemV.Client) (id : ℤ) (active : Bool) :
    SystemV.table (SystemV.setActive clients id active) = (SystemV.table clients).mark id active := by
  induction clients with
  | nil => rfl
  | cons client clients ih =>
    by_cases hid : client.id = id
    · simp [SystemV.setActive, SystemV.table, Table.mark, hid]
    · simp only [SystemV.table] at ih
      simp [SystemV.setActive, SystemV.table, Table.mark, hid, ih]

theorem SystemV.table_removeclient (clients : List SystemV.Client) (id : ℤ) :
    SystemV.table (SystemV.removeclient clients id) = (SystemV.table clients).remove id := by
  rw [SystemV.table, SystemV.removeclient, SystemV.table, Table.remove, List.eraseP_map]
  rfl

theorem SystemV.find?_table (clients : List SystemV.Client) (id : ℤ) :
    ((SystemV.table clients).find? fun entry => entry.1 = id) =
      (clients.find? fun client => client.id = id).map fun client => (client.id, client.active) := by
  rw [SystemV.table, List.find?_map]
  rfl

theorem SystemV.find_of_free {clients : List SystemV.Client} {id : ℤ}
    (h : (SystemV.table clients).Free id) : ∃ client ∈ clients, SystemV.find clients id = client.pqd := by
  rw [Table.Free, SystemV.find?_table, Option.map_eq_some_iff] at h
  obtain ⟨client, hfind, hclient⟩ := h
  refine ⟨client, List.mem_of_find?_eq_some hfind, ?_⟩
  rw [Prod.mk.injEq] at hclient
  simp [SystemV.find, hfind, hclient.2]

theorem SystemV.find_of_not_free {clients : List SystemV.Client} {id : ℤ}
    (h : ¬ (SystemV.table clients).Free id) : SystemV.find clients id = -1 := by
  rw [Table.Free, SystemV.find?_table] at h
  cases hfind : clients.find? fun client => client.id = id with
  | none => simp [SystemV.find, hfind]
  | some client =>
    have hid : client.id = id := by simpa using List.find?_some hfind
    cases hactive : client.active with
    | false => simp [SystemV.find, hfind, hactive]
    | true => exact absurd (by simp [hfind, hid, hactive]) h

/-- The System V server lists more of a client. -/
theorem length_listText_le {clients : List POSIX.Client} {clients' : List SystemV.Client}
    (h : POSIX.table clients = SystemV.table clients') (id : ℤ) :
    (POSIX.listText clients id).length ≤ (SystemV.listText clients' id).length := by
  have hheader : (utf8 "ID\tACTIVE\n").length ≤ (utf8 "ID\tPQD\tACTIVE\n").length := by
    decide +kernel
  unfold POSIX.listText SystemV.listText
  simp only [List.length_append]
  have hlines : ∀ {clients : List POSIX.Client} {clients' : List SystemV.Client},
      POSIX.table clients = SystemV.table clients' →
      ((clients.filter fun client => client.pid ≠ id).flatMap fun client => decimal client.pid ++
        (if client.active then utf8 "\tyes\n" else utf8 "\tno\n")).length ≤
      ((clients'.filter fun client => client.id ≠ id).flatMap fun client => decimal client.id ++
        utf8 "\t" ++ decimal client.pqd ++
        (if client.active then utf8 "\tyes\n" else utf8 "\tno\n")).length := by
    intro clients clients' h
    induction clients generalizing clients' with
    | nil => exact Nat.zero_le _
    | cons client clients ih =>
      cases clients' with
      | nil => cases h
      | cons client' clients' =>
        obtain ⟨hclient, hrest⟩ := List.cons.inj h
        obtain ⟨hid, hactive⟩ := Prod.mk.inj hclient
        have hlater := ih hrest
        rw [List.filter_cons, List.filter_cons, ← hid]
        split_ifs
        · rw [List.flatMap_cons, List.flatMap_cons, ← hid, ← hactive]
          simp only [List.length_append]
          omega
        · exact hlater
  have hbody := hlines h
  omega

end Tables

/-! ## The same requests to both servers -/

/-- A request to the POSIX server and the same one to the System V server. -/
structure Same (request : Message × Message) : Prop where
  sender_pid : request.2.sender_pid = request.1.sender_pid
  type : (request.1.type = POSIX.INIT ∧ request.2.type = SystemV.INIT) ∨
    (request.1.type = POSIX.CONNECT ∧ request.2.type = SystemV.CONNECT) ∨
    (request.1.type = POSIX.DISCONNECT ∧ request.2.type = SystemV.DISCONNECT) ∨
    (request.1.type = POSIX.STOP ∧ request.2.type = SystemV.STOP) ∨
    (request.1.type = POSIX.LIST ∧ request.2.type = SystemV.LIST)
  id : request.1.type = POSIX.CONNECT →
    parseInt request.2.message_text = parseInt request.1.message_text

structure Servers where
  posix : List POSIX.Client
  systemV : List SystemV.Client
  deriving DecidableEq

section Servers

variable (getpid getpid' : ℤ) (mqOpen : List UInt8 → Option POSIX.Mqd) (isOpen : ℤ → Prop)
  [DecidablePred isOpen]

/-- The System V server ends when `msgsnd` fails. -/
def systemVServe (clients : List SystemV.Client) (message : Message) : Option SystemV.Effect :=
  (SystemV.handle getpid' clients message).bind fun effect =>
    if ∀ send ∈ effect.2, isOpen send.1 then some effect else none

/-- Both servers handle the request without ending. -/
def serveBoth (s : Servers) (request : Message × Message) : Option Servers :=
  (POSIX.handle getpid mqOpen s.posix request.1).bind fun effect =>
    (systemVServe getpid' isOpen s.systemV request.2).map fun effect' => ⟨effect.1, effect'.1⟩

/-- A `CONNECT` that changes nothing and is sent back to the client that made it. -/
def SentBack (s : Servers) (request : Message × Message) (effect : POSIX.Effect)
    (effect' : SystemV.Effect) : Prop :=
  effect.1 = s.posix ∧ effect'.1 = s.systemV ∧
  (∃ queue prio, mqOpen (POSIX.keyOf request.1.sender_pid) = some queue ∧
    effect.2 = [(queue, ⟨prio, request.1⟩)]) ∧
  ∃ client ∈ s.systemV, client.id = request.2.sender_pid ∧ effect'.2 = [(client.pqd, request.2)]

/-- Both servers handle the request, with the same table afterwards; both pair two clients or
neither does, and neither for a client that is unknown or busy. -/
def Agree (s : Servers) (request : Message × Message) : Prop :=
  ∃ effect effect', POSIX.handle getpid mqOpen s.posix request.1 = some effect ∧
    systemVServe getpid' isOpen s.systemV request.2 = some effect' ∧
    POSIX.table effect.1 = SystemV.table effect'.1 ∧
    (request.1.type = POSIX.CONNECT → (effect.2.length = 2 ↔ effect'.2.length = 2) ∧
      (¬ (POSIX.table s.posix).Free (parseInt request.1.message_text) →
        SentBack mqOpen s request effect effect'))

/-- A `CONNECT` comes from a free client and names one; a `LIST` comes from a free client, and
the list of the System V server fits into a message. -/
def BothFree (s : Servers) (request : Message × Message) : Prop :=
  (request.1.type = POSIX.CONNECT → (POSIX.table s.posix).Free request.1.sender_pid ∧
    (POSIX.table s.posix).Free (parseInt request.1.message_text)) ∧
  (request.1.type = POSIX.LIST → (POSIX.table s.posix).Free request.1.sender_pid ∧
    (SystemV.listText s.systemV request.1.sender_pid).length < MSG_SIZE)

instance (s : Servers) (request : Message × Message) : Decidable (BothFree s request) :=
  inferInstanceAs (Decidable (_ ∧ _))

/-- The tables are the same, and the queues of all clients in them are open. -/
structure Alike (s : Servers) : Prop where
  table : POSIX.table s.posix = SystemV.table s.systemV
  posix : ∀ pid ∈ s.posix.map POSIX.Client.pid, mqOpen (POSIX.keyOf pid) ≠ none
  systemV : ∀ client ∈ s.systemV, isOpen client.pqd

/-- The queues of the client that makes the request are open. -/
structure Reachable (request : Message × Message) : Prop where
  posix : mqOpen (POSIX.keyOf request.1.sender_pid) ≠ none
  systemV : request.2.type = SystemV.INIT → isOpen (parseInt request.2.message_text)

section Step

variable {getpid getpid' mqOpen isOpen} {s : Servers} {request : Message × Message}

theorem systemVServe_eq_some {effect : SystemV.Effect} :
    systemVServe getpid' isOpen s.systemV request.2 = some effect ↔
      SystemV.handle getpid' s.systemV request.2 = some effect ∧ ∀ send ∈ effect.2, isOpen send.1 := by
  unfold systemVServe
  cases SystemV.handle getpid' s.systemV request.2 with
  | none => simp
  | some effect' =>
    rw [Option.bind_some, Option.some.injEq]
    split_ifs with hopen
    · rw [Option.some.injEq]
      constructor
      · rintro rfl
        exact ⟨rfl, hopen⟩
      · exact fun h => h.1
    · constructor
      · rintro ⟨⟩
      · rintro ⟨rfl, hopen'⟩
        exact absurd hopen' hopen

omit [DecidablePred isOpen] in
theorem Alike.of_free (hs : Alike mqOpen isOpen s) {id : ℤ} (h : (POSIX.table s.posix).Free id) :
    mqOpen (POSIX.keyOf id) ≠ none ∧ isOpen (SystemV.find s.systemV id) := by
  constructor
  · obtain ⟨client, hmem, hclient⟩ := List.mem_map.mp (List.mem_of_find?_eq_some h)
    rw [Prod.mk.injEq] at hclient
    rw [← hclient.1]
    exact hs.posix client.pid (List.mem_map_of_mem hmem)
  · rw [hs.table] at h
    obtain ⟨client, hmem, hfind⟩ := SystemV.find_of_free h
    rw [hfind]
    exact hs.systemV client hmem

omit [DecidablePred isOpen] in
theorem Alike.setActive (hs : Alike mqOpen isOpen s) (id : ℤ) (active : Bool) :
    Alike mqOpen isOpen ⟨POSIX.setActive s.posix id active, SystemV.setActive s.systemV id active⟩ where
  table := by rw [POSIX.table_setActive, SystemV.table_setActive, hs.table]
  posix := by
    rw [POSIX.pids_setActive]
    exact hs.posix
  systemV client hmem := by
    obtain ⟨client', hmem', -, hpqd⟩ := SystemV.pqd_of_mem_setActive hmem
    rw [← hpqd]
    exact hs.systemV client' hmem'

omit [DecidablePred isOpen] in
theorem Alike.removeclient (hs : Alike mqOpen isOpen s) (id : ℤ) :
    Alike mqOpen isOpen ⟨POSIX.removeclient s.posix id, SystemV.removeclient s.systemV id⟩ where
  table := by rw [POSIX.table_removeclient, SystemV.table_removeclient, hs.table]
  posix pid hmem := by
    obtain ⟨client, hclient, rfl⟩ := List.mem_map.mp hmem
    exact hs.posix client.pid (List.mem_map_of_mem (List.mem_of_mem_eraseP hclient))
  systemV client hmem := hs.systemV client (List.mem_of_mem_eraseP hmem)

theorem agree_of_effects {effect : POSIX.Effect} {effect' : SystemV.Effect}
    (h : POSIX.handle getpid mqOpen s.posix request.1 = some effect)
    (h' : SystemV.handle getpid' s.systemV request.2 = some effect')
    (hopen : ∀ send ∈ effect'.2, isOpen send.1)
    (hnext : Alike mqOpen isOpen ⟨effect.1, effect'.1⟩)
    (hpairs : request.1.type = POSIX.CONNECT → (effect.2.length = 2 ↔ effect'.2.length = 2) ∧
      (POSIX.table s.posix).Free (parseInt request.1.message_text)) :
    Agree getpid getpid' mqOpen isOpen s request ∧
      ∀ s', serveBoth getpid getpid' mqOpen isOpen s request = some s' → Alike mqOpen isOpen s' := by
  have hserve := systemVServe_eq_some.mpr ⟨h', hopen⟩
  constructor
  · exact ⟨effect, effect', h, hserve, hnext.table, fun htype => ⟨(hpairs htype).1,
      fun hnot => absurd (hpairs htype).2 hnot⟩⟩
  · intro s' hs'
    rw [serveBoth, h, hserve] at hs'
    cases hs'
    exact hnext

theorem not_connect {type : ℤ} {P : Prop} (htype : request.1.type = type)
    (hne : type ≠ POSIX.CONNECT) (h : request.1.type = POSIX.CONNECT) : P :=
  absurd (htype.symm.trans h) hne

theorem Alike.agree_init (hs : Alike mqOpen isOpen s) (hsame : Same request)
    (hreach : Reachable mqOpen isOpen request) (htype : request.1.type = POSIX.INIT)
    (htype' : request.2.type = SystemV.INIT) : Agree getpid getpid' mqOpen isOpen s request ∧
      ∀ s', serveBoth getpid getpid' mqOpen isOpen s request = some s' → Alike mqOpen isOpen s' := by
  obtain ⟨queue, hqueue⟩ := Option.ne_none_iff_exists'.mp hreach.posix
  have h : POSIX.handle getpid mqOpen s.posix request.1 =
      some (s.posix ++ [⟨request.1.sender_pid, true⟩],
        [(queue, ⟨request.1.type, { request.1 with sender_pid := getpid }⟩)]) := by
    simp [POSIX.handle, POSIX.handleInit, htype, hqueue]
  have h' : SystemV.handle getpid' s.systemV request.2 =
      some (SystemV.handleInit getpid' s.systemV request.2) := by
    simp [SystemV.handle, htype']
  have hopen := hreach.systemV htype'
  apply agree_of_effects h h'
  · intro send hmem
    rw [List.mem_singleton.mp hmem]
    exact hopen
  · constructor
    · have htable := hs.table
      simp only [POSIX.table, SystemV.table] at htable
      simp [POSIX.table, SystemV.handleInit, SystemV.table, hsame.sender_pid, htable]
    · intro pid hmem
      rw [List.map_append, List.mem_append] at hmem
      obtain hmem | hmem := hmem
      · exact hs.posix pid hmem
      · rw [List.mem_singleton.mp hmem]
        exact hreach.posix
    · intro client hmem
      obtain hmem | hmem := List.mem_append.mp hmem
      · exact hs.systemV client hmem
      · rw [List.mem_singleton.mp hmem]
        exact hopen
  · exact not_connect htype (by decide)

theorem Alike.agree_connect (hclosed : ¬ isOpen (-1)) (hs : Alike mqOpen isOpen s)
    (hsame : Same request) (htype : request.1.type = POSIX.CONNECT)
    (htype' : request.2.type = SystemV.CONNECT)
    (hsender : (POSIX.table s.posix).Free request.1.sender_pid)
    (hid : (POSIX.table s.posix).Free (parseInt request.1.message_text)) :
    Agree getpid getpid' mqOpen isOpen s request ∧
      ∀ s', serveBoth getpid getpid' mqOpen isOpen s request = some s' → Alike mqOpen isOpen s' := by
  obtain ⟨hmq₁, hopen₁⟩ := hs.of_free hsender
  obtain ⟨hmq₂, hopen₂⟩ := hs.of_free hid
  obtain ⟨queue₁, hqueue₁⟩ := Option.ne_none_iff_exists'.mp hmq₁
  obtain ⟨queue₂, hqueue₂⟩ := Option.ne_none_iff_exists'.mp hmq₂
  have hfound : ∀ {id}, isOpen (SystemV.find s.systemV id) → SystemV.find s.systemV id ≠ -1 :=
    fun hopen h => hclosed (h ▸ hopen)
  have h := POSIX.handle_connect getpid s.posix htype hqueue₁ hqueue₂
  have h' := SystemV.handle_connect getpid' s.systemV htype'
  obtain ⟨hrefused, -⟩ | ⟨-, -, heffect⟩ := SystemV.handleConnect_cases getpid' s.systemV request.2
  · rw [hsame.id htype, hsame.sender_pid] at hrefused
    exact absurd hrefused (not_or.mpr ⟨hfound hopen₂, hfound hopen₁⟩)
  · rw [hsame.id htype, hsame.sender_pid] at heffect
    rw [heffect] at h'
    apply agree_of_effects h h'
    · intro send hmem
      obtain rfl | rfl := List.mem_pair.mp hmem
      · exact hopen₁
      · exact hopen₂
    · -- the flags are cleared in the other order
      rw [SystemV.deactivate, SystemV.deactivate, SystemV.setActive_comm]
      exact (hs.setActive request.1.sender_pid false).setActive
        (parseInt request.1.message_text) false
    · intro _
      exact ⟨by simp, hid⟩

/-- The servers agree on requests of and about free clients. -/
theorem Alike.agree (hclosed : ¬ isOpen (-1)) (hs : Alike mqOpen isOpen s) (hsame : Same request)
    (hreach : Reachable mqOpen isOpen request) (hfree : BothFree s request) :
    Agree getpid getpid' mqOpen isOpen s request ∧
      ∀ s', serveBoth getpid getpid' mqOpen isOpen s request = some s' → Alike mqOpen isOpen s' := by
  obtain ⟨htype, htype'⟩ | ⟨htype, htype'⟩ | ⟨htype, htype'⟩ | ⟨htype, htype'⟩ | ⟨htype, htype'⟩ :=
    hsame.type
  · exact hs.agree_init hsame hreach htype htype'
  · obtain ⟨hsender, hid⟩ := hfree.1 htype
    exact hs.agree_connect hclosed hsame htype htype' hsender hid
  · -- `DISCONNECT`
    have h : POSIX.handle getpid mqOpen s.posix request.1 =
        some (POSIX.handleDisconnect s.posix request.1) := by
      simp [POSIX.handle, htype]
    have h' : SystemV.handle getpid' s.systemV request.2 =
        some (SystemV.handleDisconnect s.systemV request.2) := by
      simp [SystemV.handle, htype']
    apply agree_of_effects h h'
    · intro send hmem
      cases hmem
    · rw [POSIX.handleDisconnect, SystemV.handleDisconnect, hsame.sender_pid]
      exact hs.setActive request.1.sender_pid true
    · exact not_connect htype (by decide)
  · -- `STOP`
    have h : POSIX.handle getpid mqOpen s.posix request.1 =
        some (POSIX.handleStop s.posix request.1) := by
      simp [POSIX.handle, htype]
    have h' : SystemV.handle getpid' s.systemV request.2 =
        some (SystemV.handleStop s.systemV request.2) := by
      simp [SystemV.handle, htype']
    apply agree_of_effects h h'
    · intro send hmem
      cases hmem
    · rw [POSIX.handleStop, SystemV.handleStop, hsame.sender_pid]
      exact hs.removeclient request.1.sender_pid
    · exact not_connect htype (by decide)
  · -- `LIST`
    obtain ⟨queue, hqueue⟩ := Option.ne_none_iff_exists'.mp hreach.posix
    obtain ⟨hfreeSender, hfits⟩ := hfree.2 htype
    have hfits' := (length_listText_le hs.table request.1.sender_pid).trans_lt hfits
    obtain ⟨sends, h⟩ : ∃ sends,
        POSIX.handle getpid mqOpen s.posix request.1 = some (s.posix, sends) := by
      simp [POSIX.handle, POSIX.handleList, htype, hqueue, hfits']
    have h' : SystemV.handle getpid' s.systemV request.2 =
        some (s.systemV, [(SystemV.find s.systemV request.2.sender_pid,
          ⟨SystemV.LIST, getpid', SystemV.listText s.systemV request.2.sender_pid⟩)]) := by
      rw [SystemV.handle_list getpid' s.systemV htype', SystemV.handleList, hsame.sender_pid,
        if_pos hfits]
    apply agree_of_effects h h'
    · intro send hmem
      rw [List.mem_singleton.mp hmem, hsame.sender_pid]
      exact (hs.of_free hfreeSender).2
    · exact ⟨hs.table, hs.posix, hs.systemV⟩
    · exact not_connect htype (by decide)

theorem POSIX.length_connect {effect : POSIX.Effect} (htype : request.1.type = POSIX.CONNECT)
    (h : POSIX.handle getpid mqOpen s.posix request.1 = some effect) : effect.2.length = 2 := by
  rw [POSIX.handle, if_pos htype, POSIX.handleConnect] at h
  split at h
  · cases h
    rfl
  · cases h

theorem Alike.bothFree (hclosed : ¬ isOpen (-1)) (hs : Alike mqOpen isOpen s) (hsame : Same request)
    (h : Agree getpid getpid' mqOpen isOpen s request) : BothFree s request := by
  obtain ⟨effect, effect', hposix, hserve, -, hpairs⟩ := h
  obtain ⟨hsystemV, hopen⟩ := systemVServe_eq_some.mp hserve
  have hfree : ∀ {id}, SystemV.find s.systemV id ≠ -1 → (POSIX.table s.posix).Free id := by
    intro id hid
    rw [hs.table]
    by_contra hnot
    exact hid (SystemV.find_of_not_free hnot)
  constructor
  · intro htype
    have htype' : request.2.type = SystemV.CONNECT := by
      obtain ⟨h, -⟩ | ⟨-, h⟩ | ⟨h, -⟩ | ⟨h, -⟩ | ⟨h, -⟩ := hsame.type
      · exact not_connect h (by decide) htype
      · exact h
      · exact not_connect h (by decide) htype
      · exact not_connect h (by decide) htype
      · exact not_connect h (by decide) htype
    have hlength := (hpairs htype).1.mp (POSIX.length_connect htype hposix)
    rw [SystemV.handle_connect getpid' s.systemV htype', Option.some.injEq] at hsystemV
    obtain ⟨-, hrefused⟩ | ⟨hid, hsender, -⟩ :=
      SystemV.handleConnect_cases getpid' s.systemV request.2
    · rw [← hsystemV, hrefused] at hlength
      cases hlength
    · rw [hsame.sender_pid] at hsender
      rw [hsame.id htype] at hid
      exact ⟨hfree hsender, hfree hid⟩
  · intro htype
    have htype' : request.2.type = SystemV.LIST := by
      obtain ⟨h, -⟩ | ⟨h, -⟩ | ⟨h, -⟩ | ⟨h, -⟩ | ⟨-, h⟩ := hsame.type
      · cases htype.symm.trans h
      · cases htype.symm.trans h
      · cases htype.symm.trans h
      · cases htype.symm.trans h
      · exact h
    rw [SystemV.handle_list getpid' s.systemV htype'] at hsystemV
    obtain ⟨hfits, heffect⟩ := SystemV.handleList_eq_some hsystemV
    rw [hsame.sender_pid] at hfits heffect
    refine ⟨hfree fun hnone => ?_, hfits⟩
    have hfirst := hopen (SystemV.find s.systemV request.1.sender_pid, _) (by
      rw [heffect]
      exact List.mem_singleton_self _)
    rw [hnone] at hfirst
    exact hclosed hfirst

end Step

/-- In runs from any two tables that are alike. -/
theorem along_agree_iff (hclosed : ¬ isOpen (-1)) (requests : List (Message × Message))
    (hsame : ∀ request ∈ requests, Same request)
    (hreach : ∀ request ∈ requests, Reachable mqOpen isOpen request) (s : Servers)
    (hs : Alike mqOpen isOpen s) :
    Along (serveBoth getpid getpid' mqOpen isOpen) (Agree getpid getpid' mqOpen isOpen) s requests ↔
      Along (serveBoth getpid getpid' mqOpen isOpen) BothFree s requests := by
  induction requests generalizing s with
  | nil => exact Iff.rfl
  | cons request requests ih =>
    have hsame₀ := hsame request (by simp)
    have hreach₀ := hreach request (by simp)
    have ih' := ih (fun request h => hsame request (by simp [h]))
      (fun request h => hreach request (by simp [h]))
    constructor
    · rintro ⟨hagree, hrest⟩
      have hfree := hs.bothFree hclosed hsame₀ hagree
      exact ⟨hfree, fun s' hs' =>
        (ih' s' ((hs.agree hclosed hsame₀ hreach₀ hfree).2 s' hs')).mp (hrest s' hs')⟩
    · rintro ⟨hfree, hrest⟩
      exact ⟨(hs.agree hclosed hsame₀ hreach₀ hfree).1, fun s' hs' =>
        (ih' s' ((hs.agree hclosed hsame₀ hreach₀ hfree).2 s' hs')).mpr (hrest s' hs')⟩

end Servers

theorem alike_start (mqOpen : List UInt8 → Option POSIX.Mqd) (isOpen : ℤ → Prop) :
    Alike mqOpen isOpen ⟨[], []⟩ where
  table := rfl
  posix _ h := absurd h (by simp)
  systemV _ h := absurd h (by simp)

/-- The servers agree on a sequence of requests when every `CONNECT` is one of a free client for
a free client, and every `LIST` one of a free client. -/
theorem servers_agree_iff (getpid getpid' : ℤ) (mqOpen : List UInt8 → Option POSIX.Mqd)
    (isOpen : ℤ → Prop) [DecidablePred isOpen] (hclosed : ¬ isOpen (-1))
    (requests : List (Message × Message)) (hsame : ∀ request ∈ requests, Same request)
    (hreach : ∀ request ∈ requests, Reachable mqOpen isOpen request) :
    Along (serveBoth getpid getpid' mqOpen isOpen) (Agree getpid getpid' mqOpen isOpen) ⟨[], []⟩
      requests ↔
    Along (serveBoth getpid getpid' mqOpen isOpen) BothFree ⟨[], []⟩ requests :=
  along_agree_iff getpid getpid' mqOpen isOpen hclosed requests hsame hreach _
    (alike_start mqOpen isOpen)

/-- The queues of the clients 7, 8 and 9. -/
def openOfThree (name : List UInt8) : Option POSIX.Mqd :=
  if name = POSIX.keyOf 7 then some (.client 7)
  else if name = POSIX.keyOf 8 then some (.client 8)
  else if name = POSIX.keyOf 9 then some (.client 9)
  else none

def initRequest (pid qd : ℤ) : Message × Message :=
  (⟨POSIX.INIT, pid, decimal qd⟩, ⟨SystemV.INIT, pid, decimal qd⟩)

/-- The POSIX client sends the line with its newline. -/
def connectRequest (pid id : ℤ) : Message × Message :=
  (⟨POSIX.CONNECT, pid, decimal id ++ [10]⟩, ⟨SystemV.CONNECT, pid, decimal id⟩)

def stopRequest (pid : ℤ) : Message × Message := (⟨POSIX.STOP, pid, []⟩, ⟨SystemV.STOP, pid, []⟩)

theorem same_initRequest (pid qd : ℤ) : Same (initRequest pid qd) where
  sender_pid := rfl
  type := .inl ⟨rfl, rfl⟩
  id _ := rfl

theorem same_stopRequest (pid : ℤ) : Same (stopRequest pid) where
  sender_pid := rfl
  type := .inr (.inr (.inr (.inl ⟨rfl, rfl⟩)))
  id _ := rfl

/-- The client 7 connects to 8 and stops. -/
theorem servers_agree_two : Along (serveBoth 1 1 openOfThree (0 ≤ ·))
    (Agree 1 1 openOfThree (0 ≤ ·)) ⟨[], []⟩
    [initRequest 7 0, initRequest 8 1, connectRequest 7 8, stopRequest 7] := by
  have hconnect : Same (connectRequest 7 8) :=
    ⟨rfl, .inr (.inl ⟨rfl, rfl⟩), fun _ => by decide +kernel⟩
  refine (servers_agree_iff 1 1 openOfThree (0 ≤ ·) (by decide) _ ?_ ?_).mpr (by decide +kernel)
  · intro request hmem
    simp only [List.mem_cons, List.not_mem_nil, or_false] at hmem
    obtain rfl | rfl | rfl | rfl := hmem
    · exact same_initRequest 7 0
    · exact same_initRequest 8 1
    · exact hconnect
    · exact same_stopRequest 7
  · intro request hmem
    simp only [List.mem_cons, List.not_mem_nil, or_false] at hmem
    obtain rfl | rfl | rfl | rfl := hmem
    · exact ⟨by decide +kernel, fun _ => by decide +kernel⟩
    · exact ⟨by decide +kernel, fun _ => by decide +kernel⟩
    · exact ⟨by decide +kernel, fun h => absurd h (by decide)⟩
    · exact ⟨by decide +kernel, fun h => absurd h (by decide)⟩

/-- The client 9 asks for 8, which is in a chat with 7. -/
def asksForBusy : List (Message × Message) :=
  [initRequest 7 0, initRequest 8 1, initRequest 9 2, connectRequest 7 8, connectRequest 9 8]

/-- The POSIX server pairs the busy client again. -/
theorem servers_disagree : ∃ s,
    exec (serveBoth 1 1 openOfThree (0 ≤ ·)) ⟨[], []⟩ asksForBusy = some s ∧
    POSIX.table s.posix = [(7, false), (8, false), (9, false)] ∧
    SystemV.table s.systemV = [(7, false), (8, false), (9, true)] := by
  refine ⟨⟨[⟨7, false⟩, ⟨8, false⟩, ⟨9, false⟩], [⟨0, 7, false⟩, ⟨1, 8, false⟩, ⟨2, 9, true⟩]⟩, ?_,
    rfl, rfl⟩
  decide +kernel

end Sysopy.Chat
