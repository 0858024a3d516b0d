import Sysopy.Chat.SystemV.Server
import Sysopy.Library.Transition

/-!
# Exclusive pairing

The server on a sequence of requests alone. The flag of the first entry of a client keeps it
from a second pairing. A client that names itself is still paired with itself, and a client
with two entries is free again after the first is removed.
-/
namespace Sysopy.Chat.SystemV

open CInteger Transition

/-! ## The table after one operation -/

section Table

variable {clients : List Client} {p q : ℤ} {active : Bool}

theorem find?_setActive (clients : List Client) (q : ℤ) (active : Bool) (p : ℤ) :
    (setActive clients q active).find? (fun client => client.id = p) =
      (clients.find? fun client => client.id = p).map fun client =>
        if p = q then { client with active := active } else client := by
  induction clients with
  | nil => rfl
  | cons client clients ih =>
    rw [setActive]
    by_cases hq : client.id = q
    · by_cases hp : client.id = p
      · simp [hq, hp ▸ hq]
      · have hne : p ≠ q := fun h => hp (hq.trans h.symm)
        rw [if_pos hq, List.find?_cons_of_neg (by simpa using hp),
          List.find?_cons_of_neg (by simpa using hp)]
        simp [hne]
    · by_cases hp : client.id = p
      · have hne : p ≠ q := fun h => hq (hp.trans h)
        simp [hp, hne]
      · rw [if_neg hq, List.find?_cons_of_neg (by simpa using hp),
          List.find?_cons_of_neg (by simpa using hp), ih]

theorem registered_setActive : Registered (setActive clients q active) p ↔ Registered clients p := by
  rw [Registered, ids_setActive, Registered]

theorem Registered.exists_find (h : Registered clients p) :
    ∃ client, clients.find? (fun client => client.id = p) = some client := by
  obtain ⟨client, hmem, hid⟩ := List.mem_map.mp h
  rw [← Option.isSome_iff_exists, List.find?_isSome]
  exact ⟨client, hmem, by simpa using hid⟩

theorem busy_deactivate_self (h : Registered clients p) : Busy (deactivate clients p) p := by
  obtain ⟨client, hfind⟩ := h.exists_find
  refine ⟨{ client with active := false }, ?_, rfl⟩
  rw [deactivate, find?_setActive, hfind]
  simp

theorem Busy.deactivate (h : Busy clients p) (q : ℤ) : Busy (deactivate clients q) p := by
  obtain ⟨client, hfind, hinactive⟩ := h
  rw [Busy, SystemV.deactivate, find?_setActive, hfind]
  refine ⟨_, rfl, ?_⟩
  split_ifs
  · rfl
  · exact hinactive

theorem Busy.setActive_of_ne (h : Busy clients p) (hne : p ≠ q) :
    Busy (setActive clients q active) p := by
  obtain ⟨client, hfind, hinactive⟩ := h
  exact ⟨client, by rw [find?_setActive, hfind, Option.map_some, if_neg hne], hinactive⟩

theorem Busy.append (h : Busy clients p) (more : List Client) : Busy (clients ++ more) p := by
  obtain ⟨client, hfind, hinactive⟩ := h
  exact ⟨client, by rw [List.find?_append, hfind, Option.some_or], hinactive⟩

theorem Busy.removeclient_of_ne (h : Busy clients p) (hne : p ≠ q) :
    Busy (removeclient clients q) p := by
  obtain ⟨client, hfind, hinactive⟩ := h
  refine ⟨client, ?_, hinactive⟩
  rw [← hfind]
  induction clients with
  | nil => rfl
  | cons head clients ih =>
    by_cases hq : head.id = q
    · have hp : head.id ≠ p := fun h => hne (h.symm.trans hq)
      rw [removeclient, List.eraseP_cons_of_pos (by simpa using hq),
        List.find?_cons_of_neg (by simpa using hp)]
    · rw [removeclient, List.eraseP_cons_of_neg (by simpa using hq)]
      by_cases hp : head.id = p
      · rw [List.find?_cons_of_pos (by simpa using hp), List.find?_cons_of_pos (by simpa using hp)]
      · rw [List.find?_cons_of_neg (by simpa using hp)] at hfind ⊢
        rw [List.find?_cons_of_neg (by simpa using hp)]
        exact ih hfind

theorem registered_of_removeclient (h : Registered (removeclient clients q) p) :
    Registered clients p := by
  obtain ⟨client, hmem, hid⟩ := List.mem_map.mp h
  exact List.mem_map.mpr ⟨client, List.mem_of_mem_eraseP hmem, hid⟩

theorem not_registered_removeclient (h : (clients.map Client.id).count p ≤ 1) :
    ¬ Registered (removeclient clients p) p := by
  rw [Registered, ids_removeclient, ← List.count_eq_zero, List.count_erase_self]
  omega

end Table

/-! ## Requests -/

section Definitions

variable (getpid : ℤ)

/-- The server handles a request without exiting: `msgsnd` fails for the descriptor -1. -/
def serveRequest (clients : List Client) (message : Message) : Option (List Client) :=
  (handle getpid clients message).bind fun (clients, sends) =>
    if ∀ send ∈ sends, send.1 ≠ -1 then some clients else none

/-- `handle_connect` sends its two pairing messages. -/
def Pairs (clients : List Client) (message : Message) : Prop :=
  ∃ clients' send send', handle getpid clients message = some (clients', [send, send'])

/-- The clients that a `CONNECT` is about. -/
def Recipient (message : Message) (p : ℤ) : Prop :=
  p = message.sender_pid ∨ p = parseInt message.message_text

/-- The requests contain a `DISCONNECT` of the client, or its `STOP` and a later `INIT`. -/
def Released (p : ℤ) (requests : List Message) : Prop :=
  (∃ message ∈ requests, message.type = DISCONNECT ∧ message.sender_pid = p) ∨
  ∃ before after, requests = before ++ after ∧
    (∃ message ∈ before, message.type = STOP ∧ message.sender_pid = p) ∧
    ∃ message ∈ after, message.type = INIT ∧ message.sender_pid = p

/-- A client that could be paired does not name itself, and a busy client that stops has one
entry. -/
def Single (clients : List Client) (message : Message) : Prop :=
  (message.type = CONNECT → Registered clients message.sender_pid →
    ¬ Busy clients message.sender_pid → parseInt message.message_text ≠ message.sender_pid) ∧
  (message.type = STOP → Busy clients message.sender_pid →
    (clients.map Client.id).count message.sender_pid ≤ 1)

instance (clients : List Client) (message : Message) : Decidable (Single clients message) :=
  inferInstanceAs (Decidable (_ ∧ _))

/-- The two messages go to the descriptors of two different clients of the table, the sender
and the one it names, and both are active. -/
def PairsTwo (clients : List Client) (message : Message) : Prop :=
  ∃ a ∈ clients, ∃ b ∈ clients, a.id = message.sender_pid ∧ b.id = parseInt message.message_text ∧
    a.id ≠ b.id ∧ a.active = true ∧ b.active = true ∧
    ∃ clients' text text', handle getpid clients message =
      some (clients', [(a.pqd, text), (b.pqd, text')])

/-- Every pairing is one of two free clients, and a client is paired again only when it has
been released. -/
def Exclusive (requests : List Message) : Prop :=
  (∀ before message after clients, requests = before ++ message :: after →
    exec (serveRequest getpid) [] before = some clients → Pairs getpid clients message →
    PairsTwo getpid clients message) ∧
  ∀ before message between message' after clients clients' p,
    requests = before ++ message :: (between ++ message' :: after) →
    exec (serveRequest getpid) [] before = some clients → Pairs getpid clients message →
    exec (serveRequest getpid) [] (before ++ message :: between) = some clients' →
    Pairs getpid clients' message' → Recipient message p → Recipient message' p →
    Released p between

end Definitions

section Requests

variable {getpid : ℤ} {clients clients' : List Client} {message : Message} {p : ℤ}

theorem serveRequest_eq_some (h : serveRequest getpid clients message = some clients') :
    ∃ sends, handle getpid clients message = some (clients', sends) := by
  obtain ⟨⟨clients, sends⟩, hhandle, h⟩ := Option.bind_eq_some_iff.mp h
  dsimp only at h
  split_ifs at h
  cases h
  exact ⟨sends, hhandle⟩

/-- What a request does to the table. -/
theorem handle_cases {sends : List (ℤ × Message)}
    (h : handle getpid clients message = some (clients', sends)) :
    (message.type = INIT ∧
      clients' = clients ++ [⟨parseInt message.message_text, message.sender_pid, true⟩] ∧
      sends.length = 1) ∨
    (message.type = CONNECT ∧ handleConnect getpid clients message = (clients', sends)) ∨
    (message.type = LIST ∧ clients' = clients ∧ sends.length = 1) ∨
    (message.type = DISCONNECT ∧ clients' = setActive clients message.sender_pid true ∧
      sends = []) ∨
    (message.type = STOP ∧ clients' = removeclient clients message.sender_pid ∧ sends = []) := by
  unfold handle at h
  split_ifs at h with hinit hconnect hlist hdisconnect hstop
  · cases h
    exact .inl ⟨hinit, rfl, rfl⟩
  · exact .inr (.inl ⟨hconnect, Option.some.inj h⟩)
  · obtain ⟨rfl, rfl⟩ := Prod.mk.inj (handleList_eq_some h).2
    exact .inr (.inr (.inl ⟨hlist, rfl, rfl⟩))
  · cases h
    exact .inr (.inr (.inr (.inl ⟨hdisconnect, rfl, rfl⟩)))
  · cases h
    exact .inr (.inr (.inr (.inr ⟨hstop, rfl, rfl⟩)))

theorem Pairs.connect (h : Pairs getpid clients message) :
    message.type = CONNECT ∧ find clients (parseInt message.message_text) ≠ -1 ∧
      find clients message.sender_pid ≠ -1 := by
  obtain ⟨clients', send, send', h⟩ := h
  obtain ⟨-, -, h⟩ | ⟨htype, h⟩ | ⟨-, -, h⟩ | ⟨-, -, h⟩ | ⟨-, -, h⟩ := handle_cases h
  · cases h
  · obtain ⟨-, hrefused⟩ | ⟨hid, hsender, -⟩ := handleConnect_cases getpid clients message
    · rw [hrefused] at h
      cases h
    · exact ⟨htype, hid, hsender⟩
  · cases h
  · cases h
  · cases h

theorem Recipient.busy (hp : Recipient message p) (hpairs : Pairs getpid clients message)
    (h : serveRequest getpid clients message = some clients') : Busy clients' p := by
  obtain ⟨htype, hid, hsender⟩ := hpairs.connect
  obtain ⟨sends, h⟩ := serveRequest_eq_some h
  obtain ⟨hrefused, -⟩ | ⟨-, -, heffect⟩ := handleConnect_cases getpid clients message
  · exact absurd hrefused (not_or.mpr ⟨hid, hsender⟩)
  · rw [handle_connect getpid clients htype, heffect] at h
    cases h
    obtain rfl | rfl := hp
    · apply busy_deactivate_self
      rw [deactivate, registered_setActive]
      exact (registered_of_find hsender).1
    · exact (busy_deactivate_self (registered_of_find hid).1).deactivate _

theorem Busy.keep (hbusy : Busy clients p)
    (h : serveRequest getpid clients message = some clients')
    (hdisconnect : ¬ (message.type = DISCONNECT ∧ message.sender_pid = p))
    (hstop : ¬ (message.type = STOP ∧ message.sender_pid = p)) : Busy clients' p := by
  obtain ⟨sends, h⟩ := serveRequest_eq_some h
  obtain ⟨-, rfl, -⟩ | ⟨htype, h⟩ | ⟨-, rfl, -⟩ | ⟨htype, rfl, -⟩ | ⟨htype, rfl, -⟩ := handle_cases h
  · exact hbusy.append _
  · obtain ⟨-, heffect⟩ | ⟨-, -, heffect⟩ := handleConnect_cases getpid clients message
    · rw [heffect] at h
      cases h
      exact hbusy
    · rw [heffect] at h
      cases h
      exact (hbusy.deactivate _).deactivate _
  · exact hbusy
  · exact hbusy.setActive_of_ne fun hp => hdisconnect ⟨htype, hp.symm⟩
  · exact hbusy.removeclient_of_ne fun hp => hstop ⟨htype, hp.symm⟩

theorem not_registered_serveRequest (hgone : ¬ Registered clients p)
    (h : serveRequest getpid clients message = some clients')
    (hinit : ¬ (message.type = INIT ∧ message.sender_pid = p)) : ¬ Registered clients' p := by
  obtain ⟨sends, h⟩ := serveRequest_eq_some h
  obtain ⟨htype, rfl, -⟩ | ⟨htype, h⟩ | ⟨-, rfl, -⟩ | ⟨htype, rfl, -⟩ | ⟨htype, rfl, -⟩ :=
    handle_cases h
  · rw [Registered, List.map_append, List.mem_append, not_or]
    refine ⟨hgone, ?_⟩
    rintro hmem
    exact hinit ⟨htype, (List.mem_singleton.mp hmem).symm⟩
  · obtain ⟨-, heffect⟩ | ⟨-, -, heffect⟩ := handleConnect_cases getpid clients message
    · rw [heffect] at h
      cases h
      exact hgone
    · rw [heffect] at h
      cases h
      rw [deactivate, registered_setActive, deactivate, registered_setActive]
      exact hgone
  · exact hgone
  · rwa [registered_setActive]
  · exact fun h => hgone (registered_of_removeclient h)

end Requests

/-! ## Runs -/

section Runs

variable {getpid : ℤ} {clients clients' : List Client} {requests : List Message} {p : ℤ}

theorem not_registered_run (hgone : ¬ Registered clients p)
    (hrun : exec (serveRequest getpid) clients requests = some clients')
    (hinit : ∀ message ∈ requests, ¬ (message.type = INIT ∧ message.sender_pid = p)) :
    ¬ Registered clients' p := by
  induction requests generalizing clients with
  | nil =>
    cases hrun
    exact hgone
  | cons message requests ih =>
    obtain ⟨next, hstep, hrun⟩ := exec_cons_eq_some.mp hrun
    apply ih (not_registered_serveRequest hgone hstep (hinit message (by simp))) hrun
    exact fun message hmem => hinit message (by simp [hmem])

theorem Released.cons {message : Message} (h : Released p requests) :
    Released p (message :: requests) := by
  obtain ⟨message', hmem, h⟩ | ⟨before, after, rfl, ⟨stop, hstop, h⟩, hinit⟩ := h
  · exact .inl ⟨message', by simp [hmem], h⟩
  · exact .inr ⟨message :: before, after, rfl, ⟨stop, by simp [hstop], h⟩, hinit⟩

/-- A client that is busy is not found again before it is released. -/
theorem Busy.until_released (hbusy : Busy clients p)
    (hsingle : Along (serveRequest getpid) Single clients requests)
    (hrun : exec (serveRequest getpid) clients requests = some clients')
    (hreleased : ¬ Released p requests) : Busy clients' p ∨ ¬ Registered clients' p := by
  induction requests generalizing clients with
  | nil =>
    cases hrun
    exact .inl hbusy
  | cons message requests ih =>
    obtain ⟨next, hstep, hrun⟩ := exec_cons_eq_some.mp hrun
    by_cases hstop : message.type = STOP ∧ message.sender_pid = p
    · -- the entry of the client is removed, and there is no later `INIT`
      right
      obtain ⟨htype, rfl⟩ := hstop
      apply not_registered_run _ hrun
      · intro init hmem hinit
        exact hreleased (.inr ⟨[message], requests, rfl, ⟨message, by simp, htype, rfl⟩,
          init, hmem, hinit⟩)
      · obtain ⟨sends, hhandle⟩ := serveRequest_eq_some hstep
        have hnext : next = removeclient clients message.sender_pid := by
          simp only [handle, htype] at hhandle
          cases hhandle
          rfl
        rw [hnext]
        exact not_registered_removeclient (hsingle.1.2 htype hbusy)
    · have hdisconnect : ¬ (message.type = DISCONNECT ∧ message.sender_pid = p) :=
        fun h => hreleased (.inl ⟨message, by simp, h⟩)
      exact ih (hbusy.keep hstep hdisconnect hstop) (hsingle.2 next hstep) hrun
        fun h => hreleased h.cons

theorem Pairs.released {message message' : Message} {between after : List Message}
    (hpairs : Pairs getpid clients message) (hp : Recipient message p)
    (hsingle : Along (serveRequest getpid) Single clients (message :: (between ++ after)))
    (hrun : exec (serveRequest getpid) clients (message :: between) = some clients')
    (hpairs' : Pairs getpid clients' message') (hp' : Recipient message' p) :
    Released p between := by
  by_contra hreleased
  obtain ⟨next, hstep, hrun⟩ := exec_cons_eq_some.mp hrun
  have hbusy := hp.busy hpairs hstep
  have hsingle' := (hsingle.2 next hstep).initial (List.prefix_append between after)
  obtain ⟨-, hid, hsender⟩ := hpairs'.connect
  have hfree : Registered clients' p ∧ ¬ Busy clients' p := by
    obtain rfl | rfl := hp'
    · exact registered_of_find hsender
    · exact registered_of_find hid
  obtain hbusy' | hgone := hbusy.until_released hsingle' hrun hreleased
  · exact hfree.2 hbusy'
  · exact hgone hfree.1

theorem exists_of_find_ne {id : ℤ} (h : find clients id ≠ -1) :
    ∃ client ∈ clients, client.id = id ∧ client.active = true ∧ client.pqd = find clients id := by
  cases hfind : clients.find? fun client => client.id = id with
  | none => simp [find, hfind] at h
  | some client =>
    cases hactive : client.active with
    | false => simp [find, hfind, hactive] at h
    | true =>
      exact ⟨client, List.mem_of_find?_eq_some hfind, by simpa using List.find?_some hfind, hactive,
        by simp [find, hfind, hactive]⟩

theorem Pairs.pairsTwo {message : Message} (hpairs : Pairs getpid clients message)
    (hsingle : Single clients message) : PairsTwo getpid clients message := by
  obtain ⟨htype, hid, hsender⟩ := hpairs.connect
  obtain ⟨a, ha, haid, haactive, hapqd⟩ := exists_of_find_ne hsender
  obtain ⟨b, hb, hbid, hbactive, hbpqd⟩ := exists_of_find_ne hid
  obtain ⟨hregistered, hbusy⟩ := registered_of_find hsender
  have hne := hsingle.1 htype hregistered hbusy
  refine ⟨a, ha, b, hb, haid, hbid, ?_, haactive, hbactive, ?_⟩
  · rw [haid, hbid]
    exact hne.symm
  · obtain ⟨hrefused, -⟩ | ⟨-, -, heffect⟩ := handleConnect_cases getpid clients message
    · exact absurd hrefused (not_or.mpr ⟨hid, hsender⟩)
    · have hhandle := handle_connect getpid clients htype
      rw [heffect, ← hapqd, ← hbpqd] at hhandle
      exact ⟨_, _, _, hhandle⟩

end Runs

/-- Pairings are exclusive in every run in which no client names itself or is registered twice
when it stops. -/
theorem exclusive_of_single (getpid : ℤ) (requests : List Message) (clients : List Client)
    (hrun : exec (serveRequest getpid) [] requests = some clients)
    (hsingle : Along (serveRequest getpid) Single [] requests) : Exclusive getpid requests := by
  constructor
  · rintro before message after clients' rfl hbefore hpairs
    exact hpairs.pairsTwo (hsingle.append hbefore).1
  · rintro before message between message' after clients' clients'' p rfl hbefore hpairs hbetween
      hpairs' hp hp'
    obtain ⟨next, hnext, hbetween⟩ := exec_append.mp hbetween
    obtain rfl : next = clients' := by
      rw [hbefore, Option.some.injEq] at hnext
      exact hnext.symm
    exact hpairs.released hp (hsingle.append hbefore) hbetween hpairs' hp'

/-- The clients 7 and 8 are paired, and 7 stops after it has disconnected. -/
theorem exclusive_of_single_two : Exclusive 1 [⟨INIT, 7, [48]⟩, ⟨INIT, 8, [49]⟩, ⟨CONNECT, 7, [56]⟩,
    ⟨DISCONNECT, 7, []⟩, ⟨STOP, 7, []⟩] :=
  exclusive_of_single 1 _ [⟨1, 8, false⟩] (by decide +kernel) (by decide +kernel)

/-- Client 7 asks for itself. -/
def namesItself : List Message := [⟨INIT, 7, [48]⟩, ⟨CONNECT, 7, [55]⟩]

/-- Client 7 has two entries when it stops in its chat with 8, and 9 asks for it. -/
def registeredTwice : List Message := [⟨INIT, 7, [48]⟩, ⟨INIT, 7, [48]⟩, ⟨INIT, 8, [49]⟩,
  ⟨INIT, 9, [50]⟩, ⟨CONNECT, 7, [56]⟩, ⟨STOP, 7, []⟩, ⟨CONNECT, 9, [55]⟩]

theorem not_exclusive :
    ((exec (serveRequest 1) [] namesItself).isSome ∧ ¬ Exclusive 1 namesItself) ∧
    (exec (serveRequest 1) [] registeredTwice).isSome ∧ ¬ Exclusive 1 registeredTwice := by
  refine ⟨⟨by decide +kernel, fun h => ?_⟩, by decide +kernel, fun h => ?_⟩
  · obtain ⟨a, -, b, -, ha, hb, hne, -⟩ := h.1 [⟨INIT, 7, [48]⟩] ⟨CONNECT, 7, [55]⟩ [] _ rfl rfl
      ⟨_, _, _, rfl⟩
    have hid : parseInt [55] = 7 := by decide +kernel
    exact hne (ha.trans (hb.trans hid).symm)
  · have hreleased := h.2 (registeredTwice.take 4) ⟨CONNECT, 7, [56]⟩ [⟨STOP, 7, []⟩]
      ⟨CONNECT, 9, [55]⟩ [] _ _ 7 rfl rfl ⟨_, _, _, rfl⟩ rfl ⟨_, _, _, rfl⟩ (.inl rfl)
      (.inr (by decide +kernel))
    obtain ⟨message, hmem, htype, -⟩ | ⟨before, after, hsplit, -, init, hmem, htype, -⟩ := hreleased
    · rw [List.mem_singleton.mp hmem] at htype
      cases htype
    · have hmem' : init ∈ before ++ after := List.mem_append_right before hmem
      rw [← hsplit, List.mem_singleton] at hmem'
      rw [hmem'] at htype
      cases htype

end Sysopy.Chat.SystemV
