import Sysopy.Chat.POSIX.System
import Sysopy.Library.Coupling

/-!
# Engaged clients

Every client that holds a pairing waits at the prompt or in `connect`, and holds one
pairing only. So the clients are coupled in pairs: a client is engaged with its peer
from the moment the server pairs them to the end of their chat, and when one of the
two leaves first, the end of the chat waits in the queue of the other.
-/
namespace Sysopy.Chat.POSIX

open CInteger CString Transition PriorityQueue Coupling

/-! ## Names of pairings -/

theorem pairings_append (entries entries' : List Entry) :
    pairings (entries ++ entries') = pairings entries ++ pairings entries' := by
  simp [pairings]

theorem pairings_cons_of_ne {entry : Entry} (h : entry.prio ≠ CONNECT) (entries : List Entry) :
    pairings (entry :: entries) = pairings entries := by
  simp [pairings, h]

theorem pairings_cons_of_eq {entry : Entry} (h : entry.prio = CONNECT) (entries : List Entry) :
    pairings (entry :: entries) = entry.message.message_text :: pairings entries := by
  simp [pairings, h]

theorem pairings_eq_nil {entries : List Entry} :
    pairings entries = [] ↔ ∀ entry ∈ entries, entry.prio ≠ CONNECT := by
  simp [pairings]

theorem pairings_perm {entries entries' : List Entry} (h : entries.Perm entries') :
    (pairings entries).Perm (pairings entries') :=
  (h.filter _).map _

/-! ## One client -/

def Process.Alive : Process → Prop
  | .absent | .exited => False
  | _ => True

def Process.Waiting (process : Process) : Prop := process = .prompt ∨ process = .connectSent

theorem Process.Waiting.alive {process : Process} (h : process.Waiting) : process.Alive := by
  rcases h with rfl | rfl <;> trivial

theorem Process.Alive.ne_absent {process : Process} (h : process.Alive) : process ≠ .absent := by
  rintro rfl
  exact h

theorem Process.Alive.ne_exited {process : Process} (h : process.Alive) : process ≠ .exited := by
  rintro rfl
  exact h

/-- A message with a priority comes from the server. -/
structure EntryInv (getpid : ℤ) (entry : Entry) : Prop where
  line : entry.prio ≠ 0 → isDisconnectLine entry.message.message_text = false
  pairing : entry.prio = CONNECT → entry.message.type = CONNECT ∧
    entry.message.sender_pid = getpid ∧ ∃ p, entry.message.message_text = keyOf p

/-- A client with its queue and with what the server is about to send to it. -/
structure ClientInv (getpid c : ℤ) (process : Process) (queue : Option (List Entry))
    (pending : List Entry) : Prop where
  alive : queue.isSome ↔ process.Alive
  valid : process ≠ .absent → c ≠ getpid ∧ 1 ≤ c ∧ c ≤ INT_MAX
  ordered : Ordered Entry.prio (queue.getD [])
  entries : ∀ entry ∈ queue.getD [] ++ pending, EntryInv getpid entry
  urgent : ∀ entry ∈ pending, entry.prio ≠ 0
  single : (pairings (queue.getD [] ++ pending)).length ≤ 1
  waiting : pairings (queue.getD [] ++ pending) ≠ [] → process.Waiting

section Client

variable {getpid c : ℤ} {process process' : Process} {queue : Option (List Entry)}
  {pending : List Entry}

theorem ClientInv.move (h : ClientInv getpid c process queue pending) (halive : process.Alive)
    (halive' : process'.Alive) (hwaiting : pairings (queue.getD [] ++ pending) ≠ [] →
      process'.Waiting) : ClientInv getpid c process' queue pending where
  alive := h.alive.trans (iff_of_true halive halive')
  valid _ := h.valid halive.ne_absent
  ordered := h.ordered
  entries := h.entries
  urgent := h.urgent
  single := h.single
  waiting := hwaiting

theorem ClientInv.push (h : ClientInv getpid c process queue pending) {entry : Entry}
    (hentry : EntryInv getpid entry) (hprio : entry.prio ≠ CONNECT) :
    ClientInv getpid c process (queue.map (enqueue Entry.prio entry)) pending := by
  cases queue with
  | none => exact h
  | some entries =>
    have hperm : (enqueue Entry.prio entry entries ++ pending).Perm
        (entry :: (entries ++ pending)) := (enqueue_perm entry entries).append_right pending
    have hpairings : (pairings (enqueue Entry.prio entry entries ++ pending)).Perm
        (pairings (entries ++ pending)) := by
      rw [← pairings_cons_of_ne hprio (entries ++ pending)]
      exact pairings_perm hperm
    refine ⟨h.alive, h.valid, h.ordered.enqueue entry, ?_, h.urgent, ?_, ?_⟩
    · intro e he
      rcases List.mem_cons.mp (hperm.mem_iff.mp he) with rfl | he
      · exact hentry
      · exact h.entries e he
    · exact hpairings.length_eq.trans_le h.single
    · intro hne
      exact h.waiting fun heq => hne (List.perm_nil.mp (heq ▸ hpairings))

theorem ClientInv.pop {entry : Entry} {entries : List Entry}
    (h : ClientInv getpid c process (some (entry :: entries)) pending) :
    ClientInv getpid c process (some entries) pending where
  alive := h.alive
  valid := h.valid
  ordered := h.ordered.tail
  entries e he := h.entries e (List.mem_cons_of_mem _ he)
  urgent := h.urgent
  single := by
    have hsublist : (pairings (entries ++ pending)).Sublist
        (pairings (entry :: (entries ++ pending))) :=
      ((List.sublist_cons_self _ _).filter _).map _
    exact hsublist.length_le.trans h.single
  waiting hne := by
    apply h.waiting
    intro heq
    rw [Option.getD_some, pairings_eq_nil] at heq
    exact hne (pairings_eq_nil.mpr fun e he => heq e (List.mem_cons_of_mem _ he))

theorem ClientInv.deliver {entry : Entry}
    (h : ClientInv getpid c process queue (entry :: pending)) :
    ClientInv getpid c process (queue.map (enqueue Entry.prio entry)) pending := by
  cases queue with
  | none =>
    have hpending : pairings (entry :: pending) = [] := by
      by_contra hne
      exact absurd (h.alive.mpr (h.waiting hne).alive) (by simp)
    have hrest : pairings pending = [] := by
      rw [pairings_eq_nil] at hpending ⊢
      exact fun e he => hpending e (List.mem_cons_of_mem _ he)
    refine ⟨h.alive, h.valid, h.ordered, ?_, ?_, ?_, ?_⟩
    · exact fun e he => h.entries e (List.mem_cons_of_mem _ he)
    · exact fun e he => h.urgent e (List.mem_cons_of_mem _ he)
    · simp [hrest]
    · intro hne
      exact absurd hrest hne
  | some entries =>
    have hperm : (enqueue Entry.prio entry entries ++ pending).Perm
        (entries ++ entry :: pending) :=
      ((enqueue_perm entry entries).append_right pending).trans List.perm_middle.symm
    have hpairings := pairings_perm hperm
    refine ⟨h.alive, h.valid, h.ordered.enqueue entry, ?_, ?_, ?_, ?_⟩
    · exact fun e he => h.entries e (hperm.mem_iff.mp he)
    · exact fun e he => h.urgent e (List.mem_cons_of_mem _ he)
    · exact hpairings.length_eq.trans_le h.single
    · intro hne
      exact h.waiting fun heq => hne (List.perm_nil.mp (heq ▸ hpairings))

theorem ClientInv.renew (h : ClientInv getpid c process queue pending) {queue' : Option (List Entry)}
    (hempty : queue'.getD [] = []) (halive : queue'.isSome ↔ process'.Alive)
    (hvalid : process' ≠ .absent → c ≠ getpid ∧ 1 ≤ c ∧ c ≤ INT_MAX)
    (hwaiting : ¬ process.Waiting) : ClientInv getpid c process' queue' pending := by
  have hnil : pairings (queue.getD [] ++ pending) = [] := by
    by_contra hne
    exact hwaiting (h.waiting hne)
  rw [pairings_append, List.append_eq_nil_iff] at hnil
  refine ⟨halive, hvalid, ?_, ?_, h.urgent, ?_, ?_⟩
  · rw [hempty]
    exact ordered_nil
  · intro e he
    rw [hempty, List.nil_append] at he
    exact h.entries e (List.mem_append_right _ he)
  · rw [hempty, List.nil_append, hnil.2]
    exact Nat.zero_le 1
  · rw [hempty, List.nil_append]
    intro hne
    exact absurd hnil.2 hne

theorem ClientInv.expect (h : ClientInv getpid c process queue [])
    (hpending : ∀ entry ∈ pending, EntryInv getpid entry ∧ entry.prio ≠ 0)
    (hpairings : pairings pending = [] ∨ (pairings pending).length ≤ 1 ∧
      pairings (queue.getD []) = [] ∧ process.Waiting) :
    ClientInv getpid c process queue pending := by
  have hentries : ∀ e ∈ queue.getD [] ++ pending, EntryInv getpid e := by
    intro e he
    rcases List.mem_append.mp he with he | he
    · exact h.entries e (List.mem_append_left _ he)
    · exact (hpending e he).1
  have hsingle := h.single
  have hwaiting := h.waiting
  rw [List.append_nil] at hsingle hwaiting
  refine ⟨h.alive, h.valid, h.ordered, hentries, fun e he => (hpending e he).2, ?_, ?_⟩
  · rw [pairings_append]
    rcases hpairings with hnil | ⟨hlength, hnil, _⟩
    · rw [hnil, List.append_nil]
      exact hsingle
    · rw [hnil, List.nil_append]
      exact hlength
  · rw [pairings_append]
    rcases hpairings with hnil | ⟨_, _, hprocess⟩
    · rw [hnil, List.append_nil]
      exact hwaiting
    · exact fun _ => hprocess

end Client

/-! ## All clients -/

/-- The `key` of a chat, and `clientid` once it has been opened. -/
def Process.talk : Process → Option (List UInt8 × Option (Option Mqd))
  | .entering key => some (key, none)
  | .chat key clientid _ => some (key, some clientid)
  | _ => none

theorem Process.key_eq (process : Process) : process.key = process.talk.map Prod.fst := by
  cases process <;> rfl

theorem Process.talk_of_waiting {process : Process} (h : process.Waiting) :
    process.talk = none := by
  rcases h with rfl | rfl <;> rfl

def ServerInv : Server → Prop
  | .sending sends => ∀ send ∈ sends, send.1 ≠ .server
  | .stopping _ message =>
    message.type = STOP ∧ isDisconnectLine message.message_text = false
  | .exited => True

structure Inv (getpid : ℤ) (s : State) : Prop where
  requests : ∀ message ∈ s.requests, message.type = INIT →
    isDisconnectLine message.message_text = false
  server : ServerInv s.server
  client : ∀ c, ClientInv getpid c (s.process c) (s.queue c) (s.server.pending c)
  talking : ∀ c key opened, (s.process c).talk = some (key, opened) →
    ∃ p, key = keyOf p ∧ ∀ clientid, opened = some clientid →
      (clientid = some (.client p) ∨ clientid = none ∧ s.process p = .exited)
  known : ∀ c p, Engaged s c p → s.process p ≠ .absent
  started : ∀ c, s.process c ≠ .absent → c ∈ s.pids
  coupled : Coupled (Engaged s) (Noticed s)

theorem inv_start (getpid : ℤ) : Inv getpid start where
  requests _ h := absurd h List.not_mem_nil
  server _ h := absurd h List.not_mem_nil
  client _ := ⟨by simp [start, Process.Alive], fun h => absurd rfl h, ordered_nil,
    fun _ h => absurd h List.not_mem_nil, fun _ h => absurd h List.not_mem_nil,
    Nat.zero_le 1, fun h => absurd rfl h⟩
  talking _ _ _ h := by cases h
  known c p h := by rcases h with h | h <;> cases h
  started _ h := absurd rfl h
  coupled := by
    have hnone : ∀ c p, ¬ Engaged start c p := by
      rintro c p (h | h) <;> cases h
    exact ⟨fun c p h => absurd h (hnone c p), fun c p h => absurd h (hnone c p),
      fun c p q h => absurd h (hnone p q)⟩

/-- Client `c` goes on to `process`. -/
structure Moves (s s' : State) (c : ℤ) (process : Process) : Prop where
  pids : s'.pids = s.pids
  server : s'.server = s.server
  process : s'.process = Function.update s.process c process

theorem Moves.self {s s' : State} {c : ℤ} {process : Process} (h : Moves s s' c process) :
    s'.process c = process := by
  rw [h.process, Function.update_self]

theorem Moves.other {s s' : State} {c : ℤ} {process : Process} (h : Moves s s' c process) {x : ℤ}
    (hx : x ≠ c) : s'.process x = s.process x := by
  rw [h.process, Function.update_of_ne hx]

theorem engaged_congr {s s' : State} {c : ℤ}
    (htalk : (s'.process c).talk = (s.process c).talk)
    (hawaited : ∀ name, name ∈ s'.awaited c ↔ name ∈ s.awaited c) (p : ℤ) :
    Engaged s' c p ↔ Engaged s c p := by
  unfold Engaged InChat
  rw [Process.key_eq, Process.key_eq, htalk, hawaited]

section Steps

variable {getpid : ℤ} {s s' : State}

theorem Inv.queue_isSome (hs : Inv getpid s) {c : ℤ} :
    (s.queue c).isSome ↔ (s.process c).Alive :=
  (hs.client c).alive

theorem Inv.waiting (hs : Inv getpid s) {c : ℤ} (h : s.awaited c ≠ []) :
    (s.process c).Waiting :=
  (hs.client c).waiting h

/-- Nobody enters or leaves a chat, and no pairing comes or goes. -/
theorem Inv.congr (hs : Inv getpid s)
    (hrequests : ∀ message ∈ s'.requests, message.type = INIT →
      isDisconnectLine message.message_text = false)
    (hserver : ServerInv s'.server)
    (hclient : ∀ c, ClientInv getpid c (s'.process c) (s'.queue c) (s'.server.pending c))
    (htalk : ∀ c, (s'.process c).talk = (s.process c).talk)
    (habsent : ∀ c, s'.process c = .absent → s.process c = .absent)
    (hexited : ∀ c, s.process c = .exited → s'.process c = .exited)
    (hstarted : ∀ c, s'.process c ≠ .absent → c ∈ s'.pids)
    (hawaited : ∀ c name, name ∈ s'.awaited c ↔ name ∈ s.awaited c)
    (hnotice : ∀ c p, Engaged s c p → (Noticed s' c ↔ Noticed s c)) : Inv getpid s' := by
  have hengaged : ∀ c p, Engaged s' c p ↔ Engaged s c p :=
    fun c => engaged_congr (htalk c) (hawaited c)
  refine ⟨hrequests, hserver, hclient, ?_, ?_, hstarted, hs.coupled.congr hengaged hnotice⟩
  · intro c key opened h
    rw [htalk] at h
    obtain ⟨p, hkey, hopened⟩ := hs.talking c key opened h
    exact ⟨p, hkey, fun clientid h => (hopened clientid h).imp_right (And.imp_right (hexited p))⟩
  · intro c p h heq
    exact hs.known c p ((hengaged c p).mp h) (habsent p heq)

theorem Inv.local (hs : Inv getpid s) {c : ℤ} (hserver : s'.server = s.server)
    (hrequests : ∀ message ∈ s'.requests, message ∉ s.requests → message.type = INIT →
      isDisconnectLine message.message_text = false)
    (hprocess : ∀ x, x ≠ c → s'.process x = s.process x)
    (hqueue : ∀ x, x ≠ c → s'.queue x = s.queue x)
    (hclient : ClientInv getpid c (s'.process c) (s'.queue c) (s.server.pending c))
    (htalk : (s'.process c).talk = (s.process c).talk)
    (habsent : s'.process c ≠ .absent) (hexited : s.process c ≠ .exited)
    (hpids : s.pids ⊆ s'.pids) (hstarted : c ∈ s'.pids)
    (hawaited : ∀ name, name ∈ s'.awaited c ↔ name ∈ s.awaited c)
    (hnotice : ∀ p, Engaged s c p → (Noticed s' c ↔ Noticed s c)) : Inv getpid s' := by
  refine hs.congr ?_ (hserver ▸ hs.server) ?_ ?_ ?_ ?_ ?_ ?_ ?_
  · intro message hmessage
    by_cases hold : message ∈ s.requests
    · exact hs.requests message hold
    · exact hrequests message hmessage hold
  · intro x
    rw [hserver]
    by_cases hx : x = c
    · exact hx ▸ hclient
    · rw [hprocess x hx, hqueue x hx]
      exact hs.client x
  · intro x
    by_cases hx : x = c
    · exact hx ▸ htalk
    · rw [hprocess x hx]
  · intro x h
    by_cases hx : x = c
    · exact absurd (hx ▸ h) habsent
    · rwa [hprocess x hx] at h
  · intro x h
    by_cases hx : x = c
    · exact absurd (hx ▸ h) hexited
    · rwa [hprocess x hx]
  · intro x h
    by_cases hx : x = c
    · exact hx ▸ hstarted
    · rw [hprocess x hx] at h
      exact hpids (hs.started x h)
  · intro x name
    by_cases hx : x = c
    · exact hx ▸ hawaited name
    · rw [State.awaited, State.awaited, State.inbox, State.inbox, hserver, hqueue x hx]
  · intro x p h
    by_cases hx : x = c
    · subst hx
      exact hnotice p h
    · rw [Noticed, Noticed, State.inbox, State.inbox, hqueue x hx]

theorem Inv.move (hs : Inv getpid s) {c : ℤ} {process : Process} (hmoves : Moves s s' c process)
    (hqueue : s'.queue = s.queue)
    (hrequests : ∀ message ∈ s'.requests, message ∉ s.requests → message.type = INIT →
      isDisconnectLine message.message_text = false)
    (halive : (s.process c).Alive) (halive' : process.Alive)
    (htalk : process.talk = (s.process c).talk)
    (hwaiting : s.awaited c ≠ [] → process.Waiting) : Inv getpid s' := by
  refine hs.local hmoves.server hrequests (fun x hx => hmoves.other hx) ?_ ?_ ?_ ?_
    halive.ne_exited (hmoves.pids ▸ List.Subset.refl _) ?_ ?_ ?_
  · intro x _
    rw [hqueue]
  · rw [hmoves.self, hqueue]
    exact (hs.client c).move halive halive' hwaiting
  · rw [hmoves.self, htalk]
  · rw [hmoves.self]
    exact halive'.ne_absent
  · rw [hmoves.pids]
    exact hs.started c halive.ne_absent
  · intro name
    rw [State.awaited, State.awaited, State.inbox, State.inbox, hmoves.server, hqueue]
  · intro p _
    rw [Noticed, Noticed, State.inbox, State.inbox, hqueue]

/-- A client that does not wait for a pairing has none to take. -/
theorem Inv.awaited_of_not_waiting (hs : Inv getpid s) {c : ℤ} (h : ¬ (s.process c).Waiting) :
    s.awaited c = [] := by
  by_contra hne
  exact h (hs.waiting hne)

end Steps

end Sysopy.Chat.POSIX
