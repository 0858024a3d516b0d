import Sysopy.GameServer.Threads

/-!
# Slots and sockets

As long as `create_client` takes no slot whose old descriptor is still to be closed,
and the pinger disconnects only clients that wait, a slot belongs to one thread at a
time, and what a thread finds in its slots is what it has put there: the open socket of
the client that occupies the slot.
-/
namespace Sysopy.GameServer.Threads

open Transition

/-- `create_client` takes no slot that some thread has still to close, and the pinger
disconnects no client of an accepting thread or of a game. -/
def KeepsSlots (s : State) : Action → Prop
  | .run t _ _ =>
    match s.thread t with
    | .creating _ _ (i :: _) => (s.clients i).taken = false → s.claim i = .free
    | _ => True
  | .ping _ _ =>
    match s.pinger with
    | .clearTaken i => (s.clients i).taken = true ∧ s.claim i = .free
    | _ => True
  | .accept _ | .sigpipe _ => True

/-! ## Threads and their claims -/

/-- The descriptor of a connection that is in no slot yet. -/
def Thread.fresh : Thread → Option ℤ
  | .accepted client_fd | .locking client_fd _ | .checking client_fd _ _ | .rejecting client_fd
  | .creating client_fd _ _ => some client_fd
  | .filling client_fd _ _ assignment => if assignment = .name then none else some client_fd
  | _ => none

/-- The thread is in the critical section of `clients_mutex`. -/
def Thread.critical : Thread → Bool
  | .checking _ _ _ | .rejecting _ | .rejected | .creating _ _ _ | .filling _ _ _ _
  | .pairing _ _ _ | .marking _ _ _ | .unlocking _ _ _ | .idling _ _ | .parting _ => true
  | _ => false

/-- The connection of the thread has been put into a slot, or rejected. -/
def Thread.Placed (thread : Thread) : Prop := thread ≠ .absent ∧ thread.fresh = none

/-- The thread is about to fill or to mark the slot. -/
def Thread.WorksOn : Thread → Slot → Prop
  | .filling _ _ id _, q => id = q
  | .marking _ _ i, q => i = q
  | _, _ => False

def Claim.By (owner : Owner) : Claim → Prop
  | .free => False
  | .filling t | .owned t => owner = .thread t
  | .closing o => owner = o

/-- The statements to do of a game find the claims that they need: the slots of the game
belong to it until it closes their sockets. Only `send_msg_waiting`, the last statement
for a player whose opponent left, comes later. -/
def Covered (t : ℕ) (player1 player2 : Slot) (next : Next) : List Statement → (Slot → Claim) → Prop
  | [], claim => next = .loop ∨ next = .moved → claim player1 = .owned t ∧ claim player2 = .owned t
  | .lock _ :: todo, claim => Covered t player1 player2 next todo claim
  | .unlock _ :: todo, claim => Covered t player1 player2 next todo claim
  | .write w :: todo, claim =>
    (claim w.player = .owned t ∨ next = .left ∧ todo = []) ∧
      Covered t player1 player2 next todo claim
  | .read id :: todo, claim => claim id = .owned t ∧ Covered t player1 player2 next todo claim
  | .clearTaken id :: todo, claim => claim id = .owned t ∧
      Covered t player1 player2 next todo (Function.update claim id (.closing (.thread t)))
  | .close id :: todo, claim => claim id = .closing (.thread t) ∧
      Covered t player1 player2 next todo (Function.update claim id .free)

section Covered

variable {t : ℕ} {player1 player2 : Slot} {next : Next} {claim claim' : Slot → Claim}

theorem claim_eq (hclaim : ∀ p, (claim p).By (.thread t) → claim' p = claim p) {p : Slot}
    {c : Claim} (hc : c.By (.thread t)) (h : claim p = c) : claim' p = c := by
  rw [← h] at hc ⊢
  exact hclaim p hc

theorem update_claim_eq (hclaim : ∀ p, (claim p).By (.thread t) → claim' p = claim p) (p : Slot)
    (c : Claim) (q : Slot) (hq : (Function.update claim p c q).By (.thread t)) :
    Function.update claim' p c q = Function.update claim p c q := by
  by_cases heq : q = p
  · rw [heq, Function.update_self, Function.update_self]
  · rw [Function.update_of_ne heq] at hq
    rw [Function.update_of_ne heq, Function.update_of_ne heq, hclaim q hq]

theorem Covered.congr {todo : List Statement} (h : Covered t player1 player2 next todo claim)
    (hclaim : ∀ p, (claim p).By (.thread t) → claim' p = claim p) :
    Covered t player1 player2 next todo claim' := by
  induction todo generalizing claim claim' with
  | nil =>
    intro hnext
    exact ⟨claim_eq hclaim rfl (h hnext).1, claim_eq hclaim rfl (h hnext).2⟩
  | cons statement todo ih =>
    cases statement with
    | lock id => exact ih h hclaim
    | unlock id => exact ih h hclaim
    | write w => exact ⟨h.1.imp_left (claim_eq hclaim rfl), ih h.2 hclaim⟩
    | read id => exact ⟨claim_eq hclaim rfl h.1, ih h.2 hclaim⟩
    | clearTaken id => exact ⟨claim_eq hclaim rfl h.1, ih h.2 (update_claim_eq hclaim id _)⟩
    | close id => exact ⟨claim_eq hclaim rfl h.1, ih h.2 (update_claim_eq hclaim id _)⟩

end Covered

theorem onTurn_cases (player1 player2 : Slot) (round : ℕ) :
    onTurn player1 player2 round = player1 ∧ onTurn player1 player2 (round + 1) = player2 ∨
      onTurn player1 player2 round = player2 ∧ onTurn player1 player2 (round + 1) = player1 := by
  unfold onTurn
  rcases Nat.mod_two_eq_zero_or_one round with h | h
  · left
    simp [h, Nat.add_mod]
  · right
    simp [h, Nat.add_mod]

theorem covered_decide {t : ℕ} {game game' : Game} {claim : Slot → Claim}
    (hne : game.player1 ≠ game.player2) (htodo : game.todo = [])
    (hcovered : Covered t game.player1 game.player2 game.next [] claim)
    (h : game.decide = some game') :
    game'.player1 = game.player1 ∧ game'.player2 = game.player2 ∧
      game'.occupant = game.occupant ∧
      Covered t game'.player1 game'.player2 game'.next game'.todo claim := by
  unfold Game.decide at h
  split at h
  case h_3 => cases h
  case h_4 => cases h
  · rename_i hnext
    obtain ⟨h1, h2⟩ := hcovered (.inl hnext)
    split_ifs at h
    · obtain rfl := Option.some.inj h
      refine ⟨rfl, rfl, rfl, ?_⟩
      simp [Game.sendEnd, sendMsgEnd, disconnectClient, Covered, h1, h2, hne.symm]
    · obtain rfl := Option.some.inj h
      refine ⟨rfl, rfl, rfl, ?_⟩
      have hplayer : claim game.player = .owned t := by
        rcases onTurn_cases game.player1 game.player2 game.position.round with h | h
        · rw [Game.player, h.1, h1]
        · rw [Game.player, h.1, h2]
      simp [Game.sendMove, sendMsgMove, synchronized, Covered, h1, h2, hplayer]
  · rename_i hnext
    obtain ⟨h1, h2⟩ := hcovered (.inr hnext)
    split at h
    · obtain rfl := Option.some.inj h
      refine ⟨rfl, rfl, rfl, ?_⟩
      have hplayers : claim game.player = .owned t ∧ claim game.opponent = .owned t ∧
          game.opponent ≠ game.player := by
        rcases onTurn_cases game.player1 game.player2 game.position.round with h | h
        · rw [Game.player, Game.opponent, h.1, h.2]
          exact ⟨h1, h2, hne.symm⟩
        · rw [Game.player, Game.opponent, h.1, h.2]
          exact ⟨h2, h1, hne⟩
      obtain ⟨hplayer, hopponent, hother⟩ := hplayers
      simp [Game.leave, sendMsgDisconnect, GameServer.sendMsgDisconnect, sendMsgWaiting,
        GameServer.sendMsgWaiting, disconnectClient, synchronized, Covered,
        hplayer, hopponent, hother]
    · obtain rfl := Option.some.inj h
      refine ⟨rfl, rfl, rfl, ?_⟩
      simp [htodo, Covered, h1, h2]
    · obtain rfl := Option.some.inj h
      refine ⟨rfl, rfl, rfl, ?_⟩
      simp [Game.sendUpdate, sendMsgUpdate, Covered, h1, h2]

theorem covered_startGame {t : ℕ} {claim : Slot → Claim} {player1 player2 : Slot}
    (h1 : claim player1 = .owned t) (h2 : claim player2 = .owned t) (name : Slot → Name)
    (occupant : Slot → ℕ) (msg : Message) : Covered t player1 player2
      (startGame name occupant player1 player2 msg).next
      (startGame name occupant player1 player2 msg).todo claim := by
  simp [startGame, sendMsgStart, sendMsgUpdate, Covered, h1, h2]

/-! ## The invariant -/

/-- The slot leads to the open socket of the client that occupies it. -/
def Holding (s : State) (p : Slot) : Prop :=
  s.socket p = some (s.occupant p) ∧ (s.thread (s.occupant p)).Placed

def SlotInv (s : State) (p : Slot) : Prop :=
  match s.claim p with
  | .free => (s.clients p).taken = true → Holding s p
  | .filling t => ∃ client_fd msg assignment, s.thread t = .filling client_fd msg p assignment ∧
      assignment ≠ .name ∧ (assignment ≠ .taken → (s.clients p).taken = true) ∧
      (assignment = .socket_fd → (s.clients p).playing = true)
  | .owned t => (s.clients p).taken = true ∧
      ((s.clients p).playing = true ∨ ∃ client_fd id, s.thread t = .marking client_fd id p) ∧
      Holding s p
  | .closing _ => (s.clients p).taken = false ∧ Holding s p

def ThreadInv (s : State) (t : ℕ) : Prop :=
  match s.thread t with
  | .filling _ _ id assignment =>
    if assignment = .name then s.claim id = .owned t ∧ s.occupant id = t
    else s.claim id = .filling t
  | .pairing _ id _ | .idling _ id => s.claim id = .owned t ∧ s.occupant id = t
  | .marking _ id i | .unlocking _ id i =>
    s.claim id = .owned t ∧ s.occupant id = t ∧ s.claim i = .owned t ∧ i ≠ id
  | .game game =>
    game.player1 ≠ game.player2 ∧
      Covered t game.player1 game.player2 game.next game.todo s.claim ∧
      ∀ p, (s.claim p).By (.thread t) → s.occupant p = game.occupant p
  | _ => True

/-- The slot has an occupant. -/
def Live (s : State) (p : Slot) : Prop :=
  match s.claim p with
  | .free => (s.clients p).taken = true
  | .filling _ => False
  | _ => True

structure Inv (s : State) : Prop where
  idle : ∀ t, s.count ≤ t → s.thread t = .absent
  critical : ∀ t, (s.thread t).critical = true → s.clients_mutex = some t
  fresh : ∀ t client_fd, (s.thread t).fresh = some client_fd → s.fds client_fd = some t
  thread : ∀ t, ThreadInv s t
  slot : ∀ p, SlotInv s p
  pinger : ∀ i, s.pinger = .close i → s.claim i = .closing .pinger
  distinct : ∀ p q, Live s p → Live s q → s.occupant p = s.occupant q → p = q

theorem inv_start : Inv start where
  idle _ _ := rfl
  critical _ h := by cases h
  fresh _ _ h := by cases h
  thread _ := trivial
  slot _ h := by cases h
  pinger _ h := by cases h
  distinct _ _ h := by cases h

section Inv

variable {s s' : State} {t : ℕ}

/-- The occupant of a slot does not change when some thread that is past its own
assignment of a slot moves. -/
theorem Holding.move {p : Slot} (h : Holding s p) {thread : Thread}
    (hsocket : s'.socket p = s.socket p) (hoccupant : s'.occupant p = s.occupant p)
    (hthread : s'.thread = Function.update s.thread t thread) (hplaced : thread.Placed) :
    Holding s' p := by
  refine ⟨?_, ?_⟩
  · rw [hsocket, hoccupant]
    exact h.1
  · rw [hoccupant, hthread]
    by_cases hx : s.occupant p = t
    · rw [hx, Function.update_self]
      exact hplaced
    · rw [Function.update_of_ne hx]
      exact h.2

theorem slotInv_owned {p : Slot} (hclaim : s.claim p = .owned t)
    (htaken : (s.clients p).taken = true) (hplaying : (s.clients p).playing = true ∨
      ∃ client_fd id, s.thread t = .marking client_fd id p) (hholding : Holding s p) :
    SlotInv s p := by
  rw [SlotInv, hclaim]
  exact ⟨htaken, hplaying, hholding⟩

theorem SlotInv.congr {p : Slot} (h : SlotInv s p) (hclients : s'.clients p = s.clients p)
    (hclaim : s'.claim p = s.claim p)
    (hthread : ∀ x, (s.thread x).WorksOn p → s'.thread x = s.thread x)
    (hholding : Live s p → Holding s p → Holding s' p) : SlotInv s' p := by
  unfold SlotInv at h ⊢
  unfold Live at hholding
  rw [hclients, hclaim]
  cases hcase : s.claim p <;> rw [hcase] at h hholding
  case free => exact fun htaken => hholding htaken (h htaken)
  case filling x =>
    obtain ⟨client_fd, msg, assignment, hx, hrest⟩ := h
    exact ⟨client_fd, msg, assignment, (hthread x (by rw [hx]; rfl)).trans hx, hrest⟩
  case owned x =>
    obtain ⟨htaken, hplaying, hhold⟩ := h
    refine ⟨htaken, hplaying.imp_right ?_, hholding trivial hhold⟩
    rintro ⟨client_fd, id, hx⟩
    exact ⟨client_fd, id, (hthread x (by rw [hx]; rfl)).trans hx⟩
  case closing => exact ⟨h.1, hholding trivial h.2⟩

theorem ThreadInv.congr (h : ThreadInv s t) (hthread : s'.thread t = s.thread t)
    (hmine : ∀ q, (s.claim q).By (.thread t) ∨ (s'.claim q).By (.thread t) →
      s'.claim q = s.claim q ∧ s'.occupant q = s.occupant q) : ThreadInv s' t := by
  have howned : ∀ q, s.claim q = .owned t → s'.claim q = .owned t ∧ s'.occupant q = s.occupant q := by
    intro q hq
    obtain ⟨hclaim, hoccupant⟩ := hmine q (.inl (by rw [hq]; rfl))
    exact ⟨hclaim.trans hq, hoccupant⟩
  unfold ThreadInv at h ⊢
  rw [hthread]
  cases hcase : s.thread t <;> rw [hcase] at h <;> try trivial
  case filling client_fd msg id assignment =>
    dsimp only at h ⊢
    split_ifs at h ⊢
    · exact ⟨(howned id h.1).1, (howned id h.1).2.trans h.2⟩
    · exact (hmine id (.inl (by rw [h]; rfl))).1.trans h
  case pairing client_fd id rest => exact ⟨(howned id h.1).1, (howned id h.1).2.trans h.2⟩
  case idling client_fd id => exact ⟨(howned id h.1).1, (howned id h.1).2.trans h.2⟩
  case marking client_fd id i =>
    obtain ⟨hid, hoccupant, hi, hne⟩ := h
    exact ⟨(howned id hid).1, (howned id hid).2.trans hoccupant, (howned i hi).1, hne⟩
  case unlocking client_fd id i =>
    obtain ⟨hid, hoccupant, hi, hne⟩ := h
    exact ⟨(howned id hid).1, (howned id hid).2.trans hoccupant, (howned i hi).1, hne⟩
  case game game =>
    obtain ⟨hne, hcovered, hoccupant⟩ := h
    refine ⟨hne, hcovered.congr fun q hq => (hmine q (.inl hq)).1, ?_⟩
    intro q hq
    obtain ⟨hclaim, hsame⟩ := hmine q (.inr hq)
    rw [hsame]
    exact hoccupant q (hclaim ▸ hq)

/-! ## What the threads know -/

theorem Inv.holding (hs : Inv s) {p : Slot} (h : Live s p) : Holding s p := by
  have hslot := hs.slot p
  unfold SlotInv at hslot
  unfold Live at h
  cases hclaim : s.claim p <;> rw [hclaim] at hslot h
  · exact hslot h
  · exact h.elim
  · exact hslot.2.2
  · exact hslot.2

theorem Inv.socket_ne (hs : Inv s) {p q : Slot} (hp : Live s p) (hq : Live s q) (hne : q ≠ p) :
    (s.clients q).socket_fd ≠ (s.clients p).socket_fd := by
  intro heq
  have hsame : s.socket q = s.socket p := by rw [State.socket, State.socket, heq]
  rw [(hs.holding hp).1, (hs.holding hq).1, Option.some.injEq] at hsame
  exact hne (hs.distinct q p hq hp hsame)

theorem Inv.owned (hs : Inv s) {p : Slot} (hclaim : s.claim p = .owned t) :
    (s.clients p).taken = true ∧
      ((s.clients p).playing = true ∨ ∃ client_fd id, s.thread t = .marking client_fd id p) ∧
      Holding s p := by
  have hslot := hs.slot p
  rwa [SlotInv, hclaim] at hslot

theorem Inv.alone (hs : Inv s) {x y : ℕ} (hx : (s.thread x).critical = true)
    (hy : (s.thread y).critical = true) : x = y :=
  Option.some.inj ((hs.critical x hx).symm.trans (hs.critical y hy))

theorem Inv.filling (hs : Inv s) {client_fd : ℤ} {msg : Message} {id : Slot}
    {assignment : Assignment} (hat : s.thread t = .filling client_fd msg id assignment)
    (hname : assignment ≠ .name) : s.claim id = .filling t ∧
      (assignment ≠ .taken → (s.clients id).taken = true) ∧
      (assignment = .socket_fd → (s.clients id).playing = true) := by
  have hthread := hs.thread t
  rw [ThreadInv, hat] at hthread
  dsimp only at hthread
  rw [if_neg hname] at hthread
  have hslot := hs.slot id
  rw [SlotInv, hthread] at hslot
  obtain ⟨_, _, _, hfilling, _, htaken, hplaying⟩ := hslot
  rw [hat] at hfilling
  cases hfilling
  exact ⟨hthread, htaken, hplaying⟩

/-- A client that `connect_pending` finds waiting belongs to no thread. -/
theorem Inv.free_of_waiting (hs : Inv s) {client_fd : ℤ} {id i : Slot} {rest : List Slot}
    (hat : s.thread t = .pairing client_fd id rest) (htaken : (s.clients i).taken = true)
    (hplaying : (s.clients i).playing = false) : s.claim i = .free := by
  have hcritical : (s.thread t).critical = true := by rw [hat]; rfl
  have hslot := hs.slot i
  unfold SlotInv at hslot
  cases hclaim : s.claim i <;> rw [hclaim] at hslot
  case filling x =>
    obtain ⟨_, _, _, hx, _⟩ := hslot
    obtain rfl := hs.alone hcritical (by rw [hx]; rfl)
    rw [hat] at hx
    cases hx
  case owned x =>
    obtain ⟨_, hplays | ⟨_, _, hx⟩, _⟩ := hslot
    · exact absurd (hplaying.symm.trans hplays) (by simp)
    · obtain rfl := hs.alone hcritical (by rw [hx]; rfl)
      rw [hat] at hx
      cases hx
  case closing => exact absurd (htaken.symm.trans hslot.1) (by simp)

theorem Inv.game (hs : Inv s) {game : Game} (hat : s.thread t = .game game) :
    game.player1 ≠ game.player2 ∧
      Covered t game.player1 game.player2 game.next game.todo s.claim ∧
      ∀ p, (s.claim p).By (.thread t) → s.occupant p = game.occupant p := by
  have hthread := hs.thread t
  rwa [ThreadInv, hat] at hthread

end Inv

end Sysopy.GameServer.Threads
