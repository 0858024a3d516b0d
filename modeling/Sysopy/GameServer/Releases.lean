import Sysopy.GameServer.Frames
import Sysopy.GameServer.Sockets

/-!
# Clients that have left

A client leaves by sending `MSG_DISCONNECT` or by closing its end. When a game has read
the message, the client belongs to the thread of the game until its slot is released,
and nobody else is about to write to it.
-/
namespace Sysopy.GameServer.Threads

open Transition

/-- The descriptor to which the step writes. -/
def State.writesTo (s : State) : Action → Option ℤ
  | .run t _ _ => s.receiver (.thread t)
  | .ping _ _ => s.receiver .pinger
  | .sigpipe owner => s.receiver owner
  | .accept _ => none

/-- The slot of the client that `connect_pending` pairs with a newcomer in the step. -/
def State.pairs (s : State) : Action → Option Slot
  | .run t _ _ =>
    match s.thread t with
    | .marking _ _ i => some i
    | _ => none
  | _ => none

/-- The step does not write to a client that has left, nor pairs it. -/
def SparesDeparted (s : State) (a : Action) : Prop :=
  (∀ client_fd ∈ s.writesTo a, ∀ k ∈ s.fds client_fd, s.departed k = false) ∧
    ∀ i ∈ s.pairs a, s.departed (s.occupant i) = false

/-! ## When departures are noticed -/

/-- The thread has nothing that leads to the client `k` and to which it may yet write. -/
def SilentTo (s : State) (k : ℕ) : Thread → Prop
  | .game game => ∀ statement ∈ game.todo, ∀ p ∈ statement.receiver, s.socket p ≠ some k
  | thread => ∀ client_fd ∈ thread.client_fd, s.fds client_fd ≠ some k

/-- Nobody but the thread `t` is about to write to the client `k`. -/
def Unaddressed (s : State) (t k : ℕ) : Prop :=
  (∀ x < s.count, x ≠ t → SilentTo s k (s.thread x)) ∧
    ∀ i, s.pinger = .write i → s.socket i ≠ some k

/-- The game has read `MSG_DISCONNECT` and not yet released the slot of the player. -/
def Game.Releasing (game : Game) : Prop :=
  game.next = .moved ∧ game.msg.type = .msgDisconnect ∧
      (game.todo = [.unlock game.player] ∨ game.todo = []) ∨
    game.next = .left ∧ ([.lock game.player, .clearTaken game.player] <+: game.todo ∨
      [.clearTaken game.player] <+: game.todo)

/-- The pinger reads no departure, and a game no end of file. When a game reads
`MSG_DISCONNECT`, nobody else is about to write to the client, and the pinger does not
come to it until its slot has been released. -/
def HeedsReads (s : State) : Action → Prop
  | .run t reading _ =>
    match s.thread t with
    | .game game =>
      match game.todo with
      | .read p :: _ =>
        match reading with
        | .got msg => msg.type = .msgDisconnect → ∀ k ∈ s.socket p, Unaddressed s t k
        | .eof => False
        | .failed => True
      | _ => True
    | _ => True
  | .ping _ reading =>
    match s.pinger with
    | .test i => (s.clients i).taken = true → ∀ t < s.count,
        match s.thread t with
        | .game game => game.Releasing → s.socket game.player ≠ s.socket i
        | _ => True
    | .read _ => reading.departs = false
    | _ => True
  | .accept _ | .sigpipe _ => True

def Attentive (s : State) (a : Action) : Prop := KeepsSlots s a ∧ HeedsReads s a

section Decidable

variable (s : State)

instance : DecidablePred (SparesDeparted s) := fun _ => inferInstanceAs (Decidable (_ ∧ _))

instance (k : ℕ) : DecidablePred (SilentTo s k) := fun thread => by
  unfold SilentTo
  split <;> infer_instance

instance (t k : ℕ) : Decidable (Unaddressed s t k) := inferInstanceAs (Decidable (_ ∧ _))

instance : DecidablePred Game.Releasing := fun _ => inferInstanceAs (Decidable (_ ∨ _))

instance decidableGame (thread : Thread) (P : Game → Prop) [DecidablePred P] :
    Decidable (match thread with | .game game => P game | _ => True) := by
  cases thread <;> dsimp only <;> infer_instance

instance decidablePinger (pinger : Pinger) (P : Slot → Prop) (Q : Prop) [DecidablePred P]
    [Decidable Q] : Decidable (match pinger with | .test i => P i | .read _ => Q | _ => True) := by
  cases pinger <;> dsimp only <;> infer_instance

instance : DecidablePred (HeedsReads s)
  | .run t reading _ => by
    unfold HeedsReads
    refine @decidableGame (s.thread t) _ fun game => ?_
    rcases game.todo with _ | ⟨statement, rest⟩
    · exact inferInstanceAs (Decidable True)
    · cases statement <;> cases reading <;> dsimp only <;> infer_instance
  | .ping _ reading => by
    unfold HeedsReads
    refine @decidablePinger s.pinger _ (reading.departs = false) (fun i => ?_) _
    refine @instDecidableForall _ _ _ ?_
    exact @Nat.decidableBallLT _ _ fun t _ => decidableGame (s.thread t) _
  | .accept _ | .sigpipe _ => isTrue trivial

instance : DecidablePred (Attentive s) := fun _ => inferInstanceAs (Decidable (_ ∧ _))

end Decidable

/-! ## The invariant -/

/-- The thread `t` is about to release the slot of the client `k`. -/
def Releases (s : State) (t k : ℕ) : Prop :=
  ∃ game, s.thread t = .game game ∧ game.Releasing ∧ s.claim game.player = .owned t ∧
    s.occupant game.player = k

/-- A game reads only the answer to its request for a move. -/
def Game.Asking (game : Game) : Prop :=
  ∀ p todo, .read p :: todo <:+ game.todo →
    p = game.player ∧ todo = [.unlock p] ∧ game.next = .moved

structure Heeded (s : State) : Prop where
  asking : ∀ t game, s.thread t = .game game → game.Asking
  departed : ∀ k, s.departed k = true → ∃ t, Releases s t k ∧ Unaddressed s t k

section Unaddressed

variable {s s' : State} {t k : ℕ}

theorem Unaddressed.silentTo (h : Unaddressed s t k) (hs : Inv s) {x : ℕ} (hx : x ≠ t) :
    SilentTo s k (s.thread x) := by
  by_cases hcount : x < s.count
  · exact h.1 x hcount hx
  · rw [hs.idle x (Nat.le_of_not_lt hcount)]
    intro client_fd hfd
    cases hfd

theorem SilentTo.congr {thread : Thread} (h : SilentTo s k thread)
    (hfds : ∀ fd, s'.fds fd = some k → s.fds fd = some k)
    (hsocket : ∀ p, s'.socket p = some k → s.socket p = some k) : SilentTo s' k thread := by
  cases thread with
  | game game =>
    intro statement hstatement p hp hk
    exact h statement hstatement p hp (hsocket p hk)
  | _ =>
    intro client_fd hfd hk
    exact h client_fd hfd (hfds client_fd hk)

theorem Unaddressed.congr (h : Unaddressed s t k) (hs : Inv s)
    (hfds : ∀ fd, s'.fds fd = some k → s.fds fd = some k)
    (hsocket : ∀ p, s'.socket p = some k → s.socket p = some k)
    (hthread : ∀ x, x ≠ t → s'.thread x = s.thread x ∨ SilentTo s' k (s'.thread x))
    (hpinger : ∀ i, s'.pinger = .write i → s.pinger = .write i ∨ s.socket i ≠ some k) :
    Unaddressed s' t k := by
  refine ⟨?_, ?_⟩
  · intro x _ hx
    rcases hthread x hx with hsame | hsilent
    · rw [hsame]
      exact (h.silentTo hs hx).congr hfds hsocket
    · exact hsilent
  · intro i hi hk
    rcases hpinger i hi with hwrite | hne
    · exact h.2 i hwrite (hsocket i hk)
    · exact hne (hsocket i hk)

theorem Releases.socket_ne (h : Releases s t k) (hs : Inv s) {p : Slot} {x : ℕ}
    (hclaim : s.claim p = .owned x) (hx : x ≠ t) : s.socket p ≠ some k := by
  obtain ⟨game, _, _, hplayer, hoccupant⟩ := h
  intro hk
  have hp : Live s p := by rw [Live, hclaim]; trivial
  have hlive : Live s game.player := by rw [Live, hplayer]; trivial
  rw [(hs.holding hp).1, Option.some.injEq, ← hoccupant] at hk
  have hsame := hs.distinct p game.player hp hlive hk
  rw [hsame, hplayer] at hclaim
  exact hx (Claim.owned.inj hclaim).symm

theorem Releases.kept (h : Releases s t k) (hthread : s'.thread t = s.thread t)
    (hslots : ∀ p, s.claim p = .owned t → s'.claim p = .owned t ∧ s'.occupant p = s.occupant p) :
    Releases s' t k := by
  obtain ⟨game, hat, hreleasing, hplayer, hoccupant⟩ := h
  obtain ⟨hclaim, hsame⟩ := hslots game.player hplayer
  exact ⟨game, hthread.trans hat, hreleasing, hclaim, hsame.trans hoccupant⟩

theorem Releases.ne_count (h : Releases s t k) (hs : Inv s) : t < s.count ∧ k ≠ s.count := by
  obtain ⟨game, hat, _, hplayer, hoccupant⟩ := h
  constructor
  · by_contra hcount
    cases (hs.idle t (Nat.le_of_not_lt hcount)).symm.trans hat
  · rintro rfl
    have hplaced := (hs.owned hplayer).2.2.2
    rw [hoccupant, hs.idle s.count le_rfl] at hplaced
    exact hplaced.1 rfl

/-- A game that is about to release a slot writes nothing first. -/
theorem Game.Releasing.receiver_head {game : Game} (h : game.Releasing) :
    game.todo.head?.bind Statement.receiver = none := by
  rcases h with ⟨_, _, htodo | htodo⟩ | ⟨_, ⟨rest, htodo⟩ | ⟨rest, htodo⟩⟩
  · rw [htodo]
    rfl
  · rw [htodo]
    rfl
  · rw [← htodo]
    rfl
  · rw [← htodo]
    rfl

/-- Nobody writes to a client that has left. -/
theorem Heeded.receiver (h : Heeded s) (hs : Inv s) {owner : Owner} {client_fd : ℤ}
    (hwrites : s.receiver owner = some client_fd) {k : ℕ} (hk : s.fds client_fd = some k) :
    s.departed k = false := by
  by_contra hleft
  obtain ⟨t, ⟨game, hat, hreleasing, _⟩, haddressed⟩ := h.departed k (by simpa using hleft)
  cases owner with
  | pinger =>
    simp only [State.receiver] at hwrites
    split at hwrites
    · rename_i i hwrite
      obtain rfl := Option.some.inj hwrites
      exact haddressed.2 i hwrite hk
    · cases hwrites
  | thread x =>
    have hsilent : x ≠ t → SilentTo s k (s.thread x) := haddressed.silentTo hs
    simp only [State.receiver] at hwrites
    split at hwrites
    · rename_i fd hx
      rw [hx] at hsilent
      obtain rfl := Option.some.inj hwrites
      exact hsilent (by rintro rfl; cases hx.symm.trans hat) fd rfl hk
    · rename_i fd hx
      rw [hx] at hsilent
      obtain rfl := Option.some.inj hwrites
      exact hsilent (by rintro rfl; cases hx.symm.trans hat) fd rfl hk
    · rename_i game' hx
      obtain ⟨p, hp, rfl⟩ := Option.map_eq_some_iff.mp hwrites
      by_cases hxt : x = t
      · subst hxt
        obtain rfl := Thread.game.inj (hx.symm.trans hat)
        rw [hreleasing.receiver_head] at hp
        cases hp
      · obtain ⟨statement, hhead, hreceiver⟩ := Option.bind_eq_some_iff.mp hp
        rw [hx] at hsilent
        exact hsilent hxt statement (List.mem_of_mem_head? hhead) p hreceiver hk
    · cases hwrites

theorem Heeded.sparesDeparted (h : Heeded s) (hs : Inv s) (a : Action) : SparesDeparted s a := by
  refine ⟨?_, ?_⟩
  · intro client_fd hwrites k hk
    cases a with
    | accept fd => cases hwrites
    | run t reading junk =>
      have hthread : s.receiver (.thread t) = some client_fd := hwrites
      exact h.receiver hs hthread hk
    | ping available reading =>
      have hpinger : s.receiver .pinger = some client_fd := hwrites
      exact h.receiver hs hpinger hk
    | sigpipe owner =>
      have howner : s.receiver owner = some client_fd := hwrites
      exact h.receiver hs howner hk
  · intro i hpairs
    by_contra hleft
    obtain ⟨t, ⟨game, hat, _, hplayer, hoccupant⟩, _⟩ :=
      h.departed (s.occupant i) (by simpa using hleft)
    cases a with
    | run x reading junk =>
      simp only [State.pairs] at hpairs
      split at hpairs
      · rename_i client_fd id i' hx
        obtain rfl := Option.some.inj hpairs
        have hthread := hs.thread x
        rw [ThreadInv, hx] at hthread
        have hi : Live s i' := by rw [Live, hthread.2.2.1]; trivial
        have hlive : Live s game.player := by rw [Live, hplayer]; trivial
        have hsame := hs.distinct game.player i' hlive hi hoccupant
        rw [hsame, hthread.2.2.1] at hplayer
        obtain rfl := Claim.owned.inj hplayer
        cases hx.symm.trans hat
      · cases hpairs
    | accept fd => cases hpairs
    | ping available reading => cases hpairs
    | sigpipe owner => cases hpairs

end Unaddressed

end Sysopy.GameServer.Threads
