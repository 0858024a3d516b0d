import Sysopy.GameServer.SlotSteps

/-!
# Whose sockets a game uses

A game uses the descriptors in its two slots at every write, read and close, and finds
them by the slots. They are those of the two clients that it began with as long as the
slots are kept, except for the last write in the branch for a player that left, which
comes after the socket has been closed.
-/
namespace Sysopy.GameServer.Threads

open Transition

/-- The slot whose `socket_fd` the statement uses. -/
def Statement.socketOf : Statement → Option Slot
  | .write w => some w.player
  | .read id | .close id => some id
  | _ => none

/-- The socket that a game uses is open and that of the client with which it began. -/
def OnOwnSocket (s : State) : Action → Prop
  | .run t _ _ =>
    match s.thread t with
    | .game game => ∀ statement ∈ game.todo.head?, ∀ p ∈ statement.socketOf,
        s.socket p = some (game.occupant p)
    | _ => True
  | _ => True

/-- No game comes to the last statement of the branch for a player that left, the write
of `send_msg_waiting`. -/
def NobodyTold (s : State) : Action → Prop
  | .run t _ _ =>
    match s.thread t with
    | .game game => game.next = .left → game.todo.length ≠ 1
    | _ => True
  | _ => True

def Orderly (s : State) (a : Action) : Prop := KeepsSlots s a ∧ NobodyTold s a

section Decidable

variable (s : State)

instance : DecidablePred (KeepsSlots s) := fun a => by
  unfold KeepsSlots
  split <;> (try split) <;> infer_instance

instance : DecidablePred (NobodyTold s) := fun a => by
  unfold NobodyTold
  split <;> (try split) <;> infer_instance

instance : DecidablePred (OnOwnSocket s) := fun a => by
  unfold OnOwnSocket
  split <;> (try split) <;> infer_instance

instance : DecidablePred (Orderly s) := fun _ => inferInstanceAs (Decidable (_ ∧ _))

end Decidable

theorem Inv.onOwnSocket {s : State} (hs : Inv s) {a : Action} (htold : NobodyTold s a) :
    OnOwnSocket s a := by
  cases a with
  | run t reading junk =>
    simp only [OnOwnSocket]
    split
    · rename_i game hat
      obtain ⟨_, hcovered, hoccupant⟩ := hs.game hat
      -- the descriptor is that of the occupant, and the occupant is that of the beginning
      have hown : ∀ p, (s.claim p).By (.thread t) → Live s p →
          s.socket p = some (game.occupant p) := by
        intro p hby hlive
        rw [(hs.holding hlive).1, hoccupant p hby]
      have howned : ∀ p, s.claim p = .owned t → s.socket p = some (game.occupant p) := by
        intro p hclaim
        exact hown p (by rw [hclaim]; rfl) (by rw [Live, hclaim]; trivial)
      intro statement hstatement p hp
      cases htodo : game.todo with
      | nil =>
        rw [htodo] at hstatement
        cases hstatement
      | cons first todo =>
        rw [htodo, List.head?_cons, Option.mem_def, Option.some.injEq] at hstatement
        subst hstatement
        rw [htodo] at hcovered
        cases first with
        | write w =>
          obtain rfl := Option.some.inj hp
          rcases hcovered.1 with hclaim | ⟨hnext, rfl⟩
          · exact howned w.player hclaim
          · -- only `send_msg_waiting` writes without its slot
            simp only [NobodyTold, hat] at htold
            apply absurd (htold hnext)
            rw [htodo]
            exact fun h => h rfl
        | read id =>
          obtain rfl := Option.some.inj hp
          exact howned id hcovered.1
        | close id =>
          obtain rfl := Option.some.inj hp
          exact hown id (by rw [hcovered.1]; rfl) (by rw [Live, hcovered.1]; trivial)
        | lock | unlock | clearTaken => cases hp
    · trivial
  | _ => trivial

/-- In a run that keeps the slots, a game uses only open sockets of the clients with
which it began, up to its `send_msg_waiting`. -/
theorem onOwnSocket_of_orderly (schedule : List Action) (h : Along step Orderly start schedule) :
    Along step OnOwnSocket start schedule := by
  apply along_invariant (C := Orderly) (P := Inv)
  · intro s a s' hs horderly hstep
    exact hs.step horderly.1 hstep
  · intro s a hs horderly
    exact hs.onOwnSocket horderly.2
  · exact inv_start
  · exact h

/-- Steps of one thread without anything to read. -/
def runs (t steps : ℕ) : List Action := List.replicate steps (.run t .failed (connectMessage 0))

/-- Two clients connect, and the thread of the second asks the first for a move. -/
def gameOfTwo : List Action :=
  [.accept 5, .run 0 (.got (connectMessage 65)) (connectMessage 0)] ++ runs 0 75 ++
    [.accept 6, .run 1 (.got (connectMessage 66)) (connectMessage 0)] ++ runs 1 50

/-- The first client leaves when it is asked for its move, and the game does the number of
steps. -/
def oneLeaves (steps : ℕ) : List Action :=
  gameOfTwo ++ [.run 1 (.got ⟨fun _ => 0, .msgDisconnect⟩) (connectMessage 0)] ++ runs 1 steps

theorem onOwnSocket_oneLeaves : Along step OnOwnSocket start (oneLeaves 9) :=
  onOwnSocket_of_orderly (oneLeaves 9) (by decide +kernel)

/-- The tenth step is `send_msg_waiting`. -/
theorem not_onOwnSocket_leaving : ¬ ∀ schedule, Along step OnOwnSocket start schedule := by
  intro hclaim
  have hleaving := hclaim (oneLeaves 10)
  revert hleaving
  decide +kernel

end Sysopy.GameServer.Threads
