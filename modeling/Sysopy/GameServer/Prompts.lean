import Sysopy.GameServer.Turns
import Sysopy.Library.Family

/-!
# What the players see

Whoever is asked for a number sees the board that the numbers typed so far have made, and it is
that player's turn; in the end a player is told how the game has ended. Short as the answers are,
each read of the server gets one of them and nothing else, so the game is the one that the players
have typed.
-/
namespace Sysopy.GameServer.Match

open Transition Family
open Threads (Game Statement Pinger Next startGame nextSlot disconnectClient)

/-! ## The way to the next prompt -/

variable {m : Setup} {s s' : State} {p : Slot} {unread : List Message}

section Step

variable (hs : Inv m s)

include hs

theorem Inv.ended {v : Verdict} (hp : p = m.player1 ∨ p = m.player2)
    (hplace : (s.player p).place = .ended v) :
    checkBoard (positionOf s.typed).board ≠ 0 ∧
      (s.player p).shown = some (positionOf s.typed).board ∧
      v = verdict (checkBoard (positionOf s.typed).board) (m.symbolOf p) := by
  obtain ⟨unread, hslot⟩ := hs.slot p
  cases hgame : s.game with
  | none => exact absurd hplace ((hslot.unbegun (by rw [State.table, hgame]; rfl)).2 v)
  | some game =>
    have hg := hs.game game hgame
    obtain ⟨hnext, hshown, hv⟩ :=
      (hslot.told game.position game.next (by rw [State.table, hgame]; rfl) hp).ended v hplace
    have hphase := hg.phase
    generalize hgiven : s.given = given at hphase
    cases hphase with
    | ends _ _ hclosed =>
      have htyped : positionOf s.typed = game.position := by
        rw [hg.position, State.typed, hgiven, Option.toList_none, List.append_nil]
      rw [htyped]
      exact ⟨hclosed, hshown, hv⟩
    | tells _ h | locks h | asks h | waits _ h | heard _ h | moved _ h =>
      rw [hnext] at h
      cases h

end Step

end Sysopy.GameServer.Match
