import Sysopy.GameServer.Releases

/-!
# Departures of clients

A client leaves by sending `MSG_DISCONNECT` or by closing its end. A game that reads the
message releases the slot of the client, and nobody writes to the client in between
unless it was about to: an accepting thread with its `MSG_WAITING`, the pinger, or a
game with a last message for a slot that it has given up. The pinger drops what it
reads, and `send_msg_move` does not see the end of file.
-/
namespace Sysopy.GameServer.Threads

open Transition

/-! ## What a game decides -/

section Decisions

variable {game game' : Game}

theorem asking_of_not_mem (h : ∀ p, .read p ∉ game.todo) : game.Asking := by
  intro p todo hsuffix
  exact absurd (hsuffix.subset List.mem_cons_self) (h p)

theorem asking_startGame (name : Slot → Name) (occupant : Slot → ℕ) (player1 player2 : Slot)
    (msg : Message) : (startGame name occupant player1 player2 msg).Asking := by
  apply asking_of_not_mem
  simp [startGame]

theorem Game.Asking.decide (htodo : game.todo = []) (h : game.decide = some game') :
    game'.Asking := by
  unfold Game.decide at h
  split at h
  · split_ifs at h
    · obtain rfl := Option.some.inj h
      apply asking_of_not_mem
      simp [Game.sendEnd, disconnectClient]
    · obtain rfl := Option.some.inj h
      intro p todo hsuffix
      simp only [Game.sendMove, synchronized, sendMsgMove, List.map_cons, List.map_nil,
        List.cons_append, List.nil_append, List.suffix_cons_iff, List.cons.injEq] at hsuffix
      simp at hsuffix
      exact ⟨hsuffix.1, by rw [hsuffix.1, hsuffix.2], rfl⟩
  · split at h
    · obtain rfl := Option.some.inj h
      apply asking_of_not_mem
      simp [Game.leave, synchronized, sendMsgDisconnect, GameServer.sendMsgDisconnect,
        sendMsgWaiting, GameServer.sendMsgWaiting, disconnectClient]
    · obtain rfl := Option.some.inj h
      apply asking_of_not_mem
      simp [htodo]
    · obtain rfl := Option.some.inj h
      apply asking_of_not_mem
      simp [Game.sendUpdate]
  · cases h
  · cases h

theorem next_of_decide_some (h : game.decide = some game') :
    game.next = .loop ∨ game.next = .moved := by
  unfold Game.decide at h
  split at h
  case h_1 hnext => exact .inl hnext
  case h_2 hnext => exact .inr hnext
  all_goals cases h

theorem receiver_startGame {name : Slot → Name} {occupant : Slot → ℕ} {player1 player2 : Slot}
    {msg : Message} {statement : Statement}
    (h : statement ∈ (startGame name occupant player1 player2 msg).todo) {p : Slot}
    (hp : statement.receiver = some p) : p = player1 ∨ p = player2 := by
  simp only [startGame, sendMsgStart, sendMsgUpdate, List.map_cons, List.map_nil, List.cons_append,
    List.nil_append, List.mem_cons, List.not_mem_nil, or_false] at h
  rcases h with rfl | rfl | rfl | rfl <;> obtain rfl := Option.some.inj hp <;> simp

theorem receiver_decide (htodo : game.todo = []) (h : game.decide = some game')
    {statement : Statement} (hstatement : statement ∈ game'.todo) {p : Slot}
    (hp : statement.receiver = some p) : p = game.player1 ∨ p = game.player2 := by
  have hplayers : ∀ round, onTurn game.player1 game.player2 round = game.player1 ∨
      onTurn game.player1 game.player2 round = game.player2 := by
    intro round
    rcases onTurn_cases game.player1 game.player2 round with h | h
    · exact .inl h.1
    · exact .inr h.1
  unfold Game.decide at h
  split at h
  · split_ifs at h
    · obtain rfl := Option.some.inj h
      simp [Game.sendEnd, sendMsgEnd, disconnectClient] at hstatement
      rcases hstatement with rfl | rfl | rfl | rfl | rfl | rfl <;> cases hp <;> simp
    · obtain rfl := Option.some.inj h
      simp [Game.sendMove, sendMsgMove, synchronized] at hstatement
      rcases hstatement with rfl | rfl | rfl | rfl <;> cases hp
      exact hplayers _
  · split at h
    · obtain rfl := Option.some.inj h
      simp [Game.leave, sendMsgDisconnect, GameServer.sendMsgDisconnect, sendMsgWaiting,
        GameServer.sendMsgWaiting, disconnectClient, synchronized]
        at hstatement
      rcases hstatement with rfl | rfl | rfl | rfl | rfl | rfl | rfl | rfl <;> cases hp <;>
        exact hplayers _
    · obtain rfl := Option.some.inj h
      simp [htodo] at hstatement
    · obtain rfl := Option.some.inj h
      simp [Game.sendUpdate, sendMsgUpdate] at hstatement
      rcases hstatement with rfl | rfl <;> cases hp <;> simp
  · cases h
  · cases h

end Decisions

/-! ## Steps while a slot is being released -/

section Steps

variable {s s' : State} {t x k : ℕ} {reading : Reading} {junk : Message}

theorem silentTo_of_client_fd {thread : Thread} (hgame : ∀ game, thread ≠ .game game)
    (h : ∀ fd, thread.client_fd = some fd → s.fds fd ≠ some k) : SilentTo s k thread := by
  cases thread with
  | game game => exact absurd rfl (hgame game)
  | _ => exact h

theorem SilentTo.client_fd {thread : Thread} (h : SilentTo s k thread) {fd : ℤ}
    (hfd : thread.client_fd = some fd) : s.fds fd ≠ some k := by
  cases thread with
  | game game => cases hfd
  | _ => exact h fd hfd

theorem Unaddressed.runThread (h : Unaddressed s t k) (hs : Inv s) (hreleases : Releases s t k)
    (hx : x ≠ t) (hgame : ∀ game, s.thread x ≠ .game game)
    (hrun : runThread s x reading junk = some s') : Unaddressed s' t k := by
  have hframe := accepting_runThread hgame hrun
  have hsilent := h.silentTo hs hx
  have hsocket : ∀ p, s'.socket p = some k → s.socket p = some k := by
    intro p hp
    rw [State.socket, hframe.fds] at hp
    rcases hframe.socket_fd p with hsame | hown
    · rwa [hsame] at hp
    · exact absurd hp (hsilent.client_fd hown)
  apply h.congr hs
  · intro fd hfd
    rwa [hframe.fds] at hfd
  · exact hsocket
  · intro y hy
    by_cases hyx : y = x
    · subst hyx
      right
      by_cases hafter : ∃ game', s'.thread y = .game game'
      · obtain ⟨game', hafter⟩ := hafter
        rw [hafter]
        rcases game_of_runThread hrun hafter with ⟨_, id, i, hbefore, rfl⟩ | ⟨game, hbefore, _⟩
        · -- a game begins on two slots of the thread
          have hthread := hs.thread y
          rw [ThreadInv, hbefore] at hthread
          obtain ⟨hid, _, hi, _⟩ := hthread
          intro statement hstatement p hp hk
          rcases receiver_startGame hstatement hp with rfl | rfl
          · exact hreleases.socket_ne hs hi hx (hsocket _ hk)
          · exact hreleases.socket_ne hs hid hx (hsocket _ hk)
        · exact absurd hbefore (hgame game)
      · apply silentTo_of_client_fd
        · exact fun game' h => hafter ⟨game', h⟩
        · intro fd hfd
          rw [hframe.fds]
          exact hsilent.client_fd (hframe.client_fd fd hfd)
    · exact .inl (thread_runThread hrun hyx)
  · intro i hi
    rw [hframe.pinger] at hi
    exact .inl hi

theorem Unaddressed.runGame (h : Unaddressed s t k) (hs : Inv s) (hreleases : Releases s t k)
    (hx : x ≠ t) {game : Game} (hat : s.thread x = .game game)
    (hrun : runGame s x game reading = some s') : Unaddressed s' t k := by
  have hsilent := h.silentTo hs hx
  rw [hat] at hsilent
  rcases runGame_cases hrun with ⟨statement, todo, u, msg, htodo, hperform, rfl⟩ |
    ⟨htodo, ⟨game', hdecide, rfl⟩ | rfl⟩
  · obtain ⟨hframe, hpinger⟩ := opensNothing_perform hperform
    apply h.congr hs
    · exact fun fd => hframe.fds fd k
    · exact fun p => hframe.socket
    · intro y hy
      by_cases hyx : y = x
      · subst hyx
        right
        rw [thread_goto_self]
        intro statement' hstatement p hp hk
        refine hsilent statement' ?_ p hp (hframe.socket hk)
        rw [htodo]
        exact List.mem_cons_of_mem _ hstatement
      · left
        rw [thread_goto_of_ne _ _ hyx, thread_perform hperform]
    · intro i hi
      exact .inl (hpinger ▸ hi)
  · apply h.congr hs
    · exact fun _ h => h
    · exact fun _ h => h
    · intro y hy
      by_cases hyx : y = x
      · subst hyx
        right
        rw [thread_goto_self]
        -- what a game decides concerns its own two slots
        obtain ⟨_, hcovered, _⟩ := hs.game hat
        rw [htodo] at hcovered
        obtain ⟨h1, h2⟩ := hcovered (next_of_decide_some hdecide)
        intro statement hstatement p hp hk
        rcases receiver_decide htodo hdecide hstatement hp with rfl | rfl
        · exact hreleases.socket_ne hs h1 hx hk
        · exact hreleases.socket_ne hs h2 hx hk
      · exact .inl (thread_goto_of_ne _ _ hyx)
    · exact fun _ h => .inl h
  · apply h.congr hs
    · exact fun _ h => h
    · exact fun _ h => h
    · intro y hy
      by_cases hyx : y = x
      · subst hyx
        right
        rw [thread_goto_self]
        intro fd hfd
        cases hfd
      · exact .inl (thread_goto_of_ne _ _ hyx)
    · exact fun _ h => .inl h

theorem Unaddressed.runPinger (h : Unaddressed s t k) (hs : Inv s) (hreleases : Releases s t k)
    {available : Bool} (hheeds : HeedsReads s (.ping available reading))
    (hrun : runPinger s available reading = some s') : Unaddressed s' t k := by
  obtain ⟨hframe, hwrite⟩ := opensNothing_runPinger hrun
  apply h.congr hs
  · exact fun fd => hframe.fds fd k
  · exact fun p => hframe.socket
  · intro y _
    exact .inl (by rw [thread_runPinger hrun])
  · intro i hi
    right
    obtain ⟨hat, htaken⟩ := hwrite i hi
    have hcount := (hreleases.ne_count hs).1
    obtain ⟨game, hgame, hreleasing, hplayer, hoccupant⟩ := hreleases
    have hlive : Live s game.player := by rw [Live, hplayer]; trivial
    rw [HeedsReads, hat] at hheeds
    have hne := hheeds htaken t hcount
    rw [hgame] at hne
    intro hk
    apply hne hreleasing
    rw [hk, (hs.holding hlive).1, hoccupant]

theorem Unaddressed.accept (h : Unaddressed s t k) (hs : Inv s) (hk : k ≠ s.count)
    {client_fd : ℤ} : Unaddressed ({ s with
      fds := Function.update s.fds client_fd (some s.count)
      count := s.count + 1 }.goto s.count (.accepted client_fd)) t k := by
  have hfds : ∀ fd, Function.update s.fds client_fd (some s.count) fd = some k →
      s.fds fd = some k := by
    intro fd hfd
    by_cases hnew : fd = client_fd
    · rw [hnew, Function.update_self, Option.some.injEq] at hfd
      exact absurd hfd.symm hk
    · rwa [Function.update_of_ne hnew] at hfd
  apply h.congr hs
  · exact hfds
  · exact fun p => hfds _
  · intro x _
    by_cases hx : x = s.count
    · right
      rw [hx, thread_goto_self]
      intro fd hfd
      obtain rfl := Option.some.inj hfd
      change Function.update s.fds client_fd (some s.count) client_fd ≠ some k
      rw [Function.update_self]
      exact fun heq => hk (Option.some.inj heq).symm
    · exact .inl (thread_goto_of_ne _ _ hx)
  · exact fun _ h => .inl h

theorem Releases.runGame (h : Releases s t k) (hs : Inv s) (haddressed : Unaddressed s t k)
    {game : Game} (hat : s.thread t = .game game) (hrun : runGame s t game reading = some s')
    (hleft : s'.departed k = true) : Releases s' t k ∧ Unaddressed s' t k := by
  obtain ⟨game', hgame, hreleasing, hplayer, hoccupant⟩ := h
  obtain rfl : game' = game := Thread.game.inj (hgame.symm.trans hat)
  clear hgame
  have hstay : ∀ (mutex : Slot → Option Owner) (thread : Thread),
      Unaddressed ({ s with mutex := mutex }.goto t thread) t k := by
    intro mutex thread
    apply haddressed.congr hs
    · exact fun _ h => h
    · exact fun _ h => h
    · exact fun x hx => .inl (thread_goto_of_ne _ _ hx)
    · exact fun _ h => .inl h
  rcases hreleasing with ⟨hnext, htype, htodo | htodo⟩ | ⟨hnext, ⟨rest, htodo⟩ | ⟨rest, htodo⟩⟩
  · rw [Threads.runGame, htodo] at hrun
    obtain rfl := Option.some.inj hrun
    exact ⟨⟨_, thread_goto_self _ _ _, .inl ⟨hnext, htype, .inr rfl⟩, hplayer, hoccupant⟩,
      hstay _ _⟩
  · have hdecide : game'.decide = some game'.leave := by
      rw [Game.decide, hnext]
      simp [turn, htype]
    rw [Threads.runGame, htodo, hdecide] at hrun
    obtain rfl := Option.some.inj hrun
    refine ⟨⟨_, thread_goto_self _ _ _, .inr ⟨rfl, .inl ?_⟩, hplayer, hoccupant⟩, hstay s.mutex _⟩
    exact List.prefix_append [Statement.lock game'.player, .clearTaken game'.player] _
  · rw [Threads.runGame, ← htodo] at hrun
    simp only [List.cons_append, State.perform] at hrun
    split_ifs at hrun
    · obtain rfl := Option.some.inj hrun
      exact ⟨⟨_, thread_goto_self _ _ _, .inr ⟨hnext, .inr (List.prefix_append _ _)⟩, hplayer,
        hoccupant⟩, hstay _ _⟩
    · cases hrun
  · -- the slot is released
    rw [Threads.runGame, ← htodo] at hrun
    obtain rfl := Option.some.inj hrun
    simp [State.goto, State.clearTaken, hoccupant] at hleft

theorem departed_noteRead {id : Slot} (h : (s.noteRead id reading).departed k = true) :
    s.departed k = true ∨ s.socket id = some k ∧ reading.departs = true := by
  cases hsocket : s.socket id with
  | none =>
    simp only [State.noteRead, hsocket] at h
    exact .inl h
  | some j =>
    simp only [State.noteRead, hsocket] at h
    split_ifs at h with hdeparts
    · by_cases hk : k = j
      · exact .inr ⟨by rw [hk], hdeparts⟩
      · rw [Function.update_of_ne hk] at h
        exact .inl h
    · exact .inl h

theorem departed_clearTaken (owner : Owner) {id : Slot}
    (h : (s.clearTaken owner id).departed k = true) : s.departed k = true := by
  by_cases hk : k = s.occupant id
  · simp [State.clearTaken, hk] at h
  · simpa [State.clearTaken, hk] using h

/-- A game that reads `MSG_DISCONNECT` is about to release the slot. -/
theorem releases_of_read (hs : Inv s) {game : Game} (hat : s.thread t = .game game)
    (hasking : game.Asking) (hheeds : HeedsReads s (.run t reading junk))
    (hrun : runGame s t game reading = some s') (hbefore : s.departed k = false)
    (hleft : s'.departed k = true) : Releases s' t k ∧ Unaddressed s' t k := by
  obtain ⟨_, hcovered, _⟩ := hs.game hat
  rcases runGame_cases hrun with ⟨statement, todo, u, msg, htodo, hperform, rfl⟩ |
    ⟨_, ⟨_, _, rfl⟩ | rfl⟩
  · cases statement with
    | read p =>
      obtain ⟨rfl, rfl, hnext⟩ := hasking p todo (htodo ▸ List.suffix_refl _)
      simp only [State.perform] at hperform
      split_ifs at hperform
      obtain ⟨rfl, rfl⟩ := Prod.mk.inj (Option.some.inj hperform)
      rw [htodo] at hcovered
      rcases departed_noteRead hleft with hearlier | ⟨hsocket, hdeparts⟩
      · exact absurd (hbefore.symm.trans hearlier) (by simp)
      have hoccupant : s.occupant game.player = k := by
        rw [(hs.owned hcovered.1).2.2.1] at hsocket
        exact Option.some.inj hsocket
      simp only [HeedsReads, hat, htodo] at hheeds
      cases reading with
      | eof => exact hheeds.elim
      | failed => cases hdeparts
      | got received =>
        have htype : received.type = .msgDisconnect := by simpa [Reading.departs] using hdeparts
        have haddressed := hheeds htype k hsocket
        refine ⟨⟨_, thread_goto_self _ _ _, .inl ⟨hnext, htype, .inl rfl⟩, hcovered.1, hoccupant⟩, ?_⟩
        apply haddressed.congr hs
        · exact fun _ h => h
        · exact fun _ h => h
        · exact fun x hx => .inl (thread_goto_of_ne _ _ hx)
        · exact fun _ h => .inl h
    | lock id =>
      simp only [State.perform] at hperform
      split_ifs at hperform
      obtain ⟨rfl, rfl⟩ := Prod.mk.inj (Option.some.inj hperform)
      exact absurd (hbefore.symm.trans hleft) (by simp)
    | unlock id | write w | close id =>
      obtain ⟨rfl, rfl⟩ := Prod.mk.inj (Option.some.inj hperform)
      exact absurd (hbefore.symm.trans hleft) (by simp)
    | clearTaken id =>
      obtain ⟨rfl, rfl⟩ := Prod.mk.inj (Option.some.inj hperform)
      exact absurd (hbefore.symm.trans (departed_clearTaken (.thread t) hleft)) (by simp)
  · exact absurd (hbefore.symm.trans hleft) (by simp)
  · exact absurd (hbefore.symm.trans hleft) (by simp)

theorem departed_runPinger {available : Bool} (hheeds : HeedsReads s (.ping available reading))
    (hrun : runPinger s available reading = some s') (hleft : s'.departed k = true) :
    s.departed k = true := by
  unfold runPinger at hrun
  split at hrun
  case h_5 i hat =>
    rw [HeedsReads, hat] at hheeds
    split_ifs at hrun
    obtain rfl := Option.some.inj hrun
    rcases departed_noteRead hleft with h | ⟨_, hdeparts⟩
    · exact h
    · exact absurd (hheeds.symm.trans hdeparts) (by simp)
  case h_6 i hat =>
    obtain rfl := Option.some.inj hrun
    exact departed_clearTaken .pinger hleft
  all_goals
    (try split_ifs at hrun) <;> cases hrun <;> exact hleft

/-- Whoever takes the step, a client that has left stays with the game that releases it. -/
theorem Heeded.departed_step (h : Heeded s) (hs : Inv s) {a : Action} (hattentive : Attentive s a)
    (hstep : step s a = some s') (hleft : s'.departed k = true) :
    ∃ t, Releases s' t k ∧ Unaddressed s' t k := by
  obtain ⟨hkeeps, hheeds⟩ := hattentive
  unfold Threads.step at hstep
  split_ifs at hstep
  cases a with
  | accept client_fd =>
    dsimp only at hstep
    split_ifs at hstep
    obtain rfl := Option.some.inj hstep
    obtain ⟨t, hreleases, haddressed⟩ := h.departed k hleft
    obtain ⟨ht, hk⟩ := hreleases.ne_count hs
    refine ⟨t, hreleases.kept ?_ fun _ hp => ⟨hp, rfl⟩, haddressed.accept hs hk⟩
    exact thread_goto_of_ne _ _ ht.ne
  | run x reading junk =>
    dsimp only at hstep
    by_cases hgame : ∃ game, s.thread x = .game game
    · obtain ⟨game, hat⟩ := hgame
      have hrun : runGame s x game reading = some s' := by
        rwa [runThread, hat] at hstep
      by_cases hearlier : s.departed k = true
      · obtain ⟨t, hreleases, haddressed⟩ := h.departed k hearlier
        by_cases hx : x = t
        · subst hx
          exact ⟨x, hreleases.runGame hs haddressed hat hrun hleft⟩
        · refine ⟨t, hreleases.kept (thread_runThread hstep (Ne.symm hx)) ?_,
            haddressed.runGame hs hreleases hx hat hrun⟩
          exact fun p hp => owned_runGame hs hat hrun hp hx
      · exact ⟨x, releases_of_read hs hat (h.asking x game hat) hheeds hrun (by simpa using hearlier)
          hleft⟩
    · have hgame : ∀ game, s.thread x ≠ .game game := fun game hat => hgame ⟨game, hat⟩
      rw [(accepting_runThread hgame hstep).departed] at hleft
      obtain ⟨t, hreleases, haddressed⟩ := h.departed k hleft
      have hx : x ≠ t := by
        rintro rfl
        obtain ⟨game, hat, _⟩ := hreleases
        exact hgame game hat
      refine ⟨t, hreleases.kept (thread_runThread hstep (Ne.symm hx)) ?_,
        haddressed.runThread hs hreleases hx hgame hstep⟩
      exact fun p hp => owned_runThread hs hkeeps hstep hp hx
  | ping available reading =>
    dsimp only at hstep
    obtain ⟨t, hreleases, haddressed⟩ := h.departed k (departed_runPinger hheeds hstep hleft)
    refine ⟨t, hreleases.kept (by rw [thread_runPinger hstep]) ?_,
      haddressed.runPinger hs hreleases hheeds hstep⟩
    exact fun p hp => owned_runPinger hs hkeeps hstep hp
  | sigpipe owner =>
    dsimp only at hstep
    split_ifs at hstep
    obtain rfl := Option.some.inj hstep
    exact h.departed k hleft

theorem Heeded.step (h : Heeded s) (hs : Inv s) {a : Action} (hattentive : Attentive s a)
    (hstep : step s a = some s') : Heeded s' where
  asking := by
    apply games_step hstep h.asking
    · exact asking_startGame
    · intro game statement todo msg hgame htodo p rest hsuffix
      apply hgame p rest
      rw [htodo]
      exact hsuffix.trans (List.suffix_cons _ _)
    · rintro t reading junk game game' _ _ htodo hdecide _
      exact Game.Asking.decide htodo hdecide
  departed := fun k hleft => h.departed_step hs hattentive hstep hleft

end Steps

/-- In a run whose steps heed what is read, a client that has left is released before
anything is written to it, and is not paired. -/
theorem sparesDeparted_of_attentive (schedule : List Action)
    (h : Along step Attentive start schedule) : Along step SparesDeparted start schedule := by
  have hinvariant : ∀ s a s', Inv s ∧ Heeded s → Attentive s a → step s a = some s' →
      Inv s' ∧ Heeded s' := by
    rintro s a s' ⟨hs, hheeded⟩ hattentive hstep
    exact ⟨hs.step hattentive.1 hstep, hheeded.step hs hattentive hstep⟩
  apply along_invariant hinvariant
  · rintro s a ⟨hs, hheeded⟩ _
    exact hheeded.sparesDeparted hs a
  · refine ⟨inv_start, ?_, ?_⟩
    · exact fun _ _ h => by cases h
    · exact fun _ h => by cases h
  · exact h

theorem sparesDeparted_oneLeaves : Along step SparesDeparted start (oneLeaves 9) :=
  sparesDeparted_of_attentive (oneLeaves 9) (by decide +kernel)

/-- The pinger reads the departure of a client that waits, which is then paired. -/
theorem not_sparesDeparted_ping : ¬ ∀ schedule, Along step SparesDeparted start schedule := by
  intro hclaim
  have hpaired := hclaim ([.accept 5, .run 0 (.got (connectMessage 65)) (connectMessage 0)] ++
    runs 0 75 ++ List.replicate 5 (.ping true (.got ⟨fun _ => 0, .msgDisconnect⟩)) ++
    [.accept 6, .run 1 (.got (connectMessage 66)) (connectMessage 0)] ++ runs 1 50)
  revert hpaired
  decide +kernel

end Sysopy.GameServer.Threads
