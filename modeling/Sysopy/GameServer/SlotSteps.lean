import Sysopy.GameServer.SlotRules

/-!
# The steps that keep the slots

Each statement of an accepting thread, of a game and of the pinger keeps the invariant,
by the rule for what it changes.
-/
namespace Sysopy.GameServer.Threads

variable {s s' : State} {t : ℕ}

/-! ## Accepting threads -/

section Accepting

theorem Inv.fill (hs : Inv s) {client_fd : ℤ} {msg : Message} {id : Slot}
    {assignment : Assignment} (hat : s.thread t = .filling client_fd msg id assignment) :
    Inv (fill s t client_fd msg id assignment) := by
  have hkept : ∀ q, (Thread.filling client_fd msg id assignment).WorksOn q → q = id :=
    fun q hq => hq.symm
  cases assignment with
  | taken =>
    obtain ⟨hclaim, _, _⟩ := hs.filling hat (by simp)
    refine hs.work hat id ⟨rfl, rfl, rfl, rfl, ?_⟩ rfl (fun _ => rfl) (by simp) (fun _ h => h) hkept
      ?_ ?_ ?_ ?_
    · intro q hq
      simp [Threads.fill, State.goto, hq]
    · intro x hx
      simp [Threads.fill, State.goto, hclaim, Claim.By, hx]
    · simp [ThreadInv, Threads.fill, State.goto, hclaim]
    · simp [SlotInv, Threads.fill, State.goto, hclaim]
    · simp [Live, Threads.fill, State.goto, hclaim]
  | playing =>
    obtain ⟨hclaim, htaken, _⟩ := hs.filling hat (by simp)
    refine hs.work hat id ⟨rfl, rfl, rfl, rfl, ?_⟩ rfl (fun _ => rfl) (by simp) (fun _ h => h) hkept
      ?_ ?_ ?_ ?_
    · intro q hq
      simp [Threads.fill, State.goto, Clients.mark, hq]
    · intro x hx
      simp [Threads.fill, State.goto, hclaim, Claim.By, hx]
    · simp [ThreadInv, Threads.fill, State.goto, hclaim]
    · simp [SlotInv, Threads.fill, State.goto, Clients.mark, hclaim, htaken]
    · simp [Live, Threads.fill, State.goto, hclaim]
  | socket_fd =>
    obtain ⟨hclaim, htaken, hplaying⟩ := hs.filling hat (by simp)
    have hfresh : s.fds client_fd = some t := hs.fresh t client_fd (by rw [hat]; rfl)
    refine hs.work hat id ⟨rfl, rfl, rfl, rfl, ?_⟩ rfl (fun _ => rfl) (by simp) ?_ hkept ?_ ?_ ?_ ?_
    · intro q hq
      simp [Threads.fill, State.goto, State.setClaim, hq]
    · intro fd h
      cases h
    · intro x hx
      simp [Threads.fill, State.goto, State.setClaim, hclaim, Claim.By, hx]
    · simp [ThreadInv, Threads.fill, State.goto, State.setClaim]
    · simp [SlotInv, Holding, State.socket, Thread.Placed, Thread.fresh, Threads.fill, State.goto,
        State.setClaim, htaken, hplaying, hfresh]
    · intro _
      right
      simp [Threads.fill, State.goto, Thread.Placed, Thread.fresh]
  | name =>
    have hthread := hs.thread t
    rw [ThreadInv, hat] at hthread
    obtain ⟨hclaim, hoccupant⟩ := hthread
    obtain ⟨htaken, hplaying, hsocket, _⟩ := hs.owned hclaim
    have hplays : (s.clients id).playing = true := by
      rcases hplaying with h | ⟨_, _, h⟩
      · exact h
      · rw [hat] at h
        cases h
    refine hs.work hat id ⟨rfl, rfl, rfl, rfl, ?_⟩ rfl (fun _ => rfl) (by simp) ?_ hkept ?_ ?_ ?_ ?_
    · intro q hq
      simp [Threads.fill, State.goto, hq]
    · intro fd h
      cases h
    · intro x hx
      simp [Threads.fill, State.goto, hclaim, Claim.By, hx]
    · simp [ThreadInv, Threads.fill, State.goto, hclaim, hoccupant]
    · rw [State.socket] at hsocket
      simp [SlotInv, Holding, State.socket, Thread.Placed, Thread.fresh, Threads.fill, State.goto,
        hclaim, htaken, hplays, hsocket, hoccupant]
    · intro _
      left
      simp [Threads.fill, State.goto, Live, hclaim]

theorem Inv.create (hs : Inv s) {client_fd : ℤ} {msg : Message} {i : Slot} {rest : List Slot}
    (hat : s.thread t = .creating client_fd msg (i :: rest)) (hfree : s.claim i = .free) :
    Inv ((s.setClaim i (.filling t)).goto t (.filling client_fd msg i .taken)) := by
  refine hs.work hat i ⟨rfl, rfl, rfl, rfl, ?_⟩ rfl (fun _ => rfl) (by simp) (fun _ h => h)
    (fun _ h => h.elim) ?_ ?_ ?_ ?_
  · intro q hq
    simp [State.goto, State.setClaim, hq]
  · intro x hx
    simp [State.goto, State.setClaim, hfree, Claim.By, hx]
  · simp [ThreadInv, State.goto, State.setClaim]
  · simp [SlotInv, State.goto, State.setClaim]
  · simp [Live, State.goto, State.setClaim]

theorem Inv.pair (hs : Inv s) {client_fd : ℤ} {id i : Slot} {rest : List Slot}
    (hat : s.thread t = .pairing client_fd id (i :: rest)) (htaken : (s.clients i).taken = true)
    (hplaying : (s.clients i).playing = false) :
    Inv ((s.setClaim i (.owned t)).goto t (.marking client_fd id i)) := by
  have hfree := hs.free_of_waiting hat htaken hplaying
  have hthread := hs.thread t
  rw [ThreadInv, hat] at hthread
  obtain ⟨hid, hoccupant⟩ := hthread
  have hne : i ≠ id := by
    rintro rfl
    rw [hfree] at hid
    cases hid
  have hslot := hs.slot i
  rw [SlotInv, hfree] at hslot
  refine hs.work hat i ⟨rfl, rfl, rfl, rfl, ?_⟩ rfl (fun _ => rfl) (by simp) ?_ (fun _ h => h.elim)
    ?_ ?_ ?_ ?_
  · intro q hq
    simp [State.goto, State.setClaim, hq]
  · intro fd h
    cases h
  · intro x hx
    simp [State.goto, State.setClaim, hfree, Claim.By, hx]
  · simp [ThreadInv, State.goto, State.setClaim, hne, hne.symm, hid, hoccupant]
  · apply slotInv_owned
    · exact Function.update_self _ _ _
    · exact htaken
    · exact .inr ⟨client_fd, id, Function.update_self _ _ _⟩
    · exact (hslot htaken).move rfl rfl rfl ⟨by simp, rfl⟩
  · intro _
    left
    simp [State.goto, State.setClaim, Live, hfree, htaken]

theorem Inv.mark (hs : Inv s) {client_fd : ℤ} {id i : Slot}
    (hat : s.thread t = .marking client_fd id i) :
    Inv ({ s with clients := s.clients.mark i true }.goto t (.unlocking client_fd id i)) := by
  have hthread := hs.thread t
  rw [ThreadInv, hat] at hthread
  obtain ⟨hid, hoccupant, hi, hne⟩ := hthread
  obtain ⟨htaken, _, hholding⟩ := hs.owned hi
  refine hs.work hat i ⟨rfl, rfl, rfl, rfl, ?_⟩ rfl (fun _ => rfl) (by simp) ?_
    (fun _ h => Eq.symm h) ?_ ?_ ?_ ?_
  · intro q hq
    simp [State.goto, Clients.mark, hq]
  · intro fd h
    cases h
  · intro x hx
    simp [State.goto, hi, Claim.By, hx]
  · simp [ThreadInv, State.goto, hne, hid, hoccupant, hi]
  · apply slotInv_owned
    · exact hi
    · simp [State.goto, Clients.mark, htaken]
    · left
      simp [State.goto, Clients.mark]
    · refine hholding.move ?_ rfl rfl ⟨by simp, rfl⟩
      simp [State.socket, State.goto, Clients.mark]
  · intro _
    left
    simp [State.goto, Live, hi]

theorem Inv.idle_newcomer (hs : Inv s) {client_fd : ℤ} {id : Slot}
    (hat : s.thread t = .idling client_fd id) :
    Inv (({ s with clients := s.clients.mark id false }.setClaim id .free).goto t
      (.parting client_fd)) := by
  have hthread := hs.thread t
  rw [ThreadInv, hat] at hthread
  obtain ⟨hid, hoccupant⟩ := hthread
  obtain ⟨_, _, hholding⟩ := hs.owned hid
  refine hs.work hat id ⟨rfl, rfl, rfl, rfl, ?_⟩ rfl (fun _ => rfl) (by simp) ?_ (fun _ h => h.elim)
    ?_ ?_ ?_ ?_
  · intro q hq
    simp [State.goto, State.setClaim, Clients.mark, hq]
  · intro fd h
    cases h
  · intro x hx
    simp [State.goto, State.setClaim, hid, Claim.By, hx]
  · simp [ThreadInv, State.goto, State.setClaim]
  · rw [SlotInv]
    simp only [State.goto, State.setClaim, Function.update_self]
    intro _
    refine hholding.move ?_ rfl rfl ⟨by simp, rfl⟩
    simp [State.socket, Clients.mark]
  · intro _
    left
    simp [State.goto, State.setClaim, Live, hid]

theorem Inv.begin (hs : Inv s) {client_fd : ℤ} {id i : Slot} (junk : Message)
    (hat : s.thread t = .unlocking client_fd id i) :
    Inv ({ s with clients_mutex := none }.goto t
      (.game (startGame (fun p => (s.clients p).name) s.occupant i id junk))) := by
  have hthread := hs.thread t
  rw [ThreadInv, hat] at hthread
  obtain ⟨hid, _, hi, hne⟩ := hthread
  have hmoves := moves_unlock s t
    (.game (startGame (fun p => (s.clients p).name) s.occupant i id junk))
  refine hs.move hat hmoves (hmoves.critical_release hs hat rfl rfl) (by simp) ?_
    (fun _ h => h) ?_
  · intro fd h
    cases h
  · simp only [ThreadInv, State.goto, Function.update_self]
    exact ⟨hne, covered_startGame hi hid _ _ _, fun _ _ => rfl⟩

theorem Inv.runThread (hs : Inv s) {reading : Reading} {junk : Message}
    (hkeeps : KeepsSlots s (.run t reading junk)) (hgame : ∀ game, s.thread t = .game game →
      runGame s t game reading = some s' → Inv s')
    (h : runThread s t reading junk = some s') : Inv s' := by
  unfold Threads.runThread at h
  split at h
  case h_1 => cases h
  case h_2 => cases h
  case h_3 client_fd hat =>
    split_ifs at h
    · obtain rfl := Option.some.inj h
      exact hs.goto hat (fun h => h) (by simp) (fun _ h => h) (fun _ h => h) (by simp [ThreadInv])
    · obtain rfl := Option.some.inj h
      exact hs.exit
  case h_4 client_fd msg hat =>
    split_ifs at h with hfree
    obtain rfl := Option.some.inj h
    have hmoves : Moves s ({ s with clients_mutex := some t }.goto t
        (.checking client_fd msg (List.finRange _))) t (.checking client_fd msg (List.finRange _))
        fun _ => False := ⟨rfl, rfl, rfl, rfl, fun _ _ => ⟨rfl, rfl, rfl⟩⟩
    exact hs.move hat hmoves (hmoves.critical_acquire hs hfree rfl) (by simp) (fun _ h => h)
      (fun _ h => h) (by simp [ThreadInv])
  case h_5 client_fd msg i rest hat =>
    obtain rfl := Option.some.inj h
    split_ifs
    · exact hs.goto hat (fun h => h) (by simp) (fun _ h => h) (fun _ h => h) (by simp [ThreadInv])
    · exact hs.goto hat (fun h => h) (by simp) (fun _ h => h) (fun _ h => h) (by simp [ThreadInv])
  case h_6 client_fd msg hat =>
    obtain rfl := Option.some.inj h
    exact hs.goto hat (fun h => h) (by simp) (fun _ h => h) (fun _ h => h) (by simp [ThreadInv])
  case h_7 client_fd hat =>
    obtain rfl := Option.some.inj h
    exact hs.goto hat (fun h => h) (by simp) (fun _ h => by cases h) (fun _ h => h)
      (by simp [ThreadInv])
  case h_8 hat =>
    obtain rfl := Option.some.inj h
    have hmoves := moves_unlock s t .done
    exact hs.move hat hmoves (hmoves.critical_release hs hat rfl rfl) (by simp)
      (fun _ h => by cases h) (fun _ h => h) (by simp [ThreadInv])
  case h_9 client_fd msg i rest hat =>
    rw [KeepsSlots, hat] at hkeeps
    split_ifs at h with htaken
    · obtain rfl := Option.some.inj h
      exact hs.goto hat (fun h => h) (by simp) (fun _ h => h) (fun _ h => h) (by simp [ThreadInv])
    · obtain rfl := Option.some.inj h
      exact hs.create hat (hkeeps (by simpa using htaken))
  case h_10 =>
    obtain rfl := Option.some.inj h
    exact hs.exit
  case h_11 client_fd msg id assignment hat =>
    obtain rfl := Option.some.inj h
    exact hs.fill hat
  case h_12 client_fd id i rest hat =>
    split_ifs at h with hwaits
    · obtain rfl := Option.some.inj h
      exact hs.pair hat hwaits.1 hwaits.2
    · obtain rfl := Option.some.inj h
      have hthread := hs.thread t
      rw [ThreadInv, hat] at hthread
      exact hs.goto hat (fun h => h) (by simp) (fun _ h => h) (fun _ h => h)
        (by simpa [ThreadInv] using hthread)
  case h_13 client_fd id hat =>
    obtain rfl := Option.some.inj h
    have hthread := hs.thread t
    rw [ThreadInv, hat] at hthread
    exact hs.goto hat (fun h => h) (by simp) (fun _ h => h) (fun _ h => h)
      (by simpa [ThreadInv] using hthread)
  case h_14 client_fd id i hat =>
    obtain rfl := Option.some.inj h
    exact hs.mark hat
  case h_15 client_fd id i hat =>
    obtain rfl := Option.some.inj h
    exact hs.begin junk hat
  case h_16 client_fd id hat =>
    obtain rfl := Option.some.inj h
    exact hs.idle_newcomer hat
  case h_17 client_fd hat =>
    obtain rfl := Option.some.inj h
    have hmoves := moves_unlock s t (.greeting client_fd)
    exact hs.move hat hmoves (hmoves.critical_release hs hat rfl rfl) (by simp)
      (fun _ h => by cases h) (fun _ h => h) (by simp [ThreadInv])
  case h_18 client_fd hat =>
    obtain rfl := Option.some.inj h
    exact hs.goto hat (fun h => h) (by simp) (fun _ h => by cases h) (fun _ h => h)
      (by simp [ThreadInv])
  case h_19 game hat => exact hgame game hat h

end Accepting

/-! ## Games -/

section Games

theorem Inv.play (hs : Inv s) {game game' : Game} (hat : s.thread t = .game game)
    (hmoves : Moves s s' t (.game game') fun _ => False)
    (hmutex : s'.clients_mutex = s.clients_mutex) (hne : game'.player1 ≠ game'.player2)
    (hsame : game'.occupant = game.occupant)
    (hcovered : Covered t game'.player1 game'.player2 game'.next game'.todo s.claim) : Inv s' := by
  refine hs.move hat hmoves (hmoves.critical_keep hs hat hmutex fun h => h) (by simp)
    (fun _ h => by cases h) (fun _ h => h) ?_
  rw [ThreadInv, hmoves.self]
  refine ⟨hne, hcovered.congr fun q _ => (hmoves.slot q id).2.1, ?_⟩
  intro p hp
  rw [(hmoves.slot p id).2.1] at hp
  rw [(hmoves.slot p id).2.2, hsame]
  exact (hs.game hat).2.2 p hp

/-- The occupants of the slots of a game stay when it gives up one of them. -/
theorem occupant_update {game : Game} {id : Slot} {c c' : Claim}
    (hoccupant : ∀ p, (s.claim p).By (.thread t) → s.occupant p = game.occupant p)
    (hid : s.claim id = c) (hc : c.By (.thread t)) (q : Slot)
    (hq : (Function.update s.claim id c' q).By (.thread t)) :
    s.occupant q = game.occupant q := by
  by_cases hqid : q = id
  · subst hqid
    exact hoccupant q (by rw [hid]; exact hc)
  · rw [Function.update_of_ne hqid] at hq
    exact hoccupant q hq

theorem Inv.clearTaken (hs : Inv s) {game : Game} {id : Slot} {todo : List Statement}
    (hat : s.thread t = .game game) (htodo : game.todo = .clearTaken id :: todo) :
    Inv ((s.clearTaken (.thread t) id).goto t (.game { game with todo := todo })) := by
  obtain ⟨hne, hcovered, hoccupant⟩ := hs.game hat
  rw [htodo] at hcovered
  obtain ⟨hid, hrest⟩ := hcovered
  refine hs.work hat id ⟨rfl, rfl, rfl, rfl, ?_⟩ rfl (fun h => h) (by simp) (fun _ h => by cases h)
    (fun _ h => h.elim) ?_ ?_ ?_ ?_
  · intro q hq
    simp [State.goto, State.clearTaken, State.setClaim, Clients.release, hq]
  · intro x hx
    simp [State.goto, State.clearTaken, State.setClaim, hid, Claim.By, hx]
  · simp only [ThreadInv, State.goto, State.clearTaken, State.setClaim, Function.update_self]
    exact ⟨hne, hrest, occupant_update hoccupant hid rfl⟩
  · simp only [SlotInv, State.goto, State.clearTaken, State.setClaim, Function.update_self]
    refine ⟨by simp [Clients.release], (hs.owned hid).2.2.move ?_ rfl rfl ⟨by simp, rfl⟩⟩
    simp [State.socket, Clients.release]
  · intro _
    left
    simp [State.goto, State.clearTaken, State.setClaim, Live, hid]

theorem Inv.closeSocket (hs : Inv s) {game : Game} {id : Slot} {todo : List Statement}
    (hat : s.thread t = .game game) (htodo : game.todo = .close id :: todo) :
    Inv ((s.close id).goto t (.game { game with todo := todo })) := by
  obtain ⟨hne, hcovered, hoccupant⟩ := hs.game hat
  rw [htodo] at hcovered
  obtain ⟨hid, hrest⟩ := hcovered
  refine hs.close hid rfl rfl rfl rfl rfl rfl ?_ ?_ ?_
  · intro x hx
    exact Function.update_of_ne (fun h => hx (by rw [h])) _ _
  · intro x hx
    obtain rfl := Owner.thread.inj hx
    refine ⟨?_, game, _, hat, Function.update_self _ _ _⟩
    simp only [ThreadInv, State.goto, State.close, State.setClaim, Function.update_self]
    exact ⟨hne, hrest, occupant_update hoccupant hid rfl⟩
  · intro i hi
    refine ⟨?_, hi⟩
    rintro rfl
    have hpinger := hs.pinger i hi
    rw [hid] at hpinger
    cases hpinger

theorem Inv.runGame (hs : Inv s) {game : Game} (hat : s.thread t = .game game)
    {reading : Reading} (h : runGame s t game reading = some s') : Inv s' := by
  obtain ⟨hne, hcovered, _⟩ := hs.game hat
  have hslots : ∀ q, ¬ False → s.clients q = s.clients q ∧ s.claim q = s.claim q ∧
      s.occupant q = s.occupant q := fun _ _ => ⟨rfl, rfl, rfl⟩
  rcases runGame_cases h with ⟨statement, todo, u, msg, htodo, hperform, rfl⟩ |
    ⟨htodo, ⟨game', hdecide, rfl⟩ | rfl⟩
  · rw [htodo] at hcovered
    cases statement with
    | lock id =>
      simp only [State.perform] at hperform
      split_ifs at hperform
      obtain ⟨rfl, rfl⟩ := Prod.mk.inj (Option.some.inj hperform)
      exact hs.play hat ⟨rfl, rfl, rfl, rfl, hslots⟩ rfl hne rfl hcovered
    | unlock id =>
      obtain ⟨rfl, rfl⟩ := Prod.mk.inj (Option.some.inj hperform)
      exact hs.play hat ⟨rfl, rfl, rfl, rfl, hslots⟩ rfl hne rfl hcovered
    | write w =>
      obtain ⟨rfl, rfl⟩ := Prod.mk.inj (Option.some.inj hperform)
      exact hs.play hat ⟨rfl, rfl, rfl, rfl, hslots⟩ rfl hne rfl hcovered.2
    | read id =>
      simp only [State.perform] at hperform
      split_ifs at hperform
      obtain ⟨rfl, rfl⟩ := Prod.mk.inj (Option.some.inj hperform)
      exact hs.play hat ⟨rfl, rfl, rfl, rfl, hslots⟩ rfl hne rfl hcovered.2
    | clearTaken id =>
      obtain ⟨rfl, rfl⟩ := Prod.mk.inj (Option.some.inj hperform)
      exact hs.clearTaken hat htodo
    | close id =>
      obtain ⟨rfl, rfl⟩ := Prod.mk.inj (Option.some.inj hperform)
      exact hs.closeSocket hat htodo
  · rw [htodo] at hcovered
    obtain ⟨h1, h2, hsame, hcovered'⟩ := covered_decide hne htodo hcovered hdecide
    exact hs.play hat ⟨rfl, rfl, rfl, rfl, hslots⟩ rfl (by rw [h1, h2]; exact hne) hsame hcovered'
  · exact hs.goto hat (fun h => h) (by simp) (fun _ h => by cases h) (fun _ h => h)
      (by simp [ThreadInv])

end Games

/-! ## The pinger and the main thread -/

section Pinger

theorem Inv.pingerClearTaken (hs : Inv s) {i : Slot} (htaken : (s.clients i).taken = true)
    (hfree : s.claim i = .free) : Inv { s.clearTaken .pinger i with pinger := .close i } := by
  have hlive : Live s i := by
    rw [Live, hfree]
    exact htaken
  have hframe : Frame s { s.clearTaken .pinger i with pinger := .close i } .pinger (· = i) := by
    refine ⟨rfl, rfl, fun _ _ => rfl, ?_⟩
    intro q hq
    simp [State.clearTaken, State.setClaim, Clients.release, hq]
  refine hs.act hframe hs.critical ?_ ?_ ?_ ?_ ?_ ?_ ?_
  · exact fun _ h => by cases h
  · exact fun _ h => by cases h
  · intro j hj
    obtain rfl := Pinger.close.inj hj
    exact Function.update_self _ _ _
  · rintro q rfl x hx
    simp [State.clearTaken, State.setClaim, hfree, Claim.By, hx]
  · rintro q rfl
    simp only [SlotInv, State.clearTaken, State.setClaim, Function.update_self]
    refine ⟨by simp [Clients.release], ?_, (hs.holding hlive).2⟩
    have hsocket := (hs.holding hlive).1
    rw [State.socket] at hsocket
    simp [State.socket, Clients.release, hsocket]
  · exact fun _ _ _ h => by cases h
  · rintro q rfl _
    exact .inl ⟨hlive, rfl⟩

theorem Inv.runPinger (hs : Inv s) {available : Bool} {reading : Reading}
    (hkeeps : KeepsSlots s (.ping available reading))
    (h : runPinger s available reading = some s') : Inv s' := by
  have hslots : ∀ q, ¬ False → s.clients q = s.clients q ∧ s.claim q = s.claim q ∧
      s.occupant q = s.occupant q := fun _ _ => ⟨rfl, rfl, rfl⟩
  unfold Threads.runPinger at h
  split at h
  case h_1 =>
    split_ifs at h
    obtain rfl := Option.some.inj h
    exact hs.pass ⟨rfl, rfl, fun _ _ => rfl, hslots⟩ rfl fun _ h => by cases h
  case h_2 =>
    obtain rfl := Option.some.inj h
    refine hs.pass ⟨rfl, rfl, fun _ _ => rfl, hslots⟩ rfl fun _ h => ?_
    dsimp only at h
    split_ifs at h
  case h_3 =>
    obtain rfl := Option.some.inj h
    exact hs.pass ⟨rfl, rfl, fun _ _ => rfl, hslots⟩ rfl fun _ h => by cases h
  case h_4 =>
    obtain rfl := Option.some.inj h
    refine hs.pass ⟨rfl, rfl, fun _ _ => rfl, hslots⟩ rfl fun _ h => ?_
    dsimp only at h
    split_ifs at h
  case h_5 =>
    split_ifs at h
    obtain rfl := Option.some.inj h
    exact hs.pass ⟨rfl, rfl, fun _ _ => rfl, hslots⟩ rfl fun _ h => by cases h
  case h_6 i hat =>
    rw [KeepsSlots, hat] at hkeeps
    obtain rfl := Option.some.inj h
    exact hs.pingerClearTaken hkeeps.1 hkeeps.2
  case h_7 i hat =>
    obtain rfl := Option.some.inj h
    refine hs.close (hs.pinger i hat) rfl rfl rfl rfl rfl rfl ?_ ?_ ?_
    · exact fun _ _ => rfl
    · exact fun _ h => by cases h
    · exact fun _ h => by cases h
  case h_8 =>
    obtain rfl := Option.some.inj h
    exact hs.pass ⟨rfl, rfl, fun _ _ => rfl, hslots⟩ rfl fun _ h => by cases h

theorem Inv.accept (hs : Inv s) {client_fd : ℤ} (hclosed : s.fds client_fd = none) :
    Inv ({ s with
      fds := Function.update s.fds client_fd (some s.count)
      count := s.count + 1 }.goto s.count (.accepted client_fd)) := by
  have habsent : s.thread s.count = .absent := hs.idle s.count le_rfl
  have hother : ∀ x, x ≠ s.count →
      Function.update s.thread s.count (.accepted client_fd) x = s.thread x :=
    fun x hx => Function.update_of_ne hx _ _
  have hfds : ∀ fd k, s.fds fd = some k →
      Function.update s.fds client_fd (some s.count) fd = some k := by
    intro fd k h
    rw [Function.update_of_ne]
    · exact h
    · rintro rfl
      rw [hclosed] at h
      cases h
  refine ⟨?_, ?_, ?_, ?_, ?_, hs.pinger, hs.distinct⟩
  · intro t ht
    have hlt : s.count < t := ht
    exact (hother t hlt.ne').trans (hs.idle t hlt.le)
  · intro x hx
    change (Function.update s.thread s.count (.accepted client_fd) x).critical = true at hx
    by_cases hxt : x = s.count
    · rw [hxt, Function.update_self] at hx
      cases hx
    · rw [hother x hxt] at hx
      exact hs.critical x hx
  · intro t fd h
    change (Function.update s.thread s.count (.accepted client_fd) t).fresh = some fd at h
    by_cases ht : t = s.count
    · subst ht
      rw [Function.update_self] at h
      obtain rfl := Option.some.inj h
      exact Function.update_self _ _ _
    · rw [hother t ht] at h
      exact hfds fd t (hs.fresh t fd h)
  · intro t
    by_cases ht : t = s.count
    · subst ht
      simp [ThreadInv, State.goto]
    · exact (hs.thread t).congr (hother t ht) fun _ _ => ⟨rfl, rfl⟩
  · intro p
    refine (hs.slot p).congr rfl rfl (fun x hx => ?_) fun _ hholding => ⟨hfds _ _ hholding.1, ?_⟩
    · refine hother x ?_
      rintro rfl
      rw [habsent] at hx
      exact hx
    · change (Function.update s.thread s.count (.accepted client_fd) (s.occupant p)).Placed
      rw [hother]
      · exact hholding.2
      · intro heq
        have hplaced := hholding.2
        rw [heq, habsent] at hplaced
        exact hplaced.1 rfl

theorem Inv.step (hs : Inv s) {a : Action} (hkeeps : KeepsSlots s a)
    (h : step s a = some s') : Inv s' := by
  unfold Threads.step at h
  split_ifs at h
  cases a with
  | accept client_fd =>
    dsimp only at h
    split_ifs at h with hclosed
    obtain rfl := Option.some.inj h
    exact hs.accept hclosed
  | run t reading junk =>
    exact hs.runThread hkeeps (fun game hat h => hs.runGame hat h) h
  | ping available reading => exact hs.runPinger hkeeps h
  | sigpipe owner =>
    dsimp only at h
    split_ifs at h
    obtain rfl := Option.some.inj h
    exact hs.exit

end Pinger

end Sysopy.GameServer.Threads
