import Sysopy.GameServer.Slots

/-!
# What a step changes

What each kind of step does to the descriptors, to the place of the pinger and to the
slots that belong to another thread.
-/
namespace Sysopy.GameServer.Threads

/-- The `client_fd` of an accepting thread. -/
def Thread.client_fd : Thread → Option ℤ
  | .accepted client_fd | .locking client_fd _ | .checking client_fd _ _ | .rejecting client_fd
  | .creating client_fd _ _ | .filling client_fd _ _ _ | .pairing client_fd _ _
  | .marking client_fd _ _ | .unlocking client_fd _ _ | .idling client_fd _ | .parting client_fd
  | .greeting client_fd => some client_fd
  | .absent | .rejected | .game _ | .done => none

variable {s s' : State} {t : ℕ} {reading : Reading} {junk : Message}

/-- An accepting thread closes nothing, and stores only its own descriptor. -/
structure Accepting (s s' : State) (t : ℕ) : Prop where
  count : s'.count = s.count
  fds : s'.fds = s.fds
  pinger : s'.pinger = s.pinger
  departed : s'.departed = s.departed
  socket_fd : ∀ p, (s'.clients p).socket_fd = (s.clients p).socket_fd ∨
    (s.thread t).client_fd = some (s'.clients p).socket_fd
  client_fd : ∀ fd, (s'.thread t).client_fd = some fd → (s.thread t).client_fd = some fd

theorem socket_fd_mark (clients : Clients) (i p : Slot) (playing : Bool) :
    (clients.mark i playing p).socket_fd = (clients p).socket_fd := by
  by_cases h : p = i
  · subst h
    simp [Clients.mark]
  · simp [Clients.mark, h]

theorem accepting_fill {client_fd : ℤ} {msg : Message} {id : Slot} {assignment : Assignment}
    (hat : s.thread t = .filling client_fd msg id assignment) :
    Accepting s (fill s t client_fd msg id assignment) t := by
  cases assignment
  all_goals
    refine ⟨rfl, rfl, rfl, rfl, fun p => ?_, ?_⟩
    · by_cases h : p = id
      · subst h
        simp [fill, State.goto, socket_fd_mark, hat, Thread.client_fd]
      · simp [fill, State.goto, State.setClaim, socket_fd_mark, h]
    · simp [fill, Thread.client_fd, hat]

theorem accepting_runThread (hgame : ∀ game, s.thread t ≠ .game game)
    (h : runThread s t reading junk = some s') : Accepting s s' t := by
  unfold runThread at h
  split at h
  case h_11 hat =>
    obtain rfl := Option.some.inj h
    exact accepting_fill hat
  case h_19 game hat => exact absurd hat (hgame game)
  all_goals
    rename_i hat
    (try split_ifs at h) <;> cases h <;> refine ⟨rfl, rfl, rfl, rfl, fun p => .inl ?_, ?_⟩ <;>
      simp [State.goto, State.setClaim, State.exit, socket_fd_mark, hat, Thread.client_fd]

/-- Nothing is opened, and every slot keeps its descriptor. -/
structure OpensNothing (s s' : State) : Prop where
  fds : ∀ fd k, s'.fds fd = some k → s.fds fd = some k
  socket_fd : ∀ p, (s'.clients p).socket_fd = (s.clients p).socket_fd

theorem OpensNothing.socket (h : OpensNothing s s') {p : Slot} {k : ℕ}
    (hp : s'.socket p = some k) : s.socket p = some k := by
  rw [State.socket, h.socket_fd] at hp
  exact h.fds _ _ hp

theorem opensNothing_clearTaken (owner : Owner) (id : Slot) :
    OpensNothing s (s.clearTaken owner id) := by
  refine ⟨fun _ _ h => h, fun p => ?_⟩
  by_cases hp : p = id
  · subst hp
    simp [State.clearTaken, Clients.release]
  · simp [State.clearTaken, Clients.release, hp]

theorem opensNothing_close (id : Slot) : OpensNothing s (s.close id) := by
  refine ⟨fun fd k hfd => ?_, fun _ => rfl⟩
  by_cases hclosed : fd = (s.clients id).socket_fd
  · simp [State.close, hclosed] at hfd
  · simpa [State.close, hclosed] using hfd

theorem opensNothing_perform {u : State} {msg msg' : Message} {statement : Statement}
    (h : s.perform t msg reading statement = some (u, msg')) :
    OpensNothing s u ∧ u.pinger = s.pinger := by
  cases statement with
  | lock id | read id =>
    simp only [State.perform] at h
    split_ifs at h
    obtain ⟨rfl, -⟩ := Prod.mk.inj (Option.some.inj h)
    exact ⟨⟨fun _ _ h => h, fun _ => rfl⟩, rfl⟩
  | unlock id | write w =>
    obtain ⟨rfl, -⟩ := Prod.mk.inj (Option.some.inj h)
    exact ⟨⟨fun _ _ h => h, fun _ => rfl⟩, rfl⟩
  | clearTaken id =>
    obtain ⟨rfl, -⟩ := Prod.mk.inj (Option.some.inj h)
    exact ⟨opensNothing_clearTaken _ id, rfl⟩
  | close id =>
    obtain ⟨rfl, -⟩ := Prod.mk.inj (Option.some.inj h)
    exact ⟨opensNothing_close id, rfl⟩

theorem opensNothing_runPinger {available : Bool}
    (h : runPinger s available reading = some s') :
    OpensNothing s s' ∧ ∀ i, s'.pinger = .write i → s.pinger = .test i ∧ (s.clients i).taken = true := by
  unfold runPinger at h
  split at h
  case h_2 i hat =>
    obtain rfl := Option.some.inj h
    refine ⟨⟨fun _ _ h => h, fun _ => rfl⟩, fun j hj => ?_⟩
    dsimp only at hj
    split_ifs at hj with htaken
    obtain rfl := Pinger.write.inj hj
    exact ⟨hat, htaken⟩
  case h_4 i hat =>
    obtain rfl := Option.some.inj h
    refine ⟨⟨fun _ _ h => h, fun _ => rfl⟩, fun j hj => ?_⟩
    dsimp only at hj
    split_ifs at hj
  case h_6 i hat =>
    obtain rfl := Option.some.inj h
    have hframe : OpensNothing s (s.clearTaken .pinger i) := opensNothing_clearTaken _ i
    exact ⟨⟨hframe.fds, hframe.socket_fd⟩, fun j hj => by cases hj⟩
  case h_7 i hat =>
    obtain rfl := Option.some.inj h
    have hframe : OpensNothing s (s.close i) := opensNothing_close i
    exact ⟨⟨hframe.fds, hframe.socket_fd⟩, fun j hj => by cases hj⟩
  all_goals
    try split_ifs at h
    cases h
    exact ⟨⟨fun _ _ h => h, fun _ => rfl⟩, fun j hj => by cases hj⟩

section Owned

variable {p : Slot} {x : ℕ}

theorem owned_update {q : Slot} {c c' : Claim} (hclaim : s.claim p = .owned x)
    (hq : s.claim q = c) (hne : c ≠ .owned x) :
    p ≠ q ∧ Function.update s.claim q c' p = .owned x := by
  have hpq : p ≠ q := by
    rintro rfl
    exact hne (hq.symm.trans hclaim)
  exact ⟨hpq, (Function.update_of_ne hpq _ _).trans hclaim⟩

theorem owned_runGame (hs : Inv s) {game : Game} (hat : s.thread t = .game game)
    (h : runGame s t game reading = some s') (hclaim : s.claim p = .owned x) (hx : t ≠ x) :
    s'.claim p = .owned x ∧ s'.occupant p = s.occupant p := by
  obtain ⟨_, hcovered, _⟩ := hs.game hat
  rcases runGame_cases h with ⟨statement, todo, u, msg, htodo, hperform, rfl⟩ |
    ⟨_, ⟨_, _, rfl⟩ | rfl⟩
  · rw [htodo] at hcovered
    cases statement with
    | lock id | read id =>
      simp only [State.perform] at hperform
      split_ifs at hperform
      obtain ⟨rfl, -⟩ := Prod.mk.inj (Option.some.inj hperform)
      exact ⟨hclaim, rfl⟩
    | unlock id | write w =>
      obtain ⟨rfl, -⟩ := Prod.mk.inj (Option.some.inj hperform)
      exact ⟨hclaim, rfl⟩
    | clearTaken id =>
      obtain ⟨rfl, -⟩ := Prod.mk.inj (Option.some.inj hperform)
      exact ⟨(owned_update hclaim hcovered.1 (by simpa using hx)).2, rfl⟩
    | close id =>
      obtain ⟨rfl, -⟩ := Prod.mk.inj (Option.some.inj hperform)
      exact ⟨(owned_update hclaim hcovered.1 (by simp)).2, rfl⟩
  · exact ⟨hclaim, rfl⟩
  · exact ⟨hclaim, rfl⟩

theorem owned_runThread (hs : Inv s) (hkeeps : KeepsSlots s (.run t reading junk))
    (h : runThread s t reading junk = some s') (hclaim : s.claim p = .owned x) (hx : t ≠ x) :
    s'.claim p = .owned x ∧ s'.occupant p = s.occupant p := by
  unfold runThread at h
  split at h
  case h_9 client_fd msg i rest hat =>
    rw [KeepsSlots, hat] at hkeeps
    split_ifs at h with htaken
    · obtain rfl := Option.some.inj h
      exact ⟨hclaim, rfl⟩
    · obtain rfl := Option.some.inj h
      exact ⟨(owned_update hclaim (hkeeps (by simpa using htaken)) (by simp)).2, rfl⟩
  case h_11 client_fd msg id assignment hat =>
    obtain rfl := Option.some.inj h
    cases assignment with
    | taken | playing | name => exact ⟨hclaim, rfl⟩
    | socket_fd =>
      obtain ⟨hne, hkept⟩ := owned_update hclaim (hs.filling hat (by simp)).1 (by simp)
      exact ⟨hkept, Function.update_of_ne hne _ _⟩
  case h_12 client_fd id i rest hat =>
    split_ifs at h with hwaits
    · obtain rfl := Option.some.inj h
      have hfree := hs.free_of_waiting hat hwaits.1 hwaits.2
      exact ⟨(owned_update hclaim hfree (by simp)).2, rfl⟩
    · obtain rfl := Option.some.inj h
      exact ⟨hclaim, rfl⟩
  case h_16 client_fd id hat =>
    obtain rfl := Option.some.inj h
    have hthread := hs.thread t
    rw [ThreadInv, hat] at hthread
    exact ⟨(owned_update hclaim hthread.1 (by simpa using hx)).2, rfl⟩
  case h_19 game hat => exact owned_runGame hs hat h hclaim hx
  all_goals
    (try split_ifs at h) <;> cases h <;> exact ⟨hclaim, rfl⟩

theorem owned_runPinger (hs : Inv s) {available : Bool}
    (hkeeps : KeepsSlots s (.ping available reading))
    (h : runPinger s available reading = some s') (hclaim : s.claim p = .owned x) :
    s'.claim p = .owned x ∧ s'.occupant p = s.occupant p := by
  unfold runPinger at h
  split at h
  case h_6 i hat =>
    rw [KeepsSlots, hat] at hkeeps
    obtain rfl := Option.some.inj h
    exact ⟨(owned_update hclaim hkeeps.2 (by simp)).2, rfl⟩
  case h_7 i hat =>
    obtain rfl := Option.some.inj h
    exact ⟨(owned_update hclaim (hs.pinger i hat) (by simp)).2, rfl⟩
  all_goals
    (try split_ifs at h) <;> cases h <;> exact ⟨hclaim, rfl⟩

end Owned

end Sysopy.GameServer.Threads
