import Sysopy.GameServer.Sockets

/-!
# Refused connections

A connection gets no slot when its first message is not `MSG_CONNECT`, when its name is taken or
when the table is full. In the second case its thread tells the client and ends, if the client is
still there to be told; in the others `ERROR_MSG` ends the server. Up to there it writes nothing to
the table.
-/
namespace Sysopy.GameServer.Threads

open Transition

/-- The thread's connection has no slot, and `create_client` has not found one for it. -/
def Thread.unadmitted : Thread → Bool
  | .accepted _ | .locking _ _ | .checking _ _ _ | .rejecting _ | .rejected | .creating _ _ _ => true
  | _ => false

/-- The thread's step calls `ERROR_MSG`: the first message is not `MSG_CONNECT`, or
`create_client` has looked at all slots. -/
def State.Aborts (s : State) (t : ℕ) (reading : Reading) (junk : Message) : Prop :=
  match s.thread t with
  | .accepted _ => (reading.into junk).type ≠ .msgConnect
  | .creating _ _ [] => True
  | _ => False

/-- The table, the sockets, the other threads and the locks that they take stay as they are. -/
structure Untouched (s s' : State) (t : ℕ) : Prop where
  clients : s'.clients = s.clients
  fds : s'.fds = s.fds
  mutex : s'.mutex = s.mutex
  pinger : s'.pinger = s.pinger
  thread : ∀ x, x ≠ t → s'.thread x = s.thread x

/-! ## The critical section -/

/-- A thread is in the critical section if and only if it has the lock. -/
structure LockInv (s : State) : Prop where
  idle : ∀ t, s.count ≤ t → s.thread t = .absent
  held : ∀ t, s.clients_mutex = some t ↔ (s.thread t).critical = true

theorem lockInv_start : LockInv start where
  idle _ _ := rfl
  held t := by simp [start, Thread.critical]

variable {s s' : State} {t : ℕ} {reading : Reading} {junk : Message}

theorem clients_mutex_perform {u : State} {msg msg' : Message} {statement : Statement}
    (h : s.perform t msg reading statement = some (u, msg')) :
    u.clients_mutex = s.clients_mutex ∧ u.count = s.count := by
  cases statement <;> simp only [State.perform] at h
  case lock | read =>
    split_ifs at h
    obtain ⟨rfl, -⟩ := Prod.mk.inj (Option.some.inj h)
    exact ⟨rfl, rfl⟩
  all_goals rw [← (Prod.mk.inj (Option.some.inj h)).1]
  all_goals exact ⟨rfl, rfl⟩

/-- A step of a thread enters the critical section when nobody is in it, leaves it, or has
nothing to do with the lock. -/
theorem lock_runThread (h : runThread s t reading junk = some s') :
    s'.clients_mutex = s.clients_mutex ∧ (s'.thread t).critical = (s.thread t).critical ∨
      s.clients_mutex = none ∧ s'.clients_mutex = some t ∧ (s'.thread t).critical = true ∨
      (s.thread t).critical = true ∧ s'.clients_mutex = none ∧ (s'.thread t).critical = false := by
  have stays {u : State} {before thread : Thread} (hat : s.thread t = before)
      (hmutex : u.clients_mutex = s.clients_mutex) (hcritical : thread.critical = before.critical) :
      (u.goto t thread).clients_mutex = s.clients_mutex ∧
        ((u.goto t thread).thread t).critical = (s.thread t).critical := by
    rw [thread_goto_self, hat]
    exact ⟨hmutex, hcritical⟩
  unfold runThread at h
  split at h
  case h_3 client_fd hat =>
    split_ifs at h <;> obtain rfl := Option.some.inj h
    · exact .inl (stays hat rfl rfl)
    · exact .inl ⟨rfl, rfl⟩
  case h_4 client_fd msg hat =>
    split_ifs at h with hfree
    obtain rfl := Option.some.inj h
    exact .inr (.inl ⟨hfree, rfl, by rw [thread_goto_self]; rfl⟩)
  case h_8 hat | h_15 client_fd id i hat | h_17 client_fd hat =>
    obtain rfl := Option.some.inj h
    exact .inr (.inr ⟨by rw [hat]; rfl, rfl, by rw [thread_goto_self]; rfl⟩)
  case h_10 hat =>
    obtain rfl := Option.some.inj h
    exact .inl ⟨rfl, rfl⟩
  case h_11 assignment hat =>
    obtain rfl := Option.some.inj h
    cases assignment <;> exact .inl (stays hat rfl rfl)
  case h_19 game hat =>
    rcases runGame_cases h with ⟨_, _, u, _, _, hperform, rfl⟩ | ⟨_, ⟨_, _, rfl⟩ | rfl⟩
    · exact .inl (stays hat (clients_mutex_perform hperform).1 rfl)
    · exact .inl (stays hat rfl rfl)
    · exact .inl (stays hat rfl rfl)
  all_goals
    rename_i hat
    (try split_ifs at h) <;> cases h <;> exact .inl (stays hat rfl rfl)

theorem count_runThread (h : runThread s t reading junk = some s') : s'.count = s.count := by
  unfold runThread at h
  split at h
  case h_11 assignment _ =>
    obtain rfl := Option.some.inj h
    cases assignment <;> rfl
  case h_19 =>
    rcases runGame_cases h with ⟨_, _, u, _, _, hperform, rfl⟩ | ⟨_, ⟨_, _, rfl⟩ | rfl⟩
    · exact (clients_mutex_perform hperform).2
    · rfl
    · rfl
  all_goals
    (try split_ifs at h) <;> cases h <;> rfl

theorem runThread_ne_none (h : runThread s t reading junk = some s') : s.thread t ≠ .absent := by
  intro habsent
  rw [runThread, habsent] at h
  cases h

theorem lock_runPinger {available : Bool} (h : runPinger s available reading = some s') :
    s'.clients_mutex = s.clients_mutex ∧ s'.count = s.count := by
  unfold runPinger at h
  split at h
  all_goals
    (try split_ifs at h) <;> cases h <;> exact ⟨rfl, rfl⟩

theorem LockInv.runThread (hs : LockInv s) (h : runThread s t reading junk = some s') :
    LockInv s' where
  idle x hx := by
    rw [count_runThread h] at hx
    have hne : x ≠ t := by
      rintro rfl
      exact runThread_ne_none h (hs.idle x hx)
    rw [thread_runThread h hne, hs.idle x hx]
  held x := by
    by_cases hx : x = t
    · subst hx
      rcases lock_runThread h with ⟨hmutex, hcritical⟩ | ⟨_, hmutex, hcritical⟩ |
        ⟨_, hmutex, hcritical⟩
      · rw [hmutex, hcritical]
        exact hs.held x
      · rw [hmutex, hcritical]
        exact iff_of_true rfl rfl
      · rw [hmutex, hcritical]
        exact iff_of_false (Option.some_ne_none x).symm Bool.false_ne_true
    · rw [thread_runThread h hx]
      rcases lock_runThread h with ⟨hmutex, _⟩ | ⟨hfree, hmutex, _⟩ | ⟨hcritical, hmutex, _⟩
      · rw [hmutex]
        exact hs.held x
      · rw [hmutex, ← hs.held x, hfree, Option.some_inj]
        exact iff_of_false (Ne.symm hx) (Option.some_ne_none x).symm
      · rw [hmutex, ← hs.held x, (hs.held t).mpr hcritical, Option.some_inj]
        exact iff_of_false (Option.some_ne_none x).symm (Ne.symm hx)

theorem LockInv.step (hs : LockInv s) {a : Action} (h : step s a = some s') : LockInv s' := by
  unfold Threads.step at h
  split_ifs at h
  cases a with
  | accept client_fd =>
    dsimp only at h
    split_ifs at h
    obtain rfl := Option.some.inj h
    constructor
    · intro x hx
      have hne : x ≠ s.count := (Nat.lt_of_succ_le hx).ne'
      rw [thread_goto_of_ne _ _ hne]
      exact hs.idle x (Nat.le_of_succ_le hx)
    · intro x
      by_cases hx : x = s.count
      · rw [hx, thread_goto_self]
        have habsent := hs.idle s.count le_rfl
        have hheld := hs.held s.count
        rw [habsent] at hheld
        exact hheld
      · rw [thread_goto_of_ne _ _ hx]
        exact hs.held x
  | run t reading junk => exact hs.runThread h
  | ping available reading =>
    obtain ⟨hmutex, hcount⟩ := lock_runPinger h
    constructor
    · intro x hx
      rw [thread_runPinger h]
      exact hs.idle x (hcount ▸ hx)
    · intro x
      rw [thread_runPinger h, hmutex]
      exact hs.held x
  | sigpipe owner =>
    dsimp only at h
    split_ifs at h
    obtain rfl := Option.some.inj h
    exact ⟨hs.idle, hs.held⟩

theorem lockInv_of_exec {schedule : List Action} (h : exec step start schedule = some s) :
    LockInv s :=
  exec_invariant' (fun _ _ _ hs hstep => hs.step hstep) lockInv_start h

/-! ## One step of a connection without a slot -/

theorem untouched_goto (s : State) (t : ℕ) (thread : Thread) : Untouched s (s.goto t thread) t where
  clients := rfl
  fds := rfl
  mutex := rfl
  pinger := rfl
  thread _ hx := thread_goto_of_ne s thread hx

theorem untouched_lock (s : State) (mutex : Option ℕ) (t : ℕ) (thread : Thread) :
    Untouched s ({ s with clients_mutex := mutex }.goto t thread) t where
  clients := rfl
  fds := rfl
  mutex := rfl
  pinger := rfl
  thread _ hx := thread_goto_of_ne _ thread hx

theorem untouched_exit (s : State) (t : ℕ) : Untouched s s.exit t where
  clients := rfl
  fds := rfl
  mutex := rfl
  pinger := rfl
  thread _ _ := rfl

theorem Untouched.trans {s'' : State} (h : Untouched s s' t) (h' : Untouched s' s'' t) :
    Untouched s s'' t where
  clients := h'.clients.trans h.clients
  fds := h'.fds.trans h.fds
  mutex := h'.mutex.trans h.mutex
  pinger := h'.pinger.trans h.pinger
  thread x hx := (h'.thread x hx).trans (h.thread x hx)

theorem untouched_runThread (hopen : (s.thread t).unadmitted = true) (hrunning : s.running = true)
    (h : runThread s t reading junk = some s') :
    Untouched s s' t ∧ (s'.running = false ↔ s.Aborts t reading junk) := by
  have goes {u : State} (hu : u.running = s.running) (habort : ¬ s.Aborts t reading junk) :
      u.running = false ↔ s.Aborts t reading junk := by
    rw [hu, hrunning]
    exact iff_of_false Bool.true_eq_false.mp habort
  rw [runThread] at h
  cases hat : s.thread t with
  | accepted client_fd =>
    rw [hat] at h
    dsimp only at h
    split_ifs at h with _ hconnect <;> obtain rfl := Option.some.inj h
    · refine ⟨untouched_goto s t _, goes rfl ?_⟩
      rw [State.Aborts, hat]
      exact fun hne => hne hconnect
    · refine ⟨untouched_exit s t, iff_of_true rfl ?_⟩
      rw [State.Aborts, hat]
      exact hconnect
  | locking client_fd msg =>
    have hgoes : ¬ s.Aborts t reading junk := by rw [State.Aborts, hat]; exact id
    rw [hat] at h
    dsimp only at h
    split_ifs at h
    obtain rfl := Option.some.inj h
    exact ⟨untouched_lock s (some t) t _, goes rfl hgoes⟩
  | checking client_fd msg rest =>
    have hgoes : ¬ s.Aborts t reading junk := by rw [State.Aborts, hat]; exact id
    rw [hat] at h
    cases rest <;> obtain rfl := Option.some.inj h <;> exact ⟨untouched_goto s t _, goes rfl hgoes⟩
  | rejecting client_fd =>
    rw [hat] at h
    obtain rfl := Option.some.inj h
    exact ⟨untouched_goto s t _, goes rfl (by rw [State.Aborts, hat]; exact id)⟩
  | rejected =>
    rw [hat] at h
    obtain rfl := Option.some.inj h
    exact ⟨untouched_lock s none t _, goes rfl (by rw [State.Aborts, hat]; exact id)⟩
  | creating client_fd msg rest =>
    rw [hat] at h
    cases rest with
    | nil =>
      obtain rfl := Option.some.inj h
      refine ⟨untouched_exit s t, iff_of_true rfl ?_⟩
      rw [State.Aborts, hat]
      trivial
    | cons i rest =>
      have hgoes : ¬ s.Aborts t reading junk := by rw [State.Aborts, hat]; exact id
      dsimp only at h
      split_ifs at h <;> obtain rfl := Option.some.inj h
      · exact ⟨untouched_goto s t _, goes rfl hgoes⟩
      · exact ⟨⟨rfl, rfl, rfl, rfl, fun _ hx => thread_goto_of_ne _ _ hx⟩, goes rfl hgoes⟩
  | _ => rw [hat] at hopen; cases hopen

/-! ## A connection that is handled alone -/

theorem goto_goto (s : State) (t : ℕ) (thread thread' : Thread) :
    (s.goto t thread).goto t thread' = s.goto t thread' := by
  simp only [State.goto, Function.update_idem]

/-- Steps of the thread alone lead from one state to the other. -/
def RunsAlone (t : ℕ) (reading : Reading) (junk : Message) (s s' : State) : Prop :=
  ∃ n, exec step s (List.replicate n (.run t reading junk)) = some s'

theorem RunsAlone.refl (s : State) : RunsAlone t reading junk s s := Repeats.refl s

theorem RunsAlone.head {u : State} (hrunning : s.running = true)
    (h : runThread s t reading junk = some u) (hrest : RunsAlone t reading junk u s') :
    RunsAlone t reading junk s s' := by
  refine Repeats.head ?_ hrest
  rw [step, if_pos hrunning]
  exact h

theorem RunsAlone.trans {u : State} (h : RunsAlone t reading junk s u)
    (hrest : RunsAlone t reading junk u s') : RunsAlone t reading junk s s' :=
  Repeats.trans h hrest

/-- The thread has entered the critical section. -/
def State.inside (s : State) (t : ℕ) (thread : Thread) : State :=
  { s with clients_mutex := some t }.goto t thread

theorem goto_inside (s : State) (t : ℕ) (thread thread' : Thread) :
    (s.inside t thread).goto t thread' = s.inside t thread' :=
  goto_goto _ t thread thread'

@[simp] theorem clients_inside (s : State) (t : ℕ) (thread : Thread) :
    (s.inside t thread).clients = s.clients :=
  rfl

theorem thread_inside (s : State) (t : ℕ) (thread : Thread) :
    (s.inside t thread).thread t = thread :=
  thread_goto_self _ t thread

theorem leave_inside (hunlocked : s.clients_mutex = none) (t : ℕ) (thread thread' : Thread) :
    { s.inside t thread with clients_mutex := none }.goto t thread' = s.goto t thread' := by
  have hs : { s with clients_mutex := none } = s := by
    cases s
    cases hunlocked
    rfl
  exact (goto_goto { s with clients_mutex := none } t thread thread').trans
    (congrArg (State.goto · t thread') hs)

section Alone

variable {client_fd : ℤ} {msg : Message} {rest : List Slot}

theorem checks_taken (hrunning : s.running = true)
    (htaken : ∃ i ∈ rest, sameName (s.clients i) msg = true) :
    RunsAlone t reading junk (s.inside t (.checking client_fd msg rest))
      (s.inside t (.rejecting client_fd)) := by
  induction rest with
  | nil =>
    obtain ⟨_, hi, _⟩ := htaken
    cases hi
  | cons i rest ih =>
    by_cases hsame : sameName (s.clients i) msg = true
    · refine .head hrunning ?_ (.refl _)
      rw [runThread, thread_inside]
      dsimp only
      rw [clients_inside, if_pos hsame, goto_inside]
    · have hrest : ∃ i ∈ rest, sameName (s.clients i) msg = true := by
        obtain ⟨k, hk, hsame'⟩ := htaken
        rcases List.mem_cons.mp hk with rfl | hk
        · exact absurd hsame' hsame
        · exact ⟨k, hk, hsame'⟩
      refine .head hrunning ?_ (ih hrest)
      rw [runThread, thread_inside]
      dsimp only
      rw [clients_inside, if_neg hsame, goto_inside]

theorem checks_free (hrunning : s.running = true)
    (hfree : ∀ i, sameName (s.clients i) msg = false) :
    RunsAlone t reading junk (s.inside t (.checking client_fd msg rest))
      (s.inside t (.checking client_fd msg [])) := by
  induction rest with
  | nil => exact .refl _
  | cons i rest ih =>
    refine .head hrunning ?_ ih
    rw [runThread, thread_inside]
    dsimp only
    rw [clients_inside, hfree, if_neg Bool.false_ne_true, goto_inside]

theorem creates_none (hrunning : s.running = true) (hfull : ∀ i, (s.clients i).taken = true) :
    RunsAlone t reading junk (s.inside t (.creating client_fd msg rest))
      (s.inside t (.creating client_fd msg [])) := by
  induction rest with
  | nil => exact .refl _
  | cons i rest ih =>
    refine .head hrunning ?_ ih
    rw [runThread, thread_inside]
    dsimp only
    rw [clients_inside, if_pos (hfull i), goto_inside]

end Alone

/-! ## Refusals -/

/-- The thread has accepted a connection that it can read, while the server runs and nobody is
in the critical section. -/
structure Arrives (s : State) (t : ℕ) (client_fd : ℤ) (reading : Reading) : Prop where
  running : s.running = true
  thread : s.thread t = .accepted client_fd
  unlocked : s.clients_mutex = none
  possible : reading.possible (s.fds client_fd) = true

/-- How the connection is handled when no other thread moves. Where it gets no slot, either the
thread is done and nothing else has changed, or the server has ended with the table as it was. -/
def HandledAlone (s : State) (t : ℕ) (client_fd : ℤ) (reading : Reading) (junk : Message) : Prop :=
  match acceptingRoutine s.clients client_fd (reading.into junk) with
  | some (_, .nameTaken) => RunsAlone t reading junk s (s.goto t .done)
  | none => ∃ s', RunsAlone t reading junk s s' ∧ Untouched s s' t ∧ s'.running = false
  | _ => True

section Handling

variable {client_fd : ℤ}

theorem Arrives.aborts (h : Arrives s t client_fd reading)
    (hother : (reading.into junk).type ≠ .msgConnect) : RunsAlone t reading junk s s.exit := by
  refine .head h.running ?_ (.refl _)
  rw [runThread, h.thread]
  dsimp only
  rw [if_pos h.possible, if_neg hother]

theorem Arrives.enters (h : Arrives s t client_fd reading)
    (hconnect : (reading.into junk).type = .msgConnect) :
    RunsAlone t reading junk s (s.inside t
      (.checking client_fd (reading.into junk) (List.finRange MAX_CLIENT_COUNT))) := by
  refine .head (u := s.goto t (.locking client_fd (reading.into junk))) h.running ?_ ?_
  · rw [runThread, h.thread]
    dsimp only
    rw [if_pos h.possible, if_pos hconnect]
  · refine .head h.running ?_ (.refl _)
    rw [runThread, thread_goto_self]
    dsimp only
    rw [State.goto_clients_mutex, if_pos h.unlocked]
    exact congrArg some (goto_goto { s with clients_mutex := some t } t _ _)

/-- A connection whose name is taken is rejected, and the lock given back. -/
theorem Arrives.rejects (h : Arrives s t client_fd reading)
    (hconnect : (reading.into junk).type = .msgConnect)
    (htaken : checkUsername s.clients (reading.into junk) = false) :
    RunsAlone t reading junk s (s.goto t .done) := by
  obtain ⟨i, hi⟩ : ∃ i, sameName (s.clients i) (reading.into junk) = true := by
    have hsome : (firstSlot fun i => sameName (s.clients i) (reading.into junk)).isSome = true := by
      simpa [checkUsername] using htaken
    obtain ⟨i, hi⟩ := Option.isSome_iff_exists.mp hsome
    exact ⟨i, firstSlot_some hi⟩
  refine ((h.enters hconnect).trans
    (checks_taken h.running ⟨i, List.mem_finRange i, hi⟩)).trans ?_
  refine .head (u := s.inside t .rejected) h.running ?_ (.head h.running ?_ (.refl _))
  · rw [runThread, thread_inside]
    exact congrArg some (goto_inside s t _ _)
  · rw [runThread, thread_inside]
    exact congrArg some (leave_inside h.unlocked t _ _)

/-- When the table is full, the server ends. -/
theorem Arrives.aborts_full (h : Arrives s t client_fd reading)
    (hconnect : (reading.into junk).type = .msgConnect)
    (hname : checkUsername s.clients (reading.into junk) = true)
    (hfull : ∀ i, (s.clients i).taken = true) :
    RunsAlone t reading junk s (s.inside t (.creating client_fd (reading.into junk) [])).exit := by
  have hfree := firstSlot_none (Option.isNone_iff_eq_none.mp hname)
  refine ((h.enters hconnect).trans (checks_free h.running hfree)).trans ?_
  refine .head (u := s.inside t
    (.creating client_fd (reading.into junk) (List.finRange MAX_CLIENT_COUNT))) h.running ?_
    ((creates_none h.running hfull).trans (.head h.running ?_ (.refl _)))
  · rw [runThread, thread_inside]
    exact congrArg some (goto_inside s t _ _)
  · rw [runThread, thread_inside]

theorem taken_of_createClient {clients : Clients} {msg : Message}
    (h : createClient clients client_fd msg = none) (i : Slot) : (clients i).taken = true := by
  simpa using firstSlot_none (Option.map_eq_none_iff.mp h) i

theorem Arrives.handled (h : Arrives s t client_fd reading) :
    HandledAlone s t client_fd reading junk := by
  unfold HandledAlone acceptingRoutine
  by_cases hconnect : (reading.into junk).type = .msgConnect
  · rw [if_neg (not_not_intro hconnect)]
    by_cases hname : checkUsername s.clients (reading.into junk) = false
    · rw [if_pos hname]
      exact h.rejects hconnect hname
    · rw [if_neg hname]
      cases hcreate : createClient s.clients client_fd (reading.into junk) with
      | none =>
        have hfull := taken_of_createClient hcreate
        refine ⟨_, h.aborts_full hconnect (by simpa using hname) hfull, ?_, rfl⟩
        exact (untouched_lock s (some t) t _).trans (untouched_exit _ t)
      | some created =>
        obtain ⟨created, id⟩ := created
        dsimp only
        rcases connectPending created id with ⟨clients, _ | i⟩ <;> trivial
  · rw [if_pos hconnect]
    exact ⟨_, h.aborts hconnect, untouched_exit s t, rfl⟩

end Handling

/-- The steps of a thread whose connection has no slot change nothing but its own place and the
lock, and the server goes on unless `ERROR_MSG` is called or a rejection is written to a client
that has gone. With the lock the thread is never held up, and the lock that it gives back after a
rejection is its own. Left alone, the thread comes to the end of the refusal. -/
structure Refuses (s : State) (t : ℕ) (reading : Reading) (junk : Message) : Prop where
  step : (s.thread t).unadmitted = true → ∀ s', step s (.run t reading junk) = some s' →
    Untouched s s' t ∧ (s'.running = false ↔ s.Aborts t reading junk)
  sigpipe : (s.thread t).unadmitted = true → ∀ s', Threads.step s (.sigpipe (.thread t)) = some s' →
    (∃ client_fd, s.thread t = .rejecting client_fd) ∧ Untouched s s' t
  proceeds : s.running = true → (s.thread t).unadmitted = true → s.clients_mutex = some t →
    ∃ s', Threads.step s (.run t reading junk) = some s'
  unlock : s.thread t = .rejected → ∀ s', Threads.step s (.run t reading junk) = some s' →
    s.clients_mutex = some t ∧ s'.clients_mutex = none
  alone : ∀ client_fd, Arrives s t client_fd reading → HandledAlone s t client_fd reading junk

theorem exists_runThread (hopen : (s.thread t).unadmitted = true)
    (hcritical : (s.thread t).critical = true) (reading : Reading) (junk : Message) :
    ∃ s', runThread s t reading junk = some s' := by
  cases hat : s.thread t with
  | checking client_fd msg rest => cases rest <;> exact ⟨_, by rw [runThread, hat]⟩
  | rejecting client_fd => exact ⟨_, by rw [runThread, hat]⟩
  | rejected => exact ⟨_, by rw [runThread, hat]⟩
  | creating client_fd msg rest =>
    rw [runThread, hat]
    cases rest with
    | nil => exact ⟨_, rfl⟩
    | cons i rest =>
      dsimp only
      split_ifs <;> exact ⟨_, rfl⟩
  | accepted | locking => rw [hat] at hcritical; cases hcritical
  | _ => rw [hat] at hopen; cases hopen

/-- In every reachable state connections are refused without harm to the table and the other
threads, as long as no `ERROR_MSG` ends the server. -/
theorem refuses_of_exec (schedule : List Action) {s : State}
    (h : exec step start schedule = some s) (t : ℕ) (reading : Reading) (junk : Message) :
    Refuses s t reading junk := by
  have hlock := lockInv_of_exec h
  constructor
  · intro hopen s' hstep
    unfold Threads.step at hstep
    split_ifs at hstep with hrunning
    exact untouched_runThread hopen hrunning hstep
  · intro hopen s' hstep
    unfold Threads.step at hstep
    split_ifs at hstep
    dsimp only at hstep
    split_ifs at hstep with hwrites
    obtain rfl := Option.some.inj hstep
    refine ⟨?_, untouched_exit s t⟩
    -- of the statements up to the refusal only one writes
    rw [State.receiver] at hwrites
    cases hat : s.thread t with
    | rejecting client_fd => exact ⟨client_fd, rfl⟩
    | accepted | locking | checking | rejected | creating => rw [hat] at hwrites; cases hwrites
    | _ => rw [hat] at hopen; cases hopen
  · intro hrunning hopen hheld
    rw [Threads.step, if_pos hrunning]
    exact exists_runThread hopen ((hlock.held t).mp hheld) reading junk
  · intro hat s' hstep
    refine ⟨(hlock.held t).mpr (by rw [hat]; rfl), ?_⟩
    unfold Threads.step at hstep
    split_ifs at hstep
    dsimp only at hstep
    rw [runThread, hat] at hstep
    obtain rfl := Option.some.inj hstep
    rfl
  · intro client_fd harrives
    exact harrives.handled

/-- No connection is refused by ending the server. -/
def GoesOn (s : State) : Action → Prop
  | .run t reading junk => (s.thread t).unadmitted = true →
    (step s (.run t reading junk)).map State.running ≠ some false
  | _ => True

instance decidableGoesOn (s : State) : (a : Action) → Decidable (GoesOn s a)
  | .run _ _ _ => inferInstanceAs (Decidable (_ → _))
  | .accept _ => instDecidableTrue
  | .ping _ _ => instDecidableTrue
  | .sigpipe _ => instDecidableTrue

/-- A third client comes with the name of the first. -/
theorem refuses_sameName : ∃ s, exec step start (gameOfTwo ++ [.accept 7]) = some s ∧
    Refuses s 2 (.got (connectMessage 65)) (connectMessage 0) := by
  have hsome : (exec step start (gameOfTwo ++ [.accept 7])).isSome = true := by decide +kernel
  obtain ⟨s, hs⟩ := Option.isSome_iff_exists.mp hsome
  exact ⟨s, hs, refuses_of_exec _ hs 2 (.got (connectMessage 65)) (connectMessage 0)⟩

/-- While two clients play, a third sends `MSG_MOVE` first, and the server ends. -/
theorem not_goesOn : ¬ ∀ schedule, Along step GoesOn start schedule := by
  intro hclaim
  have hthird := hclaim (gameOfTwo ++
    [.accept 7, .run 2 (.got ⟨fun _ => 0, .msgMove⟩) (connectMessage 0)])
  revert hthird
  decide +kernel

end Sysopy.GameServer.Threads
