import Sysopy.Chat.SystemV.System

/-!
# Requests that are not handled yet

The requests of a client reach the server in the order in which it made them, so
its `INIT` is handled before its other requests and its `STOP` after them. Hence
a client that asks for something is in the table, with the descriptor of its own
queue.
-/
namespace Sysopy.Chat.SystemV

open CInteger Transition

/-- The types of the requests of client `c` that are not handled yet. -/
def State.backlog (s : State) (c : ℤ) : List ℤ :=
  (s.requests.filter fun message => message.sender_pid = c).map Message.type

/-- A client that has sent its `INIT` is in the table, or the `INIT` is its next request. -/
def Introduced (registered : Prop) (backlog : List ℤ) : Prop :=
  registered ∧ INIT ∉ backlog ∨ ¬ registered ∧ ∃ rest, backlog = INIT :: rest ∧ INIT ∉ rest

/-- The requests of a client, by where the client stands. -/
def BacklogInv (process : Process) (registered : Prop) (backlog : List ℤ) : Prop :=
  match process with
  | .absent | .created => ¬ registered ∧ backlog = []
  | .exiting | .exited =>
    ¬ registered ∧ backlog = [] ∨ Introduced registered backlog ∧ STOP ∉ backlog.dropLast
  | _ => Introduced registered backlog ∧ STOP ∉ backlog

structure Inv (s : State) : Prop where
  running : s.running = true
  queue : ∀ c, Alive s c → s.queue (s.pqd c) ≠ none
  range : ∀ c, Alive s c → 0 ≤ s.pqd c ∧ s.pqd c ≤ INT_MAX
  distinct : ∀ c c', Alive s c → Alive s c' → s.pqd c = s.pqd c' → c = c'
  table : ∀ client ∈ s.clients, client.pqd = s.pqd client.id
  nodup : (s.clients.map Client.id).Nodup
  backlog : ∀ c, BacklogInv (s.process c) (Registered s.clients c) (s.backlog c)
  initText : ∀ message ∈ s.requests, message.type = INIT →
    parseInt message.message_text = s.pqd message.sender_pid
  known : ∀ message ∈ s.requests, message.type ∈ [INIT, CONNECT, LIST, DISCONNECT, STOP]

theorem inv_start : Inv start where
  running := rfl
  queue _ h := absurd rfl h.1
  range _ h := absurd rfl h.1
  distinct _ _ h := absurd rfl h.1
  table _ h := absurd h List.not_mem_nil
  nodup := List.nodup_nil
  backlog _ := ⟨List.not_mem_nil, rfl⟩
  initText _ h := absurd h List.not_mem_nil
  known _ h := absurd h List.not_mem_nil

/-! ## Steps of a client -/

/-- A client between its `INIT` and its exit. -/
def Process.Serving : Process → Prop
  | .absent | .created | .exiting | .exited => False
  | _ => True

theorem backlogInv_of_serving {process : Process} (h : process.Serving) (registered : Prop)
    (backlog : List ℤ) :
    BacklogInv process registered backlog ↔ Introduced registered backlog ∧ STOP ∉ backlog := by
  cases process <;> first | exact h.elim | exact Iff.rfl

theorem Introduced.append {registered : Prop} {backlog : List ℤ} (h : Introduced registered backlog)
    {type : ℤ} (htype : type ≠ INIT) : Introduced registered (backlog ++ [type]) := by
  rcases h with ⟨hreg, hinit⟩ | ⟨hreg, rest, rfl, hinit⟩
  · exact .inl ⟨hreg, by simp [hinit, Ne.symm htype]⟩
  · exact .inr ⟨hreg, rest ++ [type], rfl, by simp [hinit, Ne.symm htype]⟩

/-- Client `c` goes on to `process` and makes the requests `new`. -/
structure Moves (s s' : State) (c : ℤ) (process : Process) (new : List Message) : Prop where
  clients : s'.clients = s.clients
  running : s'.running = s.running
  pqd : s'.pqd = s.pqd
  process : s'.process = Function.update s.process c process
  requests : s'.requests = s.requests ++ new

theorem Inv.of_move {s s' : State} (hs : Inv s) {c : ℤ} {process : Process} {new : List Message}
    (hmoves : Moves s s' c process new)
    (hqueue : ∀ qd, s.queue qd ≠ none → s'.queue qd ≠ none)
    (halive : Alive s c) (hnew : ∀ message ∈ new, message.sender_pid = c ∧
      (message.type = INIT → parseInt message.message_text = s.pqd c) ∧
      message.type ∈ [INIT, CONNECT, LIST, DISCONNECT, STOP])
    (hbacklog : BacklogInv process (Registered s.clients c) (s.backlog c ++ new.map Message.type)) :
    Inv s' := by
  have halive' : ∀ c', Alive s' c' → Alive s c' := by
    intro c' hc'
    by_cases heq : c' = c
    · exact heq ▸ halive
    · simpa [Alive, hmoves.process, heq] using hc'
  have hown : new.filter (fun message => message.sender_pid = c) = new := by
    rw [List.filter_eq_self]
    intro message hmessage
    simpa using (hnew message hmessage).1
  refine ⟨hmoves.running.trans hs.running, fun c' hc' => ?_, fun c' hc' => ?_,
    fun c' c'' hc' hc'' heq => ?_, ?_, ?_, fun c' => ?_, fun message hmessage hinit => ?_,
    fun message hmessage => ?_⟩
  · rw [hmoves.pqd]
    exact hqueue _ (hs.queue c' (halive' c' hc'))
  · rw [hmoves.pqd]
    exact hs.range c' (halive' c' hc')
  · rw [hmoves.pqd] at heq
    exact hs.distinct c' c'' (halive' c' hc') (halive' c'' hc'') heq
  · rw [hmoves.clients, hmoves.pqd]
    exact hs.table
  · rw [hmoves.clients]
    exact hs.nodup
  · rw [hmoves.clients, hmoves.process]
    by_cases heq : c' = c
    · subst heq
      rw [Function.update_self, State.backlog, hmoves.requests, List.filter_append, hown, List.map_append]
      exact hbacklog
    · have hother : new.filter (fun message => message.sender_pid = c') = [] := by
        rw [List.filter_eq_nil_iff]
        intro message hmessage
        rw [(hnew message hmessage).1]
        simpa using Ne.symm heq
      rw [Function.update_of_ne heq, State.backlog, hmoves.requests, List.filter_append, hother,
        List.append_nil]
      exact hs.backlog c'
  · rw [hmoves.pqd]
    rw [hmoves.requests] at hmessage
    rcases List.mem_append.mp hmessage with hmessage | hmessage
    · exact hs.initText message hmessage hinit
    · rw [(hnew message hmessage).1]
      exact (hnew message hmessage).2.1 hinit
  · rw [hmoves.requests] at hmessage
    rcases List.mem_append.mp hmessage with hmessage | hmessage
    · exact hs.known message hmessage
    · exact (hnew message hmessage).2.2

theorem Process.Serving.alive {s : State} {c : ℤ} (h : (s.process c).Serving) : Alive s c := by
  constructor <;> intro heq <;> rw [heq] at h <;> exact h

theorem Inv.introduced {s : State} (hs : Inv s) {c : ℤ} (h : (s.process c).Serving) :
    Introduced (Registered s.clients c) (s.backlog c) ∧ STOP ∉ s.backlog c :=
  (backlogInv_of_serving h _ _).mp (hs.backlog c)

theorem Inv.local {s s' : State} (hs : Inv s) {c : ℤ} {process : Process}
    (hmoves : Moves s s' c process []) (hserving : (s.process c).Serving)
    (hprocess : process.Serving ∨ process = .exiting)
    (hqueue : ∀ qd, s.queue qd ≠ none → s'.queue qd ≠ none) : Inv s' := by
  obtain ⟨hintro, hstop⟩ := hs.introduced hserving
  refine hs.of_move hmoves hqueue hserving.alive (fun _ h => absurd h List.not_mem_nil) ?_
  rw [List.map_nil, List.append_nil]
  rcases hprocess with h | rfl
  · exact (backlogInv_of_serving h _ _).mpr ⟨hintro, hstop⟩
  · exact .inr ⟨hintro, fun h => hstop (List.mem_of_mem_dropLast h)⟩

/-- A step of a serving client that makes a request. -/
theorem Inv.request {s s' : State} (hs : Inv s) {c : ℤ} {process : Process} {request : Message}
    (hmoves : Moves s s' c process [request]) (hqueue : s'.queue = s.queue)
    (hserving : (s.process c).Serving) (hprocess : process.Serving)
    (hsender : request.sender_pid = c) (htype : request.type ∈ [CONNECT, LIST, DISCONNECT]) :
    Inv s' := by
  obtain ⟨hintro, hstop⟩ := hs.introduced hserving
  have hne : request.type ≠ INIT ∧ request.type ≠ STOP ∧
      request.type ∈ [INIT, CONNECT, LIST, DISCONNECT, STOP] := by
    simp only [List.mem_cons, List.not_mem_nil, or_false] at htype
    rcases htype with h | h | h <;> rw [h] <;> decide
  refine hs.of_move hmoves (fun qd hqd => by rwa [hqueue]) hserving.alive ?_ ?_
  · intro message hmessage
    obtain rfl := List.mem_singleton.mp hmessage
    exact ⟨hsender, fun h => absurd h hne.1, hne.2.2⟩
  · rw [backlogInv_of_serving hprocess, List.map_singleton]
    refine ⟨hintro.append hne.1, ?_⟩
    simpa [hstop] using Ne.symm hne.2.1

theorem Inv.sendStop {s s' : State} (hs : Inv s) {c : ℤ} {request : Message}
    (hmoves : Moves s s' c .exiting [request]) (hqueue : s'.queue = s.queue)
    (hserving : (s.process c).Serving) (hsender : request.sender_pid = c)
    (htype : request.type = STOP) : Inv s' := by
  obtain ⟨hintro, hstop⟩ := hs.introduced hserving
  refine hs.of_move hmoves (fun qd hqd => by rwa [hqueue]) hserving.alive ?_ ?_
  · intro message hmessage
    obtain rfl := List.mem_singleton.mp hmessage
    exact ⟨hsender, fun h => absurd (htype.symm.trans h) (by decide), by rw [htype]; decide⟩
  · rw [List.map_singleton, htype]
    exact .inr ⟨hintro.append (by decide), by rwa [List.dropLast_concat]⟩

theorem Inv.notMem_of_backlog {s : State} {c : ℤ} (h : s.backlog c = []) {message : Message}
    (hmessage : message ∈ s.requests) : message.sender_pid ≠ c := by
  intro hsender
  have hmem : message.type ∈ s.backlog c :=
    List.mem_map.mpr ⟨message, List.mem_filter.mpr ⟨hmessage, by simpa using hsender⟩, rfl⟩
  rw [h] at hmem
  cases hmem

theorem Inv.msgget {s : State} (hs : Inv s) {c qd : ℤ} (hc : s.process c = .absent)
    (hqd : s.queue qd = none) (hrange : 0 ≤ qd ∧ qd ≤ INT_MAX) :
    Inv { s.move c .created with
      queue := Function.update s.queue qd (some [])
      pqd := Function.update s.pqd c qd } := by
  obtain ⟨hregistered, hbacklog⟩ : ¬ Registered s.clients c ∧ s.backlog c = [] := by
    have h := hs.backlog c
    rwa [hc] at h
  have halive : ∀ c', c' ≠ c → Alive { s.move c .created with
      queue := Function.update s.queue qd (some [])
      pqd := Function.update s.pqd c qd } c' → Alive s c' := by
    intro c' hne hc'
    simpa [Alive, State.move, hne] using hc'
  have hfresh : ∀ c', Alive s c' → s.pqd c' ≠ qd := by
    intro c' hc' heq
    exact hs.queue c' hc' (heq ▸ hqd)
  refine ⟨hs.running, fun c' hc' => ?_, fun c' hc' => ?_, fun c₁ c₂ h₁ h₂ heq => ?_,
    fun client hclient => ?_, hs.nodup, fun c' => ?_, fun message hmessage hinit => ?_, hs.known⟩
  · by_cases hne : c' = c
    · simp [hne]
    · have hother := halive c' hne hc'
      simpa [hne, hfresh c' hother] using hs.queue c' hother
  · by_cases hne : c' = c
    · simpa [hne] using hrange
    · simpa [hne] using hs.range c' (halive c' hne hc')
  · by_cases hne₁ : c₁ = c
    · by_cases hne₂ : c₂ = c
      · rw [hne₁, hne₂]
      · simp only [hne₁, Function.update_self, Function.update_of_ne hne₂] at heq
        exact absurd heq.symm (hfresh c₂ (halive c₂ hne₂ h₂))
    · by_cases hne₂ : c₂ = c
      · simp only [hne₂, Function.update_self, Function.update_of_ne hne₁] at heq
        exact absurd heq (hfresh c₁ (halive c₁ hne₁ h₁))
      · simp only [Function.update_of_ne hne₁, Function.update_of_ne hne₂] at heq
        exact hs.distinct c₁ c₂ (halive c₁ hne₁ h₁) (halive c₂ hne₂ h₂) heq
  · have hne : client.id ≠ c := fun heq => hregistered (List.mem_map.mpr ⟨client, hclient, heq⟩)
    simpa [hne] using hs.table client hclient
  · by_cases hne : c' = c
    · subst hne
      change BacklogInv (Function.update s.process c' .created c') _ (s.backlog c')
      rw [Function.update_self]
      exact ⟨hregistered, hbacklog⟩
    · change BacklogInv (Function.update s.process c .created c') _ (s.backlog c')
      rw [Function.update_of_ne hne]
      exact hs.backlog c'
  · have hne := Inv.notMem_of_backlog hbacklog hmessage
    simpa [hne] using hs.initText message hmessage hinit

theorem Inv.init {s s' : State} (hs : Inv s) {c : ℤ}
    (hmoves : Moves s s' c .initSent [⟨INIT, c, decimal (s.pqd c)⟩])
    (hqueue : s'.queue = s.queue) (hc : s.process c = .created) : Inv s' := by
  have halive : Alive s c := by
    constructor <;> rw [hc] <;> simp
  obtain ⟨hregistered, hbacklog⟩ : ¬ Registered s.clients c ∧ s.backlog c = [] := by
    have h := hs.backlog c
    rwa [hc] at h
  have hrange := hs.range c halive
  refine hs.of_move hmoves (fun qd hqd => by rwa [hqueue]) halive ?_ ?_
  · intro message hmessage
    obtain rfl := List.mem_singleton.mp hmessage
    exact ⟨rfl, fun _ => toInt_strtol_decimal (by omega) hrange.2, by simp⟩
  · rw [hbacklog]
    exact ⟨.inr ⟨hregistered, [], rfl, List.not_mem_nil⟩, by simp⟩

theorem Inv.exit {s : State} (hs : Inv s) {c : ℤ} (hc : s.process c = .exiting) :
    Inv { s.move c .exited with queue := Function.update s.queue (s.pqd c) none } := by
  have halive : Alive s c := by
    constructor <;> rw [hc] <;> simp
  have halive' : ∀ c', Alive { s.move c .exited with
      queue := Function.update s.queue (s.pqd c) none } c' → c' ≠ c ∧ Alive s c' := by
    intro c' hc'
    by_cases hne : c' = c
    · subst hne
      exact absurd (by simp [State.move]) hc'.2
    · exact ⟨hne, by simpa [Alive, State.move, hne] using hc'⟩
  refine ⟨hs.running, fun c' hc' => ?_, fun c' hc' => hs.range c' (halive' c' hc').2,
    fun c₁ c₂ h₁ h₂ heq => hs.distinct c₁ c₂ (halive' c₁ h₁).2 (halive' c₂ h₂).2 heq,
    hs.table, hs.nodup, fun c' => ?_, hs.initText, hs.known⟩
  · obtain ⟨hne, hother⟩ := halive' c' hc'
    have hpqd : s.pqd c' ≠ s.pqd c := fun heq => hne (hs.distinct c' c hother halive heq)
    simpa [State.move, hpqd] using hs.queue c' hother
  · by_cases hne : c' = c
    · subst hne
      have h := hs.backlog c'
      rw [hc] at h
      change BacklogInv (Function.update s.process c' .exited c') _ (s.backlog c')
      rw [Function.update_self]
      exact h
    · change BacklogInv (Function.update s.process c .exited c') _ (s.backlog c')
      rw [Function.update_of_ne hne]
      exact hs.backlog c'

theorem Inv.receive {s s' : State} (hs : Inv s) {c : ℤ} {messages : List Message}
    {message junk : Message} (h : received { s with
      queue := Function.update s.queue (s.pqd c) (some messages) } c message junk = some s') :
    Inv s' := by
  have hqueue : ∀ qd, s.queue qd ≠ none →
      Function.update s.queue (s.pqd c) (some messages) qd ≠ none := by
    intro qd hqd
    by_cases heq : qd = s.pqd c
    · simp [heq]
    · simpa [heq] using hqd
  unfold received at h
  dsimp only at h
  split at h
  case h_6 => cases h
  all_goals
    rename_i hprocess
    obtain rfl := Option.some.inj h
    refine hs.local ⟨rfl, rfl, rfl, rfl, (List.append_nil _).symm⟩ (by rw [hprocess]; trivial) ?_
      hqueue
  · exact .inl trivial
  · left
    split_ifs <;> trivial
  · left
    split_ifs <;> trivial
  · exact .inl trivial
  · left
    split_ifs <;> trivial

theorem msgsnd_eq_some {s s' : State} {qd : ℤ} {message : Message}
    (h : s.msgsnd qd message = some s') : ∃ messages, s.queue qd = some messages ∧
      s' = { s with queue := Function.update s.queue qd (some (messages ++ [message])) } := by
  unfold State.msgsnd at h
  split_ifs at h
  obtain ⟨messages, hmessages, heq⟩ := Option.map_eq_some_iff.mp h
  exact ⟨messages, hmessages, heq.symm⟩

theorem Inv.say {s : State} (hs : Inv s) {c : ℤ} (hserving : (s.process c).Serving) (dqd : ℤ)
    (message : Message) : Inv (s.sayLine c dqd message) := by
  unfold State.sayLine
  split
  · rename_i s' hsend
    obtain ⟨messages, hmessages, rfl⟩ := msgsnd_eq_some hsend
    refine hs.local ⟨rfl, rfl, rfl, rfl, (List.append_nil _).symm⟩ hserving ?_ fun qd hqd => ?_
    · left
      split_ifs <;> trivial
    · by_cases heq : qd = dqd
      · simp [State.move, heq]
      · simpa [State.move, heq] using hqd
  · exact hs.local ⟨rfl, rfl, rfl, rfl, (List.append_nil _).symm⟩ hserving (.inr rfl)
      fun _ hqd => hqd

end Sysopy.Chat.SystemV
