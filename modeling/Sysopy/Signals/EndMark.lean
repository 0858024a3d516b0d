import Sysopy.Signals.Queued

/-!
# The end mark

`SIGRTMIN` is sent last but is the lower signal, so it overtakes the data that is still
pending. Queued signals are not lost: what the catcher has counted, what is pending for it and
what its handlers have yet to count add up to what has been sent. So the catcher sends back a
whole count exactly when each `SIGRTMIN` reaches it with nothing pending and nothing uncounted.
-/
namespace Sysopy.Signals.Queued

open Transition

variable (n : ℕ)

/-- The signals `SIGRTMAX` that the sender has sent. -/
def SenderPlace.sentData : SenderPlace → ℕ
  | .sending i => i
  | _ => n

/-- The signals `SIGRTMIN` that the sender has sent. -/
def SenderPlace.sentEnd : SenderPlace → ℕ
  | .sending _ => 0
  | _ => 1

/-- The handler has yet to count its signal. -/
def CatcherHandler.isUncounted : CatcherHandler → ℕ
  | .entered => 1
  | .loaded _ => 1
  | _ => 0

/-- The handler of `SIGRTMIN`, which calls `sendback`. -/
def CatcherHandler.isEnd : CatcherHandler → Bool
  | .ending => true
  | .sendingBack _ => true
  | _ => false

open CatcherHandler (isUncounted)

/-- When the catcher calls `sendback`, it has counted every signal. -/
def SendsBackAll (s : State) : Prop :=
  ∀ k rest, s.catcher.handlers = k :: rest → k.isEnd = true → s.catcherReceived = n

/-- The handler of `SIGRTMIN` is entered when no `SIGRTMAX` is pending or uncounted. -/
def EndLast (s : State) (a : Action) : Prop :=
  a = .toCatcher .rtmin → hasHandler s.catcher.main .rtmin = true →
    s.catcher.pending .rtmax = 0 ∧ s.catcher.inside isUncounted = 0

structure Inv (s : State) : Prop where
  round : s.sender.main.sentData n ≤ n
  sent : s.catcher.main ≠ .dead → s.catcherReceived + s.catcher.pending .rtmax +
    s.catcher.inside isUncounted = s.sender.main.sentData n
  ended : s.catcher.pending .rtmin ≤ s.sender.main.sentEnd
  /-- A handler of `SIGRTMIN` is the last one. -/
  sentAll : ∀ k rest, s.catcher.handlers = k :: rest → k.isEnd = true → s.sender.main.sentEnd = 1
  /-- Only the innermost handler of `SIGRTMAX` can have something to count. -/
  nested : ∀ k rest, s.catcher.handlers = k :: rest → k.isEnd = false →
    (∀ k' ∈ rest, isUncounted k' = 0 ∧ k'.isEnd = false) ∧
      ∀ received, k = .loaded received → received = s.catcherReceived
  dead : s.catcher.main = .dead → s.catcher.handlers = []
  /-- The catcher sends `SIGRTMIN` back and ends. -/
  answered : s.sender.pending .rtmin ≠ 0 ∨ .reporting ∈ s.sender.handlers →
    s.catcher.main = .dead

theorem inv_start : Inv n start := by
  constructor <;> simp [start, Process.inside, SenderPlace.sentData]

variable {n} {s s' : State}

theorem SenderPlace.sentData_of_sentEnd {place : SenderPlace} (h : place.sentEnd ≠ 0) :
    place.sentData n = n := by
  cases place with
  | sending i => exact absurd rfl h
  | _ => rfl

theorem isUncounted_wake (k : CatcherHandler) :
    isUncounted (catcherWake.handler k) = isUncounted k := by cases k <;> rfl

theorem isUncounted_entry (signal : Sig) :
    isUncounted (catcherEntry signal) = if .rtmax = signal then 1 else 0 := by cases signal <;> rfl

theorem deliverToCatcher_eq_some {signal : Sig} (h : deliverToCatcher s signal = some s') :
    (s.catcher.main ≠ .dead ∧ s.catcher.pending signal ≠ 0 ∧
      catcherBlocks s.catcher.handlers signal = false) ∧
    (hasHandler s.catcher.main signal = true ∧
        s' = { s with
          catcher := s.catcher.interrupt catcherWake signal (catcherEntry signal) } ∨
      hasHandler s.catcher.main signal = false ∧ s' = (s.catcherIn []).catcherAt .dead) := by
  unfold deliverToCatcher at h
  split_ifs at h with hready hhandler
  · exact ⟨⟨hready.1, hready.2.1, hready.2.2.1⟩, .inl ⟨hhandler, (Option.some.inj h).symm⟩⟩
  · exact ⟨⟨hready.1, hready.2.1, hready.2.2.1⟩,
      .inr ⟨eq_false_of_ne_true hhandler, (Option.some.inj h).symm⟩⟩

theorem reporting_mem_of_wake {handlers : List SenderHandler}
    (h : .reporting ∈ handlers.modifyHead senderWake.handler) : .reporting ∈ handlers := by
  rcases handlers with _ | ⟨k, rest⟩
  · exact h
  · rcases List.mem_cons.mp h with h | h
    · cases k with
      | reporting => exact List.mem_cons_self
      | _ => cases h
    · exact List.mem_cons_of_mem k h

section Steps

variable (hs : Inv n s)

include hs

theorem Inv.alive {k : CatcherHandler} {rest : List CatcherHandler}
    (hk : s.catcher.handlers = k :: rest) : s.catcher.main ≠ .dead := by
  intro hdead
  rw [hs.dead hdead] at hk
  cases hk

/-! ### The catcher -/

theorem Inv.catcherAt {place : CatcherPlace} (halive : s.catcher.main ≠ .dead)
    (hdead : place = .dead → s.catcher.handlers = []) : Inv n (s.catcherAt place) :=
  ⟨hs.round, fun _ => hs.sent halive, hs.ended, hs.sentAll, hs.nested, hdead,
    fun h => absurd (hs.answered h) halive⟩

theorem Inv.catcherGoes {k k' : CatcherHandler} {rest : List CatcherHandler} {received : ℕ}
    (hk : s.catcher.handlers = k :: rest) (hend : k'.isEnd = k.isEnd)
    (huncounted : received + isUncounted k' = s.catcherReceived + isUncounted k)
    (hloaded : ∀ v, k' = .loaded v → v = received) :
    Inv n { s.catcherIn (k' :: rest) with catcherReceived := received } := by
  have halive := hs.alive hk
  have hsent := hs.sent halive
  rw [Process.inside_cons hk] at hsent
  refine ⟨hs.round, fun _ => ?_, hs.ended, ?_, ?_, fun h => absurd h halive, hs.answered⟩
  · change received + s.catcher.pending .rtmax + ((k' :: rest).map isUncounted).sum = _
    rw [List.map_cons, List.sum_cons]
    exact Eq.trans (by omega) hsent
  · rintro _ _ ⟨⟩ hisEnd
    exact hs.sentAll k rest hk (hend ▸ hisEnd)
  · rintro _ _ ⟨⟩ hisEnd
    exact ⟨(hs.nested k rest hk (hend ▸ hisEnd)).1, hloaded⟩

theorem Inv.catcherReturns {rest : List CatcherHandler}
    (hk : s.catcher.handlers = .leaving :: rest) : Inv n (s.catcherIn rest) := by
  have halive := hs.alive hk
  have hquiet := (hs.nested _ rest hk rfl).1
  have hsent := hs.sent halive
  rw [Process.inside_cons hk] at hsent
  refine ⟨hs.round, fun _ => ?_, hs.ended, ?_, ?_, fun h => absurd h halive, hs.answered⟩
  · exact Eq.trans (congrArg _ (Nat.zero_add _).symm) hsent
  · rintro k rest' rfl hisEnd
    rw [(hquiet k List.mem_cons_self).2] at hisEnd
    cases hisEnd
  · rintro k rest' rfl -
    refine ⟨fun k' hk' => hquiet k' (List.mem_cons_of_mem k hk'), ?_⟩
    rintro v rfl
    exact absurd (hquiet _ List.mem_cons_self).1 (by simp [isUncounted])

theorem Inv.killSender {signal : Sig} (hsignal : signal = .rtmin → s.catcher.main = .dead) :
    Inv n (killSender s signal) := by
  unfold Queued.killSender
  split_ifs
  · exact hs
  · refine ⟨hs.round, hs.sent, hs.ended, hs.sentAll, hs.nested, hs.dead, fun h => ?_⟩
    cases signal with
    | rtmin => exact hsignal rfl
    | rtmax =>
      rw [Process.pending_queue_of_ne (by decide)] at h
      exact hs.answered h

theorem Inv.dies : Inv n ((s.catcherIn []).catcherAt .dead) :=
  ⟨hs.round, fun h => absurd rfl h, hs.ended, by rintro _ _ ⟨⟩, by rintro _ _ ⟨⟩, fun _ => rfl,
    fun _ => rfl⟩

theorem Inv.stepCatcher (h : stepCatcher s = some s') : Inv n s' := by
  unfold Queued.stepCatcher at h
  split at h
  next hidle =>
    split at h
    all_goals first | cases h; done | obtain rfl := Option.some.inj h
    all_goals exact hs.catcherAt (by simp [*]) (by simp [hidle])
  next rest hk =>
    obtain rfl := Option.some.inj h
    exact hs.catcherGoes hk rfl rfl fun v hv => (CatcherHandler.loaded.inj hv).symm
  next received rest hk =>
    obtain rfl := Option.some.inj h
    have hreceived := (hs.nested _ rest hk rfl).2 received rfl
    exact hs.catcherGoes hk rfl (by simp [isUncounted, hreceived]) (by simp)
  next rest hk =>
    obtain rfl := Option.some.inj h
    exact hs.catcherGoes hk rfl rfl (by simp)
  next => cases h
  next rest hk =>
    obtain rfl := Option.some.inj h
    exact hs.catcherReturns hk
  next rest hk =>
    obtain rfl := Option.some.inj h
    exact hs.catcherGoes hk rfl rfl (by simp)
  next i rest hk =>
    split_ifs at h
    · obtain rfl := Option.some.inj h
      have hin : Inv n (s.catcherIn (.sendingBack (i + 1) :: rest)) :=
        hs.catcherGoes hk rfl rfl (by simp)
      exact hin.killSender (by simp)
    · obtain rfl := Option.some.inj h
      exact hs.dies.killSender fun _ => rfl

theorem Inv.sentEnd_of_pending (hpending : s.catcher.pending .rtmin ≠ 0) :
    s.sender.main.sentEnd = 1 := by
  have hended := hs.ended
  cases hmain : s.sender.main with
  | sending i =>
    rw [hmain, SenderPlace.sentEnd] at hended
    omega
  | _ => rfl

/-- A handler that lets `SIGRTMAX` interrupt it is in `sigsuspend`. -/
theorem Inv.quiet_of_not_blocked (hblocked : catcherBlocks s.catcher.handlers .rtmax = false) :
    ∀ k ∈ s.catcher.handlers.modifyHead catcherWake.handler,
      isUncounted k = 0 ∧ k.isEnd = false := by
  rcases hhandlers : s.catcher.handlers with _ | ⟨k, rest⟩
  · simp
  · rw [hhandlers] at hblocked
    cases k with
    | waiting =>
      intro k hk
      rcases List.mem_cons.mp hk with rfl | hk
      · exact ⟨rfl, rfl⟩
      · exact (hs.nested _ _ hhandlers rfl).1 k hk
    | _ => simp [catcherBlocks] at hblocked

theorem Inv.deliverToCatcher {signal : Sig} (h : deliverToCatcher s signal = some s') :
    Inv n s' := by
  obtain ⟨⟨halive, hpending, hblocked⟩, ⟨hhandler, rfl⟩ | ⟨-, rfl⟩⟩ := deliverToCatcher_eq_some h
  · have hsent := hs.sent halive
    have hended := hs.ended
    have hdata := Process.pending_add_inside_interrupt isUncounted_wake
      (isUncounted_entry signal) hpending
    refine ⟨hs.round, fun _ => ?_, ?_, ?_, ?_, ?_, fun h => absurd (hs.answered h) halive⟩
    · dsimp only
      omega
    · dsimp only
      cases signal with
      | rtmax => rwa [Process.pending_interrupt_of_ne (by decide)]
      | rtmin =>
        rw [Process.pending_interrupt_self]
        omega
    · rintro k rest hk hisEnd
      obtain ⟨rfl, -⟩ := List.cons.inj hk
      cases signal with
      | rtmax => cases hisEnd
      | rtmin => exact hs.sentEnd_of_pending hpending
    · rintro k rest hk hisEnd
      obtain ⟨rfl, rfl⟩ := List.cons.inj hk
      cases signal with
      | rtmin => cases hisEnd
      | rtmax =>
        refine ⟨hs.quiet_of_not_blocked hblocked, ?_⟩
        intro v hv
        cases hv
    · intro hdead
      exfalso
      revert hdead
      simp only [Process.interrupt]
      split_ifs
      · revert halive
        cases s.catcher.main <;> simp [catcherWake]
      · exact halive
  · exact hs.dies

/-! ### The sender -/

theorem Inv.senderGoes {place : SenderPlace} {handlers : List SenderHandler} {received : ℕ}
    {pending : Sig → ℕ} (hdata : place.sentData n = s.sender.main.sentData n)
    (hend : place.sentEnd = s.sender.main.sentEnd)
    (hanswered : pending .rtmin ≠ 0 ∨ .reporting ∈ handlers →
      s.sender.pending .rtmin ≠ 0 ∨ .reporting ∈ s.sender.handlers) :
    Inv n { s with sender := ⟨place, handlers, pending⟩, senderReceived := received } :=
  ⟨hdata ▸ hs.round, fun h => (hs.sent h).trans hdata.symm, hend ▸ hs.ended,
    fun k rest hk h => hend.trans (hs.sentAll k rest hk h), hs.nested, hs.dead,
    fun h => hs.answered (hanswered h)⟩

theorem Inv.sendData {i : ℕ} (hmain : s.sender.main = .sending i) (hi : i < n) :
    Inv n (killCatcher (s.senderAt (.sending (i + 1))) .rtmax) := by
  have hsent := hs.sent
  have hended := hs.ended
  have hsentAll := hs.sentAll
  rw [hmain] at hsent hended hsentAll
  unfold killCatcher
  split_ifs with hdead
  · exact ⟨hi, fun h => absurd hdead h, hended, hsentAll, hs.nested, hs.dead, hs.answered⟩
  · refine ⟨hi, fun h => ?_, ?_, hsentAll, hs.nested, hs.dead, hs.answered⟩
    · have hbefore := hsent h
      change s.catcherReceived + (s.catcher.queue .rtmax).pending .rtmax +
        s.catcher.inside isUncounted = i + 1
      simp only [SenderPlace.sentData] at hbefore
      rw [Process.pending_queue_self]
      omega
    · change (s.catcher.queue .rtmax).pending .rtmin ≤ 0
      rwa [Process.pending_queue_of_ne (by decide)]

theorem Inv.sendEnd {i : ℕ} (hmain : s.sender.main = .sending i) (hi : ¬ i < n) :
    Inv n (killCatcher (s.senderAt .sent) .rtmin) := by
  have hround := hs.round
  have hsent := hs.sent
  have hended := hs.ended
  rw [hmain] at hround hsent hended
  simp only [SenderPlace.sentData, SenderPlace.sentEnd] at hround hsent hended
  have hn : i = n := by omega
  subst hn
  unfold killCatcher
  split_ifs with hdead
  · exact ⟨le_rfl, fun h => absurd hdead h, by
      change s.catcher.pending .rtmin ≤ 1
      omega, fun _ _ _ _ => rfl, hs.nested, hs.dead, hs.answered⟩
  · refine ⟨le_rfl, fun h => ?_, ?_, fun _ _ _ _ => rfl, hs.nested, hs.dead, hs.answered⟩
    · have hbefore := hsent h
      change s.catcherReceived + (s.catcher.queue .rtmin).pending .rtmax +
        s.catcher.inside isUncounted = i
      rwa [Process.pending_queue_of_ne (by decide)]
    · change (s.catcher.queue .rtmin).pending .rtmin ≤ 1
      rw [Process.pending_queue_self]
      omega

theorem Inv.stepSender (h : stepSender n s = some s') : Inv n s' := by
  unfold Queued.stepSender at h
  split at h
  next hidle =>
    split at h
    next i hmain =>
      split_ifs at h with hi
      · obtain rfl := Option.some.inj h
        exact hs.sendData hmain hi
      · obtain rfl := Option.some.inj h
        exact hs.sendEnd hmain hi
    next hmain =>
      obtain rfl := Option.some.inj h
      exact hs.senderGoes (by rw [hmain]; rfl) (by rw [hmain]; rfl) id
    next => cases h
    next hmain =>
      obtain rfl := Option.some.inj h
      exact hs.senderGoes (by rw [hmain]; rfl) (by rw [hmain]; rfl) id
    next => cases h
  next rest hk =>
    obtain rfl := Option.some.inj h
    exact hs.senderGoes rfl rfl (by simp [hk])
  next rest hk =>
    obtain rfl := Option.some.inj h
    exact hs.senderGoes rfl rfl (by simp [hk])
  next => cases h
  next rest hk =>
    obtain rfl := Option.some.inj h
    exact hs.senderGoes rfl rfl (by simp [hk])
  next rest hk =>
    obtain rfl := Option.some.inj h
    have hdead := hs.answered (.inr (by rw [hk]; exact List.mem_cons_self))
    have hended := hs.ended
    have hone : s.sender.main.sentEnd ≤ 1 := by cases s.sender.main <;> simp [SenderPlace.sentEnd]
    exact ⟨le_rfl, fun h => absurd hdead h, hended.trans hone, fun _ _ _ _ => rfl, hs.nested,
      hs.dead, fun _ => hdead⟩

theorem Inv.deliverToSender {signal : Sig} (h : deliverToSender s signal = some s') :
    Inv n s' := by
  unfold Queued.deliverToSender at h
  split_ifs at h with hready
  obtain rfl := Option.some.inj h
  obtain ⟨-, hpending, -, -⟩ := hready
  apply hs.senderGoes
  · split_ifs
    · cases s.sender.main <;> rfl
    · rfl
  · split_ifs
    · cases s.sender.main <;> rfl
    · rfl
  · rintro (h | h)
    · cases signal with
      | rtmin => exact .inl hpending
      | rtmax => exact .inl (by rwa [Function.update_of_ne (by decide)] at h)
    · rcases List.mem_cons.mp h with h | h
      · cases signal with
        | rtmax => cases h
        | rtmin => exact .inl hpending
      · exact .inr (reporting_mem_of_wake h)

theorem Inv.step {a : Action} (h : step n s a = some s') : Inv n s' := by
  cases a with
  | sender => exact hs.stepSender h
  | catcher => exact hs.stepCatcher h
  | toSender signal => exact hs.deliverToSender h
  | toCatcher signal => exact hs.deliverToCatcher h

/-! ### The calls of `sendback` -/

theorem Inv.received_of_endLast (hpending : s.catcher.pending .rtmin ≠ 0)
    (halive : s.catcher.main ≠ .dead) :
    s.catcherReceived = n ↔ s.catcher.pending .rtmax = 0 ∧ s.catcher.inside isUncounted = 0 := by
  have hsent := hs.sent halive
  have hdata := SenderPlace.sentData_of_sentEnd (n := n)
    (by rw [hs.sentEnd_of_pending hpending]; exact one_ne_zero)
  omega

omit hs in
theorem SendsBackAll.stepSender (hall : SendsBackAll n s) (h : stepSender n s = some s') :
    SendsBackAll n s' := by
  have hkill : ∀ (t : State) (signal : Sig), SendsBackAll n t →
      SendsBackAll n (killCatcher t signal) := by
    intro t signal ht
    unfold killCatcher
    split_ifs <;> exact ht
  unfold Queued.stepSender at h
  split at h
  · split at h
    · split_ifs at h <;> obtain rfl := Option.some.inj h <;> exact hkill _ _ hall
    all_goals first | cases h; done | obtain rfl := Option.some.inj h; exact hall
  all_goals first | cases h; done | obtain rfl := Option.some.inj h; exact hall

omit hs in
theorem SendsBackAll.catcherIn {k k' : CatcherHandler} {rest : List CatcherHandler} {received : ℕ}
    (hall : SendsBackAll n s) (hk : s.catcher.handlers = k :: rest)
    (hend : k'.isEnd = true → k.isEnd = true ∧ received = s.catcherReceived) :
    SendsBackAll n { s.catcherIn (k' :: rest) with catcherReceived := received } := by
  rintro _ _ ⟨⟩ hisEnd
  obtain ⟨hk', rfl⟩ := hend hisEnd
  exact hall k rest hk hk'

omit hs in
theorem SendsBackAll.killSender (hall : SendsBackAll n s) (signal : Sig) :
    SendsBackAll n (Queued.killSender s signal) := by
  unfold Queued.killSender
  split_ifs <;> exact hall

theorem Inv.sendsBackAll_stepCatcher (hall : SendsBackAll n s)
    (h : Queued.stepCatcher s = some s') : SendsBackAll n s' := by
  unfold Queued.stepCatcher at h
  split at h
  next hidle =>
    split at h
    all_goals first | cases h; done | obtain rfl := Option.some.inj h; exact hall
  next rest hk =>
    obtain rfl := Option.some.inj h
    exact hall.catcherIn hk (by simp [CatcherHandler.isEnd])
  next received rest hk =>
    obtain rfl := Option.some.inj h
    exact hall.catcherIn hk (by simp [CatcherHandler.isEnd])
  next rest hk =>
    obtain rfl := Option.some.inj h
    exact hall.catcherIn hk (by simp [CatcherHandler.isEnd])
  next => cases h
  next rest hk =>
    obtain rfl := Option.some.inj h
    -- the handler below is none of `SIGRTMIN`
    rintro k rest' rfl hisEnd
    rw [((hs.nested _ _ hk rfl).1 k List.mem_cons_self).2] at hisEnd
    cases hisEnd
  next rest hk =>
    obtain rfl := Option.some.inj h
    exact hall.catcherIn hk fun _ => ⟨rfl, rfl⟩
  next i rest hk =>
    split_ifs at h
    · obtain rfl := Option.some.inj h
      have hin : SendsBackAll n (s.catcherIn (.sendingBack (i + 1) :: rest)) :=
        hall.catcherIn hk fun _ => ⟨rfl, rfl⟩
      exact hin.killSender _
    · obtain rfl := Option.some.inj h
      have hin : SendsBackAll n ((s.catcherIn []).catcherAt .dead) := by rintro _ _ ⟨⟩
      exact hin.killSender _

theorem Inv.sendsBackAll_step {a : Action} (hall : SendsBackAll n s) (hlast : EndLast s a)
    (h : Queued.step n s a = some s') : SendsBackAll n s' := by
  cases a with
  | sender => exact hall.stepSender h
  | catcher => exact hs.sendsBackAll_stepCatcher hall h
  | toSender signal =>
    unfold Queued.step Queued.deliverToSender at h
    dsimp only at h
    split_ifs at h
    obtain rfl := Option.some.inj h
    exact hall
  | toCatcher signal =>
    obtain ⟨⟨halive, hpending, -⟩, ⟨hhandler, rfl⟩ | ⟨-, rfl⟩⟩ := deliverToCatcher_eq_some h
    · rintro k rest hk hisEnd
      obtain ⟨rfl, -⟩ := List.cons.inj hk
      cases signal with
      | rtmax => cases hisEnd
      | rtmin => exact (hs.received_of_endLast hpending halive).mpr (hlast rfl hhandler)
    · rintro _ _ ⟨⟩

/-- An end mark that overtakes data makes the catcher send back too little. -/
theorem Inv.not_sendsBackAll {a : Action} (hlast : ¬ EndLast s a)
    (h : Queued.step n s a = some s') : ¬ SendsBackAll n s' := by
  unfold EndLast at hlast
  push Not at hlast
  obtain ⟨rfl, hhandler, hlate⟩ := hlast
  obtain ⟨⟨halive, hpending, -⟩, ⟨-, rfl⟩ | ⟨hmissing, -⟩⟩ := deliverToCatcher_eq_some h
  · intro hall
    have hreceived := hall _ _ rfl rfl
    have hdone := (hs.received_of_endLast hpending halive).mp hreceived
    exact hlate hdone.1 hdone.2
  · rw [hhandler] at hmissing
    cases hmissing

end Steps

/-- In every state of a run the catcher sends back a whole count if and only if every
`SIGRTMIN` that it handles came last. -/
theorem sends_back_all_iff (to_send : ℕ) (schedule : List Action) (s : State)
    (hrun : exec (step to_send) start schedule = some s) :
    (∀ bs, bs <+: schedule → ∀ t, exec (step to_send) start bs = some t →
      SendsBackAll to_send t) ↔ Along (step to_send) EndLast start schedule := by
  constructor
  · intro hall
    refine along_iff.mpr fun bs a cs hschedule t ht => ?_
    by_contra hlast
    have hinv : Inv to_send t :=
      exec_invariant' (fun _ _ _ hs h => hs.step h) (inv_start to_send) ht
    have hrun' := hrun
    rw [hschedule, List.append_cons, exec_append] at hrun'
    obtain ⟨u, hu, -⟩ := hrun'
    obtain ⟨t', ht', hlastStep⟩ := exec_append.mp hu
    obtain rfl := Option.some.inj (ht.symm.trans ht')
    obtain ⟨u', hstep, hu'⟩ := exec_cons_eq_some.mp hlastStep
    obtain rfl := Option.some.inj hu'
    have hinitial : bs ++ [a] <+: schedule :=
      ⟨cs, by rw [hschedule, List.append_assoc, List.singleton_append]⟩
    exact hinv.not_sendsBackAll hlast hstep (hall _ hinitial _ hu)
  · intro hlast bs hbs t ht
    have h : Inv to_send t ∧ SendsBackAll to_send t :=
      exec_invariant (P := fun s => Inv to_send s ∧ SendsBackAll to_send s)
        (fun _ _ _ hs hC hstep => ⟨hs.1.step hstep, hs.1.sendsBackAll_step hs.2 hC hstep⟩)
        ⟨inv_start to_send, by rintro _ _ ⟨⟩⟩ (hlast.initial hbs) ht
    exact h.2

/-- The catcher is not scheduled until both signals are pending: the end mark comes first. -/
def endFirst : List Action :=
  List.replicate 3 .catcher ++ List.replicate 2 .sender ++ [.toCatcher .rtmin]

theorem sends_back_all_iff_endFirst :
    (∀ bs, bs <+: endFirst → ∀ t, exec (step 1) start bs = some t → SendsBackAll 1 t) ↔
      Along (step 1) EndLast start endFirst :=
  sends_back_all_iff 1 endFirst _ rfl

theorem not_sendsBackAll_endFirst :
    ∃ s, exec (step 1) start endFirst = some s ∧ ¬ SendsBackAll 1 s :=
  ⟨_, rfl, fun h => absurd (h .ending [] rfl rfl) (by decide)⟩

end Sysopy.Signals.Queued
