import Sysopy.Signals.Counters

/-!
# Lost wake-ups

The sender sends a signal and then calls `sigsuspend`. An answer that comes in between runs its
handler before the call, which then waits for an answer that does not come. Where every answer
`SIGUSR1` finds the sender in `sigsuspend`, the signal of the round is always somewhere: it is
pending, or a handler has yet to pass it on.
-/
namespace Sysopy.Signals.Acknowledged

open Transition
open CatcherHandler (isUncounted isUnanswered isEnding)
open SenderHandler (isCounting isReporting)

def SenderSuspended (s : State) : Prop :=
  s.sender.handlers = [] ∧ ∃ i, s.sender.main = .suspended i

def SenderPlace.isSuspended : SenderPlace → Bool
  | .suspended _ => true
  | _ => false

theorem SenderPlace.isSuspended_iff {place : SenderPlace} :
    place.isSuspended = true ↔ ∃ i, place = .suspended i := by
  cases place <;> simp [SenderPlace.isSuspended]

instance decidableSenderSuspended (s : State) : Decidable (SenderSuspended s) :=
  decidable_of_iff (s.sender.handlers = [] ∧ s.sender.main.isSuspended = true)
    (and_congr_right fun _ => SenderPlace.isSuspended_iff)

/-- The catcher is in the `sigsuspend` of `main` or of its innermost handler. -/
def CatcherSuspended (s : State) : Prop :=
  match s.catcher.handlers with
  | [] => s.catcher.main = .suspended
  | handler :: _ => handler = .waiting

/-- Both wait for a signal, and none is pending. -/
structure Stuck (s : State) : Prop where
  sender : SenderSuspended s
  catcher : CatcherSuspended s
  toSender : ∀ signal, s.sender.pending signal = 0
  toCatcher : ∀ signal, s.catcher.pending signal = 0

/-- An answer `SIGUSR1` is delivered while the sender is in `sigsuspend`. -/
def Awaited (s : State) (a : Action) : Prop := a = .toSender .usr1 → SenderSuspended s

/-- Neither process has ended. -/
def Live (s : State) : Prop := s.catcher.main ≠ .dead ∧ s.sender.main ≠ .exited

variable {n : ℕ} {s s' : State}

/-- There is no way out. -/
theorem step_of_stuck (h : Stuck s) (a : Action) : step n s a = none := by
  obtain ⟨⟨hidle, i, hmain⟩, hcatcher, htoSender, htoCatcher⟩ := h
  cases a with
  | sender => simp [step, stepSender, hidle, hmain]
  | catcher =>
    unfold CatcherSuspended at hcatcher
    simp only [step, stepCatcher]
    split at hcatcher
    next hk => simp [hk, hcatcher]
    next hk => simp [hk, hcatcher]
  | toSender signal => simp [step, deliverToSender, htoSender]
  | toCatcher signal => simp [step, deliverToCatcher, htoCatcher]

/-! ## The signal of the round -/

variable (n) in
/-- Nothing that was sent is missing. -/
structure Kept (s : State) : Prop where
  answers : s.senderReceived + s.sender.inside isCounting ≤ s.sender.main.answers n
  data : Live s → s.sender.main.sentData n ≤
    s.catcherReceived + s.catcher.pending .usr1 + s.catcher.inside isUncounted
  answered : Live s → s.catcherReceived ≤ s.senderReceived + s.sender.inside isCounting +
    s.sender.pending .usr1 + s.catcher.inside isUnanswered
  ended : Live s → s.sender.main.sentEnd n ≤ s.catcher.pending .usr2 +
    s.catcher.inside isEnding + s.sender.pending .usr2 + s.sender.inside isReporting

theorem kept_start : Kept n start := by
  constructor <;> simp [start, Process.inside, SenderPlace.answers, SenderPlace.sentData,
    SenderPlace.sentEnd]

/-- One of the two is not waiting, or a signal is pending. -/
theorem Kept.not_stuck (hs : Inv n s) (hkept : Kept n s) : ¬ Stuck s := by
  rintro ⟨⟨hidle, i, hmain⟩, hcatcher, htoSender, htoCatcher⟩
  have hwaiting : s.catcher.main ≠ .dead ∧ ∀ k ∈ s.catcher.handlers, k.load = 0 := by
    have hnested := hs.nested
    have hdead := hs.dead
    unfold CatcherSuspended at hcatcher
    split at hcatcher
    next hk => simp [hk, hcatcher]
    next k rest hk =>
      rw [hk] at hnested hdead
      refine ⟨fun h => absurd (hdead h) (List.cons_ne_nil _ _), ?_⟩
      intro k' hk'
      rw [hk] at hk'
      rcases List.mem_cons.mp hk' with rfl | hk'
      · rw [hcatcher]
        rfl
      · exact hnested k' hk'
  have hload : ∀ weight : CatcherHandler → ℕ, (∀ k, weight k ≤ k.load) →
      s.catcher.inside weight = 0 := by
    intro weight hweight
    apply List.sum_eq_zero
    intro x hx
    obtain ⟨k, hk, rfl⟩ := List.mem_map.mp hx
    have h := hwaiting.2 k hk
    have hle := hweight k
    omega
  have huncounted := hload isUncounted fun k => by simp only [CatcherHandler.load]; omega
  have hunanswered := hload isUnanswered fun k => by simp only [CatcherHandler.load]; omega
  have hending := hload isEnding fun k => by simp only [CatcherHandler.load]; omega
  have hlive : Live s := ⟨hwaiting.1, by simp [hmain]⟩
  have hanswers := hkept.answers
  have hdata := hkept.data hlive
  have hanswered := hkept.answered hlive
  have hended := hkept.ended hlive
  have hround := hs.round
  rw [Process.inside_of_handlers hidle] at hanswers hanswered hended
  simp only [htoSender, htoCatcher, huncounted, hunanswered, hending, hmain, SenderPlace.answers,
    SenderPlace.sentData, SenderPlace.sentEnd] at hanswers hdata hanswered hended hround
  split_ifs at hended <;> omega

section Steps

variable (hs : Inv n s) (hkept : Kept n s)

include hkept

/-! ### The catcher -/

theorem Kept.catcherAt {place : CatcherPlace} (halive : s.catcher.main ≠ .dead) :
    Kept n (s.catcherAt place) :=
  ⟨hkept.answers, fun h => hkept.data ⟨halive, h.2⟩, fun h => hkept.answered ⟨halive, h.2⟩,
    fun h => hkept.ended ⟨halive, h.2⟩⟩

theorem Kept.catcherIn {handlers : List CatcherHandler} {received : ℕ}
    (huncounted : s.catcherReceived + s.catcher.inside isUncounted =
      received + (handlers.map isUncounted).sum)
    (hunanswered : received + s.catcher.inside isUnanswered =
      s.catcherReceived + (handlers.map isUnanswered).sum)
    (hending : s.catcher.inside isEnding = (handlers.map isEnding).sum) :
    Kept n { s.catcherIn handlers with catcherReceived := received } := by
  refine ⟨hkept.answers, fun h => (hkept.data h).trans ?_, fun h => ?_,
    fun h => (hkept.ended h).trans ?_⟩
  · change _ ≤ received + s.catcher.pending .usr1 + (handlers.map isUncounted).sum
    omega
  · have hanswered := hkept.answered h
    change received ≤ s.senderReceived + s.sender.inside isCounting + s.sender.pending .usr1 +
      (handlers.map isUnanswered).sum
    omega
  · change _ ≤ s.catcher.pending .usr2 + (handlers.map isEnding).sum + s.sender.pending .usr2 +
      s.sender.inside isReporting
    omega

theorem Kept.catcherGoes {k : CatcherHandler} {rest handlers : List CatcherHandler}
    (hk : s.catcher.handlers = k :: rest)
    (huncounted : k.isUncounted + (rest.map isUncounted).sum = (handlers.map isUncounted).sum)
    (hunanswered : k.isUnanswered + (rest.map isUnanswered).sum = (handlers.map isUnanswered).sum)
    (hending : k.isEnding + (rest.map isEnding).sum = (handlers.map isEnding).sum) :
    Kept n (s.catcherIn handlers) := by
  change Kept n { s.catcherIn handlers with catcherReceived := s.catcherReceived }
  apply hkept.catcherIn
  · rw [Process.inside_cons hk, huncounted]
  · rw [Process.inside_cons hk, hunanswered]
  · rw [Process.inside_cons hk, hending]

include hs in
theorem Kept.answersData {rest : List CatcherHandler}
    (hk : s.catcher.handlers = .counted :: rest) :
    Kept n (sendback (s.catcherIn (.answered :: rest)) .usr1) := by
  unfold sendback
  split_ifs with hexited
  · refine ⟨hkept.answers, ?_, ?_, ?_⟩ <;> exact fun h => absurd hexited h.2
  · refine ⟨hkept.answers, fun h => ?_, fun h => ?_, fun h => ?_⟩
    · have hdata := hkept.data h
      rwa [Process.inside_cons hk] at hdata
    · have hanswered := hkept.answered h
      have hsent := hs.sent
      have hall := hs.answered
      have hcounted := hs.counted
      have hround := s.sender.main.sentData_le (n := n)
      rw [Process.inside_cons hk] at hanswered hall
      change s.catcherReceived ≤ s.senderReceived + s.sender.inside isCounting +
        (s.sender.raise .usr1).pending .usr1 + ((.answered :: rest).map isUnanswered).sum
      rw [Process.pending_raise_self]
      simp only [List.map_cons, List.sum_cons, isUnanswered] at hanswered hall ⊢
      omega
    · have hended := hkept.ended h
      rw [Process.inside_cons hk] at hended
      change s.sender.main.sentEnd n ≤ s.catcher.pending .usr2 +
        ((.answered :: rest).map isEnding).sum + (s.sender.raise .usr1).pending .usr2 +
        s.sender.inside isReporting
      rwa [Process.pending_raise_of_ne (by decide)]

theorem Kept.answersEnd {rest : List CatcherHandler}
    (hk : s.catcher.handlers = .ending :: rest) :
    Kept n (sendback (s.catcherIn (.ended :: rest)) .usr2) := by
  unfold sendback
  split_ifs with hexited
  · refine ⟨hkept.answers, ?_, ?_, ?_⟩ <;> exact fun h => absurd hexited h.2
  · refine ⟨hkept.answers, fun h => ?_, fun h => ?_, fun h => ?_⟩
    · have hdata := hkept.data h
      rwa [Process.inside_cons hk] at hdata
    · have hanswered := hkept.answered h
      rw [Process.inside_cons hk] at hanswered
      change s.catcherReceived ≤ s.senderReceived + s.sender.inside isCounting +
        (s.sender.raise .usr2).pending .usr1 + ((.ended :: rest).map isUnanswered).sum
      rwa [Process.pending_raise_of_ne (by decide)]
    · have hone := s.sender.main.sentEnd_le_one (n := n)
      change s.sender.main.sentEnd n ≤ s.catcher.pending .usr2 +
        ((.ended :: rest).map isEnding).sum + (s.sender.raise .usr2).pending .usr2 +
        s.sender.inside isReporting
      rw [Process.pending_raise_self]
      omega

include hs in
theorem Kept.stepCatcher (h : stepCatcher s = some s') : Kept n s' := by
  unfold Acknowledged.stepCatcher at h
  split at h
  next hidle =>
    split at h
    all_goals first | cases h; done | obtain rfl := Option.some.inj h
    all_goals exact hkept.catcherAt (by simp [*])
  next rest hk =>
    obtain rfl := Option.some.inj h
    exact hkept.catcherGoes hk rfl rfl rfl
  next received rest hk =>
    obtain rfl := Option.some.inj h
    have hreceived := hs.loaded received (by rw [hk]; exact List.mem_cons_self)
    apply hkept.catcherIn
    · rw [Process.inside_cons hk, hreceived, List.map_cons, List.sum_cons]
      simp only [isUncounted]
      omega
    · rw [Process.inside_cons hk, hreceived, List.map_cons, List.sum_cons]
      simp only [isUnanswered]
      omega
    · rw [Process.inside_cons hk, List.map_cons, List.sum_cons]
      rfl
  next rest hk =>
    obtain rfl := Option.some.inj h
    exact hkept.answersData hs hk
  next rest hk =>
    obtain rfl := Option.some.inj h
    exact hkept.catcherGoes hk rfl rfl rfl
  next => cases h
  next rest hk =>
    obtain rfl := Option.some.inj h
    exact hkept.catcherGoes hk (Nat.zero_add _) (Nat.zero_add _) (Nat.zero_add _)
  next rest hk =>
    obtain rfl := Option.some.inj h
    exact hkept.answersEnd hk
  next rest hk =>
    obtain rfl := Option.some.inj h
    exact hkept.catcherGoes hk (Nat.zero_add _) (Nat.zero_add _) (Nat.zero_add _)

theorem Kept.deliverToCatcher {signal : Sig} (h : deliverToCatcher s signal = some s') :
    Kept n s' := by
  unfold Acknowledged.deliverToCatcher at h
  split_ifs at h with hpending hhandler
  · obtain rfl := Option.some.inj h
    obtain ⟨halive, hpending⟩ := hpending
    have hmoved := Process.pending_add_inside_interrupt isUncounted_wake
      (isUncounted_entry signal) hpending
    have hending := Process.pending_add_inside_interrupt isEnding_wake (isEnding_entry signal)
      hpending
    refine ⟨hkept.answers, fun h => ?_, fun h => ?_, fun h => ?_⟩
    · have hdata := hkept.data ⟨halive, h.2⟩
      dsimp only
      omega
    · have hanswered := hkept.answered ⟨halive, h.2⟩
      dsimp only
      rw [Process.inside_interrupt isUnanswered_wake]
      omega
    · have hended := hkept.ended ⟨halive, h.2⟩
      dsimp only
      omega
  · obtain rfl := Option.some.inj h
    refine ⟨hkept.answers, ?_, ?_, ?_⟩ <;> exact fun h => absurd rfl h.1

/-! ### The sender -/

theorem Kept.senderAt {place : SenderPlace} {handlers : List SenderHandler} {received : ℕ}
    (hanswers : received + (handlers.map isCounting).sum ≤ place.answers n)
    (hdata : place.sentData n = s.sender.main.sentData n)
    (hcounts : s.senderReceived + s.sender.inside isCounting =
      received + (handlers.map isCounting).sum)
    (hend : place.sentEnd n = s.sender.main.sentEnd n)
    (hreporting : s.sender.inside isReporting = (handlers.map isReporting).sum)
    (halive : s.sender.main ≠ .exited) :
    Kept n { (s.senderIn handlers).senderAt place with senderReceived := received } := by
  refine ⟨hanswers, fun h => ?_, fun h => ?_, fun h => ?_⟩
  · exact hdata.le.trans (hkept.data ⟨h.1, halive⟩)
  · have hanswered := hkept.answered ⟨h.1, halive⟩
    change s.catcherReceived ≤ received + (handlers.map isCounting).sum +
      s.sender.pending .usr1 + s.catcher.inside isUnanswered
    omega
  · have hended := hkept.ended ⟨h.1, halive⟩
    change place.sentEnd n ≤ s.catcher.pending .usr2 + s.catcher.inside isEnding +
      s.sender.pending .usr2 + (handlers.map isReporting).sum
    omega

omit hkept in
theorem kept_exited (hanswers : s.senderReceived + s.sender.inside isCounting ≤
    s.sender.main.answers n) (hexited : s.sender.main = .exited) : Kept n s := by
  refine ⟨hanswers, ?_, ?_, ?_⟩ <;> exact fun h => absurd hexited h.2

include hs in
theorem Kept.send {i : ℕ} (hidle : s.sender.handlers = []) (hmain : s.sender.main = .sending i) :
    Kept n (killCatcher (s.senderAt (.sent i)) (signalOf n i)) := by
  have hanswers := hkept.answers
  have hall := hs.answers
  have hanswered := hs.answered
  rw [hmain] at hanswers hall
  rw [Process.inside_of_handlers hidle] at hall
  unfold killCatcher
  split_ifs with hdead
  · refine ⟨hanswers, ?_, ?_, ?_⟩ <;> exact fun h => absurd hdead h.1
  · refine ⟨hanswers, fun h => ?_, fun h => ?_, fun h => ?_⟩
    · change min (i + 1) n ≤ s.catcherReceived + (s.catcher.raise _).pending .usr1 + _
      simp only [SenderPlace.answers] at hall
      unfold signalOf
      split_ifs with hi
      · rw [Process.pending_raise_self]
        omega
      · omega
    · exact hkept.answered ⟨h.1, by simp [hmain]⟩
    · change (if i < n then 0 else 1) ≤ (s.catcher.raise _).pending .usr2 + _ + _ + _
      unfold signalOf
      split_ifs with hi
      · exact Nat.zero_le _
      · rw [Process.pending_raise_self]
        omega

include hs in
theorem Kept.stepSender (h : stepSender n s = some s') : Kept n s' := by
  unfold Acknowledged.stepSender at h
  split at h
  next hidle =>
    split at h
    next i hmain =>
      obtain rfl := Option.some.inj h
      exact hkept.send hs hidle hmain
    next i hmain =>
      obtain rfl := Option.some.inj h
      have hanswers := hkept.answers
      rw [hmain] at hanswers
      change Kept n { (s.senderIn s.sender.handlers).senderAt (.suspended i) with
        senderReceived := s.senderReceived }
      exact hkept.senderAt hanswers (by rw [hmain]; rfl) rfl (by rw [hmain]; rfl) rfl (by simp [hmain])
    next => cases h
    next hmain =>
      obtain rfl := Option.some.inj h
      have hanswers := hkept.answers
      rw [hmain] at hanswers
      exact kept_exited hanswers rfl
    next => cases h
  next rest hk =>
    obtain rfl := Option.some.inj h
    have hanswers := hkept.answers
    rw [Process.inside_cons hk] at hanswers
    change Kept n { (s.senderIn (.counted :: rest)).senderAt s.sender.main with
      senderReceived := s.senderReceived + 1 }
    simp only [isCounting] at hanswers
    refine hkept.senderAt ?_ rfl ?_ rfl ?_ (hs.ne_exited hk)
    · rw [List.map_cons, List.sum_cons]
      simp only [isCounting]
      omega
    · rw [Process.inside_cons hk, List.map_cons, List.sum_cons]
      simp only [isCounting]
      omega
    · rw [Process.inside_cons hk, List.map_cons, List.sum_cons]
      rfl
  next rest hk =>
    obtain rfl := Option.some.inj h
    have hanswers := hkept.answers
    rw [Process.inside_cons hk] at hanswers
    change Kept n { (s.senderIn rest).senderAt s.sender.main with
      senderReceived := s.senderReceived }
    refine hkept.senderAt (by omega) rfl ?_ rfl ?_ (hs.ne_exited hk)
    · rw [Process.inside_cons hk]
      exact congrArg (s.senderReceived + ·) (Nat.zero_add _)
    · rw [Process.inside_cons hk]
      exact Nat.zero_add _
  next rest hk =>
    obtain rfl := Option.some.inj h
    have hagree := hs.agree (by rw [Process.inside_cons hk]; simp [isReporting])
    exact kept_exited hagree.1.le rfl

include hs in
theorem Kept.deliverToSender {signal : Sig} (hawaited : Awaited s (.toSender signal))
    (h : deliverToSender n s signal = some s') : Kept n s' := by
  unfold Acknowledged.deliverToSender at h
  split_ifs at h with hpending
  obtain rfl := Option.some.inj h
  obtain ⟨halive, hpending, -⟩ := hpending
  have hplace := main_sender (n := n) (s := s) signal (senderEntry signal)
  have hkeeps : (s.sender.interrupt (senderWake n) signal (senderEntry signal)).main.sentData n ≤
        s.sender.main.sentData n ∧
      (s.sender.interrupt (senderWake n) signal (senderEntry signal)).main.sentEnd n ≤
        s.sender.main.sentEnd n := by
    rcases hplace with h | ⟨i, hmain, h⟩
    · rw [h]
      exact ⟨le_rfl, le_rfl⟩
    · rw [h, hmain]
      split_ifs with hi
      · exact ⟨le_rfl, Nat.zero_le _⟩
      · simp only [SenderPlace.sentData, SenderPlace.sentEnd, if_neg hi]
        omega
  refine ⟨?_, fun h => ?_, fun h => ?_, fun h => ?_⟩
  · dsimp only
    rw [inside_sender]
    have hanswers := hkept.answers
    have hround := hs.round
    cases signal with
    | usr1 =>
      obtain ⟨hidle, i, hmain⟩ := hawaited rfl
      have hentry : isCounting (senderEntry .usr1) = 1 := rfl
      have hanswered := hs.answered
      have hsent := hs.sent
      have hdata := SenderPlace.sentData_le_total hs.round
      have hmain' : (s.sender.interrupt (senderWake n) .usr1 (senderEntry .usr1)).main =
          if i < n then .sending (i + 1) else .returning := by
        simp only [Process.interrupt, if_pos hidle, hmain, senderWake]
      rw [hmain] at hanswers
      rw [Process.inside_of_handlers hidle] at hanswers ⊢
      rw [hmain']
      split_ifs <;> simp only [SenderPlace.answers] at hanswers ⊢ <;> omega
    | usr2 =>
      have hentry : isCounting (senderEntry .usr2) = 0 := rfl
      rcases hplace with h | ⟨i, hmain, h⟩
      · rw [h]
        omega
      · rw [h]
        rw [hmain] at hanswers hround
        split_ifs <;> simp only [SenderPlace.answers] at hanswers hround ⊢ <;> omega
  · exact hkeeps.1.trans (hkept.data ⟨h.1, halive⟩)
  · have hanswered := hkept.answered ⟨h.1, halive⟩
    have hcounts := pending_add_inside_sender (n := n) (isCounting_entry signal) hpending
    dsimp only
    omega
  · have hended := hkept.ended ⟨h.1, halive⟩
    have hreports := pending_add_inside_sender (n := n) (isReporting_entry signal) hpending
    dsimp only
    omega

include hs in
theorem Kept.step {a : Action} (hawaited : Awaited s a) (h : step n s a = some s') :
    Kept n s' := by
  cases a with
  | sender => exact hkept.stepSender hs h
  | catcher => exact hkept.stepCatcher hs h
  | toSender signal => exact hkept.deliverToSender hs hawaited h
  | toCatcher signal => exact hkept.deliverToCatcher h

end Steps

/-- A run in which the sender waits for every answer before it comes is never stuck. -/
theorem not_stuck_of_awaited (to_send : ℕ) (schedule : List Action) (s : State)
    (hrun : exec (step to_send) start schedule = some s)
    (hawaited : Along (step to_send) Awaited start schedule) : ¬ Stuck s := by
  have h : Inv to_send s ∧ Kept to_send s :=
    exec_invariant (P := fun s => Inv to_send s ∧ Kept to_send s)
      (fun _ _ _ hs hC hstep => ⟨hs.1.step hstep, hs.2.step hs.1 hC hstep⟩)
      ⟨inv_start to_send, kept_start⟩ hawaited hrun
  exact h.2.not_stuck h.1

instance decidableAwaited (s : State) (a : Action) : Decidable (Awaited s a) :=
  inferInstanceAs (Decidable (a = .toSender .usr1 → SenderSuspended s))

theorem not_stuck_of_awaited_oneSignal :
    ∃ s, exec (step 1) start oneSignal = some s ∧ ¬ Stuck s :=
  ⟨_, rfl, not_stuck_of_awaited 1 oneSignal _ rfl (by decide)⟩

/-- The answer comes before the sender has called `sigsuspend`. -/
def earlyAnswer : List Action :=
  List.replicate 3 .catcher ++ [.sender, .toCatcher .usr1] ++ List.replicate 4 .catcher ++
    [.toSender .usr1] ++ List.replicate 3 .sender

theorem stuck_earlyAnswer : ∃ s, exec (step 1) start earlyAnswer = some s ∧ Stuck s :=
  ⟨_, rfl, ⟨rfl, 0, rfl⟩, rfl, by intro signal; cases signal <;> rfl,
    by intro signal; cases signal <;> rfl⟩

end Sysopy.Signals.Acknowledged
