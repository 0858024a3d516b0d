import Sysopy.Signals.Acknowledged

/-!
# The counters agree

A signal is pending, is in a handler that has not passed it on, or has been counted; the
rounds that the sender has begun bound the sum. Since the sender begins a round only when the
answer to the last one has come, at most one signal is outstanding, so none is merged with
another and no count is lost, however the handlers nest.
-/
namespace Sysopy.Signals.Acknowledged

open Transition

variable (n : ℕ)

/-- The signals `SIGUSR1` that the sender has sent. -/
def SenderPlace.sentData : SenderPlace → ℕ
  | .sending i => min i n
  | .sent i => min (i + 1) n
  | .suspended i => min (i + 1) n
  | .returning => n
  | .exited => n

/-- The answers that have reached the sender, in a handler that may still have to count. -/
def SenderPlace.answers : SenderPlace → ℕ
  | .sending i => i
  | .sent i => i
  | .suspended i => i
  | .returning => n
  | .exited => n

/-- The answers that the sender has counted for certain. -/
def SenderPlace.counted : SenderPlace → ℕ
  | .sending i => i - 1
  | .sent i => i
  | .suspended i => i
  | .returning => n
  | .exited => n

/-- The signals `SIGUSR2` that the sender has sent. -/
def SenderPlace.sentEnd : SenderPlace → ℕ
  | .sending _ => 0
  | .sent i => if i < n then 0 else 1
  | .suspended i => if i < n then 0 else 1
  | .returning => 1
  | .exited => 1

def SenderHandler.isCounting : SenderHandler → ℕ
  | .counting => 1
  | _ => 0

def SenderHandler.isReporting : SenderHandler → ℕ
  | .reporting => 1
  | _ => 0

/-- The handler has yet to count its signal. -/
def CatcherHandler.isUncounted : CatcherHandler → ℕ
  | .entered => 1
  | .loaded _ => 1
  | _ => 0

/-- The handler has counted its signal and has yet to answer. -/
def CatcherHandler.isUnanswered : CatcherHandler → ℕ
  | .counted => 1
  | _ => 0

def CatcherHandler.isEnding : CatcherHandler → ℕ
  | .ending => 1
  | _ => 0

/-- The handler has yet to answer. -/
def CatcherHandler.load (handler : CatcherHandler) : ℕ :=
  handler.isUncounted + handler.isUnanswered + handler.isEnding

open CatcherHandler (isUncounted isUnanswered isEnding)
open SenderHandler (isCounting isReporting)

structure Inv (s : State) : Prop where
  round : s.sender.main.answers n ≤ n
  sent : s.catcherReceived + s.catcher.pending .usr1 + s.catcher.inside isUncounted ≤
    s.sender.main.sentData n
  answered : s.senderReceived + s.sender.inside isCounting + s.sender.pending .usr1 +
    s.catcher.inside isUnanswered ≤ s.catcherReceived
  answers : s.sender.main.answers n ≤ s.senderReceived + s.sender.inside isCounting
  counted : s.sender.main.counted n ≤ s.senderReceived
  ended : s.catcher.pending .usr2 + s.catcher.inside isEnding + s.sender.pending .usr2 +
    s.sender.inside isReporting ≤ s.sender.main.sentEnd n
  loaded : ∀ received, .loaded received ∈ s.catcher.handlers → received = s.catcherReceived
  /-- Only the innermost handler has something to do. -/
  nested : ∀ handler ∈ s.catcher.handlers.tail, handler.load = 0
  exited : s.sender.main = .exited → s.sender.handlers = []
  dead : s.catcher.main = .dead → s.catcher.handlers = []

theorem inv_start : Inv n start := by
  constructor <;> simp [start, Process.inside, SenderPlace.answers, SenderPlace.sentData,
    SenderPlace.counted, SenderPlace.sentEnd]

variable {n} {s s' : State}

theorem SenderPlace.sentData_le (place : SenderPlace) :
    place.sentData n ≤ place.counted n + 1 := by
  cases place <;> simp only [SenderPlace.sentData, SenderPlace.counted] <;> omega

theorem SenderPlace.sentData_le_total {place : SenderPlace} (h : place.answers n ≤ n) :
    place.sentData n ≤ n := by
  cases place <;> simp only [SenderPlace.sentData, SenderPlace.answers] at h ⊢ <;> omega

theorem SenderPlace.le_counted {place : SenderPlace} (h : place.sentEnd n ≠ 0) :
    n ≤ place.counted n := by
  cases place with
  | sending i => exact absurd rfl h
  | sent i | suspended i =>
    have hi : ¬ i < n := fun hi => h (if_pos hi)
    simpa [SenderPlace.counted] using hi
  | returning | exited => exact le_rfl

theorem SenderPlace.sentEnd_le_one (place : SenderPlace) : place.sentEnd n ≤ 1 := by
  cases place with
  | sent i | suspended i =>
    simp only [SenderPlace.sentEnd]
    split <;> omega
  | _ => simp [SenderPlace.sentEnd]

theorem isUncounted_wake (k : CatcherHandler) :
    (catcherWake.handler k).isUncounted = k.isUncounted := by cases k <;> rfl

theorem isUnanswered_wake (k : CatcherHandler) :
    (catcherWake.handler k).isUnanswered = k.isUnanswered := by cases k <;> rfl

theorem isEnding_wake (k : CatcherHandler) :
    (catcherWake.handler k).isEnding = k.isEnding := by cases k <;> rfl

theorem isUncounted_entry (signal : Sig) :
    (catcherEntry signal).isUncounted = if .usr1 = signal then 1 else 0 := by cases signal <;> rfl

theorem isUnanswered_entry (signal : Sig) : (catcherEntry signal).isUnanswered = 0 := by
  cases signal <;> rfl

theorem isEnding_entry (signal : Sig) :
    (catcherEntry signal).isEnding = if .usr2 = signal then 1 else 0 := by cases signal <;> rfl

theorem isCounting_entry (signal : Sig) :
    (senderEntry signal).isCounting = if .usr1 = signal then 1 else 0 := by cases signal <;> rfl

theorem isReporting_entry (signal : Sig) :
    (senderEntry signal).isReporting = if .usr2 = signal then 1 else 0 := by cases signal <;> rfl

theorem load_loaded_ne_zero (received : ℕ) : (CatcherHandler.loaded received).load ≠ 0 := by
  simp [CatcherHandler.load, isUncounted]

theorem main_interrupt_ne_dead (halive : s.catcher.main ≠ .dead) (signal : Sig) :
    (s.catcher.interrupt catcherWake signal (catcherEntry signal)).main ≠ .dead := by
  simp only [Process.interrupt]
  split_ifs
  · revert halive
    cases s.catcher.main <;> simp [catcherWake]
  · exact halive

section Steps

variable (hs : Inv n s)

include hs

theorem Inv.ne_dead {k : CatcherHandler} {rest : List CatcherHandler}
    (hk : s.catcher.handlers = k :: rest) : s.catcher.main ≠ .dead := by
  intro hdead
  rw [hs.dead hdead] at hk
  cases hk

theorem Inv.ne_exited {k : SenderHandler} {rest : List SenderHandler}
    (hk : s.sender.handlers = k :: rest) : s.sender.main ≠ .exited := by
  intro hexited
  rw [hs.exited hexited] at hk
  cases hk

/-- While a signal waits for the catcher, no handler of the catcher has anything to do. -/
theorem Inv.idle {signal : Sig} (hpending : s.catcher.pending signal ≠ 0) :
    s.catcher.inside isUncounted = 0 ∧ s.catcher.inside isUnanswered = 0 ∧
      s.catcher.inside isEnding = 0 := by
  have hsent := hs.sent
  have hanswered := hs.answered
  have hcounted := hs.counted
  have hended := hs.ended
  have hround := s.sender.main.sentData_le (n := n)
  have hlast := s.sender.main.sentEnd_le_one (n := n)
  by_cases hend : s.sender.main.sentEnd n = 0
  · cases signal <;> omega
  · have hall := SenderPlace.le_counted hend
    have hdata := SenderPlace.sentData_le_total hs.round
    cases signal <;> omega

/-! ### The catcher -/

theorem Inv.catcherIn {handlers : List CatcherHandler} {received : ℕ}
    (huncounted : received + (handlers.map isUncounted).sum ≤
      s.catcherReceived + s.catcher.inside isUncounted)
    (hunanswered : s.catcherReceived + (handlers.map isUnanswered).sum ≤
      received + s.catcher.inside isUnanswered)
    (hending : (handlers.map isEnding).sum ≤ s.catcher.inside isEnding)
    (hloaded : ∀ v, .loaded v ∈ handlers → v = received)
    (hnested : ∀ handler ∈ handlers.tail, handler.load = 0)
    (hdead : s.catcher.main = .dead → handlers = []) :
    Inv n { s.catcherIn handlers with catcherReceived := received } := by
  have hsent := hs.sent
  have hanswered := hs.answered
  have hended := hs.ended
  refine ⟨hs.round, ?_, ?_, hs.answers, hs.counted, ?_, hloaded, hnested, hs.exited, hdead⟩
  · change received + s.catcher.pending .usr1 + (handlers.map isUncounted).sum ≤ _
    exact le_trans (by omega) hsent
  · change s.senderReceived + s.sender.inside isCounting + s.sender.pending .usr1 +
      (handlers.map isUnanswered).sum ≤ received
    omega
  · change s.catcher.pending .usr2 + (handlers.map isEnding).sum + s.sender.pending .usr2 +
      s.sender.inside isReporting ≤ _
    exact le_trans (by omega) hended

theorem Inv.catcherAt {place : CatcherPlace} (hdead : place = .dead → s.catcher.handlers = []) :
    Inv n (s.catcherAt place) :=
  ⟨hs.round, hs.sent, hs.answered, hs.answers, hs.counted, hs.ended, hs.loaded, hs.nested,
    hs.exited, hdead⟩

theorem Inv.catcherGoes {k k' : CatcherHandler} {rest : List CatcherHandler}
    (hk : s.catcher.handlers = k :: rest) (huncounted : k'.isUncounted = k.isUncounted)
    (hunanswered : k'.isUnanswered ≤ k.isUnanswered) (hending : k'.isEnding ≤ k.isEnding)
    (hloaded : ∀ v, k' = .loaded v → v = s.catcherReceived) :
    Inv n (s.catcherIn (k' :: rest)) := by
  have hnested := hs.nested
  rw [hk] at hnested
  change Inv n { s.catcherIn (k' :: rest) with catcherReceived := s.catcherReceived }
  refine hs.catcherIn ?_ ?_ ?_ ?_ hnested
    (fun hdead => absurd hdead (hs.ne_dead hk))
  · rw [Process.inside_cons hk, List.map_cons, List.sum_cons, huncounted]
  · rw [Process.inside_cons hk, List.map_cons, List.sum_cons]
    omega
  · rw [Process.inside_cons hk, List.map_cons, List.sum_cons]
    omega
  · intro v hv
    rcases List.mem_cons.mp hv with hv | hv
    · exact hloaded v hv.symm
    · exact hs.loaded v (by rw [hk]; exact List.mem_cons_of_mem k hv)

theorem Inv.catcherReturns {k : CatcherHandler} {rest : List CatcherHandler}
    (hk : s.catcher.handlers = k :: rest) : Inv n (s.catcherIn rest) := by
  have hnested := hs.nested
  rw [hk] at hnested
  change Inv n { s.catcherIn rest with catcherReceived := s.catcherReceived }
  refine hs.catcherIn ?_ ?_ ?_ ?_ (fun h hh => hnested h (List.mem_of_mem_tail hh))
    (fun hdead => absurd hdead (hs.ne_dead hk))
  · rw [Process.inside_cons hk]
    omega
  · rw [Process.inside_cons hk]
    omega
  · rw [Process.inside_cons hk]
    omega
  · intro v hv
    exact hs.loaded v (by rw [hk]; exact List.mem_cons_of_mem k hv)

theorem Inv.catcherCounts {received : ℕ} {rest : List CatcherHandler}
    (hk : s.catcher.handlers = .loaded received :: rest) :
    Inv n { s.catcherIn (.counted :: rest) with catcherReceived := received + 1 } := by
  have hreceived : received = s.catcherReceived :=
    hs.loaded received (by rw [hk]; exact List.mem_cons_self)
  have hnested := hs.nested
  rw [hk] at hnested
  refine hs.catcherIn ?_ ?_ ?_ ?_ hnested (fun hdead => absurd hdead (hs.ne_dead hk))
  · rw [Process.inside_cons hk, hreceived, List.map_cons, List.sum_cons]
    simp only [isUncounted]
    omega
  · rw [Process.inside_cons hk, hreceived, List.map_cons, List.sum_cons]
    simp only [isUnanswered]
    omega
  · rw [Process.inside_cons hk, List.map_cons, List.sum_cons]
    exact le_rfl
  · intro v hv
    rcases List.mem_cons.mp hv with hv | hv
    · cases hv
    · exact absurd (hnested _ hv) (load_loaded_ne_zero v)

theorem Inv.sendback {signal : Sig}
    (hdata : signal = .usr1 → s.senderReceived + s.sender.inside isCounting + 1 +
      s.catcher.inside isUnanswered ≤ s.catcherReceived)
    (hend : signal = .usr2 → s.catcher.pending .usr2 + s.catcher.inside isEnding + 1 +
      s.sender.inside isReporting ≤ s.sender.main.sentEnd n) :
    Inv n (sendback s signal) := by
  unfold Acknowledged.sendback
  split_ifs with hexited
  · exact hs
  · refine ⟨hs.round, hs.sent, ?_, hs.answers, hs.counted, ?_, hs.loaded, hs.nested, hs.exited,
      hs.dead⟩
    · cases signal with
      | usr1 => simpa using hdata rfl
      | usr2 =>
        have h := hs.answered
        rwa [← Process.pending_raise_of_ne (by decide : Sig.usr1 ≠ .usr2)] at h
    · cases signal with
      | usr1 =>
        have h := hs.ended
        rwa [← Process.pending_raise_of_ne (by decide : Sig.usr2 ≠ .usr1)] at h
      | usr2 => simpa using hend rfl

theorem Inv.answersData {rest : List CatcherHandler} (hk : s.catcher.handlers = .counted :: rest) :
    Inv n (Acknowledged.sendback (s.catcherIn (.answered :: rest)) .usr1) := by
  have hanswered := hs.answered
  rw [Process.inside_cons hk] at hanswered
  have hin : Inv n (s.catcherIn (.answered :: rest)) :=
    hs.catcherGoes hk rfl (by decide) (by decide) (by simp)
  refine hin.sendback (fun _ => ?_) (by simp)
  change s.senderReceived + s.sender.inside isCounting + 1 +
    ((.answered :: rest).map isUnanswered).sum ≤ s.catcherReceived
  simp only [List.map_cons, List.sum_cons, isUnanswered] at hanswered ⊢
  omega

theorem Inv.answersEnd {rest : List CatcherHandler} (hk : s.catcher.handlers = .ending :: rest) :
    Inv n (Acknowledged.sendback (s.catcherIn (.ended :: rest)) .usr2) := by
  have hended := hs.ended
  rw [Process.inside_cons hk] at hended
  have hin : Inv n (s.catcherIn (.ended :: rest)) :=
    hs.catcherGoes hk rfl (by decide) (by decide) (by simp)
  refine hin.sendback (by simp) (fun _ => ?_)
  change s.catcher.pending .usr2 + ((.ended :: rest).map isEnding).sum + 1 +
    s.sender.inside isReporting ≤ s.sender.main.sentEnd n
  simp only [List.map_cons, List.sum_cons, isEnding] at hended ⊢
  omega

theorem Inv.stepCatcher (h : stepCatcher s = some s') : Inv n s' := by
  unfold Acknowledged.stepCatcher at h
  split at h
  next hidle =>
    split at h
    all_goals first | cases h; done | obtain rfl := Option.some.inj h
    · exact hs.catcherAt (fun hdead => by cases hdead)
    · exact hs.catcherAt (fun hdead => by cases hdead)
    · exact hs.catcherAt (fun hdead => by cases hdead)
    · exact hs.catcherAt (fun _ => hidle)
  next rest hk =>
    obtain rfl := Option.some.inj h
    exact hs.catcherGoes hk rfl le_rfl le_rfl fun v hv => (CatcherHandler.loaded.inj hv).symm
  next received rest hk =>
    obtain rfl := Option.some.inj h
    exact hs.catcherCounts hk
  next rest hk =>
    obtain rfl := Option.some.inj h
    exact hs.answersData hk
  next rest hk =>
    obtain rfl := Option.some.inj h
    exact hs.catcherGoes hk rfl le_rfl le_rfl (by simp)
  next => cases h
  next rest hk =>
    obtain rfl := Option.some.inj h
    exact hs.catcherReturns hk
  next rest hk =>
    obtain rfl := Option.some.inj h
    exact hs.answersEnd hk
  next rest hk =>
    obtain rfl := Option.some.inj h
    exact hs.catcherReturns hk

theorem Inv.catcherInterrupt {signal : Sig} (halive : s.catcher.main ≠ .dead)
    (hpending : s.catcher.pending signal ≠ 0) :
    Inv n { s with
      catcher := s.catcher.interrupt catcherWake signal (catcherEntry signal) } := by
  obtain ⟨huncounted, hunanswered, hending⟩ := hs.idle hpending
  have hidle : ∀ k ∈ s.catcher.handlers, k.load = 0 := by
    intro k hk
    have h1 : isUncounted k ≤ _ := Process.le_inside hk
    have h2 : isUnanswered k ≤ _ := Process.le_inside hk
    have h3 : isEnding k ≤ _ := Process.le_inside hk
    simp only [CatcherHandler.load]
    omega
  have hnested : ∀ k ∈ (s.catcher.interrupt catcherWake signal
      (catcherEntry signal)).handlers.tail, k.load = 0 := by
    intro k hk
    obtain ⟨k', hk', rfl | rfl⟩ := Process.mem_tail_interrupt hk
    · exact hidle k hk'
    · have h := hidle k' hk'
      simpa only [CatcherHandler.load, isUncounted_wake, isUnanswered_wake, isEnding_wake] using h
  have hdata := Process.pending_add_inside_interrupt isUncounted_wake (isUncounted_entry signal)
    hpending
  have hend := Process.pending_add_inside_interrupt isEnding_wake (isEnding_entry signal) hpending
  have hsent := hs.sent
  have hended := hs.ended
  refine ⟨hs.round, ?_, ?_, hs.answers, hs.counted, ?_, ?_, hnested, hs.exited, ?_⟩
  · dsimp only
    omega
  · dsimp only
    rw [Process.inside_interrupt isUnanswered_wake, isUnanswered_entry, Nat.zero_add]
    exact hs.answered
  · dsimp only
    omega
  · intro v hv
    rcases List.mem_cons.mp hv with hv | hv
    · cases signal <;> cases hv
    · exact absurd (hnested _ hv) (load_loaded_ne_zero v)
  · intro hdead
    exact absurd hdead (main_interrupt_ne_dead halive signal)

theorem Inv.deliverToCatcher {signal : Sig} (h : deliverToCatcher s signal = some s') :
    Inv n s' := by
  unfold Acknowledged.deliverToCatcher at h
  split_ifs at h with hpending hhandler
  · obtain rfl := Option.some.inj h
    exact hs.catcherInterrupt hpending.1 hpending.2
  · obtain rfl := Option.some.inj h
    -- the handlers of a process end with it
    have hin : Inv n (s.catcherIn []) := by
      change Inv n { s.catcherIn [] with catcherReceived := s.catcherReceived }
      exact hs.catcherIn (by simp) (by simp) (by simp) (by simp) (by simp) (by simp)
    exact hin.catcherAt fun _ => rfl

/-! ### The sender -/

theorem Inv.killCatcher {signal : Sig}
    (hdata : signal = .usr1 → s.catcherReceived + 1 + s.catcher.inside isUncounted ≤
      s.sender.main.sentData n)
    (hend : signal = .usr2 → 1 + s.catcher.inside isEnding + s.sender.pending .usr2 +
      s.sender.inside isReporting ≤ s.sender.main.sentEnd n) :
    Inv n (killCatcher s signal) := by
  unfold Acknowledged.killCatcher
  split_ifs with hdead
  · exact hs
  · refine ⟨hs.round, ?_, hs.answered, hs.answers, hs.counted, ?_, hs.loaded, hs.nested, hs.exited,
      hs.dead⟩
    · cases signal with
      | usr1 => simpa using hdata rfl
      | usr2 =>
        have h := hs.sent
        rwa [← Process.pending_raise_of_ne (by decide : Sig.usr1 ≠ .usr2)] at h
    · cases signal with
      | usr1 =>
        have h := hs.ended
        rwa [← Process.pending_raise_of_ne (by decide : Sig.usr2 ≠ .usr1)] at h
      | usr2 => simpa using hend rfl

theorem Inv.senderAt {place : SenderPlace} {handlers : List SenderHandler} {received : ℕ}
    (hround : place.answers n ≤ n) (hdata : s.sender.main.sentData n ≤ place.sentData n)
    (hcounts : received + (handlers.map isCounting).sum ≤
      s.senderReceived + s.sender.inside isCounting)
    (hanswers : place.answers n ≤ received + (handlers.map isCounting).sum)
    (hcounted : place.counted n ≤ received)
    (hend : s.sender.main.sentEnd n ≤ place.sentEnd n)
    (hreporting : (handlers.map isReporting).sum ≤ s.sender.inside isReporting)
    (hexited : place = .exited → handlers = []) :
    Inv n { (s.senderIn handlers).senderAt place with senderReceived := received } := by
  have hanswered := hs.answered
  have hended := hs.ended
  refine ⟨hround, hs.sent.trans hdata, ?_, hanswers, hcounted, ?_, hs.loaded, hs.nested, hexited,
    hs.dead⟩
  · change received + (handlers.map isCounting).sum + s.sender.pending .usr1 +
      s.catcher.inside isUnanswered ≤ s.catcherReceived
    omega
  · change s.catcher.pending .usr2 + s.catcher.inside isEnding + s.sender.pending .usr2 +
      (handlers.map isReporting).sum ≤ place.sentEnd n
    omega

theorem Inv.send {i : ℕ} (hidle : s.sender.handlers = []) (hmain : s.sender.main = .sending i) :
    Inv n (Acknowledged.killCatcher (s.senderAt (.sent i)) (signalOf n i)) := by
  have hround := hs.round
  have hsent := hs.sent
  have hanswered := hs.answered
  have hanswers := hs.answers
  have hended := hs.ended
  rw [hmain] at hround hsent hanswers hended
  rw [Process.inside_of_handlers hidle] at hanswers
  simp only [SenderPlace.sentData, SenderPlace.answers] at hround hsent hanswers
  simp only [SenderPlace.sentEnd] at hended
  have hin : Inv n (s.senderAt (.sent i)) := by
    change Inv n { (s.senderIn s.sender.handlers).senderAt (.sent i) with
      senderReceived := s.senderReceived }
    refine hs.senderAt hround ?_ le_rfl ?_ hanswers ?_ le_rfl (by simp)
    · rw [hmain]
      simp only [SenderPlace.sentData]
      omega
    · exact hanswers.trans (Nat.le_add_right _ _)
    · rw [hmain]
      exact Nat.zero_le _
  refine hin.killCatcher ?_ ?_
  · intro hsignal
    have hi : i < n := by
      by_contra hi
      rw [signalOf, if_neg hi] at hsignal
      cases hsignal
    change s.catcherReceived + 1 + s.catcher.inside isUncounted ≤ min (i + 1) n
    omega
  · intro hsignal
    have hi : ¬ i < n := by
      intro hi
      rw [signalOf, if_pos hi] at hsignal
      cases hsignal
    change 1 + s.catcher.inside isEnding + s.sender.pending .usr2 + s.sender.inside isReporting ≤
      if i < n then 0 else 1
    rw [if_neg hi]
    omega

/-- When the end has come back, both have counted every signal. -/
theorem Inv.agree (hreporting : s.sender.inside isReporting ≠ 0) :
    s.senderReceived = n ∧ s.catcherReceived = n := by
  have hsent := hs.sent
  have hanswered := hs.answered
  have hcounted := hs.counted
  have hended := hs.ended
  have hall := SenderPlace.le_counted (by omega : s.sender.main.sentEnd n ≠ 0)
  have hdata := SenderPlace.sentData_le_total hs.round
  omega

theorem Inv.stepSender (h : stepSender n s = some s') : Inv n s' := by
  unfold Acknowledged.stepSender at h
  split at h
  next hidle =>
    split at h
    next i hmain =>
      obtain rfl := Option.some.inj h
      exact hs.send hidle hmain
    next i hmain =>
      obtain rfl := Option.some.inj h
      have hround := hs.round
      have hanswers := hs.answers
      have hcounted := hs.counted
      rw [hmain] at hround hanswers hcounted
      change Inv n { (s.senderIn s.sender.handlers).senderAt (.suspended i) with
        senderReceived := s.senderReceived }
      refine hs.senderAt hround ?_ le_rfl hanswers hcounted ?_ le_rfl (by simp) <;> rw [hmain] <;>
        exact le_rfl
    next => cases h
    next hmain =>
      obtain rfl := Option.some.inj h
      have hanswers := hs.answers
      have hcounted := hs.counted
      rw [hmain] at hanswers hcounted
      change Inv n { (s.senderIn s.sender.handlers).senderAt .exited with
        senderReceived := s.senderReceived }
      refine hs.senderAt le_rfl ?_ le_rfl hanswers hcounted ?_ le_rfl (fun _ => hidle) <;>
        rw [hmain] <;> exact le_rfl
    next => cases h
  next rest hk =>
    obtain rfl := Option.some.inj h
    have hanswers := hs.answers
    have hcounted := hs.counted
    rw [Process.inside_cons hk] at hanswers
    change Inv n { (s.senderIn (.counted :: rest)).senderAt s.sender.main with
      senderReceived := s.senderReceived + 1 }
    refine hs.senderAt hs.round le_rfl ?_ ?_ (by omega) le_rfl ?_
      (fun hexited => absurd hexited (hs.ne_exited hk))
    · rw [Process.inside_cons hk, List.map_cons, List.sum_cons]
      simp only [isCounting]
      omega
    · rw [List.map_cons, List.sum_cons]
      simp only [isCounting] at hanswers ⊢
      omega
    · rw [Process.inside_cons hk, List.map_cons, List.sum_cons]
      exact le_rfl
  next rest hk =>
    obtain rfl := Option.some.inj h
    have hanswers := hs.answers
    rw [Process.inside_cons hk] at hanswers
    change Inv n { (s.senderIn rest).senderAt s.sender.main with
      senderReceived := s.senderReceived }
    refine hs.senderAt hs.round le_rfl ?_ ?_ hs.counted le_rfl ?_
      (fun hexited => absurd hexited (hs.ne_exited hk))
    · rw [Process.inside_cons hk]
      omega
    · simp only [isCounting] at hanswers ⊢
      omega
    · rw [Process.inside_cons hk]
      omega
  next rest hk =>
    obtain rfl := Option.some.inj h
    have hagree := hs.agree (by rw [Process.inside_cons hk]; simp [isReporting])
    have hdata := SenderPlace.sentData_le_total hs.round
    change Inv n { (s.senderIn []).senderAt .exited with senderReceived := s.senderReceived }
    exact hs.senderAt le_rfl hdata (by simp) (by simp [hagree.1, SenderPlace.answers])
      (by simp [hagree.1, SenderPlace.counted]) s.sender.main.sentEnd_le_one (by simp) (by simp)

omit hs in
theorem inside_sender (signal : Sig) (entry : SenderHandler) (weight : SenderHandler → ℕ) :
    (s.sender.interrupt (senderWake n) signal entry).inside weight =
      weight entry + s.sender.inside weight :=
  Process.inside_interrupt (fun _ => rfl) entry

omit hs in
theorem pending_add_inside_sender {weight : SenderHandler → ℕ} {signal t : Sig}
    (hentry : weight (senderEntry signal) = if t = signal then 1 else 0)
    (hpending : s.sender.pending signal ≠ 0) :
    (s.sender.interrupt (senderWake n) signal (senderEntry signal)).pending t +
        (s.sender.interrupt (senderWake n) signal (senderEntry signal)).inside weight =
      s.sender.pending t + s.sender.inside weight :=
  Process.pending_add_inside_interrupt (fun _ => rfl) hentry hpending

omit hs in
theorem main_sender (signal : Sig) (entry : SenderHandler) :
    (s.sender.interrupt (senderWake n) signal entry).main = s.sender.main ∨
      ∃ i, s.sender.main = .suspended i ∧
        (s.sender.interrupt (senderWake n) signal entry).main =
          if i < n then .sending (i + 1) else .returning := by
  simp only [Process.interrupt]
  split_ifs with hidle
  · cases hmain : s.sender.main with
    | suspended i => exact .inr ⟨i, rfl, rfl⟩
    | _ => exact .inl rfl
  · exact .inl rfl

theorem Inv.round_interrupt {signal : Sig} (hpending : s.sender.pending signal ≠ 0)
    {place : SenderPlace}
    (hplace : place = s.sender.main ∨ ∃ i, s.sender.main = .suspended i ∧
      place = if i < n then .sending (i + 1) else .returning) :
    place.answers n ≤ n ∧ s.sender.main.sentData n ≤ place.sentData n ∧
      place.answers n ≤
        s.senderReceived + ((senderEntry signal).isCounting + s.sender.inside isCounting) ∧
      place.counted n ≤ s.senderReceived ∧ s.sender.main.sentEnd n ≤ place.sentEnd n := by
  have hanswers := hs.answers
  rcases hplace with rfl | ⟨i, hmain, rfl⟩
  · exact ⟨hs.round, le_rfl, by omega, hs.counted, le_rfl⟩
  · have hcounted := hs.counted
    have hended := hs.ended
    rw [hmain] at hcounted hended ⊢
    simp only [SenderPlace.sentData, SenderPlace.counted, SenderPlace.sentEnd] at hcounted hended ⊢
    split_ifs at hended ⊢ with hi
    · -- no end is on its way, so the answer counts
      have hsignal : signal = .usr1 := by
        cases signal with
        | usr1 => rfl
        | usr2 => omega
      rw [hsignal]
      refine ⟨hi, le_rfl, ?_, hcounted, le_rfl⟩
      change i + 1 ≤ s.senderReceived + (1 + s.sender.inside isCounting)
      omega
    · refine ⟨le_rfl, ?_, ?_, ?_, le_rfl⟩ <;> simp only [SenderPlace.answers] <;> omega

theorem Inv.deliverToSender {signal : Sig} (h : deliverToSender n s signal = some s') :
    Inv n s' := by
  unfold Acknowledged.deliverToSender at h
  split_ifs at h with hpending
  obtain rfl := Option.some.inj h
  obtain ⟨halive, hpending, -⟩ := hpending
  have hplace := main_sender (n := n) (s := s) signal (senderEntry signal)
  have hexited : (s.sender.interrupt (senderWake n) signal (senderEntry signal)).main ≠ .exited := by
    rcases hplace with h | ⟨i, _, h⟩
    · rwa [h]
    · rw [h]
      split_ifs <;> simp
  obtain ⟨hround, hdata, hanswers, hcounted, hend⟩ := hs.round_interrupt hpending hplace
  have hcounts := pending_add_inside_sender (n := n) (isCounting_entry signal) hpending
  have hreports := pending_add_inside_sender (n := n) (isReporting_entry signal) hpending
  have hanswered := hs.answered
  have hended := hs.ended
  refine ⟨hround, hs.sent.trans hdata, ?_, ?_, hcounted, ?_, hs.loaded, hs.nested,
    fun h => absurd h hexited, hs.dead⟩
  · dsimp only
    omega
  · rwa [inside_sender]
  · dsimp only
    omega

theorem Inv.step {a : Action} (h : step n s a = some s') : Inv n s' := by
  cases a with
  | sender => exact hs.stepSender h
  | catcher => exact hs.stepCatcher h
  | toSender signal => exact hs.deliverToSender h
  | toCatcher signal => exact hs.deliverToCatcher h

end Steps

/-- Whenever the handler of `SIGUSR2` runs in the sender, the counters agree. -/
theorem counters_agree (to_send : ℕ) (schedule : List Action) (s : State)
    (hrun : exec (step to_send) start schedule = some s)
    (hreporting : .reporting ∈ s.sender.handlers) :
    s.senderReceived = s.catcherReceived ∧ s.catcherReceived = to_send := by
  have hs : Inv to_send s := exec_invariant' (fun _ _ _ hs h => hs.step h) (inv_start to_send) hrun
  have hinside : isReporting .reporting ≤ s.sender.inside isReporting :=
    Process.le_inside hreporting
  have hone : isReporting .reporting = 1 := rfl
  have hagree := hs.agree (by omega)
  exact ⟨hagree.1.trans hagree.2.symm, hagree.2⟩

/-- One signal, its answer, and the end, which comes back to the sender. -/
def oneSignal : List Action :=
  List.replicate 3 .catcher ++ [.sender, .sender, .toCatcher .usr1] ++
    List.replicate 4 .catcher ++ [.toSender .usr1] ++ List.replicate 4 .sender ++
    [.toCatcher .usr2, .catcher, .toSender .usr2]

theorem counters_agree_oneSignal :
    ∃ s, exec (step 1) start oneSignal = some s ∧
      (s.senderReceived = s.catcherReceived ∧ s.catcherReceived = 1) :=
  ⟨_, rfl, counters_agree 1 oneSignal _ rfl (by decide)⟩

end Sysopy.Signals.Acknowledged
