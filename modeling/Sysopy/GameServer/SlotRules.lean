import Sysopy.GameServer.Slots

/-!
# What a step has to leave alone

The rules by which the invariant passes a step: of a thread that leaves the slots as they
are, of a thread that works on one slot, and of `close`, which ends the claim on one.
-/
namespace Sysopy.GameServer.Threads

variable {s s' : State} {t : ℕ}

/-- The owner has changed nothing but the slots in `P` and its own place. -/
structure Frame (s s' : State) (o : Owner) (P : Slot → Prop) : Prop where
  count : s'.count = s.count
  fds : s'.fds = s.fds
  thread : ∀ x, o ≠ .thread x → s'.thread x = s.thread x
  slot : ∀ q, ¬ P q →
    s'.clients q = s.clients q ∧ s'.claim q = s.claim q ∧ s'.occupant q = s.occupant q

theorem Inv.act (hs : Inv s) {o : Owner} {P : Slot → Prop} (hframe : Frame s s' o P)
    (hcritical : ∀ x, (s'.thread x).critical = true → s'.clients_mutex = some x)
    (hmoves : ∀ t, o = .thread t → s.thread t ≠ .absent ∧ s'.thread t ≠ .absent ∧
      ∀ client_fd, (s'.thread t).fresh = some client_fd → (s.thread t).fresh = some client_fd)
    (hthread : ∀ t, o = .thread t → ThreadInv s' t)
    (hpinger : ∀ i, s'.pinger = .close i → s'.claim i = .closing .pinger)
    (hclaim : ∀ q, P q → ∀ x, x ≠ o → ¬ (s.claim q).By x ∧ ¬ (s'.claim q).By x)
    (hslot : ∀ q, P q → SlotInv s' q)
    (hkept : ∀ q t, ¬ P q → o = .thread t → ¬ (s.thread t).WorksOn q)
    (hlive : ∀ q, P q → Live s' q → Live s q ∧ s'.occupant q = s.occupant q ∨
      o = .thread (s'.occupant q) ∧ ¬ (s.thread (s'.occupant q)).Placed ∧ ∀ q', P q' → q' = q) :
    Inv s' := by
  have hplaced : ∀ x, (s.thread x).Placed → (s'.thread x).Placed := by
    intro x hx
    by_cases hxo : o = .thread x
    · obtain ⟨_, habsent, hfresh⟩ := hmoves x hxo
      refine ⟨habsent, ?_⟩
      cases hf : (s'.thread x).fresh with
      | none => rfl
      | some client_fd => exact absurd (hx.2.symm.trans (hfresh client_fd hf)) (by simp)
    · rw [hframe.thread x hxo]
      exact hx
  have hholding : ∀ q, ¬ P q → Holding s q → Holding s' q := by
    intro q hq h
    obtain ⟨hclients, _, hoccupant⟩ := hframe.slot q hq
    refine ⟨?_, ?_⟩
    · rw [State.socket, hframe.fds, hclients, hoccupant]
      exact h.1
    · rw [hoccupant]
      exact hplaced _ h.2
  have hlive' : ∀ q, Live s' q → Live s q ∧ s'.occupant q = s.occupant q ∨
      P q ∧ o = .thread (s'.occupant q) ∧ ¬ (s.thread (s'.occupant q)).Placed ∧
        ∀ q', P q' → q' = q := by
    intro q h
    by_cases hq : P q
    · exact (hlive q hq h).imp_right fun h => ⟨hq, h⟩
    · obtain ⟨hclients, hclaim, hoccupant⟩ := hframe.slot q hq
      rw [Live, hclients, hclaim] at h
      exact .inl ⟨h, hoccupant⟩
  refine ⟨?_, hcritical, ?_, ?_, ?_, hpinger, ?_⟩
  · intro t ht
    rw [hframe.count] at ht
    by_cases hto : o = .thread t
    · exact absurd (hs.idle t ht) (hmoves t hto).1
    · rw [hframe.thread t hto]
      exact hs.idle t ht
  · intro t client_fd h
    rw [hframe.fds]
    by_cases hto : o = .thread t
    · exact hs.fresh t client_fd ((hmoves t hto).2.2 client_fd h)
    · rw [hframe.thread t hto] at h
      exact hs.fresh t client_fd h
  · intro t
    by_cases hto : o = .thread t
    · exact hthread t hto
    · refine (hs.thread t).congr (hframe.thread t hto) fun q hq => ?_
      by_cases hPq : P q
      · obtain ⟨hbefore, hafter⟩ := hclaim q hPq _ (Ne.symm hto)
        exact (hq.elim hbefore hafter).elim
      · exact (hframe.slot q hPq).2
  · intro q
    by_cases hq : P q
    · exact hslot q hq
    · obtain ⟨hclients, hclaim, _⟩ := hframe.slot q hq
      refine (hs.slot q).congr hclients hclaim (fun x hx => ?_) fun _ => hholding q hq
      exact hframe.thread x fun hto => hkept q x hq hto hx
  · intro p q hp hq heq
    rcases hlive' p hp with ⟨hp, hpo⟩ | ⟨hPp, _, hfreshp, honly⟩
    · rcases hlive' q hq with ⟨hq, hqo⟩ | ⟨_, _, hfreshq, _⟩
      · exact hs.distinct p q hp hq (by rw [← hpo, ← hqo, heq])
      · rw [← heq, hpo] at hfreshq
        exact absurd (hs.holding hp).2 hfreshq
    · rcases hlive' q hq with ⟨hq, hqo⟩ | ⟨hPq, _, _, _⟩
      · rw [heq, hqo] at hfreshp
        exact absurd (hs.holding hq).2 hfreshp
      · exact (honly q hPq).symm

theorem Inv.pass (hs : Inv s) (hframe : Frame s s' .pinger fun _ => False)
    (hmutex : s'.clients_mutex = s.clients_mutex)
    (hpinger : ∀ i, s'.pinger = .close i → s.claim i = .closing .pinger) : Inv s' := by
  refine hs.act hframe ?_ ?_ ?_ ?_ ?_ ?_ ?_ ?_
  · intro x h
    rw [hframe.thread x (by simp)] at h
    rw [hmutex]
    exact hs.critical x h
  · exact fun t h => by cases h
  · exact fun t h => by cases h
  · intro i h
    rw [(hframe.slot i id).2.1]
    exact hpinger i h
  · exact fun _ h => h.elim
  · exact fun _ h => h.elim
  · exact fun _ _ _ h => by cases h
  · exact fun _ h => h.elim

theorem Inv.exit (hs : Inv s) : Inv s.exit :=
  hs.pass ⟨rfl, rfl, fun _ _ => rfl, fun _ _ => ⟨rfl, rfl, rfl⟩⟩ rfl hs.pinger

/-! ## Threads -/

/-- Thread `t` has gone to `thread` and changed nothing but the slots in `P`. -/
structure Moves (s s' : State) (t : ℕ) (thread : Thread) (P : Slot → Prop) : Prop where
  count : s'.count = s.count
  fds : s'.fds = s.fds
  pinger : s'.pinger = s.pinger
  thread : s'.thread = Function.update s.thread t thread
  slot : ∀ q, ¬ P q →
    s'.clients q = s.clients q ∧ s'.claim q = s.claim q ∧ s'.occupant q = s.occupant q

section Moves

variable {thread₀ thread : Thread} {P : Slot → Prop}

theorem moves_goto (s : State) (t : ℕ) (thread : Thread) :
    Moves s (s.goto t thread) t thread fun _ => False :=
  ⟨rfl, rfl, rfl, rfl, fun _ _ => ⟨rfl, rfl, rfl⟩⟩

theorem moves_unlock (s : State) (t : ℕ) (thread : Thread) :
    Moves s ({ s with clients_mutex := none }.goto t thread) t thread fun _ => False :=
  ⟨rfl, rfl, rfl, rfl, fun _ _ => ⟨rfl, rfl, rfl⟩⟩

theorem Moves.self (h : Moves s s' t thread P) : s'.thread t = thread := by
  rw [h.thread, Function.update_self]

theorem Moves.frame (h : Moves s s' t thread P) : Frame s s' (.thread t) P where
  count := h.count
  fds := h.fds
  thread := by
    intro x hx
    rw [h.thread, Function.update_of_ne fun heq => hx (by rw [heq])]
  slot := h.slot

theorem Moves.critical_keep (hs : Inv s) (h : Moves s s' t thread P) (hat : s.thread t = thread₀)
    (hmutex : s'.clients_mutex = s.clients_mutex)
    (hkeep : thread.critical = true → thread₀.critical = true) (x : ℕ)
    (hx : (s'.thread x).critical = true) : s'.clients_mutex = some x := by
  rw [hmutex]
  by_cases hxt : x = t
  · subst hxt
    rw [h.self] at hx
    exact hs.critical x (by rw [hat]; exact hkeep hx)
  · rw [h.thread, Function.update_of_ne hxt] at hx
    exact hs.critical x hx

theorem Moves.critical_acquire (hs : Inv s) (h : Moves s s' t thread P)
    (hfree : s.clients_mutex = none) (hmutex : s'.clients_mutex = some t) (x : ℕ)
    (hx : (s'.thread x).critical = true) : s'.clients_mutex = some x := by
  by_cases hxt : x = t
  · rw [hxt]
    exact hmutex
  · rw [h.thread, Function.update_of_ne hxt] at hx
    exact absurd (hfree.symm.trans (hs.critical x hx)) (by simp)

theorem Moves.critical_release (hs : Inv s) (h : Moves s s' t thread P)
    (hat : s.thread t = thread₀) (hbefore : thread₀.critical = true)
    (hafter : thread.critical = false) (x : ℕ) (hx : (s'.thread x).critical = true) :
    s'.clients_mutex = some x := by
  by_cases hxt : x = t
  · subst hxt
    rw [h.self, hafter] at hx
    cases hx
  · rw [h.thread, Function.update_of_ne hxt] at hx
    rw [← hat] at hbefore
    exact absurd (hs.alone hx hbefore) hxt

theorem Inv.move (hs : Inv s) (hat : s.thread t = thread₀)
    (hmoves : Moves s s' t thread fun _ => False)
    (hcritical : ∀ x, (s'.thread x).critical = true → s'.clients_mutex = some x)
    (hpresent : thread₀ ≠ .absent ∧ thread ≠ .absent)
    (hfresh : ∀ client_fd, thread.fresh = some client_fd → thread₀.fresh = some client_fd)
    (hkept : ∀ q, ¬ thread₀.WorksOn q) (hinv : ThreadInv s' t) : Inv s' := by
  refine hs.act hmoves.frame hcritical ?_ ?_ ?_ ?_ ?_ ?_ ?_
  · rintro x hx
    obtain rfl := Owner.thread.inj hx
    rw [hmoves.self, hat]
    exact ⟨hpresent.1, hpresent.2, hfresh⟩
  · rintro x hx
    exact Owner.thread.inj hx ▸ hinv
  · intro i hi
    rw [hmoves.pinger] at hi
    rw [(hmoves.slot i id).2.1]
    exact hs.pinger i hi
  · exact fun _ h => h.elim
  · exact fun _ h => h.elim
  · rintro q x _ hx
    obtain rfl := Owner.thread.inj hx
    rw [hat]
    exact hkept q
  · exact fun _ h => h.elim

theorem Inv.goto (hs : Inv s) (hat : s.thread t = thread₀)
    (hcritical : thread.critical = true → thread₀.critical = true)
    (hpresent : thread₀ ≠ .absent ∧ thread ≠ .absent)
    (hfresh : ∀ client_fd, thread.fresh = some client_fd → thread₀.fresh = some client_fd)
    (hkept : ∀ q, ¬ thread₀.WorksOn q) (hinv : ThreadInv (s.goto t thread) t) :
    Inv (s.goto t thread) :=
  have hmoves := moves_goto s t thread
  hs.move hat hmoves (hmoves.critical_keep hs hat rfl hcritical) hpresent hfresh hkept hinv

/-- A thread moves and works on one slot. -/
theorem Inv.work (hs : Inv s) (hat : s.thread t = thread₀) (p : Slot)
    (hmoves : Moves s s' t thread (· = p)) (hmutex : s'.clients_mutex = s.clients_mutex)
    (hcritical : thread.critical = true → thread₀.critical = true)
    (hpresent : thread₀ ≠ .absent ∧ thread ≠ .absent)
    (hfresh : ∀ client_fd, thread.fresh = some client_fd → thread₀.fresh = some client_fd)
    (hkept : ∀ q, thread₀.WorksOn q → q = p)
    (hclaim : ∀ x, x ≠ .thread t → ¬ (s.claim p).By x ∧ ¬ (s'.claim p).By x)
    (hinv : ThreadInv s' t) (hslot : SlotInv s' p)
    (hlive : Live s' p → Live s p ∧ s'.occupant p = s.occupant p ∨
      s'.occupant p = t ∧ ¬ thread₀.Placed) : Inv s' := by
  refine hs.act hmoves.frame (hmoves.critical_keep hs hat hmutex hcritical) ?_ ?_ ?_ ?_ ?_ ?_ ?_
  · rintro x hx
    obtain rfl := Owner.thread.inj hx
    rw [hmoves.self, hat]
    exact ⟨hpresent.1, hpresent.2, hfresh⟩
  · rintro x hx
    exact Owner.thread.inj hx ▸ hinv
  · intro i hi
    rw [hmoves.pinger] at hi
    have hclosing := hs.pinger i hi
    by_cases hip : i = p
    · have hmine := (hclaim .pinger (by simp)).1
      rw [← hip, hclosing] at hmine
      exact absurd rfl hmine
    · rw [(hmoves.slot i hip).2.1, hclosing]
  · rintro q rfl
    exact hclaim
  · rintro q rfl
    exact hslot
  · rintro q x hq hx
    obtain rfl := Owner.thread.inj hx
    rw [hat]
    exact fun hworks => hq (hkept q hworks)
  · rintro q rfl h
    rcases hlive h with h | ⟨hoccupant, hplaced⟩
    · exact .inl h
    · rw [hoccupant, hat]
      exact .inr ⟨rfl, hplaced, fun _ h => h⟩

end Moves

/-! ## `close` -/

theorem Inv.close (hs : Inv s) {o : Owner} {p : Slot} (hclosing : s.claim p = .closing o)
    (hcount : s'.count = s.count)
    (hfds : s'.fds = Function.update s.fds (s.clients p).socket_fd none)
    (hclients : s'.clients = s.clients) (hclaim : s'.claim = Function.update s.claim p .free)
    (hoccupant : s'.occupant = s.occupant) (hmutex : s'.clients_mutex = s.clients_mutex)
    (hothers : ∀ x, o ≠ .thread x → s'.thread x = s.thread x)
    (hgames : ∀ t, o = .thread t → ThreadInv s' t ∧
      ∃ game game', s.thread t = .game game ∧ s'.thread t = .game game')
    (hpinger : ∀ i, s'.pinger = .close i → i ≠ p ∧ s.pinger = .close i) : Inv s' := by
  have hp : Live s p := by
    rw [Live, hclosing]
    trivial
  have hslot := hs.slot p
  rw [SlotInv, hclosing] at hslot
  have hother : ∀ q, q ≠ p → s'.claim q = s.claim q := by
    intro q hq
    rw [hclaim, Function.update_of_ne hq]
  have hlive : ∀ q, Live s' q → Live s q := by
    intro q h
    by_cases hq : q = p
    · rw [hq, Live, hclaim, Function.update_self, hclients, hslot.1] at h
      cases h
    · rwa [Live, hother q hq, hclients] at h
  -- a thread that has something to do with a slot or a descriptor is none that plays a game
  have hkept : ∀ x, (∀ game, s'.thread x ≠ .game game) ∨ (∀ game, s.thread x ≠ .game game) →
      s'.thread x = s.thread x := by
    intro x hx
    refine hothers x fun hxo => ?_
    obtain ⟨_, game, game', hbefore, hafter⟩ := hgames x hxo
    exact hx.elim (fun h => h game' hafter) fun h => h game hbefore
  have hplaced : ∀ x, (s.thread x).Placed → (s'.thread x).Placed := by
    intro x hx
    by_cases hxo : o = .thread x
    · obtain ⟨_, _, game', _, hafter⟩ := hgames x hxo
      rw [hafter]
      exact ⟨by simp, rfl⟩
    · rw [hothers x hxo]
      exact hx
  have hholding : ∀ q, q ≠ p → Live s q → Holding s' q := by
    intro q hq h
    obtain ⟨hsocket, hthread⟩ := hs.holding h
    refine ⟨?_, ?_⟩
    · rw [State.socket, hfds, hclients, Function.update_of_ne (hs.socket_ne hp h hq), hoccupant]
      exact hsocket
    · rw [hoccupant]
      exact hplaced _ hthread
  refine ⟨?_, ?_, ?_, ?_, ?_, ?_, ?_⟩
  · intro t ht
    rw [hcount] at ht
    rw [hkept t (.inr fun game => by rw [hs.idle t ht]; simp)]
    exact hs.idle t ht
  · intro t h
    rw [hmutex]
    rw [hkept t (.inl fun game hat => by rw [hat] at h; cases h)] at h
    exact hs.critical t h
  · intro t client_fd h
    rw [hkept t (.inl fun game hat => by rw [hat] at h; cases h)] at h
    have hfd := hs.fresh t client_fd h
    have hne : client_fd ≠ (s.clients p).socket_fd := by
      rintro rfl
      obtain ⟨hsocket, hthread⟩ := hs.holding hp
      rw [State.socket, hfd, Option.some.injEq] at hsocket
      rw [← hsocket] at hthread
      rw [hthread.2] at h
      cases h
    rw [hfds, Function.update_of_ne hne]
    exact hfd
  · intro t
    by_cases hto : o = .thread t
    · exact (hgames t hto).1
    · refine (hs.thread t).congr (hothers t hto) fun q hq => ?_
      by_cases hqp : q = p
      · subst hqp
        rw [hclosing, hclaim, Function.update_self] at hq
        rcases hq with hq | hq
        · exact absurd hq.symm hto
        · exact hq.elim
      · exact ⟨hother q hqp, by rw [hoccupant]⟩
  · intro q
    by_cases hq : q = p
    · rw [hq, SlotInv, hclaim, Function.update_self, hclients, hslot.1]
      exact fun h => by cases h
    · refine (hs.slot q).congr (by rw [hclients]) (hother q hq) (fun x hx => ?_)
        fun hlive _ => hholding q hq hlive
      exact hkept x (.inr fun game hat => by rw [hat] at hx; exact hx)
  · intro i h
    obtain ⟨hne, hbefore⟩ := hpinger i h
    rw [hother i hne]
    exact hs.pinger i hbefore
  · intro q r hq hr heq
    rw [hoccupant] at heq
    exact hs.distinct q r (hlive q hq) (hlive r hr) heq

end Sysopy.GameServer.Threads
