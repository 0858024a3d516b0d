import Mathlib.Data.List.Basic
import Mathlib.Tactic.Common

/-!
# Runs of a transition function

A system is a partial function `step : σ → α → Option σ`. An action says which
process moves and how every free choice of that move is made, so a schedule, a
list of actions, determines the run. `Along` states a property of every state
and action that a schedule meets; a run guarded by a condition is a schedule
along which the condition holds.
-/
namespace Sysopy.Transition

variable {σ α : Type*} {step : σ → α → Option σ}

/-- The state after a schedule; `none` when some action is not enabled. -/
def exec (step : σ → α → Option σ) : σ → List α → Option σ
  | s, [] => some s
  | s, a :: as => (step s a).bind fun t => exec step t as

/-- `C` holds of every state together with the action taken in it. -/
def Along (step : σ → α → Option σ) (C : σ → α → Prop) : σ → List α → Prop
  | _, [] => True
  | s, a :: as => C s a ∧ ∀ t, step s a = some t → Along step C t as

/-- A decidable condition can be checked along a given schedule. -/
def decidableAlong (C : σ → α → Prop) [∀ s a, Decidable (C s a)] :
    ∀ (s : σ) (as : List α), Decidable (Along step C s as)
  | _, [] => isTrue trivial
  | s, a :: as =>
    match hstep : step s a with
    | none => decidable_of_iff (C s a) (by simp [Along, hstep])
    | some t =>
      have := decidableAlong C t as
      decidable_of_iff (C s a ∧ Along step C t as) (by simp [Along, hstep])

instance (C : σ → α → Prop) [∀ s a, Decidable (C s a)] (s : σ) (as : List α) :
    Decidable (Along step C s as) :=
  decidableAlong C s as

@[simp] theorem exec_nil (s : σ) : exec step s [] = some s := rfl

theorem exec_cons_eq_some {s t : σ} {a : α} {as : List α} :
    exec step s (a :: as) = some t ↔ ∃ u, step s a = some u ∧ exec step u as = some t :=
  Option.bind_eq_some_iff

theorem exec_append {s t : σ} {as bs : List α} :
    exec step s (as ++ bs) = some t ↔ ∃ u, exec step s as = some u ∧ exec step u bs = some t := by
  induction as generalizing s with
  | nil => simp
  | cons a as ih =>
    rw [List.cons_append, exec_cons_eq_some]
    constructor
    · rintro ⟨u, hu, h⟩
      obtain ⟨v, hv, hbs⟩ := ih.mp h
      exact ⟨v, exec_cons_eq_some.mpr ⟨u, hu, hv⟩, hbs⟩
    · rintro ⟨v, hv, hbs⟩
      obtain ⟨u, hu, has⟩ := exec_cons_eq_some.mp hv
      exact ⟨u, hu, ih.mpr ⟨v, has, hbs⟩⟩

theorem along_of_forall {C : σ → α → Prop} {as : List α} (h : ∀ a ∈ as, ∀ s, C s a) (s : σ) :
    Along step C s as := by
  induction as generalizing s with
  | nil => trivial
  | cons a as ih =>
    rw [List.forall_mem_cons] at h
    exact ⟨h.1 s, fun t _ => ih h.2 t⟩

theorem Along.append {C : σ → α → Prop} {s t : σ} {as bs : List α}
    (h : Along step C s (as ++ bs)) (hrun : exec step s as = some t) : Along step C t bs := by
  induction as generalizing s with
  | nil =>
    rw [exec_nil, Option.some.injEq] at hrun
    exact hrun ▸ h
  | cons a as ih =>
    obtain ⟨u, hu, hrun⟩ := exec_cons_eq_some.mp hrun
    exact ih (h.2 u hu) hrun

/-- The condition is met along a schedule if it is met after every initial part of it. -/
theorem along_iff {C : σ → α → Prop} {s : σ} {as : List α} :
    Along step C s as ↔ ∀ bs a cs, as = bs ++ a :: cs → ∀ t, exec step s bs = some t → C t a := by
  constructor
  · rintro h bs a cs rfl t ht
    exact (h.append ht).1
  · intro h
    induction as generalizing s with
    | nil => trivial
    | cons a as ih =>
      refine ⟨h [] a as rfl s rfl, fun t ht => ih fun bs b cs has u hu => ?_⟩
      exact h (a :: bs) b cs (by rw [has, List.cons_append]) u (exec_cons_eq_some.mpr ⟨t, ht, hu⟩)

theorem Along.initial {C : σ → α → Prop} {s : σ} {as bs : List α} (h : Along step C s bs)
    (hinit : as <+: bs) : Along step C s as := by
  induction as generalizing s bs with
  | nil => trivial
  | cons a as ih =>
    obtain ⟨cs, rfl⟩ := hinit
    exact ⟨h.1, fun t ht => ih (h.2 t ht) (List.prefix_append as cs)⟩

section Repeats

variable {a : α} {s t u : σ}

/-- The one action, taken some times, leads from the first state to the second. -/
def Repeats (step : σ → α → Option σ) (a : α) (s t : σ) : Prop :=
  ∃ n, exec step s (List.replicate n a) = some t

theorem Repeats.refl (s : σ) : Repeats step a s s := ⟨0, rfl⟩

theorem Repeats.head (h : step s a = some u) (hrest : Repeats step a u t) :
    Repeats step a s t := by
  obtain ⟨n, hrest⟩ := hrest
  exact ⟨n + 1, exec_cons_eq_some.mpr ⟨u, h, hrest⟩⟩

theorem Repeats.trans (h : Repeats step a s u) (hrest : Repeats step a u t) :
    Repeats step a s t := by
  obtain ⟨n, h⟩ := h
  obtain ⟨k, hrest⟩ := hrest
  refine ⟨n + k, ?_⟩
  rw [List.replicate_add]
  exact exec_append.mpr ⟨u, h, hrest⟩

/-- The one action leads from the first state to the second, and the states on the way, from the
first one on, are in `G`. -/
inductive Through (step : σ → α → Option σ) (G : σ → Prop) (a : α) : σ → σ → Prop
  | refl (s : σ) : Through step G a s s
  | head {s t u : σ} : G s → step s a = some u → Through step G a u t → Through step G a s t

theorem Through.trans {G : σ → Prop} (h : Through step G a s u) (hrest : Through step G a u t) :
    Through step G a s t := by
  induction h with
  | refl => exact hrest
  | head hs hstep _ ih => exact .head hs hstep (ih hrest)

theorem Through.eq_or {G : σ → Prop} (h : Through step G a s t) :
    s = t ∨ ∃ u, G s ∧ step s a = some u ∧ Through step G a u t := by
  cases h with
  | refl => exact .inl rfl
  | head hs hstep hrest => exact .inr ⟨_, hs, hstep, hrest⟩

theorem Through.repeats {G : σ → Prop} (h : Through step G a s t) : Repeats step a s t := by
  induction h with
  | refl s => exact .refl s
  | head _ hstep _ ih => exact .head hstep ih

end Repeats

section Invariant

variable {P : σ → Prop} {C : σ → α → Prop}

/-- What every step under the condition preserves, every guarded run preserves. -/
theorem exec_invariant (hstep : ∀ s a t, P s → C s a → step s a = some t → P t)
    {s t : σ} {as : List α} (hs : P s) (hC : Along step C s as)
    (hrun : exec step s as = some t) : P t := by
  induction as generalizing s with
  | nil =>
    rw [exec_nil, Option.some.injEq] at hrun
    exact hrun ▸ hs
  | cons a as ih =>
    obtain ⟨u, hu, hrun⟩ := exec_cons_eq_some.mp hrun
    exact ih (hstep s a u hs hC.1 hu) (hC.2 u hu) hrun

theorem exec_invariant' (hstep : ∀ s a t, P s → step s a = some t → P t)
    {s t : σ} {as : List α} (hs : P s) (hrun : exec step s as = some t) : P t :=
  exec_invariant (C := fun _ _ => True) (fun s a t hs _ h => hstep s a t hs h) hs
    (along_of_forall (fun _ _ _ => trivial) s) hrun

/-- A property of single steps holds along every guarded run if an invariant
implies it. -/
theorem along_invariant {G : σ → α → Prop}
    (hstep : ∀ s a t, P s → C s a → step s a = some t → P t)
    (hgood : ∀ s a, P s → C s a → G s a)
    {s : σ} {as : List α} (hs : P s) (hC : Along step C s as) : Along step G s as := by
  induction as generalizing s with
  | nil => trivial
  | cons a as ih =>
    exact ⟨hgood s a hs hC.1, fun t ht => ih (hstep s a t hs hC.1 ht) (hC.2 t ht)⟩

/-- Where `P` lasts as long as the condition is met, and `Q` follows a step that misses it
and lasts for good, the end of a run tells whether the run met the condition. -/
theorem exec_kept_or_broken {Q : σ → Prop}
    (hkeep : ∀ s a t, P s → C s a → step s a = some t → P t)
    (hbreak : ∀ s a t, P s → ¬ C s a → step s a = some t → Q t)
    (hstay : ∀ s a t, Q s → step s a = some t → Q t)
    {s t : σ} {as : List α} (hs : P s) (hrun : exec step s as = some t) :
    (Along step C s as ∧ P t) ∨ (¬ Along step C s as ∧ Q t) := by
  induction as generalizing s with
  | nil =>
    rw [exec_nil, Option.some.injEq] at hrun
    exact .inl ⟨trivial, hrun ▸ hs⟩
  | cons a as ih =>
    obtain ⟨u, hu, hrun⟩ := exec_cons_eq_some.mp hrun
    by_cases hC : C s a
    · have hiff : Along step C s (a :: as) ↔ Along step C u as := by
        simp [Along, hC, hu]
      rw [hiff]
      exact ih (hkeep s a u hs hC hu) hrun
    · right
      exact ⟨fun h => hC h.1, exec_invariant' hstay (hbreak s a u hs hC hu) hrun⟩

/-- Where `P` lasts and gives `G` as long as the condition is met, and a step that misses the
condition leads out of `G` at once, `G` holds throughout a run exactly if the condition is
met along it. -/
theorem always_iff_along {G : σ → Prop} (hgood : ∀ s, P s → G s)
    (hkeep : ∀ s a t, P s → C s a → step s a = some t → P t)
    (hbreak : ∀ s a, P s → ¬ C s a → ∃ t, step s a = some t ∧ ¬ G t) {s : σ} {as : List α}
    (hs : P s) :
    (∀ bs, bs <+: as → ∀ t, exec step s bs = some t → G t) ↔ Along step C s as := by
  constructor
  · intro hG
    induction as generalizing s with
    | nil => trivial
    | cons a as ih =>
      have hC : C s a := by
        by_contra hC
        obtain ⟨t, ht, hbad⟩ := hbreak s a hs hC
        exact hbad (hG [a] ⟨as, rfl⟩ t (exec_cons_eq_some.mpr ⟨t, ht, rfl⟩))
      refine ⟨hC, fun t ht => ih (hkeep s a t hs hC ht) fun bs hbs u hu => ?_⟩
      exact hG (a :: bs) (List.cons_prefix_cons.mpr ⟨rfl, hbs⟩) u
        (exec_cons_eq_some.mpr ⟨t, ht, hu⟩)
  · intro hC bs hbs t ht
    exact hgood t (exec_invariant hkeep hs (hC.initial hbs) ht)

/-- Where every step lowers a measure, a run has no more steps than the measure allows. -/
theorem length_add_le {measure : σ → ℕ} (hstep : ∀ s a t, P s → step s a = some t → P t)
    (hlower : ∀ s a t, P s → step s a = some t → measure t < measure s) {s t : σ} {as : List α}
    (hs : P s) (hrun : exec step s as = some t) : as.length + measure t ≤ measure s := by
  induction as generalizing s with
  | nil =>
    obtain rfl := Option.some.inj hrun
    simp
  | cons a as ih =>
    obtain ⟨u, hu, hrun⟩ := exec_cons_eq_some.mp hrun
    have hrest := ih (hstep s a u hs hu) hrun
    have hfirst := hlower s a u hs hu
    simp only [List.length_cons]
    omega

/-- Where from every state that is not done some step lowers a measure, some run gets done. -/
theorem exists_exec_of_descent (measure : σ → ℕ) {Done : σ → Prop}
    (hgo : ∀ s, P s → ¬ Done s → ∃ a t, step s a = some t ∧ P t ∧ measure t < measure s) {s : σ}
    (hs : P s) : ∃ as t, exec step s as = some t ∧ P t ∧ Done t := by
  induction hn : measure s using Nat.strongRecOn generalizing s with
  | ind n ih =>
    by_cases hdone : Done s
    · exact ⟨[], s, rfl, hs, hdone⟩
    · obtain ⟨a, u, hu, hkept, hlt⟩ := hgo s hs hdone
      obtain ⟨as, t, hrun, ht⟩ := ih (measure u) (by omega) hkept rfl
      exact ⟨a :: as, t, exec_cons_eq_some.mpr ⟨u, hu, hrun⟩, ht⟩

/-- Where a run that is not done can go on, and every step lowers a measure, some run gets
done. -/
theorem exists_exec_of_progress {measure : σ → ℕ} {Done : σ → Prop}
    (hstep : ∀ s a t, P s → step s a = some t → P t)
    (hlower : ∀ s a t, P s → step s a = some t → measure t < measure s)
    (hgo : ∀ s, P s → ¬ Done s → ∃ a t, step s a = some t) {s : σ} (hs : P s) :
    ∃ as t, exec step s as = some t ∧ P t ∧ Done t := by
  refine exists_exec_of_descent measure (fun s hs hdone => ?_) hs
  obtain ⟨a, t, ht⟩ := hgo s hs hdone
  exact ⟨a, t, ht, hstep s a t hs ht, hlower s a t hs ht⟩

end Invariant

/-- Where every step of a relation lowers a bound, no run goes on forever. -/
theorem exists_stop_of_descent {σ : Type*} {R : σ → σ → Prop} {D : σ → ℕ → Prop}
    (hstep : ∀ s t m, D s m → R s t → ∃ m' < m, D t m') {m : ℕ} (run : ℕ → σ) (hrun : D (run 0) m) :
    ∃ k, ¬ R (run k) (run (k + 1)) := by
  induction m using Nat.strongRecOn generalizing run with
  | ind m ih =>
    by_cases hfirst : R (run 0) (run 1)
    · obtain ⟨m', hless, hnext⟩ := hstep _ _ _ hrun hfirst
      obtain ⟨k, hk⟩ := ih m' hless (fun k => run (k + 1)) hnext
      exact ⟨k + 1, hk⟩
    · exact ⟨0, hfirst⟩

end Sysopy.Transition
