import Mathlib.Algebra.BigOperators.Group.List.Basic
import Mathlib.Tactic

/-!
# Counting semaphores

A set of semaphores is a family of values. `semop` performs all operations of a
call at once, or none of them while one would make a value negative, which is
how the calling process waits. Within a call the operations are meant for
different semaphores.
-/
namespace Sysopy.Semaphore

variable {ι : Type*} [DecidableEq ι]

/-- What the operations of one call add to semaphore `k`. -/
def change (ops : List (ι × ℤ)) (k : ι) : ℤ := ((ops.filter fun op => op.1 = k).map Prod.snd).sum

/-- The values after the call; `none` while the caller has to wait. -/
def semop (ops : List (ι × ℤ)) (value : ι → ℤ) : Option (ι → ℤ) :=
  if ∀ op ∈ ops, 0 ≤ value op.1 + op.2 then some fun k => value k + change ops k else none

@[simp] theorem change_nil (k : ι) : change [] k = 0 := rfl

@[simp] theorem change_cons (op : ι × ℤ) (ops : List (ι × ℤ)) (k : ι) :
    change (op :: ops) k = (if op.1 = k then op.2 else 0) + change ops k := by
  by_cases h : op.1 = k <;> simp [change, h]

theorem semop_eq_some {ops : List (ι × ℤ)} {value value' : ι → ℤ} :
    semop ops value = some value' ↔
      (∀ op ∈ ops, 0 ≤ value op.1 + op.2) ∧ ∀ k, value' k = value k + change ops k := by
  unfold semop
  split_ifs with h
  · rw [Option.some.injEq]
    exact ⟨fun heq => ⟨h, fun k => (congrFun heq k).symm⟩,
      fun ⟨_, heq⟩ => funext fun k => (heq k).symm⟩
  · constructor
    · intro hnone
      cases hnone
    · rintro ⟨hops, _⟩
      exact absurd hops h

/-- A call keeps all values nonnegative, provided no two operations meet. -/
theorem semop_nonneg {ops : List (ι × ℤ)} {value value' : ι → ℤ} (hnodup : (ops.map Prod.fst).Nodup)
    (hvalue : ∀ k, 0 ≤ value k) (h : semop ops value = some value') (k : ι) : 0 ≤ value' k := by
  obtain ⟨hops, heq⟩ := semop_eq_some.mp h
  rw [heq]
  clear heq h
  induction ops with
  | nil => simpa using hvalue k
  | cons op ops ih =>
    simp only [List.map_cons, List.nodup_cons] at hnodup
    have hrest := ih hnodup.2 fun o ho => hops o (List.mem_cons_of_mem _ ho)
    rw [change_cons]
    split_ifs with hk
    · have hzero : change ops k = 0 := by
        have hnone : ops.filter (fun o => o.1 = k) = [] := by
          rw [List.filter_eq_nil_iff]
          intro o ho hok
          exact hnodup.1 (List.mem_map.mpr ⟨o, ho, by simpa [hk] using hok⟩)
        simp [change, hnone]
      have hop := hops op (by simp)
      rw [hk] at hop
      omega
    · omega

/-! ## One semaphore at a time -/

/-- `sem_wait`; `none` while the caller has to wait. -/
def wait (k : ι) (value : ι → ℕ) : Option (ι → ℕ) :=
  if value k = 0 then none else some (Function.update value k (value k - 1))

/-- `sem_post`; it fails and changes nothing once the semaphore is at its limit. -/
def post (limit : ℕ) (k : ι) (value : ι → ℕ) : ι → ℕ :=
  if value k < limit then Function.update value k (value k + 1) else value

theorem wait_eq_none {k : ι} {value : ι → ℕ} : wait k value = none ↔ value k = 0 := by
  unfold wait
  split_ifs with h <;> simp [h]

theorem wait_eq_some {k : ι} {value value' : ι → ℕ} :
    wait k value = some value' ↔
      0 < value k ∧ value' k + 1 = value k ∧ ∀ j, j ≠ k → value' j = value j := by
  unfold wait
  split_ifs with h
  · simp [h]
  · rw [Option.some.injEq]
    constructor
    · rintro rfl
      refine ⟨Nat.pos_of_ne_zero h, ?_, fun j hj => Function.update_of_ne hj _ _⟩
      rw [Function.update_self]
      omega
    · rintro ⟨_, hk, hothers⟩
      funext j
      by_cases hj : j = k
      · subst hj
        rw [Function.update_self]
        omega
      · rw [Function.update_of_ne hj, hothers j hj]

theorem post_self {limit : ℕ} {k : ι} {value : ι → ℕ} (h : value k < limit) :
    post limit k value k = value k + 1 := by
  rw [post, if_pos h, Function.update_self]

theorem post_of_ne (limit : ℕ) {k j : ι} (value : ι → ℕ) (h : j ≠ k) :
    post limit k value j = value j := by
  unfold post
  split_ifs
  · exact Function.update_of_ne h _ _
  · rfl

theorem le_post (limit : ℕ) (k : ι) (value : ι → ℕ) (hlimit : 0 < limit) :
    value k ≤ post limit k value k ∧ 0 < post limit k value k := by
  unfold post
  split_ifs with h
  · simp
  · exact ⟨le_rfl, by omega⟩

end Sysopy.Semaphore
