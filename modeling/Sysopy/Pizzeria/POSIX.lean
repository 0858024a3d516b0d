import Sysopy.Pizzeria.SystemV

/-!
# The pizzeria over POSIX semaphores

`make_pizza` and `deliver` of the POSIX version take and give their semaphores one
call at a time. A step is one `sem_wait` or `sem_post`, or the work between two of
them. The searches for a slot have no bound; that they end is taken for granted, and
the slot that a search finds comes with the step. What is only printed is left out.
-/
namespace Sysopy.Pizzeria.POSIX

open Semaphore Transition Family

def SEM_VALUE_MAX : ℕ := 2147483647

/-- `struct pizzeria`. -/
structure Shared where
  oven : ℕ → ℤ
  ovens_taken : ℤ
  table : ℕ → ℤ
  tables_taken : ℤ
  table_queue_start : ℕ

/-- Where a cook stands in `make_pizza`, with its locals `pizza_no` and `index`. -/
inductive Cook
  | preparing
  | entering (pizza_no : ℕ)
  | inserting (pizza_no : ℕ)
  | inserted (pizza_no index : ℕ)
  | baking (pizza_no index : ℕ)
  | pulling (pizza_no index : ℕ)
  | pulled (pizza_no : ℕ)
  | leaving (pizza_no : ℕ)
  | carrying (pizza_no : ℕ)
  | approaching (pizza_no : ℕ)
  | placing (pizza_no : ℕ)
  | placed
  | announced
  deriving DecidableEq, Repr

/-- Where a supplier stands in `deliver`. -/
inductive Supplier
  | waiting
  | ready
  | fetching
  deriving DecidableEq, Repr

structure State (N M : ℕ) where
  sem : Specs → ℕ
  shared : Shared
  cook : Fin N → Cook
  supplier : Fin M → Supplier

variable {N M : ℕ}

/-- What `main` of the pizzeria sets up. -/
def start : State N M where
  sem
    | .ovenPlace => 1
    | .ovenIn => OVEN_CAP
    | .tablePlace => 1
    | .tableOn => TABLE_CAP
    | .tableReady => 0
  shared := ⟨fun _ => FREE, 0, fun _ => FREE, 0, 0⟩
  cook _ := .preparing
  supplier _ := .waiting

def insertPizza (shared : Shared) (index : ℕ) : Shared :=
  { shared with
    ovens_taken := shared.ovens_taken + 1
    oven := Function.update shared.oven index TAKEN }

def pullPizza (shared : Shared) (index : ℕ) : Shared :=
  { shared with
    ovens_taken := shared.ovens_taken - 1
    oven := Function.update shared.oven index FREE }

def placePizza (shared : Shared) (pizza_no index : ℕ) : Shared :=
  { shared with
    table := Function.update shared.table index ((pizza_no : ℤ) + 1)
    tables_taken := shared.tables_taken + 1 }

def takePizza (shared : Shared) (index : ℕ) : Shared :=
  { shared with
    table_queue_start := (shared.table_queue_start + 1) % TABLE_CAP
    tables_taken := shared.tables_taken - 1
    table := Function.update shared.table index FREE }

/-- The process that moves, with the number of a new pizza and the slot that a search
finds. -/
inductive Action (N M : ℕ)
  | cook (i : Fin N) (pizza_no : Fin 10) (index : ℕ)
  | supplier (j : Fin M) (index : ℕ)

def State.moveCook (s : State N M) (i : Fin N) (c : Cook) : State N M :=
  { s with cook := Function.update s.cook i c }

def State.moveSupplier (s : State N M) (j : Fin M) (c : Supplier) : State N M :=
  { s with supplier := Function.update s.supplier j c }

/-- `sem_wait`; `none` while the process is blocked. -/
def State.semWait (s : State N M) (k : Specs) : Option (State N M) :=
  (wait k s.sem).map fun sem => { s with sem := sem }

/-- `sem_post`, whose result nobody looks at. -/
def State.semPost (s : State N M) (k : Specs) : State N M :=
  { s with sem := post SEM_VALUE_MAX k s.sem }

/-- The next step of cook `i` in `make_pizza`. -/
def cookStep (s : State N M) (i : Fin N) (pizza_no index : ℕ) : Option (State N M) :=
  match s.cook i with
  | .preparing => (s.semWait .ovenIn).map (·.moveCook i (.entering pizza_no))
  | .entering pizza_no => (s.semWait .ovenPlace).map (·.moveCook i (.inserting pizza_no))
  | .inserting pizza_no =>
    some ({ s with shared := insertPizza s.shared index }.moveCook i (.inserted pizza_no index))
  | .inserted pizza_no index => some ((s.semPost .ovenPlace).moveCook i (.baking pizza_no index))
  | .baking pizza_no index => some ((s.semPost .ovenPlace).moveCook i (.pulling pizza_no index))
  | .pulling pizza_no index =>
    some ({ s with shared := pullPizza s.shared index }.moveCook i (.pulled pizza_no))
  | .pulled pizza_no => some ((s.semPost .ovenPlace).moveCook i (.leaving pizza_no))
  | .leaving pizza_no => some ((s.semPost .ovenIn).moveCook i (.carrying pizza_no))
  | .carrying pizza_no => (s.semWait .tableOn).map (·.moveCook i (.approaching pizza_no))
  | .approaching pizza_no => (s.semWait .tablePlace).map (·.moveCook i (.placing pizza_no))
  | .placing pizza_no =>
    some ({ s with shared := placePizza s.shared pizza_no index }.moveCook i .placed)
  | .placed => some ((s.semPost .tableReady).moveCook i .announced)
  | .announced => some ((s.semPost .tablePlace).moveCook i .preparing)

/-- The next step of supplier `j` in `deliver`. -/
def supplierStep (s : State N M) (j : Fin M) (index : ℕ) : Option (State N M) :=
  match s.supplier j with
  | .waiting => (s.semWait .tableReady).map (·.moveSupplier j .ready)
  | .ready => some ((s.semPost .tableOn).moveSupplier j .fetching)
  | .fetching =>
    some ({ s with shared := takePizza s.shared index }.moveSupplier j .waiting)

def step (s : State N M) : Action N M → Option (State N M)
  | .cook i pizza_no index => cookStep s i pizza_no index
  | .supplier j index => supplierStep s j index

/-! ## Permits -/

/-- The cook holds a permit of `oven_in`. -/
def inOven : Cook → ℕ
  | .entering _ | .inserting _ | .inserted _ _ | .baking _ _ | .pulling _ _ | .pulled _
  | .leaving _ => 1
  | _ => 0

/-- The cook has passed `sem_wait(oven_place)` and not yet posted it. -/
def atOven : Cook → ℕ
  | .inserting _ | .inserted _ _ => 1
  | _ => 0

/-- The cook holds a permit of `table_on`, until it is announced by `table_ready`. -/
def atTable : Cook → ℕ
  | .approaching _ | .placing _ | .placed => 1
  | _ => 0

/-- The cook holds `table_place`. -/
def holdsTable : Cook → ℕ
  | .placing _ | .placed | .announced => 1
  | _ => 0

/-- The supplier holds a permit of `table_ready` that it has still to turn into one of
`table_on`. -/
def returning : Supplier → ℕ
  | .ready => 1
  | _ => 0

/-- The permits of every semaphore are conserved. Only `oven_place` gets more of them:
a cook posts it three times for one wait. -/
structure Inv (s : State N M) : Prop where
  ovenIn : s.sem .ovenIn + total inOven s.cook = OVEN_CAP
  ovenPlace : 1 ≤ s.sem .ovenPlace + total atOven s.cook
  table : s.sem .tableOn + total atTable s.cook + s.sem .tableReady + total returning s.supplier =
    TABLE_CAP
  tablePlace : s.sem .tablePlace + total holdsTable s.cook = 1

theorem inv_start : Inv (start : State N M) := by
  have hinOven : total inOven (start : State N M).cook = 0 := total_eq_zero fun _ => rfl
  have hatOven : total atOven (start : State N M).cook = 0 := total_eq_zero fun _ => rfl
  have hatTable : total atTable (start : State N M).cook = 0 := total_eq_zero fun _ => rfl
  have hholds : total holdsTable (start : State N M).cook = 0 := total_eq_zero fun _ => rfl
  have hreturning : total returning (start : State N M).supplier = 0 := total_eq_zero fun _ => rfl
  refine ⟨?_, ?_, ?_, ?_⟩
  · rw [hinOven]
    rfl
  · rw [hatOven]
    exact le_rfl
  · rw [hatTable, hreturning]
    rfl
  · rw [hholds]
    rfl

variable {s s' : State N M}

theorem Inv.moveCook (hs : Inv s) {i : Fin N} {c₀ c : Cook} (hat : s.cook i = c₀)
    {sem : Specs → ℕ} (shared : Shared)
    (hovenIn : sem .ovenIn + inOven c = s.sem .ovenIn + inOven c₀)
    (hovenPlace : s.sem .ovenPlace + atOven c₀ ≤ sem .ovenPlace + atOven c ∨ 0 < sem .ovenPlace)
    (htable : sem .tableOn + sem .tableReady + atTable c =
      s.sem .tableOn + s.sem .tableReady + atTable c₀)
    (htablePlace : sem .tablePlace + holdsTable c = s.sem .tablePlace + holdsTable c₀) :
    Inv ({ s with sem := sem, shared := shared }.moveCook i c) := by
  subst hat
  have h₁ := total_update inOven s.cook i c
  have h₂ := total_update atOven s.cook i c
  have h₃ := total_update atTable s.cook i c
  have h₄ := total_update holdsTable s.cook i c
  obtain ⟨hs₁, hs₂, hs₃, hs₄⟩ := hs
  constructor
  · change sem .ovenIn + total inOven (Function.update s.cook i c) = OVEN_CAP
    omega
  · change 1 ≤ sem .ovenPlace + total atOven (Function.update s.cook i c)
    omega
  · change sem .tableOn + total atTable (Function.update s.cook i c) + sem .tableReady +
      total returning s.supplier = TABLE_CAP
    omega
  · change sem .tablePlace + total holdsTable (Function.update s.cook i c) = 1
    omega

theorem Inv.lt_max (hs : Inv s) {k : Specs} (hk : k ≠ .ovenPlace) : s.sem k < SEM_VALUE_MAX := by
  obtain ⟨h₁, _, h₃, h₄⟩ := hs
  simp only [OVEN_CAP, TABLE_CAP] at h₁ h₃
  unfold SEM_VALUE_MAX
  cases k with
  | ovenPlace => exact absurd rfl hk
  | ovenIn | tablePlace | tableOn | tableReady => omega

/-- The permits that a cook holds. -/
def held : Specs → Cook → ℕ
  | .ovenIn => inOven
  | .ovenPlace => atOven
  | .tableOn => atTable
  | .tablePlace => holdsTable
  | .tableReady => fun _ => 0

theorem Inv.cookWait (hs : Inv s) {i : Fin N} {c₀ c : Cook} (hat : s.cook i = c₀) {k : Specs}
    {u : State N M} (h : s.semWait k = some u)
    (hheld : ∀ j, held j c = held j c₀ + if j = k then 1 else 0) : Inv (u.moveCook i c) := by
  obtain ⟨sem, hsem, rfl⟩ := Option.map_eq_some_iff.mp h
  obtain ⟨_, hk, hothers⟩ := wait_eq_some.mp hsem
  have hsum : ∀ j, sem j + held j c = s.sem j + held j c₀ := by
    intro j
    rw [hheld]
    split_ifs with hj
    · subst hj
      omega
    · rw [hothers j hj]
      omega
  have hready : sem .tableReady = s.sem .tableReady := by simpa [held] using hsum .tableReady
  have hon : sem .tableOn + atTable c = s.sem .tableOn + atTable c₀ := hsum .tableOn
  apply hs.moveCook hat s.shared (hsum .ovenIn) (.inl (hsum .ovenPlace).ge)
  · omega
  · exact hsum .tablePlace

theorem Inv.cookPost (hs : Inv s) {i : Fin N} {c₀ c : Cook} (hat : s.cook i = c₀) {k : Specs}
    (hk : k ≠ .ovenPlace) (hheld : ∀ j, held j c + (if j = k then 1 else 0) = held j c₀) :
    Inv ((s.semPost k).moveCook i c) := by
  have hsum : ∀ j, post SEM_VALUE_MAX k s.sem j + held j c = s.sem j + held j c₀ := by
    intro j
    rw [← hheld]
    split_ifs with hj
    · subst hj
      rw [post_self (hs.lt_max hk)]
      omega
    · rw [post_of_ne _ _ hj]
      omega
  have hready : post SEM_VALUE_MAX k s.sem .tableReady = s.sem .tableReady := by
    simpa [held] using hsum .tableReady
  have hon : post SEM_VALUE_MAX k s.sem .tableOn + atTable c = s.sem .tableOn + atTable c₀ :=
    hsum .tableOn
  apply hs.moveCook hat s.shared (hsum .ovenIn) (.inl (hsum .ovenPlace).ge)
  · omega
  · exact hsum .tablePlace

theorem Inv.cookPostPlace (hs : Inv s) {i : Fin N} {c₀ c : Cook} (hat : s.cook i = c₀)
    (hheld : ∀ j, j ≠ .ovenPlace → held j c = held j c₀) :
    Inv ((s.semPost .ovenPlace).moveCook i c) := by
  have hsum : ∀ j, j ≠ .ovenPlace →
      post SEM_VALUE_MAX .ovenPlace s.sem j + held j c = s.sem j + held j c₀ := by
    intro j hj
    rw [post_of_ne _ _ hj, hheld j hj]
  have hon := hsum .tableOn (by decide)
  have hready := hsum .tableReady (by decide)
  simp only [held] at hon hready
  apply hs.moveCook hat s.shared (hsum .ovenIn (by decide))
    (.inr (le_post _ _ _ (by decide)).2)
  · omega
  · exact hsum .tablePlace (by decide)

theorem Inv.cookWork (hs : Inv s) {i : Fin N} {c₀ c : Cook} (hat : s.cook i = c₀) (shared : Shared)
    (hheld : ∀ j, held j c = held j c₀) : Inv ({ s with shared := shared }.moveCook i c) := by
  have hon : atTable c = atTable c₀ := hheld .tableOn
  apply hs.moveCook hat shared
  · exact congrArg (s.sem .ovenIn + ·) (hheld .ovenIn)
  · exact .inl (congrArg (s.sem .ovenPlace + ·) (hheld .ovenPlace)).ge
  · omega
  · exact congrArg (s.sem .tablePlace + ·) (hheld .tablePlace)

theorem Inv.cookStep (hs : Inv s) {i : Fin N} {pizza_no index : ℕ}
    (h : cookStep s i pizza_no index = some s') : Inv s' := by
  unfold POSIX.cookStep at h
  split at h
  case h_1 hat | h_2 hat | h_9 hat | h_10 hat =>
    obtain ⟨u, hwait, rfl⟩ := Option.map_eq_some_iff.mp h
    exact hs.cookWait hat hwait fun j => by cases j <;> rfl
  case h_3 hat | h_6 hat | h_11 hat =>
    obtain rfl := Option.some.inj h
    exact hs.cookWork hat _ fun j => by cases j <;> rfl
  case h_4 hat | h_5 hat | h_7 hat =>
    obtain rfl := Option.some.inj h
    exact hs.cookPostPlace hat fun j hj => by cases j <;> first | rfl | exact absurd rfl hj
  case h_8 hat | h_13 hat =>
    obtain rfl := Option.some.inj h
    exact hs.cookPost hat (by decide) fun j => by cases j <;> rfl
  case h_12 hat =>
    -- the permit of `table_on` becomes one of `table_ready`
    obtain rfl := Option.some.inj h
    have hready := post_self (hs.lt_max (k := .tableReady) (by decide))
    have hothers : ∀ j, j ≠ .tableReady → post SEM_VALUE_MAX .tableReady s.sem j = s.sem j :=
      fun j hj => post_of_ne _ _ hj
    apply hs.moveCook hat s.shared
    · rw [hothers .ovenIn (by decide)]
      rfl
    · rw [hothers .ovenPlace (by decide)]
      exact .inl le_rfl
    · rw [hothers .tableOn (by decide), hready]
      simp [atTable, add_assoc]
    · rw [hothers .tablePlace (by decide)]
      rfl

theorem Inv.moveSupplier (hs : Inv s) {j : Fin M} {c₀ c : Supplier} (hat : s.supplier j = c₀)
    {sem : Specs → ℕ} (shared : Shared)
    (hothers : ∀ k, k ≠ .tableOn → k ≠ .tableReady → sem k = s.sem k)
    (htable : sem .tableOn + sem .tableReady + returning c =
      s.sem .tableOn + s.sem .tableReady + returning c₀) :
    Inv ({ s with sem := sem, shared := shared }.moveSupplier j c) := by
  subst hat
  have h := total_update returning s.supplier j c
  obtain ⟨hs₁, hs₂, hs₃, hs₄⟩ := hs
  constructor
  · change sem .ovenIn + total inOven s.cook = OVEN_CAP
    rw [hothers .ovenIn (by decide) (by decide)]
    exact hs₁
  · change 1 ≤ sem .ovenPlace + total atOven s.cook
    rw [hothers .ovenPlace (by decide) (by decide)]
    exact hs₂
  · change sem .tableOn + total atTable s.cook + sem .tableReady +
      total returning (Function.update s.supplier j c) = TABLE_CAP
    omega
  · change sem .tablePlace + total holdsTable s.cook = 1
    rw [hothers .tablePlace (by decide) (by decide)]
    exact hs₄

theorem Inv.supplierStep (hs : Inv s) {j : Fin M} {index : ℕ}
    (h : supplierStep s j index = some s') : Inv s' := by
  unfold POSIX.supplierStep at h
  split at h
  case h_1 hat =>
    obtain ⟨u, hwait, rfl⟩ := Option.map_eq_some_iff.mp h
    obtain ⟨sem, hsem, rfl⟩ := Option.map_eq_some_iff.mp hwait
    obtain ⟨_, hready, hothers⟩ := wait_eq_some.mp hsem
    apply hs.moveSupplier hat s.shared
    · exact fun k _ hk => hothers k hk
    · rw [hothers .tableOn (by decide)]
      simp only [returning]
      omega
  case h_2 hat =>
    obtain rfl := Option.some.inj h
    have hon := post_self (hs.lt_max (k := .tableOn) (by decide))
    apply hs.moveSupplier hat s.shared
    · exact fun k hk _ => post_of_ne _ _ hk
    · rw [hon, post_of_ne _ _ (by decide : Specs.tableReady ≠ .tableOn)]
      simp only [returning]
      omega
  case h_3 hat =>
    obtain rfl := Option.some.inj h
    apply hs.moveSupplier hat
    · exact fun _ _ _ => rfl
    · rfl

theorem Inv.step (hs : Inv s) {a : Action N M} (h : step s a = some s') : Inv s' := by
  cases a with
  | cook i pizza_no index => exact hs.cookStep h
  | supplier j index => exact hs.supplierStep h

/-! ## Somebody can go on -/

/-- The semaphore at whose `sem_wait` the cook stands. -/
def waitsFor : Cook → Option Specs
  | .preparing => some .ovenIn
  | .entering _ => some .ovenPlace
  | .carrying _ => some .tableOn
  | .approaching _ => some .tablePlace
  | _ => none

/-- A cook that cannot move stands at a `sem_wait` on a semaphore without permits. -/
theorem waitsFor_of_blocked {i : Fin N} (pizza_no index : ℕ)
    (h : POSIX.cookStep s i pizza_no index = none) :
    ∃ k, waitsFor (s.cook i) = some k ∧ s.sem k = 0 := by
  unfold POSIX.cookStep at h
  split at h
  case h_1 hat | h_2 hat | h_9 hat | h_10 hat =>
    rw [hat]
    exact ⟨_, rfl, wait_eq_none.mp (Option.map_eq_none_iff.mp (Option.map_eq_none_iff.mp h))⟩
  all_goals cases h

theorem waiting_of_blocked {j : Fin M} (index : ℕ) (h : POSIX.supplierStep s j index = none) :
    s.supplier j = .waiting ∧ s.sem .tableReady = 0 := by
  unfold POSIX.supplierStep at h
  split at h
  case h_1 hat =>
    exact ⟨hat, wait_eq_none.mp (Option.map_eq_none_iff.mp (Option.map_eq_none_iff.mp h))⟩
  all_goals cases h

theorem free_of_waitsFor {c : Cook} {k : Specs} (h : waitsFor c = some k) :
    atOven c = 0 ∧ holdsTable c = 0 ∧ (k ≠ .ovenPlace → inOven c = 0) ∧
      (k ≠ .tablePlace → atTable c = 0) := by
  cases c <;> cases h <;> simp [atOven, holdsTable, inOven, atTable]

/-- Not all processes are blocked. -/
theorem Inv.exists_step (hs : Inv s) (hN : 0 < N) (hM : 0 < M) : ∃ a s', POSIX.step s a = some s' := by
  by_contra hnone
  push Not at hnone
  have hcook : ∀ i, ∃ k, waitsFor (s.cook i) = some k ∧ s.sem k = 0 := by
    intro i
    apply waitsFor_of_blocked 0 0
    exact Option.eq_none_iff_forall_ne_some.mpr (hnone (.cook i 0 0))
  have hsupplier : ∀ j, s.supplier j = .waiting ∧ s.sem .tableReady = 0 := by
    intro j
    apply waiting_of_blocked 0
    exact Option.eq_none_iff_forall_ne_some.mpr (hnone (.supplier j 0))
  have hheld : ∀ k, s.sem k ≠ 0 → ∀ i, waitsFor (s.cook i) ≠ some k := by
    intro k hk i hwaits
    obtain ⟨k', hwaits', hzero⟩ := hcook i
    obtain rfl := Option.some.inj (hwaits.symm.trans hwaits')
    exact hk hzero
  obtain ⟨hovenIn, hovenPlace, htable, htablePlace⟩ := hs
  -- nobody holds the oven, so nobody waits for it, and then nobody is in it
  have hatOven : total atOven s.cook = 0 := by
    apply total_eq_zero
    intro i
    obtain ⟨k, hwaits, _⟩ := hcook i
    exact (free_of_waitsFor hwaits).1
  have hnotPlace : ∀ i, waitsFor (s.cook i) ≠ some .ovenPlace := hheld _ (by omega)
  have hinOven : total inOven s.cook = 0 := by
    apply total_eq_zero
    intro i
    obtain ⟨k, hwaits, _⟩ := hcook i
    apply (free_of_waitsFor hwaits).2.2.1
    rintro rfl
    exact hnotPlace i hwaits
  have hnotIn : ∀ i, waitsFor (s.cook i) ≠ some .ovenIn := by
    apply hheld
    rw [hinOven] at hovenIn
    simp [OVEN_CAP] at hovenIn
    omega
  -- nobody holds the table, so nobody waits for it
  have hholds : total holdsTable s.cook = 0 := by
    apply total_eq_zero
    intro i
    obtain ⟨k, hwaits, _⟩ := hcook i
    exact (free_of_waitsFor hwaits).2.1
  have hnotTable : ∀ i, waitsFor (s.cook i) ≠ some .tablePlace := hheld _ (by omega)
  have hatTable : total atTable s.cook = 0 := by
    apply total_eq_zero
    intro i
    obtain ⟨k, hwaits, _⟩ := hcook i
    apply (free_of_waitsFor hwaits).2.2.2
    rintro rfl
    exact hnotTable i hwaits
  have hreturning : total returning s.supplier = 0 := by
    apply total_eq_zero
    intro j
    rw [(hsupplier j).1]
    rfl
  -- all cooks wait for a permit of the table, and all suppliers for a pizza
  obtain ⟨k, hwaits, hzero⟩ := hcook ⟨0, hN⟩
  have hready := (hsupplier ⟨0, hM⟩).2
  have hon : s.sem .tableOn = 0 := by
    cases k with
    | tableOn => exact hzero
    | ovenIn => exact absurd hwaits (hnotIn _)
    | ovenPlace => exact absurd hwaits (hnotPlace _)
    | tablePlace => exact absurd hwaits (hnotTable _)
    | tableReady => cases hcase : s.cook ⟨0, hN⟩ <;> rw [hcase] at hwaits <;> cases hwaits
  simp [TABLE_CAP] at htable
  omega

/-- In no reachable state all cooks and suppliers are blocked. -/
theorem not_deadlocked (N M : ℕ) (hN : 0 < N) (hM : 0 < M) (schedule : List (Action N M))
    (s : State N M) (hrun : exec step start schedule = some s) : ∃ a s', step s a = some s' := by
  have hs : Inv s := exec_invariant' (fun _ _ _ hs h => hs.step h) inv_start hrun
  exact hs.exists_step hN hM

/-- The first of two cooks has taken a permit of the oven. -/
theorem not_deadlocked_cook : ∃ s : State 2 1, exec step start [.cook 0 3 0] = some s ∧
    ∃ a s', step s a = some s' :=
  ⟨_, rfl, not_deadlocked 2 1 (by decide) (by decide) [.cook 0 3 0] _ rfl⟩

end Sysopy.Pizzeria.POSIX
