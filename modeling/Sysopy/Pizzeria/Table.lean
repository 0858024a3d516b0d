import Sysopy.Pizzeria.SystemV

/-!
# The table of the System V pizzeria

A supplier hands the permit `TABLE_ON` back in the `semop` that takes
`TABLE_READY`, before it empties the slot. Three conservation laws tie the
semaphores to the slots, and from them the search of a cook finds a free slot
exactly when no more suppliers stand between these two steps than there are
permits left on `TABLE_ON`.
-/
namespace Sysopy.Pizzeria.SystemV

open Semaphore Transition Family

variable {N M : ℕ}

def isPlacing : Cook → ℤ
  | .placing _ => 1
  | _ => 0

def isPlaced : Cook → ℤ
  | .placed => 1
  | _ => 0

def isFetching : Supplier → ℤ
  | .fetching => 1
  | .waiting => 0

theorem isPlacing_nonneg (c : Cook) : 0 ≤ isPlacing c := by
  cases c <;> simp [isPlacing]

theorem isPlaced_nonneg (c : Cook) : 0 ≤ isPlaced c := by
  cases c <;> simp [isPlaced]

theorem isFetching_nonneg (c : Supplier) : 0 ≤ isFetching c := by
  cases c <;> simp [isFetching]

def isTaken (slot : ℤ) : ℤ := if slot = FREE then 0 else 1

/-- The pizza in a slot of the table. -/
def contents (slot : ℤ) : Multiset ℤ := if slot = FREE then 0 else {slot - 1}

/-- The number of slots that are not free. -/
def takenSlots (table : Fin TABLE_CAP → ℤ) : ℤ := total isTaken table

/-- The pizzas lying on the table. -/
def onTable (table : Fin TABLE_CAP → ℤ) : Multiset ℤ := total contents table

/-- The suppliers between their `semop` and the removal of a pizza. -/
def State.fetching (s : State N M) : ℤ := total isFetching s.supplier

structure TableInv (s : State N M) : Prop where
  nonneg : ∀ k, 0 ≤ s.sem k
  place : s.sem .tablePlace + total isPlacing s.cook + total isPlaced s.cook = 1
  permits : s.sem .tableOn + total isPlacing s.cook + takenSlots s.shared.table =
    TABLE_CAP + s.fetching
  ready : s.sem .tableReady + s.fetching + total isPlaced s.cook = takenSlots s.shared.table
  count : s.shared.tables_taken = takenSlots s.shared.table
  pizzas : s.placed = s.picked + onTable s.shared.table

theorem tableInv_start : TableInv (start : State N M) := by
  have hplacing : total isPlacing (start : State N M).cook = 0 := total_eq_zero fun _ => rfl
  have hplaced : total isPlaced (start : State N M).cook = 0 := total_eq_zero fun _ => rfl
  have hfetching : (start : State N M).fetching = 0 := total_eq_zero fun _ => rfl
  refine ⟨fun k => ?_, ?_, ?_, ?_, rfl, rfl⟩
  · cases k <;> simp [start]
  · rw [hplacing, hplaced]
    rfl
  · rw [hplacing, hfetching]
    rfl
  · rw [hplaced, hfetching]
    rfl

/-! ## Searches -/

theorem firstFree_some {n : ℕ} {slots : Fin n → ℤ} {i : Fin n} (h : firstFree slots = some i) :
    slots i = FREE := by
  simpa using List.find?_some h

theorem firstFree_isSome_iff {n : ℕ} {slots : Fin n → ℤ} :
    (firstFree slots).isSome ↔ ∃ i, slots i = FREE := by
  simp [firstFree, List.find?_isSome]

theorem firstFree_before {n : ℕ} {slots : Fin n → ℤ} {i j : Fin n} (h : firstFree slots = some i)
    (hj : j < i) : slots j ≠ FREE := by
  obtain ⟨_, k, hk, hget, hbefore⟩ := List.find?_eq_some_iff_getElem.mp h
  rw [List.getElem_finRange] at hget
  have hjk : j.val < k := by
    have hval := congrArg Fin.val hget
    simp only [Fin.val_cast] at hval
    omega
  have hnot := hbefore j.val hjk
  simpa [List.getElem_finRange] using hnot

theorem firstTaken_some {shared : Shared} {i : Fin TABLE_CAP} (h : firstTaken shared = some i) :
    shared.table i ≠ FREE := by
  simpa using List.find?_some h

/-- The search around the table visits every slot. -/
theorem firstTaken_isSome_iff {shared : Shared} :
    (firstTaken shared).isSome ↔ ∃ i, shared.table i ≠ FREE := by
  rw [firstTaken, List.find?_isSome]
  constructor
  · rintro ⟨i, _, hi⟩
    exact ⟨i, by simpa using hi⟩
  · rintro ⟨i, hi⟩
    refine ⟨i, List.mem_map.mpr ⟨(i + TABLE_CAP - shared.table_queue_start % TABLE_CAP) % TABLE_CAP,
      List.mem_range.mpr (Nat.mod_lt _ (by decide)), ?_⟩, by simpa using hi⟩
    apply Fin.ext
    have hlt := i.isLt
    simp only [TABLE_CAP] at hlt ⊢
    omega

theorem isTaken_le_one (slot : ℤ) : isTaken slot ≤ 1 := by
  unfold isTaken
  split_ifs <;> decide

theorem total_isTaken_lt_iff {n : ℕ} (slots : Fin n → ℤ) :
    total isTaken slots < n ↔ ∃ i, slots i = FREE := by
  constructor
  · intro h
    by_contra hnone
    push Not at hnone
    have hall : ∀ i, isTaken (slots i) = 1 := fun i => by rw [isTaken, if_neg (hnone i)]
    simp [total, hall] at h
  · rintro ⟨i, hi⟩
    have hlt : total isTaken slots < ∑ _i : Fin n, 1 :=
      Finset.sum_lt_sum (fun j _ => isTaken_le_one (slots j))
        ⟨i, Finset.mem_univ i, by simp [isTaken, hi]⟩
    simpa using hlt

theorem takenSlots_lt_iff (table : Fin TABLE_CAP → ℤ) :
    takenSlots table < TABLE_CAP ↔ ∃ i, table i = FREE :=
  total_isTaken_lt_iff table

theorem exists_taken_of_pos {table : Fin TABLE_CAP → ℤ} (h : 0 < takenSlots table) :
    ∃ i, table i ≠ FREE := by
  by_contra hnone
  push Not at hnone
  have hzero : takenSlots table = 0 := total_eq_zero fun i => by rw [isTaken, if_pos (hnone i)]
  omega

theorem total_isTaken_update_free {n : ℕ} {slots : Fin n → ℤ} {i : Fin n} (hi : slots i = FREE)
    {slot : ℤ} (hslot : slot ≠ FREE) :
    total isTaken (Function.update slots i slot) = total isTaken slots + 1 := by
  have h := total_update isTaken slots i slot
  simpa [isTaken, hi, hslot] using h

theorem total_isTaken_update_taken {n : ℕ} {slots : Fin n → ℤ} {i : Fin n} (hi : slots i ≠ FREE) :
    total isTaken (Function.update slots i FREE) + 1 = total isTaken slots := by
  have h := total_update isTaken slots i FREE
  simpa [isTaken, hi] using h

theorem takenSlots_update_free {table : Fin TABLE_CAP → ℤ} {i : Fin TABLE_CAP} (hi : table i = FREE)
    {slot : ℤ} (hslot : slot ≠ FREE) :
    takenSlots (Function.update table i slot) = takenSlots table + 1 :=
  total_isTaken_update_free hi hslot

theorem onTable_update_free {table : Fin TABLE_CAP → ℤ} {i : Fin TABLE_CAP} (hi : table i = FREE)
    {slot : ℤ} (hslot : slot ≠ FREE) :
    onTable (Function.update table i slot) = onTable table + {slot - 1} := by
  have h := total_update contents table i slot
  simpa [onTable, contents, hi, hslot] using h

theorem takenSlots_update_taken {table : Fin TABLE_CAP → ℤ} {i : Fin TABLE_CAP}
    (hi : table i ≠ FREE) : takenSlots (Function.update table i FREE) + 1 = takenSlots table :=
  total_isTaken_update_taken hi

theorem onTable_update_taken {table : Fin TABLE_CAP → ℤ} {i : Fin TABLE_CAP} (hi : table i ≠ FREE) :
    onTable (Function.update table i FREE) + {table i - 1} = onTable table := by
  have h := total_update contents table i FREE
  simpa [onTable, contents, hi] using h

/-! ## Steps -/

theorem TableInv.moveCook {s : State N M} (hs : TableInv s) {i : Fin N} {c : Cook}
    {ops : List (Specs × ℤ)} {sem : Specs → ℤ} (hsem : semop ops s.sem = some sem)
    (hops : (ops.map Prod.fst).Nodup)
    (hplacing : change ops .tableOn + isPlacing c = isPlacing (s.cook i))
    (hplaced : change ops .tableReady + isPlaced c = isPlaced (s.cook i))
    (hplace : change ops .tablePlace + isPlacing c + isPlaced c =
      isPlacing (s.cook i) + isPlaced (s.cook i)) : TableInv (s.moveCook i sem c) := by
  have hnonneg := semop_nonneg hops hs.nonneg hsem
  obtain ⟨_, hvalue⟩ := semop_eq_some.mp hsem
  have h₁ := total_update isPlacing s.cook i c
  have h₂ := total_update isPlaced s.cook i c
  have hplace' := hs.place
  have hpermits := hs.permits
  have hready := hs.ready
  refine ⟨hnonneg, ?_, ?_, ?_, hs.count, hs.pizzas⟩
  · change sem .tablePlace + total isPlacing (Function.update s.cook i c) +
      total isPlaced (Function.update s.cook i c) = 1
    rw [hvalue]
    omega
  · change sem .tableOn + total isPlacing (Function.update s.cook i c) +
      takenSlots s.shared.table = TABLE_CAP + s.fetching
    rw [hvalue]
    omega
  · change sem .tableReady + s.fetching + total isPlaced (Function.update s.cook i c) =
      takenSlots s.shared.table
    rw [hvalue]
    omega

theorem TableInv.of_same {s s' : State N M} (hs : TableInv s) (hsem : s'.sem = s.sem)
    (htable : s'.shared.table = s.shared.table)
    (hcount : s'.shared.tables_taken = s.shared.tables_taken)
    (hplacing : total isPlacing s'.cook = total isPlacing s.cook)
    (hplaced : total isPlaced s'.cook = total isPlaced s.cook)
    (hsupplier : s'.supplier = s.supplier) (hghost : s'.placed = s.placed)
    (hghost' : s'.picked = s.picked) : TableInv s' := by
  have hfetching : s'.fetching = s.fetching := by rw [State.fetching, hsupplier, State.fetching]
  refine ⟨?_, ?_, ?_, ?_, ?_, ?_⟩
  · rw [hsem]
    exact hs.nonneg
  · rw [hsem, hplacing, hplaced]
    exact hs.place
  · rw [hsem, hplacing, htable, hfetching]
    exact hs.permits
  · rw [hsem, hplaced, htable, hfetching]
    exact hs.ready
  · rw [hcount, htable]
    exact hs.count
  · rw [hghost, hghost', htable]
    exact hs.pizzas

/-- The place permit of a cook in its search, and the free slot it finds. -/
theorem TableInv.exists_free_iff {s : State N M} (hs : TableInv s) {i : Fin N} {pizza_no : ℕ}
    (hi : s.cook i = .placing pizza_no) :
    (∃ k, s.shared.table k = FREE) ↔ s.fetching ≤ s.sem .tableOn := by
  have hone := le_total isPlacing_nonneg s.cook i
  have hplaced := total_nonneg isPlaced_nonneg s.cook
  have hplace := hs.place
  have hpermits := hs.permits
  have hsem := hs.nonneg .tablePlace
  rw [hi] at hone
  change 1 ≤ total isPlacing s.cook at hone
  rw [← takenSlots_lt_iff]
  omega

theorem TableInv.exists_taken {s : State N M} (hs : TableInv s) {j : Fin M}
    (hj : s.supplier j = .fetching) : ∃ k, s.shared.table k ≠ FREE := by
  have hone := le_total isFetching_nonneg s.supplier j
  have hplaced := total_nonneg isPlaced_nonneg s.cook
  have hready := hs.ready
  have hsem := hs.nonneg .tableReady
  rw [hj] at hone
  change 1 ≤ s.fetching at hone
  exact exists_taken_of_pos (by omega)

/-- A cook that searches the table has its permit covered: no more suppliers are
on their way to a pizza than there are permits on `TABLE_ON`. -/
def Covered (s : State N M) : Action N M → Prop
  | .cook i _ => ∀ pizza_no, s.cook i = .placing pizza_no → s.fetching ≤ s.sem .tableOn
  | .supplier _ => True

theorem TableInv.placed {s : State N M} (hs : TableInv s) {i : Fin N} {pizza_no : ℕ}
    (hi : s.cook i = .placing pizza_no) {k : Fin TABLE_CAP} (hfree : s.shared.table k = FREE) :
    TableInv { s.moveCook i s.sem .placed with
      shared := { s.shared with
        table := Function.update s.shared.table k ((pizza_no : ℤ) + 1)
        tables_taken := s.shared.tables_taken + 1 }
      placed := (pizza_no : ℤ) ::ₘ s.placed } := by
  have hslot : (pizza_no : ℤ) + 1 ≠ FREE := by simp only [FREE]; omega
  have htaken := takenSlots_update_free hfree hslot
  have hon := onTable_update_free hfree hslot
  have h₁ := total_update isPlacing s.cook i .placed
  have h₂ := total_update isPlaced s.cook i .placed
  rw [hi] at h₁ h₂
  simp only [isPlacing, isPlaced] at h₁ h₂
  have hplace := hs.place
  have hpermits := hs.permits
  have hready := hs.ready
  have hcount := hs.count
  refine ⟨hs.nonneg, ?_, ?_, ?_, ?_, ?_⟩
  · change s.sem .tablePlace + total isPlacing (Function.update s.cook i .placed) +
      total isPlaced (Function.update s.cook i .placed) = 1
    omega
  · change s.sem .tableOn + total isPlacing (Function.update s.cook i .placed) +
      takenSlots (Function.update s.shared.table k _) = TABLE_CAP + s.fetching
    omega
  · change s.sem .tableReady + s.fetching + total isPlaced (Function.update s.cook i .placed) =
      takenSlots (Function.update s.shared.table k _)
    omega
  · change s.shared.tables_taken + 1 = takenSlots (Function.update s.shared.table k _)
    omega
  · change (pizza_no : ℤ) ::ₘ s.placed =
      s.picked + onTable (Function.update s.shared.table k ((pizza_no : ℤ) + 1))
    rw [hon, hs.pizzas, add_sub_cancel_right, ← Multiset.singleton_add]
    ac_rfl

theorem TableInv.cookStep {s s' : State N M} (hs : TableInv s) {i : Fin N} {n : ℕ}
    (hcovered : ∀ pizza_no, s.cook i = .placing pizza_no → s.fetching ≤ s.sem .tableOn)
    (h : cookStep s i n = some s') : TableInv s' := by
  -- a cook that moves at the oven has no weight before and after
  have haway : ∀ c, isPlacing (s.cook i) = isPlacing c → isPlaced (s.cook i) = isPlaced c →
      total isPlacing (Function.update s.cook i c) = total isPlacing s.cook ∧
        total isPlaced (Function.update s.cook i c) = total isPlaced s.cook := by
    intro c hplacing hplaced
    have h₁ := total_update isPlacing s.cook i c
    have h₂ := total_update isPlaced s.cook i c
    omega
  unfold SystemV.cookStep at h
  split at h
  case h_1 hi | h_3 hi | h_4 hi | h_6 hi | h_7 hi | h_9 hi =>
    obtain ⟨sem, hsem, rfl⟩ := Option.map_eq_some_iff.mp h
    exact hs.moveCook hsem (by decide) (by simp [hi, isPlacing]) (by simp [hi, isPlaced])
      (by simp [hi, isPlacing, isPlaced])
  case h_2 pizza_no hi =>
    obtain ⟨hplacing, hplaced⟩ := haway .astray (by rw [hi]; rfl) (by rw [hi]; rfl)
    split at h
    · rename_i shared index hinsert
      rw [Option.some.injEq] at h
      subst h
      obtain ⟨k, _, heq⟩ := Option.map_eq_some_iff.mp hinsert
      obtain ⟨rfl, rfl⟩ := Prod.mk.inj heq
      obtain ⟨hplacing, hplaced⟩ := haway (.inserted pizza_no k) (by rw [hi]; rfl) (by rw [hi]; rfl)
      exact hs.of_same rfl rfl rfl hplacing hplaced rfl rfl rfl
    · rw [Option.some.injEq] at h
      subst h
      exact hs.of_same rfl rfl rfl hplacing hplaced rfl rfl rfl
  case h_5 pizza_no index hi =>
    rw [Option.some.injEq] at h
    subst h
    obtain ⟨hplacing, hplaced⟩ := haway (.pulled pizza_no) (by rw [hi]; rfl) (by rw [hi]; rfl)
    exact hs.of_same rfl rfl rfl hplacing hplaced rfl rfl rfl
  case h_8 pizza_no hi =>
    obtain ⟨k, hk⟩ := Option.isSome_iff_exists.mp
      (firstFree_isSome_iff.mpr ((hs.exists_free_iff hi).mpr (hcovered _ hi)))
    rw [placePizza, hk] at h
    simp only [Option.map_some, Option.some.injEq] at h
    subst h
    exact hs.placed hi (firstFree_some hk)
  case h_10 hi => cases h

theorem TableInv.supplierStep {s s' : State N M} (hs : TableInv s) {j : Fin M}
    (h : supplierStep s j = some s') : TableInv s' := by
  have hplace := hs.place
  have hpermits := hs.permits
  have hready := hs.ready
  unfold SystemV.supplierStep at h
  split at h
  case h_1 hj =>
    obtain ⟨sem, hsem, rfl⟩ := Option.map_eq_some_iff.mp h
    have hnonneg := semop_nonneg (by decide) hs.nonneg hsem
    obtain ⟨_, hvalue⟩ := semop_eq_some.mp hsem
    have hfetching := total_update isFetching s.supplier j .fetching
    rw [hj] at hfetching
    simp only [isFetching] at hfetching
    simp only [State.fetching] at hpermits hready
    have hplaceValue := hvalue .tablePlace
    have honValue := hvalue .tableOn
    have hreadyValue := hvalue .tableReady
    simp at hplaceValue honValue hreadyValue
    refine ⟨hnonneg, ?_, ?_, ?_, hs.count, hs.pizzas⟩
    · change sem .tablePlace + total isPlacing s.cook + total isPlaced s.cook = 1
      omega
    · change sem .tableOn + total isPlacing s.cook + takenSlots s.shared.table =
        TABLE_CAP + total isFetching (Function.update s.supplier j .fetching)
      omega
    · change sem .tableReady + total isFetching (Function.update s.supplier j .fetching) +
        total isPlaced s.cook = takenSlots s.shared.table
      omega
  case h_2 hj =>
    obtain ⟨⟨shared, pizza_no⟩, htake, rfl⟩ := Option.map_eq_some_iff.mp h
    obtain ⟨k, hk, heq⟩ := Option.map_eq_some_iff.mp htake
    obtain ⟨rfl, rfl⟩ := Prod.mk.inj heq
    have hused := firstTaken_some hk
    have htaken := takenSlots_update_taken hused
    have hon := onTable_update_taken hused
    have hfetching := total_update isFetching s.supplier j .waiting
    rw [hj] at hfetching
    simp only [isFetching] at hfetching
    simp only [State.fetching] at hpermits hready
    have hcount := hs.count
    refine ⟨hs.nonneg, hplace, ?_, ?_, ?_, ?_⟩
    · change s.sem .tableOn + total isPlacing s.cook + takenSlots (Function.update s.shared.table k FREE) =
        TABLE_CAP + total isFetching (Function.update s.supplier j .waiting)
      omega
    · change s.sem .tableReady + total isFetching (Function.update s.supplier j .waiting) +
        total isPlaced s.cook = takenSlots (Function.update s.shared.table k FREE)
      omega
    · change s.shared.tables_taken - 1 = takenSlots (Function.update s.shared.table k FREE)
      omega
    · change s.placed = (s.shared.table k - 1) ::ₘ s.picked +
        onTable (Function.update s.shared.table k FREE)
      rw [hs.pizzas, ← hon, ← Multiset.singleton_add]
      ac_rfl

theorem TableInv.step {s s' : State N M} {a : Action N M} (hs : TableInv s) (hcovered : Covered s a)
    (h : step s a = some s') : TableInv s' := by
  cases a with
  | cook i pizza_no => exact hs.cookStep hcovered h
  | supplier j => exact hs.supplierStep h

/-! ## The table -/

/-- The search of a cook finds a free slot, and the pizza goes into the first. -/
def FindsFree (s : State N M) : Action N M → Prop
  | .cook i n => ∀ pizza_no, s.cook i = .placing pizza_no →
      ∃ k s', s.shared.table k = FREE ∧ (∀ k' < k, s.shared.table k' ≠ FREE) ∧
        step s (.cook i n) = some s' ∧
        s'.shared.table = Function.update s.shared.table k ((pizza_no : ℤ) + 1)
  | .supplier _ => True

theorem TableInv.findsFree_iff {s : State N M} (hs : TableInv s) (a : Action N M) :
    FindsFree s a ↔ Covered s a := by
  cases a with
  | supplier j => exact Iff.rfl
  | cook i n =>
    constructor
    · intro hfinds pizza_no hi
      obtain ⟨k, _, hk, _⟩ := hfinds pizza_no hi
      exact (hs.exists_free_iff hi).mp ⟨k, hk⟩
    · intro hcovered pizza_no hi
      obtain ⟨k, hk⟩ := Option.isSome_iff_exists.mp
        (firstFree_isSome_iff.mpr ((hs.exists_free_iff hi).mpr (hcovered _ hi)))
      have hstep : ∃ s', SystemV.step s (.cook i n) = some s' ∧
          s'.shared.table = Function.update s.shared.table k ((pizza_no : ℤ) + 1) := by
        simp [SystemV.step, SystemV.cookStep, hi, placePizza, hk]
      obtain ⟨s', hs', htable⟩ := hstep
      exact ⟨k, s', firstFree_some hk, fun _ => firstFree_before hk, hs', htable⟩

/-- What the claims of a supplier, the counter and the pizzas on the table come to. -/
structure TableCorrect (s : State N M) : Prop where
  suppliers : ∀ j, s.supplier j = .fetching → ∃ k, s.shared.table k ≠ FREE
  count : s.shared.tables_taken = takenSlots s.shared.table
  pizzas : s.placed = s.picked + onTable s.shared.table

/-- In a run every search of a cook finds a free slot, and the suppliers, the
counter and the pizzas are right after every step, if and only if every cook
starts its search covered. -/
theorem table_correct_iff (N M : ℕ) (schedule : List (Action N M)) :
    (Along step FindsFree start schedule ∧
      ∀ done s, done <+: schedule → exec step start done = some s → TableCorrect s) ↔
    Along step Covered start schedule := by
  constructor
  · rintro ⟨hfinds, _⟩
    exact along_invariant (P := TableInv) (fun s a t hs ha ht => hs.step ((hs.findsFree_iff a).mp ha) ht)
      (fun s a hs ha => (hs.findsFree_iff a).mp ha) tableInv_start hfinds
  · intro hcovered
    refine ⟨along_invariant (P := TableInv) (fun s a t hs ha ht => hs.step ha ht)
      (fun s a hs ha => (hs.findsFree_iff a).mpr ha) tableInv_start hcovered, ?_⟩
    intro done s hdone hrun
    have hs : TableInv s :=
      exec_invariant (fun s a t hs ha ht => hs.step ha ht) tableInv_start
        (hcovered.initial hdone) hrun
    exact ⟨fun j hj => hs.exists_taken hj, hs.count, hs.pizzas⟩

/-- One cook fills the table; a supplier hands a permit back, and the cook goes
on to its next search before the supplier has emptied a slot. -/
def overtaking : List (Action 1 1) :=
  List.replicate 45 (.cook 0 0) ++ [.supplier 0] ++ List.replicate 7 (.cook 0 0)

theorem not_table_correct_overtaking :
    ¬ ∀ (N M : ℕ) (schedule : List (Action N M)), Along step FindsFree start schedule ∧
      ∀ done s, done <+: schedule → exec step start done = some s → TableCorrect s := by
  intro hclaim
  have hfull : ∃ s, exec step start overtaking = some s ∧ s.cook 0 = .placing 0 ∧
      ∀ k, s.shared.table k ≠ FREE := by
    have hany : (exec step start overtaking).any (fun s =>
        decide (s.cook 0 = .placing 0 ∧ ∀ k, s.shared.table k ≠ FREE)) = true := by decide +kernel
    simpa only [Option.any_eq_true, decide_eq_true_eq] using hany
  obtain ⟨s, hrun, hplacing, htable⟩ := hfull
  have hfinds := (hclaim 1 1 (overtaking ++ [.cook 0 0])).1.append hrun
  obtain ⟨k, _, hk, _⟩ := hfinds.1 0 hplacing
  exact htable k hk

end Sysopy.Pizzeria.SystemV
