import Sysopy.Pizzeria.Table

/-!
# The table as a queue

Whole put and take operations on the table, one after another. A cook puts its pizza
into the first free slot, counted from slot 0; a supplier takes the first pizza in the
round that begins at `table_queue_start`. Every put has a stamp, by which its pizza is
known until it is taken.
-/
namespace Sysopy.Pizzeria.Queue

open Transition SystemV

structure State where
  shared : Shared
  stamp : Fin TABLE_CAP → ℕ
  /-- The numbers of the pizzas put so far. -/
  put : List ℤ
  /-- The stamps of the pizzas taken so far. -/
  taken : List ℕ
  /-- The numbers that the suppliers got with them. -/
  picked : List ℤ

/-- The table that `main` of the pizzeria sets up. -/
def start : State := ⟨⟨fun _ => FREE, 0, fun _ => FREE, 0, 0⟩, fun _ => 0, [], [], []⟩

inductive Action
  | put (pizza_no : ℕ)
  | take
  deriving DecidableEq, Repr

/-- A put needs a free slot and a take a pizza. -/
def step (s : State) : Action → Option State
  | .put pizza_no =>
    (firstFree s.shared.table).bind fun index =>
      (placePizza s.shared pizza_no).map fun shared =>
        { s with
          shared := shared
          stamp := Function.update s.stamp index s.put.length
          put := s.put ++ [(pizza_no : ℤ)] }
  | .take =>
    (firstTaken s.shared).bind fun index =>
      (takePizza s.shared).map fun (shared, pizza_no) =>
        { s with
          shared := shared
          taken := s.taken ++ [s.stamp index]
          picked := s.picked ++ [pizza_no] }

/-- The pizzas were taken in the order in which they were put. -/
structure InOrder (s : State) : Prop where
  stamps : s.taken = List.range s.taken.length
  numbers : s.picked = s.put.take s.taken.length

/-- So are the pizzas on the table, when suppliers come for them. -/
def Drains (s : State) : Prop :=
  ∀ n t, exec step s (List.replicate n .take) = some t → InOrder t

/-- How far slot `i` is from `table_queue_start` in the round of a supplier. -/
def turn (shared : Shared) (i : Fin TABLE_CAP) : ℕ :=
  if shared.table_queue_start ≤ i then i - shared.table_queue_start
  else i + TABLE_CAP - shared.table_queue_start

/-- In the round of a supplier the slot that a cook finds comes behind all pizzas. -/
def Behind (s : State) : Action → Prop
  | .put _ => ∀ index, firstFree s.shared.table = some index →
      ∀ i, s.shared.table i ≠ FREE → turn s.shared i < turn s.shared index
  | .take => True

instance (s : State) (a : Action) : Decidable (Behind s a) := by
  cases a <;> unfold Behind <;> infer_instance

/-! ## One operation -/

theorem step_put_eq_some {s t : State} {pizza_no : ℕ} (h : step s (.put pizza_no) = some t) :
    ∃ index, firstFree s.shared.table = some index ∧
      t = ⟨{ s.shared with
          table := Function.update s.shared.table index ((pizza_no : ℤ) + 1)
          tables_taken := s.shared.tables_taken + 1 },
        Function.update s.stamp index s.put.length, s.put ++ [(pizza_no : ℤ)], s.taken, s.picked⟩ := by
  obtain ⟨index, hindex, h⟩ := Option.bind_eq_some_iff.mp h
  rw [placePizza, hindex, Option.map_some, Option.map_some] at h
  exact ⟨index, hindex, (Option.some.inj h).symm⟩

theorem step_take_eq_some {s t : State} (h : step s .take = some t) :
    ∃ index, firstTaken s.shared = some index ∧
      t = ⟨{ s.shared with
          table_queue_start := (s.shared.table_queue_start + 1) % TABLE_CAP
          tables_taken := s.shared.tables_taken - 1
          table := Function.update s.shared.table index FREE },
        s.stamp, s.put, s.taken ++ [s.stamp index], s.picked ++ [s.shared.table index - 1]⟩ := by
  obtain ⟨index, hindex, h⟩ := Option.bind_eq_some_iff.mp h
  rw [takePizza, hindex, Option.map_some, Option.map_some] at h
  exact ⟨index, hindex, (Option.some.inj h).symm⟩

theorem step_take_isSome_iff (s : State) :
    (step s .take).isSome ↔ ∃ i, s.shared.table i ≠ FREE := by
  rw [← firstTaken_isSome_iff]
  cases hindex : firstTaken s.shared <;> simp [step, takePizza, hindex]

/-! ## The round of a supplier -/

theorem turn_inj {shared : Shared} (hstart : shared.table_queue_start < TABLE_CAP)
    {i j : Fin TABLE_CAP} (h : turn shared i = turn shared j) : i = j := by
  have hi := i.isLt
  have hj := j.isLt
  unfold turn at h
  apply Fin.ext
  split_ifs at h <;> omega

theorem turn_next {shared : Shared} (hstart : shared.table_queue_start < TABLE_CAP)
    (table : Fin TABLE_CAP → ℤ) (tables_taken : ℤ) {i : Fin TABLE_CAP} (hi : 0 < turn shared i) :
    turn { shared with
      table_queue_start := (shared.table_queue_start + 1) % TABLE_CAP
      tables_taken := tables_taken
      table := table } i + 1 = turn shared i := by
  have hlt := i.isLt
  unfold turn at hi ⊢
  simp only [TABLE_CAP] at *
  split_ifs at hi ⊢ <;> omega

theorem turn_firstTaken_le {shared : Shared} (hstart : shared.table_queue_start < TABLE_CAP)
    {index i : Fin TABLE_CAP} (hindex : firstTaken shared = some index)
    (hi : shared.table i ≠ FREE) : turn shared index ≤ turn shared i := by
  obtain ⟨_, n, hn, hget, hbefore⟩ := List.find?_eq_some_iff_getElem.mp hindex
  have hn5 : n < TABLE_CAP := by simpa using hn
  have hval := congrArg Fin.val hget
  simp only [List.getElem_map, List.getElem_range] at hval
  by_contra hlt
  have hturn : turn shared i < n := by
    have hlt' := index.isLt
    unfold turn at hlt ⊢
    simp only [TABLE_CAP] at *
    split_ifs at hlt ⊢ <;> omega
  have hnot := hbefore (turn shared i) hturn
  simp only [List.getElem_map, List.getElem_range, Bool.not_eq_true', bne_eq_false_iff_eq] at hnot
  apply hi
  have hslot : (turn shared i + shared.table_queue_start) % TABLE_CAP = i := by
    have hlt' := i.isLt
    unfold turn
    simp only [TABLE_CAP] at *
    split_ifs <;> omega
  rw [← hnot]
  congr 1
  exact Fin.ext hslot.symm

/-! ## Stamps -/

/-- What every sequence of operations keeps: every pizza put is on the table or taken, and
the number that comes with it is its own. -/
structure Sound (s : State) : Prop where
  start_lt : s.shared.table_queue_start < TABLE_CAP
  stamped : ∀ i, s.shared.table i ≠ FREE → s.put[s.stamp i]? = some (s.shared.table i - 1)
  distinct : ∀ i j, s.shared.table i ≠ FREE → s.shared.table j ≠ FREE →
    s.stamp i = s.stamp j → i = j
  fresh : ∀ i, s.shared.table i ≠ FREE → s.stamp i ∉ s.taken
  picked : s.picked.map some = s.taken.map (s.put[·]?)
  complete : ∀ n, n < s.put.length →
    n ∈ s.taken ∨ ∃ i, s.shared.table i ≠ FREE ∧ s.stamp i = n

theorem sound_start : Sound start := by
  refine ⟨by decide, ?_, ?_, ?_, rfl, ?_⟩
  · exact fun i hi => absurd rfl hi
  · exact fun i _ hi => absurd rfl hi
  · exact fun i hi => absurd rfl hi
  · exact fun n hn => absurd hn (Nat.not_lt_zero n)

variable {s t : State}

theorem Sound.stamp_lt (hs : Sound s) {i : Fin TABLE_CAP} (hi : s.shared.table i ≠ FREE) :
    s.stamp i < s.put.length :=
  (List.getElem?_eq_some_iff.mp (hs.stamped i hi)).1

theorem Sound.taken_lt (hs : Sound s) {n : ℕ} (hn : n ∈ s.taken) : n < s.put.length := by
  have hmem : s.put[n]? ∈ s.picked.map some := by
    rw [hs.picked]
    exact List.mem_map_of_mem hn
  obtain ⟨pizza_no, _, hget⟩ := List.mem_map.mp hmem
  exact (List.getElem?_eq_some_iff.mp hget.symm).1

theorem Sound.inOrder (hs : Sound s) (htaken : s.taken = List.range s.taken.length) :
    InOrder s := by
  refine ⟨htaken, ?_⟩
  have hpicked := hs.picked
  have hlength : s.picked.length = s.taken.length := by
    simpa using congrArg List.length hpicked
  apply List.ext_getElem?
  intro k
  by_cases hk : k < s.taken.length
  · have hget := congrArg (·[k]?) hpicked
    rw [htaken] at hget
    simp only [List.getElem?_map, List.getElem?_range hk, Option.map_some] at hget
    rw [List.getElem?_take_of_lt hk]
    rw [List.getElem?_eq_getElem (by omega), Option.map_some, Option.some.injEq] at hget
    rw [← hget, List.getElem?_eq_getElem (by omega)]
  · rw [List.getElem?_eq_none (by omega), List.getElem?_eq_none]
    rw [List.length_take]
    omega

theorem Sound.put (hs : Sound s) {pizza_no : ℕ} (h : step s (.put pizza_no) = some t) :
    Sound t := by
  obtain ⟨index, hindex, rfl⟩ := step_put_eq_some h
  have hfree := firstFree_some hindex
  have hpizza : (pizza_no : ℤ) + 1 ≠ FREE := by
    unfold FREE
    omega
  have hused : ∀ i, Function.update s.shared.table index ((pizza_no : ℤ) + 1) i ≠ FREE →
      i = index ∨ i ≠ index ∧ s.shared.table i ≠ FREE := by
    intro i hi
    by_cases hii : i = index
    · exact .inl hii
    · rw [Function.update_of_ne hii] at hi
      exact .inr ⟨hii, hi⟩
  constructor
  · exact hs.start_lt
  · intro i hi
    rcases hused i hi with rfl | ⟨hne, hi⟩
    · simp
    · simp only [Function.update_of_ne hne]
      rw [List.getElem?_append_left (hs.stamp_lt hi)]
      exact hs.stamped i hi
  · intro i j hi hj hij
    rcases hused i hi with hii | ⟨hne, hi₀⟩ <;> rcases hused j hj with hjj | ⟨hne', hj₀⟩
    · rw [hii, hjj]
    · subst hii
      simp only [Function.update_self, Function.update_of_ne hne'] at hij
      exact absurd (hs.stamp_lt hj₀) (by omega)
    · subst hjj
      simp only [Function.update_self, Function.update_of_ne hne] at hij
      exact absurd (hs.stamp_lt hi₀) (by omega)
    · simp only [Function.update_of_ne hne, Function.update_of_ne hne'] at hij
      exact hs.distinct i j hi₀ hj₀ hij
  · intro i hi hmem
    rcases hused i hi with rfl | ⟨hne, hi⟩
    · simp only [Function.update_self] at hmem
      exact absurd (hs.taken_lt hmem) (lt_irrefl _)
    · simp only [Function.update_of_ne hne] at hmem
      exact hs.fresh i hi hmem
  · simp only
    rw [hs.picked]
    apply List.map_congr_left
    intro n hn
    rw [List.getElem?_append_left (hs.taken_lt hn)]
  · intro n hn
    simp only [List.length_append, List.length_singleton] at hn
    rcases Nat.lt_succ_iff_lt_or_eq.mp hn with hlt | rfl
    · rcases hs.complete n hlt with hmem | ⟨i, hi, hstamp⟩
      · exact .inl hmem
      · have hne : i ≠ index := by
          rintro rfl
          exact hi hfree
        refine .inr ⟨i, ?_, ?_⟩
        · simpa only [Function.update_of_ne hne] using hi
        · simpa only [Function.update_of_ne hne] using hstamp
    · refine .inr ⟨index, ?_, ?_⟩
      · simpa only [Function.update_self] using hpizza
      · simp only [Function.update_self]

theorem Sound.take (hs : Sound s) (h : step s .take = some t) : Sound t := by
  obtain ⟨index, hindex, rfl⟩ := step_take_eq_some h
  have htaken := firstTaken_some hindex
  have hused : ∀ i, Function.update s.shared.table index FREE i ≠ FREE →
      i ≠ index ∧ s.shared.table i ≠ FREE := by
    intro i hi
    have hne : i ≠ index := by
      rintro rfl
      rw [Function.update_self] at hi
      exact hi rfl
    rw [Function.update_of_ne hne] at hi
    exact ⟨hne, hi⟩
  constructor
  · exact Nat.mod_lt _ (by decide)
  · intro i hi
    obtain ⟨hne, hi⟩ := hused i hi
    simpa only [Function.update_of_ne hne] using hs.stamped i hi
  · intro i j hi hj hij
    exact hs.distinct i j (hused i hi).2 (hused j hj).2 hij
  · intro i hi hmem
    obtain ⟨hne, hi⟩ := hused i hi
    rcases List.mem_append.mp hmem with hmem | hmem
    · exact hs.fresh i hi hmem
    · exact hne (hs.distinct i index hi htaken (List.mem_singleton.mp hmem))
  · simp only [List.map_append, List.map_singleton]
    rw [hs.picked, hs.stamped index htaken]
  · intro n hn
    rcases hs.complete n hn with hmem | ⟨i, hi, rfl⟩
    · exact .inl (List.mem_append_left _ hmem)
    · by_cases hii : i = index
      · subst hii
        exact .inl (List.mem_append_right _ (List.mem_singleton.mpr rfl))
      · refine .inr ⟨i, ?_, rfl⟩
        simpa only [Function.update_of_ne hii] using hi

/-! ## Order -/

/-- The pizzas lie in the round of a supplier in the order in which they were put. -/
structure Queued (s : State) : Prop extends Sound s where
  ordered : ∀ i j, s.shared.table i ≠ FREE → s.shared.table j ≠ FREE →
    turn s.shared i < turn s.shared j → s.stamp i < s.stamp j
  stamps : s.taken = List.range s.taken.length

theorem queued_start : Queued start :=
  ⟨sound_start, fun _ _ hi => absurd rfl hi, rfl⟩

/-- The first pizza of the round is the oldest. -/
theorem Queued.stamp_firstTaken (hs : Queued s) {index : Fin TABLE_CAP}
    (hindex : firstTaken s.shared = some index) : s.stamp index = s.taken.length := by
  have htaken := firstTaken_some hindex
  have hge : s.taken.length ≤ s.stamp index := by
    have hfresh := hs.fresh index htaken
    rw [hs.stamps, List.mem_range] at hfresh
    omega
  have hlt := hs.stamp_lt htaken
  rcases hs.complete s.taken.length (by omega) with hmem | ⟨i, hi, hstamp⟩
  · rw [hs.stamps, List.length_range, List.mem_range] at hmem
    exact absurd hmem (lt_irrefl _)
  · rcases (turn_firstTaken_le hs.start_lt hindex hi).lt_or_eq with hturn | hturn
    · have hless := hs.ordered index i htaken hi hturn
      omega
    · rw [turn_inj hs.start_lt hturn]
      exact hstamp

theorem Queued.take (hs : Queued s) (h : step s .take = some t) : Queued t := by
  have hsound := hs.toSound.take h
  obtain ⟨index, hindex, rfl⟩ := step_take_eq_some h
  have hstamp := hs.stamp_firstTaken hindex
  refine ⟨hsound, ?_, ?_⟩
  · intro i j hi hj hij
    have hused : ∀ k, Function.update s.shared.table index FREE k ≠ FREE →
        s.shared.table k ≠ FREE ∧ 0 < turn s.shared k := by
      intro k hk
      have hne : k ≠ index := by
        rintro rfl
        rw [Function.update_self] at hk
        exact hk rfl
      rw [Function.update_of_ne hne] at hk
      have hle := turn_firstTaken_le hs.start_lt hindex hk
      have hturn : turn s.shared index ≠ turn s.shared k :=
        fun heq => hne (turn_inj hs.start_lt heq).symm
      exact ⟨hk, by omega⟩
    obtain ⟨hi, hturni⟩ := hused i hi
    obtain ⟨hj, hturnj⟩ := hused j hj
    dsimp only at hij
    have hnexti := turn_next hs.start_lt (Function.update s.shared.table index FREE)
      (s.shared.tables_taken - 1) hturni
    have hnextj := turn_next hs.start_lt (Function.update s.shared.table index FREE)
      (s.shared.tables_taken - 1) hturnj
    exact hs.ordered i j hi hj (by omega)
  · rw [hstamp, List.length_append, List.length_singleton, List.range_succ, ← hs.stamps]

theorem Queued.put (hs : Queued s) {pizza_no : ℕ} (hbehind : Behind s (.put pizza_no))
    (h : step s (.put pizza_no) = some t) : Queued t := by
  have hsound := hs.toSound.put h
  obtain ⟨index, hindex, rfl⟩ := step_put_eq_some h
  refine ⟨hsound, fun i j hi hj hij => ?_, hs.stamps⟩
  change turn s.shared i < turn s.shared j at hij
  by_cases hji : j = index
  · subst hji
    have hne : i ≠ j := by
      rintro rfl
      exact absurd hij (lt_irrefl _)
    simp only [Function.update_of_ne hne] at hi
    simp only [Function.update_self, Function.update_of_ne hne]
    exact hs.stamp_lt hi
  · simp only [Function.update_of_ne hji] at hj
    have hne : i ≠ index := by
      rintro rfl
      exact absurd (hbehind i hindex j hj) (by omega)
    simp only [Function.update_of_ne hne] at hi
    simp only [Function.update_of_ne hne, Function.update_of_ne hji]
    exact hs.ordered i j hi hj hij

theorem Queued.step (hs : Queued s) {a : Action} (ha : Behind s a) (h : step s a = some t) :
    Queued t := by
  cases a with
  | put pizza_no => exact hs.put ha h
  | take => exact hs.take h

theorem Queued.drains (hs : Queued s) : Drains s := by
  intro n t hrun
  have htakes : Along Queue.step (fun _ a => a = .take) s (List.replicate n .take) := by
    rw [along_iff]
    intro bs a cs heq u _
    have hmem : a ∈ List.replicate n Action.take := by simp [heq]
    exact List.eq_of_mem_replicate hmem
  have ht : Queued t :=
    exec_invariant (fun u a v hu ha h => hu.take (ha ▸ h)) hs htakes hrun
  exact ht.inOrder ht.stamps

/-- A pizza that lies behind a younger one is taken too late. -/
theorem Sound.not_drains (hs : Sound s) {i j : Fin TABLE_CAP} (hi : s.shared.table i ≠ FREE)
    (hj : s.shared.table j ≠ FREE) (hturn : turn s.shared i < turn s.shared j)
    (hstamp : s.stamp j < s.stamp i) : ¬ Drains s := by
  -- the takes come nearer to slot `i` one by one
  induction hn : turn s.shared i using Nat.strong_induction_on generalizing s with
  | h n ih =>
    intro hdrains
    obtain ⟨t, ht⟩ := Option.isSome_iff_exists.mp ((step_take_isSome_iff s).mpr ⟨i, hi⟩)
    have hinOrder : InOrder t := hdrains 1 t (exec_cons_eq_some.mpr ⟨t, ht, rfl⟩)
    have hdrains' : Drains t := fun m u hu =>
      hdrains (m + 1) u (exec_cons_eq_some.mpr ⟨t, ht, hu⟩)
    have hsound := hs.take ht
    obtain ⟨index, hindex, rfl⟩ := step_take_eq_some ht
    by_cases hii : i = index
    · subst hii
      have hstamps := hinOrder.stamps
      simp only [List.length_append, List.length_singleton, List.range_succ] at hstamps
      obtain ⟨htaken, hlast⟩ := List.append_inj' hstamps rfl
      rw [List.cons.injEq] at hlast
      apply hs.fresh j hj
      rw [htaken, List.mem_range]
      omega
    · have hlt : turn s.shared index < turn s.shared i := by
        have hle := turn_firstTaken_le hs.start_lt hindex hi
        have hne : turn s.shared index ≠ turn s.shared i :=
          fun heq => hii (turn_inj hs.start_lt heq).symm
        omega
      have hjj : j ≠ index := by
        rintro rfl
        omega
      have hnexti := turn_next hs.start_lt (Function.update s.shared.table index FREE)
        (s.shared.tables_taken - 1) (i := i) (by omega)
      have hnextj := turn_next hs.start_lt (Function.update s.shared.table index FREE)
        (s.shared.tables_taken - 1) (i := j) (by omega)
      refine ih _ ?_ hsound ?_ ?_ ?_ hstamp rfl hdrains'
      · dsimp only
        omega
      · simpa only [Function.update_of_ne hii] using hi
      · simpa only [Function.update_of_ne hjj] using hj
      · dsimp only
        omega

theorem Queued.not_behind (hs : Queued s) {a : Action} (ha : ¬ Behind s a) :
    ∃ t, Queue.step s a = some t ∧ ¬ Drains t := by
  cases a with
  | take => exact absurd trivial ha
  | put pizza_no =>
    unfold Behind at ha
    push Not at ha
    obtain ⟨index, hindex, i, hi, hturn⟩ := ha
    have hfree := firstFree_some hindex
    have hne : i ≠ index := by
      rintro rfl
      exact hi hfree
    obtain ⟨t, ht⟩ : ∃ t, Queue.step s (.put pizza_no) = some t := by
      simp [Queue.step, placePizza, hindex]
    refine ⟨t, ht, ?_⟩
    have hsound := hs.toSound.put ht
    obtain ⟨index', hindex', rfl⟩ := step_put_eq_some ht
    obtain rfl := Option.some.inj (hindex.symm.trans hindex')
    apply hsound.not_drains (i := index) (j := i)
    · simp only [Function.update_self]
      unfold FREE
      omega
    · simpa only [Function.update_of_ne hne] using hi
    · change turn s.shared index < turn s.shared i
      have hturn' : turn s.shared index ≠ turn s.shared i :=
        fun heq => hne (turn_inj hs.start_lt heq).symm
      omega
    · simp only [Function.update_self, Function.update_of_ne hne]
      exact hs.stamp_lt hi

/-- Throughout a sequence of operations the pizzas are taken in the order in which they were
put, and those on the table are going to be, exactly if every put finds its free slot behind
all pizzas in the round of a supplier. -/
theorem inOrder_iff (operations : List Action) :
    (∀ done, done <+: operations → ∀ s, exec step start done = some s → Drains s) ↔
      Along step Behind start operations :=
  always_iff_along (fun _ hs => hs.drains) (fun _ _ _ hs ha h => hs.step ha h)
    (fun _ _ hs ha => hs.not_behind ha) queued_start

/-- After one pizza has come and gone, the next goes to slot 0 again and the one after it to
slot 1, where a supplier looks first. -/
theorem not_inOrder_second_round :
    ¬ ∀ (operations : List Action) (s : State), exec step start operations = some s → InOrder s := by
  intro h
  have hstamps := (h [.put 0, .take, .put 1, .put 2, .take] _ rfl).stamps
  revert hstamps
  decide

end Sysopy.Pizzeria.Queue
