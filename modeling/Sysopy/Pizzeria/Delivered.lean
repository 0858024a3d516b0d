import Sysopy.Pizzeria.Oven

/-!
# The way home in the System V pizzeria

However far the cooks and suppliers have come, they can finish what they have begun: some
schedule, in which no cook starts a new pizza, brings every process back to the head of its
loop, the semaphores back to their first values, and every pizza to a supplier once. The
exception are the cooks that have run behind the table, since one of them keeps
`TABLE_PLACE`.
-/
namespace Sysopy.Pizzeria.SystemV

open Semaphore Transition Family

variable {N M : ℕ}

/-- The cook has taken `OVEN_PLACE`. -/
def atPlace : Cook → ℤ
  | .inserting _ | .inserted _ _ | .pulling _ _ | .pulled _ => 1
  | _ => 0

/-- The pizza that a cook has begun and not yet put on the table. -/
def inHand : Cook → Multiset ℤ
  | .inserting pizza_no | .inserted pizza_no _ | .baking pizza_no _ | .pulling pizza_no _
  | .pulled pizza_no | .carrying pizza_no | .placing pizza_no => {(pizza_no : ℤ)}
  | .preparing | .placed | .astray => 0

/-- The steps of a cook to the head of its loop, and those of a supplier with its pizza. -/
def toCome : Cook → ℤ
  | .preparing | .astray => 0
  | .placed => 3
  | .placing _ => 4
  | .carrying _ => 5
  | .pulled _ => 6
  | .pulling _ _ => 7
  | .baking _ _ => 8
  | .inserted _ _ => 9
  | .inserting _ => 10

/-- All steps to come when no cook starts a new pizza. -/
def State.toCome (s : State N M) : ℤ :=
  total SystemV.toCome s.cook + s.fetching + 2 * s.sem .tableReady

theorem atPlace_nonneg (c : Cook) : 0 ≤ atPlace c := by
  cases c <;> simp [atPlace]

theorem toCome_nonneg (c : Cook) : 0 ≤ toCome c := by
  cases c <;> simp [toCome]

/-- What a step of cook `i` to `c` keeps, unless the cook starts a pizza or runs behind the
table. -/
structure CookMoves (s s' : State N M) (i : Fin N) (c : Cook) : Prop where
  cook : s'.cook = Function.update s.cook i c
  supplier : s'.supplier = s.supplier
  live : s.cook i ≠ .astray
  place : c ≠ .astray →
    s'.sem .ovenPlace + atPlace c = s.sem .ovenPlace + atPlace (s.cook i)
  free : c ≠ .astray → ∀ pizza_no, s.cook i = .placing pizza_no → ∃ k, s.shared.table k = FREE
  pizzas : c ≠ .astray → s.cook i ≠ .preparing →
    s'.placed + inHand c = s.placed + inHand (s.cook i)
  toCome : c ≠ .astray → s.cook i ≠ .preparing →
    toCome c + 2 * s'.sem .tableReady < toCome (s.cook i) + 2 * s.sem .tableReady

section Steps

variable {s s' : State N M} {i : Fin N}

theorem cookMoves_of_semop {ops : List (Specs × ℤ)} {sem : Specs → ℤ} {c : Cook}
    (hsem : semop ops s.sem = some sem) (hlive : s.cook i ≠ .astray)
    (hplacing : ∀ pizza_no, s.cook i ≠ .placing pizza_no)
    (hplace : change ops .ovenPlace + atPlace c = atPlace (s.cook i))
    (hpizzas : s.cook i ≠ .preparing → inHand c = inHand (s.cook i))
    (htoCome : s.cook i ≠ .preparing →
      toCome c + 2 * change ops .tableReady < toCome (s.cook i)) :
    CookMoves s (s.moveCook i sem c) i c := by
  obtain ⟨-, hvalue⟩ := semop_eq_some.mp hsem
  refine ⟨rfl, rfl, hlive, fun _ => ?_, fun _ p h => absurd h (hplacing p), fun _ hstart => ?_,
    fun _ hstart => ?_⟩
  · change sem .ovenPlace + _ = _
    rw [hvalue]
    omega
  · rw [hpizzas hstart]
    rfl
  · have hless := htoCome hstart
    change _ + 2 * sem .tableReady < _
    rw [hvalue]
    omega

theorem cookMoves {n : ℕ} (h : cookStep s i n = some s') : ∃ c, CookMoves s s' i c := by
  unfold SystemV.cookStep at h
  split at h
  case h_1 hi | h_3 hi | h_4 hi | h_6 hi | h_7 hi | h_9 hi =>
    obtain ⟨sem, hsem, rfl⟩ := Option.map_eq_some_iff.mp h
    exact ⟨_, cookMoves_of_semop hsem (by simp [hi]) (by simp [hi]) (by simp [hi, atPlace])
      (by simp [hi, inHand]) (by simp [hi, toCome])⟩
  case h_2 pizza_no hi =>
    split at h
    · obtain rfl := Option.some.inj h
      exact ⟨_, rfl, rfl, by simp [hi], fun _ => by rw [hi]; rfl, fun _ _ hp => by simp [hi] at hp,
        fun _ _ => by rw [hi]; rfl, fun _ _ => by simp [hi, toCome, State.moveCook]⟩
    · obtain rfl := Option.some.inj h
      exact ⟨.astray, rfl, rfl, by simp [hi], fun hc => absurd rfl hc, fun hc => absurd rfl hc,
        fun hc => absurd rfl hc, fun hc => absurd rfl hc⟩
  case h_5 pizza_no index hi =>
    obtain rfl := Option.some.inj h
    exact ⟨_, rfl, rfl, by simp [hi], fun _ => by rw [hi]; rfl, fun _ _ hp => by simp [hi] at hp,
      fun _ _ => by rw [hi]; rfl, fun _ _ => by simp [hi, toCome, State.moveCook]⟩
  case h_8 pizza_no hi =>
    split at h
    · rename_i shared hplaced
      obtain rfl := Option.some.inj h
      obtain ⟨k, hk, -⟩ := Option.map_eq_some_iff.mp hplaced
      refine ⟨.placed, rfl, rfl, by simp [hi], fun _ => by rw [hi]; rfl, fun _ _ _ => ?_,
        fun _ _ => ?_, fun _ _ => by simp [hi, toCome, State.moveCook]⟩
      · exact ⟨k, firstFree_some hk⟩
      · rw [hi]
        change (pizza_no : ℤ) ::ₘ s.placed + 0 = s.placed + {(pizza_no : ℤ)}
        rw [add_zero, ← Multiset.singleton_add, add_comm]
    · obtain rfl := Option.some.inj h
      exact ⟨.astray, rfl, rfl, by simp [hi], fun hc => absurd rfl hc, fun hc => absurd rfl hc,
        fun hc => absurd rfl hc, fun hc => absurd rfl hc⟩
  case h_10 => cases h

theorem CookMoves.live_before {c : Cook} (hmoves : CookMoves s s' i c)
    (hlive : ∀ j, s'.cook j ≠ .astray) : c ≠ .astray ∧ ∀ j, s.cook j ≠ .astray := by
  rw [hmoves.cook] at hlive
  refine ⟨fun hc => hlive i (by rw [Function.update_self, hc]), fun j => ?_⟩
  by_cases hj : j = i
  · exact hj ▸ hmoves.live
  · have hother := hlive j
    rwa [Function.update_of_ne hj] at hother

theorem supplier_moves {j : Fin M} (h : supplierStep s j = some s') :
    s'.cook = s.cook ∧ s'.placed = s.placed ∧ s'.sem .ovenPlace = s.sem .ovenPlace ∧
      s'.toCome < s.toCome := by
  unfold SystemV.supplierStep at h
  split at h
  case h_1 hj =>
    obtain ⟨sem, hsem, rfl⟩ := Option.map_eq_some_iff.mp h
    obtain ⟨-, hvalue⟩ := semop_eq_some.mp hsem
    have hfetching := total_update isFetching s.supplier j .fetching
    have hready := hvalue .tableReady
    rw [hj] at hfetching
    simp [isFetching] at hfetching hready
    refine ⟨rfl, rfl, by simp [hvalue], ?_⟩
    change total toCome s.cook + total isFetching (Function.update s.supplier j .fetching) +
      2 * sem .tableReady < total toCome s.cook + total isFetching s.supplier + 2 * s.sem .tableReady
    omega
  case h_2 hj =>
    obtain ⟨⟨shared, pizza_no⟩, -, rfl⟩ := Option.map_eq_some_iff.mp h
    have hfetching := total_update isFetching s.supplier j .waiting
    rw [hj] at hfetching
    simp only [isFetching] at hfetching
    refine ⟨rfl, rfl, rfl, ?_⟩
    change total toCome s.cook + total isFetching (Function.update s.supplier j .waiting) +
      2 * s.sem .tableReady < total toCome s.cook + total isFetching s.supplier + 2 * s.sem .tableReady
    omega

theorem isTaken_nonneg (slot : ℤ) : 0 ≤ isTaken slot := by
  unfold isTaken
  split_ifs <;> decide

theorem free_of_total_isTaken {n : ℕ} {slots : Fin n → ℤ} (h : total isTaken slots = 0) :
    slots = fun _ => FREE := by
  funext k
  have hle := le_total isTaken_nonneg slots k
  rw [h] at hle
  by_contra hk
  rw [isTaken, if_neg hk] at hle
  omega

/-! ## Runs in which no cook is astray -/

structure Live (s : State N M) : Prop where
  oven : OvenInv s
  table : TableInv s
  place : s.sem .ovenPlace + total atPlace s.cook = 1
  cooks : ∀ i, s.cook i ≠ .astray

theorem Live.toCome_nonneg (hs : Live s) : 0 ≤ s.toCome := by
  have hcooks := total_nonneg SystemV.toCome_nonneg s.cook
  have hsuppliers := total_nonneg isFetching_nonneg s.supplier
  have hready := hs.table.nonneg .tableReady
  unfold State.toCome State.fetching
  omega

theorem live_start : Live (start : State N M) where
  oven := ovenInv_start
  table := tableInv_start
  place := by
    have hzero : total atPlace (start : State N M).cook = 0 := total_eq_zero fun _ => rfl
    rw [hzero]
    rfl
  cooks i := by simp [start]

theorem Live.cookStep (hs : Live s) {n : ℕ} (h : cookStep s i n = some s')
    (hlive : ∀ j, s'.cook j ≠ .astray) : Live s' := by
  obtain ⟨c, hmoves⟩ := cookMoves h
  obtain ⟨hc, -⟩ := hmoves.live_before hlive
  have hplace := hs.place
  have hmoved := hmoves.place hc
  have htotal := total_update atPlace s.cook i c
  refine ⟨hs.oven.cookStep h, ?_, ?_, hlive⟩
  · exact hs.table.cookStep (fun p hp => (hs.table.exists_free_iff hp).mp (hmoves.free hc p hp)) h
  · rw [hmoves.cook]
    omega

theorem Live.supplierStep (hs : Live s) {j : Fin M} (h : supplierStep s j = some s') : Live s' := by
  obtain ⟨hcook, -, hplace, -⟩ := supplier_moves h
  refine ⟨hs.oven.supplierStep h, hs.table.supplierStep h, ?_, ?_⟩
  · rw [hplace, hcook]
    exact hs.place
  · rw [hcook]
    exact hs.cooks

/-- A cook that runs behind the table never comes back, so before a state without such a cook
there was none either. -/
theorem live_of_exec {schedule : List (Action N M)} (hrun : exec step start schedule = some s)
    (hlive : ∀ i, s.cook i ≠ .astray) : Live s := by
  have hall : (∀ i, s.cook i ≠ .astray) → Live s := by
    refine exec_invariant' (P := fun s : State N M => (∀ i, s.cook i ≠ .astray) → Live s)
      (fun s a s' hs h hlive => ?_) (fun _ => live_start) hrun
    cases a with
    | cook i n =>
      obtain ⟨c, hmoves⟩ := cookMoves h
      exact (hs (hmoves.live_before hlive).2).cookStep h hlive
    | supplier j =>
      have hcook := (supplier_moves h).1
      exact (hs (hcook ▸ hlive)).supplierStep h
  exact hall hlive

/-! ## Steps that begin nothing -/

/-- A cook goes on with its pizza, and it can do so without running behind the table. -/
theorem goes_on (hstart : s.cook i ≠ .preparing) {n : ℕ}
    (h : cookStep s i n = some s') (hlive : ∀ j, s'.cook j ≠ .astray) :
    s'.placed + total inHand s'.cook = s.placed + total inHand s.cook ∧ s'.toCome < s.toCome := by
  obtain ⟨c, hmoves⟩ := cookMoves h
  obtain ⟨hc, -⟩ := hmoves.live_before hlive
  constructor
  · have htotal := total_update inHand s.cook i c
    have hpizzas := hmoves.pizzas hc hstart
    rw [← hmoves.cook] at htotal
    -- both sides with the pizza of the cook before its step
    refine add_right_cancel (b := inHand (s.cook i)) ?_
    calc s'.placed + total inHand s'.cook + inHand (s.cook i)
        = s'.placed + (total inHand s.cook + inHand c) := by rw [add_assoc, htotal]
      _ = s'.placed + inHand c + total inHand s.cook := by ac_rfl
      _ = s.placed + total inHand s.cook + inHand (s.cook i) := by rw [hpizzas]; ac_rfl
  · have htotal := total_update toCome s.cook i c
    have hless := hmoves.toCome hc hstart
    unfold State.toCome State.fetching
    rw [hmoves.cook, hmoves.supplier]
    omega

/-- Every process is at the head of its loop, and no pizza waits for a supplier. -/
structure Home (s : State N M) : Prop where
  cook : ∀ i, s.cook i = .preparing
  supplier : ∀ j, s.supplier j = .waiting
  ready : s.sem .tableReady = 0

/-- The cook can take its next step and stays in the pizzeria. -/
def CanMove (s : State N M) (i : Fin N) : Prop :=
  ∃ s', cookStep s i 0 = some s' ∧ ∀ j, s'.cook j ≠ .astray

theorem Live.canMove (hs : Live s) {c : Cook} (hc : c ≠ .astray)
    (h : (SystemV.cookStep s i 0).map State.cook = some (Function.update s.cook i c)) :
    CanMove s i := by
  obtain ⟨s', hs', hcook⟩ := Option.map_eq_some_iff.mp h
  refine ⟨s', hs', fun j => ?_⟩
  rw [hcook]
  by_cases hj : j = i
  · rwa [hj, Function.update_self]
  · rw [Function.update_of_ne hj]
    exact hs.cooks j

theorem Live.canMove_of_semop (hs : Live s) {ops : List (Specs × ℤ)} {c : Cook}
    (h : SystemV.cookStep s i 0 = (semop ops s.sem).map fun sem => s.moveCook i sem c)
    (hc : c ≠ .astray) (hops : ∀ op ∈ ops, 0 ≤ s.sem op.1 + op.2) : CanMove s i := by
  refine hs.canMove hc ?_
  rw [h, semop, if_pos hops]
  rfl

theorem Live.canMove_atPlace (hs : Live s) (hi : 0 < atPlace (s.cook i)) : CanMove s i := by
  have hplace := hs.oven.nonneg .ovenPlace
  have hin := hs.oven.nonneg .ovenIn
  cases hcook : s.cook i with
  | inserting pizza_no =>
    obtain ⟨k, hk⟩ :=
      Option.isSome_iff_exists.mp (firstFree_isSome_iff.mpr (hs.oven.exists_free hcook))
    refine hs.canMove (by simp : Cook.inserted pizza_no k ≠ .astray) ?_
    rw [SystemV.cookStep, hcook, insertPizza, hk]
    rfl
  | inserted pizza_no index =>
    refine hs.canMove_of_semop (by rw [SystemV.cookStep, hcook]) (by simp) ?_
    simp
    omega
  | pulling pizza_no index =>
    refine hs.canMove (by simp : Cook.pulled pizza_no ≠ .astray) ?_
    rw [SystemV.cookStep, hcook]
    rfl
  | pulled pizza_no =>
    refine hs.canMove_of_semop (by rw [SystemV.cookStep, hcook]) (by simp) ?_
    simp
    omega
  | preparing | baking | carrying | placing | placed | astray => simp [hcook, atPlace] at hi

theorem Live.canMove_atTable (hs : Live s) (hfetching : s.fetching = 0)
    (hi : 0 < isPlacing (s.cook i) + isPlaced (s.cook i)) : CanMove s i := by
  have hplace := hs.table.nonneg .tablePlace
  have hon := hs.table.nonneg .tableOn
  have hready := hs.table.nonneg .tableReady
  cases hcook : s.cook i with
  | placing pizza_no =>
    obtain ⟨k, hk⟩ := Option.isSome_iff_exists.mp
      (firstFree_isSome_iff.mpr ((hs.table.exists_free_iff hcook).mpr (by omega)))
    refine hs.canMove (by simp : Cook.placed ≠ .astray) ?_
    simp only [SystemV.cookStep, hcook, placePizza, hk]
    rfl
  | placed =>
    refine hs.canMove_of_semop (by rw [SystemV.cookStep, hcook]) (by simp) ?_
    simp
    omega
  | preparing | inserting | inserted | baking | pulling | pulled | carrying | astray =>
    simp [hcook, isPlacing, isPlaced] at hi

theorem Live.canMove_baking (hs : Live s) (hplace : s.sem .ovenPlace = 1) {pizza_no : ℕ}
    {index : Fin OVEN_CAP} (hcook : s.cook i = .baking pizza_no index) : CanMove s i := by
  refine hs.canMove_of_semop (by rw [SystemV.cookStep, hcook]) (by simp) ?_
  simp [hplace]

theorem Live.canMove_carrying (hs : Live s) (hplace : s.sem .tablePlace = 1)
    (hon : 0 < s.sem .tableOn) {pizza_no : ℕ} (hcook : s.cook i = .carrying pizza_no) :
    CanMove s i := by
  refine hs.canMove_of_semop (by rw [SystemV.cookStep, hcook]) (by simp) ?_
  simp [hplace]
  omega

/-- While somebody is on the way, somebody can move without beginning a pizza. -/
theorem Live.exists_move (hs : Live s) (hM : 0 < M) (haway : ¬ Home s) :
    (∃ j s', SystemV.supplierStep s j = some s') ∨
      ∃ i, s.cook i ≠ .preparing ∧ CanMove s i := by
  by_cases hsuppliers : ∃ j, s.supplier j = .fetching
  · obtain ⟨j, hj⟩ := hsuppliers
    obtain ⟨k, hk⟩ := Option.isSome_iff_exists.mp
      (firstTaken_isSome_iff.mpr (hs.table.exists_taken hj))
    exact .inl ⟨j, _, by rw [SystemV.supplierStep, hj, takePizza, hk]; rfl⟩
  have hwaiting : ∀ j, s.supplier j = .waiting := by
    intro j
    cases hj : s.supplier j with
    | waiting => rfl
    | fetching => exact absurd ⟨j, hj⟩ hsuppliers
  have hfetching : s.fetching = 0 := total_eq_zero fun j => by rw [hwaiting j]; rfl
  by_cases hoven : ∃ i, 0 < atPlace (s.cook i)
  · obtain ⟨i, hi⟩ := hoven
    refine .inr ⟨i, fun hstart => ?_, hs.canMove_atPlace hi⟩
    rw [hstart] at hi
    exact absurd hi (by decide)
  by_cases htable : ∃ i, 0 < isPlacing (s.cook i) + isPlaced (s.cook i)
  · obtain ⟨i, hi⟩ := htable
    refine .inr ⟨i, fun hstart => ?_, hs.canMove_atTable hfetching hi⟩
    rw [hstart] at hi
    exact absurd hi (by decide)
  push Not at hoven htable
  -- both mutexes are free now
  have hatPlace : total atPlace s.cook = 0 :=
    total_eq_zero fun i => le_antisymm (hoven i) (atPlace_nonneg _)
  have hplacing : total isPlacing s.cook = 0 := total_eq_zero fun i => by
    have hle := htable i
    have hplacing := isPlacing_nonneg (s.cook i)
    have hplaced := isPlaced_nonneg (s.cook i)
    omega
  have hplaced : total isPlaced s.cook = 0 := total_eq_zero fun i => by
    have hle := htable i
    have hplacing := isPlacing_nonneg (s.cook i)
    have hplaced := isPlaced_nonneg (s.cook i)
    omega
  have hovenPlace := hs.place
  have htablePlace := hs.table.place
  have hpermits := hs.table.permits
  have hready := hs.table.ready
  have hnonneg := hs.table.nonneg
  by_cases hpizza : 0 < s.sem .tableReady
  · have hon := hnonneg .tableOn
    refine .inl ⟨⟨0, hM⟩, ?_⟩
    rw [SystemV.supplierStep, hwaiting, semop, if_pos (by simp; omega)]
    exact ⟨_, rfl⟩
  have hnone := hnonneg .tableReady
  obtain ⟨i, hi⟩ : ∃ i, s.cook i ≠ .preparing := by
    by_contra hall
    push Not at hall
    exact haway ⟨hall, hwaiting, by omega⟩
  refine .inr ⟨i, hi, ?_⟩
  have hoven := hoven i
  have htable := htable i
  cases hcook : s.cook i with
  | baking pizza_no index => exact hs.canMove_baking (by omega) hcook
  | carrying pizza_no =>
    have hon : s.sem .tableOn = TABLE_CAP := by omega
    exact hs.canMove_carrying (by omega) (by rw [hon]; decide) hcook
  | preparing => exact absurd hcook hi
  | astray => exact absurd hcook (hs.cooks i)
  | inserting | inserted | pulling | pulled => simp [hcook, atPlace] at hoven
  | placing | placed => simp [hcook, isPlacing, isPlaced] at htable

theorem Live.home (hs : Live s) (hhome : Home s) : s.sem = (start : State N M).sem ∧
    s.shared = { (start : State N M).shared with
      table_queue_start := s.shared.table_queue_start } ∧ s.placed = s.picked := by
  obtain ⟨hcook, hsupplier, hzero⟩ := hhome
  have hfetching : s.fetching = 0 := total_eq_zero fun j => by rw [hsupplier j]; rfl
  have hatPlace : total atPlace s.cook = 0 := total_eq_zero fun i => by rw [hcook i]; rfl
  have hplacing : total isPlacing s.cook = 0 := total_eq_zero fun i => by rw [hcook i]; rfl
  have hplaced : total isPlaced s.cook = 0 := total_eq_zero fun i => by rw [hcook i]; rfl
  have hpermit : total hasPermit s.cook = 0 := total_eq_zero fun i => by rw [hcook i]; rfl
  have hinOven : total inOven s.cook = 0 := total_eq_zero fun i => by rw [hcook i]; rfl
  have hplace := hs.place
  have htablePlace := hs.table.place
  have hpermits := hs.table.permits
  have hready := hs.table.ready
  have hcount := hs.table.count
  have hin := hs.oven.permits
  have hovens := hs.oven.cooks
  have hslots := hs.oven.taken
  have htable : s.shared.table = fun _ => FREE := free_of_total_isTaken (by
    unfold takenSlots at hready
    omega)
  have hoven : s.shared.oven = fun _ => FREE := free_of_total_isTaken (by omega)
  refine ⟨?_, ?_, ?_⟩
  · funext k
    cases k <;> simp only [start] <;> omega
  · have hovens_taken : s.shared.ovens_taken = 0 := by omega
    have htables_taken : s.shared.tables_taken = 0 := by omega
    calc s.shared = ⟨s.shared.oven, s.shared.ovens_taken, s.shared.table, s.shared.tables_taken,
            s.shared.table_queue_start⟩ := rfl
      _ = _ := by rw [hoven, htable, hovens_taken, htables_taken]; rfl
  · have hpizzas := hs.table.pizzas
    rw [htable] at hpizzas
    rw [hpizzas]
    simp [onTable, total, contents]

end Steps

/-- From wherever a run has come without a cook behind the table, the processes can go home, and
then the suppliers have every pizza that lay on the table or that a cook had begun, each of
them once. -/
theorem exists_home (hM : 0 < M) {schedule : List (Action N M)} {s : State N M}
    (hrun : exec step start schedule = some s) (hlive : ∀ i, s.cook i ≠ .astray) :
    ∃ rest s', exec step s rest = some s' ∧
      s'.sem = (start : State N M).sem ∧ s'.cook = (start : State N M).cook ∧
      s'.supplier = (start : State N M).supplier ∧
      s'.shared = { (start : State N M).shared with
        table_queue_start := s'.shared.table_queue_start } ∧
      s'.picked = s.picked + onTable s.shared.table + total inHand s.cook := by
  have hs : Live s := live_of_exec hrun hlive
  let P := fun t : State N M => Live t ∧
    t.placed + total inHand t.cook = s.placed + total inHand s.cook
  have hgo : ∀ t, P t → ¬ Home t → ∃ a t', step t a = some t' ∧ P t' ∧
      t'.toCome.toNat < t.toCome.toNat := by
    rintro t ⟨ht, hpizzas⟩ haway
    rcases ht.exists_move hM haway with ⟨j, t', ht'⟩ | ⟨i, hstart, t', ht', hlive'⟩
    · obtain ⟨hcook, hplaced, -, hless⟩ := supplier_moves ht'
      refine ⟨.supplier j, t', ht', ⟨ht.supplierStep ht', ?_⟩, ?_⟩
      · rw [hcook, hplaced]
        exact hpizzas
      · have hnonneg := (ht.supplierStep ht').toCome_nonneg
        omega
    · obtain ⟨hsame, hless⟩ := goes_on hstart ht' hlive'
      refine ⟨.cook i 0, t', ht', ⟨ht.cookStep ht' hlive', hsame.trans hpizzas⟩, ?_⟩
      have hnonneg := (ht.cookStep ht' hlive').toCome_nonneg
      omega
  obtain ⟨rest, s', hrest, ⟨hs', hpizzas⟩, hhome⟩ :=
    exists_exec_of_descent (fun t : State N M => t.toCome.toNat) hgo ⟨hs, rfl⟩
  obtain ⟨hsem, hshared, hplaced⟩ := hs'.home hhome
  refine ⟨rest, s', hrest, hsem, funext hhome.cook, funext hhome.supplier, hshared, ?_⟩
  have hnone : total inHand s'.cook = 0 := total_eq_zero fun i => by rw [hhome.cook i]; rfl
  rw [← hplaced, ← hs.table.pizzas, ← hpizzas, hnone, add_zero]

/-- One cook with a pizza in the oven. -/
theorem exists_home_onePizza :
    let pizza : Fin 10 := ⟨4, by decide⟩
    ∃ (s : State 1 1) (rest : List (Action 1 1)) (s' : State 1 1),
      exec step start (List.replicate 3 (.cook 0 pizza)) = some s ∧
      exec step s rest = some s' ∧ s'.picked = {4} := by
  intro pizza
  have hrun : ∃ s : State 1 1, exec step start (List.replicate 3 (.cook 0 pizza)) = some s ∧
      s.cook 0 ≠ .astray ∧ s.picked + onTable s.shared.table + total inHand s.cook = {4} :=
    ⟨_, rfl, by decide, by decide⟩
  obtain ⟨s, hs, hcook, hpizzas⟩ := hrun
  obtain ⟨rest, s', hrest, -, -, -, -, hpicked⟩ :=
    exists_home Nat.one_pos hs fun i => by rwa [Subsingleton.elim i 0]
  exact ⟨s, rest, s', hs, hrest, hpicked.trans hpizzas⟩

end Sysopy.Pizzeria.SystemV
