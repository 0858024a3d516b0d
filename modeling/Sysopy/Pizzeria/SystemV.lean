import Sysopy.Library.Semaphore
import Sysopy.Library.Family
import Sysopy.Library.Transition
import Mathlib.Data.Multiset.AddSub

/-!
# The pizzeria over System V semaphores

`make_pizza` of a cook and `deliver` of a supplier, for any number of both. A
step is one `semop` call or the block of shared-memory statements between two of
them. The searches of the source have no bound: a cook that finds no free slot
reads on behind the array and is `astray`, a supplier that finds no pizza does
not come back from its block.

Besides `struct pizzeria` the state keeps the pizzas put on the table and taken
from it so far.
-/
namespace Sysopy.Pizzeria

open Semaphore Transition

abbrev OVEN_CAP : ℕ := 5
abbrev TABLE_CAP : ℕ := 5

inductive Specs
  | ovenPlace
  | ovenIn
  | tablePlace
  | tableOn
  | tableReady
  deriving DecidableEq, Repr

def FREE : ℤ := 0
def TAKEN : ℤ := 1

/-- `struct pizzeria`. -/
structure Shared where
  oven : Fin OVEN_CAP → ℤ
  ovens_taken : ℤ
  table : Fin TABLE_CAP → ℤ
  tables_taken : ℤ
  table_queue_start : ℕ

/-- Where a cook stands in `make_pizza`, with its locals `pizza_no` and `index`. -/
inductive Cook
  | preparing
  | inserting (pizza_no : ℕ)
  | inserted (pizza_no : ℕ) (index : Fin OVEN_CAP)
  | baking (pizza_no : ℕ) (index : Fin OVEN_CAP)
  | pulling (pizza_no : ℕ) (index : Fin OVEN_CAP)
  | pulled (pizza_no : ℕ)
  | carrying (pizza_no : ℕ)
  | placing (pizza_no : ℕ)
  | placed
  | astray
  deriving DecidableEq, Repr

/-- Where a supplier stands in `deliver`. -/
inductive Supplier
  | waiting
  | fetching
  deriving DecidableEq, Repr

namespace SystemV

structure State (N M : ℕ) where
  sem : Specs → ℤ
  shared : Shared
  cook : Fin N → Cook
  supplier : Fin M → Supplier
  placed : Multiset ℤ
  picked : Multiset ℤ

variable {N M : ℕ}

/-- What `main` of the pizzeria sets up. -/
def start : State N M where
  sem
    | .ovenPlace => 1
    | .ovenIn => OVEN_CAP
    | .tablePlace => 1
    | .tableOn => TABLE_CAP
    | .tableReady => 0
  shared := ⟨fun _ => FREE, 0, fun _ => FREE, 0, 0⟩
  cook _ := .preparing
  supplier _ := .waiting
  placed := 0
  picked := 0

/-- The search of a cook for the first free slot. -/
def firstFree {n : ℕ} (slots : Fin n → ℤ) : Option (Fin n) :=
  (List.finRange n).find? fun i => slots i == FREE

/-- The search of a supplier, from `table_queue_start` around the table. -/
def firstTaken (shared : Shared) : Option (Fin TABLE_CAP) :=
  ((List.range TABLE_CAP).map fun i =>
      (⟨(i + shared.table_queue_start) % TABLE_CAP, Nat.mod_lt _ (by decide)⟩ : Fin TABLE_CAP)).find?
    fun index => shared.table index != FREE

/-- A cook inserts its pizza: `ovens_taken++` and the search of the oven. -/
def insertPizza (shared : Shared) : Option (Shared × Fin OVEN_CAP) :=
  (firstFree shared.oven).map fun index =>
    ({ shared with
        ovens_taken := shared.ovens_taken + 1
        oven := Function.update shared.oven index TAKEN }, index)

def pullPizza (shared : Shared) (index : Fin OVEN_CAP) : Shared :=
  { shared with
    ovens_taken := shared.ovens_taken - 1
    oven := Function.update shared.oven index FREE }

/-- A cook puts its pizza on the table. -/
def placePizza (shared : Shared) (pizza_no : ℕ) : Option Shared :=
  (firstFree shared.table).map fun index =>
    { shared with
      table := Function.update shared.table index ((pizza_no : ℤ) + 1)
      tables_taken := shared.tables_taken + 1 }

/-- A supplier takes a pizza; the result is its number. -/
def takePizza (shared : Shared) : Option (Shared × ℤ) :=
  (firstTaken shared).map fun index =>
    ({ shared with
        table_queue_start := (shared.table_queue_start + 1) % TABLE_CAP
        tables_taken := shared.tables_taken - 1
        table := Function.update shared.table index FREE }, shared.table index - 1)

/-- The process that moves; a cook that starts anew draws the number of its pizza. -/
inductive Action (N M : ℕ)
  | cook (i : Fin N) (pizza_no : Fin 10)
  | supplier (j : Fin M)

def State.moveCook (s : State N M) (i : Fin N) (sem : Specs → ℤ) (c : Cook) : State N M :=
  { s with sem := sem, cook := Function.update s.cook i c }

/-- The next step of cook `i` in `make_pizza`. -/
def cookStep (s : State N M) (i : Fin N) (pizza_no : ℕ) : Option (State N M) :=
  match s.cook i with
  | .preparing =>
    (semop [(.ovenPlace, -1), (.ovenIn, -1)] s.sem).map fun sem =>
      s.moveCook i sem (.inserting pizza_no)
  | .inserting pizza_no =>
    match insertPizza s.shared with
    | some (shared, index) =>
      some { s.moveCook i s.sem (.inserted pizza_no index) with shared := shared }
    | none => some (s.moveCook i s.sem .astray)
  | .inserted pizza_no index =>
    (semop [(.ovenPlace, 1)] s.sem).map fun sem => s.moveCook i sem (.baking pizza_no index)
  | .baking pizza_no index =>
    (semop [(.ovenPlace, -1)] s.sem).map fun sem => s.moveCook i sem (.pulling pizza_no index)
  | .pulling pizza_no index =>
    some { s.moveCook i s.sem (.pulled pizza_no) with shared := pullPizza s.shared index }
  | .pulled pizza_no =>
    (semop [(.ovenPlace, 1), (.ovenIn, 1)] s.sem).map fun sem =>
      s.moveCook i sem (.carrying pizza_no)
  | .carrying pizza_no =>
    (semop [(.tablePlace, -1), (.tableOn, -1)] s.sem).map fun sem =>
      s.moveCook i sem (.placing pizza_no)
  | .placing pizza_no =>
    match placePizza s.shared pizza_no with
    | some shared =>
      some { s.moveCook i s.sem .placed with
        shared := shared, placed := (pizza_no : ℤ) ::ₘ s.placed }
    | none => some (s.moveCook i s.sem .astray)
  | .placed =>
    (semop [(.tablePlace, 1), (.tableReady, 1)] s.sem).map fun sem => s.moveCook i sem .preparing
  | .astray => none

/-- The next step of supplier `j` in `deliver`. -/
def supplierStep (s : State N M) (j : Fin M) : Option (State N M) :=
  match s.supplier j with
  | .waiting =>
    (semop [(.tableOn, 1), (.tableReady, -1)] s.sem).map fun sem =>
      { s with sem := sem, supplier := Function.update s.supplier j .fetching }
  | .fetching =>
    (takePizza s.shared).map fun (shared, pizza_no) =>
      { s with
        shared := shared
        supplier := Function.update s.supplier j .waiting
        picked := pizza_no ::ₘ s.picked }

def step (s : State N M) : Action N M → Option (State N M)
  | .cook i pizza_no => cookStep s i pizza_no
  | .supplier j => supplierStep s j

end SystemV

end Sysopy.Pizzeria
