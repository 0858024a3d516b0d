import Sysopy.Library.Transition
import Mathlib.Algebra.BigOperators.Group.Finset.Basic
import Mathlib.Tactic

/-!
# Filters in a line

A filter reads its input and writes its output element by element, in an order of its own. The
filters of a line run at the same time, and each writes into a bounded buffer that the next one
reads. A filter that reads waits while its buffer is empty and the one before it runs. A filter
that writes waits while its buffer is full, and ends when the next one has ended. Whatever the
order of their moves, the line writes what the filters compute one after another, and it never
stops before the end.
-/
namespace Sysopy.Filters

open Transition

/-- What a filter does next. -/
inductive Move (σ α : Type*)
  | exit
  | write (a : α) (x : σ)
  | read (element : α → σ) (eof : σ)

variable {σ α : Type*}

/-- Filter `i` writes into buffer `i`, which filter `i + 1` reads; `none` has ended. -/
structure Line (σ α : Type*) where
  filter : ℕ → Option σ
  buffer : ℕ → List α
  input : List α
  output : List α

namespace Line

def setFilter (s : Line σ α) (i : ℕ) (x : Option σ) : Line σ α :=
  { s with filter := Function.update s.filter i x }

theorem setFilter_self (s : Line σ α) (i : ℕ) : s.setFilter i (s.filter i) = s :=
  congrArg (fun filter => { s with filter := filter }) (Function.update_eq_self i s.filter)

/-- What filter `i` reads. -/
def source (s : Line σ α) : ℕ → List α
  | 0 => s.input
  | i + 1 => s.buffer i

def setSource (s : Line σ α) (i : ℕ) (rest : List α) : Line σ α :=
  match i with
  | 0 => { s with input := rest }
  | i + 1 => { s with buffer := Function.update s.buffer i rest }

/-- Nobody writes the source of filter `i` any more. -/
def AtEnd (s : Line σ α) : ℕ → Prop
  | 0 => True
  | i + 1 => s.filter i = none

instance (s : Line σ α) (i : ℕ) : Decidable (s.AtEnd i) :=
  match i with
  | 0 => isTrue trivial
  | i + 1 => decidable_of_iff (s.filter i).isNone (by rw [Option.isNone_iff_eq_none]; rfl)

/-- `read`, which waits for a writer. -/
def read (s : Line σ α) (i : ℕ) (element : α → σ) (eof : σ) : Option (Line σ α) :=
  match s.source i with
  | a :: rest => some ((s.setSource i rest).setFilter i (some (element a)))
  | [] => if s.AtEnd i then some (s.setFilter i (some eof)) else none

/-- `write` of the filter before the last one's buffer, which waits for the reader. -/
def write (capacity : ℕ) (s : Line σ α) (i : ℕ) (a : α) (x : σ) : Option (Line σ α) :=
  if (s.filter (i + 1)).isNone then some (s.setFilter i none)
  else if (s.buffer i).length < capacity then
    some ({ s with buffer := Function.update s.buffer i (s.buffer i ++ [a]) }.setFilter i (some x))
  else none

/-- A move of filter `i` in a line of `n`. -/
def step (next : σ → Move σ α) (n capacity : ℕ) (s : Line σ α) (i : ℕ) : Option (Line σ α) :=
  if i < n then
    (s.filter i).bind fun x =>
      match next x with
      | .exit => some (s.setFilter i none)
      | .write a x =>
        if i + 1 = n then some ({ s with output := s.output ++ [a] }.setFilter i (some x))
        else s.write capacity i a x
      | .read element eof => s.read i element eof
  else none

end Line

/-! ## What a filter computes -/

/-- On the input the filter writes the output, and it ends, in `k` moves. -/
inductive Produces (next : σ → Move σ α) : ℕ → σ → List α → List α → Prop
  | exit {x : σ} {input : List α} : next x = .exit → Produces next 1 x input []
  | write {k : ℕ} {x y : σ} {a : α} {input output : List α} : next x = .write a y →
      Produces next k y input output → Produces next (k + 1) x input (a :: output)
  | element {k : ℕ} {x eof : σ} {element : α → σ} {a : α} {input output : List α} :
      next x = .read element eof → Produces next k (element a) input output →
      Produces next (k + 1) x (a :: input) output
  | eof {k : ℕ} {x eof : σ} {element : α → σ} {output : List α} :
      next x = .read element eof → Produces next k eof [] output →
      Produces next (k + 1) x [] output

section Produces

variable {next : σ → Move σ α} {k : ℕ} {x y eof : σ} {a : α} {element : α → σ}
  {input output : List α}

theorem Produces.of_exit (h : Produces next k x input output) (hnext : next x = .exit) :
    k = 1 ∧ output = [] := by
  cases h with
  | exit _ => exact ⟨rfl, rfl⟩
  | write h _ | element h _ | eof h _ =>
    rw [hnext] at h
    cases h

theorem Produces.of_write (h : Produces next k x input output) (hnext : next x = .write a y) :
    ∃ m rest, k = m + 1 ∧ output = a :: rest ∧ Produces next m y input rest := by
  cases h with
  | write h hrest =>
    rw [hnext] at h
    cases h
    exact ⟨_, _, rfl, rfl, hrest⟩
  | exit h | element h _ | eof h _ =>
    rw [hnext] at h
    cases h

theorem Produces.of_element (h : Produces next k x (a :: input) output)
    (hnext : next x = .read element eof) :
    ∃ m, k = m + 1 ∧ Produces next m (element a) input output := by
  cases h with
  | element h hrest =>
    rw [hnext] at h
    cases h
    exact ⟨_, rfl, hrest⟩
  | exit h | write h _ =>
    rw [hnext] at h
    cases h

theorem Produces.of_eof (h : Produces next k x [] output) (hnext : next x = .read element eof) :
    ∃ m, k = m + 1 ∧ Produces next m eof [] output := by
  cases h with
  | eof h hrest =>
    rw [hnext] at h
    cases h
    exact ⟨_, rfl, hrest⟩
  | exit h | write h _ =>
    rw [hnext] at h
    cases h

theorem Produces.pos (h : Produces next k x input output) : 0 < k := by
  cases h <;> exact Nat.succ_pos _

end Produces

/-- One that has ended writes nothing. -/
def Writes (next : σ → Move σ α) (k : ℕ) : Option σ → List α → List α → Prop
  | some x, input, output => Produces next k x input output
  | none, _, output => k = 0 ∧ output = []

/-- The filters one after another. -/
inductive Composes (next : σ → Move σ α) : List σ → List α → List α → Prop
  | nil (input : List α) : Composes next [] input input
  | cons {k : ℕ} {x : σ} {xs : List σ} {input middle output : List α} :
      Produces next k x input middle → Composes next xs middle output →
      Composes next (x :: xs) input output

/-! ## Every order of moves -/

section Line

variable {next : σ → Move σ α} {n capacity : ℕ} {out : List α}

/-- What is still to come for filter `i`, when the filters have `r` to write. -/
def Line.incoming (s : Line σ α) (r : ℕ → List α) : ℕ → List α
  | 0 => s.input
  | i + 1 => s.buffer i ++ r i

/-- Every filter has `r` to write, in `k` moves, on what is still to come for it. -/
structure Inv (next : σ → Move σ α) (n : ℕ) (out : List α) (s : Line σ α) (r : ℕ → List α)
    (k : ℕ → ℕ) : Prop where
  writes : ∀ i < n, Writes next (k i) (s.filter i) (s.incoming r i) (r i)
  output : s.output ++ r (n - 1) = out

/-- What the moves of a filter are. -/
inductive Line.Moves (next : σ → Move σ α) (n capacity : ℕ) (s : Line σ α) (i : ℕ) (x : σ) :
    Line σ α → Prop
  | exit : next x = .exit → Moves next n capacity s i x (s.setFilter i none)
  | output {a : α} {y : σ} : next x = .write a y → i + 1 = n →
      Moves next n capacity s i x ({ s with output := s.output ++ [a] }.setFilter i (some y))
  | broken {a : α} {y : σ} : next x = .write a y → i + 1 < n → s.filter (i + 1) = none →
      Moves next n capacity s i x (s.setFilter i none)
  | push {a : α} {y : σ} : next x = .write a y → i + 1 < n → s.filter (i + 1) ≠ none →
      (s.buffer i).length < capacity →
      Moves next n capacity s i x ({ s with
        buffer := Function.update s.buffer i (s.buffer i ++ [a]) }.setFilter i (some y))
  | pop {element : α → σ} {eof : σ} {a : α} {rest : List α} : next x = .read element eof →
      s.source i = a :: rest →
      Moves next n capacity s i x ((s.setSource i rest).setFilter i (some (element a)))
  | eof {element : α → σ} {eof : σ} : next x = .read element eof → s.source i = [] → s.AtEnd i →
      Moves next n capacity s i x (s.setFilter i (some eof))

variable {s s' : Line σ α} {i : ℕ}

theorem Line.Moves.step {x : σ} (h : Moves next n capacity s i x s') (hi : i < n)
    (hx : s.filter i = some x) : s.step next n capacity i = some s' := by
  rw [Line.step, if_pos hi, hx, Option.bind_some]
  cases h with
  | exit hnext => rw [hnext]
  | output hnext hlast =>
    rw [hnext]
    exact if_pos hlast
  | broken hnext hlast hended =>
    rw [hnext]
    dsimp only
    rw [if_neg (by omega), Line.write, hended]
    rfl
  | push hnext hlast hreader hroom =>
    rw [hnext]
    dsimp only
    rw [if_neg (by omega), Line.write, if_neg (Option.isNone_iff_eq_none.not.mpr hreader),
      if_pos hroom]
  | pop hnext hsource =>
    rw [hnext]
    dsimp only [Line.read]
    rw [hsource]
  | eof hnext hsource hend =>
    rw [hnext]
    dsimp only [Line.read]
    rw [hsource]
    exact if_pos hend

theorem Line.step_eq_some (h : s.step next n capacity i = some s') :
    i < n ∧ ∃ x, s.filter i = some x ∧ Moves next n capacity s i x s' := by
  unfold Line.step at h
  by_cases hi : i < n
  swap
  · rw [if_neg hi] at h
    cases h
  rw [if_pos hi] at h
  obtain ⟨x, hx, h⟩ := Option.bind_eq_some_iff.mp h
  refine ⟨hi, x, hx, ?_⟩
  cases hnext : next x with
  | exit =>
    rw [hnext] at h
    exact Option.some.inj h ▸ .exit hnext
  | write a y =>
    rw [hnext] at h
    dsimp only at h
    split_ifs at h with hlast
    · exact Option.some.inj h ▸ .output hnext hlast
    · unfold Line.write at h
      split_ifs at h with hended hroom
      · exact Option.some.inj h ▸ .broken hnext (by omega) (Option.isNone_iff_eq_none.mp hended)
      · exact Option.some.inj h ▸ .push hnext (by omega) (Option.isNone_iff_eq_none.not.mp hended) hroom
  | read element eof =>
    rw [hnext] at h
    dsimp only [Line.read] at h
    cases hsource : s.source i with
    | nil =>
      rw [hsource] at h
      dsimp only at h
      split_ifs at h with hend
      exact Option.some.inj h ▸ .eof hnext hsource hend
    | cons a rest =>
      rw [hsource] at h
      exact Option.some.inj h ▸ .pop hnext hsource

variable {r : ℕ → List α} {k : ℕ → ℕ}

theorem Inv.update (hs : Inv next n out s r k) (hi : i < n) (x : Option σ) (rest : List α) (m : ℕ)
    (hfilter : s'.filter = Function.update s.filter i x)
    (hself : Writes next m x (s'.incoming (Function.update r i rest) i) rest)
    (hothers : ∀ j < n, j ≠ i → s.filter j ≠ none →
      s'.incoming (Function.update r i rest) j = s.incoming r j)
    (houtput : s'.output ++ Function.update r i rest (n - 1) = out) (hless : m < k i) :
    ∃ r' k', Inv next n out s' r' k' ∧
      ∑ j ∈ Finset.range n, k' j < ∑ j ∈ Finset.range n, k j := by
  refine ⟨Function.update r i rest, Function.update k i m, ⟨fun j hj => ?_, houtput⟩, ?_⟩
  · by_cases hji : j = i
    · subst hji
      rw [Function.update_self, hfilter, Function.update_self, Function.update_self]
      exact hself
    · have hwrites := hs.writes j hj
      rw [Function.update_of_ne hji, hfilter, Function.update_of_ne hji, Function.update_of_ne hji]
      by_cases hended : s.filter j = none
      · rw [hended] at hwrites ⊢
        exact hwrites
      · rwa [hothers j hj hji hended]
  · apply Finset.sum_lt_sum
    · intro j _
      by_cases hji : j = i
      · rw [hji, Function.update_self]
        exact hless.le
      · rw [Function.update_of_ne hji]
    · exact ⟨i, Finset.mem_range.mpr hi, by rwa [Function.update_self]⟩

theorem Line.incoming_setFilter (s : Line σ α) (i : ℕ) (x : Option σ) (r : ℕ → List α) (j : ℕ) :
    (s.setFilter i x).incoming r j = s.incoming r j := by
  cases j <;> rfl

theorem Line.incoming_update (s : Line σ α) {i j : ℕ} (rest : List α) (hj : j ≠ i + 1) :
    s.incoming (Function.update r i rest) j = s.incoming r j := by
  cases j with
  | zero => rfl
  | succ j => rw [Line.incoming, Line.incoming, Function.update_of_ne (by omega)]

theorem Line.incoming_eq (s : Line σ α) (r : ℕ → List α) (i : ℕ) :
    ∃ more, s.incoming r i = s.source i ++ more ∧
      ∀ rest, (s.setSource i rest).incoming r i = rest ++ more := by
  cases i with
  | zero => exact ⟨[], (List.append_nil _).symm, fun rest => (List.append_nil rest).symm⟩
  | succ i =>
    refine ⟨r i, rfl, fun rest => ?_⟩
    simp [Line.setSource, Line.incoming]

theorem Line.incoming_setSource (s : Line σ α) (r : ℕ → List α) {i j : ℕ} (hj : j ≠ i)
    (rest : List α) : (s.setSource i rest).incoming r j = s.incoming r j := by
  cases i <;> cases j <;> simp_all [Line.setSource, Line.incoming]

@[simp] theorem Line.filter_setSource (s : Line σ α) (i : ℕ) (rest : List α) :
    (s.setSource i rest).filter = s.filter := by
  cases i <;> rfl

@[simp] theorem Line.output_setSource (s : Line σ α) (i : ℕ) (rest : List α) :
    (s.setSource i rest).output = s.output := by
  cases i <;> rfl

theorem Inv.incoming_eq_nil (hs : Inv next n out s r k) (hi : i < n) (hsource : s.source i = [])
    (hend : s.AtEnd i) : s.incoming r i = [] := by
  cases i with
  | zero => exact hsource
  | succ i =>
    have hwrites := hs.writes i (by omega)
    rw [show s.filter i = none from hend] at hwrites
    rw [Line.incoming, hwrites.2, List.append_nil]
    exact hsource

theorem Inv.step (hs : Inv next n out s r k) (h : s.step next n capacity i = some s') :
    ∃ r' k', Inv next n out s' r' k' ∧
      ∑ j ∈ Finset.range n, k' j < ∑ j ∈ Finset.range n, k j := by
  obtain ⟨hi, x, hx, hmove⟩ := Line.step_eq_some h
  have hwrites := hs.writes i hi
  rw [hx] at hwrites
  change Produces next (k i) x _ _ at hwrites
  cases hmove with
  | exit hnext =>
    obtain ⟨hk, hr⟩ := hwrites.of_exit hnext
    have hsame : Function.update r i [] = r := hr ▸ Function.update_eq_self i r
    refine hs.update hi none [] 0 rfl ⟨rfl, rfl⟩ (fun j _ _ _ => ?_) ?_ (by omega)
    · rw [hsame, Line.incoming_setFilter]
    · rw [hsame]
      exact hs.output
  | @output a y hnext hlast =>
    obtain ⟨m, rest, hk, hr, hproduces⟩ := hwrites.of_write hnext
    refine hs.update hi (some y) rest m rfl ?_ (fun j hj _ _ => ?_) ?_ (by omega)
    · rw [Line.incoming_update _ _ (by omega)]
      cases i <;> exact hproduces
    · rw [Line.incoming_update _ _ (by omega)]
      cases j <;> rfl
    · have hout := hs.output
      rw [show n - 1 = i by omega] at hout ⊢
      rw [hr] at hout
      rw [Function.update_self, ← hout]
      simp [Line.setFilter]
  | @broken a y hnext hlast hended =>
    have hpos := hwrites.pos
    refine hs.update hi none [] 0 rfl ⟨rfl, rfl⟩ (fun j _ _ hrunning => ?_) ?_ hpos
    · have hj : j ≠ i + 1 := by
        rintro rfl
        exact hrunning hended
      rw [Line.incoming_update _ _ hj, Line.incoming_setFilter]
    · rw [Function.update_of_ne (by omega)]
      exact hs.output
  | @push a y hnext hlast hreader hroom =>
    obtain ⟨m, rest, hk, hr, hproduces⟩ := hwrites.of_write hnext
    refine hs.update hi (some y) rest m rfl ?_ (fun j _ hji _ => ?_) ?_ (by omega)
    · rw [Line.incoming_update _ _ (by omega), Line.incoming_setFilter]
      cases i with
      | zero => exact hproduces
      | succ i =>
        dsimp only [Line.incoming]
        rw [Function.update_of_ne (by omega)]
        exact hproduces
    · rw [Line.incoming_setFilter]
      cases j with
      | zero => rfl
      | succ j =>
        by_cases hsame : j = i
        · subst hsame
          dsimp only [Line.incoming]
          rw [Function.update_self, Function.update_self, hr, List.append_assoc,
            List.singleton_append]
        · dsimp only [Line.incoming]
          rw [Function.update_of_ne hsame, Function.update_of_ne hsame]
    · rw [Function.update_of_ne (by omega)]
      exact hs.output
  | @pop element eof a rest hnext hsource =>
    obtain ⟨more, hincoming, hafter⟩ := s.incoming_eq r i
    rw [hincoming, hsource, List.cons_append] at hwrites
    obtain ⟨m, hk, hproduces⟩ := hwrites.of_element hnext
    refine hs.update hi (some (element a)) (r i) m ?_ ?_ (fun j _ hji _ => ?_) ?_ (by omega)
    · rw [Line.setFilter, Line.filter_setSource]
    · rw [Function.update_eq_self, Line.incoming_setFilter, hafter]
      exact hproduces
    · rw [Function.update_eq_self, Line.incoming_setFilter, Line.incoming_setSource _ _ hji]
    · rw [Function.update_eq_self, Line.setFilter, Line.output_setSource]
      exact hs.output
  | @eof element eof hnext hsource hend =>
    rw [hs.incoming_eq_nil hi hsource hend] at hwrites
    obtain ⟨m, hk, hproduces⟩ := hwrites.of_eof hnext
    refine hs.update hi (some eof) (r i) m rfl ?_ (fun j _ _ _ => ?_) ?_ (by omega)
    · rw [Function.update_eq_self, Line.incoming_setFilter, hs.incoming_eq_nil hi hsource hend]
      exact hproduces
    · rw [Function.update_eq_self, Line.incoming_setFilter]
    · rw [Function.update_eq_self]
      exact hs.output

/-! ## Waiting -/

/-- A filter that cannot move waits for one beside it: it has nothing to read, and the one before
it runs, or it has no room to write, and the next one runs and has something to read. -/
theorem Line.waits_of_step_eq_none (hcapacity : 0 < capacity) (hi : i < n)
    (hrunning : s.filter i ≠ none) (h : s.step next n capacity i = none) :
    (s.source i = [] ∧ ∃ j, i = j + 1 ∧ s.filter j ≠ none) ∨
      (i + 1 < n ∧ s.filter (i + 1) ≠ none ∧ s.source (i + 1) ≠ []) := by
  obtain ⟨x, hx⟩ := Option.ne_none_iff_exists'.mp hrunning
  unfold Line.step at h
  rw [if_pos hi, hx, Option.bind_some] at h
  cases hnext : next x with
  | exit =>
    rw [hnext] at h
    cases h
  | write a y =>
    rw [hnext] at h
    dsimp only [Line.write] at h
    by_cases hlast : i + 1 = n
    · rw [if_pos hlast] at h
      cases h
    · rw [if_neg hlast] at h
      split_ifs at h with hended hroom
      rw [Option.isNone_iff_eq_none] at hended
      refine .inr ⟨by omega, hended, fun hempty => hroom ?_⟩
      change s.buffer i = [] at hempty
      rw [hempty]
      exact hcapacity
  | read element eof =>
    rw [hnext] at h
    dsimp only [Line.read] at h
    cases hsource : s.source i with
    | cons a rest =>
      rw [hsource] at h
      cases h
    | nil =>
      rw [hsource] at h
      dsimp only at h
      split_ifs at h with hend
      refine .inl ⟨rfl, ?_⟩
      cases i with
      | zero => exact absurd trivial hend
      | succ j => exact ⟨j, rfl, hend⟩

/-- Where no filter can move, none waits to write: behind one that does, all would, and the last
one never does. -/
theorem Line.waits_to_read (hcapacity : 0 < capacity)
    (hstuck : ∀ i < n, s.step next n capacity i = none) (m : ℕ) :
    ∀ i, i + m + 1 = n → s.filter i ≠ none →
      s.source i = [] ∧ ∃ j, i = j + 1 ∧ s.filter j ≠ none := by
  induction m with
  | zero =>
    intro i hi hrunning
    rcases Line.waits_of_step_eq_none hcapacity (by omega) hrunning (hstuck i (by omega)) with
      hread | ⟨hlt, -⟩
    · exact hread
    · omega
  | succ m ih =>
    intro i hi hrunning
    rcases Line.waits_of_step_eq_none hcapacity (by omega) hrunning (hstuck i (by omega)) with
      hread | ⟨-, hnext, hfull⟩
    · exact hread
    · exact absurd (ih (i + 1) (by omega) hnext).1 hfull

/-- So the filters have ended, from the first one on. -/
theorem Line.ended_of_stuck (hcapacity : 0 < capacity)
    (hstuck : ∀ i < n, s.step next n capacity i = none) : ∀ i < n, s.filter i = none := by
  intro i
  induction i with
  | zero =>
    intro hi
    by_contra hrunning
    obtain ⟨-, j, hj, -⟩ := Line.waits_to_read hcapacity hstuck (n - 1) 0 (by omega) hrunning
    omega
  | succ i ih =>
    intro hi
    by_contra hrunning
    obtain ⟨-, j, hj, hbefore⟩ :=
      Line.waits_to_read hcapacity hstuck (n - (i + 2)) (i + 1) (by omega) hrunning
    obtain rfl : i = j := Nat.succ_inj.mp hj
    exact hbefore (ih (by omega))

/-! ## Runs -/

/-- The filters before their first moves. -/
def Line.start (xs : List σ) (input : List α) : Line σ α where
  filter := fun i => xs[i]?
  buffer := fun _ => []
  input := input
  output := []

theorem Composes.exists_inv {xs : List σ} {input : List α} (h : Composes next xs input out)
    (hne : xs ≠ []) : ∃ r k, Inv next xs.length out (Line.start xs input) r k := by
  induction h with
  | nil input => exact absurd rfl hne
  | @cons k x xs input middle output hfirst hrest ih =>
    by_cases hlast : xs = []
    · subst hlast
      cases hrest
      refine ⟨fun _ => middle, fun _ => k, fun i hi => ?_, rfl⟩
      obtain rfl : i = 0 := by simpa using hi
      exact hfirst
    · obtain ⟨r, ks, hs⟩ := ih hlast
      refine ⟨fun i => i.casesOn middle r, fun i => i.casesOn k ks, fun i hi => ?_, ?_⟩
      · cases i with
        | zero => exact hfirst
        | succ i =>
          have hwrites := hs.writes i (by simpa using hi)
          cases i <;> exact hwrites
      · have hpos := List.length_pos_iff.mpr hlast
        have hout := hs.output
        obtain ⟨m, hm⟩ : ∃ m, xs.length = m + 1 := ⟨xs.length - 1, by omega⟩
        rw [hm] at hout
        rw [List.length_cons, hm]
        exact hout

/-- The line has to write what is due and not yet written, and it ends after `m` moves, or
earlier where a filter breaks off. -/
def Left (next : σ → Move σ α) (n : ℕ) (out : List α) (s : Line σ α) (m : ℕ) : Prop :=
  ∃ r k, Inv next n out s r k ∧ ∑ i ∈ Finset.range n, k i = m

theorem Composes.exists_left {xs : List σ} {input : List α} (h : Composes next xs input out)
    (hne : xs ≠ []) : ∃ m, Left next xs.length out (Line.start xs input) m := by
  obtain ⟨r, k, hs⟩ := h.exists_inv hne
  exact ⟨_, r, k, hs, rfl⟩

theorem Left.step {m : ℕ} (hs : Left next n out s m) (h : s.step next n capacity i = some s') :
    ∃ m' < m, Left next n out s' m' := by
  obtain ⟨r, k, hs, rfl⟩ := hs
  obtain ⟨r', k', hs', hlt⟩ := hs.step h
  exact ⟨_, hlt, r', k', hs', rfl⟩

theorem Left.isPrefix {m : ℕ} (hs : Left next n out s m) : s.output <+: out := by
  obtain ⟨r, k, hs, -⟩ := hs
  exact ⟨_, hs.output⟩

/-- When all filters have ended, everything is written. -/
theorem Left.output_eq {m : ℕ} (hs : Left next n out s m) (hn : 0 < n)
    (hended : ∀ i < n, s.filter i = none) : s.output = out := by
  obtain ⟨r, k, hs, -⟩ := hs
  have hwrites := hs.writes (n - 1) (by omega)
  rw [hended _ (by omega)] at hwrites
  rw [← hs.output, hwrites.2, List.append_nil]

end Line

end Sysopy.Filters
