import Sysopy.Rows.Calls
import Sysopy.Rows.Decoding
import Mathlib.Data.Finset.Lattice.Fold
import Mathlib.Data.Fintype.Basic

/-!
# Producers and one consumer

Every producer copies its file into the FIFO, chunk by chunk, as records of its
row; the consumer appends the texts to the rows of its output file. When it has
read the end of the FIFO, the output file has the contents of the input files in
their rows.
-/
namespace Sysopy.Rows

open Transition CInteger CString

/-- The arguments of a producer, with the contents of its file. The buffer has `n + 1` bytes,
as an `int`. -/
structure Producer where
  row : List UInt8
  content : List UInt8
  n : ℕ
  row_clean : SEP ∉ row
  row_pos : 1 ≤ rowno row
  no_separator : SEP ∉ content
  no_nul : 0 ∉ content
  n_pos : 1 ≤ n
  n_lt : n < INT_MAX

namespace Producer

/-- The row number, as the consumer reads it. -/
def number (p : Producer) : ℤ := rowno p.row

/-- The result of the next `fread`. -/
def chunk (p : Producer) (pos : ℕ) : List UInt8 := (p.content.drop pos).take p.n

theorem mem_content {p : Producer} {pos : ℕ} {b : UInt8} (hb : b ∈ p.chunk pos) : b ∈ p.content :=
  List.mem_of_mem_drop (List.mem_of_mem_take hb)

/-- The record written after an `fread` that returned bytes. -/
def record (p : Producer) (pos : ℕ) (h : p.chunk pos ≠ []) : Record :=
  ⟨p.row, p.chunk pos, p.row_clean, fun hmem => p.no_separator (mem_content hmem), h⟩

theorem take_append_chunk (p : Producer) (pos : ℕ) :
    p.content.take pos ++ p.chunk pos = p.content.take (pos + (p.chunk pos).length) := by
  rw [chunk, List.take_add]
  congr 1
  rw [List.length_take, List.take_eq_take_min]

theorem pos_add_chunk_le {p : Producer} {pos : ℕ} (hpos : pos ≤ p.content.length) :
    pos + (p.chunk pos).length ≤ p.content.length := by
  simp only [chunk, List.length_take, List.length_drop]
  omega

theorem length_le_of_chunk_eq_nil {p : Producer} {pos : ℕ} (h : p.chunk pos = []) :
    p.content.length ≤ pos := by
  have hn := p.n_pos
  rcases List.take_eq_nil_iff.mp h with hzero | hdrop
  · omega
  · exact List.drop_eq_nil_iff.mp hdrop

end Producer

variable {P : ℕ}

structure State (P : ℕ) where
  pos : Fin P → ℕ
  isOpen : Fin P → Bool
  pipe : Pipe.State 1

/-- All producers have opened the FIFO. -/
def start : State P := ⟨fun _ => 0, fun _ => true, Pipe.start⟩

inductive Action (P : ℕ)
  | produce (p : Fin P)
  | consume

/-- One iteration of the loop of a producer, or its `close`, which is the end of the
FIFO when no other producer has it open; or one `read` of the consumer. -/
def step (producers : Fin P → Producer) (s : State P) : Action P → Option (State P)
  | .produce p =>
    if s.isOpen p then
      if h : (producers p).chunk (s.pos p) ≠ [] then
        (Pipe.step s.pipe (.write ((producers p).record (s.pos p) h))).map fun pipe =>
          { s with
            pos := Function.update s.pos p (s.pos p + ((producers p).chunk (s.pos p)).length)
            pipe := pipe }
      else
        let isOpen := Function.update s.isOpen p false
        if ∀ q, isOpen q = false then
          (Pipe.step s.pipe .close).map fun pipe => { s with isOpen := isOpen, pipe := pipe }
        else some { s with isOpen := isOpen }
    else none
  | .consume => (Pipe.step s.pipe (.read 0 none)).map fun pipe => { s with pipe := pipe }

def State.output (junk : UInt8) (s : State P) : List UInt8 :=
  (outputOf junk s.pipe.pairs).original.bytes

/-- The consumer has read the end of the FIFO and left its loop. -/
def State.Finished (s : State P) : Prop := s.pipe.reader 0 = .ended

/-- The content of the file for row `r`, or an empty row. -/
def rowContent (producers : Fin P → Producer) (r : ℕ) : List UInt8 :=
  (((List.finRange P).find? fun p => (producers p).number = r).map
    fun p => (producers p).content).getD []

/-- The rows `0, …, last`, joined by newlines. -/
def joinedContents (producers : Fin P → Producer) (last : ℕ) : List UInt8 :=
  [NEWLINE].intercalate ((List.range (last + 1)).map (rowContent producers))

/-- The largest row number of the producers whose file is not empty. -/
def lastRow (producers : Fin P → Producer) : ℕ :=
  (Finset.univ.filter fun p => (producers p).content ≠ []).sup fun p => (producers p).number.toNat

/-! ## The output file after a sequence of records -/

/-- The texts of the records of a row, one after the other. -/
def rowsOf (rs : List Record) (row : ℕ) : List UInt8 :=
  (rs.filter fun r => rowno r.row = row).flatMap Record.text

/-- The largest row number of the records. -/
def lastOf (rs : List Record) : ℕ := rs.foldl (fun last r => max last (rowno r.row).toNat) 0

/-- The records that a producer writes. -/
def WellFormed (r : Record) : Prop := 1 ≤ rowno r.row ∧ 0 ∉ r.text

theorem WellFormed.proper {r : Record} (hr : WellFormed r) : Proper r.pair := hr

theorem rowsOf_eq_textsOf (rs : List Record) : rowsOf rs = textsOf (rs.map Record.pair) := by
  funext row
  rw [rowsOf, textsOf, List.filter_map, List.flatMap_map]
  rfl

theorem lastOf_eq_lastCalled (rs : List Record) : lastOf rs = lastCalled (rs.map Record.pair) := by
  rw [lastOf, lastCalled, List.foldl_map]
  rfl

theorem rowsOf_concat (rs : List Record) {r : Record} (hr : WellFormed r) :
    rowsOf (rs ++ [r]) = Function.update (rowsOf rs) (rowno r.row).toNat
      (rowsOf rs (rowno r.row).toNat ++ r.text) := by
  rw [rowsOf_eq_textsOf, List.map_append, List.map_singleton, textsOf_concat _ hr.proper,
    rowsOf_eq_textsOf]
  rfl

theorem lastOf_concat (rs : List Record) (r : Record) :
    lastOf (rs ++ [r]) = max (lastOf rs) (rowno r.row).toNat := by
  simp [lastOf]

theorem proper_pairs {rs : List Record} (hrs : ∀ r ∈ rs, WellFormed r) :
    ∀ call ∈ rs.map Record.pair, Proper call :=
  List.forall_mem_map.mpr fun r hr => (hrs r hr).proper

theorem rowsOf_unused {rs : List Record} (hrs : ∀ r ∈ rs, WellFormed r) {row : ℕ}
    (hrow : lastOf rs < row) : rowsOf rs row = [] := by
  rw [lastOf_eq_lastCalled] at hrow
  rw [rowsOf_eq_textsOf, textsOf_unused (proper_pairs hrs) hrow]

theorem holds_outputOf (junk : UInt8) {rs : List Record} (hrs : ∀ r ∈ rs, WellFormed r)
    (hsize : (joined (rowsOf rs) (lastOf rs)).length < 2 ^ 31) :
    Holds (rowsOf rs) (lastOf rs) (outputOf junk (rs.map Record.pair)) := by
  rw [rowsOf_eq_textsOf, lastOf_eq_lastCalled] at hsize ⊢
  exact holds_calls junk (proper_pairs hrs) hsize

/-! ## Runs -/

structure Inv (producers : Fin P → Producer) (s : State P) : Prop where
  pipe : Pipe.Inv s.pipe
  senders : ∀ r ∈ s.pipe.sent, ∃ p, r.row = (producers p).row ∧ r.text ⊆ (producers p).content
  pos : ∀ p, s.pos p ≤ (producers p).content.length
  written : ∀ p, rowsOf s.pipe.sent (producers p).number.toNat =
    (producers p).content.take (s.pos p)
  finished : ∀ p, s.isOpen p = false → s.pos p = (producers p).content.length
  closed : s.pipe.closed = true → ∀ p, s.isOpen p = false

variable {producers : Fin P → Producer}

theorem inv_start : Inv producers (start : State P) where
  pipe := Pipe.inv_start
  senders _ hr := absurd hr List.not_mem_nil
  pos _ := Nat.zero_le _
  written _ := rfl
  finished _ h := by cases h
  closed h := by cases h

theorem Inv.wellFormed {s : State P} (hs : Inv producers s) {r : Record}
    (hr : r ∈ s.pipe.sent) : WellFormed r := by
  obtain ⟨p, hrow, htext⟩ := hs.senders r hr
  exact ⟨hrow ▸ (producers p).row_pos, fun h0 => (producers p).no_nul (htext h0)⟩

theorem Inv.write {s : State P} (hs : Inv producers s)
    (hdistinct : Function.Injective fun p => (producers p).number) {p : Fin P}
    (h : (producers p).chunk (s.pos p) ≠ []) (q : Fin P) :
    rowsOf (s.pipe.sent ++ [(producers p).record (s.pos p) h]) (producers q).number.toNat =
      (producers q).content.take
        (Function.update s.pos p (s.pos p + ((producers p).chunk (s.pos p)).length) q) := by
  have hposq : 1 ≤ (producers q).number := (producers q).row_pos
  have hposp : 1 ≤ (producers p).number := (producers p).row_pos
  have hgood : WellFormed ((producers p).record (s.pos p) h) :=
    ⟨hposp, fun h0 => (producers p).no_nul (Producer.mem_content h0)⟩
  rw [rowsOf_concat _ hgood]
  change Function.update (rowsOf s.pipe.sent) (producers p).number.toNat
    (rowsOf s.pipe.sent (producers p).number.toNat ++ (producers p).chunk (s.pos p)) _ = _
  by_cases hq : q = p
  · subst hq
    rw [Function.update_self, Function.update_self, hs.written, Producer.take_append_chunk]
  · have hnumber : (producers q).number ≠ (producers p).number := fun heq => hq (hdistinct heq)
    rw [Function.update_of_ne (by omega), Function.update_of_ne hq, hs.written]

theorem Inv.closing {s : State P} (hs : Inv producers s) {p : Fin P}
    (hchunk : (producers p).chunk (s.pos p) = []) (q : Fin P)
    (hq : Function.update s.isOpen p false q = false) :
    s.pos q = (producers q).content.length := by
  by_cases hqp : q = p
  · subst hqp
    exact le_antisymm (hs.pos q) (Producer.length_le_of_chunk_eq_nil hchunk)
  · rw [Function.update_of_ne hqp] at hq
    exact hs.finished q hq

theorem Inv.step (hdistinct : Function.Injective fun p => (producers p).number)
    {s s' : State P} {a : Action P} (hs : Inv producers s) (h : step producers s a = some s') :
    Inv producers s' := by
  cases a with
  | consume =>
    obtain ⟨pipe, hpipe, rfl⟩ := Option.map_eq_some_iff.mp h
    have hsame : pipe.sent = s.pipe.sent ∧ pipe.closed = s.pipe.closed := Pipe.step_read_same hpipe
    have hundisturbed := Pipe.undisturbed_of_one s.pipe (Pipe.inPlace_read 0)
    refine ⟨hs.pipe.step hundisturbed hpipe, ?_, hs.pos, ?_, hs.finished, ?_⟩
    · rw [hsame.1]
      exact hs.senders
    · rw [hsame.1]
      exact hs.written
    · rw [hsame.2]
      exact hs.closed
  | produce p =>
    simp only [Rows.step] at h
    split_ifs at h with hopen hchunk hall
    · -- a record
      obtain ⟨pipe, hpipe, rfl⟩ := Option.map_eq_some_iff.mp h
      have hpipe' := hs.pipe.step (Pipe.undisturbed_of_one (a := .write _) _ trivial) hpipe
      simp only [Pipe.step] at hpipe
      split_ifs at hpipe with hclosed
      rw [Option.some.injEq] at hpipe
      subst hpipe
      refine ⟨hpipe', fun r hr => ?_, fun q => ?_, hs.write hdistinct hchunk, fun q hq => ?_, ?_⟩
      · rcases List.mem_append.mp hr with hr | hr
        · exact hs.senders r hr
        · obtain rfl := List.mem_singleton.mp hr
          exact ⟨p, rfl, fun _ => Producer.mem_content⟩
      · by_cases hq : q = p
        · subst hq
          simpa using Producer.pos_add_chunk_le (hs.pos q)
        · simpa [hq] using hs.pos q
      · have hne : q ≠ p := by
          rintro rfl
          exact Bool.noConfusion (hopen.symm.trans hq)
        simpa [hne] using hs.finished q hq
      · exact hs.closed
    · -- the last producer closes the FIFO
      obtain ⟨pipe, hpipe, rfl⟩ := Option.map_eq_some_iff.mp h
      have hpipe' := hs.pipe.step (Pipe.undisturbed_of_one (a := .close) _ trivial) hpipe
      simp only [Pipe.step, Option.some.injEq] at hpipe
      subst hpipe
      exact ⟨hpipe', hs.senders, hs.pos, hs.written, hs.closing (not_not.mp hchunk), fun _ => hall⟩
    · -- another producer still has it open
      rw [Option.some.injEq] at h
      subst h
      refine ⟨hs.pipe, hs.senders, hs.pos, hs.written, hs.closing (not_not.mp hchunk), ?_⟩
      intro hclosed
      exact Bool.noConfusion (hopen.symm.trans (hs.closed hclosed p))

/-! ## The finished output -/

theorem rowContent_number (hdistinct : Function.Injective fun p => (producers p).number)
    (p : Fin P) : rowContent producers (producers p).number.toNat = (producers p).content := by
  have hpos : 1 ≤ (producers p).number := (producers p).row_pos
  unfold rowContent
  cases hfind : (List.finRange P).find?
      fun q => (producers q).number = ((producers p).number.toNat : ℤ) with
  | none =>
    have hnone := List.find?_eq_none.mp hfind p (List.mem_finRange p)
    simp at hnone
    omega
  | some q =>
    have hq := List.find?_some hfind
    have hnumber : (producers q).number = (producers p).number := by
      simp only [decide_eq_true_eq] at hq
      omega
    obtain rfl := hdistinct hnumber
    rfl

theorem rowContent_of_forall_ne {r : ℕ} (h : ∀ p, (producers p).number ≠ r) :
    rowContent producers r = [] := by
  have hnone : (List.finRange P).find? (fun p => (producers p).number = (r : ℤ)) = none :=
    List.find?_eq_none.mpr fun p _ => by simpa using h p
  rw [rowContent, hnone]
  rfl

theorem lastOf_le_iff (rs : List Record) (n : ℕ) :
    lastOf rs ≤ n ↔ ∀ r ∈ rs, (rowno r.row).toNat ≤ n := by
  induction rs using List.reverseRecOn with
  | nil => simp [lastOf]
  | append_singleton rs r ih =>
    rw [lastOf_concat, max_le_iff, ih]
    constructor
    · rintro ⟨hrs, hr⟩ r' hr'
      rcases List.mem_append.mp hr' with hr' | hr'
      · exact hrs r' hr'
      · exact List.mem_singleton.mp hr' ▸ hr
    · intro h
      exact ⟨fun r' hr' => h r' (by simp [hr']), h r (by simp)⟩

/-- At the end of the FIFO all records are read, and all files are written. -/
theorem Inv.of_finished {s : State P} (hs : Inv producers s) (hfinished : s.Finished) :
    (∀ p, s.pos p = (producers p).content.length) ∧
    ∃ k, s.pipe.pairs = s.pipe.sent.map Record.pair ++ List.replicate k (0, []) := by
  cases hs.pipe with
  | between done rest hsent hcalls hfifo hreader =>
    rw [State.Finished, hreader] at hfinished
    cases hfinished
  | within c r done rest unread hsent hcalls hfifo hreading hmiddle hreader =>
    rw [Subsingleton.elim c 0, hfinished] at hmiddle
    exact hmiddle.elim
  | ending k hclosed hfifo hcalls hreader =>
    exact ⟨fun p => hs.finished p (hs.closed hclosed p), k, hcalls⟩

theorem Inv.rowsOf_eq (hdistinct : Function.Injective fun p => (producers p).number)
    {s : State P} (hs : Inv producers s) (hpos : ∀ p, s.pos p = (producers p).content.length) :
    rowsOf s.pipe.sent = rowContent producers := by
  funext row
  by_cases hrow : ∃ p, (producers p).number = row
  · obtain ⟨p, hp⟩ := hrow
    have hnat : row = (producers p).number.toNat := by omega
    rw [hnat, rowContent_number hdistinct, hs.written, hpos, List.take_length]
  · have hne : ∀ p, (producers p).number ≠ row := fun p hp => hrow ⟨p, hp⟩
    have hnone : s.pipe.sent.filter (fun r => rowno r.row = row) = [] := by
      rw [List.filter_eq_nil_iff]
      intro r hr
      obtain ⟨p, hp, _⟩ := hs.senders r hr
      simpa [hp, Producer.number] using hne p
    rw [rowContent_of_forall_ne hne, rowsOf, hnone, List.flatMap_nil]

theorem Inv.lastOf_eq {s : State P} (hs : Inv producers s)
    (hpos : ∀ p, s.pos p = (producers p).content.length) :
    lastOf s.pipe.sent = lastRow producers := by
  apply le_antisymm
  · rw [lastOf_le_iff]
    intro r hr
    obtain ⟨p, hrow, htext⟩ := hs.senders r hr
    have hcontent : (producers p).content ≠ [] := by
      obtain ⟨b, hb⟩ := List.exists_mem_of_ne_nil _ r.text_ne_nil
      exact List.ne_nil_of_mem (htext hb)
    rw [hrow]
    exact Finset.le_sup (f := fun q => (producers q).number.toNat)
      (Finset.mem_filter.mpr ⟨Finset.mem_univ p, hcontent⟩)
  · apply Finset.sup_le
    intro p hp
    by_contra hlt
    have hempty := rowsOf_unused (fun r hr => hs.wellFormed hr) (not_le.mp hlt)
    rw [hs.written, hpos, List.take_length] at hempty
    exact (Finset.mem_filter.mp hp).2 hempty

/-- When the consumer has read the end of the FIFO, its output file consists of the
contents of the files, in the rows of their producers. -/
theorem output_eq_joinedContents (P : ℕ) (producers : Fin P → Producer)
    (hdistinct : Function.Injective fun p => (producers p).number)
    (hsize : (joinedContents producers (lastRow producers)).length < 2 ^ 31) (junk : UInt8)
    (schedule : List (Action P)) (s : State P)
    (hrun : exec (step producers) start schedule = some s) (hfinished : s.Finished) :
    s.output junk = joinedContents producers (lastRow producers) := by
  have hs : Inv producers s := exec_invariant' (fun _ _ _ hs h => hs.step hdistinct h) inv_start hrun
  obtain ⟨hpos, k, hpairs⟩ := hs.of_finished hfinished
  have hrows := hs.rowsOf_eq hdistinct hpos
  have hlast := hs.lastOf_eq hpos
  rw [joinedContents, intercalate_rows, ← hrows, ← hlast] at hsize ⊢
  have hwritten := holds_outputOf junk (fun r hr => hs.wellFormed hr) hsize
  rw [State.output, hpairs]
  exact (hwritten.endCalls junk hsize k).bytes

/-- The producers of the rows 1 and 3 take turns; the second file comes in two chunks. -/
def twoProducers : Fin 2 → Producer
  | 0 => ⟨[49], [97], 2, Pipe.recordA.row_clean, by decide, Pipe.recordA.text_clean, by decide,
    by decide, by decide⟩
  | 1 => ⟨[51], [98, 99], 1, by decide, by decide, by decide, by decide, by decide, by decide⟩

def twoProducersSchedule : List (Action 2) :=
  [.produce 1, .produce 0, .produce 0, .produce 1, .produce 1] ++ List.replicate 14 .consume

theorem output_of_twoProducers :
    ∃ s, exec (step twoProducers) start twoProducersSchedule = some s ∧
      s.output 0 = [10, 97, 10, 10, 98, 99] := by
  refine ⟨_, rfl, ?_⟩
  rw [output_eq_joinedContents 2 twoProducers (by decide +kernel) (by decide +kernel) 0
    twoProducersSchedule _ rfl rfl]
  decide +kernel

/-! ## Empty files and files of 2 GiB -/

theorem exec_consume (producers : Fin P → Producer) (s : State P) {k : ℕ} {pipe : Pipe.State 1}
    (h : exec Pipe.step s.pipe (List.replicate k (.read 0 none)) = some pipe) :
    exec (step producers) s (List.replicate k .consume) = some { s with pipe := pipe } := by
  induction k generalizing s with
  | zero =>
    rw [List.replicate_zero, exec_nil, Option.some.injEq] at h
    rw [List.replicate_zero, exec_nil, ← h]
  | succ k ih =>
    rw [List.replicate_succ] at h ⊢
    obtain ⟨pipe', hstep, hrest⟩ := exec_cons_eq_some.mp h
    exact exec_cons_eq_some.mpr
      ⟨{ s with pipe := pipe' }, by simp [Rows.step, hstep], ih { s with pipe := pipe' } hrest⟩

/-- A producer of row 2 whose file is empty. -/
def emptyProducer : Producer :=
  ⟨[50], [], 1, Pipe.recordB.row_clean, by decide, by decide, by decide, by decide, by decide⟩

/-- A producer of row 1 whose file has two chunks, of `m + 1` and of `m` bytes. -/
def longProducer {m : ℕ} (hm : m + 2 < 2 ^ 31) : Producer where
  row := [49]
  content := List.replicate (m + 1 + m) 97
  n := m + 1
  row_clean := Pipe.recordA.row_clean
  row_pos := by decide
  no_separator h := absurd (List.eq_of_mem_replicate h) (by decide)
  no_nul h := absurd (List.eq_of_mem_replicate h) (by decide)
  n_pos := Nat.le_add_left 1 m
  n_lt := by simp only [INT_MAX]; omega

theorem chunk_longProducer {m : ℕ} (hm : m + 2 < 2 ^ 31) (pos : ℕ) :
    (longProducer hm).chunk pos = List.replicate (min (m + 1) (m + 1 + m - pos)) 97 := by
  simp [Producer.chunk, longProducer]

theorem step_write (producers : Fin P → Producer) {s : State P} {p : Fin P} (hopen : s.isOpen p = true)
    (hclosed : s.pipe.closed = false) (h : (producers p).chunk (s.pos p) ≠ []) :
    ∃ s', step producers s (.produce p) = some s' ∧
      s'.pos p = s.pos p + ((producers p).chunk (s.pos p)).length ∧ s'.isOpen = s.isOpen ∧
      s'.pipe.closed = false ∧ s'.pipe.sent.map Record.pair =
        s.pipe.sent.map Record.pair ++ [((producers p).number, (producers p).chunk (s.pos p))] := by
  simp [Rows.step, hopen, h, Pipe.step, hclosed, Producer.record, Record.pair, Producer.number]

theorem exists_longRun {m : ℕ} (hm : m + 2 < 2 ^ 31) (hpos : 0 < m) : ∃ schedule s k,
    exec (step fun _ : Fin 1 => longProducer hm) start schedule = some s ∧ s.Finished ∧
    s.pipe.pairs = [(1, List.replicate (m + 1) 97), (1, List.replicate m 97)] ++
      List.replicate k (0, []) := by
  have hwrite : ∃ s, exec (step fun _ : Fin 1 => longProducer hm) start
      [.produce 0, .produce 0, .produce 0] = some s ∧ s.pipe.closed = true ∧
      s.pipe.sent.map Record.pair =
        [(1, List.replicate (m + 1) 97), (1, List.replicate m 97)] := by
    have hnumber : (longProducer hm).number = 1 := by
      change rowno [49] = 1
      decide
    have h₁ := chunk_longProducer hm 0
    have h₂ := chunk_longProducer hm (m + 1)
    have h₃ := chunk_longProducer hm (m + 1 + m)
    rw [Nat.sub_zero, min_eq_left (Nat.le_add_right _ _)] at h₁
    rw [Nat.add_sub_cancel_left, min_eq_right (Nat.le_succ _)] at h₂
    rw [Nat.sub_self, Nat.min_zero, List.replicate_zero] at h₃
    have hpos₀ : (start : State 1).pos 0 = 0 := rfl
    obtain ⟨s₁, hs₁, hpos₁, hopen₁, hclosed₁, hsent₁⟩ :=
      step_write (fun _ => longProducer hm) (rfl : (start : State 1).isOpen 0 = true) rfl
        (by rw [hpos₀, h₁]; simp)
    rw [hpos₀, h₁, List.length_replicate, Nat.zero_add] at hpos₁
    obtain ⟨s₂, hs₂, hpos₂, hopen₂, hclosed₂, hsent₂⟩ :=
      step_write (fun _ => longProducer hm) (p := 0) (by rw [hopen₁]; rfl) hclosed₁
        (by rw [hpos₁, h₂]; simpa using hpos.ne')
    rw [hpos₁, h₂, List.length_replicate] at hpos₂
    have hs₃ : step (fun _ => longProducer hm) s₂ (.produce 0) =
        some { s₂ with isOpen := Function.update s₂.isOpen 0 false
                       pipe := { s₂.pipe with closed := true } } := by
      have hopen : s₂.isOpen 0 = true := by rw [hopen₂, hopen₁]; rfl
      have hall : ∀ q, Function.update s₂.isOpen 0 false q = false := fun q => by
        rw [Subsingleton.elim q 0, Function.update_self]
      simp [Rows.step, hopen, hpos₂, h₃, Pipe.step, hall]
    refine ⟨_, exec_cons_eq_some.mpr ⟨s₁, hs₁, exec_cons_eq_some.mpr ⟨s₂, hs₂,
      exec_cons_eq_some.mpr ⟨_, hs₃, rfl⟩⟩⟩, rfl, ?_⟩
    change s₂.pipe.sent.map Record.pair = _
    rw [hsent₂, hsent₁, hpos₀, hpos₁, h₁, h₂, hnumber]
    rfl
  obtain ⟨s, hrun, hclosed, hsent⟩ := hwrite
  have hdistinct : Function.Injective fun _ : Fin 1 => (longProducer hm).number :=
    fun p q _ => Subsingleton.elim p q
  have hs : Inv (fun _ => longProducer hm) s :=
    exec_invariant' (fun _ _ _ hs h => hs.step hdistinct h) inv_start hrun
  obtain ⟨k, pipe, hreads, hended, hsame, _⟩ := hs.pipe.exists_reads hclosed
  have hrun' := exec_append.mpr ⟨s, hrun, exec_consume (fun _ => longProducer hm) s hreads⟩
  have hs' : Inv (fun _ => longProducer hm) { s with pipe := pipe } :=
    exec_invariant' (fun _ _ _ hs h => hs.step hdistinct h) inv_start hrun'
  obtain ⟨_, j, hpairs⟩ := hs'.of_finished hended
  refine ⟨_, _, j, hrun', hended, ?_⟩
  rw [hpairs]
  change pipe.sent.map Record.pair ++ _ = _
  rw [hsame, hsent]

theorem length_longOutput {m : ℕ} (hm : m + 2 < 2 ^ 31) :
    (joinedContents (fun _ : Fin 1 => longProducer hm)
      (lastRow fun _ : Fin 1 => longProducer hm)).length = 2 * m + 2 := by
  have hnumber : (longProducer hm).number.toNat = 1 := by
    change (rowno [49]).toNat = 1
    decide
  have hlast : (lastRow fun _ : Fin 1 => longProducer hm) = 1 := by
    have hcontent : (longProducer hm).content ≠ [] := by simp [longProducer]
    simp [lastRow, hnumber, hcontent]
  have hrow0 : rowContent (fun _ : Fin 1 => longProducer hm) 0 = [] :=
    rowContent_of_forall_ne fun p => by omega
  have hrow1 : rowContent (fun _ : Fin 1 => longProducer hm) (longProducer hm).number.toNat =
      (longProducer hm).content := rowContent_number (fun p q _ => Subsingleton.elim p q) 0
  have hlength : (longProducer hm).content.length = m + 1 + m := List.length_replicate
  rw [hnumber] at hrow1
  rw [hlast, joinedContents, intercalate_rows]
  simp only [joined, lead, List.range_succ, List.range_zero, List.nil_append, List.flatMap_cons,
    List.flatMap_nil, List.append_nil, hrow0, hrow1, List.length_append, List.length_singleton,
    hlength]
  omega

/-- Row 2 of an empty file is not made, and a file of 2 GiB is not written. -/
theorem not_output_eq_joinedContents :
    (¬ ∀ (P : ℕ) (producers : Fin P → Producer),
      (Function.Injective fun p => (producers p).number) → ∀ (junk : UInt8)
      (schedule : List (Action P)) (s : State P), exec (step producers) start schedule = some s →
      s.Finished → s.output junk =
        joinedContents producers (Finset.univ.sup fun p => (producers p).number.toNat)) ∧
    ¬ ∀ (P : ℕ) (producers : Fin P → Producer),
      (Function.Injective fun p => (producers p).number) → ∀ (junk : UInt8)
      (schedule : List (Action P)) (s : State P), exec (step producers) start schedule = some s →
      s.Finished → s.output junk = joinedContents producers (lastRow producers) := by
  constructor
  · intro hclaim
    have hfalse := hclaim 1 (fun _ => emptyProducer) (by decide) 0
      [.produce 0, .consume, .consume] _ rfl rfl
    exact absurd hfalse (by decide +kernel)
  · intro hclaim
    have hm : 2 ^ 30 - 1 + 2 < 2 ^ 31 := by norm_num
    obtain ⟨schedule, s, k, hrun, hfinished, hpairs⟩ := exists_longRun hm (by norm_num)
    have hdistinct : Function.Injective fun _ : Fin 1 => (longProducer hm).number :=
      fun p q _ => Subsingleton.elim p q
    have houtput := congrArg List.length
      (hclaim 1 (fun _ => longProducer hm) hdistinct 0 schedule s hrun hfinished)
    rw [State.output, hpairs, outputOf_longRun 0 (by norm_num), length_longOutput] at houtput
    omega

end Sysopy.Rows
