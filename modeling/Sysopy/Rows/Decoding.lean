import Sysopy.Rows.Pipe
import Mathlib.Data.List.Perm.Subperm

/-!
# Records read by several consumers

As long as no consumer reads a byte while another one is in the middle of a
record, and no block of a field moves, the consumers share the records between them:
what they have decoded is the sequence of the records whose bytes are read.
-/
namespace Sysopy.Rows.Pipe

open Transition

variable {M : ℕ}

/-- The consumer has read a part of a record. -/
def InMiddle : Reader → Prop
  | .number data => data ≠ []
  | .text _ _ => True
  | .ended => False

instance : DecidablePred InMiddle
  | .number data => inferInstanceAs (Decidable (data ≠ []))
  | .text _ _ => isTrue trivial
  | .ended => isFalse id

/-- A consumer that reads a byte is alone: no other one is in the middle of a record. -/
def Alone (s : State M) : Action M → Prop
  | .read c _ => s.fifo ≠ [] → ∀ c', c' ≠ c → ¬ InMiddle (s.reader c')
  | _ => True

instance (s : State M) : DecidablePred (Alone s)
  | .read c _ => inferInstanceAs (Decidable (s.fifo ≠ [] → ∀ c', c' ≠ c → ¬ InMiddle (s.reader c')))
  | .write _ => isTrue trivial
  | .close => isTrue trivial

/-- A consumer reads alone, and finds what it has read. -/
def Undisturbed (s : State M) (a : Action M) : Prop := Alone s a ∧ InPlace a

instance (s : State M) : DecidablePred (Undisturbed s) := fun _ =>
  inferInstanceAs (Decidable (_ ∧ _))

/-- A consumer is in the middle of record `r`, and `unread` are the bytes it still needs. -/
inductive Reading (r : Record) : Reader → List UInt8 → Prop
  | number (data tail : List UInt8) (hrow : r.row = data ++ tail) :
      Reading r (.number data) (tail ++ SEP :: (r.text ++ [SEP]))
  | text (data tail : List UInt8) (htext : r.text = data ++ tail) :
      Reading r (.text (rowno r.row) data) (tail ++ [SEP])

theorem Reading.start (r : Record) : Reading r (.number []) r.bytes := .number [] r.row rfl

/-- One byte brings a consumer further in its record, or to the end of it. -/
theorem Reading.advance {r : Record} {s : State M} {c : Fin M} {b : UInt8} {unread : List UInt8}
    (h : Reading r (s.reader c) (b :: unread)) :
    ∃ reader calls, s.advance c (some b) none = some { s.moveReader c reader with calls := calls } ∧
      (Reading r reader unread ∧ InMiddle reader ∧ calls = s.calls ∨
        unread = [] ∧ reader = .number [] ∧ calls = s.calls ++ [(c, r.pair)]) := by
  generalize hreader : s.reader c = reader at h
  generalize hbytes : b :: unread = bytes at h
  cases h with
  | number data tail hrow =>
    cases tail with
    | nil =>
      obtain ⟨rfl, rfl⟩ := List.cons.inj hbytes
      refine ⟨.text (rowno data) [], s.calls, ?_, .inl ⟨?_, trivial, rfl⟩⟩
      · simp [State.advance, hreader, State.moveReader]
      · rw [List.append_nil] at hrow
        rw [← hrow]
        exact .text [] r.text rfl
    | cons b' tail =>
      obtain ⟨rfl, rfl⟩ := List.cons.inj hbytes
      have hb : b ≠ SEP := fun h => r.row_clean (by simp [hrow, h])
      refine ⟨.number (data ++ [b]), s.calls, ?_, .inl ⟨?_, by simp [InMiddle], rfl⟩⟩
      · simp [State.advance, hreader, continuing_of_ne hb, State.moveReader]
      · exact .number (data ++ [b]) tail (by simp [hrow])
  | text data tail htext =>
    cases tail with
    | nil =>
      obtain ⟨rfl, rfl⟩ := List.cons.inj hbytes
      rw [List.append_nil] at htext
      subst htext
      have hlen : 0 < r.text.length := List.length_pos_of_ne_nil r.text_ne_nil
      refine ⟨.number [], s.calls ++ [(c, r.pair)], ?_, .inr ⟨rfl, rfl, rfl⟩⟩
      simp [State.advance, hreader, State.moveReader, hlen, Record.pair]
    | cons b' tail =>
      obtain ⟨rfl, rfl⟩ := List.cons.inj hbytes
      have hb : b ≠ SEP := fun h => r.text_clean (by simp [htext, h])
      refine ⟨.text (rowno r.row) (data ++ [b]), s.calls, ?_, .inl ⟨?_, trivial, rfl⟩⟩
      · simp [State.advance, hreader, continuing_of_ne hb, State.moveReader]
      · exact .text (data ++ [b]) tail (by simp [htext])

/-- The bytes of a sequence of records. -/
def stream (rs : List Record) : List UInt8 := rs.flatMap Record.bytes

/-- The three phases of a run without a clash: no consumer is in the middle of a
record, one is, or all bytes are read and the producers are gone. -/
inductive Inv (s : State M) : Prop
  | between (done rest : List Record) (hsent : s.sent = done ++ rest)
      (hcalls : s.pairs = done.map Record.pair) (hfifo : s.fifo = stream rest)
      (hreader : ∀ c, s.reader c = .number [])
  | within (c : Fin M) (r : Record) (done rest : List Record) (unread : List UInt8)
      (hsent : s.sent = done ++ r :: rest) (hcalls : s.pairs = done.map Record.pair)
      (hfifo : s.fifo = unread ++ stream rest) (hreading : Reading r (s.reader c) unread)
      (hmiddle : InMiddle (s.reader c)) (hreader : ∀ c', c' ≠ c → s.reader c' = .number [])
  | ending (k : ℕ) (hclosed : s.closed = true) (hfifo : s.fifo = [])
      (hcalls : s.pairs = s.sent.map Record.pair ++ List.replicate k (0, []))
      (hreader : ∀ c, s.reader c = .number [] ∨ s.reader c = .text 0 [] ∨ s.reader c = .ended)

theorem inv_start : Inv (start : State M) := .between [] [] rfl rfl rfl fun _ => rfl

theorem Reading.ne_nil {r : Record} {reader : Reader} {unread : List UInt8}
    (h : Reading r reader unread) : unread ≠ [] := by
  cases h <;> simp

theorem Inv.of_advance {s s' : State M} {c : Fin M} {r : Record} {b : UInt8}
    {unread : List UInt8} {done rest : List Record} (h : s.advance c (some b) none = some s')
    (hreading : Reading r (s.reader c) (b :: unread)) (hsent : s.sent = done ++ r :: rest)
    (hcalls : s.pairs = done.map Record.pair) (hfifo : s.fifo = unread ++ stream rest)
    (hreader : ∀ c', c' ≠ c → s.reader c' = .number []) : Inv s' := by
  obtain ⟨reader, calls, hadvance, hcase⟩ := hreading.advance
  rw [hadvance, Option.some.injEq] at h
  subst h
  rcases hcase with ⟨hreading', hmiddle, rfl⟩ | ⟨rfl, rfl, rfl⟩
  · refine .within c r done rest unread hsent hcalls hfifo ?_ ?_ fun c' hc' => ?_
    · simpa [State.moveReader] using hreading'
    · simpa [State.moveReader] using hmiddle
    · simpa [State.moveReader, hc'] using hreader c' hc'
  · refine .between (done ++ [r]) rest (by simp [State.moveReader, hsent]) ?_ hfifo fun c' => ?_
    · simpa [State.pairs, State.moveReader] using hcalls
    · by_cases hc' : c' = c
      · simp [State.moveReader, hc']
      · simpa [State.moveReader, hc'] using hreader c' hc'

theorem Inv.step {s s' : State M} {a : Action M} (hs : Inv s) (hundisturbed : Undisturbed s a)
    (h : step s a = some s') : Inv s' := by
  obtain ⟨halone, hplace⟩ := hundisturbed
  cases a with
  | write record =>
    simp only [Pipe.step] at h
    split_ifs at h with hclosed
    rw [Option.some.injEq] at h
    subst h
    cases hs with
    | between done rest hsent hcalls hfifo hreader =>
      exact .between done (rest ++ [record]) (by simp [hsent]) hcalls
        (by simp [hfifo, stream]) hreader
    | within c r done rest unread hsent hcalls hfifo hreading hmiddle hreader =>
      exact .within c r done (rest ++ [record]) unread (by simp [hsent]) hcalls
        (by simp [hfifo, stream]) hreading hmiddle hreader
    | ending k hclosed' => exact absurd hclosed' hclosed
  | close =>
    simp only [Pipe.step, Option.some.injEq] at h
    subst h
    cases hs with
    | between done rest hsent hcalls hfifo hreader =>
      exact .between done rest hsent hcalls hfifo hreader
    | within c r done rest unread hsent hcalls hfifo hreading hmiddle hreader =>
      exact .within c r done rest unread hsent hcalls hfifo hreading hmiddle hreader
    | ending k hclosed hfifo hcalls hreader => exact .ending k rfl hfifo hcalls hreader
  | read c moved =>
    obtain rfl : moved = none := hplace
    simp only [Pipe.step] at h
    cases hs with
    | between done rest hsent hcalls hfifo hreader =>
      cases rest with
      | nil =>
        -- the first consumer that meets the end of the file
        simp only [hfifo, stream, List.flatMap_nil] at h
        split_ifs at h with hclosed
        simp only [State.advance, hreader c, continuing_none, Option.some.injEq] at h
        subst h
        refine .ending 0 hclosed hfifo ?_ fun c' => ?_
        · rw [List.append_nil] at hsent
          simpa [State.pairs, State.moveReader, hsent] using hcalls
        · by_cases hc' : c' = c
          · simp [State.moveReader, hc', rowno, CInteger.toInt]
          · simp [State.moveReader, hc', hreader c']
      | cons r rest =>
        obtain ⟨b, unread, hbytes⟩ := List.exists_cons_of_ne_nil (Reading.start r).ne_nil
        rw [hfifo, stream, List.flatMap_cons, hbytes, List.cons_append] at h
        have hreading := Reading.start r
        rw [hbytes, ← hreader c] at hreading
        exact Inv.of_advance h hreading hsent hcalls rfl fun c' _ => hreader c'
    | within c₀ r done rest unread hsent hcalls hfifo hreading hmiddle hreader =>
      obtain ⟨b, unread, rfl⟩ := List.exists_cons_of_ne_nil hreading.ne_nil
      have hc : c = c₀ := by
        by_contra hne
        exact halone (by simp [hfifo]) c₀ (Ne.symm hne) hmiddle
      subst hc
      rw [hfifo, List.cons_append] at h
      exact Inv.of_advance h hreading hsent hcalls rfl hreader
    | ending k hclosed hfifo hcalls hreader =>
      simp only [hfifo, hclosed, if_true] at h
      rcases hreader c with hc | hc | hc
      · simp only [State.advance, hc, continuing_none, Option.some.injEq] at h
        subst h
        refine .ending k hclosed hfifo hcalls fun c' => ?_
        by_cases hc' : c' = c
        · simp [State.moveReader, hc', rowno, CInteger.toInt]
        · simpa [State.moveReader, hc'] using hreader c'
      · simp only [State.advance, hc, continuing_none, Option.some.injEq] at h
        subst h
        refine .ending (k + 1) hclosed hfifo ?_ fun c' => ?_
        · have happend := congrArg (· ++ [((0 : ℤ), ([] : List UInt8))]) hcalls
          simpa [State.pairs, State.moveReader, List.replicate_succ'] using happend
        · by_cases hc' : c' = c
          · simp [State.moveReader, hc']
          · simpa [State.moveReader, hc'] using hreader c'
      · simp [State.advance, hc] at h

theorem advance_same {s s' : State M} {c : Fin M} {b : Option UInt8} {moved : Option (List UInt8)}
    (h : s.advance c b moved = some s') : s'.sent = s.sent ∧ s'.closed = s.closed := by
  unfold State.advance at h
  split at h
  case h_5 => cases h
  all_goals
    rw [Option.some.injEq] at h
    subst h
    exact ⟨rfl, rfl⟩

theorem step_read_same {s s' : State M} {c : Fin M} {moved : Option (List UInt8)}
    (h : Pipe.step s (.read c moved) = some s') :
    s'.sent = s.sent ∧ s'.closed = s.closed := by
  simp only [Pipe.step] at h
  split at h
  · have hsame := advance_same h
    exact hsame
  · split_ifs at h
    exact advance_same h

theorem undisturbed_of_one (s : State 1) {a : Action 1} (hplace : InPlace a) : Undisturbed s a := by
  refine ⟨?_, hplace⟩
  cases a with
  | write record => trivial
  | close => trivial
  | read c moved => exact fun _ c' hc' => absurd (Subsingleton.elim c' c) hc'

/-- The reads that a single consumer still makes, at most. -/
def remaining (s : State 1) : ℕ :=
  2 * s.fifo.length +
    match s.reader 0 with
    | .number _ => 2
    | .text _ _ => 1
    | .ended => 0

theorem Inv.exists_read {s : State 1} (hs : Inv s) (hclosed : s.closed = true)
    (hreader : s.reader 0 ≠ .ended) :
    ∃ s', Pipe.step s (.read 0 none) = some s' ∧ remaining s' < remaining s := by
  cases hfifo : s.fifo with
  | cons b fifo =>
    cases hr : s.reader 0 with
    | number data =>
      cases hb : continuing (some b) <;>
        simp [Pipe.step, hfifo, State.advance, hr, hb, remaining, State.moveReader]
    | text rowno data =>
      cases hb : continuing (some b) with
      | some b =>
        simp [Pipe.step, hfifo, State.advance, hr, hb, remaining, State.moveReader]
      | none =>
        by_cases hdata : 0 < data.length
        · simp [Pipe.step, hfifo, State.advance, hr, hb, remaining, State.moveReader, hdata]
          omega
        · simp [Pipe.step, hfifo, State.advance, hr, hb, remaining, State.moveReader, hdata]
    | ended => exact absurd hr hreader
  | nil =>
    cases hr : s.reader 0 with
    | number data =>
      simp [Pipe.step, hfifo, hclosed, State.advance, hr, remaining, State.moveReader]
    | text rowno data =>
      have hdata : data = [] := by
        cases hs with
        | between done rest hsent hcalls hfifo' hreader' =>
          rw [hreader'] at hr
          cases hr
        | within c r done rest unread hsent hcalls hfifo' hreading hmiddle hreader' =>
          rw [hfifo', List.append_eq_nil_iff] at hfifo
          exact absurd hfifo.1 hreading.ne_nil
        | ending k hclosed' hfifo' hcalls hreader' =>
          rcases hreader' 0 with h | h | h <;> rw [hr] at h <;> cases h
          rfl
      simp [Pipe.step, hfifo, hclosed, State.advance, hr, remaining, State.moveReader, hdata]
    | ended => exact absurd hr hreader

/-- So it gets to the end of the FIFO. -/
theorem Inv.exists_reads {s : State 1} (hs : Inv s) (hclosed : s.closed = true) :
    ∃ k s', exec Pipe.step s (List.replicate k (.read 0 none)) = some s' ∧ s'.reader 0 = .ended ∧
      s'.sent = s.sent ∧ Inv s' := by
  induction hn : remaining s using Nat.strong_induction_on generalizing s with
  | h n ih =>
    by_cases hreader : s.reader 0 = .ended
    · exact ⟨0, s, rfl, hreader, rfl, hs⟩
    · obtain ⟨t, ht, hlt⟩ := hs.exists_read hclosed hreader
      obtain ⟨hsent, hclosed'⟩ := step_read_same ht
      have ht' : Inv t := hs.step (undisturbed_of_one s (inPlace_read 0)) ht
      obtain ⟨k, s', hrun, hended, hsent', hs'⟩ :=
        ih (remaining t) (hn ▸ hlt) ht' (hclosed'.trans hclosed) rfl
      exact ⟨k + 1, s', exec_cons_eq_some.mpr ⟨t, ht, hrun⟩, hended, hsent'.trans hsent, hs'⟩

def recordA : Record := ⟨[49], [97], by decide, by decide, by decide⟩

def recordB : Record := ⟨[50], [98], by decide, by decide, by decide⟩

end Sysopy.Rows.Pipe
