import Sysopy.Rows.Lines

/-!
# Calls of `writeaddline`

The consumer starts with an empty output file, a table of one row and, if nothing was left
over, an empty temporary file. From then on only `writeaddline` changes them, so what they
hold is said by the sequence of its calls.
-/
namespace Sysopy.Rows

open ByteFile ByteFile.File CInteger CString

/-- What the calls of `writeaddline` have made of the files of the consumer. -/
def outputOf (junk : UInt8) (calls : List (ℤ × List UInt8)) : Output :=
  calls.foldl (fun o call => writeaddline junk o call.2 call.1) Output.start

def callRow (call : ℤ × List UInt8) : ℕ := call.1.toNat

def callText (call : ℤ × List UInt8) : List UInt8 := contents call.2

/-- The last row after the calls. -/
def lastCalled (calls : List (ℤ × List UInt8)) : ℕ :=
  calls.foldl (fun last call => max last (callRow call)) 0

/-- The texts of the calls for a row, one after the other. -/
def textsOf (calls : List (ℤ × List UInt8)) (row : ℕ) : List UInt8 :=
  (calls.filter fun call => call.1 = (row : ℤ)).flatMap Prod.snd

/-- The call is for a row with a number of its own and has a whole C string. -/
def Proper (call : ℤ × List UInt8) : Prop := 1 ≤ call.1 ∧ 0 ∉ call.2

/-- The files and the table say what the calls do. -/
structure Recorded (calls : List (ℤ × List UInt8)) (o : Output) : Prop where
  lines : o.fileinfo.lines = lastCalled calls + 1
  bytes : o.original.bytes =
    [NEWLINE].intercalate ((List.range (lastCalled calls + 1)).map (textsOf calls))
  row0 : textsOf calls 0 = []
  len : ∀ i < lastCalled calls, o.fileinfo.len i = (textsOf calls (i + 1)).length
  len_last : o.fileinfo.len (lastCalled calls) = 0

/-! ## One more call -/

theorem outputOf_concat (junk : UInt8) (calls : List (ℤ × List UInt8)) (rowno : ℤ)
    (text : List UInt8) : outputOf junk (calls ++ [(rowno, text)]) =
      writeaddline junk (outputOf junk calls) text rowno := by
  simp [outputOf]

theorem lastCalled_concat (calls : List (ℤ × List UInt8)) (call : ℤ × List UInt8) :
    lastCalled (calls ++ [call]) = max (lastCalled calls) (callRow call) := by
  simp [lastCalled]

theorem lastCalled_append (calls later : List (ℤ × List UInt8)) :
    lastCalled (calls ++ later) = max (lastCalled calls) (lastCalled later) := by
  induction later using List.reverseRecOn with
  | nil => simp [lastCalled]
  | append_singleton later call ih =>
    rw [← List.append_assoc, lastCalled_concat, lastCalled_concat, ih, max_assoc]

theorem textsOf_concat (calls : List (ℤ × List UInt8)) {call : ℤ × List UInt8}
    (hcall : Proper call) : textsOf (calls ++ [call]) = Function.update (textsOf calls)
      (callRow call) (textsOf calls (callRow call) ++ call.2) := by
  have hpos := hcall.1
  have hself : call.1 = (callRow call : ℤ) := by
    rw [callRow]
    omega
  funext row
  by_cases hrow : row = callRow call
  · subst hrow
    rw [Function.update_self, textsOf, List.filter_append, List.flatMap_append,
      List.filter_singleton]
    simp [← hself, textsOf]
  · have hne : call.1 ≠ (row : ℤ) := by
      rw [hself]
      exact fun h => hrow (Int.ofNat_inj.mp h).symm
    rw [Function.update_of_ne hrow, textsOf, List.filter_append, List.filter_singleton]
    simp [hne, textsOf]

theorem textsOf_unused {calls : List (ℤ × List UInt8)} (hcalls : ∀ call ∈ calls, Proper call)
    {row : ℕ} (hrow : lastCalled calls < row) : textsOf calls row = [] := by
  induction calls using List.reverseRecOn with
  | nil => rfl
  | append_singleton calls call ih =>
    rw [lastCalled_concat] at hrow
    rw [textsOf_concat calls (hcalls call (by simp)), Function.update_of_ne (by omega)]
    exact ih (fun call' h' => hcalls call' (by simp [h'])) (by omega)

theorem length_joined_update {rows : ℕ → List UInt8} {last : ℕ}
    (hunused : ∀ r, last < r → rows r = []) (r : ℕ) (text : List UInt8) :
    (joined (Function.update rows r (rows r ++ text)) (max last r)).length =
      (joined rows last).length + (max last r - last) + text.length := by
  obtain ⟨tail, htail⟩ := exists_tail rows (le_max_right last r)
  have hold := htail (rows r)
  rw [Function.update_eq_self] at hold
  have hgrown := joined_add hunused (max last r - last)
  rw [Nat.add_sub_cancel' (le_max_left _ _), hold] at hgrown
  have hlength := congrArg List.length hgrown
  rw [htail]
  simp only [List.length_append, List.length_replicate] at hlength ⊢
  omega

theorem length_joined {calls : List (ℤ × List UInt8)} (hcalls : ∀ call ∈ calls, Proper call) :
    (joined (textsOf calls) (lastCalled calls)).length =
      lastCalled calls + (calls.map fun call => call.2.length).sum := by
  induction calls using List.reverseRecOn with
  | nil => rfl
  | append_singleton calls call ih =>
    have hcalls' : ∀ call' ∈ calls, Proper call' := fun call' h' => hcalls call' (by simp [h'])
    rw [textsOf_concat calls (hcalls call (by simp)), lastCalled_concat,
      length_joined_update (fun _ => textsOf_unused hcalls'), ih hcalls', List.map_append,
      List.sum_append, List.map_singleton, List.sum_singleton]
    omega

/-! ## All calls -/

/-- The output file holds the texts of the calls in their rows. -/
theorem holds_calls (junk : UInt8) {calls : List (ℤ × List UInt8)}
    (hcalls : ∀ call ∈ calls, Proper call)
    (hsize : (joined (textsOf calls) (lastCalled calls)).length < 2 ^ 31) :
    Holds (textsOf calls) (lastCalled calls) (outputOf junk calls) := by
  induction calls using List.reverseRecOn with
  | nil => exact holds_start
  | append_singleton calls call ih =>
    obtain ⟨rowno, text⟩ := call
    have hcall := hcalls (rowno, text) (by simp)
    have hcalls' : ∀ call' ∈ calls, Proper call' := fun call' h' => hcalls call' (by simp [h'])
    have hself : rowno = (callRow (rowno, text) : ℤ) := by
      have hpos := hcall.1
      simp only [callRow] at hpos ⊢
      omega
    have hrow : 1 ≤ callRow (rowno, text) := by
      have hpos := hcall.1
      simp only [callRow] at hpos ⊢
      omega
    rw [textsOf_concat calls hcall, lastCalled_concat] at hsize ⊢
    have hgrown := length_joined_update (fun _ => textsOf_unused hcalls')
      (callRow (rowno, text)) text
    have ho := ih hcalls' (by
      rw [hgrown] at hsize
      omega)
    rw [outputOf_concat, hself]
    exact ho.writeaddline junk (contents_of_notMem hcall.2) (.inl hrow) hsize

/-- After each call the files and the table say what the calls so far do, as long as the
file stays below 2 GiB. -/
theorem recorded_outputOf (junk : UInt8) (calls : List (ℤ × List UInt8))
    (hcalls : ∀ call ∈ calls, (1 ≤ call.1 ∧ call.1 < INT_MAX) ∧ 0 ∉ call.2 ∧ NEWLINE ∉ call.2)
    (hsize : lastCalled calls + (calls.map fun call => call.2.length).sum < 2 ^ 31) :
    ∀ done, done <+: calls → Recorded done (outputOf junk done) := by
  rintro done ⟨rest, rfl⟩
  have hproper : ∀ call ∈ done, Proper call := fun call hcall =>
    have h := hcalls call (List.mem_append_left rest hcall)
    ⟨h.1.1, h.2.1⟩
  have hlast : lastCalled done ≤ lastCalled (done ++ rest) := by
    rw [lastCalled_append]
    exact le_max_left _ _
  have hsmall : (joined (textsOf done) (lastCalled done)).length < 2 ^ 31 := by
    rw [List.map_append, List.sum_append] at hsize
    rw [length_joined hproper]
    omega
  have ho := holds_calls junk hproper hsmall
  refine ⟨ho.lines, ho.bytes.trans (intercalate_rows _ _).symm, ho.row0, fun i hi => ho.len i hi.le,
    ?_⟩
  rw [ho.len _ le_rfl, ho.unused _ (Nat.lt_succ_self _)]
  rfl

/-- Texts for the rows 2, 1 and 2 again. -/
def threeCalls : List (ℤ × List UInt8) := [(2, [97, 98]), (1, [99]), (2, [100])]

theorem recorded_outputOf_three : Recorded threeCalls (outputOf 0 threeCalls) :=
  recorded_outputOf 0 threeCalls (by decide) (by decide) _ (List.prefix_refl _)

/-! ## Files of 2 GiB -/

theorem Holds.endCalls {rows : ℕ → List UInt8} {last : ℕ} {calls : List (ℤ × List UInt8)}
    (junk : UInt8) (ho : Holds rows last (outputOf junk calls))
    (hsize : (joined rows last).length < 2 ^ 31) (k : ℕ) :
    Holds rows last (outputOf junk (calls ++ List.replicate k (0, []))) := by
  induction k with
  | zero => simpa using ho
  | succ k ih =>
    have hsame : Function.update rows 0 (rows 0 ++ []) = rows := by
      rw [List.append_nil, Function.update_eq_self]
    have hcall := ih.writeaddline (r := 0) junk contents_nil (.inr rfl)
      (by rwa [hsame, Nat.max_zero])
    rw [hsame, Nat.max_zero] at hcall
    rw [List.replicate_succ', ← List.append_assoc, outputOf_concat]
    exact hcall

theorem Lost.endCalls {kept : List UInt8} {calls : List (ℤ × List UInt8)} (junk : UInt8)
    (ho : Lost kept (outputOf junk calls)) (k : ℕ) :
    Lost kept (outputOf junk (calls ++ List.replicate k (0, []))) := by
  induction k with
  | zero => simpa using ho
  | succ k ih =>
    rw [List.replicate_succ', ← List.append_assoc, outputOf_concat]
    exact ih.endCall junk

theorem outputOf_longRun (junk : UInt8) {m : ℕ} (hm : 2 * m + 2 = 2 ^ 31) (k : ℕ) :
    (outputOf junk ([(1, List.replicate (m + 1) 97), (1, List.replicate m 97)] ++
      List.replicate k (0, []))).original.bytes.length = m + 2 := by
  have hclean : ∀ n, contents (List.replicate n 97) = List.replicate n 97 := fun n =>
    contents_of_notMem fun h => absurd (List.eq_of_mem_replicate h) (by decide)
  let rows : ℕ → List UInt8 := Function.update (fun _ => []) 1 (List.replicate (m + 1) 97)
  have hjoined : (joined rows 1).length = m + 2 := by
    simp [joined, lead, rows, List.range_succ]
  have hcall := outputOf_concat junk [] 1 (List.replicate (m + 1) 97)
  have hfirst : Holds rows 1 (outputOf junk [(1, List.replicate (m + 1) 97)]) := by
    rw [List.nil_append] at hcall
    rw [hcall]
    exact holds_start.writeaddline (r := 1) junk (hclean (m + 1)) (.inl le_rfl)
      (by change (joined rows 1).length < 2 ^ 31; omega)
  have hsecond : Lost (joined rows 1)
      (outputOf junk [(1, List.replicate (m + 1) 97), (1, List.replicate m 97)]) := by
    have hlength : (List.replicate m (97 : UInt8)).length = m := List.length_replicate
    have hmax : joined rows (max 1 1) = joined rows 1 := rfl
    have hlost := hfirst.lost (r := 1) junk (hclean m) (by rw [hmax]; omega)
      (by rw [hmax, hlength]; omega) (by rw [hmax, hlength]; omega)
    have hcall' := outputOf_concat junk [(1, List.replicate (m + 1) 97)] 1 (List.replicate m 97)
    rw [List.singleton_append] at hcall'
    rw [hcall']
    exact hlost
  rw [(hsecond.endCalls junk k).bytes, hjoined]

/-- Two texts for row 1 with which the file would have 2 GiB. -/
def longCalls (m : ℕ) : List (ℤ × List UInt8) :=
  [(1, List.replicate (m + 1) 97), (1, List.replicate m 97)]

theorem proper_longCalls (m : ℕ) : ∀ call ∈ longCalls m,
    (1 ≤ call.1 ∧ call.1 < INT_MAX) ∧ 0 ∉ call.2 ∧ NEWLINE ∉ call.2 := by
  have htext : ∀ n, 0 ∉ List.replicate n (97 : UInt8) ∧ NEWLINE ∉ List.replicate n (97 : UInt8) :=
    fun n => ⟨fun h => absurd (List.eq_of_mem_replicate h) (by decide),
      fun h => absurd (List.eq_of_mem_replicate h) (by decide)⟩
  have hrow : 1 ≤ (1 : ℤ) ∧ (1 : ℤ) < INT_MAX := by decide
  rw [longCalls, List.forall_mem_cons, List.forall_mem_singleton]
  exact ⟨⟨hrow, htext (m + 1)⟩, hrow, htext m⟩

theorem lost_longCalls (junk : UInt8) {m : ℕ} (hm : 2 * m + 2 = 2 ^ 31) :
    ¬ Recorded (longCalls m) (outputOf junk (longCalls m)) := by
  intro h
  have hproper : ∀ call ∈ longCalls m, Proper call := fun call hcall =>
    have hcall' := proper_longCalls m call hcall
    ⟨hcall'.1.1, hcall'.2.1⟩
  have hlost := outputOf_longRun junk hm 0
  rw [List.replicate_zero, List.append_nil, ← longCalls, h.bytes, intercalate_rows,
    length_joined hproper] at hlost
  simp only [longCalls, List.map_cons, List.map_nil, List.length_replicate, List.sum_cons,
    List.sum_nil] at hlost
  omega

/-- From 2 GiB on the file does not hold all texts. -/
theorem not_recorded_longCalls : ¬ ∀ (junk : UInt8) (calls : List (ℤ × List UInt8)),
    (∀ call ∈ calls, (1 ≤ call.1 ∧ call.1 < INT_MAX) ∧ 0 ∉ call.2 ∧ NEWLINE ∉ call.2) →
    ∀ done, done <+: calls → Recorded done (outputOf junk done) := by
  intro hclaim
  have hrecorded := hclaim 0 (longCalls (2 ^ 30 - 1)) (proper_longCalls _) _ (List.prefix_refl _)
  exact lost_longCalls 0 (by norm_num) hrecorded

end Sysopy.Rows
