import Sysopy.Rows.Leftover

/-!
# The accesses of the consumer

`main` decodes pairs from whatever comes out of the FIFO and calls `writeaddline` for each of
them, also for the pair that it decodes at the end of the FIFO. Where `writeaddline` accesses
its table and where it inserts the text follows from the row number.
-/
namespace Sysopy.Rows

open ByteFile ByteFile.File CInteger CString Transition

/-! ## The loop of `main` -/

/-- The field before the next separator, and what follows the separator. -/
def readtosep (stream : List UInt8) : List UInt8 × List UInt8 :=
  (stream.takeWhile (· ≠ SEP), (stream.dropWhile (· ≠ SEP)).drop 1)

theorem length_readtosep (stream : List UInt8) :
    (readtosep stream).1.length + (readtosep stream).2.length ≤ stream.length := by
  have hparts := congrArg List.length (List.takeWhile_append_dropWhile
    (p := fun c => decide (c ≠ SEP)) (l := stream))
  rw [List.length_append] at hparts
  simp only [readtosep, List.length_drop]
  omega

/-- The calls of `writeaddline` for what is read from the FIFO up to its end. -/
def callsOf (stream : List UInt8) : List (ℤ × List UInt8) :=
  let number := readtosep stream
  let text := readtosep number.2
  (rowno number.1, text.1) :: if _h : text.1.length > 0 then callsOf text.2 else []
termination_by stream.length
decreasing_by
  have hnumber := length_readtosep stream
  have htext := length_readtosep (readtosep stream).2
  simp only [number, text] at _h ⊢
  omega

theorem readtosep_sep {data : List UInt8} (hdata : SEP ∉ data) (rest : List UInt8) :
    readtosep (data ++ SEP :: rest) = (data, rest) := by
  have hclean : ∀ c ∈ data, decide (c ≠ SEP) = true := fun c hc =>
    decide_eq_true fun h => hdata (h ▸ hc)
  rw [readtosep, List.takeWhile_append_of_pos hclean, List.dropWhile_append_of_pos hclean,
    List.takeWhile_cons_of_neg (by simp), List.dropWhile_cons_of_neg (by simp), List.append_nil]
  rfl

theorem readtosep_end {data : List UInt8} (hdata : SEP ∉ data) : readtosep data = (data, []) := by
  have hclean : ∀ c ∈ data, decide (c ≠ SEP) = true := fun c hc =>
    decide_eq_true fun h => hdata (h ▸ hc)
  rw [readtosep, List.takeWhile_eq_self_iff.mpr hclean, List.dropWhile_eq_nil_iff.mpr hclean]
  rfl

theorem callsOf_stream (rs : List Record) :
    callsOf (Pipe.stream rs) = rs.map Record.pair ++ [(0, [])] := by
  induction rs with
  | nil =>
    rw [callsOf]
    rfl
  | cons r rs ih =>
    have hbytes : Pipe.stream (r :: rs) = r.row ++ SEP :: (r.text ++ SEP :: Pipe.stream rs) := by
      simp [Pipe.stream, Record.bytes]
    have hlen : r.text.length > 0 := List.length_pos_iff.mpr r.text_ne_nil
    rw [hbytes, callsOf, readtosep_sep r.row_clean]
    simp only [readtosep_sep r.text_clean, hlen, dif_pos, ih]
    rfl

/-! ## Reading byte by byte -/

namespace Pipe

/-- The producers are gone and have left these bytes. -/
def opened (stream : List UInt8) : State 1 := ⟨stream, true, fun _ => .number [], [], []⟩

/-- The calls that the consumer has still to make. -/
def State.toCall (s : State 1) : List (ℤ × List UInt8) :=
  match s.reader 0 with
  | .number data => callsOf (data ++ s.fifo)
  | .text rowno data =>
    let text := readtosep (data ++ s.fifo)
    (rowno, text.1) :: if text.1.length > 0 then callsOf text.2 else []
  | .ended => []

/-- What a consumer has read of a field has no separator. -/
def Clean : Reader → Prop
  | .number data => SEP ∉ data
  | .text _ data => SEP ∉ data
  | .ended => True

/-- The calls made and the calls to make are those of the whole stream. -/
structure Decodes (calls : List (ℤ × List UInt8)) (s : State 1) : Prop where
  closed : s.closed = true
  clean : Clean (s.reader 0)
  calls : s.pairs ++ s.toCall = calls

theorem callsOf_of_readtosep {stream data rest : List UInt8}
    (h : readtosep stream = (data, rest)) : callsOf stream =
      (rowno data, (readtosep rest).1) ::
        if (readtosep rest).1.length > 0 then callsOf (readtosep rest).2 else [] := by
  rw [callsOf, h]
  simp only [dite_eq_ite]

theorem continuing_cases {b : Option UInt8} {before fifo : List UInt8}
    (hfifo : (b = none ∧ before = [] ∧ fifo = []) ∨ ∃ c, b = some c ∧ before = c :: fifo) :
    (∃ c, continuing b = some c ∧ c ≠ SEP ∧ before = c :: fifo) ∨
      (continuing b = none ∧ ∀ data, SEP ∉ data → readtosep (data ++ before) = (data, fifo)) := by
  rcases hfifo with ⟨rfl, rfl, rfl⟩ | ⟨c, rfl, rfl⟩
  · exact .inr ⟨rfl, fun data hdata => by rw [List.append_nil, readtosep_end hdata]⟩
  · by_cases hc : c = SEP
    · subst hc
      exact .inr ⟨rfl, fun data hdata => readtosep_sep hdata fifo⟩
    · exact .inl ⟨c, continuing_of_ne hc, hc, rfl⟩

theorem Decodes.advance {calls : List (ℤ × List UInt8)} {s s' : State 1} {b : Option UInt8}
    {fifo : List UInt8} (hs : Decodes calls s)
    (hfifo : (b = none ∧ s.fifo = [] ∧ fifo = []) ∨ ∃ c, b = some c ∧ s.fifo = c :: fifo)
    (h : State.advance { s with fifo := fifo } 0 b none = some s') : Decodes calls s' := by
  obtain ⟨hclosed, hclean, hcalls⟩ := hs
  unfold State.advance at h
  unfold State.toCall at hcalls
  simp only at h
  cases hreader : s.reader 0 with
  | ended =>
    rw [hreader] at h
    cases h
  | number data =>
    rw [hreader] at h hclean hcalls
    simp only at hcalls
    rcases continuing_cases hfifo with ⟨c, hc, hne, hbefore⟩ | ⟨hc, hfield⟩
    · rw [hc] at h
      obtain rfl := Option.some.inj h
      refine ⟨hclosed, ?_, ?_⟩
      · simpa [Clean, State.moveReader, Ne.symm hne] using hclean
      · simpa [State.toCall, State.moveReader, State.pairs, hbefore] using hcalls
    · rw [hc] at h
      obtain rfl := Option.some.inj h
      refine ⟨hclosed, by simp [Clean, State.moveReader], ?_⟩
      rw [callsOf_of_readtosep (hfield data hclean)] at hcalls
      simpa [State.toCall, State.moveReader, State.pairs] using hcalls
  | text rowno data =>
    rw [hreader] at h hclean hcalls
    simp only at hcalls
    rcases continuing_cases hfifo with ⟨c, hc, hne, hbefore⟩ | ⟨hc, hfield⟩
    · rw [hc] at h
      obtain rfl := Option.some.inj h
      refine ⟨hclosed, ?_, ?_⟩
      · simpa [Clean, State.moveReader, Ne.symm hne] using hclean
      · simpa [State.toCall, State.moveReader, State.pairs, hbefore] using hcalls
    · rw [hc] at h
      obtain rfl := Option.some.inj h
      rw [hfield data hclean] at hcalls
      by_cases hlen : data.length > 0
      · rw [if_pos hlen] at hcalls
        refine ⟨hclosed, by simp [Clean, State.moveReader, hlen], ?_⟩
        simpa [State.toCall, State.moveReader, State.pairs, hlen] using hcalls
      · rw [if_neg hlen] at hcalls
        refine ⟨hclosed, by simp [Clean, State.moveReader, hlen], ?_⟩
        simpa [State.toCall, State.moveReader, State.pairs, hlen] using hcalls

theorem Decodes.step {calls : List (ℤ × List UInt8)} {s s' : State 1} {a : Action 1}
    (hs : Decodes calls s) (hplace : InPlace a) (h : Pipe.step s a = some s') :
    Decodes calls s' := by
  cases a with
  | write record =>
    simp only [Pipe.step, hs.closed, if_true] at h
    cases h
  | close =>
    obtain rfl := Option.some.inj h
    exact ⟨rfl, hs.clean, hs.calls⟩
  | read c moved =>
    obtain rfl : c = 0 := Subsingleton.elim c 0
    obtain rfl : moved = none := hplace
    simp only [Pipe.step] at h
    split at h
    · rename_i b fifo hfifo
      exact hs.advance (.inr ⟨b, rfl, hfifo⟩) h
    · rename_i hfifo
      rw [if_pos hs.closed] at h
      have hend : State.advance { s with fifo := s.fifo } 0 none none = some s' := h
      exact hs.advance (.inl ⟨rfl, hfifo, hfifo⟩) hend

/-- The consumer that has read the FIFO to its end has made the calls for its bytes. -/
theorem pairs_eq_callsOf (stream : List UInt8) (schedule : List (Action 1)) (s : State 1)
    (hplace : ∀ a ∈ schedule, InPlace a)
    (hrun : exec Pipe.step (opened stream) schedule = some s) (hended : s.reader 0 = .ended) :
    s.pairs = callsOf stream := by
  have hstart : Decodes (callsOf stream) (opened stream) := ⟨rfl, List.not_mem_nil, rfl⟩
  have hs : Decodes (callsOf stream) s :=
    exec_invariant (fun _ _ _ ht ha h => ht.step ha h) hstart
      (along_of_forall (fun a ha _ => hplace a ha) _) hrun
  have hcalls := hs.calls
  rw [State.toCall, hended, List.append_nil] at hcalls
  exact hcalls

end Pipe

/-! ## Accesses -/

/-- The indices of `len` that a call accesses, each with the value of `lines` then: in the
first loop, where `i` runs with `lines`, in the second loop, and after the insertion. -/
def accesses (lines rowno : ℤ) : List (ℤ × ℤ) :=
  let added := (rowno + 1 - lines).toNat
  (List.range added).map (fun j : ℕ => (lines + j, toInt (lines + j + 1))) ++
    (List.range rowno.toNat).map (fun i : ℕ => ((i : ℤ), lines + added)) ++
    [(rowno - 1, lines + added)]

/-- The file and the table after the first loop. -/
def addedTo (o : Output) (rowno : ℤ) : File × FileInfo :=
  addLines o.original.fseekEnd o.fileinfo (rowno + 1 - o.fileinfo.lines).toNat

/-- `pos`, where the text is inserted. -/
def position (o : Output) (rowno : ℤ) : ℤ :=
  toInt (((List.range rowno.toNat).map fun i : ℕ => (addedTo o rowno).2.len i).sum + rowno)

/-- A call stays inside the table and inserts inside the file. -/
structure CallSafe (o : Output) (rowno : ℤ) : Prop where
  inBounds : ∀ access ∈ accesses o.fileinfo.lines rowno, 0 ≤ access.1 ∧ access.1 < access.2
  position : position o rowno ≤ (addedTo o rowno).1.bytes.length

def callStep (junk : UInt8) (o : Output) (call : ℤ × List UInt8) : Option Output :=
  some (writeaddline junk o call.2 call.1)

/-- All calls for a stream are safe. -/
def Safe (junk : UInt8) (tmp stream : List UInt8) : Prop :=
  Along (callStep junk) (fun o call => CallSafe o call.1) (Output.opened tmp) (callsOf stream)

/-- All row numbers are those of rows with a number of their own, below the last `int`. -/
def InRange (calls : List (ℤ × List UInt8)) : Prop :=
  ∀ call ∈ calls, 1 ≤ call.1 ∧ call.1 < INT_MAX

/-- What the first call leaves in the temporary file. -/
def leftBy (tmp : List UInt8) : List (ℤ × List UInt8) → List UInt8
  | [] => tmp
  | call :: _ => tmp.drop (callRow call + (callText call).length)

/-- The output file, with what is left over, stays below 2 GiB. -/
def Small (tmp : List UInt8) (calls : List (ℤ × List UInt8)) : Prop :=
  cleanSize calls + (leftBy tmp calls).length < 2 ^ 31

theorem inBounds_iff {lines : ℤ} (hlow : 1 ≤ lines) (hhigh : lines ≤ INT_MAX) (rowno : ℤ) :
    (∀ access ∈ accesses lines rowno, 0 ≤ access.1 ∧ access.1 < access.2) ↔
      1 ≤ rowno ∧ rowno < INT_MAX := by
  unfold accesses
  simp only [List.forall_mem_append, List.forall_mem_map, List.mem_range, List.forall_mem_singleton]
  constructor
  · rintro ⟨⟨hfirst, _⟩, hlast⟩
    refine ⟨by omega, lt_of_not_ge fun hge => ?_⟩
    -- the pass with `i = INT_MAX`
    obtain ⟨j, hj⟩ := Int.eq_ofNat_of_zero_le (sub_nonneg.mpr hhigh)
    have hpass := (hfirst j (by omega)).2
    have hmax : lines + j + 1 = ((2 ^ 31 : ℕ) : ℤ) := by
      simp only [INT_MAX] at hj
      push_cast
      omega
    rw [hmax, toInt_of_le le_rfl (by norm_num)] at hpass
    push_cast at hpass
    omega
  · rintro ⟨hrow, hmax⟩
    refine ⟨⟨fun j hj => ?_, fun i hi => ?_⟩, ?_⟩
    · have hself : toInt (lines + j + 1) = lines + j + 1 := toInt_eq_self (by omega) (by omega)
      rw [hself]
      omega
    · omega
    · omega

theorem lines_writeaddline (junk : UInt8) (o : Output) (text : List UInt8) (rowno : ℤ) :
    (writeaddline junk o text rowno).fileinfo.lines = max o.fileinfo.lines (rowno + 1) := by
  have hend : o.original.fseekEnd.pos = o.original.fseekEnd.bytes.length := rfl
  obtain ⟨_, hlines, _⟩ := addLines_eq hend o.fileinfo (rowno + 1 - o.fileinfo.lines).toNat
  rw [writeaddline]
  simp only [hlines]
  omega

theorem inRange_of_along {junk : UInt8} {o : Output} {calls : List (ℤ × List UInt8)}
    (hlow : 1 ≤ o.fileinfo.lines) (hhigh : o.fileinfo.lines ≤ INT_MAX)
    (h : Along (callStep junk) (fun o call => CallSafe o call.1) o calls) : InRange calls := by
  induction calls generalizing o with
  | nil => exact fun call hcall => absurd hcall List.not_mem_nil
  | cons call calls ih =>
    have hcall := (inBounds_iff hlow hhigh call.1).mp h.1.inBounds
    have hlines := lines_writeaddline junk o call.2 call.1
    rw [InRange, List.forall_mem_cons]
    exact ⟨hcall, ih (by rw [hlines]; omega) (by rw [hlines]; omega) (h.2 _ rfl)⟩

/-! ## Calls in range -/

theorem InRange.sound {calls : List (ℤ × List UInt8)} (h : InRange calls) :
    ∀ call ∈ calls, Sound call :=
  fun call hcall => .inl (h call hcall).1

theorem InRange.lastCalled_lt {calls : List (ℤ × List UInt8)} (h : InRange calls) :
    (lastCalled calls : ℤ) < INT_MAX := by
  induction calls using List.reverseRecOn with
  | nil => decide
  | append_singleton calls call ih =>
    have hlast := ih fun call' h' => h call' (List.mem_append_left _ h')
    have hcall := h call (by simp)
    rw [lastCalled_concat, callRow]
    omega

theorem Table.callSafe {len : ℕ → ℕ} {last : ℕ} {o : Output} (ho : Table len last o.fileinfo)
    (hlast : (last : ℤ) < INT_MAX) (hlength : offset len last ≤ o.original.bytes.length) {rowno : ℤ}
    (hrow : 1 ≤ rowno ∧ rowno < INT_MAX)
    (hsize : o.original.bytes.length + (max last rowno.toNat - last) < 2 ^ 31) :
    CallSafe o rowno := by
  have hlines := ho.lines
  have hself : rowno = (rowno.toNat : ℤ) := by omega
  obtain ⟨added, hadded⟩ : ∃ added, addedTo o rowno = added := ⟨_, rfl⟩
  have hloop := hadded
  rw [addedTo, hself] at hloop
  obtain ⟨hbytes, htable⟩ := ho.addLines o.original rowno.toNat hloop
  have hle := ho.offset_le hlength rowno.toNat
  rw [← hbytes] at hle
  have hlong : added.1.bytes.length =
      o.original.bytes.length + (max last rowno.toNat - last) := by
    rw [hbytes, List.length_append, List.length_replicate]
  have hpos := htable.toInt_offset (le_max_right last rowno.toNat) (by omega)
  rw [← hself] at hpos
  refine ⟨(inBounds_iff (by omega) (by omega) rowno).mpr hrow, ?_⟩
  rw [Rows.position, hadded, hpos]
  exact Int.ofNat_le.mpr hle

theorem inRange_of_safe {junk : UInt8} {tmp stream : List UInt8} (h : Safe junk tmp stream) :
    InRange (callsOf stream) :=
  inRange_of_along (le_refl (1 : ℤ)) (show (1 : ℤ) ≤ INT_MAX by decide) h

theorem exec_callStep (junk : UInt8) (tmp : List UInt8) (calls : List (ℤ × List UInt8)) :
    exec (callStep junk) (Output.opened tmp) calls = some (outputFrom junk tmp calls) := by
  induction calls using List.reverseRecOn with
  | nil => rfl
  | append_singleton calls call ih =>
    rw [exec_append]
    exact ⟨_, ih, by rw [outputFrom_concat]; rfl⟩

theorem along_of_inRange (junk : UInt8) {tmp : List UInt8} {calls : List (ℤ × List UInt8)}
    (hrange : InRange calls) (hsmall : Small tmp calls) :
    Along (callStep junk) (fun o call => CallSafe o call.1) (Output.opened tmp) calls := by
  rw [along_iff]
  rintro done call rest rfl t ht
  rw [exec_callStep, Option.some.injEq] at ht
  subst ht
  have hcall := hrange call (by simp)
  cases done with
  | nil =>
    have htable : Table (fun _ => 0) 0 (Output.opened tmp).fileinfo :=
      ⟨rfl, fun _ _ => rfl, fun _ _ => rfl⟩
    refine htable.callSafe (by decide) (Nat.zero_le _) hcall ?_
    change 0 + _ < _
    simp only [INT_MAX] at hcall
    omega
  | cons first done =>
    have hdone : InRange (first :: done) := fun call' h' => hrange call' (List.mem_append_left _ h')
    have hmono : cleanSize (first :: done ++ [call]) ≤ cleanSize (first :: done ++ call :: rest) := by
      have hsplit := List.append_cons (first :: done) call rest
      rw [hsplit] at hrange ⊢
      exact cleanSize_le_append hrange.sound
    have hclean := cleanSize_concat (first :: done) (fun _ => lengths_unused hdone.sound)
      (.inl hcall.1 : Sound call)
    have hsize : cleanSize (first :: done ++ call :: rest) +
      (leftBy tmp (first :: done)).length < 2 ^ 31 := hsmall
    have ho := leaked_outputFrom junk tmp hdone.sound
      (show _ + (leftBy tmp (first :: done)).length < _ by omega)
    refine ho.table.callSafe hdone.lastCalled_lt ho.cleanSize_le hcall ?_
    rw [ho.length]
    change cleanSize (first :: done) + (leftBy tmp (first :: done)).length +
      (max (lastCalled (first :: done)) (callRow call) - lastCalled (first :: done)) < 2 ^ 31
    omega

/-- All accesses are inside the table only if all row numbers are in range, and then they
are, and the insertions inside the file, as long as this stays below 2 GiB. -/
theorem safe_iff_inRange (junk : UInt8) (tmp stream : List UInt8) :
    (Safe junk tmp stream → InRange (callsOf stream)) ∧
      (Small tmp (callsOf stream) → (Safe junk tmp stream ↔ InRange (callsOf stream))) :=
  ⟨inRange_of_safe, fun hsmall =>
    ⟨inRange_of_safe, fun hrange => along_of_inRange junk hrange hsmall⟩⟩

/-- The last text of this FIFO is empty. -/
def emptyText : List UInt8 := [49, 92, 97, 92, 50, 92, 92]

theorem callsOf_emptyText : callsOf emptyText = [(1, [97]), (2, [])] := by
  decide +kernel

theorem safe_iff_inRange_emptyText : Safe 0 [] emptyText := by
  refine ((safe_iff_inRange 0 [] emptyText).2 ?_).mpr ?_
  · rw [callsOf_emptyText]
    unfold Small
    decide
  · rw [callsOf_emptyText]
    unfold InRange
    decide

/-- Whatever the records, the pair at the end of the FIFO has row 0. -/
theorem not_safe_stream (junk : UInt8) (tmp : List UInt8) (rs : List Record) :
    ¬ Safe junk tmp (Pipe.stream rs) := by
  intro hsafe
  have hrange := inRange_of_safe hsafe
  rw [callsOf_stream] at hrange
  exact absurd (hrange (0, []) (by simp)).1 (by decide)

/-- Without any record the only access is `len[-1]`. -/
theorem not_safe_empty : ¬ Safe 0 [] [] := not_safe_stream 0 [] []

end Sysopy.Rows
