import Sysopy.Rows.Producers

/-!
# What the temporary file held before

`writeaddline` opens the temporary file without truncation, writes the new contents over
its beginning and copies it back by its own size. So the first call leaves in the output
file whatever the temporary file held behind the new contents, and no later call takes it
out again: two runs on the same records have the same output exactly when these leftovers
are the same, as long as the files stay below 2 GiB.
-/
namespace Sysopy.Rows

open ByteFile ByteFile.File CInteger CString Transition

/-- The files when `main` enters its loop, next to a temporary file that exists. -/
def Output.opened (tmp : List UInt8) : Output := ⟨fopen [], tmp, ⟨fun _ => 0, 1⟩⟩

/-- What the calls of `writeaddline` make of the files. -/
def outputFrom (junk : UInt8) (tmp : List UInt8) (calls : List (ℤ × List UInt8)) : Output :=
  calls.foldl (fun o call => writeaddline junk o call.2 call.1) (Output.opened tmp)

/-- The bytes that the first call of `writeaddline` writes: the newlines and the text of
the first record, or nothing at the end of an empty FIFO. -/
def firstLength : List Record → ℕ
  | [] => 0
  | r :: _ => (rowno r.row).toNat + (contents r.text).length

/-- What the first call leaves in the temporary file. -/
def leftover (rs : List Record) (tmp : List UInt8) : List UInt8 := tmp.drop (firstLength rs)

/-- The size of the file that the records make. -/
def fileSize (rs : List Record) : ℕ :=
  lastOf rs + (rs.map fun r => (contents r.text).length).sum

/-! ## Insertion -/

/-- The text is inserted at an offset. -/
def insertAt (pos : ℕ) (text bytes : List UInt8) : List UInt8 :=
  bytes.take pos ++ text ++ bytes.drop pos

theorem length_insertAt (pos : ℕ) (text bytes : List UInt8) :
    (insertAt pos text bytes).length = bytes.length + text.length := by
  simp only [insertAt, List.length_append, List.length_take, List.length_drop]
  omega

theorem insertAt_inj {pos : ℕ} {text bytes bytes' : List UInt8} (h : pos ≤ bytes.length)
    (h' : pos ≤ bytes'.length) :
    insertAt pos text bytes = insertAt pos text bytes' ↔ bytes = bytes' := by
  constructor
  · intro heq
    unfold insertAt at heq
    rw [List.append_assoc, List.append_assoc] at heq
    obtain ⟨hfront, hrest⟩ := List.append_inj heq (by simp [h, h'])
    rw [← List.take_append_drop pos bytes, hfront, List.append_cancel_left hrest,
      List.take_append_drop]
  · exact fun heq => heq ▸ rfl

theorem insertText_insertAt (junk : UInt8) {tmp text bytes : List UInt8} {pos : ℕ}
    (hpos : pos ≤ bytes.length)
    (hsize : (insertAt pos text bytes ++ tmp.drop (bytes.length + text.length)).length < 2 ^ 31) :
    (insertText junk ⟨bytes, 0, false⟩ tmp text pos).1.bytes =
      insertAt pos text bytes ++ tmp.drop (bytes.length + text.length) ∧
    (insertText junk ⟨bytes, 0, false⟩ tmp text pos).2.bytes =
      insertAt pos text bytes ++ tmp.drop (bytes.length + text.length) := by
  have hbytes := insertText_bytes junk tmp (bytes.take pos) text (bytes.drop pos)
  rw [← insertAt, length_insertAt, List.take_append_drop, List.length_take,
    Nat.min_eq_left hpos] at hbytes
  exact hbytes hsize

/-! ## One call -/

theorem offset_update_of_lt (len : ℕ → ℕ) {i r : ℕ} (h : r ≤ i) (x : ℕ) :
    offset (Function.update len i x) r = offset len r := by
  induction r with
  | zero => rfl
  | succ r ih => rw [offset_succ, offset_succ, ih (by omega), Function.update_of_ne (by omega)]

theorem offset_update (len : ℕ → ℕ) {i r : ℕ} (h : i < r) (n : ℕ) :
    offset (Function.update len i (len i + n)) r = offset len r + n := by
  induction r, h using Nat.le_induction with
  | base =>
    rw [offset_succ, offset_succ, offset_update_of_lt len le_rfl, Function.update_self]
    omega
  | succ r hr ih =>
    rw [offset_succ, offset_succ, ih, Function.update_of_ne (by omega)]
    omega

theorem offset_call (len : ℕ → ℕ) {r last : ℕ} {text : List UInt8} (hr : 1 ≤ r ∨ text = [])
    (hlast : r ≤ last) :
    offset (Function.update len (r - 1) (len (r - 1) + text.length)) last =
      offset len last + text.length := by
  rcases hr with hpos | rfl
  · exact offset_update len (by omega) _
  · simp

theorem Table.offset_le {len : ℕ → ℕ} {last : ℕ} {o : Output} (ho : Table len last o.fileinfo)
    (hlength : offset len last ≤ o.original.bytes.length) (r : ℕ) :
    offset len r ≤
      (o.original.bytes ++ List.replicate (max last r - last) NEWLINE).length := by
  calc offset len r ≤ offset len (max last r) := offset_le_of_le len (le_max_right _ _)
    _ = offset len last + (max last r - last) := offset_max ho.unused r
    _ ≤ o.original.bytes.length + (max last r - last) := Nat.add_le_add_right hlength _
    _ = _ := by rw [List.length_append, List.length_replicate]

/-- A call inserts the text into the output file, adds to it what the temporary file has
behind that, and leaves the two files the same. -/
theorem Table.call {len : ℕ → ℕ} {last r : ℕ} {o : Output} {text : List UInt8}
    (ho : Table len last o.fileinfo) (junk : UInt8) (htext : contents text = text)
    (hr : 1 ≤ r ∨ text = []) (hlength : offset len last ≤ o.original.bytes.length)
    {grown : List UInt8}
    (hgrown : o.original.bytes ++ List.replicate (max last r - last) NEWLINE = grown)
    (hsize : (insertAt (offset len r) text grown ++
      o.tmp.drop (grown.length + text.length)).length < 2 ^ 31) :
    (writeaddline junk o text r).original.bytes =
      insertAt (offset len r) text grown ++ o.tmp.drop (grown.length + text.length) ∧
    (writeaddline junk o text r).tmp = (writeaddline junk o text r).original.bytes ∧
    Table (Function.update len (r - 1) (len (r - 1) + text.length)) (max last r)
      (writeaddline junk o text r).fileinfo := by
  have hpos : offset len r ≤ grown.length := hgrown ▸ ho.offset_le hlength r
  have hbound : grown.length + text.length < 2 ^ 31 := by
    rw [List.length_append, length_insertAt] at hsize
    omega
  obtain ⟨files, hfiles⟩ : ∃ files, insertText junk ⟨grown, 0, false⟩ o.tmp text (offset len r) =
    files := ⟨_, rfl⟩
  obtain ⟨horiginal, hcopy⟩ := insertText_insertAt junk hpos hsize
  rw [hfiles] at horiginal hcopy
  obtain ⟨fileinfo, hcall, _, htable⟩ := ho.writeaddline_eq junk o.original htext
    (show offset len r < 2 ^ 31 by omega)
  rw [hgrown] at hcall
  have hnew : writeaddline junk o text r = ⟨files.1, files.2.bytes, fileinfo⟩ :=
    hcall o.tmp files hfiles
  rw [hnew]
  refine ⟨horiginal, hcopy.trans horiginal.symm, htable hr fun hr' => ?_⟩
  have hentry := offset_succ len (r - 1)
  rw [Nat.sub_add_cancel hr'] at hentry
  omega

/-! ## All calls -/

/-- The call for a record, or one at the end of the FIFO. -/
def Sound (call : ℤ × List UInt8) : Prop := 1 ≤ call.1 ∨ call = (0, [])

/-- The lengths of the rows after the calls. -/
def lengths (calls : List (ℤ × List UInt8)) : ℕ → ℕ :=
  calls.foldl (fun len call =>
    Function.update len (callRow call - 1) (len (callRow call - 1) + (callText call).length))
    fun _ => 0

theorem Sound.text {call : ℤ × List UInt8} (h : Sound call) :
    1 ≤ callRow call ∨ callText call = [] := by
  rcases h with hrow | rfl
  · left
    unfold callRow
    omega
  · exact .inr contents_nil

theorem Sound.writeaddline_eq {call : ℤ × List UInt8} (h : Sound call) (junk : UInt8) (o : Output) :
    writeaddline junk o call.2 call.1 = writeaddline junk o (callText call) (callRow call) := by
  have hrow : (callRow call : ℤ) = call.1 := by
    rcases h with hrow | rfl
    · unfold callRow
      omega
    · rfl
  rw [hrow, writeaddline, writeaddline, callText, contents_contents]

theorem outputFrom_concat (junk : UInt8) (tmp : List UInt8) (calls : List (ℤ × List UInt8))
    (call : ℤ × List UInt8) : outputFrom junk tmp (calls ++ [call]) =
      writeaddline junk (outputFrom junk tmp calls) call.2 call.1 := by
  simp [outputFrom]

theorem lengths_concat (calls : List (ℤ × List UInt8)) (call : ℤ × List UInt8) :
    lengths (calls ++ [call]) = Function.update (lengths calls) (callRow call - 1)
      (lengths calls (callRow call - 1) + (callText call).length) := by
  simp [lengths]

/-- The size of the file without what was left over. -/
def cleanSize (calls : List (ℤ × List UInt8)) : ℕ := offset (lengths calls) (lastCalled calls)

theorem lengths_unused {calls : List (ℤ × List UInt8)} (h : ∀ call ∈ calls, Sound call) {i : ℕ}
    (hi : lastCalled calls ≤ i) : lengths calls i = 0 := by
  induction calls using List.reverseRecOn with
  | nil => rfl
  | append_singleton calls call ih =>
    rw [lastCalled_concat] at hi
    have hzero := ih (fun call' h' => h call' (List.mem_append_left _ h')) (le_of_max_le_left hi)
    rw [lengths_concat]
    rcases (h call (by simp)).text with hrow | htext
    · rw [Function.update_of_ne (by omega), hzero]
    · rw [htext, List.length_nil, add_zero, Function.update_eq_self, hzero]

theorem cleanSize_concat (calls : List (ℤ × List UInt8)) {call : ℤ × List UInt8}
    (hunused : ∀ i, lastCalled calls ≤ i → lengths calls i = 0) (h : Sound call) :
    cleanSize (calls ++ [call]) = cleanSize calls +
      (max (lastCalled calls) (callRow call) - lastCalled calls) + (callText call).length := by
  rw [cleanSize, lengths_concat, lastCalled_concat, offset_call _ h.text (le_max_right _ _),
    offset_max hunused, cleanSize]

/-- After the calls the output file has its clean size and what was left over. -/
structure Leaked (calls : List (ℤ × List UInt8)) (leak : ℕ) (o : Output) : Prop where
  table : Table (lengths calls) (lastCalled calls) o.fileinfo
  length : o.original.bytes.length = cleanSize calls + leak
  tmp : o.tmp = o.original.bytes

theorem Leaked.cleanSize_le {calls : List (ℤ × List UInt8)} {leak : ℕ} {o : Output}
    (ho : Leaked calls leak o) : cleanSize calls ≤ o.original.bytes.length := by
  rw [ho.length]
  exact Nat.le_add_right _ _

theorem Leaked.call {calls : List (ℤ × List UInt8)} {leak : ℕ} {o : Output}
    {call : ℤ × List UInt8} (ho : Leaked calls leak o) (h : Sound call) (junk : UInt8)
    (hsize : cleanSize (calls ++ [call]) + leak < 2 ^ 31) :
    (writeaddline junk o call.2 call.1).original.bytes =
      insertAt (offset (lengths calls) (callRow call)) (callText call) (o.original.bytes ++
        List.replicate (max (lastCalled calls) (callRow call) - lastCalled calls) NEWLINE) ∧
    Leaked (calls ++ [call]) leak (writeaddline junk o call.2 call.1) := by
  have hclean := cleanSize_concat calls ho.table.unused h
  have hlength := ho.length
  obtain ⟨grown, hgrown⟩ : ∃ grown, o.original.bytes ++ List.replicate
    (max (lastCalled calls) (callRow call) - lastCalled calls) NEWLINE = grown := ⟨_, rfl⟩
  have hlong : grown.length = o.original.bytes.length +
      (max (lastCalled calls) (callRow call) - lastCalled calls) := by
    rw [← hgrown, List.length_append, List.length_replicate]
  have hnothing : o.tmp.drop (grown.length + (callText call).length) = [] := by
    apply List.drop_of_length_le
    rw [ho.tmp]
    omega
  have hcall := ho.table.call junk (contents_contents call.2) h.text
    ho.cleanSize_le hgrown
  rw [← callText, hnothing, List.append_nil, length_insertAt] at hcall
  obtain ⟨horiginal, hcopy, htable⟩ := hcall (by omega)
  rw [h.writeaddline_eq, hgrown]
  refine ⟨horiginal, ?_, ?_, hcopy⟩
  · rw [lengths_concat, lastCalled_concat]
    exact htable
  · rw [horiginal, length_insertAt]
    omega

theorem leaked_first (junk : UInt8) (tmp : List UInt8) {call : ℤ × List UInt8} (h : Sound call)
    (hsize : cleanSize [call] +
      (tmp.drop (callRow call + (callText call).length)).length < 2 ^ 31) :
    (outputFrom junk tmp [call]).original.bytes = insertAt (callRow call) (callText call)
        (List.replicate (callRow call) NEWLINE) ++
      tmp.drop (callRow call + (callText call).length) ∧
    Leaked [call] (tmp.drop (callRow call + (callText call).length)).length
      (outputFrom junk tmp [call]) := by
  have htable : Table (fun _ => 0) 0 (Output.opened tmp).fileinfo :=
    ⟨rfl, fun _ _ => rfl, fun _ _ => rfl⟩
  have hoffset : offset (fun _ => 0) (callRow call) = callRow call := by
    simp [offset]
  have hclean : cleanSize [call] = callRow call + (callText call).length := by
    simpa [cleanSize, offset, lastCalled] using cleanSize_concat [] (fun _ _ => rfl) h
  have hgrown : (Output.opened tmp).original.bytes ++
      List.replicate (max 0 (callRow call) - 0) NEWLINE =
      List.replicate (callRow call) NEWLINE := by
    simp [Output.opened, fopen]
  have hcall := htable.call junk (contents_contents call.2) h.text (Nat.zero_le _) hgrown
  rw [← callText, List.length_replicate, hoffset, List.length_append, length_insertAt,
    List.length_replicate] at hcall
  obtain ⟨horiginal, hcopy, htable⟩ := hcall (hclean ▸ hsize)
  have hfirst : outputFrom junk tmp [call] =
      writeaddline junk (Output.opened tmp) (callText call) (callRow call) :=
    h.writeaddline_eq junk _
  rw [hfirst]
  refine ⟨horiginal, ?_, ?_, hcopy⟩
  · simpa [lengths, lastCalled] using htable
  · rw [horiginal, List.length_append, length_insertAt, List.length_replicate, hclean]
    rfl

theorem cleanSize_eq {calls : List (ℤ × List UInt8)} (h : ∀ call ∈ calls, Sound call) :
    cleanSize calls = lastCalled calls + (calls.map fun call => (callText call).length).sum := by
  induction calls using List.reverseRecOn with
  | nil => rfl
  | append_singleton calls call ih =>
    have hcalls : ∀ call' ∈ calls, Sound call' := fun call' h' => h call' (List.mem_append_left _ h')
    rw [cleanSize_concat calls (fun _ => lengths_unused hcalls) (h call (by simp)), ih hcalls,
      lastCalled_concat, List.map_append, List.sum_append]
    simp only [List.map_cons, List.map_nil, List.sum_cons, List.sum_nil]
    omega

theorem cleanSize_le_append {calls later : List (ℤ × List UInt8)}
    (h : ∀ call ∈ calls ++ later, Sound call) : cleanSize calls ≤ cleanSize (calls ++ later) := by
  rw [cleanSize_eq h, cleanSize_eq fun call hcall => h call (List.mem_append_left _ hcall),
    lastCalled_append, List.map_append, List.sum_append]
  omega

theorem leaked_outputFrom (junk : UInt8) (tmp : List UInt8) {call : ℤ × List UInt8}
    {calls : List (ℤ × List UInt8)} (h : ∀ call' ∈ call :: calls, Sound call')
    (hsize : cleanSize (call :: calls) +
      (tmp.drop (callRow call + (callText call).length)).length < 2 ^ 31) :
    Leaked (call :: calls) (tmp.drop (callRow call + (callText call).length)).length
      (outputFrom junk tmp (call :: calls)) := by
  induction calls using List.reverseRecOn with
  | nil => exact (leaked_first junk tmp (h call (by simp)) hsize).2
  | append_singleton calls next ih =>
    rw [← List.cons_append] at h hsize ⊢
    have hmono := cleanSize_le_append h
    have ho := ih (fun call' h' => h call' (List.mem_append_left _ h')) (by omega)
    rw [outputFrom_concat]
    exact (ho.call (h next (by simp)) junk hsize).2

/-- Two runs have the same output exactly when they have the same leftover. -/
theorem bytes_outputFrom_iff (junk₁ junk₂ : UInt8) (tmp₁ tmp₂ : List UInt8)
    {call : ℤ × List UInt8} {calls : List (ℤ × List UInt8)}
    (h : ∀ call' ∈ call :: calls, Sound call')
    (hsize₁ : cleanSize (call :: calls) +
      (tmp₁.drop (callRow call + (callText call).length)).length < 2 ^ 31)
    (hsize₂ : cleanSize (call :: calls) +
      (tmp₂.drop (callRow call + (callText call).length)).length < 2 ^ 31) :
    (outputFrom junk₁ tmp₁ (call :: calls)).original.bytes =
      (outputFrom junk₂ tmp₂ (call :: calls)).original.bytes ↔
    tmp₁.drop (callRow call + (callText call).length) =
      tmp₂.drop (callRow call + (callText call).length) := by
  induction calls using List.reverseRecOn with
  | nil =>
    have hcall := h call (by simp)
    rw [(leaked_first junk₁ tmp₁ hcall hsize₁).1, (leaked_first junk₂ tmp₂ hcall hsize₂).1,
      List.append_cancel_left_eq]
  | append_singleton calls next ih =>
    rw [← List.cons_append] at h hsize₁ hsize₂ ⊢
    have hnext := h next (by simp)
    have hmono := cleanSize_le_append h
    have hcalls : ∀ call' ∈ call :: calls, Sound call' :=
      fun call' h' => h call' (List.mem_append_left _ h')
    have ho₁ := leaked_outputFrom junk₁ tmp₁ hcalls (by omega)
    have ho₂ := leaked_outputFrom junk₂ tmp₂ hcalls (by omega)
    rw [← ih hcalls (by omega) (by omega), outputFrom_concat, outputFrom_concat,
      (ho₁.call hnext junk₁ hsize₁).1, (ho₂.call hnext junk₂ hsize₂).1,
      insertAt_inj (ho₁.table.offset_le ho₁.cleanSize_le _)
        (ho₂.table.offset_le ho₂.cleanSize_le _), List.append_cancel_right_eq]

/-! ## Files of any size -/

theorem insertText_congr (junk : UInt8) {tmp₁ tmp₂ text bytes : List UInt8} {pos : ℕ}
    (hpos : bytes.length = pos) (hsize : pos < 2 ^ 31)
    (hleft : tmp₁.drop (pos + text.length) = tmp₂.drop (pos + text.length)) :
    insertText junk ⟨bytes, 0, false⟩ tmp₁ text pos =
      insertText junk ⟨bytes, 0, false⟩ tmp₂ text pos := by
  subst hpos
  have hwritten : (fopen tmp₁).fwrite (bytes ++ text ++ []) =
      (fopen tmp₂).fwrite (bytes ++ text ++ []) := by
    simp [fwrite, fopen, hleft]
  rw [← List.append_nil bytes] at hsize
  have h₁ := insertText_eq junk tmp₁ bytes text hsize
  have h₂ := insertText_eq junk tmp₂ bytes text hsize
  rw [hwritten, ← h₂, List.append_nil] at h₁
  exact h₁

/-- Whatever the sizes, a run depends on the temporary file by its leftover only. -/
theorem outputFrom_congr (junk : UInt8) {tmp₁ tmp₂ : List UInt8} {call : ℤ × List UInt8}
    (h : Sound call) (hrow : callRow call < 2 ^ 31) (calls : List (ℤ × List UInt8))
    (hleft : tmp₁.drop (callRow call + (callText call).length) =
      tmp₂.drop (callRow call + (callText call).length)) :
    outputFrom junk tmp₁ (call :: calls) = outputFrom junk tmp₂ (call :: calls) := by
  have htable : Table (fun _ => 0) 0 ⟨fun _ => 0, 1⟩ := ⟨rfl, fun _ _ => rfl, fun _ _ => rfl⟩
  have hoffset : offset (fun _ => 0) (callRow call) = callRow call := by
    simp [offset]
  have hgrown : (fopen []).bytes ++ List.replicate (max 0 (callRow call) - 0) NEWLINE =
      List.replicate (callRow call) NEWLINE := by
    simp [fopen]
  obtain ⟨fileinfo, hcall, _⟩ := htable.writeaddline_eq junk (fopen [])
    (contents_contents call.2) (hoffset.trans_lt hrow)
  rw [hoffset, hgrown] at hcall
  obtain ⟨files, hfiles⟩ : ∃ files, insertText junk
    ⟨List.replicate (callRow call) NEWLINE, 0, false⟩ tmp₂ (contents call.2) (callRow call) =
    files := ⟨_, rfl⟩
  have hcopy := (insertText_congr junk List.length_replicate hrow hleft).trans hfiles
  have hfirst : writeaddline junk (Output.opened tmp₁) call.2 call.1 =
      writeaddline junk (Output.opened tmp₂) call.2 call.1 := by
    rw [h.writeaddline_eq, h.writeaddline_eq, Output.opened, Output.opened, callText,
      hcall tmp₁ files hcopy, hcall tmp₂ files hfiles]
  rw [outputFrom, outputFrom, List.foldl_cons, List.foldl_cons, hfirst]

/-! ## Runs of the consumer -/

/-- The consumer leaves its loop after a call with an empty text. -/
def EndsEmpty (s : Pipe.State 1) : Prop := s.reader 0 = .ended → ∃ call ∈ s.pairs, call.2 = []

theorem EndsEmpty.advance {s s' : Pipe.State 1} {b : Option UInt8}
    (h : s.advance 0 b none = some s') : EndsEmpty s' := by
  intro hended
  unfold Pipe.State.advance at h
  split at h
  case h_4 rowno data _ _ =>
    cases h
    simp only [Pipe.State.moveReader, Function.update_self] at hended
    split_ifs at hended with hdata
    exact ⟨(rowno, data), by simp [Pipe.State.pairs], by simpa using hdata⟩
  case h_5 => cases h
  all_goals
    cases h
    simp [Pipe.State.moveReader] at hended

theorem EndsEmpty.step {s s' : Pipe.State 1} {a : Pipe.Action 1} (hs : EndsEmpty s)
    (hplace : Pipe.InPlace a) (h : Pipe.step s a = some s') : EndsEmpty s' := by
  cases a with
  | write record =>
    simp only [Pipe.step] at h
    split_ifs at h
    cases h
    exact hs
  | close =>
    cases h
    exact hs
  | read c moved =>
    obtain rfl : c = 0 := Subsingleton.elim c 0
    obtain rfl : moved = none := hplace
    simp only [Pipe.step] at h
    split at h
    · exact EndsEmpty.advance h
    · split_ifs at h
      exact EndsEmpty.advance h

theorem pairs_of_ended {schedule : List (Pipe.Action 1)} {s : Pipe.State 1}
    (hplace : ∀ a ∈ schedule, Pipe.InPlace a)
    (hrun : exec Pipe.step Pipe.start schedule = some s) (hended : s.reader 0 = .ended) :
    ∃ k, s.pairs = s.sent.map Record.pair ++ List.replicate (k + 1) (0, []) := by
  have halong : Along Pipe.step (fun _ a => Pipe.InPlace a) Pipe.start schedule :=
    along_of_forall (fun a ha _ => hplace a ha) _
  have hs : Pipe.Inv s := exec_invariant
    (fun t _ _ ht ha h => ht.step (Pipe.undisturbed_of_one t ha) h) Pipe.inv_start halong hrun
  have hempty : EndsEmpty s := exec_invariant (fun _ _ _ ht ha h => ht.step ha h)
    (fun h => by cases h) halong hrun
  cases hs with
  | between done rest hsent hcalls hfifo hreader =>
    rw [hreader] at hended
    cases hended
  | within c r done rest unread hsent hcalls hfifo hreading hmiddle hreader =>
    obtain rfl : c = 0 := Subsingleton.elim c 0
    rw [hended] at hmiddle
    cases hmiddle
  | ending k hclosed hfifo hcalls hreader =>
    cases k with
    | succ k => exact ⟨k, hcalls⟩
    | zero =>
      obtain ⟨call, hmem, htext⟩ := hempty hended
      rw [hcalls, List.replicate_zero, List.append_nil] at hmem
      obtain ⟨r, _, rfl⟩ := List.mem_map.mp hmem
      exact absurd htext r.text_ne_nil

theorem sound_pairs {rs : List Record} (h : ∀ r ∈ rs, 1 ≤ rowno r.row) (k : ℕ) :
    ∀ call ∈ rs.map Record.pair ++ List.replicate k (0, []), Sound call := by
  intro call hcall
  rcases List.mem_append.mp hcall with hrecord | hend
  · obtain ⟨r, hr, rfl⟩ := List.mem_map.mp hrecord
    exact .inl (h r hr)
  · exact .inr (List.eq_of_mem_replicate hend)

theorem lastCalled_pairs (rs : List Record) (k : ℕ) :
    lastCalled (rs.map Record.pair ++ List.replicate k (0, [])) = lastOf rs := by
  induction k with
  | zero =>
    rw [List.replicate_zero, List.append_nil, lastCalled, lastOf, List.foldl_map]
    rfl
  | succ k ih =>
    rw [List.replicate_succ', ← List.append_assoc, lastCalled_concat, ih]
    exact Nat.max_zero _

theorem cleanSize_pairs {rs : List Record} (h : ∀ r ∈ rs, 1 ≤ rowno r.row) (k : ℕ) :
    cleanSize (rs.map Record.pair ++ List.replicate k (0, [])) = fileSize rs := by
  rw [cleanSize_eq (sound_pairs h k), lastCalled_pairs, fileSize, List.map_append, List.map_map,
    List.sum_append]
  simp [Record.pair, callText, Function.comp_def]

theorem exists_first (rs : List Record) (k : ℕ) :
    ∃ call calls, rs.map Record.pair ++ List.replicate (k + 1) (0, []) = call :: calls ∧
      callRow call + (callText call).length = firstLength rs ∧ callRow call < 2 ^ 31 := by
  cases rs with
  | nil => exact ⟨(0, []), List.replicate k (0, []), rfl, rfl, by decide⟩
  | cons r rs =>
    refine ⟨r.pair, rs.map Record.pair ++ List.replicate (k + 1) (0, []), rfl, rfl, ?_⟩
    have hlt := toInt_lt (strtol r.row)
    simp only [callRow, Record.pair, rowno]
    omega

/-- The output file of the consumer depends on the temporary file by what this holds behind
the bytes of the first call, and shows it as long as the files stay below 2 GiB. -/
theorem output_eq_iff_leftover (schedule : List (Pipe.Action 1)) (s : Pipe.State 1)
    (hplace : ∀ a ∈ schedule, Pipe.InPlace a)
    (hrun : exec Pipe.step Pipe.start schedule = some s) (hended : s.reader 0 = .ended)
    (hrows : ∀ r ∈ s.sent, 1 ≤ rowno r.row) (tmp₁ tmp₂ : List UInt8) :
    (leftover s.sent tmp₁ = leftover s.sent tmp₂ → ∀ junk,
      outputFrom junk tmp₁ s.pairs = outputFrom junk tmp₂ s.pairs) ∧
    (fileSize s.sent + (leftover s.sent tmp₁).length < 2 ^ 31 →
      fileSize s.sent + (leftover s.sent tmp₂).length < 2 ^ 31 → ∀ junk₁ junk₂,
      ((outputFrom junk₁ tmp₁ s.pairs).original.bytes =
        (outputFrom junk₂ tmp₂ s.pairs).original.bytes ↔
      leftover s.sent tmp₁ = leftover s.sent tmp₂)) := by
  obtain ⟨k, hpairs⟩ := pairs_of_ended hplace hrun hended
  have hsound := sound_pairs hrows (k + 1)
  have hsize := cleanSize_pairs hrows (k + 1)
  obtain ⟨call, calls, hcalls, hfirst, hrow⟩ := exists_first s.sent k
  rw [hcalls] at hsound hsize
  rw [hpairs, hcalls]
  unfold leftover
  rw [← hfirst, ← hsize]
  constructor
  · intro hleft junk
    exact outputFrom_congr junk (hsound call List.mem_cons_self) hrow calls hleft
  · intro hsize₁ hsize₂ junk₁ junk₂
    exact bytes_outputFrom_iff junk₁ junk₂ tmp₁ tmp₂ hsound hsize₁ hsize₂

/-- One record for row 1 with the text `a`, read to the end of the FIFO. -/
def oneRecord : List (Pipe.Action 1) :=
  [.write Pipe.recordA] ++ List.replicate 4 (.read 0 none) ++
    [.close, .read 0 none, .read 0 none]

theorem output_eq_iff_leftover_oneRecord : ∃ s, exec Pipe.step Pipe.start oneRecord = some s ∧
    (outputFrom 0 [120, 121] s.pairs).original.bytes = (outputFrom 0 [] s.pairs).original.bytes ∧
    (outputFrom 0 [120, 121, 122] s.pairs).original.bytes ≠
      (outputFrom 0 [] s.pairs).original.bytes := by
  refine ⟨_, rfl, ?_, ?_⟩
  · exact congrArg (fun o => o.original.bytes)
      ((output_eq_iff_leftover oneRecord _ (by decide) rfl rfl (by decide +kernel)
        [120, 121] []).1 (by decide +kernel) 0)
  · rw [ne_eq, (output_eq_iff_leftover oneRecord _ (by decide) rfl rfl (by decide +kernel)
      [120, 121, 122] []).2 (by decide +kernel) (by decide +kernel) 0 0]
    decide +kernel

theorem not_output_eq : ¬ ∀ (schedule : List (Pipe.Action 1)) (s : Pipe.State 1),
    exec Pipe.step Pipe.start schedule = some s → s.reader 0 = .ended →
    (∀ r ∈ s.sent, WellFormed r) → ∀ (tmp₁ tmp₂ : List UInt8) (junk : UInt8),
    (outputFrom junk tmp₁ s.pairs).original.bytes =
      (outputFrom junk tmp₂ s.pairs).original.bytes := by
  intro hclaim
  have hsame := hclaim oneRecord _ rfl rfl (by unfold WellFormed; decide +kernel) [] [120, 121, 122] 0
  revert hsame
  decide +kernel

end Sysopy.Rows
