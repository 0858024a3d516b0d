import Sysopy.TextLibrary.Functions

/-!
# What the functions of the text library write

For every build the result of a function depends on the strings of its input files only, and on
what the opening of an output file keeps of it.
-/
namespace Sysopy.TextLibrary

open CInteger CString CText Stdio

variable {m : Interface}

/-- Every line fits into the memory that it is read to. -/
def Fits (text : List UInt8) : Prop := ∀ line ∈ strings text, line.length < MAX_LINE_LEN

instance decidableFits (text : List UInt8) : Decidable (Fits text) :=
  inferInstanceAs (Decidable (∀ line ∈ strings text, line.length < MAX_LINE_LEN))

theorem fits_of_length_lt {text : List UInt8} (h : text.length < MAX_LINE_LEN) : Fits text :=
  fun _ hline => (length_le_of_mem_strings hline).trans_lt h

theorem stringSize_eq {s : List UInt8} (hzero : 0 ∉ s) (hnewline : NEWLINE ∉ s) :
    stringSize s = s.length ∧ stringSize (s ++ [NEWLINE]) = s.length + 1 := by
  induction s with
  | nil => exact ⟨rfl, by decide⟩
  | cons c s ih =>
    rw [List.mem_cons, not_or] at hzero hnewline
    obtain ⟨h1, h2⟩ := ih hzero.2 hnewline.2
    rw [List.cons_append, stringSize, stringSize, if_neg (Ne.symm hzero.1),
      if_neg (Ne.symm hnewline.1), if_neg (Ne.symm hzero.1), if_neg (Ne.symm hnewline.1), h1, h2]
    exact ⟨rfl, rfl⟩

theorem stringSize_of_mem_strings {text line : List UInt8} (h : line ∈ strings text) :
    stringSize line = line.length := by
  obtain ⟨s, hzero, hnewline, rfl | ⟨rfl, _⟩⟩ := exists_of_mem_strings h
  · rw [(stringSize_eq hzero hnewline).2, List.length_append, List.length_singleton]
  · exact (stringSize_eq hzero hnewline).1

/-! ## Loops over lines -/

/-- The blocks that `f` gives for lines that fit. -/
def blocksOf (f : List UInt8 → Option (List UInt8)) (ls : List (List UInt8)) :
    Option (List (List UInt8)) :=
  ls.mapM fun line => if line.length < MAX_LINE_LEN then f line else none

section Blocks

variable {f : List UInt8 → Option (List UInt8)} {line : List UInt8} {ls : List (List UInt8)}

theorem blocksOf_cons_eq_some {blocks : List (List UInt8)}
    (h : blocksOf f (line :: ls) = some blocks) :
    ∃ block rest, line.length < MAX_LINE_LEN ∧ f line = some block ∧
      blocksOf f ls = some rest ∧ blocks = block :: rest := by
  rw [blocksOf, List.mapM_cons] at h
  split_ifs at h with hfits
  · obtain ⟨block, hblock, h⟩ := Option.bind_eq_some_iff.mp h
    obtain ⟨rest, hrest, h⟩ := Option.bind_eq_some_iff.mp h
    exact ⟨block, rest, hfits, hblock, hrest, (Option.some.inj h).symm⟩
  · cases h

theorem blocksOf_cons_of_eq_some {block : List UInt8} {blocks : List (List UInt8)}
    (hfits : line.length < MAX_LINE_LEN) (hblock : f line = some block)
    (hrest : blocksOf f ls = some blocks) : blocksOf f (line :: ls) = some (block :: blocks) := by
  rw [blocksOf, List.mapM_cons, if_pos hfits, hblock, ← blocksOf, hrest]
  rfl

theorem blocksOf_isSome_iff :
    (blocksOf f ls).isSome ↔ ∀ line ∈ ls, line.length < MAX_LINE_LEN ∧ (f line).isSome := by
  constructor
  · intro h
    obtain ⟨blocks, hblocks⟩ := Option.isSome_iff_exists.mp h
    induction ls generalizing blocks with
    | nil => simp
    | cons line ls ih =>
      obtain ⟨block, rest, hfits, hblock, hrest, rfl⟩ := blocksOf_cons_eq_some hblocks
      exact List.forall_mem_cons.mpr
        ⟨⟨hfits, by rw [hblock]; rfl⟩, ih (by rw [hrest]; rfl) rest hrest⟩
  · intro h
    induction ls with
    | nil => rfl
    | cons line ls ih =>
      rw [List.forall_mem_cons] at h
      obtain ⟨block, hblock⟩ := Option.isSome_iff_exists.mp h.1.2
      obtain ⟨blocks, hblocks⟩ := Option.isSome_iff_exists.mp (ih h.2)
      rw [blocksOf_cons_of_eq_some h.1.1 hblock hblocks]
      rfl

theorem blocksOf_eq_some_map {g : List UInt8 → List UInt8}
    (hg : ∀ line ∈ ls, ∀ block, f line = some block → block = g line)
    (h : (blocksOf f ls).isSome) : blocksOf f ls = some (ls.map g) := by
  rw [blocksOf_isSome_iff] at h
  induction ls with
  | nil => rfl
  | cons line ls ih =>
    rw [List.forall_mem_cons] at h hg
    obtain ⟨block, hblock⟩ := Option.isSome_iff_exists.mp h.1.2
    rw [blocksOf_cons_of_eq_some h.1.1 hblock (ih hg.2 h.2), hg.1 block hblock, List.map_cons]

theorem foldlM_write (ls : List (List UInt8)) (out : m.TYPE) :
    ls.foldlM (fun out line =>
        if line.length < MAX_LINE_LEN then (f line).map (m.WRITE out) else none) out =
      (blocksOf f ls).map (·.foldl m.WRITE out) := by
  induction ls generalizing out with
  | nil => rfl
  | cons line ls ih =>
    rw [List.foldlM_cons, blocksOf, List.mapM_cons]
    split_ifs with hfits
    · cases f line with
      | none => rfl
      | some block =>
        refine (ih (m.WRITE out block)).trans ?_
        rw [← blocksOf]
        cases blocksOf f ls <;> rfl
    · rfl

theorem whileLine_write (f : List UInt8 → Option (List UInt8)) (file out : m.TYPE) :
    whileLine m (fun out line => (f line).map (m.WRITE out)) file out =
      if m.Reads (m.unread file) then
        (blocksOf f (strings (m.unread file))).map (·.foldl m.WRITE out)
      else none := by
  rw [whileLine_eq, foldlM_write]

theorem length_flatten_blocksOf {size : List UInt8 → ℕ}
    (hsize : ∀ line block, f line = some block → block.length = size line)
    {blocks : List (List UInt8)} (h : blocksOf f ls = some blocks) :
    blocks.flatten.length = (ls.map size).sum := by
  induction ls generalizing blocks with
  | nil =>
    obtain rfl := Option.some.inj h
    rfl
  | cons line ls ih =>
    obtain ⟨block, rest, _, hblock, hrest, rfl⟩ := blocksOf_cons_eq_some h
    rw [List.flatten_cons, List.length_append, ih hrest, hsize line block hblock, List.map_cons,
      List.sum_cons]

end Blocks

theorem foldlM_some {σ : Type} (g : σ → List UInt8 → σ) (ls : List (List UInt8)) (s : σ) :
    ls.foldlM (fun s line => if line.length < MAX_LINE_LEN then some (g s line) else none) s =
      if ∀ line ∈ ls, line.length < MAX_LINE_LEN then some (ls.foldl g s) else none := by
  induction ls generalizing s with
  | nil => rfl
  | cons line ls ih =>
    rw [List.foldlM_cons]
    simp only [List.forall_mem_cons]
    by_cases hfits : line.length < MAX_LINE_LEN
    · simp only [hfits, if_true, true_and]
      exact ih (g s line)
    · simp only [hfits, if_false, false_and]
      rfl

/-- A loop whose body has no undefined case is a fold over the lines. -/
theorem whileLine_some {σ : Type} (g : σ → List UInt8 → σ) (file : m.TYPE) (s : σ) :
    whileLine m (fun s line => some (g s line)) file s =
      if m.Reads (m.unread file) ∧ Fits (m.unread file) then
        some ((strings (m.unread file)).foldl g s)
      else none := by
  rw [whileLine_eq, foldlM_some, ite_and]
  rfl

theorem foldl_write_if {p : List UInt8 → Prop} [DecidablePred p] (block : List UInt8 → List UInt8)
    (ls : List (List UInt8)) (out : m.TYPE) :
    ls.foldl (fun out line => if p line then m.WRITE out (block line) else out) out =
      ((ls.filter (p ·)).map block).foldl m.WRITE out := by
  rw [List.foldl_map, List.foldl_filter]
  simp only [decide_eq_true_eq]

/-! ## The functions -/

/-- What a file holds after blocks were written to it. -/
def Interface.content (m : Interface) (bytes : List UInt8) (blocks : List (List UInt8)) :
    List UInt8 :=
  blocks.flatten ++ (m.kept bytes).drop blocks.flatten.length

/-- The build that is chosen by a macro. -/
inductive Build
  | sys (zeroBehindBuf : Bool)
  | lib (zeroBehindBuf : Bool) (buffering : Buffering)

def Build.interface : Build → Interface
  | .sys zeroBehindBuf => TextLibrary.sys zeroBehindBuf
  | .lib zeroBehindBuf buffering => TextLibrary.lib zeroBehindBuf buffering

/-- A call writes the text to its output file, whatever that held before. -/
def Build.Writes (build : Build) (call : List UInt8 → Option (List UInt8)) (text : List UInt8) :
    Prop :=
  ∀ outFile, call outFile = some (build.interface.content outFile [text])

theorem Build.content_nil (build : Build) (blocks : List (List UInt8)) :
    build.interface.content [] blocks = blocks.flatten := by
  cases build with
  | _ => exact (congrArg (blocks.flatten ++ ·) List.drop_nil).trans (List.append_nil _)

theorem Build.writes_iff (build : Build) {blocks : Option (List (List UInt8))} {text : List UInt8} :
    build.Writes (fun outFile => blocks.map (build.interface.content outFile)) text ↔
      ∃ written, blocks = some written ∧ written.flatten = text := by
  constructor
  · intro h
    obtain ⟨written, hwritten, heq⟩ := Option.map_eq_some_iff.mp (h [])
    rw [build.content_nil, build.content_nil, List.flatten_singleton] at heq
    exact ⟨written, hwritten, heq⟩
  · rintro ⟨written, rfl, rfl⟩ outFile
    simp only [Option.map_some, Interface.content, List.flatten_singleton]

/-- The blocks of a file that can be read. -/
def Interface.blocks (m : Interface) (f : List UInt8 → Option (List UInt8)) (file : List UInt8) :
    Option (List (List UInt8)) :=
  if m.Reads file then blocksOf f (strings file) else none

theorem blocks_of_reads {file : List UInt8} (h : m.Reads file)
    (f : List UInt8 → Option (List UInt8)) : m.blocks f file = blocksOf f (strings file) :=
  if_pos h

theorem blocks_of_not_reads {file : List UInt8} (h : ¬ m.Reads file)
    (f : List UInt8 → Option (List UInt8)) : m.blocks f file = none :=
  if_neg h

theorem exists_blocks_iff {f : List UInt8 → Option (List UInt8)} {file text : List UInt8} :
    (∃ written, m.blocks f file = some written ∧ written.flatten = text) ↔
      m.Reads file ∧
        ∃ written, blocksOf f (strings file) = some written ∧ written.flatten = text := by
  by_cases hreads : m.Reads file
  · simp only [blocks_of_reads hreads, hreads, true_and]
  · simp [blocks_of_not_reads hreads, hreads]

theorem map_CLOSE_whileLine (f : List UInt8 → Option (List UInt8)) (file outFile : List UInt8) :
    (whileLine m (fun out line => (f line).map (m.WRITE out)) (m.OPEN file .r)
      (m.OPEN outFile .w)).map m.CLOSE = (m.blocks f file).map (m.content outFile) := by
  rw [whileLine_write, m.unread_OPEN, Interface.blocks]
  split_ifs
  · rw [Option.map_map]
    exact congrArg (Option.map · _) (funext (m.CLOSE_OPEN outFile))
  · rfl

/-- The sizes that `replace` has of its arguments. -/
def Sized (n1 n2 : List UInt8) : Prop := stringSize n1 ≤ INT_MAX ∧ stringSize n2 ≤ INT_MAX

instance decidableSized (n1 n2 : List UInt8) : Decidable (Sized n1 n2) :=
  inferInstanceAs (Decidable (_ ∧ _))

theorem replace_eq (file outFile n1 n2 : List UInt8) :
    replace m file outFile n1 n2 =
      (if Sized n1 n2 then m.blocks (replaceLine n1 n2) file else none).map
        (m.content outFile) := by
  rw [replace, map_CLOSE_whileLine]
  by_cases hsized : Sized n1 n2
  · rw [if_pos hsized, if_neg (not_or.mpr ⟨not_lt.mpr hsized.1, not_lt.mpr hsized.2⟩)]
  · rw [if_neg hsized]
    rw [Sized, not_and_or, not_le, not_le] at hsized
    rw [if_pos hsized]
    rfl

theorem breakLines_eq (file outFile : List UInt8) (breakpoint : ℤ) :
    breakLines m file outFile breakpoint =
      (m.blocks (breakLine breakpoint) file).map (m.content outFile) :=
  map_CLOSE_whileLine _ _ _

theorem filterWithSign_eq (file : List UInt8) (sign : UInt8) :
    filterWithSign m file sign =
      if m.Reads file ∧ Fits file then
        some (((strings file).filter (HasSign sign ·)).map (strncpy MAX_LINE_LEN)).flatten
      else none := by
  rw [filterWithSign, whileLine_some, m.unread_OPEN, foldl_write_if]
  split_ifs
  · rw [Option.map_some, m.CLOSE_STDOUT]
  · rfl

/-- The blocks that `filterNumbers` writes to one of the files for the numbers that it selects. -/
def selected (p : ℤ → Prop) [DecidablePred p] (ls : List (List UInt8)) : List (List UInt8) :=
  (ls.filter fun line => p (atoi line)).map numberBlock

/-- The number of even numbers, as an `int` counts them. -/
def evenCount (ls : List (List UInt8)) : ℤ :=
  toInt (ls.countP fun line => (atoi line).tmod 2 = 0 : ℕ)

theorem selected_cons (p : ℤ → Prop) [DecidablePred p] (line : List UInt8)
    (ls : List (List UInt8)) (out : m.TYPE) :
    (selected p (line :: ls)).foldl m.WRITE out =
      (selected p ls).foldl m.WRITE
        (if p (atoi line) then m.WRITE out (numberBlock line) else out) := by
  by_cases hp : p (atoi line)
  · simp only [selected, List.filter_cons, hp, decide_true, if_true, List.map_cons,
      List.foldl_cons]
  · simp only [selected, List.filter_cons, hp, decide_false, if_false, Bool.false_eq_true]

theorem foldl_filterNumber (root : ℤ → ℤ) (ls : List (List UInt8)) (s : Numbers m)
    (hs : toInt s.evenCounter = s.evenCounter) :
    ls.foldl (filterNumber m root) s =
      ⟨(selected InB ls).foldl m.WRITE s.outB, (selected (InC root) ls).foldl m.WRITE s.outC,
        toInt (s.evenCounter + (ls.countP fun line => (atoi line).tmod 2 = 0 : ℕ))⟩ := by
  induction ls generalizing s with
  | nil =>
    rw [List.countP_nil, Nat.cast_zero, Int.add_zero, hs]
    rfl
  | cons line ls ih =>
    have hcounter : toInt (filterNumber m root s line).evenCounter =
        (filterNumber m root s line).evenCounter := by
      dsimp only [filterNumber]
      split_ifs
      · exact toInt_toInt _
      · exact hs
    rw [List.foldl_cons, ih _ hcounter, selected_cons, selected_cons, List.countP_cons]
    dsimp only [filterNumber]
    by_cases heven : (atoi line).tmod 2 = 0
    · simp only [heven, decide_true, if_true, toInt_add_left, Nat.cast_add, Nat.cast_one]
      rw [Int.add_assoc, Int.add_comm 1]
    · simp only [heven, decide_false, if_false, Bool.false_eq_true, Nat.add_zero]

theorem filterNumbers_eq (root : ℤ → ℤ) (file a b c : List UInt8) :
    filterNumbers m root file a b c =
      if m.Reads file ∧ Fits file then
        some (m.content a [evenBlock (evenCount (strings file))],
          m.content b (selected InB (strings file)),
          m.content c (selected (InC root) (strings file)))
      else none := by
  rw [filterNumbers, whileLine_some, m.unread_OPEN, foldl_filterNumber _ _ _ rfl]
  split_ifs
  · have hA := m.CLOSE_OPEN a [evenBlock (evenCount (strings file))]
    rw [List.foldl_cons, List.foldl_nil] at hA
    rw [Option.map_some, m.CLOSE_OPEN, m.CLOSE_OPEN, Int.zero_add, ← evenCount, hA]
    rfl
  · rfl

/-! ## Merging -/

/-- A file of `merge`: the lines that are still to be read, and its flag. -/
abbrev Lines := List (List UInt8) × Bool

/-- `turn` on lines, with the lines that it writes. -/
def turnLines (zeroBehindBuf : Bool) (source : Lines) (line : List UInt8) :
    Option (Lines × List UInt8 × List (List UInt8)) :=
  if source.2 then some (source, line, [line])
  else
    match source.1 with
    | [] => some (([], true), [], [])
    | line :: ls =>
      if zeroBehindBuf = true ∧ line.length < MAX_LINE_LEN then some ((ls, false), line, [line])
      else none

def linesRank (source : Lines) : ℕ := source.1.length + if source.2 then 0 else 1

theorem linesRank_turnLines {zeroBehindBuf : Bool} {source source' : Lines}
    {line line' : List UInt8} {written : List (List UInt8)}
    (h : turnLines zeroBehindBuf source line = some (source', line', written)) :
    source.2 = true ∧ source' = source ∨ linesRank source' < linesRank source := by
  unfold turnLines at h
  split_ifs at h with heof
  · obtain ⟨rfl, _⟩ := Prod.mk.inj (Option.some.inj h)
    exact Or.inl ⟨heof, rfl⟩
  · refine Or.inr ?_
    split at h
    · rename_i hnil
      obtain ⟨rfl, _⟩ := Prod.mk.inj (Option.some.inj h)
      simp [linesRank, hnil, heof]
    · rename_i hcons
      split_ifs at h
      obtain ⟨rfl, _⟩ := Prod.mk.inj (Option.some.inj h)
      simp [linesRank, hcons, heof]

/-- The lines that `merge` writes, from the lines of the files. -/
def mergeLines (zeroBehindBuf : Bool) (ls1 ls2 : Lines) (line : List UInt8) :
    Option (List (List UInt8)) :=
  if _heof : ls1.2 = true ∧ ls2.2 = true then some []
  else
    match _h1 : turnLines zeroBehindBuf ls1 line with
    | none => none
    | some (ls1', line', written1) =>
      match _h2 : turnLines zeroBehindBuf ls2 line' with
      | none => none
      | some (ls2', line'', written2) =>
        (mergeLines zeroBehindBuf ls1' ls2' line'').map (written1 ++ written2 ++ ·)
termination_by linesRank ls1 + linesRank ls2
decreasing_by
  rcases linesRank_turnLines _h1 with ⟨heof1, rfl⟩ | hlt1
  · rcases linesRank_turnLines _h2 with ⟨heof2, _⟩ | hlt2
    · exact absurd ⟨heof1, heof2⟩ _heof
    · omega
  · rcases linesRank_turnLines _h2 with ⟨_, rfl⟩ | hlt2
    · omega
    · omega

/-- The lines stand for what a file of `merge` has not read. -/
structure Stands (source : Source m) (ls : Lines) : Prop where
  eof : source.eof = ls.2
  strings : ls.2 = false → strings (m.unread source.file) = ls.1

theorem turn_eq {source : Source m} {ls : Lines} (h : Stands source ls) (line : List UInt8)
    (out : m.TYPE) :
    turn m source line out = none ∧ turnLines m.zeroBehindBuf ls line = none ∨
      ∃ source' ls' line' written,
        turn m source line out = some (source', line',
          (written.map (strncpy MAX_LINE_LEN)).foldl m.WRITE out) ∧
        turnLines m.zeroBehindBuf ls line = some (ls', line', written) ∧ Stands source' ls' := by
  obtain ⟨ls, eof⟩ := ls
  obtain ⟨rfl, hstrings⟩ := h
  cases heof : source.eof with
  | true =>
    refine Or.inr ⟨source, (ls, true), line, [line], ?_, rfl, heof, fun hfalse => nomatch hfalse⟩
    rw [turn, if_pos heof]
    rfl
  | false =>
    have hls : strings (m.unread source.file) = ls := hstrings heof
    have hopen : ¬ source.eof = true := by rw [heof]; decide
    rw [turn, if_neg hopen, turnLines, if_neg Bool.false_ne_true]
    cases hget : fgetline m source.file with
    | none =>
      have hnone := fgetline_eq_none hget
      have hne : stringOf (m.unread source.file) ≠ [] := by
        intro hnil
        rw [hnil] at hnone
        exact hnone.elim (fun hreads => hreads (.inr hnil)) fun hlong => by cases hlong
      have hnot : ¬ (m.zeroBehindBuf = true ∧
          (stringOf (m.unread source.file)).length < MAX_LINE_LEN) :=
        fun h => hnone.elim (fun hreads => hreads (.inl h.1)) (Nat.not_le_of_lt h.2)
      rw [← hls, strings_of_ne_nil hne]
      exact Or.inl ⟨rfl, if_neg hnot⟩
    | some read =>
      obtain ⟨line', file'⟩ := read
      obtain ⟨hreads, rfl, hfits, hrest⟩ := fgetline_eq_some hget
      refine Or.inr ?_
      by_cases hnil : stringOf (m.unread source.file) = []
      · rw [← hls, strings_of_eq_nil hnil]
        exact ⟨⟨file', true⟩, ([], true), [], [], by simp [hnil], rfl, rfl,
          fun hfalse => nomatch hfalse⟩
      · rw [← hls, strings_of_ne_nil hnil]
        refine ⟨⟨file', false⟩, (strings (restOf (m.unread source.file)), false), _, [_],
          if_neg hnil, if_pos ⟨hreads.resolve_right hnil, hfits⟩, rfl, fun _ => ?_⟩
        rw [hrest]

theorem turn_eq_none {source : Source m} {ls : Lines} {line : List UInt8} (h : Stands source ls)
    (hturn : turnLines m.zeroBehindBuf ls line = none) (out : m.TYPE) :
    turn m source line out = none := by
  rcases turn_eq h line out with ⟨hnone, _⟩ | ⟨_, _, _, _, _, hsome, _⟩
  · exact hnone
  · cases hturn.symm.trans hsome

theorem exists_turn_eq_some {source : Source m} {ls ls' : Lines} {line line' : List UInt8}
    {written : List (List UInt8)} (h : Stands source ls)
    (hturn : turnLines m.zeroBehindBuf ls line = some (ls', line', written)) (out : m.TYPE) :
    ∃ source', turn m source line out = some (source', line',
      (written.map (strncpy MAX_LINE_LEN)).foldl m.WRITE out) ∧ Stands source' ls' := by
  rcases turn_eq h line out with ⟨_, hnone⟩ | ⟨source', _, _, _, hsource', hsome, hstands⟩
  · cases hturn.symm.trans hnone
  · cases hturn.symm.trans hsome
    exact ⟨source', hsource', hstands⟩

theorem mergeLoop_eq {f1 f2 : Source m} {ls1 ls2 : Lines} (h1 : Stands f1 ls1)
    (h2 : Stands f2 ls2) (line : List UInt8) (out : m.TYPE) :
    mergeLoop m f1 f2 line out = (mergeLines m.zeroBehindBuf ls1 ls2 line).map fun written =>
      (written.map (strncpy MAX_LINE_LEN)).foldl m.WRITE out := by
  fun_induction mergeLines m.zeroBehindBuf ls1 ls2 line generalizing f1 f2 out with
  | case1 ls1 ls2 line heof =>
    rw [mergeLoop, dif_pos (by rw [h1.eof, h2.eof]; exact heof)]
    rfl
  | case2 ls1 ls2 line heof hturn1 =>
    rw [← h1.eof, ← h2.eof] at heof
    rw [mergeLoop_eq_bind heof, turn_eq_none h1 hturn1]
    rfl
  | case3 ls1 ls2 line heof ls1' line' written1 hturn1 hturn2 =>
    rw [← h1.eof, ← h2.eof] at heof
    obtain ⟨f1', hf1, h1'⟩ := exists_turn_eq_some h1 hturn1 out
    rw [mergeLoop_eq_bind heof, hf1, Option.bind_some, turn_eq_none h2 hturn2]
    rfl
  | case4 ls1 ls2 line heof ls1' line' written1 hturn1 ls2' line'' written2 hturn2 ih =>
    rw [← h1.eof, ← h2.eof] at heof
    obtain ⟨f1', hf1, h1'⟩ := exists_turn_eq_some h1 hturn1 out
    obtain ⟨f2', hf2, h2'⟩ := exists_turn_eq_some h2 hturn2
      ((written1.map (strncpy MAX_LINE_LEN)).foldl m.WRITE out)
    rw [mergeLoop_eq_bind heof, hf1, Option.bind_some, hf2, Option.bind_some, ih h1' h2',
      Option.map_map]
    refine congrArg (Option.map · _) (funext fun written => ?_)
    simp only [Function.comp_apply, List.map_append, List.foldl_append]

theorem merge_eq (file1 file2 : List UInt8) :
    merge m file1 file2 =
      (mergeLines m.zeroBehindBuf (strings file1, false) (strings file2, false) []).map
        fun written => (written.map (strncpy MAX_LINE_LEN)).flatten := by
  have stands (file : List UInt8) :
      Stands (m := m) ⟨m.OPEN file .r, false⟩ (strings file, false) :=
    ⟨rfl, fun _ => congrArg strings (m.unread_OPEN file)⟩
  rw [merge, mergeLoop_eq (stands file1) (stands file2), Option.map_map]
  exact congrArg (Option.map · _) (funext fun written => m.CLOSE_STDOUT _)

end Sysopy.TextLibrary
