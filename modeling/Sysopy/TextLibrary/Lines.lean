import Sysopy.TextLibrary.Interface

/-!
# Reading line by line

Every function of the library reads its input by `fgetline`, until this gives an empty string. A
line that does not fit into the memory that `fgetline` gets for it overruns it, and the call is
undefined: `none`. So it is where `strcat` takes more than the byte that was read, as no zero lies
behind that.
-/
namespace Sysopy.TextLibrary

open CText

variable {m : Interface}

/-- `strcat(line, &buf)`; a NUL that was read is an empty string. -/
def Interface.strcat (m : Interface) (line : List UInt8) (buf : UInt8) : Option (List UInt8) :=
  if buf = 0 then some line else if m.zeroBehindBuf = true then some (line ++ [buf]) else none

/-- The loop of `fgetline`. -/
def readLine (m : Interface) (file : m.TYPE) (line : List UInt8) :
    Option (List UInt8 × m.TYPE) :=
  match _h : m.READ file with
  | none => some (line, file)
  | some (buf, file') =>
    match m.strcat line buf with
    | none => none
    | some line' => if buf = NEWLINE then some (line', file') else readLine m file' line'
termination_by (m.unread file).length
decreasing_by
  rw [m.unread_of_READ _h]
  exact Nat.lt_succ_self _

def fgetline (m : Interface) (file : m.TYPE) : Option (List UInt8 × m.TYPE) :=
  match readLine m file [] with
  | none => none
  | some (line, file') => if line.length < MAX_LINE_LEN then some (line, file') else none

/-- The string that a text begins with, as `fgetline` gives it. -/
def stringOf (text : List UInt8) : List UInt8 := (lineOf text).filter (· ≠ 0)

theorem stringOf_newline (text : List UInt8) : stringOf (NEWLINE :: text) = [NEWLINE] := by
  rw [stringOf, lineOf, if_pos rfl]
  rfl

theorem stringOf_cons {c : UInt8} (hc : c ≠ NEWLINE) (text : List UInt8) :
    stringOf (c :: text) = (if c = 0 then [] else [c]) ++ stringOf text := by
  rw [stringOf, lineOf, if_neg hc, List.filter_cons]
  split_ifs <;> simp_all [stringOf]

/-- What is left of a text behind its first line. -/
def restOf (text : List UInt8) : List UInt8 := text.drop (lineOf text).length

theorem restOf_newline (text : List UInt8) : restOf (NEWLINE :: text) = text := by
  rw [restOf, lineOf, if_pos rfl]
  rfl

theorem restOf_cons {c : UInt8} (hc : c ≠ NEWLINE) (text : List UInt8) :
    restOf (c :: text) = restOf text := by
  rw [restOf, lineOf, if_neg hc]
  rfl

/-- `strcat` has a string for every byte of the text's first line. -/
def Interface.Reads (m : Interface) (text : List UInt8) : Prop :=
  m.zeroBehindBuf = true ∨ stringOf text = []

instance decidableReads (m : Interface) (text : List UInt8) : Decidable (m.Reads text) :=
  inferInstanceAs (Decidable (_ ∨ _))

theorem reads_newline (text : List UInt8) :
    m.Reads (NEWLINE :: text) ↔ m.zeroBehindBuf = true := by
  rw [Interface.Reads, stringOf_newline]
  exact or_iff_left (List.cons_ne_nil _ _)

theorem reads_cons {c : UInt8} (hc : c ≠ NEWLINE) (text : List UInt8) :
    m.Reads (c :: text) ↔ (c = 0 ∨ m.zeroBehindBuf = true) ∧ m.Reads text := by
  rw [Interface.Reads, Interface.Reads, stringOf_cons hc]
  by_cases hzero : c = 0
  · simp [hzero]
  · simp [hzero]
    exact fun h => .inl h

theorem strcat_eq_some {line line' : List UInt8} {buf : UInt8}
    (h : m.strcat line buf = some line') :
    (buf = 0 ∨ m.zeroBehindBuf = true) ∧ line' = line ++ if buf = 0 then [] else [buf] := by
  unfold Interface.strcat at h
  split_ifs at h with hzero hbehind
  · exact ⟨.inl hzero, by rw [if_pos hzero, List.append_nil, Option.some.inj h]⟩
  · exact ⟨.inr hbehind, by rw [if_neg hzero, Option.some.inj h]⟩

theorem strcat_eq_none {line : List UInt8} {buf : UInt8} (h : m.strcat line buf = none) :
    buf ≠ 0 ∧ ¬ m.zeroBehindBuf = true := by
  unfold Interface.strcat at h
  split_ifs at h with hzero hbehind
  exact ⟨hzero, hbehind⟩

theorem readLine_eq_some {file file' : m.TYPE} {line line' : List UInt8}
    (h : readLine m file line = some (line', file')) :
    m.Reads (m.unread file) ∧ line' = line ++ stringOf (m.unread file) ∧
      m.unread file' = restOf (m.unread file) := by
  fun_induction readLine m file line with
  | case1 file line hread =>
    obtain ⟨rfl, rfl⟩ := Prod.mk.inj (Option.some.inj h)
    rw [m.unread_of_READ_eq_none hread]
    exact ⟨.inr rfl, (List.append_nil _).symm, rfl⟩
  | case2 => cases h
  | case3 file line file'' line'' hread hstrcat =>
    obtain ⟨rfl, rfl⟩ := Prod.mk.inj (Option.some.inj h)
    obtain ⟨hbehind, rfl⟩ := strcat_eq_some hstrcat
    rw [m.unread_of_READ hread, reads_newline, stringOf_newline, restOf_newline]
    exact ⟨hbehind.resolve_left (by decide), rfl, rfl⟩
  | case4 file line buf file'' hread line'' hstrcat hnewline ih =>
    obtain ⟨hreads, rfl, hrest⟩ := ih h
    obtain ⟨hbehind, rfl⟩ := strcat_eq_some hstrcat
    rw [m.unread_of_READ hread, reads_cons hnewline, stringOf_cons hnewline, restOf_cons hnewline]
    exact ⟨⟨hbehind, hreads⟩, List.append_assoc _ _ _, hrest⟩

theorem readLine_eq_none {file : m.TYPE} {line : List UInt8} (h : readLine m file line = none) :
    ¬ m.Reads (m.unread file) := by
  fun_induction readLine m file line with
  | case1 => cases h
  | case2 file line buf file' hread hstrcat =>
    obtain ⟨hzero, hbehind⟩ := strcat_eq_none hstrcat
    rw [m.unread_of_READ hread]
    by_cases hnewline : buf = NEWLINE
    · rw [hnewline, reads_newline]
      exact hbehind
    · rw [reads_cons hnewline]
      exact fun hreads => hreads.1.elim hzero hbehind
  | case3 => cases h
  | case4 file line buf file' hread line' hstrcat hnewline ih =>
    rw [m.unread_of_READ hread, reads_cons hnewline]
    exact fun hreads => ih h hreads.2

/-- `fgetline` gives the string of the line, and the next one begins behind the line. -/
theorem fgetline_eq_some {file file' : m.TYPE} {line : List UInt8}
    (h : fgetline m file = some (line, file')) :
    m.Reads (m.unread file) ∧ line = stringOf (m.unread file) ∧ line.length < MAX_LINE_LEN ∧
      m.unread file' = restOf (m.unread file) := by
  unfold fgetline at h
  split at h
  · cases h
  · rename_i hread
    split_ifs at h with hfits
    obtain ⟨rfl, rfl⟩ := Prod.mk.inj (Option.some.inj h)
    obtain ⟨hreads, rfl, hrest⟩ := readLine_eq_some hread
    exact ⟨hreads, rfl, hfits, hrest⟩

theorem fgetline_eq_none {file : m.TYPE} (h : fgetline m file = none) :
    ¬ m.Reads (m.unread file) ∨ MAX_LINE_LEN ≤ (stringOf (m.unread file)).length := by
  unfold fgetline at h
  split at h
  · rename_i hread
    exact .inl (readLine_eq_none hread)
  · rename_i hread
    split_ifs at h with hfits
    obtain ⟨_, rfl, _⟩ := readLine_eq_some hread
    exact .inr (Nat.le_of_not_lt hfits)

theorem length_restOf_lt {text : List UInt8} (h : stringOf text ≠ []) :
    (restOf text).length < text.length := by
  have hne : text ≠ [] := by
    rintro rfl
    exact h rfl
  have hpos := List.length_pos_iff.mpr (lineOf_ne_nil hne)
  have hle := length_lineOf_le text
  rw [restOf, List.length_drop]
  omega

theorem fgetline_lt {file file' : m.TYPE} {line : List UInt8}
    (h : fgetline m file = some (line, file')) (hline : line ≠ []) :
    (m.unread file').length < (m.unread file).length := by
  obtain ⟨_, rfl, _, hrest⟩ := fgetline_eq_some h
  rw [hrest]
  exact length_restOf_lt hline

/-- `while ((line = fgetline(file))[0])`, with the loop's body on the variables that it
changes. -/
def whileLine {σ : Type} (m : Interface) (body : σ → List UInt8 → Option σ) (file : m.TYPE)
    (s : σ) : Option σ :=
  match _h : fgetline m file with
  | none => none
  | some (line, file') =>
    if _hline : line = [] then some s
    else
      match body s line with
      | none => none
      | some s' => whileLine m body file' s'
termination_by (m.unread file).length
decreasing_by exact fgetline_lt _h _hline

/-- The strings that `fgetline` gives before an empty one. -/
def strings (text : List UInt8) : List (List UInt8) :=
  if _h : stringOf text = [] then [] else stringOf text :: strings (restOf text)
termination_by text.length
decreasing_by exact length_restOf_lt _h

theorem strings_of_eq_nil {text : List UInt8} (h : stringOf text = []) : strings text = [] := by
  rw [strings, dif_pos h]

theorem strings_of_ne_nil {text : List UInt8} (h : stringOf text ≠ []) :
    strings text = stringOf text :: strings (restOf text) := by
  rw [strings, dif_neg h]

section Strings

variable {line : List UInt8}

theorem filter_of_notMem {s : List UInt8} (h : 0 ∉ s) : s.filter (· ≠ 0) = s :=
  List.filter_eq_self.mpr fun _ hc => decide_eq_true fun heq => h (heq ▸ hc)

theorem strings_append (hline : NEWLINE ∉ line) (rest : List UInt8) :
    strings (line ++ NEWLINE :: rest) = (line.filter (· ≠ 0) ++ [NEWLINE]) :: strings rest := by
  have hof : lineOf (line ++ NEWLINE :: rest) = line ++ [NEWLINE] :=
    lineOf_append fun c hc heq => hline (heq ▸ hc)
  have hstring : stringOf (line ++ NEWLINE :: rest) = line.filter (· ≠ 0) ++ [NEWLINE] := by
    rw [stringOf, hof, List.filter_append]
    rfl
  have hrest : restOf (line ++ NEWLINE :: rest) = rest := by
    rw [restOf, hof, List.append_cons line NEWLINE rest, List.drop_left]
  rw [strings_of_ne_nil (by simp [hstring]), hstring, hrest]

theorem strings_last (hline : NEWLINE ∉ line) :
    strings line = if line.filter (· ≠ 0) = [] then [] else [line.filter (· ≠ 0)] := by
  have hof : lineOf line = line := lineOf_last fun c hc heq => hline (heq ▸ hc)
  have hstring : stringOf line = line.filter (· ≠ 0) := by rw [stringOf, hof]
  split_ifs with hnil
  · exact strings_of_eq_nil (hstring.trans hnil)
  · have hrest : restOf line = [] := by rw [restOf, hof, List.drop_length]
    rw [strings_of_ne_nil (by rwa [hstring]), hstring, hrest, strings_of_eq_nil rfl]

theorem map_filter_lines (text : List UInt8) : ∃ last, (last = [] ∨ last = [[]]) ∧
    (lines text).map (·.filter (· ≠ 0)) = strings text ++ last := by
  induction text using text_induction with
  | nil => exact ⟨[], .inl rfl, by rw [strings_of_eq_nil rfl]; rfl⟩
  | last line hline hne =>
    rw [lines_last hline hne, strings_last hline]
    split_ifs with hnil
    · exact ⟨[[]], .inr rfl, by rw [List.map_singleton, hnil]; rfl⟩
    · exact ⟨[], .inl rfl, by rw [List.map_singleton, List.append_nil]⟩
  | cons line rest hline ih =>
    obtain ⟨last, hlast, hrest⟩ := ih
    refine ⟨last, hlast, ?_⟩
    rw [lines_append hline, strings_append hline, List.map_cons, hrest, List.filter_append]
    rfl

theorem strings_of_terminated {text : List UInt8} (h : Terminated text) :
    strings text = (lines text).map (·.filter (· ≠ 0)) := by
  obtain ⟨last, rfl | rfl, hlines⟩ := map_filter_lines text
  · rw [hlines, List.append_nil]
  · -- every line has its newline
    obtain ⟨line, hline, hnil⟩ : ∃ line ∈ lines text, line.filter (· ≠ 0) = [] := by
      rw [← List.mem_map, hlines]
      simp
    obtain ⟨s, _, rfl⟩ := exists_of_mem_lines h hline
    rw [List.filter_append, List.append_eq_nil_iff] at hnil
    exact absurd hnil.2 (by decide)

theorem ne_nil_of_mem_strings {text : List UInt8} (h : line ∈ strings text) : line ≠ [] := by
  induction text using strings.induct with
  | case1 text hnil => rw [strings_of_eq_nil hnil] at h; cases h
  | case2 text hne ih =>
    rw [strings_of_ne_nil hne, List.mem_cons] at h
    rcases h with rfl | h
    · exact hne
    · exact ih h

theorem zero_notMem_of_mem_strings {text : List UInt8} (h : line ∈ strings text) : 0 ∉ line := by
  induction text using strings.induct with
  | case1 text hnil => rw [strings_of_eq_nil hnil] at h; cases h
  | case2 text hne ih =>
    rw [strings_of_ne_nil hne, List.mem_cons] at h
    rcases h with rfl | h
    · simp [stringOf]
    · exact ih h

theorem length_le_of_mem_strings {text : List UInt8} (h : line ∈ strings text) :
    line.length ≤ text.length := by
  induction text using strings.induct with
  | case1 text hnil => rw [strings_of_eq_nil hnil] at h; cases h
  | case2 text hne ih =>
    rw [strings_of_ne_nil hne, List.mem_cons] at h
    rcases h with rfl | h
    · exact (List.length_filter_le _ _).trans (length_lineOf_le text)
    · exact (ih h).trans (length_restOf_lt hne).le

theorem exists_of_mem_strings {text : List UInt8} (h : line ∈ strings text) :
    ∃ s, 0 ∉ s ∧ NEWLINE ∉ s ∧ (line = s ++ [NEWLINE] ∨ line = s ∧ s ≠ []) := by
  induction text using text_induction with
  | nil => rw [strings_of_eq_nil rfl] at h; cases h
  | last s hs hne =>
    rw [strings_last hs] at h
    split_ifs at h with hnil
    · cases h
    · obtain rfl := List.mem_singleton.mp h
      exact ⟨_, by simp, fun hmem => hs (List.mem_of_mem_filter hmem), .inr ⟨rfl, hnil⟩⟩
  | cons s rest hs ih =>
    rw [strings_append hs, List.mem_cons] at h
    rcases h with rfl | h
    · exact ⟨_, by simp, fun hmem => hs (List.mem_of_mem_filter hmem), .inl rfl⟩
    · exact ih h

end Strings

/-- Behind a string that is not empty any other can be read. -/
theorem Interface.Reads.restOf {text : List UInt8} (h : m.Reads text) (hne : stringOf text ≠ []) :
    m.Reads (restOf text) :=
  .inl (h.resolve_right hne)

/-- The loop runs over the strings of the file, as long as they fit. -/
theorem whileLine_eq {σ : Type} (body : σ → List UInt8 → Option σ) (file : m.TYPE) (s : σ) :
    whileLine m body file s =
      if m.Reads (m.unread file) then
        (strings (m.unread file)).foldlM
          (fun s line => if line.length < MAX_LINE_LEN then body s line else none) s
      else none := by
  fun_induction whileLine m body file s with
  | case1 file s h =>
    rcases fgetline_eq_none h with hreads | hlong
    · rw [if_neg hreads]
    · have hne : stringOf (m.unread file) ≠ [] := by
        intro hnil
        rw [hnil] at hlong
        cases hlong
      rw [strings_of_ne_nil hne, List.foldlM_cons, if_neg (Nat.not_lt_of_le hlong)]
      exact (ite_self none).symm
  | case2 file s file' h =>
    obtain ⟨hreads, hnil, _, _⟩ := fgetline_eq_some h
    rw [if_pos hreads, strings_of_eq_nil hnil.symm]
    rfl
  | case3 file s line file' h hline hbody =>
    obtain ⟨hreads, rfl, hfits, _⟩ := fgetline_eq_some h
    rw [if_pos hreads, strings_of_ne_nil hline, List.foldlM_cons, if_pos hfits, hbody]
    rfl
  | case4 file s line file' h hline s' hbody ih =>
    obtain ⟨hreads, rfl, hfits, hrest⟩ := fgetline_eq_some h
    rw [ih, hrest, if_pos (hreads.restOf hline), if_pos hreads, strings_of_ne_nil hline,
      List.foldlM_cons, if_pos hfits, hbody]
    rfl

end Sysopy.TextLibrary
