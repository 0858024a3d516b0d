import Sysopy.Library.CInteger
import Sysopy.Library.CString

/-!
# Text read line by line

`getline` takes the next line of a stream, `fgets` the line or the part of it that fits into the
buffer, and `strtok` the next token of a string. Reading to the end of the stream or of the
string gives the lines, the pieces and the tokens. A string stands here for itself: what lies
in its buffer behind the NUL is not read.
-/
namespace Sysopy.CText

open CString

def NEWLINE : UInt8 := 10

/-- The bytes of the next line, its newline included. -/
def lineOf : List UInt8 → List UInt8
  | [] => []
  | c :: s => if c = NEWLINE then [c] else c :: lineOf s

/-- `fgets` into a buffer of `n` bytes: the bytes read and what remains in the stream; `none`
at its end. -/
def fgets (n : ℕ) (stream : List UInt8) : Option (List UInt8 × List UInt8) :=
  if stream = [] then none
  else
    let line := (lineOf stream).take (n - 1)
    some (line, stream.drop line.length)

theorem lineOf_isPrefix (s : List UInt8) : lineOf s <+: s := by
  induction s with
  | nil => exact List.prefix_refl []
  | cons c s ih =>
    rw [lineOf]
    split_ifs
    · exact ⟨s, rfl⟩
    · exact (List.cons_prefix_cons).mpr ⟨rfl, ih⟩

theorem length_lineOf_le (s : List UInt8) : (lineOf s).length ≤ s.length :=
  (lineOf_isPrefix s).length_le

theorem lineOf_ne_nil {s : List UInt8} (h : s ≠ []) : lineOf s ≠ [] := by
  obtain ⟨c, s, rfl⟩ := List.exists_cons_of_ne_nil h
  rw [lineOf]
  split_ifs <;> simp

theorem fgets_lt {n : ℕ} (hn : 2 ≤ n) {stream line rest : List UInt8}
    (h : fgets n stream = some (line, rest)) : rest.length < stream.length := by
  unfold fgets at h
  split_ifs at h with hnil
  obtain ⟨rfl, rfl⟩ := Prod.mk.inj (Option.some.inj h)
  have hpos := List.length_pos_iff.mpr (lineOf_ne_nil hnil)
  have hle := length_lineOf_le stream
  simp only [List.length_take, List.length_drop]
  omega

theorem fgets_eq_none_iff {n : ℕ} {stream : List UInt8} : fgets n stream = none ↔ stream = [] := by
  unfold fgets
  split_ifs with h
  · exact iff_of_true rfl h
  · exact iff_of_false (by simp) h

theorem append_of_fgets {n : ℕ} {stream line rest : List UInt8}
    (h : fgets n stream = some (line, rest)) : line ++ rest = stream := by
  unfold fgets at h
  split_ifs at h with hnil
  obtain ⟨rfl, rfl⟩ := Prod.mk.inj (Option.some.inj h)
  exact List.prefix_iff_eq_append.mp ((List.take_prefix _ _).trans (lineOf_isPrefix stream))

/-- `while (fgets(buf, n, file) != NULL)`: what the calls read, for a buffer that holds at
least one character. -/
def pieces (n : ℕ) (hn : 2 ≤ n) (stream : List UInt8) : List (List UInt8) :=
  match _h : fgets n stream with
  | none => []
  | some (line, rest) => line :: pieces n hn rest
termination_by stream.length
decreasing_by exact fgets_lt hn _h

@[simp] theorem pieces_nil {n : ℕ} (hn : 2 ≤ n) : pieces n hn [] = [] := by
  rw [pieces]
  rfl

theorem pieces_of_fgets {n : ℕ} (hn : 2 ≤ n) {stream line rest : List UInt8}
    (h : fgets n stream = some (line, rest)) :
    pieces n hn stream = line :: pieces n hn rest := by
  rw [pieces]
  split
  · rename_i heq
    cases heq.symm.trans h
  · rename_i heq
    obtain ⟨rfl, rfl⟩ := Prod.mk.inj (Option.some.inj (heq.symm.trans h))
    rfl

/-- The next token and what follows the delimiter behind it. -/
def strtok (delims s : List UInt8) : Option (List UInt8 × List UInt8) :=
  let s := s.dropWhile (· ∈ delims)
  if s = [] then none
  else some (s.takeWhile (· ∉ delims), (s.dropWhile (· ∉ delims)).tail)

theorem strtok_lt {delims s token rest : List UInt8} (h : strtok delims s = some (token, rest)) :
    rest.length < s.length := by
  unfold strtok at h
  dsimp only at h
  split_ifs at h with hnil
  obtain ⟨_, rfl⟩ := Prod.mk.inj (Option.some.inj h)
  have hpos := List.length_pos_iff.mpr hnil
  have hskip := (List.dropWhile_sublist (· ∈ delims) (l := s)).length_le
  have hrest := (List.dropWhile_sublist (· ∉ delims) (l := s.dropWhile (· ∈ delims))).length_le
  rw [List.length_tail]
  omega

/-- The tokens that repeated calls give. -/
def tokens (delims s : List UInt8) : List (List UInt8) :=
  match _h : strtok delims s with
  | none => []
  | some (token, rest) => token :: tokens delims rest
termination_by s.length
decreasing_by exact strtok_lt _h

theorem tokens_of_strtok_eq_none {delims s : List UInt8} (h : strtok delims s = none) :
    tokens delims s = [] := by
  rw [tokens]
  split
  · rfl
  · rename_i heq
    cases h.symm.trans heq

theorem tokens_of_strtok {delims s token rest : List UInt8}
    (h : strtok delims s = some (token, rest)) : tokens delims s = token :: tokens delims rest := by
  rw [tokens]
  split
  · rename_i heq
    cases heq.symm.trans h
  · rename_i heq
    obtain ⟨rfl, rfl⟩ := Prod.mk.inj (Option.some.inj (heq.symm.trans h))
    rfl

section Line

variable {line rest : List UInt8}

theorem lineOf_append (hline : ∀ c ∈ line, c ≠ NEWLINE) :
    lineOf (line ++ NEWLINE :: rest) = line ++ [NEWLINE] := by
  induction line with
  | nil => simp [lineOf]
  | cons c line ih =>
    have hc : c ≠ NEWLINE := hline c (by simp)
    rw [List.cons_append, lineOf, if_neg hc, ih fun d hd => hline d (by simp [hd]),
      List.cons_append]

theorem lineOf_last (hline : ∀ c ∈ line, c ≠ NEWLINE) : lineOf line = line := by
  induction line with
  | nil => rfl
  | cons c line ih =>
    rw [lineOf, if_neg (hline c (by simp)), ih fun d hd => hline d (by simp [hd])]

theorem fgets_line (hline : ∀ c ∈ line, c ≠ NEWLINE) {n : ℕ} (hn : line.length + 2 ≤ n) :
    fgets n (line ++ NEWLINE :: rest) = some (line ++ [NEWLINE], rest) := by
  have hne : line ++ NEWLINE :: rest ≠ [] := by simp
  have htake : (line ++ [NEWLINE]).take (n - 1) = line ++ [NEWLINE] := by
    apply List.take_of_length_le
    simp only [List.length_append, List.length_singleton]
    omega
  have hdrop : (line ++ NEWLINE :: rest).drop (line ++ [NEWLINE]).length = rest := by
    rw [List.append_cons line NEWLINE rest, List.drop_left]
  simp only [fgets, hne, if_false, lineOf_append hline, htake, hdrop]

theorem pieces_line (hline : ∀ c ∈ line, c ≠ NEWLINE) {n : ℕ} (hn : line.length + 2 ≤ n)
    (hn' : 2 ≤ n) : pieces n hn' (line ++ NEWLINE :: rest) =
      (line ++ [NEWLINE]) :: pieces n hn' rest :=
  pieces_of_fgets hn' (fgets_line hline hn)

theorem pieces_last (hline : ∀ c ∈ line, c ≠ NEWLINE) (hne : line ≠ []) {n : ℕ}
    (hn : line.length + 1 ≤ n) (hn' : 2 ≤ n) : pieces n hn' line = [line] := by
  have htake : line.take (n - 1) = line := List.take_of_length_le (by omega)
  have hfgets : fgets n line = some (line, []) := by
    simp only [fgets, hne, if_false, lineOf_last hline, htake, List.drop_length]
  rw [pieces_of_fgets hn' hfgets, pieces_nil]

end Line

theorem append_cons_inj {α : Type*} {d : α} {s t after after' : List α} (hs : d ∉ s) (ht : d ∉ t)
    (h : s ++ d :: after = t ++ d :: after') : s = t ∧ after = after' := by
  induction s generalizing t with
  | nil =>
    cases t with
    | nil => exact ⟨rfl, (List.cons.inj h).2⟩
    | cons e t => exact absurd (by simp [(List.cons.inj h).1]) ht
  | cons c s ih =>
    cases t with
    | nil => exact absurd (by simp [(List.cons.inj h).1]) hs
    | cons e t =>
      obtain ⟨rfl, hrest⟩ := List.cons.inj h
      rw [List.mem_cons, not_or] at hs ht
      obtain ⟨rfl, rfl⟩ := ih hs.2 ht.2 hrest
      exact ⟨rfl, rfl⟩

section Tokens

variable {delims skip token rest : List UInt8}

theorem strtok_append (hskip : ∀ c ∈ skip, c ∈ delims) (hne : token ≠ [])
    (htoken : ∀ c ∈ token, c ∉ delims) {d : UInt8} (hd : d ∈ delims) :
    strtok delims (skip ++ (token ++ d :: rest)) = some (token, rest) := by
  obtain ⟨c, token', rfl⟩ := List.exists_cons_of_ne_nil hne
  have hc : c ∉ delims := htoken c (by simp)
  have hdrop : (skip ++ (c :: token' ++ d :: rest)).dropWhile (· ∈ delims) =
      c :: token' ++ d :: rest := by
    rw [List.dropWhile_append_of_pos (by simpa using hskip), List.cons_append,
      List.dropWhile_cons_of_neg (by simpa using hc)]
  have htake : (c :: token' ++ d :: rest).takeWhile (· ∉ delims) = c :: token' := by
    rw [List.takeWhile_append_of_pos (by simpa using htoken),
      List.takeWhile_cons_of_neg (by simpa using hd), List.append_nil]
  have hrest : (c :: token' ++ d :: rest).dropWhile (· ∉ delims) = d :: rest := by
    rw [List.dropWhile_append_of_pos (by simpa using htoken),
      List.dropWhile_cons_of_neg (by simpa using hd)]
  have hnil : c :: token' ++ d :: rest ≠ [] := by simp
  simp only [strtok, hdrop, hnil, if_false, htake, hrest, List.tail_cons]

theorem strtok_last (hne : token ≠ []) (htoken : ∀ c ∈ token, c ∉ delims) :
    strtok delims token = some (token, []) := by
  obtain ⟨c, token', rfl⟩ := List.exists_cons_of_ne_nil hne
  have hc : c ∉ delims := htoken c (by simp)
  have hdrop : (c :: token').dropWhile (· ∈ delims) = c :: token' :=
    List.dropWhile_cons_of_neg (by simpa using hc)
  have htake : (c :: token').takeWhile (· ∉ delims) = c :: token' :=
    List.takeWhile_eq_self_iff.mpr (by simpa using htoken)
  have hrest : (c :: token').dropWhile (· ∉ delims) = [] :=
    List.dropWhile_eq_nil_iff.mpr (by simpa using htoken)
  simp only [strtok, hdrop, List.cons_ne_nil, if_false, htake, hrest, List.tail_nil]

theorem tokens_append (hskip : ∀ c ∈ skip, c ∈ delims) (hne : token ≠ [])
    (htoken : ∀ c ∈ token, c ∉ delims) {d : UInt8} (hd : d ∈ delims) :
    tokens delims (skip ++ (token ++ d :: rest)) = token :: tokens delims rest :=
  tokens_of_strtok (strtok_append hskip hne htoken hd)

theorem tokens_delims (hskip : ∀ c ∈ skip, c ∈ delims) : tokens delims skip = [] := by
  have hdrop : skip.dropWhile (· ∈ delims) = [] :=
    List.dropWhile_eq_nil_iff.mpr (by simpa using hskip)
  have hstrtok : strtok delims skip = none := by
    simp only [strtok, hdrop, if_true]
  exact tokens_of_strtok_eq_none hstrtok

theorem length_tokens_le (delims s : List UInt8) : (tokens delims s).length ≤ s.length := by
  induction s using tokens.induct delims with
  | case1 s h =>
    rw [tokens_of_strtok_eq_none h]
    exact Nat.zero_le _
  | case2 s token rest h ih =>
    rw [tokens_of_strtok h, List.length_cons]
    exact (Nat.succ_le_succ ih).trans (strtok_lt h)

theorem tokens_cases (delims s : List UInt8) :
    ((∀ c ∈ s, c ∈ delims) ∧ tokens delims s = []) ∨
    ∃ skip token more, s = skip ++ (token ++ more) ∧ (∀ c ∈ skip, c ∈ delims) ∧ token ≠ [] ∧
      (∀ c ∈ token, c ∉ delims) ∧ (∀ d rest, more = d :: rest → d ∈ delims) ∧
      tokens delims s = token :: tokens delims more.tail := by
  by_cases hall : ∀ c ∈ s, c ∈ delims
  · exact .inl ⟨hall, tokens_delims hall⟩
  right
  generalize hskip : s.takeWhile (· ∈ delims) = skip
  generalize hs : s.dropWhile (· ∈ delims) = after
  have hsplit : skip ++ after = s := by
    rw [← hskip, ← hs, List.takeWhile_append_dropWhile]
  have hafter : after ≠ [] := by
    rintro rfl
    exact hall (by simpa using List.dropWhile_eq_nil_iff.mp hs)
  obtain ⟨c, after', hcons⟩ := List.exists_cons_of_ne_nil hafter
  have hc : c ∉ delims := by
    have hnot := List.head?_dropWhile_not (· ∈ delims) s
    rw [hs, hcons] at hnot
    simpa using hnot
  refine ⟨skip, after.takeWhile (· ∉ delims), after.dropWhile (· ∉ delims), ?_, ?_, ?_, ?_, ?_, ?_⟩
  · rw [List.takeWhile_append_dropWhile, hsplit]
  · intro d hd
    rw [← hskip] at hd
    simpa using List.mem_takeWhile_imp hd
  · simp [hcons, hc]
  · intro d hd
    simpa using List.mem_takeWhile_imp hd
  · intro d rest hmore
    have hnot := List.head?_dropWhile_not (· ∉ delims) after
    rw [hmore] at hnot
    simpa using hnot
  · apply tokens_of_strtok
    simp only [strtok, hs, hafter, if_false]

end Tokens

/-! ## Whole lines -/

/-- `getline`: the next line, its newline included, and what remains in the stream. -/
def getline (stream : List UInt8) : Option (List UInt8 × List UInt8) :=
  if stream = [] then none else some (lineOf stream, stream.drop (lineOf stream).length)

/-- The lines that repeated calls of `getline` give. -/
def lines : List UInt8 → List (List UInt8)
  | [] => []
  | c :: s =>
    if c = NEWLINE then [c] :: lines s
    else
      match lines s with
      | [] => [[c]]
      | line :: rest => (c :: line) :: rest

/-- No text follows the last newline. -/
def Terminated (text : List UInt8) : Prop := text = [] ∨ text.getLast? = some NEWLINE

instance decidableTerminated (text : List UInt8) : Decidable (Terminated text) :=
  inferInstanceAs (Decidable (text = [] ∨ text.getLast? = some NEWLINE))

/-- A text is empty, a line without its newline, or a line followed by a text. -/
@[elab_as_elim]
theorem text_induction {motive : List UInt8 → Prop} (nil : motive [])
    (last : ∀ line, NEWLINE ∉ line → line ≠ [] → motive line)
    (cons : ∀ line rest, NEWLINE ∉ line → motive rest → motive (line ++ NEWLINE :: rest))
    (text : List UInt8) : motive text := by
  induction hlen : text.length using Nat.strong_induction_on generalizing text with
  | h n ih =>
    subst hlen
    by_cases hmem : NEWLINE ∈ text
    · obtain ⟨line, rest, rfl, hline⟩ := List.eq_append_cons_of_mem hmem
      refine cons line rest hline (ih rest.length ?_ rest rfl)
      simp only [List.length_append, List.length_cons]
      omega
    · by_cases hnil : text = []
      · exact hnil ▸ nil
      · exact last text hmem hnil

section Getline

variable {line rest stream : List UInt8}

theorem lines_last (hline : NEWLINE ∉ line) (hne : line ≠ []) : lines line = [line] := by
  induction line with
  | nil => exact absurd rfl hne
  | cons c line ih =>
    have hc : c ≠ NEWLINE := fun hc => hline (hc ▸ List.mem_cons_self)
    rw [lines, if_neg hc]
    by_cases hnil : line = []
    · rw [hnil]
      rfl
    · rw [ih (fun h => hline (List.mem_cons_of_mem c h)) hnil]

theorem lines_append (hline : NEWLINE ∉ line) :
    lines (line ++ NEWLINE :: rest) = (line ++ [NEWLINE]) :: lines rest := by
  induction line with
  | nil => rw [List.nil_append, lines, if_pos rfl, List.nil_append]
  | cons c line ih =>
    have hc : c ≠ NEWLINE := fun hc => hline (hc ▸ List.mem_cons_self)
    rw [List.cons_append, lines, if_neg hc, ih fun h => hline (List.mem_cons_of_mem c h),
      List.cons_append]

theorem getline_eq_none_iff : getline stream = none ↔ stream = [] := by
  simp [getline]

theorem lines_of_getline (h : getline stream = some (line, rest)) :
    lines stream = line :: lines rest := by
  unfold getline at h
  split_ifs at h with hnil
  obtain ⟨rfl, rfl⟩ := Prod.mk.inj (Option.some.inj h)
  induction stream using text_induction with
  | nil => exact absurd rfl hnil
  | last line hline hne =>
    rw [lineOf_last fun c hc hc' => hline (hc' ▸ hc), List.drop_length, lines_last hline hne]
    rfl
  | cons line rest hline _ =>
    rw [lineOf_append fun c hc hc' => hline (hc' ▸ hc), lines_append hline,
      List.append_cons line NEWLINE rest, List.drop_left]

theorem getline_lt (h : getline stream = some (line, rest)) : rest.length < stream.length := by
  unfold getline at h
  split_ifs at h with hnil
  obtain ⟨rfl, rfl⟩ := Prod.mk.inj (Option.some.inj h)
  have hpos := List.length_pos_iff.mpr (lineOf_ne_nil hnil)
  have hle := length_lineOf_le stream
  rw [List.length_drop]
  omega

theorem flatten_lines (text : List UInt8) : (lines text).flatten = text := by
  induction text using text_induction with
  | nil => rfl
  | last line hline hne => simp [lines_last hline hne]
  | cons line rest hline ih => simp [lines_append hline, ih]

/-- Only the last line can lack its newline. -/
theorem length_lines (text : List UInt8) :
    (lines text).length = text.count NEWLINE + if Terminated text then 0 else 1 := by
  induction text using text_induction with
  | nil => simp [lines, Terminated]
  | last line hline hne =>
    have hlast : ¬ Terminated line := by
      rintro (h | h)
      · exact hne h
      · exact hline (List.mem_of_getLast? h)
    rw [lines_last hline hne, if_neg hlast, List.count_eq_zero_of_not_mem hline]
    rfl
  | cons line rest hline ih =>
    have hterminated : Terminated (line ++ NEWLINE :: rest) ↔ Terminated rest := by
      rcases rest with _ | ⟨c, rest⟩
      · simp [Terminated]
      · simp [Terminated, List.getLast?_append]
    rw [lines_append hline, List.length_cons, ih, List.count_append, List.count_cons_self,
      List.count_eq_zero_of_not_mem hline]
    simp only [hterminated]
    omega

theorem exists_of_mem_lines {text : List UInt8} (htext : Terminated text)
    (hline : line ∈ lines text) : ∃ s, NEWLINE ∉ s ∧ line = s ++ [NEWLINE] := by
  induction text using text_induction with
  | nil => cases hline
  | last s hs hne =>
    rcases htext with h | h
    · exact absurd h hne
    · exact absurd (List.mem_of_getLast? h) hs
  | cons s rest hs ih =>
    rw [lines_append hs] at hline
    rcases List.mem_cons.mp hline with rfl | hline
    · exact ⟨s, hs, rfl⟩
    · refine ih ?_ hline
      rcases rest with _ | ⟨c, rest⟩
      · exact .inl rfl
      · right
        rcases htext with h | h
        · simp at h
        · simpa [List.getLast?_append] using h

theorem lines_flatten {ls : List (List UInt8)}
    (hls : ∀ line ∈ ls, ∃ s, NEWLINE ∉ s ∧ line = s ++ [NEWLINE]) : lines ls.flatten = ls := by
  induction ls with
  | nil => rfl
  | cons line ls ih =>
    obtain ⟨s, hs, rfl⟩ := hls line List.mem_cons_self
    rw [List.flatten_cons, List.append_assoc, List.singleton_append, lines_append hs,
      ih fun l hl => hls l (List.mem_cons_of_mem _ hl)]

end Getline

/-! ## Lines in pieces -/

section Pieces

variable {n : ℕ} (hn : 2 ≤ n)

theorem fgets_of_length {line rest : List UInt8} (hline : NEWLINE ∉ line) (hlong : n ≤ line.length + 1)
    (hne : line ++ rest ≠ []) (hrest : rest = [] ∨ rest.head? = some NEWLINE) :
    ∃ remaining, fgets n (line ++ rest) = some (line.take (n - 1), remaining) := by
  have hof : lineOf (line ++ rest) = line ∨ lineOf (line ++ rest) = line ++ [NEWLINE] := by
    have hchars : ∀ c ∈ line, c ≠ NEWLINE := fun c hc heq => hline (heq ▸ hc)
    rcases hrest with rfl | hrest
    · left
      rw [List.append_nil, lineOf_last hchars]
    · right
      obtain ⟨tail, rfl⟩ := List.head?_eq_some_iff.mp hrest
      exact lineOf_append hchars
  refine ⟨(line ++ rest).drop ((lineOf (line ++ rest)).take (n - 1)).length, ?_⟩
  simp only [fgets, hne, if_false]
  rcases hof with hof | hof
  · rw [hof]
  · rw [hof, List.take_append_of_le_length (by omega)]

/-- If all pieces are short, then because all lines are. -/
theorem length_pieces_lt_iff {m : ℕ} (hm : m < n) (stream : List UInt8) :
    (∀ piece ∈ pieces n hn stream, piece.length < m) ↔
      (∀ line ∈ lines stream, line.length < m) := by
  induction stream using text_induction with
  | nil => simp [lines]
  | last line hline hne =>
    rw [lines_last hline hne]
    by_cases hfits : line.length + 1 ≤ n
    · rw [pieces_last (fun c hc heq => hline (heq ▸ hc)) hne hfits hn]
    · obtain ⟨remaining, hfgets⟩ : ∃ remaining, fgets n (line ++ []) = some (_, remaining) :=
        fgets_of_length hline (by omega) (by simpa using hne) (.inl rfl)
      rw [List.append_nil] at hfgets
      rw [pieces_of_fgets hn hfgets]
      simp only [List.mem_cons, List.not_mem_nil, or_false, forall_eq, forall_eq_or_imp,
        List.length_take]
      omega
  | cons line rest hline ih =>
    rw [lines_append hline]
    by_cases hfits : line.length + 2 ≤ n
    · rw [pieces_line (fun c hc heq => hline (heq ▸ hc)) hfits hn, List.forall_mem_cons,
        List.forall_mem_cons, ih]
    · obtain ⟨remaining, hfgets⟩ :
          ∃ remaining, fgets n (line ++ NEWLINE :: rest) = some (_, remaining) :=
        fgets_of_length hline (by omega) (by simp) (.inr rfl)
      rw [pieces_of_fgets hn hfgets, List.forall_mem_cons, List.forall_mem_cons]
      simp only [List.length_take, List.length_append, List.length_singleton]
      omega

theorem pieces_of_lines (stream : List UInt8) (h : ∀ line ∈ lines stream, line.length < n) :
    pieces n hn stream = lines stream := by
  induction stream using text_induction with
  | nil => rw [pieces_nil, lines]
  | last line hline hne =>
    rw [lines_last hline hne] at h ⊢
    have hlength := h line (by simp)
    exact pieces_last (fun c hc heq => hline (heq ▸ hc)) hne (by omega) hn
  | cons line rest hline ih =>
    rw [lines_append hline, List.forall_mem_cons] at h
    have hlength := h.1
    simp only [List.length_append, List.length_singleton] at hlength
    rw [lines_append hline, pieces_line (fun c hc heq => hline (heq ▸ hc)) (by omega) hn, ih h.2]

/-- The pieces, one after the other, are the stream. -/
theorem flatten_pieces (stream : List UInt8) : (pieces n hn stream).flatten = stream := by
  induction stream using pieces.induct n hn with
  | case1 stream h =>
    rw [fgets_eq_none_iff] at h
    rw [h, pieces_nil]
    rfl
  | case2 stream line rest h ih =>
    rw [pieces_of_fgets hn h, List.flatten_cons, ih]
    exact append_of_fgets h

end Pieces

end Sysopy.CText
