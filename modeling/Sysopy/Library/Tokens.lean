import Mathlib.Data.List.Chain
import Sysopy.Library.CText

/-!
# Tokens of a text that comes in pieces

The tokens of the pieces are those of the text, unless a piece ends and the next one begins in
the middle of a token. Then there is a token more.
-/
namespace Sysopy.CText

section Cons

variable {delims s : List UInt8} {c d : UInt8}

theorem tokens_cons_of_mem (hc : c ∈ delims) (s : List UInt8) :
    tokens delims (c :: s) = tokens delims s := by
  have hstrtok : strtok delims (c :: s) = strtok delims s := by
    rw [strtok, List.dropWhile_cons_of_pos (by simpa using hc)]
    rfl
  cases hs : strtok delims s with
  | none => rw [tokens_of_strtok_eq_none hs, tokens_of_strtok_eq_none (hstrtok.trans hs)]
  | some next =>
    obtain ⟨token, rest⟩ := next
    rw [tokens_of_strtok hs, tokens_of_strtok (hstrtok.trans hs)]

theorem tokens_nil (delims : List UInt8) : tokens delims [] = [] :=
  tokens_delims (List.forall_mem_nil (· ∈ delims))

theorem tokens_cons_of_head (hc : c ∉ delims) (hs : ∀ d ∈ s.head?, d ∈ delims) :
    tokens delims (c :: s) = [c] :: tokens delims s := by
  cases s with
  | nil =>
    rw [tokens_of_strtok (strtok_last (by simp) (by simpa using hc)), tokens_nil]
  | cons d s =>
    have hd : d ∈ delims := hs d rfl
    have hsplit : c :: d :: s = [] ++ ([c] ++ d :: s) := rfl
    rw [hsplit, tokens_append (by simp) (by simp) (by simpa using hc) hd, tokens_cons_of_mem hd]

theorem tokens_cons_cons (hc : c ∉ delims) (hd : d ∉ delims) (s : List UInt8) :
    ∃ token rest, tokens delims (d :: s) = token :: rest ∧
      tokens delims (c :: d :: s) = (c :: token) :: rest := by
  have hstrtok (a : UInt8) (t : List UInt8) (ha : a ∉ delims) : strtok delims (a :: t) =
      some (a :: t.takeWhile (· ∉ delims), (t.dropWhile (· ∉ delims)).tail) := by
    have hdrop : (a :: t).dropWhile (· ∈ delims) = a :: t :=
      List.dropWhile_cons_of_neg (by simpa using ha)
    simp only [strtok, hdrop, List.cons_ne_nil, if_false]
    rw [List.takeWhile_cons_of_pos (by simpa using ha),
      List.dropWhile_cons_of_pos (by simpa using ha)]
  refine ⟨_, _, tokens_of_strtok (hstrtok d s hd), ?_⟩
  rw [tokens_of_strtok (hstrtok c (d :: s) hc), List.takeWhile_cons_of_pos (by simpa using hd),
    List.dropWhile_cons_of_pos (by simpa using hd)]

/-- The tokens have all bytes of a text but the delimiters. -/
theorem flatten_tokens (delims s : List UInt8) :
    (tokens delims s).flatten = s.filter (· ∉ delims) := by
  induction s with
  | nil => rw [tokens_nil]; rfl
  | cons c s ih =>
    by_cases hc : c ∈ delims
    · rw [tokens_cons_of_mem hc, ih, List.filter_cons_of_neg (by simpa using hc)]
    rw [List.filter_cons_of_pos (by simpa using hc), ← ih]
    by_cases hhead : ∀ d ∈ s.head?, d ∈ delims
    · rw [tokens_cons_of_head hc hhead]
      rfl
    · -- the first byte of the rest is one of the same token
      cases s with
      | nil => exact absurd (by simp) hhead
      | cons d s =>
        have hd : d ∉ delims := fun hd => hhead (by simpa using hd)
        obtain ⟨token, rest, htokens, hcons⟩ := tokens_cons_cons hc hd s
        rw [hcons, htokens]
        rfl

end Cons

/-! ## Two parts -/

/-- No token goes on from the first part to the second. -/
def Apart (delims p q : List UInt8) : Prop :=
  (∀ c ∈ p.getLast?, c ∈ delims) ∨ ∀ c ∈ q.head?, c ∈ delims

section Append

variable {delims : List UInt8} (p q : List UInt8)

theorem tokens_append_of_apart (h : Apart delims p q) :
    tokens delims (p ++ q) = tokens delims p ++ tokens delims q := by
  induction p with
  | nil => rw [tokens_nil, List.nil_append, List.nil_append]
  | cons c p ih =>
    cases p with
    | nil =>
      by_cases hc : c ∈ delims
      · rw [List.singleton_append, tokens_cons_of_mem hc, tokens_cons_of_mem hc,
          tokens_nil, List.nil_append]
      · have hhead : ∀ d ∈ q.head?, d ∈ delims := h.resolve_left (by simpa using hc)
        rw [List.singleton_append, tokens_cons_of_head hc hhead, tokens_cons_of_head hc (by simp),
          tokens_nil]
        rfl
    | cons d p =>
      have hrest := ih (by simpa [Apart] using h)
      by_cases hc : c ∈ delims
      · rw [List.cons_append, tokens_cons_of_mem hc, tokens_cons_of_mem hc, hrest]
      by_cases hd : d ∈ delims
      · rw [List.cons_append, tokens_cons_of_head hc (by simpa using hd),
          tokens_cons_of_head hc (by simpa using hd), hrest, List.cons_append]
      · obtain ⟨token, rest, htokens, hcons⟩ := tokens_cons_cons hc hd p
        obtain ⟨token', rest', htokens', hcons'⟩ := tokens_cons_cons hc hd (p ++ q)
        rw [List.cons_append, htokens', htokens, List.cons_append] at hrest
        obtain ⟨rfl, rfl⟩ := List.cons.inj hrest
        rw [List.cons_append, List.cons_append, hcons', hcons, List.cons_append]

theorem length_tokens_append (h : ¬ Apart delims p q) :
    (tokens delims (p ++ q)).length + 1 = (tokens delims p).length + (tokens delims q).length := by
  induction p with
  | nil => exact absurd (.inl (by simp)) h
  | cons c p ih =>
    cases p with
    | nil =>
      have hc : c ∉ delims := fun hc => h (.inl (by simpa using hc))
      cases q with
      | nil => exact absurd (.inr (by simp)) h
      | cons d q =>
        have hd : d ∉ delims := fun hd => h (.inr (by simpa using hd))
        obtain ⟨token, rest, htokens, hcons⟩ := tokens_cons_cons hc hd q
        rw [List.singleton_append, hcons, htokens, tokens_cons_of_head hc (by simp),
          tokens_nil]
        simp only [List.length_cons, List.length_nil]
        omega
    | cons d p =>
      have hrest := ih (by simpa [Apart] using h)
      by_cases hc : c ∈ delims
      · rw [List.cons_append, tokens_cons_of_mem hc, tokens_cons_of_mem hc, hrest]
      by_cases hd : d ∈ delims
      · rw [List.cons_append, tokens_cons_of_head hc (by simpa using hd),
          tokens_cons_of_head hc (by simpa using hd), List.length_cons, List.length_cons, hrest]
        omega
      · obtain ⟨token, rest, htokens, hcons⟩ := tokens_cons_cons hc hd p
        obtain ⟨token', rest', htokens', hcons'⟩ := tokens_cons_cons hc hd (p ++ q)
        rw [List.cons_append, htokens', htokens, List.length_cons, List.length_cons] at hrest
        rw [List.cons_append, List.cons_append, hcons', hcons, List.length_cons, List.length_cons,
          hrest]

theorem length_tokens_append_le :
    (tokens delims (p ++ q)).length ≤ (tokens delims p).length + (tokens delims q).length := by
  by_cases h : Apart delims p q
  · rw [tokens_append_of_apart p q h, List.length_append]
  · have hlength := length_tokens_append p q h
    omega

end Append

/-! ## Many pieces -/

section Pieces

variable {delims : List UInt8} {ps : List (List UInt8)} (hps : ∀ p ∈ ps, p ≠ [])

theorem length_tokens_flatten_le (ps : List (List UInt8)) :
    (tokens delims ps.flatten).length ≤ (ps.flatMap (tokens delims)).length := by
  induction ps with
  | nil => rw [List.flatten_nil, tokens_nil, List.flatMap_nil]
  | cons p ps ih =>
    have hle : (tokens delims (p ++ ps.flatten)).length ≤ _ := length_tokens_append_le p ps.flatten
    rw [List.flatten_cons, List.flatMap_cons, List.length_append]
    omega

include hps

theorem isChain_cons_iff {p : List UInt8} :
    (p :: ps).IsChain (Apart delims) ↔ Apart delims p ps.flatten ∧ ps.IsChain (Apart delims) := by
  cases ps with
  | nil => exact iff_of_true (.singleton p) ⟨.inr (by simp), .nil⟩
  | cons q ps =>
    obtain ⟨c, q', rfl⟩ := List.exists_cons_of_ne_nil (hps q List.mem_cons_self)
    rw [List.isChain_cons_cons, Apart, Apart]
    rfl

theorem flatMap_tokens (h : ps.IsChain (Apart delims)) :
    ps.flatMap (tokens delims) = tokens delims ps.flatten := by
  induction ps with
  | nil => rw [List.flatten_nil, tokens_nil, List.flatMap_nil]
  | cons p ps ih =>
    rw [List.forall_mem_cons] at hps
    obtain ⟨hp, hrest⟩ := (isChain_cons_iff hps.2).mp h
    rw [List.flatMap_cons, List.flatten_cons, ih hps.2 hrest, tokens_append_of_apart p _ hp]

theorem isChain_of_length_le
    (h : (ps.flatMap (tokens delims)).length ≤ (tokens delims ps.flatten).length) :
    ps.IsChain (Apart delims) := by
  induction ps with
  | nil => exact .nil
  | cons p ps ih =>
    rw [List.forall_mem_cons] at hps
    have hle : (tokens delims ps.flatten).length ≤ _ := length_tokens_flatten_le ps
    rw [List.flatMap_cons, List.flatten_cons, List.length_append] at h
    rw [isChain_cons_iff hps.2]
    by_cases hp : Apart delims p ps.flatten
    · rw [tokens_append_of_apart p _ hp, List.length_append] at h
      exact ⟨hp, ih hps.2 (by omega)⟩
    · have hlength := length_tokens_append p _ hp
      omega

end Pieces

/-! ## Pieces of a stream -/

section Stream

variable {n : ℕ} {stream read rest before tail : List UInt8}

theorem fgets_eq_some (h : fgets n stream = some (read, rest)) :
    stream ≠ [] ∧ read = (lineOf stream).take (n - 1) ∧ rest = stream.drop read.length := by
  unfold fgets at h
  split_ifs at h with hnil
  obtain ⟨rfl, rfl⟩ := Prod.mk.inj (Option.some.inj h)
  exact ⟨hnil, rfl, rfl⟩

theorem ne_nil_of_mem_pieces (hn : 2 ≤ n) {piece : List UInt8} (h : piece ∈ pieces n hn stream) :
    piece ≠ [] := by
  induction stream using pieces.induct n hn with
  | case1 stream hfgets =>
    rw [fgets_eq_none_iff] at hfgets
    rw [hfgets, pieces_nil] at h
    cases h
  | case2 stream line rest hfgets ih =>
    rw [pieces_of_fgets hn hfgets, List.mem_cons] at h
    rcases h with rfl | h
    · obtain ⟨hne, hline, _⟩ := fgets_eq_some hfgets
      have hpos := List.length_pos_iff.mpr (lineOf_ne_nil hne)
      rintro rfl
      have hlength := congrArg List.length hline
      rw [List.length_nil, List.length_take] at hlength
      omega
    · exact ih h

theorem length_lineOf_append_le (before tail : List UInt8) :
    (lineOf (before ++ NEWLINE :: tail)).length ≤ before.length + 1 := by
  induction before with
  | nil => rw [List.nil_append, lineOf, if_pos rfl]; rfl
  | cons c before ih =>
    rw [List.cons_append, lineOf]
    split_ifs
    · exact Nat.le_add_left 1 _
    · rw [List.length_cons, List.length_cons]
      omega

theorem terminated_drop (h : Terminated stream) (k : ℕ) : Terminated (stream.drop k) := by
  rcases Nat.lt_or_ge k stream.length with hlt | hge
  · rcases h with rfl | h
    · cases hlt
    · right
      rw [List.getLast?_drop, if_neg (by omega), h]
  · exact .inl (List.drop_eq_nil_of_le hge)

theorem fgets_long {line : List UInt8} (hline : NEWLINE ∉ line) (hlong : n ≤ line.length + 1) :
    fgets n (line ++ NEWLINE :: rest) =
      some (line.take (n - 1), line.drop (n - 1) ++ NEWLINE :: rest) := by
  obtain ⟨left, h⟩ : ∃ left, fgets n (line ++ NEWLINE :: rest) = some (line.take (n - 1), left) :=
    fgets_of_length hline hlong (by simp) (.inr rfl)
  obtain ⟨_, _, rfl⟩ := fgets_eq_some h
  rw [h, List.length_take_of_le (by omega), List.drop_append_of_le_length (by omega)]

theorem exists_of_fgets (h : fgets n (before ++ NEWLINE :: tail) = some (read, rest)) :
    ∃ left, Terminated left ∧ rest = left ++ tail := by
  obtain ⟨_, hread, hrest⟩ := fgets_eq_some h
  have hline := length_lineOf_append_le before tail
  have hlength : read.length ≤ (before ++ [NEWLINE]).length := by
    rw [hread, List.length_take, List.length_append, List.length_singleton]
    omega
  rw [List.append_cons, List.drop_append_of_le_length hlength] at hrest
  refine ⟨_, terminated_drop (.inr ?_) _, hrest⟩
  exact List.getLast?_concat

/-- Pieces do not go over the end of a line. -/
theorem pieces_append (hn : 2 ≤ n) (hbefore : Terminated before) (tail : List UInt8) :
    pieces n hn (before ++ tail) = pieces n hn before ++ pieces n hn tail := by
  induction before using pieces.induct n hn with
  | case1 before h =>
    rw [fgets_eq_none_iff] at h
    rw [h, pieces_nil, List.nil_append, List.nil_append]
  | case2 before line rest h ih =>
    obtain ⟨hne, hline, hrest⟩ := fgets_eq_some h
    obtain ⟨s, t, hsplit, hs⟩ :=
      List.eq_append_cons_of_mem (List.mem_of_getLast? (hbefore.resolve_left hne))
    have hof : lineOf (before ++ tail) = lineOf before := by
      rw [hsplit, List.append_assoc, List.cons_append,
        lineOf_append fun c hc heq => hs (heq ▸ hc), lineOf_append fun c hc heq => hs (heq ▸ hc)]
    have hlength : line.length ≤ before.length := by
      rw [hline, List.length_take]
      exact (Nat.min_le_right _ _).trans (length_lineOf_le before)
    have hfgets : fgets n (before ++ tail) = some (line, rest ++ tail) := by
      have hne' : before ++ tail ≠ [] := fun hnil => hne (List.append_eq_nil_iff.mp hnil).1
      simp only [fgets, hne', if_false]
      rw [hof, ← hline, List.drop_append_of_le_length hlength, ← hrest]
    have hterm : Terminated rest := hrest ▸ terminated_drop hbefore line.length
    rw [pieces_of_fgets hn hfgets, pieces_of_fgets hn h, ih hterm, List.cons_append]

end Stream

end Sysopy.CText
