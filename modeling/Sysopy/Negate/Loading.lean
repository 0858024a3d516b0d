import Sysopy.Library.Tokens
import Sysopy.Negate.Files

/-!
# Loading the cells of a file

The cells come from the pieces of the body that fit into the buffer. A token that goes on from
one piece to the next is stored twice, and a value outside of `long` becomes the nearest `long`.
-/
namespace Sysopy.Negate

open CInteger CString CText

/-! ## Storing tokens -/

theorem two_le_MAX_LINE_LEN : 2 ≤ MAX_LINE_LEN := by decide

/-- The tokens of a body, as the loop gets them. -/
def loadedTokens (body : List UInt8) : List (List UInt8) :=
  (pieces MAX_LINE_LEN two_le_MAX_LINE_LEN body).flatMap fun piece => tokens bodyDelims (contents piece)

theorem loadLines_eq (s : Image × ℕ) (body : List UInt8) :
    (pieces MAX_LINE_LEN two_le_MAX_LINE_LEN body).foldlM loadLine s =
      (loadedTokens body).foldlM storeToken s := by
  rw [loadedTokens]
  generalize pieces MAX_LINE_LEN _ body = ps
  induction ps generalizing s with
  | nil => rfl
  | cons p ps ih =>
    rw [List.foldlM_cons, List.flatMap_cons, List.foldlM_append]
    exact congrArg _ (funext ih)

theorem exists_of_loadImage {memory image : TypedImage} {file : List UInt8}
    (h : loadImage memory file = some image) :
    ∃ line1 rest1 line2 rest2 line3 rest3, fgets LINE_LEN file = some (line1, rest1) ∧
      fgets MAX_LINE_LEN rest1 = some (line2, rest2) ∧
      fgets MAX_LINE_LEN rest2 = some (line3, rest3) ∧
      (loadedTokens rest3).length ≤ MAX_PIXELS ∧
      image.cells = fun j => ((loadedTokens rest3).map tokenCell)[j]?.getD (memory.cells j) := by
  obtain ⟨⟨line1, rest1⟩, h1, h⟩ := Option.bind_eq_some_iff.mp h
  obtain ⟨⟨line2, rest2⟩, h2, h⟩ := Option.bind_eq_some_iff.mp h
  obtain ⟨⟨width, rest⟩, _, h⟩ := Option.bind_eq_some_iff.mp h
  obtain ⟨⟨height, rest'⟩, _, h⟩ := Option.bind_eq_some_iff.mp h
  obtain ⟨⟨line3, rest3⟩, h3, h⟩ := Option.bind_eq_some_iff.mp h
  obtain ⟨⟨loaded, i⟩, hloaded, h⟩ := Option.bind_eq_some_iff.mp h
  rw [loadLines_eq, storeTokens_eq _ (Nat.zero_le _)] at hloaded
  split_ifs at hloaded with hcount
  rw [Nat.zero_add] at hcount
  obtain ⟨rfl, _⟩ := Prod.mk.inj (Option.some.inj hloaded)
  obtain rfl := Option.some.inj h
  exact ⟨line1, rest1, line2, rest2, line3, rest3, h1, h2, h3, hcount, funext fun j => by
    simp [Image.storeAll, TypedImage.setType]⟩

/-! ## Files -/

/-- A type line, a line with the size and one with the largest value. -/
structure Header where
  type : List UInt8
  width : Spelling
  height : Spelling
  max : Spelling
  newline_notMem : NEWLINE ∉ type
  blanks_eq : ∀ s ∈ [width, height, max], s.blanks = []

namespace Header

variable (header : Header)

def size : List UInt8 := header.width.text ++ 32 :: header.height.text

def file (body : List UInt8) : List UInt8 :=
  header.type ++ NEWLINE :: (header.size ++ NEWLINE :: (header.max.text ++ NEWLINE :: body))

theorem mem_text {s : Spelling}
    (hs : s ∈ [header.width, header.height, header.max]) {c : UInt8} (hc : c ∈ s.text) :
    c ≠ NEWLINE ∧ c ≠ 0 ∧ c ∉ bodyDelims := by
  rcases s.mem_text (header.blanks_eq s hs) hc with rfl | rfl | hdigit
  · decide
  · decide
  · refine ⟨?_, ?_, notMem_bodyDelims_of_isdigit hdigit⟩
    · rintro rfl
      exact absurd hdigit (by decide)
    · rintro rfl
      exact absurd hdigit (by decide)

theorem mem_size {c : UInt8} (hc : c ∈ header.size) : c ≠ NEWLINE ∧ c ≠ 0 := by
  rcases List.mem_append.mp hc with hc | hc
  · have h := header.mem_text (by simp) hc
    exact ⟨h.1, h.2.1⟩
  · rcases List.mem_cons.mp hc with rfl | hc
    · decide
    · have h := header.mem_text (by simp) hc
      exact ⟨h.1, h.2.1⟩

theorem exists_strtok : ∃ rest height rest',
    strtok [32] (contents (header.size ++ [NEWLINE])) = some (header.width.text, rest) ∧
      strtok [32] rest = some (height, rest') := by
  have hbytes : ∀ s ∈ [header.width, header.height, header.max], ∀ c ∈ s.text, c ≠ 32 ∧ c ≠ 0 := by
    intro s hs c hc
    have h := header.mem_text hs hc
    refine ⟨?_, h.2.1⟩
    rintro rfl
    exact absurd (by decide) h.2.2
  obtain ⟨rest, rest', hwidth, hheight⟩ :=
    strtok_size header.width.text_ne_nil (hbytes _ (by simp)) (hbytes header.height (by simp))
  exact ⟨rest, _, rest', hwidth, hheight⟩

end Header

/-- What loading a file is for: the cells are the values, and no other cell is written. -/
def Loads (file : List UInt8) (values : List ℤ) : Prop :=
  ∀ memory, ∃ image, loadImage memory file = some image ∧
    image.cells = fun j => (values.map UInt8.ofInt)[j]?.getD (memory.cells j)

/-- The lines of the header fit into the buffers, no token of the body goes on from one piece to
the next, and the nearest `long` of a value is the same modulo 256. -/
structure Loadable (header : Header) (body : List UInt8) (values : List ℤ) : Prop where
  type : header.type.length + 2 ≤ LINE_LEN
  size : header.size.length + 2 ≤ MAX_LINE_LEN
  max : header.max.text.length + 1 ≤ MAX_LINE_LEN
  apart : (pieces MAX_LINE_LEN two_le_MAX_LINE_LEN body).IsChain (Apart bodyDelims)
  range : ∀ n ∈ values, (n ≤ LONG_MAX ∨ n % 256 = 255) ∧ (LONG_MIN ≤ n ∨ n % 256 = 0)

section File

variable {header : Header} {body : List UInt8} {numbers : List Spelling}
  (htokens : tokens bodyDelims body = numbers.map Spelling.text)

theorem tokenCell_eq_iff (s : Spelling) : tokenCell s.text = UInt8.ofInt s.value ↔
    (s.value ≤ LONG_MAX ∨ s.value % 256 = 255) ∧ (LONG_MIN ≤ s.value ∨ s.value % 256 = 0) := by
  have hread : strtol (s.text ++ []) = _ := s.strtol_append rfl
  rw [List.append_nil] at hread
  rw [tokenCell, hread, ← UInt8.toNat_inj, ← Nat.cast_inj (R := ℤ), toNat_ofInt, toNat_ofInt]
  simp only [LONG_MAX, LONG_MIN]
  omega

theorem loadedTokens_append {before : List UInt8} (hbefore : Terminated before)
    (tail : List UInt8) : loadedTokens (before ++ tail) = loadedTokens before ++ loadedTokens tail := by
  rw [loadedTokens, pieces_append _ hbefore, List.flatMap_append]
  rfl

theorem loadedTokens_eq (hbody : 0 ∉ body) :
    loadedTokens body =
      (pieces MAX_LINE_LEN two_le_MAX_LINE_LEN body).flatMap (tokens bodyDelims) := by
  apply List.flatMap_congr
  intro piece hpiece
  rw [contents_of_notMem]
  intro hzero
  refine hbody ?_
  rw [← flatten_pieces two_le_MAX_LINE_LEN body]
  exact List.mem_flatten_of_mem hpiece hzero

theorem length_tokens_le_loadedTokens (hbody : 0 ∉ body) :
    (tokens bodyDelims body).length ≤ (loadedTokens body).length := by
  have hle : (tokens bodyDelims _).length ≤ _ :=
    length_tokens_flatten_le (pieces MAX_LINE_LEN two_le_MAX_LINE_LEN body)
  rwa [flatten_pieces, ← loadedTokens_eq hbody] at hle

include htokens in
theorem zero_notMem_body : 0 ∉ body := by
  intro hzero
  have hmem : (0 : UInt8) ∈ (tokens bodyDelims body).flatten := by
    rw [flatten_tokens]
    exact List.mem_filter.mpr ⟨hzero, by decide⟩
  rw [htokens] at hmem
  obtain ⟨token, htoken, hmem⟩ := List.mem_flatten.mp hmem
  obtain ⟨s, _, rfl⟩ := List.mem_map.mp htoken
  exact s.zero_notMem_text hmem

theorem eq_of_getD_eq {a b : Option UInt8} (h : ∀ x, a.getD x = b.getD x) : a = b := by
  cases a with
  | none =>
    cases b with
    | none => rfl
    | some y => exact absurd (h (y + 1)) (by simp)
  | some x =>
    cases b with
    | none => exact absurd (h (x + 1)) (by simp)
    | some y => exact congrArg some (h x)

/-- Whatever is in memory, the cells are those of the tokens behind three calls of `fgets`. -/
theorem Loads.exists_rest {file : List UInt8} {values : List ℤ} (h : Loads file values) :
    ∃ line1 rest1 line2 rest2 line3 rest3, fgets LINE_LEN file = some (line1, rest1) ∧
      fgets MAX_LINE_LEN rest1 = some (line2, rest2) ∧
      fgets MAX_LINE_LEN rest2 = some (line3, rest3) ∧
      (loadedTokens rest3).map tokenCell = values.map UInt8.ofInt := by
  have hload (x : UInt8) := h ⟨⟨fun _ => x, 0, 0, 0⟩, fun _ => 0⟩
  obtain ⟨image, himage, _⟩ := hload 0
  obtain ⟨line1, rest1, line2, rest2, line3, rest3, h1, h2, h3, _⟩ := exists_of_loadImage himage
  refine ⟨line1, rest1, line2, rest2, line3, rest3, h1, h2, h3, ?_⟩
  apply List.ext_getElem?
  intro j
  apply eq_of_getD_eq
  intro x
  obtain ⟨image, himage, hcells⟩ := hload x
  obtain ⟨_, _, _, _, _, _, h1', h2', h3', _, hcells'⟩ := exists_of_loadImage himage
  obtain ⟨rfl, rfl⟩ := Prod.mk.inj (Option.some.inj (h1.symm.trans h1'))
  obtain ⟨rfl, rfl⟩ := Prod.mk.inj (Option.some.inj (h2.symm.trans h2'))
  obtain ⟨rfl, rfl⟩ := Prod.mk.inj (Option.some.inj (h3.symm.trans h3'))
  exact congrFun (hcells'.symm.trans hcells) j

/-- A header whose lines do not fit gives the body a token more. -/
theorem lt_length_loadedTokens {before number : List UInt8} (hbefore : Terminated before)
    (hbody : 0 ∉ body) (hne : number ≠ [])
    (hnumber : ∀ c ∈ number, c ≠ NEWLINE ∧ c ≠ 0 ∧ c ∉ bodyDelims) :
    (tokens bodyDelims body).length <
      (loadedTokens (before ++ (number ++ NEWLINE :: body))).length := by
  have hzero : 0 ∉ number ++ NEWLINE :: body := by
    rw [List.mem_append, List.mem_cons, not_or, not_or]
    exact ⟨fun hmem => (hnumber 0 hmem).2.1 rfl, by decide, hbody⟩
  have hle := length_tokens_le_loadedTokens hzero
  have htokens : tokens bodyDelims (number ++ NEWLINE :: body) =
      number :: tokens bodyDelims body :=
    @tokens_append _ [] _ _ (by simp) hne (fun c hc => (hnumber c hc).2.2) _ (by decide)
  rw [htokens, List.length_cons] at hle
  rw [loadedTokens_append hbefore, List.length_append]
  omega

theorem exists_of_long {n : ℕ} {line rest read left : List UInt8} (hline : NEWLINE ∉ line)
    (hlong : n ≤ line.length + 1) (h : fgets n (line ++ NEWLINE :: rest) = some (read, left)) :
    ∃ before, left = before ++ NEWLINE :: rest := by
  rw [fgets_long hline hlong] at h
  exact ⟨_, (Prod.mk.inj (Option.some.inj h)).2.symm⟩

theorem loadedTokens_behind_max (hmax : header.max.text.length + 1 ≤ MAX_LINE_LEN)
    {line rest : List UInt8}
    (h : fgets MAX_LINE_LEN (header.max.text ++ NEWLINE :: body) = some (line, rest)) :
    loadedTokens rest = loadedTokens body := by
  have hline : NEWLINE ∉ header.max.text := fun hmem => (header.mem_text (by simp) hmem).1 rfl
  by_cases hfits : header.max.text.length + 2 ≤ MAX_LINE_LEN
  · rw [fgets_line (fun c hc heq => hline (heq ▸ hc)) hfits] at h
    rw [(Prod.mk.inj (Option.some.inj h)).2]
  · have hpieces := @pieces_line [] [] (by simp) MAX_LINE_LEN (by decide) (by decide)
    rw [pieces_nil, List.nil_append] at hpieces
    have hnone : loadedTokens [NEWLINE] = [] := by
      rw [loadedTokens, hpieces, List.flatMap_singleton]
      exact tokens_delims (by simp [bodyDelims, NEWLINE, contents])
    rw [fgets_long hline (by omega), List.drop_eq_nil_of_le (by omega)] at h
    rw [← (Prod.mk.inj (Option.some.inj h)).2, List.nil_append, ← List.singleton_append,
      loadedTokens_append (.inr rfl), hnone, List.nil_append]

include htokens

theorem loadable_of_loads (h : Loads (header.file body) (numbers.map Spelling.value)) :
    Loadable header body (numbers.map Spelling.value) := by
  have hbody := zero_notMem_body htokens
  have hcount : (tokens bodyDelims body).length = numbers.length := by
    rw [htokens, List.length_map]
  obtain ⟨line1, rest1, line2, rest2, line3, rest3, h1, h2, h3, hcells⟩ := h.exists_rest
  have hlength := congrArg List.length hcells
  simp only [List.length_map] at hlength
  have hmax : ∀ c ∈ header.max.text, c ≠ NEWLINE ∧ c ≠ 0 ∧ c ∉ bodyDelims :=
    fun c hc => header.mem_text (by simp) hc
  have hsize : NEWLINE ∉ header.size := fun hmem => (header.mem_size hmem).1 rfl
  -- the line of the largest value is not part of what is loaded
  have hless : ∀ before, Terminated before →
      rest3 ≠ before ++ (header.max.text ++ NEWLINE :: body) := by
    rintro before hbefore rfl
    have hlt := lt_length_loadedTokens hbefore hbody header.max.text_ne_nil hmax
    omega
  have htype : header.type.length + 2 ≤ LINE_LEN := by
    by_contra hlong
    obtain ⟨before, rfl⟩ := exists_of_long header.newline_notMem (by omega) h1
    obtain ⟨left, _, rfl⟩ := exists_of_fgets h2
    rw [← List.append_assoc] at h3
    obtain ⟨left', hleft', hrest⟩ := exists_of_fgets h3
    exact hless left' hleft' hrest
  rw [Header.file, fgets_line (fun c hc heq => header.newline_notMem (heq ▸ hc)) htype] at h1
  obtain ⟨_, rfl⟩ := Prod.mk.inj (Option.some.inj h1)
  have hsize' : header.size.length + 2 ≤ MAX_LINE_LEN := by
    by_contra hlong
    obtain ⟨before, rfl⟩ := exists_of_long hsize (by omega) h2
    obtain ⟨left, hleft, hrest⟩ := exists_of_fgets h3
    exact hless left hleft hrest
  rw [fgets_line (fun c hc heq => hsize (heq ▸ hc)) hsize'] at h2
  obtain ⟨_, rfl⟩ := Prod.mk.inj (Option.some.inj h2)
  have hmax' : header.max.text.length + 1 ≤ MAX_LINE_LEN := by
    by_contra hlong
    rw [fgets_long (fun hmem => (hmax _ hmem).1 rfl) (by omega)] at h3
    obtain ⟨_, rfl⟩ := Prod.mk.inj (Option.some.inj h3)
    have hne : header.max.text.drop (MAX_LINE_LEN - 1) ≠ [] := by
      rw [Ne, List.drop_eq_nil_iff]
      omega
    have hlt := lt_length_loadedTokens (.inl rfl) hbody hne
      fun c hc => hmax c (List.mem_of_mem_drop hc)
    rw [List.nil_append] at hlt
    omega
  rw [loadedTokens_behind_max hmax' h3, loadedTokens_eq hbody] at hcells hlength
  have hps : ∀ p ∈ pieces MAX_LINE_LEN two_le_MAX_LINE_LEN body, p ≠ [] :=
    fun p hp => ne_nil_of_mem_pieces (by decide) hp
  have hapart : (pieces MAX_LINE_LEN two_le_MAX_LINE_LEN body).IsChain (Apart bodyDelims) :=
    isChain_of_length_le hps (by
      rw [flatten_pieces]
      omega)
  refine ⟨htype, hsize', hmax', hapart, ?_⟩
  rw [flatMap_tokens hps hapart, flatten_pieces, htokens, List.map_map, List.map_map] at hcells
  intro n hn
  obtain ⟨s, hs, rfl⟩ := List.mem_map.mp hn
  exact (tokenCell_eq_iff s).mp (List.map_inj_left.mp hcells s hs)

theorem loads_of_loadable (hcount : numbers.length ≤ MAX_PIXELS)
    (h : Loadable header body (numbers.map Spelling.value)) :
    Loads (header.file body) (numbers.map Spelling.value) := by
  intro memory
  have hbody := zero_notMem_body htokens
  have hsize : ∀ c ∈ header.size, c ≠ NEWLINE := fun c hc => (header.mem_size hc).1
  have hps : ∀ p ∈ pieces MAX_LINE_LEN two_le_MAX_LINE_LEN body, p ≠ [] :=
    fun p hp => ne_nil_of_mem_pieces (by decide) hp
  have hloaded : loadedTokens body = numbers.map Spelling.text := by
    rw [loadedTokens_eq hbody, flatMap_tokens hps h.apart, flatten_pieces, htokens]
  have h1 : fgets LINE_LEN (header.file body) = some (header.type ++ [NEWLINE], _) :=
    fgets_line (fun c hc heq => header.newline_notMem (heq ▸ hc)) h.type
  have h2 : fgets MAX_LINE_LEN (header.size ++ NEWLINE :: (header.max.text ++ NEWLINE :: body)) =
      some (header.size ++ [NEWLINE], _) := fgets_line hsize h.size
  obtain ⟨⟨line3, rest3⟩, h3⟩ : ∃ read,
      fgets MAX_LINE_LEN (header.max.text ++ NEWLINE :: body) = some read := by
    rw [← Option.ne_none_iff_exists', Ne, fgets_eq_none_iff]
    simp
  have hrest := (loadedTokens_behind_max h.max h3).trans hloaded
  obtain ⟨rest, height, rest', hwidth, hheight⟩ := header.exists_strtok
  obtain ⟨image, himage⟩ : ∃ image, loadImage memory (header.file body) = some image := by
    unfold loadImage
    simp only [h1, h2, h3, hwidth, hheight, Option.bind_eq_bind, Option.bind_some, loadLines_eq,
      hrest]
    rw [storeTokens_eq _ (Nat.zero_le _), List.length_map, if_pos (by omega)]
    exact ⟨_, rfl⟩
  refine ⟨image, himage, ?_⟩
  obtain ⟨_, _, _, _, _, _, h1', h2', h3', _, hcells⟩ := exists_of_loadImage himage
  obtain ⟨rfl, rfl⟩ := Prod.mk.inj (Option.some.inj (h1.symm.trans h1'))
  obtain ⟨rfl, rfl⟩ := Prod.mk.inj (Option.some.inj (h2.symm.trans h2'))
  obtain ⟨rfl, rfl⟩ := Prod.mk.inj (Option.some.inj (h3.symm.trans h3'))
  have hvalues : (numbers.map Spelling.text).map tokenCell =
      (numbers.map Spelling.value).map UInt8.ofInt := by
    rw [List.map_map, List.map_map]
    apply List.map_congr_left
    intro s hs
    exact (tokenCell_eq_iff s).mpr (h.range s.value (List.mem_map_of_mem hs))
  rw [hcells, hrest, hvalues]

/-- The cells are the values of the tokens exactly if no token goes on behind the buffer, and no
value behind the range of `long`. -/
theorem loadImage_loads_iff (hcount : numbers.length ≤ MAX_PIXELS) :
    Loads (header.file body) (numbers.map Spelling.value) ↔
      Loadable header body (numbers.map Spelling.value) :=
  ⟨loadable_of_loads htokens, loads_of_loadable htokens hcount⟩

end File

/-- A number of digits only. -/
def plainNumber (digits : List UInt8) (h : digits ≠ [] ∧ digits.all isdigit = true) : Spelling :=
  .unsigned [] digits rfl h

/-- `P2`, one cell. -/
def smallHeader : Header where
  type := [80, 50]
  width := plainNumber [49] ⟨List.cons_ne_nil _ _, rfl⟩
  height := plainNumber [49] ⟨List.cons_ne_nil _ _, rfl⟩
  max := plainNumber [57] ⟨List.cons_ne_nil _ _, rfl⟩
  newline_notMem := by decide
  blanks_eq := by simp [plainNumber, Spelling.unsigned]

theorem loadImage_loads_iff_oneCell :
    Loads (smallHeader.file [55]) ([plainNumber [55] (by decide)].map Spelling.value) ↔
      Loadable smallHeader [55] ([plainNumber [55] (by decide)].map Spelling.value) :=
  loadImage_loads_iff (by
    rw [tokens_of_strtok (strtok_last (by decide) (by simp [bodyDelims])), tokens_nil]
    rfl) (by decide)

/-- A number whose second digit does not fit into the buffer. -/
theorem not_loadImage_loads :
    ¬ ∀ (header : Header) (body : List UInt8) (numbers : List Spelling),
      tokens bodyDelims body = numbers.map Spelling.text → numbers.length ≤ MAX_PIXELS →
        Loads (header.file body) (numbers.map Spelling.value) := by
  intro hclaim
  obtain ⟨blanks, hlength, hblanks⟩ : ∃ blanks : List UInt8,
      blanks.length = MAX_LINE_LEN - 2 ∧ ∀ c ∈ blanks, c = 32 :=
    ⟨_, List.length_replicate, fun _ => List.eq_of_mem_replicate⟩
  have hskip : ∀ c ∈ blanks, c ∈ bodyDelims := by
    intro c hc
    rw [hblanks c hc]
    decide
  have hline : NEWLINE ∉ blanks ++ [49, 50] := by
    rw [List.mem_append, not_or]
    exact ⟨fun h => absurd (hblanks _ h) (by decide), by decide⟩
  have htokens : tokens bodyDelims (blanks ++ ([49, 50] ++ NEWLINE :: [])) =
      [plainNumber [49, 50] (by decide)].map Spelling.text := by
    rw [tokens_append hskip (by decide) (by simp [bodyDelims]) (by decide), tokens_nil]
    rfl
  have hapart := (loadable_of_loads htokens (hclaim smallHeader _ _ htokens (by decide))).apart
  have hread : fgets MAX_LINE_LEN (blanks ++ [49, 50] ++ NEWLINE :: []) =
      some (blanks ++ [49], [50, NEWLINE]) := by
    have hpart : MAX_LINE_LEN - 1 = blanks.length + 1 := by
      rw [hlength]
      rfl
    rw [fgets_long hline (by simp [hlength, MAX_LINE_LEN]), hpart, List.take_length_add_append,
      List.drop_length_add_append]
    rfl
  have hrest : pieces MAX_LINE_LEN two_le_MAX_LINE_LEN [50, NEWLINE] = [50, NEWLINE] :: _ :=
    @pieces_line [50] [] (by simp [NEWLINE]) _ (by decide) (by decide)
  rw [← List.append_assoc, pieces_of_fgets _ hread, hrest] at hapart
  rcases (List.isChain_cons_cons.mp hapart).1 with h | h
  · rw [List.getLast?_concat] at h
    exact absurd (h 49 rfl) (by decide)
  · exact absurd (h 50 rfl) (by decide)

end Sysopy.Negate
