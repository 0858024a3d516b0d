import Sysopy.Library.CText

/-!
# Strings inside a buffer

A C string is a position in a buffer of bytes and ends before the next NUL. `strtok` cuts the
buffer into strings by writing NUL over delimiters. The lemmas describe a buffer as a part
before the position followed by the bytes from it on.
-/
namespace Sysopy.CBuffer

open CString
open CText (tokens tokens_cases)

/-- `buf[i]`; a buffer is read as if NUL followed it. -/
def byte (buf : List UInt8) (i : ℕ) : UInt8 := buf.getD i 0

/-- The string at a position. -/
def str (buf : List UInt8) (s : ℕ) : List UInt8 := contents (buf.drop s)

/-- The length of the initial part of the string at `s` with bytes in `p`, as computed by
`strspn`, `strcspn` and scanning loops. -/
def span (p : UInt8 → Bool) (buf : List UInt8) (s : ℕ) : ℕ :=
  ((str buf s).takeWhile p).length

def memmove (buf : List UInt8) (dst src n : ℕ) : List UInt8 :=
  buf.take dst ++ (List.range n).map (fun i => byte buf (src + i)) ++ buf.drop (dst + n)

/-- `strtok` with one delimiter from `s` on, which is the position saved before in a call with
`NULL`: the token, the buffer and the position saved for the next call. -/
def strtok (delim : UInt8) (buf : List UInt8) (s : ℕ) : Option ℕ × List UInt8 × ℕ :=
  let token := s + span (· == delim) buf s
  if byte buf token = 0 then (none, buf, token)
  else
    let stop := token + span (· != delim) buf token
    if byte buf stop = 0 then (some token, buf, stop)
    else (some token, buf.set stop 0, stop + 1)

theorem length_strtok (delim : UInt8) (buf : List UInt8) (s : ℕ) :
    (strtok delim buf s).2.1.length = buf.length := by
  unfold strtok
  simp only
  split_ifs <;> simp

section Append

variable (before after : List UInt8)

theorem byte_append (i : ℕ) : byte (before ++ after) (before.length + i) = byte after i := by
  simp [byte, List.getElem?_append_right]

theorem byte_append_length : byte (before ++ after) before.length = byte after 0 :=
  byte_append before after 0

theorem memmove_append (src n : ℕ) :
    memmove (before ++ after) before.length (before.length + src) n =
      before ++ ((List.range n).map (fun i => byte after (src + i)) ++ after.drop n) := by
  simp only [memmove, List.take_left, Nat.add_assoc, byte_append, List.drop_append,
    Nat.add_sub_cancel_left, List.drop_eq_nil_of_le (Nat.le_add_right before.length n),
    List.nil_append, List.append_assoc]

theorem set_append (i : ℕ) (c : UInt8) :
    (before ++ after).set (before.length + i) c = before ++ after.set i c := by
  rw [List.set_append_right _ _ (Nat.le_add_right _ _), Nat.add_sub_cancel_left]

theorem str_append (i : ℕ) : str (before ++ after) (before.length + i) = str after i := by
  rw [str, str, List.drop_append, List.drop_eq_nil_of_le (Nat.le_add_right _ _), List.nil_append,
    Nat.add_sub_cancel_left]

theorem span_append (p : UInt8 → Bool) (i : ℕ) :
    span p (before ++ after) (before.length + i) = span p after i := by
  rw [span, str_append, span]

end Append

section Word

variable {s rest : List UInt8}

theorem str_zero (hs : ∀ c ∈ s, c ≠ 0) : str (s ++ 0 :: rest) 0 = s := by
  rw [str, List.drop_zero, contents_append hs, contents_cons_zero, List.append_nil]

theorem exists_str {buf : List UInt8} {i : ℕ} (hnul : 0 ∈ buf.drop i) :
    ∃ before after, buf = before ++ (str buf i ++ 0 :: after) ∧ before.length = i := by
  obtain ⟨t, after, hdrop, ht⟩ := List.eq_append_cons_of_mem hnul
  refine ⟨buf.take i, after, ?_, ?_⟩
  · rw [str, hdrop, contents_append_zero ht, ← hdrop, List.take_append_drop]
  · rw [List.length_take, Nat.min_eq_left]
    by_contra hlt
    rw [List.drop_eq_nil_of_le (Nat.le_of_not_le hlt)] at hnul
    cases hnul

theorem span_of_forall {p : UInt8 → Bool} (hs : ∀ c ∈ s, c ≠ 0 ∧ p c) {c : UInt8}
    (hc : c = 0 ∨ ¬ p c) : span p (s ++ c :: rest) 0 = s.length := by
  rw [span, str, List.drop_zero, contents_append fun c hc => (hs c hc).1,
    List.takeWhile_append_of_pos fun c hc => (hs c hc).2]
  have hstop : (contents (c :: rest)).takeWhile p = [] := by
    by_cases hzero : c = 0
    · simp [hzero]
    · rw [contents_cons hzero, List.takeWhile_cons_of_neg (hc.resolve_left hzero)]
  rw [hstop, List.append_nil]

end Word

/-! ## `strtok` -/

section Strtok

variable {delim : UInt8} (hdelim : delim ≠ 0) (before skip token rest : List UInt8)

theorem span_token (htoken : ∀ c ∈ token, c ≠ delim ∧ c ≠ 0)
    {c : UInt8} (hc : c = 0 ∨ c = delim) :
    span (· != delim) (before ++ (skip ++ (token ++ c :: rest))) (before.length + skip.length) =
      token.length := by
  have h := span_append skip (token ++ c :: rest) (· != delim) 0
  rw [Nat.add_zero] at h
  rw [span_append, h]
  apply span_of_forall
  · intro d hd
    exact ⟨(htoken d hd).2, by simpa using (htoken d hd).1⟩
  · simpa using hc

include hdelim

theorem span_delims (hskip : ∀ c ∈ skip, c = delim) {c : UInt8} (hc : c ≠ delim) :
    span (· == delim) (before ++ (skip ++ c :: rest)) before.length = skip.length := by
  have h := span_append before (skip ++ c :: rest) (· == delim) 0
  rw [Nat.add_zero] at h
  rw [h]
  apply span_of_forall
  · intro d hd
    rw [hskip d hd]
    exact ⟨hdelim, beq_self_eq_true delim⟩
  · right
    simpa using hc

theorem strtok_none (hskip : ∀ c ∈ skip, c = delim) :
    strtok delim (before ++ (skip ++ 0 :: rest)) before.length =
      (none, before ++ (skip ++ 0 :: rest), before.length + skip.length) := by
  have hbyte : byte (before ++ (skip ++ 0 :: rest)) (before.length + skip.length) = 0 := by
    rw [byte_append, byte_append_length]
    rfl
  rw [strtok, span_delims hdelim before skip rest hskip (Ne.symm hdelim), if_pos hbyte]

/-- The token that a delimiter or the NUL ends: a delimiter is overwritten and skipped. -/
theorem strtok_some (hskip : ∀ c ∈ skip, c = delim) (hne : token ≠ [])
    (htoken : ∀ c ∈ token, c ≠ delim ∧ c ≠ 0) {c : UInt8} (hc : c = 0 ∨ c = delim) :
    strtok delim (before ++ (skip ++ (token ++ c :: rest))) before.length =
      (some (before.length + skip.length), before ++ (skip ++ (token ++ 0 :: rest)),
        before.length + skip.length + token.length + if c = 0 then 0 else 1) := by
  obtain ⟨d, token', rfl⟩ := List.exists_cons_of_ne_nil hne
  have hd := htoken d (by simp)
  have hfirst : byte (before ++ (skip ++ (d :: token' ++ c :: rest)))
      (before.length + skip.length) ≠ 0 := by
    rw [byte_append, byte_append_length]
    exact hd.2
  have hlast : byte (before ++ (skip ++ (d :: token' ++ c :: rest)))
      (before.length + skip.length + (d :: token').length) = c := by
    rw [Nat.add_assoc, byte_append, byte_append, byte_append_length]
    rfl
  have hspan : span (· == delim) (before ++ (skip ++ (d :: token' ++ c :: rest))) before.length =
      skip.length := span_delims hdelim before skip _ hskip hd.1
  rw [strtok, hspan]
  simp only [hfirst, if_false]
  rw [span_token before skip _ rest htoken hc, hlast]
  split_ifs with hzero
  · rw [hzero]
    rfl
  · rw [Nat.add_assoc, set_append, set_append]
    have hset : (d :: token' ++ c :: rest).set (d :: token').length 0 = d :: token' ++ 0 :: rest := by
      have h := set_append (d :: token') (c :: rest) 0 0
      rwa [Nat.add_zero] at h
    rw [hset]

theorem strtok_token (hne : token ≠ []) (htoken : ∀ c ∈ token, c ≠ delim ∧ c ≠ 0) {c : UInt8}
    (hc : c = 0 ∨ c = delim) :
    strtok delim (before ++ (token ++ c :: rest)) before.length =
      (some before.length, before ++ (token ++ 0 :: rest),
        before.length + token.length + if c = 0 then 0 else 1) :=
  strtok_some hdelim before [] token rest (by simp) hne htoken hc

/-- The next token is the first one of the text in front of the NUL. It ends with a NUL, which
may be that of the text. -/
theorem strtok_tokens {text : List UInt8} (htext : ∀ c ∈ text, c ≠ 0) :
    (tokens [delim] text = [] ∧ ∃ buf saved,
      strtok delim (before ++ (text ++ 0 :: rest)) before.length = (none, buf, saved)) ∨
    ∃ before' token nul text', tokens [delim] text = token :: tokens [delim] text' ∧
      (∀ c ∈ token, c ≠ 0) ∧ (∀ c ∈ text', c ≠ 0) ∧
      (∃ mid, nul ++ (text' ++ 0 :: rest) = 0 :: mid) ∧
      strtok delim (before ++ (text ++ 0 :: rest)) before.length =
        (some before'.length, before' ++ (token ++ (nul ++ (text' ++ 0 :: rest))),
          (before' ++ (token ++ nul)).length) := by
  rcases tokens_cases [delim] text with
    ⟨hall, hnil⟩ | ⟨skip, token, more, rfl, hskip, hne, htoken, hmore, htokens⟩
  · exact .inl ⟨hnil, _, _, strtok_none hdelim before text rest (by simpa using hall)⟩
  have hskip' : ∀ c ∈ skip, c = delim := by simpa using hskip
  have htoken' : ∀ c ∈ token, c ≠ delim ∧ c ≠ 0 := fun c hc =>
    ⟨by simpa using htoken c hc, htext c (by simp [hc])⟩
  right
  cases more with
  | nil =>
    refine ⟨before ++ skip, token, [], [], htokens, fun c hc => (htoken' c hc).2, by simp,
      ⟨rest, rfl⟩, ?_⟩
    have hstrtok := strtok_some hdelim before skip token rest hskip' hne htoken'
      (.inl (rfl : (0 : UInt8) = 0))
    rw [List.append_nil, List.append_assoc, hstrtok]
    simp [Nat.add_assoc]
  | cons d text' =>
    obtain rfl : d = delim := by simpa using hmore d text' rfl
    refine ⟨before ++ skip, token, [0], text', htokens, fun c hc => (htoken' c hc).2,
      fun c hc => htext c (by simp [hc]), ⟨_, rfl⟩, ?_⟩
    have hstrtok := strtok_some hdelim before skip token (text' ++ 0 :: rest)
      hskip' hne htoken' (.inr (rfl : d = d))
    rw [List.append_assoc, List.append_assoc, List.cons_append, hstrtok, if_neg hdelim]
    simp [Nat.add_assoc]

end Strtok

end Sysopy.CBuffer
