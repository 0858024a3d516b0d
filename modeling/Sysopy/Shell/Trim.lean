import Mathlib.Data.List.DropRight
import Sysopy.Shell.Commands

/-!
# What `trim` leaves of a string

`ltrim` moves as many bytes as the string has leading blanks, and not as many as follow them.
So the rest of the string arrives as a whole only if there are more blanks than bytes in it;
otherwise its own bytes stay where they are, behind those that were moved.
-/
namespace Sysopy.Shell

open CBuffer CString

/-- The number of blanks that a string begins with. -/
def leading (s : List UInt8) : ℕ := (s.takeWhile blank).length

/-- The string without its leading and trailing blanks. -/
def stripped (s : List UInt8) : List UInt8 := (s.dropWhile blank).rdropWhile blank

/-- The string that `trim` leaves. -/
def trimmed (s : List UInt8) : List UInt8 :=
  if leading s ≤ (stripped s).length then (stripped s).take (leading s) ++ stripped s
  else stripped s

/-! ## The parts of a string -/

section Parts

variable (s : List UInt8)

theorem takeWhile_append_stripped_append :
    s.takeWhile blank ++ (stripped s ++ (s.dropWhile blank).rtakeWhile blank) = s := by
  rw [stripped, List.rdropWhile_append_rtakeWhile, List.takeWhile_append_dropWhile]

theorem mem_of_mem_stripped {s : List UInt8} {c : UInt8} (hc : c ∈ stripped s) : c ∈ s :=
  (List.dropWhile_sublist _).subset ((List.rdropWhile_prefix _ _).subset hc)

theorem stripped_eq_nil_iff {s : List UInt8} : stripped s = [] ↔ ∀ c ∈ s, blank c := by
  rw [stripped, List.rdropWhile_eq_nil_iff]
  constructor
  · intro h c hc
    rw [← List.takeWhile_append_dropWhile (p := blank) (l := s), List.mem_append] at hc
    exact hc.elim List.mem_takeWhile_imp (h c)
  · exact fun h c hc => h c ((List.dropWhile_sublist _).subset hc)

theorem not_blank_getLast_stripped (h : stripped s ≠ []) : ¬ blank ((stripped s).getLast h) :=
  List.rdropWhile_last_not _ _ h

theorem exists_stripped_cons {s : List UInt8} (h : stripped s ≠ []) :
    ∃ c rest, stripped s = c :: rest ∧ ¬ blank c := by
  obtain ⟨c, rest, hcons⟩ := List.exists_cons_of_ne_nil h
  refine ⟨c, rest, hcons, ?_⟩
  obtain ⟨after, hdrop⟩ : stripped s <+: s.dropWhile blank := List.rdropWhile_prefix _ _
  rw [hcons, List.cons_append] at hdrop
  have hnot := List.head?_dropWhile_not blank s
  rw [← hdrop] at hnot
  simpa using hnot

end Parts

/-! ## The bytes that are moved -/

section Moved

variable {s rest : List UInt8} {k : ℕ}

theorem map_byte_range (h : k ≤ s.length) :
    (List.range k).map (byte (s ++ rest)) = s.take k := by
  apply List.ext_getElem
  · simp [h]
  · intro i hi _
    have hlt : i < k := by simpa using hi
    simp [byte, List.getElem?_append_left (hlt.trans_le h), List.getElem?_eq_getElem (hlt.trans_le h)]

theorem contents_map_byte_range (hs : ∀ c ∈ s, c ≠ 0) (h : s.length < k) (after : List UInt8) :
    contents ((List.range k).map (byte (s ++ 0 :: rest)) ++ after) = s := by
  obtain ⟨m, rfl⟩ := Nat.exists_eq_add_of_le (Nat.succ_le_of_lt h)
  have hzero : byte (s ++ 0 :: rest) s.length = 0 := byte_append_length s (0 :: rest)
  rw [List.range_add, List.map_append, List.range_succ, List.map_append,
    map_byte_range (le_refl s.length), List.take_length, List.map_singleton, hzero,
    List.append_assoc, List.append_assoc, contents_append hs, List.singleton_append,
    contents_cons_zero, List.append_nil]

end Moved

/-! ## `trim` -/

section Trim

variable (before rest : List UInt8) {s : List UInt8}

theorem rtrim_of_blank (hs : ∀ c ∈ s, c ≠ 0) (hblank : ∀ c ∈ s, blank c) (hne : s ≠ []) :
    rtrim (before ++ (s ++ 0 :: rest)) before.length = before ++ (0 :: (s.tail ++ 0 :: rest)) := by
  obtain ⟨c, s, rfl⟩ := List.exists_cons_of_ne_nil hne
  have hstr : str (before ++ (c :: s ++ 0 :: rest)) before.length = c :: s := by
    have h := str_append before (c :: s ++ 0 :: rest) 0
    rwa [Nat.add_zero, str_zero hs] at h
  have hloop : rtrimLoop (before ++ (c :: s ++ 0 :: rest)) before.length (c :: s).length = 0 := by
    rw [← Nat.zero_add (c :: s).length, rtrimLoop_of_blank, rtrimLoop]
    intro k hk
    have hbyte : byte (c :: s ++ 0 :: rest) k = (c :: s)[k] := by
      simp only [byte, List.getD, List.getElem?_append_left hk, List.getElem?_eq_getElem hk,
        Option.getD_some]
    rw [Nat.zero_add, byte_append, hbyte]
    exact hblank _ (List.getElem_mem hk)
  have hfirst : byte (before ++ (c :: s ++ 0 :: rest)) before.length ≠ 0 := by
    rw [byte_append_length]
    exact hs c (by simp)
  rw [rtrim, if_neg hfirst, hstr, hloop, set_append]
  rfl

/-- Behind `ws` the string `core` begins; `ltrim` writes over as many bytes as `ws` has. -/
theorem ltrim_append {ws core : List UInt8} (hws : ∀ c ∈ ws, c ≠ 0 ∧ blank c) {c : UInt8}
    {core' : List UInt8} (hcore : core = c :: core') (hc : ¬ blank c ∧ c ≠ 0) :
    ltrim (before ++ (ws ++ (core ++ rest))) before.length =
      before ++ ((List.range ws.length).map (byte (core ++ rest)) ++ (core ++ rest)) := by
  have hspan : span blank (before ++ (ws ++ (core ++ rest))) before.length = ws.length := by
    have h := span_append before (ws ++ (core ++ rest)) blank 0
    rw [Nat.add_zero] at h
    rw [h, hcore, List.cons_append]
    exact span_of_forall hws (.inr hc.1)
  have hfirst : byte (before ++ (ws ++ (core ++ rest))) before.length ≠ 0 := by
    rw [byte_append_length]
    cases ws with
    | nil => exact hcore ▸ hc.2
    | cons d ws => exact (hws d (by simp)).1
  simp only [ltrim, if_neg hfirst, hspan, Nat.add_sub_cancel_left, memmove_append, byte_append,
    List.drop_left]

/-- `trim` writes inside the string only, and leaves its NUL. -/
theorem trim_append (hs : ∀ c ∈ s, c ≠ 0) :
    ∃ text, trim (before ++ (s ++ 0 :: rest)) before.length = before ++ (text ++ 0 :: rest) ∧
      text.length = s.length ∧ contents (text ++ [0]) = trimmed s := by
  rcases eq_or_ne s [] with rfl | hne
  · refine ⟨[], ?_, rfl, rfl⟩
    have hzero : byte (before ++ ([] ++ 0 :: rest)) before.length = 0 := byte_append_length _ _
    rw [trim, rtrim, if_pos hzero, ltrim, if_pos hzero]
  have hparts := takeWhile_append_stripped_append s
  rcases eq_or_ne (stripped s) [] with hnil | hcore
  · -- all of the string is blank, and `ltrim` returns at once
    have hblank := stripped_eq_nil_iff.mp hnil
    have hpos : 0 < s.length := List.length_pos_iff.mpr hne
    refine ⟨0 :: s.tail, ?_, ?_, ?_⟩
    · have hzero : byte (before ++ 0 :: (s.tail ++ 0 :: rest)) before.length = 0 :=
        byte_append_length _ _
      rw [trim, rtrim_of_blank before rest hs hblank hne, ltrim, if_pos hzero]
      rfl
    · rw [List.length_cons, List.length_tail]
      omega
    · simp [trimmed, hnil]
  · -- the blanks, what is left, and the blanks behind it
    have hlead : ∀ c ∈ s.takeWhile blank, c ≠ 0 ∧ blank c := fun c hc =>
      ⟨hs c ((List.takeWhile_sublist _).subset hc), List.mem_takeWhile_imp hc⟩
    generalize htail : (s.dropWhile blank).rtakeWhile blank = ws at hparts
    have hws : ∀ c ∈ ws, blank c ∧ c ≠ 0 := by
      intro c hc
      refine ⟨List.mem_rtakeWhile_imp (htail ▸ hc), hs c ?_⟩
      rw [← hparts]
      simp [hc]
    have hnonzero : ∀ c ∈ stripped s, c ≠ 0 := fun c hc => hs c (mem_of_mem_stripped hc)
    obtain ⟨c, core', hcons, hc⟩ := exists_stripped_cons hcore
    have hrtrim := rtrim_append before (s.takeWhile blank ++ (stripped s).dropLast) ws rest
      (by
        intro c hc
        rcases List.mem_append.mp hc with hc | hc
        · exact (hlead c hc).1
        · exact hnonzero c (List.mem_of_mem_dropLast hc))
      (hnonzero _ (List.getLast_mem hcore)) (not_blank_getLast_stripped s hcore) hws
    have hjoin : ∀ after, s.takeWhile blank ++ (stripped s).dropLast ++
        (stripped s).getLast hcore :: after = s.takeWhile blank ++ (stripped s ++ after) := by
      intro after
      rw [List.append_cons, List.append_assoc _ _ [_], List.dropLast_append_getLast hcore,
        List.append_assoc]
    have hmid : 0 :: (ws ++ 0 :: rest).tail = ws.set 0 0 ++ 0 :: rest := by
      cases ws <;> rfl
    have hbuf : s ++ 0 :: rest = s.takeWhile blank ++ (stripped s ++ (ws ++ 0 :: rest)) := by
      rw [← List.append_assoc (stripped s), ← List.append_assoc, hparts]
    rw [hjoin, hjoin, hmid] at hrtrim
    rw [hbuf, trim, hrtrim, ltrim_append before _ hlead hcons ⟨hc, hnonzero c (by simp [hcons])⟩,
      ← leading]
    generalize hmoved : (List.range (leading s)).map
      (byte (stripped s ++ (ws.set 0 0 ++ 0 :: rest))) = moved
    refine ⟨moved ++ (stripped s ++ ws.set 0 0), by simp, ?_, ?_⟩
    · have hlength := congrArg List.length hparts
      simp only [← hmoved, leading, List.length_append, List.length_map, List.length_range,
        List.length_set] at hlength ⊢
      exact hlength
    · obtain ⟨after, hafter⟩ : ∃ after, ws.set 0 0 ++ 0 :: rest = 0 :: after := ⟨_, hmid.symm⟩
      obtain ⟨after', hafter'⟩ : ∃ after', ws.set 0 0 ++ [0] = 0 :: after' := by
        cases ws <;> exact ⟨_, rfl⟩
      rw [hafter] at hmoved
      rw [List.append_assoc, List.append_assoc, hafter', trimmed, ← hmoved]
      split_ifs with hle
      · rw [map_byte_range hle, contents_append fun c hc => hnonzero c (List.mem_of_mem_take hc),
          contents_append hnonzero, contents_cons_zero, List.append_nil]
      · exact contents_map_byte_range hnonzero (Nat.lt_of_not_le hle) _

theorem str_trim {buf : List UInt8} {s : ℕ} (hnul : 0 ∈ buf.drop s) :
    str (trim buf s) s = trimmed (str buf s) := by
  obtain ⟨before, rest, hbuf, hlength⟩ := exists_str hnul
  obtain ⟨text, htrim, -, htext⟩ := trim_append before rest
    (fun c hc => ne_zero_of_mem_contents hc : ∀ c ∈ str buf s, c ≠ 0)
  rw [← hbuf, hlength] at htrim
  have hstr := str_append before (text ++ 0 :: rest) 0
  rw [Nat.add_zero, hlength] at hstr
  rw [htrim, hstr, str, List.drop_zero, List.append_cons, contents_append_of_mem (by simp), htext]

end Trim

/-- The string that is left is the right one exactly if it had no leading blanks or more of them
than other bytes. -/
theorem trim_strips_iff {buf : List UInt8} {s : ℕ} (hnul : 0 ∈ buf.drop s) :
    str (trim buf s) s = stripped (str buf s) ↔
      leading (str buf s) = 0 ∨ (stripped (str buf s)).length < leading (str buf s) := by
  rw [str_trim hnul, trimmed]
  split_ifs with hle
  · rw [or_iff_left (Nat.not_lt_of_le hle)]
    constructor
    · intro h
      have hlength := congrArg List.length h
      rw [List.length_append, List.length_take, Nat.min_eq_left hle] at hlength
      omega
    · intro h
      rw [h, List.take_zero, List.nil_append]
  · exact iff_of_true rfl (.inr (Nat.lt_of_not_le hle))

/-- Two blanks in front of one letter. -/
theorem trim_strips_iff_twoBlanks :
    str (trim [32, 32, 97, 0] 0) 0 = stripped (str [32, 32, 97, 0] 0) ↔
      leading (str [32, 32, 97, 0] 0) = 0 ∨
        (stripped (str [32, 32, 97, 0] 0)).length < leading (str [32, 32, 97, 0] 0) :=
  trim_strips_iff (by decide)

/-- One blank in front of one letter, which is there twice afterwards. -/
theorem not_trim_strips :
    ¬ ∀ (buf : List UInt8) (s : ℕ), 0 ∈ buf.drop s →
      str (trim buf s) s = stripped (str buf s) := by
  intro hclaim
  have h := hclaim [32, 97, 0] 0 (by decide)
  revert h
  decide

end Sysopy.Shell
