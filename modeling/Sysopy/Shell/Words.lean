import Sysopy.Shell.Commands

/-!
# The words of an alias

`strtok` moves over the value of an alias one word at a time. The part of the buffer behind
it is final: it holds the words found so far, each ended by a NUL.
-/
namespace Sysopy.Shell

open CBuffer

/-- A word of an alias, or a name. -/
def IsWord (w : List UInt8) : Prop := w ≠ [] ∧ ∀ c ∈ w, ¬ blank c ∧ c ≠ equals ∧ c ≠ 0

instance (w : List UInt8) : Decidable (IsWord w) :=
  have := List.decidableBAll (fun c => ¬ blank c ∧ c ≠ equals ∧ c ≠ 0) w
  inferInstanceAs (Decidable (w ≠ [] ∧ ∀ c ∈ w, ¬ blank c ∧ c ≠ equals ∧ c ≠ 0))

/-- Words with the number of further spaces before each. -/
def spaced (words : List (ℕ × List UInt8)) : List UInt8 :=
  words.flatMap fun (n, w) => List.replicate (n + 1) space ++ w

theorem IsWord.ne_zero {w : List UInt8} (hw : IsWord w) : ∀ c ∈ w, c ≠ 0 :=
  fun c hc => (hw.2 c hc).2.2

theorem ne_space_of_not_blank {c : UInt8} (h : ¬ blank c) : c ≠ space := by
  rintro rfl
  exact h (by decide)

theorem spaced_cons (n : ℕ) (w : List UInt8) (words : List (ℕ × List UInt8)) :
    spaced ((n, w) :: words) = space :: (List.replicate n space ++ (w ++ spaced words)) := by
  simp [spaced, List.replicate_succ]

/-! ## One word -/

section Word

variable (before : List UInt8) (n : ℕ) {w : List UInt8} (words : List (ℕ × List UInt8))
  (rest : List UInt8)

/-- The part of the buffer behind `strtok` after the word `w`. -/
def behind (before : List UInt8) (n : ℕ) (w : List UInt8) (words : List (ℕ × List UInt8)) :
    List UInt8 :=
  before ++ (List.replicate n space ++ (w ++ if words = [] then [] else [0]))

theorem strtok_word (hw : IsWord w) :
    strtok space (before ++ ((spaced ((n, w) :: words)).tail ++ 0 :: rest)) before.length =
      (some (before.length + n), behind before n w words ++ ((spaced words).tail ++ 0 :: rest),
        (behind before n w words).length) := by
  have htoken : ∀ c ∈ w, c ≠ space ∧ c ≠ 0 :=
    fun c hc => ⟨ne_space_of_not_blank (hw.2 c hc).1, hw.ne_zero c hc⟩
  have hskip : ∀ c ∈ List.replicate n space, c = space := fun c hc => List.eq_of_mem_replicate hc
  rw [spaced_cons, List.tail_cons, List.append_assoc, List.append_assoc]
  cases words with
  | nil =>
    have h := strtok_some (by decide) before _ w rest hskip hw.1 htoken
      (.inl (rfl : (0 : UInt8) = 0))
    simp only [spaced, List.flatMap_nil, List.nil_append, List.tail_nil, behind] at h ⊢
    rw [h]
    simp [Nat.add_assoc]
  | cons word words =>
    obtain ⟨m, w'⟩ := word
    rw [spaced_cons, List.cons_append]
    rw [strtok_some (by decide) before _ w _ hskip hw.1 htoken (.inr rfl)]
    simp [behind, Nat.add_assoc, show space ≠ 0 by decide]

theorem str_behind (hw : IsWord w) {text : List UInt8} (htext : words = [] → text = 0 :: rest) :
    str (behind before n w words ++ text) (before.length + n) = w := by
  have hlength : before.length + n = (before ++ List.replicate n space).length + 0 := by simp
  obtain ⟨after, hafter⟩ : ∃ after, behind before n w words ++ text =
      (before ++ List.replicate n space) ++ (w ++ 0 :: after) := by
    unfold behind
    split_ifs with hnil
    · exact ⟨rest, by simp [htext hnil]⟩
    · exact ⟨text, by simp⟩
  rw [hafter, hlength, str_append, str_zero hw.ne_zero]

end Word

/-! ## All words -/

theorem storeArgs_eq (words : List (ℕ × List UInt8)) (hwords : ∀ word ∈ words, IsWord word.2)
    (before rest : List UInt8) (args : List (Option ℕ)) (i : ℕ)
    (hlength : i + words.length ≤ args.length) (fuel : ℕ) (hfuel : words.length < fuel) :
    ∃ (text : List UInt8) (places : List ℕ),
      storeArgs (before ++ ((spaced words).tail ++ 0 :: rest)) before.length args i fuel =
        some (before ++ text, args.take i ++ places.map some ++ args.drop (i + words.length)) ∧
      places.map (str (before ++ text)) = words.map Prod.snd ∧
      (words = [] → text = 0 :: rest) := by
  induction words generalizing before args i fuel with
  | nil =>
    obtain ⟨fuel, rfl⟩ := Nat.exists_eq_succ_of_ne_zero (Nat.ne_of_gt hfuel)
    refine ⟨0 :: rest, [], ?_, rfl, fun _ => rfl⟩
    have hnone := strtok_none (by decide : space ≠ 0) before [] rest (by simp)
    simp only [List.nil_append] at hnone
    simp [storeArgs, spaced, hnone]
  | cons word words ih =>
    obtain ⟨n, w⟩ := word
    obtain ⟨fuel, rfl⟩ := Nat.exists_eq_succ_of_ne_zero (Nat.ne_of_gt (Nat.zero_lt_of_lt hfuel))
    rw [List.length_cons] at hlength hfuel
    have hw : IsWord w := hwords (n, w) (by simp)
    obtain ⟨text, places, hstore, hplaces, htext⟩ := ih (fun word h => hwords word (by simp [h]))
      (behind before n w words) (args.set i (some (before.length + n))) (i + 1)
      (by rw [List.length_set]; omega) fuel (by omega)
    obtain ⟨mid, hmid⟩ : ∃ mid, behind before n w words = before ++ mid := ⟨_, rfl⟩
    refine ⟨mid ++ text, (before.length + n) :: places, ?_, ?_, by simp⟩
    · rw [storeArgs, strtok_word before n words rest hw]
      simp only
      rw [if_pos (by omega), hstore, hmid]
      have hset : (args.set i (some (before.length + n))).take (i + 1) =
          args.take i ++ [some (before.length + n)] := by
        rw [List.take_add_one, List.take_set_of_le (le_refl i)]
        simp [show i < args.length by omega]
      have hdrop : (args.set i (some (before.length + n))).drop (i + 1 + words.length) =
          args.drop (i + (words.length + 1)) := by
        rw [List.drop_set_of_lt (by omega)]
        congr 1
        omega
      rw [hset, hdrop]
      simp
    · rw [← List.append_assoc, ← hmid, List.map_cons, hplaces, str_behind before n words rest hw htext]
      rfl

theorem cntchr_eq (s : List UInt8) (ch : UInt8) (acc : ℕ) :
    cntchr s ch acc = acc + (CString.contents s).count ch := by
  induction s generalizing acc with
  | nil => rfl
  | cons c s ih =>
    rw [cntchr]
    split_ifs with hzero hch
    · simp [hzero]
    · rw [ih, CString.contents_cons hzero, hch, List.count_cons_self]
      omega
    · rw [ih, CString.contents_cons hzero, List.count_cons_of_ne hch]
      omega

theorem array_eq (p : ℕ) (places : List ℕ) {argsno : ℕ} (hlength : places.length ≤ argsno) :
    let args := (List.replicate (argsno + 2) none).set 0 (some p)
    ∃ m, (args.take 1 ++ places.map some ++ args.drop (1 + places.length)).set (argsno + 1) none =
      (p :: places).map some ++ List.replicate (m + 1) none := by
  obtain ⟨m, rfl⟩ := Nat.exists_eq_add_of_le hlength
  refine ⟨m, ?_⟩
  have hleft : places.length + m + 1 - places.length = m + 1 := by omega
  have hplace : places.length + m + 1 = ((p :: places).map some).length + m := by
    rw [List.length_map, List.length_cons]
    omega
  rw [List.replicate_succ, List.set_cons_zero, List.take_one, List.head?_cons,
    Nat.add_comm 1 places.length, List.drop_succ_cons, List.drop_replicate, hleft]
  change ((p :: places).map some ++ List.replicate (m + 1) none).set _ none = _
  rw [hplace, List.set_append_right _ _ (Nat.le_add_right _ _), List.set_replicate_self]

theorem forall_spaced {words : List (ℕ × List UInt8)} {P : UInt8 → Prop} (hspace : P space)
    (hwords : ∀ word ∈ words, ∀ c ∈ word.2, P c) : ∀ c ∈ spaced words, P c := by
  intro c hc
  obtain ⟨⟨n, w⟩, hword, hc⟩ := List.mem_flatMap.mp hc
  rcases List.mem_append.mp hc with hc | hc
  · rwa [List.eq_of_mem_replicate hc]
  · exact hwords _ hword c hc

section Value

variable {first : List UInt8} {words : List (ℕ × List UInt8)} (hfirst : IsWord first)
  (hwords : ∀ word ∈ words, IsWord word.2)

theorem length_le_count (words : List (ℕ × List UInt8)) :
    words.length ≤ (spaced words).count space := by
  induction words with
  | nil => exact Nat.zero_le _
  | cons word words ih =>
    rw [spaced_cons, List.count_cons_self, List.count_append, List.count_append, List.length_cons]
    omega

include hfirst hwords

theorem value_ne_zero : ∀ c ∈ first ++ spaced words, c ≠ 0 := by
  intro c hc
  rcases List.mem_append.mp hc with hc | hc
  · exact hfirst.ne_zero c hc
  · exact forall_spaced (by decide) (fun word hword => (hwords word hword).ne_zero) c hc

theorem value_last : ∃ v d, first ++ spaced words = v ++ [d] ∧ ¬ blank d := by
  have hword : ∀ w, IsWord w → ∃ v d, w = v ++ [d] ∧ ¬ blank d := by
    intro w hw
    refine ⟨w.dropLast, w.getLast hw.1, (List.dropLast_append_getLast hw.1).symm, ?_⟩
    exact (hw.2 _ (List.getLast_mem hw.1)).1
  rcases List.eq_nil_or_concat words with rfl | ⟨init, ⟨n, w⟩, rfl⟩
  · obtain ⟨v, d, rfl, hd⟩ := hword first hfirst
    exact ⟨v, d, by simp [spaced], hd⟩
  · obtain ⟨v, d, rfl, hd⟩ := hword w (hwords (n, w) (by simp))
    exact ⟨first ++ (spaced init ++ (List.replicate (n + 1) space ++ v)), d, by simp [spaced], hd⟩

/-- There is room for the words and a null pointer, and the words are stored in their order. -/
theorem getwords_eq (before rest : List UInt8) (c : UInt8) :
    ∃ text args m,
      getwords (before ++ c :: (first ++ spaced words ++ 0 :: rest)) before.length =
        some (before ++ text, args) ∧
      args.map (Option.map (str (before ++ text))) =
        (first :: words.map Prod.snd).map some ++ List.replicate (m + 1) none := by
  have hbefore : before.length + 1 = (before ++ [c]).length := by simp
  have hbuf : before ++ c :: (first ++ spaced words ++ 0 :: rest) =
      (before ++ [c]) ++ ((spaced ((0, first) :: words)).tail ++ 0 :: rest) := by
    simp [spaced_cons]
  have hcount : words.length ≤
      cntchr ((before ++ c :: (first ++ spaced words ++ 0 :: rest)).drop (before.length + 1))
        space 0 := by
    have hdrop : (before ++ c :: (first ++ spaced words ++ 0 :: rest)).drop (before.length + 1) =
        first ++ spaced words ++ 0 :: rest := by
      rw [hbuf, hbefore, List.drop_left]
      simp [spaced_cons]
    rw [hdrop, cntchr_eq, CString.contents_append (value_ne_zero hfirst hwords), List.count_append,
      List.count_append]
    have hle := length_le_count words
    omega
  rw [getwords]
  generalize cntchr _ space 0 = argsno at hcount ⊢
  rw [hbuf, hbefore, strtok_word (before ++ [c]) 0 words rest hfirst]
  simp only [Nat.add_zero]
  generalize hline : behind (before ++ [c]) 0 first words ++ ((spaced words).tail ++ 0 :: rest) = line
  have hfuel : words.length < line.length + 1 := by
    have hle := (length_le_count words).trans List.count_le_length
    rw [← hline, List.length_append, List.length_append, List.length_tail, List.length_cons]
    omega
  obtain ⟨text, places, hstore, hplaces, htext⟩ := storeArgs_eq words hwords
    (behind (before ++ [c]) 0 first words) rest
    ((List.replicate (argsno + 2) none).set 0 (some (before ++ [c]).length)) 1
    (by rw [List.length_set, List.length_replicate]; omega) (line.length + 1) hfuel
  have hlength : places.length = words.length := by
    have h := congrArg List.length hplaces
    rwa [List.length_map, List.length_map] at h
  obtain ⟨m, hargs⟩ := array_eq (before ++ [c]).length places (hlength.trans_le hcount)
  obtain ⟨text', htext'⟩ :
      ∃ text', behind (before ++ [c]) 0 first words ++ text = before ++ text' :=
    ⟨_, by rw [behind, List.append_assoc, List.append_assoc]⟩
  have hstr := str_behind (before ++ [c]) 0 words rest hfirst htext
  rw [Nat.add_zero] at hstr
  rw [htext'] at hstr hplaces
  rw [hline, htext', ← hlength] at hstore
  refine ⟨text', _, m, by rw [hstore]; rfl, ?_⟩
  rw [hargs, List.map_append, List.map_map, List.map_replicate, List.map_cons, List.map_cons,
    ← hplaces, List.map_map]
  have hfirst' : (Option.map (str (before ++ text')) ∘ some) (before ++ [c]).length = some first :=
    congrArg some hstr
  rw [hfirst']
  rfl

/-- The value behind the space after `=`: the byte that `ltrim` moves takes its place. -/
theorem trim_value (before rest : List UInt8) {ws : List UInt8}
    (hws : ∀ c ∈ ws, blank c ∧ c ≠ 0) :
    ∃ c rest', trim (before ++ space :: (first ++ spaced words ++ (ws ++ 0 :: rest))) before.length =
      before ++ c :: (first ++ spaced words ++ 0 :: rest') := by
  obtain ⟨v, d, hlast, hd⟩ := value_last hfirst hwords
  have hzero := value_ne_zero hfirst hwords
  rw [hlast] at hzero
  obtain ⟨c, first', rfl⟩ := List.exists_cons_of_ne_nil hfirst.1
  have hrtrim := rtrim_append before (space :: v) ws rest (by
      intro c hc
      rcases List.mem_cons.mp hc with rfl | hc
      · decide
      · exact hzero c (by simp [hc])) (hzero d (by simp)) hd hws
  refine ⟨c, (ws ++ 0 :: rest).tail, ?_⟩
  have hbuf : before ++ space :: (c :: first' ++ spaced words ++ (ws ++ 0 :: rest)) =
      before ++ (space :: v ++ d :: (ws ++ 0 :: rest)) := by
    rw [hlast]
    simp
  have hafter : before ++ (space :: v ++ d :: 0 :: (ws ++ 0 :: rest).tail) =
      before ++ space :: c :: (first' ++ spaced words ++ 0 :: (ws ++ 0 :: rest).tail) := by
    have hlast' : c :: (first' ++ spaced words) = v ++ [d] := hlast
    have hsplit : space :: v ++ d :: 0 :: (ws ++ 0 :: rest).tail =
        space :: (v ++ [d]) ++ 0 :: (ws ++ 0 :: rest).tail := by simp
    rw [hsplit, ← hlast']
    rfl
  rw [trim, hbuf, hrtrim, hafter, ltrim_of_blank before _ (by decide)
    (hfirst.2 c (by simp)).1]
  rfl

end Value

section Name

variable {w ws : List UInt8} (hw : IsWord w) (hws : ∀ c ∈ ws, blank c ∧ c ≠ 0)

include hw hws

theorem trim_word (before rest : List UInt8) :
    trim (before ++ (w ++ (ws ++ 0 :: rest))) before.length =
      before ++ (w ++ 0 :: (ws ++ 0 :: rest).tail) := by
  have hlast := hw.2 _ (List.getLast_mem hw.1)
  have hrtrim := rtrim_append before w.dropLast ws rest
    (fun c hc => hw.ne_zero c (List.mem_of_mem_dropLast hc)) hlast.2.2 hlast.1 hws
  have hword : ∀ after, w.dropLast ++ w.getLast hw.1 :: after = w ++ after := by
    intro after
    rw [List.append_cons, List.dropLast_append_getLast]
  rw [hword, hword] at hrtrim
  obtain ⟨c, w', rfl⟩ := List.exists_cons_of_ne_nil hw.1
  rw [trim, hrtrim, List.cons_append, ltrim_of_not_blank before _ (hw.2 c (by simp)).1]

theorem trim_name (rest : List UInt8) : ∃ before, trim (w ++ (ws ++ 0 :: rest)) 0 = before ++ rest ∧
    before.length = w.length + ws.length + 1 ∧ ∀ text, str (before ++ text) 0 = w := by
  have htrim := trim_word hw hws [] rest
  refine ⟨w ++ 0 :: (ws ++ [0]).tail, ?_, ?_, ?_⟩
  · have htail : (ws ++ 0 :: rest).tail = (ws ++ [0]).tail ++ rest := by
      cases ws <;> simp
    rw [htail] at htrim
    simpa using htrim
  · simp only [List.length_append, List.length_cons, List.length_tail, List.length_nil]
    omega
  · intro text
    rw [List.append_assoc, List.cons_append]
    exact str_zero hw.ne_zero

end Name

/-! ## `getcommand` -/

/-- The alias `name` with the given words, behind which the array has null pointers. -/
def Command.Defines (command : Command) (name : List UInt8) (words : List (List UInt8)) : Prop :=
  str command.line command.name = name ∧
  ∃ m, command.args.map (Option.map (str command.line)) =
    words.map some ++ List.replicate (m + 1) none

/-- The line of an alias, without its newline. -/
def aliasLine (name : List UInt8) (spaces : ℕ) (first : List UInt8)
    (words : List (ℕ × List UInt8)) : List UInt8 :=
  name ++ (List.replicate spaces space ++ equals :: space :: (first ++ spaced words))

theorem forall_aliasLine {name first : List UInt8} {words : List (ℕ × List UInt8)} (spaces : ℕ)
    {P : UInt8 → Prop} (hspace : P space) (hequals : P equals) (hname : ∀ c ∈ name, P c)
    (hfirst : ∀ c ∈ first, P c) (hwords : ∀ word ∈ words, ∀ c ∈ word.2, P c) :
    ∀ c ∈ aliasLine name spaces first words, P c := by
  intro c hc
  simp only [aliasLine, List.mem_append, List.mem_cons] at hc
  obtain hc | hc | rfl | rfl | hc | hc := hc
  · exact hname c hc
  · rwa [List.eq_of_mem_replicate hc]
  · exact hequals
  · exact hspace
  · exact hfirst c hc
  · exact forall_spaced hspace hwords c hc

section GetCommand

variable {name first : List UInt8} {words : List (ℕ × List UInt8)} (hname : IsWord name)
  (hfirst : IsWord first) (hwords : ∀ word ∈ words, IsWord word.2)

include hname hfirst hwords

theorem getcommand_eq (spaces : ℕ) {ws : List UInt8} (hws : ws = [newline] ∨ ws = []) :
    ∃ command, getcommand (aliasLine name spaces first words ++ ws ++ [0]) = some command ∧
      command.Defines name (first :: words.map Prod.snd) := by
  have hws' : ∀ c ∈ ws, blank c ∧ c ≠ 0 ∧ c ≠ equals := by
    rcases hws with rfl | rfl
    · exact List.forall_mem_singleton.mpr (by decide)
    · simp
  have hspaces : ∀ c ∈ List.replicate spaces space, blank c ∧ c ≠ 0 ∧ c ≠ equals := by
    intro c hc
    rw [List.eq_of_mem_replicate hc]
    decide
  -- the line is cut at its `=`
  obtain ⟨value, hvalue⟩ : ∃ value, value = space :: (first ++ spaced words ++ ws) := ⟨_, rfl⟩
  have hline : aliasLine name spaces first words ++ ws ++ [0] =
      name ++ List.replicate spaces space ++ equals :: (value ++ [0]) := by
    simp [aliasLine, hvalue]
  have hleft : ∀ c ∈ name ++ List.replicate spaces space, c ≠ equals ∧ c ≠ 0 := by
    intro c hc
    rcases List.mem_append.mp hc with hc | hc
    · exact (hname.2 c hc).2
    · exact ⟨(hspaces c hc).2.2, (hspaces c hc).2.1⟩
  have hright : ∀ c ∈ value, c ≠ equals ∧ c ≠ 0 := by
    intro c hc
    rw [hvalue, List.mem_cons, List.mem_append] at hc
    obtain rfl | hc | hc := hc
    · decide
    · refine ⟨?_, value_ne_zero hfirst hwords c hc⟩
      rcases List.mem_append.mp hc with hc | hc
      · exact (hfirst.2 c hc).2.1
      · exact forall_spaced (by decide) (fun word hword c hc => ((hwords word hword).2 c hc).2.1) c hc
    · exact ⟨(hws' c hc).2.2, (hws' c hc).2.1⟩
  have hstr : str (aliasLine name spaces first words ++ ws ++ [0]) 0 =
      name ++ List.replicate spaces space ++ equals :: value := by
    have hzero : ∀ c ∈ name ++ List.replicate spaces space ++ equals :: value, c ≠ 0 := by
      intro c hc
      rw [List.mem_append, List.mem_cons] at hc
      obtain hc | rfl | hc := hc
      · exact (hleft c hc).2
      · decide
      · exact (hright c hc).2
    rw [hline, ← List.cons_append, ← List.append_assoc, str_zero hzero]
  -- each call in turn
  have hstrtok := strtok_token (by decide : equals ≠ 0) [] (name ++ List.replicate spaces space)
    (value ++ [0]) (by simp [hname.1]) hleft (.inr rfl)
  obtain ⟨before, htrim, hlength, hstrname⟩ := trim_name hname
    (fun c hc => ⟨(hspaces c hc).1, (hspaces c hc).2.1⟩) (value ++ [0])
  have hsaved : ([] : List UInt8).length + (name ++ List.replicate spaces space).length +
      (if equals = 0 then 0 else 1) = before.length := by
    rw [hlength, List.length_append, if_neg (by decide), List.length_nil, Nat.zero_add]
  have hstrtok' := strtok_token (by decide : equals ≠ 0) before value [] (by simp [hvalue]) hright
    (.inl rfl)
  obtain ⟨c, rest, htrim'⟩ := trim_value hfirst hwords before []
    (fun c hc => ⟨(hws' c hc).1, (hws' c hc).2.1⟩)
  obtain ⟨text, args, m, hgetwords, hargs⟩ := getwords_eq hfirst hwords before rest c
  rw [hsaved, List.nil_append, List.nil_append, List.length_nil, List.append_assoc,
    List.append_assoc] at hstrtok
  have hvalue' : before ++ (value ++ [0]) =
      before ++ space :: (first ++ spaced words ++ (ws ++ 0 :: [])) := by simp [hvalue]
  refine ⟨⟨before ++ text, 0, args⟩, ?_, hstrname text, m, hargs⟩
  rw [getcommand, hstr, List.append_assoc, List.append_assoc, List.cons_append, hstrtok]
  simp only
  rw [htrim, hstrtok']
  simp only
  rw [hvalue', htrim', hgetwords]
  rfl

end GetCommand

end Sysopy.Shell
