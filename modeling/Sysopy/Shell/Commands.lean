import Sysopy.Library.CBuffer
import Sysopy.Library.Stdio

/-!
# From a script to the command vectors of `exec`

An alias keeps the buffer that `getcommand` has cut into strings, and its words as positions
in it. `exec` cuts its line in the same way and copies the words of each alias into vectors.
A function returns `none` where the source follows a null pointer or leaves an array.

The script is read through a stream while children run that share its file. A child without a
program to execute calls `exit`, and thereby moves the position in the file back over what the
shell has read ahead.
-/
namespace Sysopy.Shell

open CBuffer Stdio

@[reducible] def space : UInt8 := 32
@[reducible] def newline : UInt8 := 10
@[reducible] def equals : UInt8 := 61
@[reducible] def bar : UInt8 := 124

/-! ## `trim` -/

/-- `isspace` in the C locale. -/
def isspace (c : UInt8) : Bool := c == space || (9 ≤ c && c ≤ 13)

/-- `isspace(*s) || *s == '\n'`. -/
def blank (c : UInt8) : Bool := isspace c || c == newline

/-- The bytes are moved by `s_tmp - s`, but no more than so many are. -/
def ltrim (buf : List UInt8) (s : ℕ) : List UInt8 :=
  if byte buf s = 0 then buf
  else
    let s_tmp := s + span blank buf s
    memmove buf s s_tmp (s_tmp - s)

/-- `ptr + 1 - s` after the loop of `rtrim`, which starts with `n`. -/
def rtrimLoop (buf : List UInt8) (s : ℕ) : ℕ → ℕ
  | 0 => 0
  | n + 1 => if blank (byte buf (s + n)) then rtrimLoop buf s n else n + 1

def rtrim (buf : List UInt8) (s : ℕ) : List UInt8 :=
  if byte buf s = 0 then buf else buf.set (s + rtrimLoop buf s (str buf s).length) 0

/-- The pointer that `trim` returns is its argument. -/
def trim (buf : List UInt8) (s : ℕ) : List UInt8 := ltrim (rtrim buf s) s

/-! ## Aliases -/

def cntchr : List UInt8 → UInt8 → ℕ → ℕ
  | [], _, acc => acc
  | c :: s, ch, acc => if c = 0 then acc else cntchr s ch (acc + if c = ch then 1 else 0)

/-- `struct command` with the buffer that its pointers point into; `name` is `alias`. -/
structure Command where
  line : List UInt8
  name : ℕ
  args : List (Option ℕ)

/-- The loop that stores the words from `args[i]` on. -/
def storeArgs (line : List UInt8) (saved : ℕ) (args : List (Option ℕ)) (i : ℕ) :
    ℕ → Option (List UInt8 × List (Option ℕ))
  | 0 => none
  | fuel + 1 =>
    match strtok space line saved with
    | (none, line, _) => some (line, args)
    | (some arg, line, saved) =>
      if i < args.length then storeArgs line saved (args.set i (some arg)) (i + 1) fuel else none

/-- The words of the value that `trim` has left at `value`. -/
def getwords (line : List UInt8) (value : ℕ) : Option (List UInt8 × List (Option ℕ)) :=
  let argsno := cntchr (line.drop (value + 1)) space 0
  let (arg, line, saved) := strtok space line (value + 1)
  let args := (List.replicate (argsno + 2) none).set 0 arg
  (storeArgs line saved args 1 (line.length + 1)).map fun (line, args) =>
    (line, args.set (argsno + 1) none)

def getcommand (buf : List UInt8) : Option Command :=
  match strtok equals (str buf 0 ++ [0]) 0 with
  | (none, _, _) => none
  | (some name, line, saved) =>
    match strtok equals (trim line name) saved with
    | (none, _, _) => none
    | (some value, line, _) =>
      (getwords (trim line value) value).map fun (line, args) => ⟨line, name, args⟩

/-! ## Vectors -/

/-- A null-terminated vector of strings. -/
abbrev Strings := List (Option (List UInt8))

def getargs (commands : List Command) (name : List UInt8) : Option Strings :=
  (commands.find? fun command => name = str command.line command.name).map fun command =>
    command.args.map fun arg => arg.map (str command.line)

/-- `while (arg[j] && *arg[j] != '|') j++;` -/
def wordsEnd (arg : Strings) (j : ℕ) : ℕ → Option ℕ
  | 0 => none
  | fuel + 1 =>
    match arg[j]? with
    | none => none
    | some none => some j
    | some (some word) => if byte word 0 ≠ bar then wordsEnd arg (j + 1) fuel else some j

/-- The loop of `appendargs` from `arg[i]` on; `command` are the vectors so far. -/
def appendargsLoop (arg : Strings) (command : List Strings) (i : ℕ) : ℕ → Option (List Strings)
  | 0 => none
  | fuel + 1 =>
    match arg[i]? with
    | none => none
    | some none => some command
    | some (some _) => do
      let j ← wordsEnd arg i (arg.length + 1)
      let vector := (arg.drop i).take (j - i) ++ [none]
      let next := if arg[j]? = some none then j else j + 1
      appendargsLoop arg (command ++ [vector]) next fuel

def appendargs (command : List Strings) (arg : Strings) : Option (List Strings) :=
  appendargsLoop arg command 0 (arg.length + 1)

/-- The loop of `exec` over the names of the line; `name` is not yet trimmed. -/
def execLoop (commands : List Command) (buf : List UInt8) (name saved : ℕ)
    (command : List Strings) : ℕ → Option (List Strings)
  | 0 => none
  | fuel + 1 => do
    let buf := trim buf name
    let command ←
      if str buf name ≠ [bar] then
        (getargs commands (str buf name)).bind (appendargs command)
      else some command
    match strtok space buf saved with
    | (none, _, _) => some command
    | (some name, buf, saved) => execLoop commands buf name saved command fuel

/-- The vectors that `exec` builds before it forks. -/
def execVectors (commands : List Command) (buf : List UInt8) : Option (List Strings) :=
  match strtok space buf 0 with
  | (none, _, _) => none
  | (some name, buf, saved) => execLoop commands buf name saved [] (buf.length + 1)

/-! ## Scripts -/

section Scripts

variable (buffering : Buffering)

/-- The loop of `getline`, for at most `n` bytes. -/
def getlineLoop (file : FILE) (line : List UInt8) : ℕ → List UInt8 × FILE
  | 0 => (line, file)
  | n + 1 =>
    match file.fread buffering with
    | none => (line, file)
    | some (c, file) =>
      if c = newline then (line ++ [c], file) else getlineLoop file (line ++ [c]) n

/-- `getline`: the line with its newline, if it has one. -/
def getline (file : FILE) : List UInt8 × FILE := getlineLoop buffering file [] file.unread.length

/-- The variables of `parsefile`, and the vectors that `exec` has built for each line. -/
structure Parse where
  file : FILE
  commands : List Command
  built : List (List Strings)

namespace Parse

def start (file : List UInt8) : Parse := ⟨.fopen file, [], []⟩

/-- `getline(&buf, &size, file) <= 0`. -/
def Ended (s : Parse) : Prop := (getline buffering s.file).1 = []

instance decidableEnded (s : Parse) : Decidable (s.Ended buffering) :=
  inferInstanceAs (Decidable (_ = _))

/-- The line is one for `exec`. -/
def Runs (line : List UInt8) : Prop :=
  equals ∉ str (line ++ [0]) 0 ∧ byte (line ++ [0]) 0 ≠ newline

/-- A round of the loop. Of the children that `exec` starts and waits for, `failed` find no
program. -/
def round (s : Parse) (failed : ℕ) : Option Parse :=
  let (line, file) := getline buffering s.file
  let buf := line ++ [0]
  if equals ∈ str buf 0 then
    (getcommand buf).map fun command =>
      { s with file := file, commands := s.commands ++ [command] }
  else if byte buf 0 ≠ newline then
    (execVectors s.commands buf).map fun vectors =>
      { s with file := FILE.exitChild^[failed] file, built := s.built ++ [vectors] }
  else some { s with file := file }

end Parse

/-- The loop of `parsefile`, for less than `fuel` rounds. `failed n` is the number of children
without a program when `n` lines have been executed before. -/
def parseLoop (failed : ℕ → ℕ) (s : Parse) : ℕ → Option (List (List Strings))
  | 0 => none
  | fuel + 1 =>
    if s.Ended buffering then some s.built
    else (s.round buffering (failed s.built.length)).bind fun s => parseLoop failed s fuel

/-- The vectors of each line that is executed. -/
def parsefile (failed : ℕ → ℕ) (file : List UInt8) (fuel : ℕ) : Option (List (List Strings)) :=
  parseLoop buffering failed (.start file) fuel

end Scripts

/-! ## Trimming a string -/

section Trim

variable (before v ws rest : List UInt8) {c d : UInt8}

theorem rtrimLoop_of_blank {buf : List UInt8} {s n : ℕ} (m : ℕ)
    (h : ∀ k < m, blank (byte buf (s + (n + k)))) :
    rtrimLoop buf s (n + m) = rtrimLoop buf s n := by
  induction m with
  | zero => rfl
  | succ m ih =>
    rw [← Nat.add_assoc, rtrimLoop, if_pos (h m (Nat.lt_succ_self m))]
    exact ih fun k hk => h k (Nat.lt_succ_of_lt hk)

theorem rtrim_append (hv : ∀ c ∈ v, c ≠ 0) (hd : d ≠ 0) (hlast : ¬ blank d)
    (hws : ∀ c ∈ ws, blank c ∧ c ≠ 0) :
    rtrim (before ++ (v ++ d :: (ws ++ 0 :: rest))) before.length =
      before ++ (v ++ d :: 0 :: (ws ++ 0 :: rest).tail) := by
  have hstr : str (before ++ (v ++ d :: (ws ++ 0 :: rest))) before.length = v ++ d :: ws := by
    have hzero : ∀ c ∈ v ++ d :: ws, c ≠ 0 := by
      intro c hc
      rw [List.mem_append, List.mem_cons] at hc
      obtain hc | rfl | hc := hc
      · exact hv c hc
      · exact hd
      · exact (hws c hc).2
    have h := str_append before ((v ++ d :: ws) ++ 0 :: rest) 0
    rw [Nat.add_zero, str_zero hzero] at h
    simpa using h
  have hbyte : ∀ k, byte (before ++ (v ++ d :: (ws ++ 0 :: rest))) (before.length + (v.length + k)) =
      byte (d :: (ws ++ 0 :: rest)) k := by
    intro k
    rw [byte_append, byte_append]
  have hloop : rtrimLoop (before ++ (v ++ d :: (ws ++ 0 :: rest))) before.length
      (v ++ d :: ws).length = v.length + 1 := by
    have hlength : (v ++ d :: ws).length = v.length + 1 + ws.length := by
      simp only [List.length_append, List.length_cons]
      omega
    rw [hlength, rtrimLoop_of_blank, rtrimLoop, if_neg]
    · have hd' := hbyte 0
      rw [Nat.add_zero] at hd'
      rw [hd']
      exact hlast
    · intro k hk
      rw [Nat.add_assoc, hbyte, Nat.add_comm 1 k]
      have hget : byte (d :: (ws ++ 0 :: rest)) (k + 1) = ws[k] := by
        simp [byte, List.getElem?_append_left hk, hk]
      rw [hget]
      exact (hws _ (List.getElem_mem hk)).1
  have hfirst : byte (before ++ (v ++ d :: (ws ++ 0 :: rest))) before.length ≠ 0 := by
    rw [byte_append_length]
    cases v with
    | nil => exact hd
    | cons c v => exact hv c (by simp)
  rw [rtrim, if_neg hfirst, hstr, hloop, set_append, set_append]
  cases ws <;> rfl

theorem ltrim_of_not_blank (hc : ¬ blank c) :
    ltrim (before ++ c :: rest) before.length = before ++ c :: rest := by
  have hspan : span blank (before ++ c :: rest) before.length = 0 := by
    have h := span_append before (c :: rest) blank 0
    rw [Nat.add_zero] at h
    rw [h]
    exact span_of_forall (s := []) (by simp) (.inr hc)
  unfold ltrim
  split_ifs
  · rfl
  · simp [hspan, memmove]

/-- Of a string behind one blank, `ltrim` moves one byte. -/
theorem ltrim_of_blank (hd : blank d ∧ d ≠ 0) (hc : ¬ blank c) :
    ltrim (before ++ d :: c :: rest) before.length = before ++ c :: c :: rest := by
  have hspan : span blank (before ++ d :: c :: rest) before.length = 1 := by
    have h := span_append before (d :: c :: rest) blank 0
    rw [Nat.add_zero] at h
    rw [h]
    exact span_of_forall (s := [d]) (by simpa using ⟨hd.2, hd.1⟩) (.inr hc)
  have hfirst : byte (before ++ d :: c :: rest) before.length ≠ 0 := by
    rw [byte_append_length]
    exact hd.2
  simp only [ltrim, if_neg hfirst, hspan, Nat.add_sub_cancel_left, memmove_append]
  rfl

end Trim

end Sysopy.Shell
