import Sysopy.Chat.Lines
import Sysopy.Chat.SystemV.Server

/-!
# The reply to `LIST`

`handle_list` writes its text into `message_text` of a message of its own, which holds
anything before. The text grows with the table, and neither the array nor the part of it
that `MSGSND` sends does.
-/
namespace Sysopy.Chat.SystemV

open CInteger CString CText

/-- What `sprintf` writes for a client. -/
def clientLine (client : Client) : List UInt8 :=
  decimal client.id ++ utf8 "\t" ++ decimal client.pqd ++
    (if client.active then utf8 "\tyes\n" else utf8 "\tno\n")

/-- The clients that the reply lists. -/
def others (clients : List Client) (sender_pid : ℤ) : List Client :=
  clients.filter fun client => client.id ≠ sender_pid

/-- One pass of the loop of `handle_list`, where `line` has 128 bytes; `none` when a string
leaves its array. -/
def addClient (sender_pid : ℤ) (message_text : List UInt8) (client : Client) :
    Option (List UInt8) :=
  if client.id ≠ sender_pid then
    if (clientLine client).length < 128 then strcat message_text (clientLine client) else none
  else some message_text

/-- The text that `handle_list` writes over `message_text`. -/
def writeList (clients : List Client) (sender_pid : ℤ) (message_text : List UInt8) :
    Option (List UInt8) := do
  let title ← strcpy message_text (utf8 "––– LIST OF AVAILABLE CLIENTS –––\n\n")
  let header ← strcat title (utf8 "ID\tPQD\tACTIVE\n")
  let table ← clients.foldlM (addClient sender_pid) header
  strcat table (utf8 "\n\n")

/-- The lines before those of the clients. -/
def headerLines : List (List UInt8) :=
  [utf8 "––– LIST OF AVAILABLE CLIENTS –––\n", [NEWLINE], utf8 "ID\tPQD\tACTIVE\n"]

/-- The reply has a line for each other client, is the one of the handler, and its NUL is
among the bytes that are sent. -/
structure Listed (getpid : ℤ) (clients : List Client) (message : Message) (requester : Client)
    (text : List UInt8) : Prop where
  lines : lines (contents text) = headerLines ++ (others clients message.sender_pid).map clientLine ++
    [[NEWLINE], [NEWLINE]]
  sent : handleList getpid clients message =
    some (clients, [(requester.pqd, ⟨LIST, getpid, contents text⟩)])
  length : text.length = MSG_SIZE
  arrives : 0 ∈ text.take Interface.systemV.sentBytes

/-- The bytes of a client in the reply. -/
def lineWidth (client : Client) : ℕ :=
  (decimal client.id).length + (decimal client.pqd).length + if client.active then 6 else 5

/-! ## The text -/

theorem flagTexts : utf8 "\tyes\n" = [9, 121, 101, 115, NEWLINE] ∧
    utf8 "\tno\n" = [9, 110, 111, NEWLINE] ∧ utf8 "\t" = [9] := by
  decide +kernel

theorem headerTexts : ∃ title columns : List UInt8,
    (utf8 "––– LIST OF AVAILABLE CLIENTS –––\n" = title ++ [NEWLINE] ∧
      utf8 "––– LIST OF AVAILABLE CLIENTS –––\n\n" = title ++ [NEWLINE, NEWLINE] ∧
      utf8 "ID\tPQD\tACTIVE\n" = columns ++ [NEWLINE] ∧ utf8 "\n\n" = [NEWLINE, NEWLINE]) ∧
    title.length = 45 ∧ columns.length = 13 ∧
    (0 ∉ title ∧ NEWLINE ∉ title) ∧ 0 ∉ columns ∧ NEWLINE ∉ columns :=
  ⟨utf8 "––– LIST OF AVAILABLE CLIENTS –––", utf8 "ID\tPQD\tACTIVE", by decide +kernel⟩

theorem length_clientLine (client : Client) : (clientLine client).length = lineWidth client := by
  obtain ⟨hyes, hno, htab⟩ := flagTexts
  rw [clientLine, lineWidth, hyes, hno, htab]
  simp only [List.length_append, List.length_singleton]
  split_ifs <;> simp only [List.length_cons, List.length_nil] <;> omega

theorem notMem_decimal {x : ℤ} {c : UInt8} (hc : c ≠ 45) (hdigit : isdigit c = false) :
    c ∉ decimal x := by
  intro hmem
  rcases mem_decimal hmem with h | h
  · exact hc h
  · cases hdigit.symm.trans h

theorem zero_notMem_clientLine (client : Client) : 0 ∉ clientLine client := by
  obtain ⟨hyes, hno, htab⟩ := flagTexts
  have hdecimal : ∀ x, (0 : UInt8) ∉ decimal x := fun x => notMem_decimal (by decide) (by decide)
  rw [clientLine, hyes, hno, htab]
  simp only [List.mem_append, not_or]
  refine ⟨⟨⟨hdecimal _, by decide⟩, hdecimal _⟩, ?_⟩
  split_ifs <;> decide

theorem clientLine_eq (client : Client) : ∃ s, NEWLINE ∉ s ∧ clientLine client = s ++ [NEWLINE] := by
  obtain ⟨hyes, hno, htab⟩ := flagTexts
  have hdecimal : ∀ x, NEWLINE ∉ decimal x := fun x => notMem_decimal (by decide) (by decide)
  refine ⟨decimal client.id ++ [9] ++ decimal client.pqd ++
    (if client.active then [9, 121, 101, 115] else [9, 110, 111]), ?_, ?_⟩
  · simp only [List.mem_append, not_or]
    refine ⟨⟨⟨hdecimal _, by decide⟩, hdecimal _⟩, ?_⟩
    split_ifs <;> decide
  · rw [clientLine, hyes, hno, htab]
    split_ifs <;> simp only [List.append_assoc, List.cons_append, List.nil_append]

theorem listText_eq_flatten (clients : List Client) (sender_pid : ℤ) : listText clients sender_pid =
    (headerLines ++ (others clients sender_pid).map clientLine ++ [[NEWLINE], [NEWLINE]]).flatten := by
  obtain ⟨title, columns, ⟨htitle, htitle', _, hend⟩, _⟩ := headerTexts
  have hlines : (others clients sender_pid).flatMap clientLine =
      ((others clients sender_pid).map clientLine).flatten := List.flatMap_def ..
  change _ ++ _ ++ (others clients sender_pid).flatMap clientLine ++ _ = _
  rw [htitle', hend, hlines, headerLines, htitle]
  simp

theorem lines_listText (clients : List Client) (sender_pid : ℤ) : lines (listText clients sender_pid) =
    headerLines ++ (others clients sender_pid).map clientLine ++ [[NEWLINE], [NEWLINE]] := by
  obtain ⟨title, columns, ⟨htitle, _, hcolumns, _⟩, _, _, ⟨_, hnewline⟩, _, hnewline'⟩ := headerTexts
  have hempty : ∃ s, NEWLINE ∉ s ∧ [NEWLINE] = s ++ [NEWLINE] := ⟨[], by simp, rfl⟩
  rw [listText_eq_flatten]
  apply lines_flatten
  simp only [List.forall_mem_append, headerLines, List.forall_mem_cons, List.forall_mem_map]
  refine ⟨⟨⟨⟨_, hnewline, htitle⟩, hempty, ⟨_, hnewline', hcolumns⟩, ?_⟩,
    fun client _ => clientLine_eq client⟩, hempty, hempty, ?_⟩
  · simp
  · simp

theorem length_listText (clients : List Client) (sender_pid : ℤ) :
    (listText clients sender_pid).length = 63 + ((others clients sender_pid).map lineWidth).sum := by
  obtain ⟨title, columns, ⟨htitle, _, hcolumns, _⟩, hlength, hlength', _⟩ := headerTexts
  have hwidth : List.length ∘ clientLine = lineWidth := funext length_clientLine
  rw [listText_eq_flatten, List.length_flatten, headerLines, htitle, hcolumns]
  simp only [List.map_append, List.map_map, hwidth, List.sum_append, List.map_cons, List.map_nil,
    List.sum_cons, List.sum_nil, List.length_append, List.length_singleton, hlength, hlength']
  omega

/-! ## The writes -/

section Writes

variable {sender_pid : ℤ} {clients : List Client} {text buf : List UInt8}

theorem others_cons (client : Client) : others (client :: clients) sender_pid =
    if client.id ≠ sender_pid then client :: others clients sender_pid
    else others clients sender_pid := by
  rw [others, List.filter_cons]
  simp only [decide_eq_true_eq]
  rfl

/-- What the loop adds when it stays inside the array. -/
theorem contents_of_table (h : clients.foldlM (addClient sender_pid) text = some buf) :
    buf.length = text.length ∧
      contents buf = contents text ++ (others clients sender_pid).flatMap clientLine := by
  induction clients generalizing text with
  | nil =>
    obtain rfl := Option.some.inj h
    exact ⟨rfl, (List.append_nil _).symm⟩
  | cons client clients ih =>
    rw [List.foldlM_cons] at h
    obtain ⟨next, hnext, hrest⟩ := Option.bind_eq_some_iff.mp h
    obtain ⟨hlength, hcontents⟩ := ih hrest
    unfold addClient at hnext
    rw [others_cons]
    split_ifs at hnext ⊢ with hid hline
    · obtain ⟨_, hlength', hcontents'⟩ := contents_of_strcat (zero_notMem_clientLine client) hnext
      rw [hlength, hcontents, hcontents', List.flatMap_cons, List.append_assoc]
      exact ⟨hlength', rfl⟩
    · obtain rfl := Option.some.inj hnext
      exact ⟨hlength, hcontents⟩

theorem table_isSome (hlines : ∀ client ∈ clients, (clientLine client).length < 128)
    (hfits : (contents text).length + ((others clients sender_pid).flatMap clientLine).length <
      text.length) : (clients.foldlM (addClient sender_pid) text).isSome := by
  induction clients generalizing text with
  | nil => rfl
  | cons client clients ih =>
    rw [List.forall_mem_cons] at hlines
    rw [others_cons] at hfits
    rw [List.foldlM_cons, addClient]
    split_ifs at hfits ⊢ with hid hline
    · rw [List.flatMap_cons, List.length_append] at hfits
      have hadded : (strcat text (clientLine client)).isSome := strcat_isSome_iff.mpr (by omega)
      obtain ⟨next, hnext⟩ := Option.isSome_iff_exists.mp hadded
      obtain ⟨_, hlength, hcontents⟩ := contents_of_strcat (zero_notMem_clientLine client) hnext
      rw [hnext]
      apply ih hlines.2
      rw [hlength, hcontents, List.length_append]
      omega
    · exact absurd hlines.1 hline
    · exact ih hlines.2 hfits

theorem zero_notMem_texts : 0 ∉ utf8 "––– LIST OF AVAILABLE CLIENTS –––\n\n" ∧
    0 ∉ utf8 "ID\tPQD\tACTIVE\n" ∧ 0 ∉ utf8 "\n\n" := by
  obtain ⟨title, columns, ⟨_, htitle, hcolumns, hend⟩, _, _, ⟨hzero, _⟩, hzero', _⟩ := headerTexts
  rw [htitle, hcolumns, hend, List.mem_append, List.mem_append, not_or, not_or]
  exact ⟨⟨hzero, by decide⟩, ⟨hzero', by decide⟩, by decide⟩

theorem contents_of_writeList (h : writeList clients sender_pid text = some buf) :
    buf.length = text.length ∧ contents buf = listText clients sender_pid := by
  obtain ⟨htitle, hcolumns, hend⟩ := zero_notMem_texts
  obtain ⟨title, hstep, h⟩ := Option.bind_eq_some_iff.mp h
  obtain ⟨_, hlength, hcontents⟩ := contents_of_strcpy htitle hstep
  obtain ⟨header, hstep, h⟩ := Option.bind_eq_some_iff.mp h
  obtain ⟨_, hlength', hcontents'⟩ := contents_of_strcat hcolumns hstep
  obtain ⟨table, hstep, h⟩ := Option.bind_eq_some_iff.mp h
  obtain ⟨hlength'', hcontents''⟩ := contents_of_table hstep
  obtain ⟨_, hlast, hlast'⟩ := contents_of_strcat hend h
  refine ⟨hlast.trans (hlength''.trans (hlength'.trans hlength)), ?_⟩
  rw [hlast', hcontents'', hcontents', hcontents]
  rfl

theorem length_listText_lt (h : writeList clients sender_pid text = some buf) :
    (listText clients sender_pid).length < text.length := by
  obtain ⟨hlength, hcontents⟩ := contents_of_writeList h
  obtain ⟨_, _, h⟩ := Option.bind_eq_some_iff.mp h
  obtain ⟨_, _, h⟩ := Option.bind_eq_some_iff.mp h
  obtain ⟨_, _, h⟩ := Option.bind_eq_some_iff.mp h
  obtain ⟨hfits, hlast, hlast'⟩ := contents_of_strcat zero_notMem_texts.2.2 h
  rwa [← hcontents, ← hlength, hlast', hlast]

theorem writeList_isSome (hlines : ∀ client ∈ clients, (clientLine client).length < 128)
    (hfits : (listText clients sender_pid).length < text.length) :
    (writeList clients sender_pid text).isSome := by
  obtain ⟨htitle, hcolumns, _⟩ := zero_notMem_texts
  have hparts : (listText clients sender_pid).length =
      (utf8 "––– LIST OF AVAILABLE CLIENTS –––\n\n").length + (utf8 "ID\tPQD\tACTIVE\n").length +
        ((others clients sender_pid).flatMap clientLine).length + (utf8 "\n\n").length := by
    rw [← List.length_append, ← List.length_append, ← List.length_append]
    rfl
  rw [hparts] at hfits
  obtain ⟨title, hstep⟩ := Option.isSome_iff_exists.mp
    (strcpy_isSome_iff.mpr (by omega) :
      (strcpy text (utf8 "––– LIST OF AVAILABLE CLIENTS –––\n\n")).isSome)
  obtain ⟨_, hlength, hcontents⟩ := contents_of_strcpy htitle hstep
  obtain ⟨header, hstep'⟩ := Option.isSome_iff_exists.mp
    (strcat_isSome_iff.mpr (by rw [hcontents, hlength]; omega) :
      (strcat title (utf8 "ID\tPQD\tACTIVE\n")).isSome)
  obtain ⟨_, hlength', hcontents'⟩ := contents_of_strcat hcolumns hstep'
  have hheader : (contents header).length = (utf8 "––– LIST OF AVAILABLE CLIENTS –––\n\n").length +
      (utf8 "ID\tPQD\tACTIVE\n").length := by
    rw [hcontents', hcontents, List.length_append]
  obtain ⟨table, hstep''⟩ := Option.isSome_iff_exists.mp
    (table_isSome hlines (by rw [hheader, hlength', hlength]; omega) :
      (clients.foldlM (addClient sender_pid) header).isSome)
  obtain ⟨hlength'', hcontents''⟩ := contents_of_table hstep''
  unfold writeList
  simp only [Option.bind_eq_bind, hstep, hstep', hstep'', Option.bind_some]
  rw [strcat_isSome_iff, hcontents'', List.length_append, hheader, hlength'', hlength', hlength]
  omega

end Writes

/-! ## The reply -/

/-- The ids and descriptors are of type `int`. -/
def Ints (clients : List Client) : Prop :=
  ∀ client ∈ clients, (-2 ^ 31 ≤ client.id ∧ client.id ≤ INT_MAX) ∧
    (-2 ^ 31 ≤ client.pqd ∧ client.pqd ≤ INT_MAX)

theorem Ints.length_clientLine_lt {clients : List Client} (h : Ints clients) :
    ∀ client ∈ clients, (clientLine client).length < 128 := by
  intro client hmem
  obtain ⟨hid, hpqd⟩ := h client hmem
  have hid' := length_decimal_le hid.1 hid.2
  have hpqd' := length_decimal_le hpqd.1 hpqd.2
  rw [length_clientLine, lineWidth]
  split_ifs <;> omega

/-- The handler goes on exactly if its writes stay inside the arrays. -/
theorem handleList_isSome_iff (getpid : ℤ) {clients : List Client} {message : Message}
    (hints : Ints clients) (buffer : Buffer) : (handleList getpid clients message).isSome ↔
      (writeList clients message.sender_pid buffer.message_text).isSome := by
  have hsize := buffer.length_message_text
  unfold handleList
  constructor
  · intro h
    split_ifs at h with hfits
    · exact writeList_isSome hints.length_clientLine_lt (by rw [hsize]; exact hfits)
    · cases h
  · intro h
    obtain ⟨text, htext⟩ := Option.isSome_iff_exists.mp h
    have hfits := length_listText_lt htext
    rw [hsize] at hfits
    rw [if_pos hfits]
    rfl

theorem Listed.sum_le {getpid : ℤ} {clients : List Client} {message : Message}
    {requester : Client} {text buf : List UInt8}
    (hlisted : Listed getpid clients message requester text)
    (hwrite : writeList clients message.sender_pid buf = some text) :
    ((others clients message.sender_pid).map lineWidth).sum ≤ 1980 := by
  obtain ⟨_, hcontents⟩ := contents_of_writeList hwrite
  have hlt := (zero_mem_take_iff.mp hlisted.arrives).trans_le (min_le_left _ _)
  rw [hcontents, length_listText] at hlt
  simp only [Interface.sentBytes, MSG_SIZE] at hlt
  omega

/-- Whatever its buffer held, the reply lists the other clients and arrives exactly if their
lines have at most 1980 bytes. -/
theorem handle_list_iff (getpid : ℤ) (clients : List Client) (message : Message)
    (requester : Client) (buffer : Buffer) (hints : Ints clients)
    (hrequester : clients.find? (fun client => client.id = message.sender_pid) = some requester)
    (hactive : requester.active = true) :
    (∃ text, writeList clients message.sender_pid buffer.message_text = some text ∧
        Listed getpid clients message requester text) ↔
      ((others clients message.sender_pid).map lineWidth).sum ≤ 1980 := by
  constructor
  · rintro ⟨text, hwrite, hlisted⟩
    exact hlisted.sum_le hwrite
  · intro hsum
    have hlength := length_listText clients message.sender_pid
    have hfits : (listText clients message.sender_pid).length < buffer.message_text.length := by
      rw [hlength, buffer.length_message_text, MSG_SIZE]
      omega
    obtain ⟨text, htext⟩ := Option.isSome_iff_exists.mp
      (writeList_isSome hints.length_clientLine_lt hfits)
    obtain ⟨hlength', hcontents⟩ := contents_of_writeList htext
    have hsize : text.length = MSG_SIZE := hlength'.trans buffer.length_message_text
    refine ⟨text, htext, ?_, ?_, hsize, zero_mem_take_iff.mpr ?_⟩
    · rw [hcontents, lines_listText]
    · have hsome : (handleList getpid clients message).isSome :=
        (handleList_isSome_iff getpid hints buffer).mpr (htext ▸ rfl)
      obtain ⟨effect, heffect⟩ := Option.isSome_iff_exists.mp hsome
      rw [heffect, (handleList_eq_some heffect).2, hcontents]
      simp [find, hrequester, hactive]
    · rw [hcontents, hsize, hlength]
      simp only [Interface.sentBytes, MSG_SIZE]
      omega

theorem handle_list_iff_two : ∃ text, writeList [⟨3, 10, true⟩, ⟨4, 11, false⟩] 10
      fullBuffer.message_text = some text ∧
    Listed 1 [⟨3, 10, true⟩, ⟨4, 11, false⟩] ⟨LIST, 10, []⟩ ⟨3, 10, true⟩ text :=
  (handle_list_iff 1 [⟨3, 10, true⟩, ⟨4, 11, false⟩] ⟨LIST, 10, []⟩ ⟨3, 10, true⟩ fullBuffer
    (by simp [Ints]) (by decide) rfl).mpr (by decide +kernel)

/-- A table of 200 clients. -/
def crowd : List Client := (List.range 200).map fun k : ℕ => ⟨(k : ℤ), 1000 + (k : ℤ), true⟩

/-- The reply to one of 200 clients does not fit. -/
theorem not_handle_list_crowd : Ints crowd ∧
    crowd.find? (fun client => client.id = 1000) = some ⟨0, 1000, true⟩ ∧
    ¬ ∃ text, writeList crowd 1000 fullBuffer.message_text = some text ∧
      Listed 1 crowd ⟨LIST, 1000, []⟩ ⟨0, 1000, true⟩ text := by
  refine ⟨?_, by decide +kernel, ?_⟩
  · intro client hmem
    obtain ⟨k, hk, rfl⟩ := List.mem_map.mp hmem
    have hlt := List.mem_range.mp hk
    simp only [INT_MAX]
    omega
  · rintro ⟨text, hwrite, hlisted⟩
    have hmany : 1980 < ((others crowd 1000).map lineWidth).sum := by decide +kernel
    have hle := hlisted.sum_le hwrite
    exact absurd hmany (not_lt.mpr hle)

end Sysopy.Chat.SystemV
