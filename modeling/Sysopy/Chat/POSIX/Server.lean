import Sysopy.Chat.Message

/-!
# The POSIX chat server

The handlers of the server on its table of clients. A handler opens the queues
that it needs by their names, and returns the new table and its calls of
`MQ_SEND` in order; it returns nothing where the server exits with an error.
-/
namespace Sysopy.Chat.POSIX

open CInteger CString

abbrev STOP : ℤ := 5
abbrev DISCONNECT : ℤ := 4
abbrev LIST : ℤ := 3
abbrev CONNECT : ℤ := 2
abbrev INIT : ℤ := 1

/-- `"/server"`. -/
def PATH : List UInt8 := [47, 115, 101, 114, 118, 101, 114]

/-- `"/%d"`, the name of the private queue of a process. -/
def keyOf (pid : ℤ) : List UInt8 := 47 :: decimal pid

/-- A queue that `mq_open` has opened: that of the server or that of a client. -/
inductive Mqd
  | server
  | client (pid : ℤ)
  deriving DecidableEq, Repr

/-- A message in a queue, with the priority given to `mq_send`. -/
structure Entry where
  prio : ℤ
  message : Message
  deriving DecidableEq, Repr

/-- `struct client`. -/
structure Client where
  pid : ℤ
  active : Bool
  deriving DecidableEq, Repr

/-- The first client with this pid is marked. -/
def setActive (clients : List Client) (pid : ℤ) (active : Bool) : List Client :=
  match clients with
  | [] => []
  | client :: clients =>
    if client.pid = pid then { client with active := active } :: clients
    else client :: setActive clients pid active

def deactivate (clients : List Client) (pid : ℤ) : List Client := setActive clients pid false

def removeclient (clients : List Client) (pid : ℤ) : List Client :=
  clients.eraseP fun client => client.pid = pid

/-- What a handler does: the table and the calls of `MQ_SEND`. -/
abbrev Effect := List Client × List (Mqd × Entry)

variable (getpid : ℤ) (mqOpen : List UInt8 → Option Mqd)

def handleInit (clients : List Client) (message : Message) : Option Effect :=
  match mqOpen (keyOf message.sender_pid) with
  | some clientid =>
    some (clients ++ [⟨message.sender_pid, true⟩],
      [(clientid, ⟨message.type, { message with sender_pid := getpid }⟩)])
  | none => none

def handleConnect (clients : List Client) (message : Message) : Option Effect :=
  let id := parseInt message.message_text
  let key1 := keyOf message.sender_pid
  let key2 := keyOf id
  match mqOpen key1, mqOpen key2 with
  | some privateid1, some privateid2 =>
    some (deactivate (deactivate clients message.sender_pid) id,
      [(privateid2, ⟨message.type, ⟨message.type, getpid, key1⟩⟩),
        (privateid1, ⟨message.type, ⟨message.type, getpid, key2⟩⟩)])
  | _, _ => none

def handleDisconnect (clients : List Client) (message : Message) : Effect :=
  (setActive clients message.sender_pid true, [])

def handleStop (clients : List Client) (message : Message) : Effect :=
  (removeclient clients message.sender_pid, [])

/-- The lines of the other clients. -/
def listText (clients : List Client) (sender_pid : ℤ) : List UInt8 :=
  utf8 "––– LIST OF AVAILABLE CLIENTS –––\n\n" ++ utf8 "ID\tACTIVE\n" ++
    (clients.filter fun client => client.pid ≠ sender_pid).flatMap (fun client =>
      decimal client.pid ++ (if client.active then utf8 "\tyes\n" else utf8 "\tno\n")) ++
    utf8 "\n\n"

/-- `none` also when the calls of `strcat` run over the end of `message_text`. -/
def handleList (clients : List Client) (message : Message) : Option Effect :=
  match mqOpen (keyOf message.sender_pid) with
  | some clientid =>
    if (listText clients message.sender_pid).length < MSG_SIZE then
      some (clients,
        [(clientid, ⟨LIST, ⟨LIST, message.sender_pid, listText clients message.sender_pid⟩⟩)])
    else none
  | none => none

/-- The `switch` of `main`; an unknown type ends the server. -/
def handle (clients : List Client) (message : Message) : Option Effect :=
  if message.type = CONNECT then handleConnect getpid mqOpen clients message
  else if message.type = INIT then handleInit getpid mqOpen clients message
  else if message.type = DISCONNECT then some (handleDisconnect clients message)
  else if message.type = STOP then some (handleStop clients message)
  else if message.type = LIST then handleList mqOpen clients message
  else none

/-- The server pairs any two ids whose queues it can open. -/
theorem handle_connect (getpid : ℤ) {mqOpen : List UInt8 → Option Mqd} {message : Message}
    {queue queue' : Mqd} (clients : List Client) (htype : message.type = CONNECT)
    (h : mqOpen (keyOf message.sender_pid) = some queue)
    (h' : mqOpen (keyOf (parseInt message.message_text)) = some queue') :
    handle getpid mqOpen clients message =
      some (deactivate (deactivate clients message.sender_pid) (parseInt message.message_text),
        [(queue', ⟨message.type, ⟨message.type, getpid, keyOf message.sender_pid⟩⟩),
          (queue, ⟨message.type, ⟨message.type, getpid, keyOf (parseInt message.message_text)⟩⟩)]) := by
  simp [handle, handleConnect, htype, h, h']

/-! ## Names of queues -/

theorem keyOf_injective : Function.Injective keyOf := by
  intro x y h
  have hdecimal : decimal x = decimal y := (List.cons_injective h : _)
  have hminus : ∀ n rest, digits n ≠ 45 :: rest := by
    intro n rest heq
    have hdigit := isdigit_of_mem_digits n 45 (by simp [heq])
    exact absurd hdigit (by decide)
  unfold decimal at hdecimal
  split_ifs at hdecimal with hx hy hy
  · have hvalue := congrArg digitsValue (List.cons_injective hdecimal)
    rw [digitsValue_digits, digitsValue_digits] at hvalue
    omega
  · exact absurd hdecimal.symm (hminus _ _)
  · exact absurd hdecimal (hminus _ _)
  · have hvalue := congrArg digitsValue hdecimal
    rw [digitsValue_digits, digitsValue_digits] at hvalue
    omega

theorem keyOf_ne_PATH (x : ℤ) : keyOf x ≠ PATH := by
  intro heq
  have hmem : (115 : UInt8) ∈ decimal x := by
    rw [List.cons_injective heq]
    decide
  rcases mem_decimal hmem with h | h <;> exact absurd h (by decide)

theorem contents_decimal (x : ℤ) : contents (decimal x) = decimal x := by
  have hne : ∀ c ∈ decimal x, c ≠ 0 := by
    intro c hc heq
    rcases mem_decimal hc with h | h
    · exact absurd (heq ▸ h) (by decide)
    · exact absurd (heq ▸ h) (by decide)
  simpa using contents_append_zeros (decimal x) hne 0

theorem contents_keyOf (x : ℤ) : contents (keyOf x) = keyOf x := by
  rw [keyOf, contents_cons (by decide), contents_decimal]

/-! ## Texts of the server that are not the line that ends a chat -/

theorem not_isDisconnectLine_decimal (x : ℤ) : isDisconnectLine (decimal x) = false := by
  rw [isDisconnectLine, contents_decimal, decide_eq_false_iff_not]
  intro h
  have hmem : (68 : UInt8) ∈ decimal x := by simp [h, DISCONNECT_LINE]
  rcases mem_decimal hmem with h | h <;> exact absurd h (by decide)

theorem not_isDisconnectLine_keyOf (x : ℤ) : isDisconnectLine (keyOf x) = false := by
  rw [isDisconnectLine, contents_keyOf, decide_eq_false_iff_not, keyOf, DISCONNECT_LINE]
  intro h
  exact absurd (List.cons.inj h).1 (by decide)

theorem not_isDisconnectLine_listText (clients : List Client) (sender_pid : ℤ) :
    isDisconnectLine (listText clients sender_pid) = false := by
  have htitle : (utf8 "––– LIST OF AVAILABLE CLIENTS –––\n\n").head? = some 226 := by
    decide +kernel
  obtain ⟨rest, hrest⟩ := List.head?_eq_some_iff.mp htitle
  rw [isDisconnectLine, decide_eq_false_iff_not, listText, hrest]
  simp only [List.cons_append]
  rw [contents_cons (by decide), DISCONNECT_LINE]
  intro h
  exact absurd (List.cons.inj h).1 (by decide)

end Sysopy.Chat.POSIX
