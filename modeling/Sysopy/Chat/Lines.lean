import Sysopy.Chat.Message
import Sysopy.Library.CText

/-!
# Lines between two clients

`direct_connection` of both clients reads a line, or a part of it, into `message_text` and
sends `MSG_SIZE` bytes of the message. The members before `message_text` count among these
bytes, in the System V version without `type`, so that not all of the text is sent. What
both clients have received and typed before is in their buffers.
-/
namespace Sysopy.Chat

open CString CText

inductive Interface
  | posix
  | systemV
  deriving DecidableEq, Repr

/-- The bytes of `message_text` that are sent: `MSG_SIZE` without `sender_pid`, which takes 4
bytes, and in the POSIX version without the 8 bytes of `type`. -/
def Interface.sentBytes : Interface → ℕ
  | .posix => MSG_SIZE - 8 - 4
  | .systemV => MSG_SIZE - 4

/-- The `struct message` of `direct_connection`. -/
structure Buffer where
  type : ℤ
  message_text : List UInt8
  length_message_text : message_text.length = MSG_SIZE

/-- `msgsnd` fails for a type below 1, and nobody sets the type. -/
def Interface.sends : Interface → Buffer → Bool
  | .posix, _ => true
  | .systemV, buffer => 1 ≤ buffer.type

/-- The text after `fgets(message.message_text, MSG_SIZE, stdin)` has read `piece`. -/
def Buffer.typed (buffer : Buffer) (piece : List UInt8) : List UInt8 :=
  piece ++ 0 :: buffer.message_text.drop (piece.length + 1)

/-- The text after a message with `text` has been received. -/
def Buffer.receives (interface : Interface) (buffer : Buffer) (text : List UInt8) : List UInt8 :=
  text.take interface.sentBytes ++ buffer.message_text.drop interface.sentBytes

/-- What the receiver prints for a piece; `none` when the chat ends, or when the text has no
NUL and `printf` leaves the array. -/
def exchange (interface : Interface) (sender receiver : Buffer) (piece : List UInt8) :
    Option (List UInt8) :=
  let text := sender.typed piece
  if isDisconnectLine text ∨ interface.sends sender = false then none
  else
    let received := receiver.receives interface text
    if isDisconnectLine received ∨ 0 ∉ received then none else some (contents received)

/-- What the receiver prints for all pieces, with the buffers of both sides as they are when
a piece is read and when its message is received. -/
def printed (interface : Interface) (senders receivers : ℕ → Buffer) :
    ℕ → List (List UInt8) → Option (List UInt8)
  | _, [] => some []
  | k, piece :: rest =>
    (exchange interface (senders k) (receivers k) piece).bind fun s =>
      (printed interface senders receivers (k + 1) rest).map fun later => s ++ later

/-- The pieces in which `fgets` reads the text. -/
def typedPieces (text : List UInt8) : List (List UInt8) := pieces MSG_SIZE (by decide) text

/-! ## One piece -/

section Exchange

variable {interface : Interface} {sender receiver : Buffer} {piece : List UInt8}

theorem exchange_of_lt (hsends : interface.sends sender = true) (hzero : 0 ∉ piece)
    (hline : piece ≠ DISCONNECT_LINE) (hlength : piece.length < interface.sentBytes) :
    exchange interface sender receiver piece = some piece := by
  have hreceives : ∃ rest, receiver.receives interface (sender.typed piece) = piece ++ 0 :: rest := by
    unfold Buffer.receives Buffer.typed
    rw [List.take_append, List.take_of_length_le hlength.le]
    obtain ⟨k, hk⟩ : ∃ k, interface.sentBytes - piece.length = k + 1 :=
      ⟨interface.sentBytes - piece.length - 1, by omega⟩
    rw [hk, List.take_succ_cons, List.append_assoc, List.cons_append]
    exact ⟨_, rfl⟩
  obtain ⟨rest, hrest⟩ := hreceives
  unfold exchange
  dsimp only
  rw [hrest]
  simp [isDisconnectLine, Buffer.typed, contents_append_zero hzero, hline, hsends]

/-- A buffer without a NUL. -/
def fullBuffer : Buffer := ⟨1, List.replicate MSG_SIZE 1, List.length_replicate⟩

theorem exchange_of_le (hzero : 0 ∉ piece) (hlength : interface.sentBytes ≤ piece.length) :
    exchange interface sender fullBuffer piece = none := by
  have hreceives : 0 ∉ fullBuffer.receives interface (sender.typed piece) := by
    unfold Buffer.receives Buffer.typed
    rw [List.take_append_of_le_length hlength, List.mem_append, not_or]
    refine ⟨fun hmem => hzero (List.mem_of_mem_take hmem), fun hmem => ?_⟩
    have hone := List.eq_of_mem_replicate (List.mem_of_mem_drop hmem)
    exact absurd hone (by decide)
  unfold exchange
  dsimp only
  split_ifs with hends hstray
  · rfl
  · rfl
  · exact absurd (.inr hreceives) hstray

theorem sends_of_exchange {s : List UInt8}
    (h : exchange interface sender receiver piece = some s) : interface.sends sender = true := by
  unfold exchange at h
  dsimp only at h
  split_ifs at h with hends
  rw [not_or] at hends
  simpa using hends.2

end Exchange

/-! ## A whole text -/

section Text

variable {interface : Interface} {senders receivers : ℕ → Buffer}

theorem printed_of_pieces {ps : List (List UInt8)} (k : ℕ)
    (hsends : ∀ j < ps.length, interface.sends (senders (k + j)) = true)
    (hpieces : ∀ piece ∈ ps, 0 ∉ piece ∧ piece ≠ DISCONNECT_LINE ∧
      piece.length < interface.sentBytes) :
    printed interface senders receivers k ps = some ps.flatten := by
  induction ps generalizing k with
  | nil => rfl
  | cons piece ps ih =>
    obtain ⟨⟨hzero, hline, hlength⟩, hrest⟩ := List.forall_mem_cons.mp hpieces
    have hrest' := ih (k + 1) (fun j hj => by
      rw [add_assoc, add_comm 1 j]
      exact hsends (j + 1) (by simpa using hj)) hrest
    have hfirst : interface.sends (senders k) = true := by simpa using hsends 0 (by simp)
    rw [printed, exchange_of_lt hfirst hzero hline hlength, hrest']
    rfl

/-- Every piece of a text that is printed has been exchanged. -/
theorem exchange_of_printed {ps : List (List UInt8)} {k : ℕ} {s : List UInt8}
    (h : printed interface senders receivers k ps = some s) {j : ℕ} (hj : j < ps.length) :
    ∃ t, exchange interface (senders (k + j)) (receivers (k + j)) ps[j] = some t := by
  induction ps generalizing k s j with
  | nil => exact absurd hj (Nat.not_lt_zero j)
  | cons piece ps ih =>
    obtain ⟨t, ht, hrest⟩ := Option.bind_eq_some_iff.mp h
    obtain ⟨later, hlater, _⟩ := Option.map_eq_some_iff.mp hrest
    cases j with
    | zero => exact ⟨t, ht⟩
    | succ j =>
      have hnext := ih hlater (j := j) (by simpa using hj)
      rwa [add_assoc, add_comm 1 j] at hnext

end Text

/-- Whatever was in the buffer of the receiver, the text arrives whole exactly if no line with
its newline fills the bytes that are sent and, in the System V version, the sender's type is
positive whenever it sends. -/
theorem lines_arrive_iff (interface : Interface) (text : List UInt8) (hzero : 0 ∉ text)
    (hdisconnect : DISCONNECT_LINE ∉ lines text) (senders : ℕ → Buffer) :
    (∀ receivers, printed interface senders receivers 0 (typedPieces text) = some text) ↔
      (∀ line ∈ lines text, line.length < interface.sentBytes) ∧
        ∀ k < (typedPieces text).length, interface.sends (senders k) = true := by
  have hsent : interface.sentBytes < MSG_SIZE := by
    cases interface <;> decide
  constructor
  · intro h
    have hfull := h fun _ => fullBuffer
    have hzeroPieces : ∀ piece ∈ typedPieces text, 0 ∉ piece := by
      intro piece hpiece hmem
      apply hzero
      rw [← flatten_pieces (n := MSG_SIZE) (by decide) text]
      exact List.mem_flatten.mpr ⟨piece, hpiece, hmem⟩
    have hlt : ∀ piece ∈ typedPieces text, piece.length < interface.sentBytes := by
      intro piece hpiece
      obtain ⟨j, hj, rfl⟩ := List.mem_iff_getElem.mp hpiece
      obtain ⟨t, ht⟩ := exchange_of_printed hfull hj
      by_contra hle
      rw [exchange_of_le (hzeroPieces _ hpiece) (not_lt.mp hle)] at ht
      cases ht
    refine ⟨(length_pieces_lt_iff _ hsent text).mp hlt, fun k hk => ?_⟩
    obtain ⟨t, ht⟩ := exchange_of_printed hfull hk
    rw [zero_add] at ht
    exact sends_of_exchange ht
  · rintro ⟨hlines, hsends⟩ receivers
    have hpieces : typedPieces text = lines text :=
      pieces_of_lines _ text fun line hline => (hlines line hline).trans hsent
    rw [hpieces] at hsends ⊢
    rw [printed_of_pieces 0 (by simpa using hsends), flatten_lines]
    intro line hline
    refine ⟨fun hmem => hzero ?_, ?_, hlines line hline⟩
    · rw [← flatten_lines text]
      exact List.mem_flatten.mpr ⟨line, hline, hmem⟩
    · rintro rfl
      exact hdisconnect hline

/-- A short line. -/
theorem lines_arrive_hi :
    printed .systemV (fun _ => fullBuffer) (fun _ => fullBuffer) 0 (typedPieces [104, 105, 10]) =
      some [104, 105, 10] :=
  (lines_arrive_iff .systemV [104, 105, 10] (by decide) (by decide) _).mpr
    ⟨by decide, fun _ _ => rfl⟩ _

/-- A line of 2044 characters, which fits in `message_text` with its newline. -/
def longLine : List UInt8 := List.replicate 2044 97 ++ [NEWLINE]

theorem length_longLine : longLine.length = 2045 := by
  rw [longLine, List.length_append, List.length_replicate, List.length_singleton]

theorem zero_not_mem_longLine : 0 ∉ longLine := by
  rw [longLine, List.mem_append, not_or]
  exact ⟨fun hmem => absurd (List.eq_of_mem_replicate hmem) (by decide), by decide⟩

theorem lines_longLine : lines longLine = [longLine] :=
  lines_append fun hmem => absurd (List.eq_of_mem_replicate hmem) (by decide)

theorem typedPieces_longLine : typedPieces longLine = [longLine] := by
  rw [← lines_longLine]
  refine pieces_of_lines _ _ fun line hline => ?_
  rw [lines_longLine, List.mem_singleton] at hline
  rw [hline, length_longLine]
  decide

theorem disconnect_not_mem_longLine : DISCONNECT_LINE ∉ lines longLine := by
  rw [lines_longLine, List.mem_singleton]
  intro heq
  have hlength := congrArg List.length heq
  rw [length_longLine] at hlength
  exact absurd hlength (by decide)

theorem printed_longLine (interface : Interface) :
    printed interface (fun _ => fullBuffer) (fun _ => fullBuffer) 0 (typedPieces longLine) =
      none := by
  have hlong : interface.sentBytes ≤ longLine.length := by
    rw [length_longLine]
    cases interface <;> decide
  rw [typedPieces_longLine, printed, exchange_of_le zero_not_mem_longLine hlong]
  rfl

/-- In both versions a typed line of 2044 characters does not arrive whole. -/
theorem not_lines_arrive_long :
    (0 ∉ longLine ∧ DISCONNECT_LINE ∉ lines longLine ∧ typedPieces longLine = [longLine]) ∧
    (Interface.posix.sends fullBuffer = true ∧
      printed .posix (fun _ => fullBuffer) (fun _ => fullBuffer) 0 (typedPieces longLine) ≠
        some longLine) ∧
    (Interface.systemV.sends fullBuffer = true ∧
      printed .systemV (fun _ => fullBuffer) (fun _ => fullBuffer) 0 (typedPieces longLine) ≠
        some longLine) := by
  refine ⟨⟨zero_not_mem_longLine, disconnect_not_mem_longLine, typedPieces_longLine⟩,
    ⟨rfl, ?_⟩, ⟨rfl, ?_⟩⟩
  · rw [printed_longLine]
    exact (Option.some_ne_none _).symm
  · rw [printed_longLine]
    exact (Option.some_ne_none _).symm

end Sysopy.Chat
