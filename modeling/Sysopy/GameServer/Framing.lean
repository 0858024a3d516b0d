import Sysopy.GameServer.Message

/-!
# Messages of a client in the byte stream

A client writes whole messages when it connects and when it leaves. Its replies are written
with the size of a pointer: `handle_move` writes the first bytes of the message, and
`handle_ping` those of the pointer to it. The server reads with the size of a message into a
buffer it has used before, and never looks at how many bytes it got.
-/
namespace Sysopy.GameServer

/-! ## The representation of a message -/

/-- The value of an enumerator of `enum message_type_t`. -/
def MessageType.code : MessageType → UInt8
  | .msgConnect => 0
  | .msgDisconnect => 1
  | .msgEnd => 2
  | .msgMove => 3
  | .msgNameTakenError => 4
  | .msgPing => 5
  | .msgStart => 6
  | .msgUpdate => 7
  | .msgWaiting => 8

/-- `sizeof(struct message_t)`. -/
abbrev MESSAGE_SIZE : ℕ := 24

/-- `sizeof(msg)` where `msg` is a pointer. -/
abbrev POINTER_SIZE : ℕ := 8

/-- The union and, behind it, the type as a little-endian `int`. -/
def Message.bytes (msg : Message) : List UInt8 := List.ofFn msg.data ++ [msg.type.code, 0, 0, 0]

/-- `scanf("%d", &msg->data.move)`. -/
def Message.withMove (msg : Message) (move : BitVec 32) : Message :=
  { msg with data := fun k =>
      if k.val < 4 then UInt8.ofBitVec (move.extractLsb' (8 * k.val) 8) else msg.data k }

@[simp] theorem Message.length_bytes (msg : Message) : msg.bytes.length = MESSAGE_SIZE := by
  simp [Message.bytes]

/-! ## Writing and reading -/

/-- What a client sends, with the contents of its `msg` before. -/
inductive Emission
  | connect (msg : Message)
  | move (msg : Message) (move : BitVec 32)
  | ping (msg : Message) (pointer : Vector UInt8 POINTER_SIZE)
  | disconnect (msg : Message)

namespace Emission

/-- The message that the client means to send. -/
def message : Emission → Message
  | connect msg => msg.withType .msgConnect
  | move msg n => (msg.withType .msgMove).withMove n
  | ping msg _ => msg.withType .msgPing
  | disconnect msg => msg.withType .msgDisconnect

/-- The bytes that it writes. -/
def written : Emission → List UInt8
  | connect msg => (connect msg).message.bytes
  | move msg n => (move msg n).message.bytes.take POINTER_SIZE
  | ping _ pointer => pointer.toList
  | disconnect msg => (disconnect msg).message.bytes

/-- The buffer for the answer to a message still holds it: behind the bytes that the client
writes, the bytes are those of the answer. -/
def Answers (e : Emission) (buffer : List UInt8) : Prop :=
  buffer.drop e.written.length = e.message.bytes.drop e.written.length

end Emission

/-- `read(fd, &msg, sizeof(struct message_t))` that returns `chunk`. -/
def readInto (buffer chunk : List UInt8) : List UInt8 := chunk ++ buffer.drop chunk.length

/-- The reads produce the messages of the client, whatever their buffers held. -/
def Framed (emissions : List Emission) (chunks : List (List UInt8)) : Prop :=
  ∀ buffers : ℕ → List UInt8,
    (∀ (i : ℕ) (e : Emission), emissions[i]? = some e → e.Answers (buffers i)) →
    chunks.mapIdx (fun i chunk => readInto (buffers i) chunk) =
      emissions.map fun e => e.message.bytes

/-- A way in which the stream can arrive. -/
structure Arrives (emissions : List Emission) (chunks : List (List UInt8)) : Prop where
  ne_nil : ∀ chunk ∈ chunks, chunk ≠ []
  length_le : ∀ chunk ∈ chunks, chunk.length ≤ MESSAGE_SIZE
  flatten : chunks.flatten = (emissions.map Emission.written).flatten

/-! ## The reads that produce the messages -/

/-- Pieces that are at least as long as those of another division of the list are the same. -/
theorem eq_of_flatten_eq {α : Type*} {pieces pieces' : List (List α)}
    (hle : List.Forall₂ (fun p p' => p'.length ≤ p.length) pieces pieces')
    (hflatten : pieces.flatten = pieces'.flatten) : pieces = pieces' := by
  induction hle with
  | nil => rfl
  | @cons p p' pieces pieces' hp hrest ih =>
    have hsum : pieces'.flatten.length ≤ pieces.flatten.length := by
      clear ih hflatten
      induction hrest with
      | nil => rfl
      | cons hp _ ih =>
        rw [List.flatten_cons, List.flatten_cons, List.length_append, List.length_append]
        exact Nat.add_le_add hp ih
    have hlength := congrArg List.length hflatten
    rw [List.flatten_cons, List.flatten_cons, List.length_append, List.length_append] at hlength
    obtain ⟨rfl, htail⟩ := List.append_inj hflatten (by omega)
    rw [ih htail]

/-- A buffer for the answer, whose bytes that are to be read into are `c`. -/
def Emission.buffer (e : Emission) (c : UInt8) : List UInt8 :=
  List.replicate e.written.length c ++ e.message.bytes.drop e.written.length

theorem Emission.answers_buffer (e : Emission) (c : UInt8) : e.Answers (e.buffer c) := by
  rw [Answers, buffer]
  exact List.drop_left' (by simp)

theorem length_le_of_readInto {e : Emission} {chunk : List UInt8}
    (h : ∀ c, readInto (e.buffer c) chunk = e.message.bytes) :
    e.written.length ≤ chunk.length := by
  by_contra hlt
  rw [not_le] at hlt
  have hsame : (e.buffer 0).drop chunk.length = (e.buffer 1).drop chunk.length :=
    List.append_cancel_left ((h 0).trans (h 1).symm)
  have hfirst : ∀ c, ((e.buffer c).drop chunk.length).head? = some c := by
    intro c
    rw [List.head?_drop, Emission.buffer, List.getElem?_append_left (by simpa using hlt),
      List.getElem?_replicate, if_pos hlt]
  have hhead := congrArg List.head? hsame
  rw [hfirst, hfirst] at hhead
  cases hhead

/-- Each read gets at least what was written for its message. -/
theorem Framed.forall₂ {emissions : List Emission} {chunks : List (List UInt8)}
    (h : Framed emissions chunks) :
    List.Forall₂ (fun chunk written => written.length ≤ chunk.length) chunks
      (emissions.map Emission.written) := by
  have hbuffers : ∀ c, chunks.mapIdx (fun i chunk =>
      readInto ((emissions[i]?.map fun e => e.buffer c).getD []) chunk) =
      emissions.map fun e => e.message.bytes := by
    intro c
    apply h
    intro i e he
    rw [he]
    exact e.answers_buffer c
  have hlength : chunks.length = emissions.length := by
    simpa using congrArg List.length (hbuffers 0)
  rw [List.forall₂_iff_get]
  refine ⟨by simpa using hlength, ?_⟩
  intro i hi hi'
  rw [List.length_map] at hi'
  have hread : ∀ c, readInto (emissions[i].buffer c) chunks[i] = emissions[i].message.bytes := by
    intro c
    have hget := congrArg (fun l => l[i]?) (hbuffers c)
    simpa [List.getElem?_eq_getElem, hi, hi'] using hget
  simpa using length_le_of_readInto hread

theorem readInto_written {e : Emission} {buffer : List UInt8} (h : e.Answers buffer) :
    readInto buffer e.written = e.message.bytes ↔
      e.written = e.message.bytes.take e.written.length := by
  rw [readInto, h]
  constructor
  · intro hread
    exact List.append_cancel_right (hread.trans (List.take_append_drop _ _).symm)
  · intro hbefore
    rw [← List.take_append_drop e.written.length e.message.bytes, ← hbefore]
    simp

/-- The bytes written are the first ones of the message, except for a pointer. -/
theorem Emission.written_eq_take (e : Emission) : e.written = e.message.bytes.take e.written.length ↔
    ∀ msg pointer, e = .ping msg pointer →
      pointer.toList = (msg.withType .msgPing).bytes.take POINTER_SIZE := by
  cases e with
  | connect msg => simp [written]
  | move msg n => simp [written]
  | ping msg pointer =>
    have hwritten : (ping msg pointer).written = pointer.toList := rfl
    have hlength : pointer.toList.length = POINTER_SIZE := by simp
    have hmessage : (ping msg pointer).message = msg.withType .msgPing := rfl
    rw [hwritten, hlength, hmessage]
    constructor
    · rintro h msg' pointer' ⟨⟩
      exact h
    · exact fun h => h msg pointer rfl
  | disconnect msg => simp [written]

/-- The reads produce the messages when each read gets exactly what was written for one of
them, and the pointers written for the pings are the first bytes of those. -/
theorem framed_iff {emissions : List Emission} {chunks : List (List UInt8)}
    (harrives : Arrives emissions chunks) : Framed emissions chunks ↔
      chunks = emissions.map Emission.written ∧
      ∀ msg pointer, Emission.ping msg pointer ∈ emissions →
        pointer.toList = (msg.withType .msgPing).bytes.take POINTER_SIZE := by
  have hbefore : (∀ msg pointer, Emission.ping msg pointer ∈ emissions →
      pointer.toList = (msg.withType .msgPing).bytes.take POINTER_SIZE) ↔
      ∀ e ∈ emissions, e.written = e.message.bytes.take e.written.length := by
    constructor
    · intro h e he
      rw [Emission.written_eq_take]
      rintro msg pointer rfl
      exact h msg pointer he
    · intro h msg pointer hmem
      exact (Emission.written_eq_take _).mp (h _ hmem) msg pointer rfl
  rw [hbefore]
  constructor
  · intro h
    have hchunks := eq_of_flatten_eq h.forall₂ harrives.flatten
    refine ⟨hchunks, ?_⟩
    intro e hmem
    obtain ⟨i, hi, rfl⟩ := List.getElem_of_mem hmem
    have hbuffers := h (fun j => (emissions[j]?.map fun e => e.buffer 0).getD []) (by
      intro j e he
      rw [he]
      exact e.answers_buffer 0)
    have hget := congrArg (fun l => l[i]?) hbuffers
    rw [hchunks] at hget
    rw [← readInto_written (emissions[i].answers_buffer 0)]
    simpa [List.getElem?_eq_getElem, hi] using hget
  · rintro ⟨rfl, hwritten⟩
    intro buffers hbuffers
    apply List.ext_getElem?
    intro i
    rw [List.getElem?_mapIdx, List.getElem?_map, List.getElem?_map]
    cases he : emissions[i]? with
    | none => rfl
    | some e =>
      have hread := (readInto_written (hbuffers i e he)).mpr (hwritten e (List.mem_of_getElem? he))
      simp [hread]

/-- A client connects, chooses the field 5 and leaves. -/
def shortGame : List Emission :=
  [.connect ⟨fun _ => 65, .msgConnect⟩, .move ⟨fun _ => 32, .msgMove⟩ 5,
    .disconnect ⟨fun _ => 32, .msgUpdate⟩]

/-- Every read gets one of the writes. -/
theorem framed_shortGame : Framed shortGame (shortGame.map Emission.written) := by
  have harrives : Arrives shortGame (shortGame.map Emission.written) :=
    ⟨by decide +kernel, by decide +kernel, rfl⟩
  refine (framed_iff harrives).mpr ⟨rfl, ?_⟩
  intro msg pointer hmem
  simp [shortGame] at hmem

/-- The second read gets the move together with the start of the last message. -/
theorem not_framed_shortGame : ∃ chunks, Arrives shortGame chunks ∧ ¬ Framed shortGame chunks := by
  let stream := (shortGame.map Emission.written).flatten
  refine ⟨[stream.take 24, (stream.drop 24).take 24, stream.drop 48],
    ⟨by decide +kernel, by decide +kernel, by decide +kernel⟩, fun h => ?_⟩
  have hlast := (List.forall₂_iff_get.mp h.forall₂).2 2 (by decide) (by decide)
  revert hlast
  decide +kernel

end Sysopy.GameServer
