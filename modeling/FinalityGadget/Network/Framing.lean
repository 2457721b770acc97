import Mathlib.Logic.Relation
import FinalityGadget.Foundation.Varint
import FinalityGadget.Types.Certificates

/-!
# Messages on a stream

A message is sent as the length of its encoding, a variable-length number, followed by the encoding.
The receiver decodes one message after the other from a buffered reader, each from as many bytes as
its length announces, until the end of the input. The decoder belongs to the base library: how much
it reads of the bytes it is offered is its own affair, and so is the error it returns.
-/

namespace FinalityGadget

open Fallible Varint Relation

variable {Msg : Type}

/-- The codec of one type of messages. `decode limit` is `Cbor.Decode` from a reader limited to
`limit` bytes. -/
structure Cbor (Msg : Type) where
  typeName : String
  marshal : Msg → Except Err (List UInt8)
  decode : ℕ → EStateM ReadError Reader Msg

/-- An error together with the one it wraps. -/
structure WrappedErr where
  message : Err
  cause : Option ReadError := none

namespace WrappedErr

def wrap (context : Err) (cause : ReadError) : WrappedErr :=
  { message := s!"{context}: {cause.text}", cause := some cause }

/-- `errors.Is(err, io.EOF)`. -/
def isEOF (err : WrappedErr) : Prop := err.cause = some .eof

instance (err : WrappedErr) : Decidable err.isEOF := inferInstanceAs (Decidable (_ = _))

end WrappedErr

/-! ## Sending and receiving -/

/-- The length is written into a buffer of 8 bytes. -/
def serializeMsg (cbor : Cbor Msg) (msg : Msg) : Except Err (List UInt8) := do
  let data ← (cbor.marshal msg).mapError fun err ↦ s!"marshaling {cbor.typeName} as CBOR: {err}"
  match putUvarint 8 data.length with
  | none => .error "index out of range"
  | some lengthBytes => .ok (lengthBytes ++ data)

def maxMsgSize : ℕ := 16 * 1024 * 1024

/-- The reader is already buffered, so that the one made for each message is the same. -/
def deserializeMsg (cbor : Cbor Msg) : EStateM WrappedErr Reader Msg := do
  let length ← EStateM.adaptExcept (WrappedErr.wrap "reading data length") readUvarint
  ensure (length ≠ 0) { message := "unexpected data length zero" }
  ensure (length ≤ maxMsgSize)
    { message := s!"message size {length} exceeds maximum {maxMsgSize}" }
  EStateM.adaptExcept (WrappedErr.wrap "decoding message data") (cbor.decode length)

/-- The surroundings of one stream. `hasRoom` tells whether the channel of received messages has a
free slot when so many messages of the stream were put into it. -/
structure StreamEnv where
  protocolID : String
  remotePeer : String
  setReadDeadline : Except Err Unit := .ok ()
  hasRoom : ℕ → Bool := fun _ ↦ true

def receivedMsg (env : StreamEnv) (count : ℕ) : Except Err Unit :=
  require (env.hasRoom count = true)
    s!"dropping {env.protocolID} message from {env.remotePeer} because of slow consumer"

/-- What the handler does with the stream when it returns. -/
inductive StreamEnd where
  | closed
  | reset
  | unfinished
  deriving DecidableEq

/-- The loop of the handler, for at most so many messages. -/
def receive (cbor : Cbor Msg) (env : StreamEnv) : ℕ → Reader → List Msg → List Msg × StreamEnd
  | 0, _, received => (received, .unfinished)
  | fuel + 1, r, received =>
    match (deserializeMsg cbor).run r with
    | .error err _ => (received, if err.isEOF then .closed else .reset)
    | .ok msg r =>
      match receivedMsg env received.length with
      | .error _ => (received, .reset)
      | .ok () => receive cbor env fuel r (received ++ [msg])

/-- Every message takes at least one byte, so the loop ends before the fuel does. -/
def streamHandlerForProtocol (cbor : Cbor Msg) (env : StreamEnv) (chunks : List (List UInt8))
    (ending : ReadError) : List Msg × StreamEnd :=
  match env.setReadDeadline with
  | .error _ => ([], .reset)
  | .ok () =>
    receive cbor env (chunks.flatten.length + 1) { chunks := chunks, ending := ending } []

/-! ## One message -/

/-- What is assumed of the codec: it never reads past its limit, decodes an encoding from exactly
its bytes, and reports the end of the input exactly on a reader without bytes. -/
structure Cbor.Lawful (cbor : Cbor Msg) : Prop where
  limited : ∀ {limit r msg after}, (cbor.decode limit).run r = .ok msg after →
    ∃ bytes, r.Reads bytes after ∧ bytes.length ≤ limit
  inverts : ∀ {msg data r rest}, cbor.marshal msg = .ok data → r.content = data ++ rest →
    ∃ after, (cbor.decode data.length).run r = .ok msg after ∧ r.Reads data after
  eof_iff : ∀ {limit r}, 0 < limit →
    ((∃ after, (cbor.decode limit).run r = .error .eof after) ↔
      r.content = [] ∧ r.ending = .eof)

/-- The bytes announce a message of `n` bytes. -/
structure LengthBytes (bytes : List UInt8) (n : ℕ) : Prop where
  spells : Spells bytes n
  short : bytes.length ≤ maxVarintLen64
  pos : 1 ≤ n
  le_max : n ≤ maxMsgSize

section Message

variable {cbor : Cbor Msg} {r : Reader}

theorem readUvarint_of_lengthBytes {bytes rest : List UInt8} {n : ℕ} (h : LengthBytes bytes n)
    (hcontent : r.content = bytes ++ rest) :
    ∃ middle, readUvarint.run r = .ok n middle ∧ r.Reads bytes middle := by
  have hfits : 0 + n * 128 ^ 0 < 2 ^ 64 := by
    have hmax := h.le_max
    rw [maxMsgSize] at hmax
    omega
  obtain ⟨middle, hrun, hreads⟩ :=
    readGroups_of_spells h.spells hcontent h.short (Nat.zero_add _) hfits
  refine ⟨middle, ?_, hreads⟩
  rw [readUvarint, hrun, Nat.zero_add, pow_zero, Nat.mul_one]

/-- A message is read from the bytes its length announces. The end of the input is reported in front
of a message or right after its length, and every other error is another one. -/
inductive MsgExit (cbor : Cbor Msg) (r : Reader) : EStateM.Result WrappedErr Reader Msg → Prop
  | read {lengthBytes : List UInt8} {n : ℕ} {msg : Msg} {middle after : Reader}
      (hlength : LengthBytes lengthBytes n) (hreads : r.Reads lengthBytes middle)
      (hdecode : (cbor.decode n).run middle = .ok msg after) : MsgExit cbor r (.ok msg after)
  | ended {err : WrappedErr} {after : Reader} (hempty : r.content = []) :
      MsgExit cbor r (.error err after)
  | cut {lengthBytes : List UInt8} {n : ℕ} {err : WrappedErr} {after : Reader}
      (hlength : LengthBytes lengthBytes n) (hcontent : r.content = lengthBytes) :
      MsgExit cbor r (.error err after)
  | failed {err : WrappedErr} {after : Reader} (hfailed : ¬err.isEOF) :
      MsgExit cbor r (.error err after)

theorem deserializeMsg_spec (hcbor : cbor.Lawful) (r : Reader) :
    MsgExit cbor r ((deserializeMsg cbor).run r) := by
  unfold deserializeMsg
  have hspec := readGroups_spec maxVarintLen64 0 0 r
  refine exec_adaptExcept ?_ ?_
  · intro err after hrun
    rw [← readUvarint, hrun] at hspec
    cases hspec with
    | failed heof =>
      by_cases hend : err = .eof
      · exact .ended (heof hend).2.1
      · refine .failed fun h ↦ hend ?_
        exact Option.some.inj h
  · intro n middle hrun
    rw [← readUvarint, hrun] at hspec
    refine exec_ensure (fun _ ↦ .failed (by rintro ⟨⟩)) fun hne ↦ ?_
    refine exec_ensure (fun _ ↦ .failed (by rintro ⟨⟩)) fun hle ↦ ?_
    have hread : ∃ bytes, r.Reads bytes middle ∧ LengthBytes bytes n := by
      cases hspec with
      | @read bytes m _ hreads hspells hshort =>
        refine ⟨bytes, hreads, ?_, hshort, Nat.pos_of_ne_zero hne, hle⟩
        rwa [Nat.zero_add, pow_zero, Nat.mul_one]
    obtain ⟨bytes, hreads, hbytes⟩ := hread
    rw [EStateM.run_adaptExcept]
    cases hdecode : (cbor.decode n).run middle with
    | ok msg after => exact .read hbytes hreads hdecode
    | error err after =>
      by_cases hend : err = .eof
      · -- the error of the decoder cannot be told from the one in front of a message
        subst hend
        obtain ⟨hempty, -⟩ := (hcbor.eof_iff hbytes.pos).mp ⟨after, hdecode⟩
        refine .cut hbytes ?_
        rw [hreads.1, hempty, List.append_nil]
      · refine .failed fun h ↦ hend ?_
        exact Option.some.inj h

/-- A message that was read took at least one byte. -/
theorem length_lt_of_read (hcbor : cbor.Lawful) {msg : Msg} {after : Reader}
    (hrun : (deserializeMsg cbor).run r = .ok msg after) :
    after.content.length < r.content.length := by
  have hspec := deserializeMsg_spec hcbor r
  rw [hrun] at hspec
  cases hspec with
  | @read lengthBytes n _ middle _ hlength hreads hdecode =>
    obtain ⟨body, hbody, -⟩ := hcbor.limited hdecode
    have hpos : 0 < lengthBytes.length := List.length_pos_of_ne_nil hlength.spells.ne_nil
    rw [hreads.1, hbody.1, List.length_append, List.length_append]
    omega

/-- The handler returns. -/
theorem streamHandler_ends (hcbor : cbor.Lawful) (env : StreamEnv) (chunks : List (List UInt8))
    (ending : ReadError) :
    (streamHandlerForProtocol cbor env chunks ending).2 ≠ .unfinished := by
  have hloop : ∀ fuel (r : Reader) received, r.content.length < fuel →
      (receive cbor env fuel r received).2 ≠ .unfinished := by
    intro fuel
    induction fuel with
    | zero =>
      intro r received hfuel
      exact absurd hfuel (Nat.not_lt_zero _)
    | succ fuel ih =>
      intro r received hfuel
      rw [receive]
      cases hrun : (deserializeMsg cbor).run r with
      | error err after =>
        by_cases heof : err.isEOF <;> simp [heof]
      | ok msg after =>
        cases receivedMsg env received.length with
        | error err => simp
        | ok value =>
          have hlt := length_lt_of_read hcbor hrun
          exact ih after _ (by omega)
  unfold streamHandlerForProtocol
  cases env.setReadDeadline with
  | error err => simp
  | ok value => exact hloop _ _ _ (Nat.lt_succ_self _)

/-! ## Whole messages -/

def Sendable (cbor : Cbor Msg) (msg : Msg) : Prop :=
  ∃ data, cbor.marshal msg = .ok data ∧ 1 ≤ data.length ∧ data.length ≤ maxMsgSize

/-- The length of a message that may be sent fits into the buffer. -/
theorem serializeMsg_of_sendable {msg : Msg} (h : Sendable cbor msg) :
    ∃ lengthBytes data, serializeMsg cbor msg = .ok (lengthBytes ++ data) ∧
      cbor.marshal msg = .ok data ∧ LengthBytes lengthBytes data.length := by
  obtain ⟨data, hmarshal, hpos, hmax⟩ := h
  have hsmall : data.length < 128 ^ (3 + 1) := lt_of_le_of_lt hmax (by decide)
  have hfits : data.length < 128 ^ (7 + 1) := hsmall.trans (by decide)
  obtain ⟨lengthBytes, hput, hspells, hshort⟩ := putUvarint_spells hfits
  refine ⟨lengthBytes, data, ?_, hmarshal, hspells, hshort.trans (by decide), hpos, hmax⟩
  rw [serializeMsg, hmarshal]
  simp only [mapError_ok, bind, Except.bind, hput]

/-- A frame is read as the message it was made from, and nothing more is read. -/
theorem deserializeMsg_frame (hcbor : cbor.Lawful) {msg : Msg} {lengthBytes data rest : List UInt8}
    (hmarshal : cbor.marshal msg = .ok data) (hlength : LengthBytes lengthBytes data.length)
    (hcontent : r.content = lengthBytes ++ data ++ rest) :
    ∃ after, (deserializeMsg cbor).run r = .ok msg after ∧
      after.content = rest ∧ after.ending = r.ending := by
  rw [List.append_assoc] at hcontent
  obtain ⟨middle, huvarint, hreads⟩ := readUvarint_of_lengthBytes hlength hcontent
  have hmiddle : middle.content = data ++ rest :=
    List.append_cancel_left (hreads.1.symm.trans hcontent)
  obtain ⟨after, hdecode, hbody⟩ := hcbor.inverts hmarshal hmiddle
  refine ⟨after, ?_, List.append_cancel_left (hbody.1.symm.trans hmiddle), hbody.2.trans hreads.2⟩
  have hne : data.length ≠ 0 := Nat.ne_of_gt hlength.pos
  simp only [deserializeMsg, EStateM.run_bind, EStateM.run_adaptExcept, huvarint, run_ensure,
    if_pos hne, if_pos hlength.le_max, hdecode]

theorem deserializeMsg_of_empty (cbor : Cbor Msg) (hempty : r.content = [])
    (hend : r.ending = .eof) :
    ∃ err after, (deserializeMsg cbor).run r = .error err after ∧ err.isEOF := by
  obtain ⟨after, hrun⟩ := readUvarint_of_empty hempty
  refine ⟨WrappedErr.wrap "reading data length" r.ending, after, ?_, congrArg some hend⟩
  simp only [deserializeMsg, EStateM.run_bind, EStateM.run_adaptExcept, hrun]

/-- The frames are those of the messages. -/
def FramesOf (cbor : Cbor Msg) (msgs : List Msg) (frames : List (List UInt8)) : Prop :=
  List.Forall₂ (fun msg frame ↦ ∃ lengthBytes data, frame = lengthBytes ++ data ∧
    cbor.marshal msg = .ok data ∧ LengthBytes lengthBytes data.length) msgs frames

theorem exists_frames {msgs : List Msg} (hmsgs : ∀ msg ∈ msgs, Sendable cbor msg) :
    ∃ frames, msgs.mapM (serializeMsg cbor) = .ok frames ∧ FramesOf cbor msgs frames := by
  induction msgs with
  | nil => exact ⟨[], rfl, .nil⟩
  | cons msg msgs ih =>
    rw [List.forall_mem_cons] at hmsgs
    obtain ⟨frames, hmap, hframes⟩ := ih hmsgs.2
    obtain ⟨lengthBytes, data, hser, hmarshal, hlength⟩ := serializeMsg_of_sendable hmsgs.1
    refine ⟨(lengthBytes ++ data) :: frames, ?_, .cons ⟨_, _, rfl, hmarshal, hlength⟩ hframes⟩
    rw [List.mapM_cons, hser, hmap]
    rfl

theorem receive_frames (hcbor : cbor.Lawful) {env : StreamEnv}
    (hroom : ∀ count, env.hasRoom count = true) {msgs : List Msg} {frames : List (List UInt8)}
    (hframes : FramesOf cbor msgs frames) {fuel : ℕ} {received : List Msg}
    (hcontent : r.content = frames.flatten) (hend : r.ending = .eof)
    (hfuel : r.content.length < fuel) :
    receive cbor env fuel r received = (received ++ msgs, .closed) := by
  induction hframes generalizing r fuel received with
  | nil =>
    obtain ⟨fuel, rfl⟩ := Nat.exists_eq_succ_of_ne_zero (Nat.ne_zero_of_lt hfuel)
    obtain ⟨err, after, hrun, heof⟩ := deserializeMsg_of_empty cbor hcontent hend
    rw [receive, hrun, List.append_nil]
    simp only [if_pos heof]
  | @cons msg frame msgs frames hframe hrest ih =>
    obtain ⟨fuel, rfl⟩ := Nat.exists_eq_succ_of_ne_zero (Nat.ne_zero_of_lt hfuel)
    obtain ⟨lengthBytes, data, rfl, hmarshal, hlength⟩ := hframe
    obtain ⟨after, hrun, hafter, hending⟩ := deserializeMsg_frame hcbor hmarshal hlength hcontent
    -- the reader now stands in front of the next frame
    have hlt := length_lt_of_read hcbor hrun
    have hreceived : receivedMsg env received.length = .ok () :=
      require_eq_ok.mpr (hroom _)
    rw [receive, hrun]
    simp only [hreceived]
    rw [ih hafter (hending.trans hend) (by omega), List.append_assoc]
    rfl

end Message

namespace Reference

/-- Byte strings, encoded with their length in front. -/
def bytesCodec : Cbor (List UInt8) where
  typeName := "[]byte"
  marshal msg := if msg.length < 256 then .ok (msg.length.toUInt8 :: msg) else .error "too long"
  decode limit := fun r ↦
    match r.content.take limit with
    | [] => .error r.ending r
    | size :: body =>
      if body.length < size.toNat then .error .unexpectedEOF r
      else .ok (body.take size.toNat)
        { buffered := r.content.drop (size.toNat + 1), chunks := [], ending := r.ending }

theorem run_decode (limit : ℕ) (r : Reader) : (bytesCodec.decode limit).run r =
    match r.content.take limit with
    | [] => .error r.ending r
    | size :: body =>
      if body.length < size.toNat then .error .unexpectedEOF r
      else .ok (body.take size.toNat)
        { buffered := r.content.drop (size.toNat + 1), chunks := [], ending := r.ending } := rfl

theorem marshal_eq_ok {msg data : List UInt8} (h : bytesCodec.marshal msg = .ok data) :
    msg.length < 256 ∧ msg.length.toUInt8 :: msg = data := by
  have hmarshal : (if msg.length < 256 then .ok (msg.length.toUInt8 :: msg)
    else .error "too long" : Except Err (List UInt8)) = .ok data := h
  split at hmarshal
  · rename_i hshort
    exact ⟨hshort, Except.ok.inj hmarshal⟩
  · cases hmarshal

theorem bytesCodec_lawful : bytesCodec.Lawful := by
  constructor
  · intro limit r msg after hrun
    rw [run_decode] at hrun
    split at hrun
    · cases hrun
    · rename_i size body htake
      split at hrun
      · cases hrun
      · rename_i hcomplete
        cases hrun
        refine ⟨r.content.take (size.toNat + 1), ⟨?_, rfl⟩, ?_⟩
        · simp [Reader.content]
        · have hlength := congrArg List.length htake
          rw [List.length_take, List.length_cons] at hlength
          rw [List.length_take]
          omega
  · intro msg data r rest hmarshal hcontent
    obtain ⟨hshort, rfl⟩ := marshal_eq_ok hmarshal
    refine ⟨{ buffered := rest, chunks := [], ending := r.ending }, ?_, ?_, rfl⟩
    · rw [run_decode, hcontent, List.take_left' rfl]
      simp [toNat_toUInt8 hshort]
    · rw [hcontent]
      simp [Reader.content]
  · intro limit r hpos
    rw [run_decode]
    constructor
    · rintro ⟨after, hrun⟩
      split at hrun
      · rename_i hnil
        obtain ⟨hend, -⟩ := EStateM.Result.error.inj hrun
        rcases List.take_eq_nil_iff.mp hnil with hzero | hempty
        · exact absurd hzero (Nat.ne_of_gt hpos)
        · exact ⟨hempty, hend⟩
      · split at hrun <;> cases hrun
    · rintro ⟨hempty, hend⟩
      rw [hempty, List.take_nil, hend]
      exact ⟨r, rfl⟩

def streamEnv : StreamEnv := { protocolID := "/ab/replication-resp/0.0.1", remotePeer := "B" }

end Reference

open Reference

/-- The messages of a stream are delivered, all of them, in order and once, however the stream is
cut into reads. -/
theorem framed_messages_survive {cbor : Cbor Msg} (hcbor : cbor.Lawful) (env : StreamEnv)
    (hdeadline : env.setReadDeadline = .ok ()) (hroom : ∀ count, env.hasRoom count = true)
    {msgs : List Msg} (hmsgs : ∀ msg ∈ msgs, Sendable cbor msg) :
    ∃ frames, msgs.mapM (serializeMsg cbor) = .ok frames ∧
      ∀ chunks : List (List UInt8), chunks.flatten = frames.flatten →
        streamHandlerForProtocol cbor env chunks .eof = (msgs, .closed) := by
  obtain ⟨frames, hmap, hframes⟩ := exists_frames hmsgs
  refine ⟨frames, hmap, fun chunks hchunks ↦ ?_⟩
  rw [streamHandlerForProtocol, hdeadline]
  exact receive_frames hcbor hroom hframes hchunks rfl (Nat.lt_succ_self _)

theorem framed_messages_survive_two :
    streamHandlerForProtocol bytesCodec streamEnv [[3], [2, 7], [8, 1], [0]] .eof =
      ([[7, 8], []], .closed) := by
  have hmsgs : ∀ msg ∈ [[7, 8], []], Sendable bytesCodec msg := by
    simp only [List.forall_mem_cons]
    exact ⟨⟨_, rfl, by decide, by decide⟩, ⟨_, rfl, by decide, by decide⟩, by simp⟩
  obtain ⟨frames, hmap, hdelivers⟩ :=
    framed_messages_survive bytesCodec_lawful streamEnv rfl (fun _ ↦ rfl) hmsgs
  have hframes : [[7, 8], []].mapM (serializeMsg bytesCodec) = .ok [[3, 2, 7, 8], [1, 0]] := rfl
  rw [hframes] at hmap
  cases hmap
  exact hdelivers _ rfl

/-! ## The end of a stream -/

/-- A concatenation of complete frames. -/
inductive Frames : List UInt8 → Prop
  | nil : Frames []
  | cons {lengthBytes body rest : List UInt8} {n : ℕ} (hlength : LengthBytes lengthBytes n)
      (hbody : body.length = n) (hrest : Frames rest) : Frames (lengthBytes ++ (body ++ rest))

/-- Complete frames and the length of another one, with no byte of its message. -/
def CutAfterLength (bytes : List UInt8) : Prop :=
  ∃ whole lengthBytes n, bytes = whole ++ lengthBytes ∧ Frames whole ∧ LengthBytes lengthBytes n

/-- One turn of the loop: from a frame of `n` bytes the decoder has used `body`. -/
structure ReadsMsg (cbor : Cbor Msg) (r : Reader) (n : ℕ) (body : List UInt8) (after : Reader) :
    Prop where
  accepts : ∃ msg, (deserializeMsg cbor).run r = .ok msg after
  frame : ∃ lengthBytes, LengthBytes lengthBytes n ∧
    r.content = lengthBytes ++ (body ++ after.content)

/-- One turn of the loop in which the decoder has used the whole frame. -/
def ReadsFrame (cbor : Cbor Msg) (r after : Reader) : Prop :=
  ∃ body, ReadsMsg cbor r body.length body after

/-- The bytes a frame still lacks, and complete frames behind them. -/
def Resumes (lacking : ℕ) (bytes : List UInt8) : Prop :=
  ∃ missed rest, bytes = missed ++ rest ∧ missed.length = lacking ∧ Frames rest

/-- The first frame is determined by the bytes. -/
theorem Frames.of_lengthBytes {lengthBytes rest : List UInt8} {n : ℕ}
    (h : Frames (lengthBytes ++ rest)) (hlength : LengthBytes lengthBytes n) :
    ∃ body tail, rest = body ++ tail ∧ body.length = n ∧ Frames tail := by
  generalize hbytes : lengthBytes ++ rest = bytes at h
  cases h with
  | nil =>
    obtain ⟨hnil, -⟩ := List.append_eq_nil_iff.mp hbytes
    exact absurd hnil hlength.spells.ne_nil
  | @cons lengthBytes' body tail n' hlength' hbody htail =>
    obtain ⟨-, rfl, hrest⟩ := hlength.spells.unique hlength'.spells hbytes
    exact ⟨body, tail, hrest, hbody, htail⟩

theorem Frames.not_cutAfterLength {bytes : List UInt8} (h : Frames bytes) :
    ¬CutAfterLength bytes := by
  rintro ⟨whole, lengthBytes, n, rfl, hwhole, hlength⟩
  induction hwhole with
  | nil =>
    rw [List.nil_append, ← List.append_nil lengthBytes] at h
    obtain ⟨body, tail, hnil, hbody, -⟩ := h.of_lengthBytes hlength
    obtain ⟨rfl, -⟩ := List.append_eq_nil_iff.mp hnil.symm
    exact absurd hbody (Nat.ne_of_lt hlength.pos)
  | @cons lengthBytes' body' rest n' hlength' hbody' hrest ih =>
    rw [List.append_assoc, List.append_assoc] at h
    obtain ⟨body, tail, heq, hbody, htail⟩ := h.of_lengthBytes hlength'
    obtain ⟨-, rfl⟩ := List.append_inj heq (hbody'.trans hbody.symm)
    exact ih htail

theorem CutAfterLength.cons {lengthBytes body rest : List UInt8} {n : ℕ}
    (hlength : LengthBytes lengthBytes n) (hbody : body.length = n) (h : CutAfterLength rest) :
    CutAfterLength (lengthBytes ++ (body ++ rest)) := by
  obtain ⟨whole, lengthBytes', n', rfl, hwhole, hlength'⟩ := h
  refine ⟨lengthBytes ++ (body ++ whole), lengthBytes', n', ?_, .cons hlength hbody hwhole,
    hlength'⟩
  simp only [List.append_assoc]

section End

variable {cbor : Cbor Msg}

theorem readsMsg_of_run (hcbor : cbor.Lawful) {r after : Reader} {msg : Msg}
    (hrun : (deserializeMsg cbor).run r = .ok msg after) :
    ∃ n body, ReadsMsg cbor r n body after ∧ body.length ≤ n := by
  have hspec := deserializeMsg_spec hcbor r
  rw [hrun] at hspec
  cases hspec with
  | @read lengthBytes n _ middle _ hlength hreads hdecode =>
    obtain ⟨body, hbody, hle⟩ := hcbor.limited hdecode
    refine ⟨n, body, ⟨⟨msg, hrun⟩, lengthBytes, hlength, ?_⟩, hle⟩
    rw [hreads.1, hbody.1]

/-- In complete frames, the bytes that the decoder has not used of a frame follow those it has. -/
theorem ReadsMsg.resumes {r after : Reader} {n : ℕ} {body : List UInt8}
    (h : ReadsMsg cbor r n body after) (hle : body.length ≤ n) (hframes : Frames r.content) :
    Resumes (n - body.length) after.content := by
  obtain ⟨lengthBytes, hlength, hcontent⟩ := h.frame
  rw [hcontent] at hframes
  obtain ⟨whole, rest, hsplit, rfl, hrest⟩ := hframes.of_lengthBytes hlength
  rcases List.append_eq_append_iff.mp hsplit with ⟨missed, rfl, hafter⟩ | ⟨extra, rfl, hrest'⟩
  · exact ⟨missed, rest, hafter, by simp, hrest⟩
  · -- the decoder has not read past the frame
    rw [List.length_append] at hle
    obtain rfl : extra = [] := List.eq_nil_of_length_eq_zero (by omega)
    exact ⟨[], rest, by simpa using hrest'.symm, by simp, hrest⟩

theorem ReadsMsg.frames {r after : Reader} {n : ℕ} {body : List UInt8}
    (h : ReadsMsg cbor r n body after) (hle : body.length ≤ n)
    (hresumes : Resumes (n - body.length) after.content) : Frames r.content := by
  obtain ⟨lengthBytes, hlength, hcontent⟩ := h.frame
  obtain ⟨missed, rest, hafter, hmissed, hrest⟩ := hresumes
  rw [hcontent, hafter, ← List.append_assoc body]
  refine .cons hlength ?_ hrest
  rw [List.length_append]
  omega

theorem resumes_zero {bytes : List UInt8} : Resumes 0 bytes ↔ Frames bytes := by
  constructor
  · rintro ⟨missed, rest, rfl, hmissed, hrest⟩
    rwa [List.eq_nil_of_length_eq_zero hmissed, List.nil_append]
  · intro h
    exact ⟨[], bytes, rfl, rfl, h⟩

theorem ReadsFrame.frames_iff {r after : Reader} (h : ReadsFrame cbor r after) :
    Frames r.content ↔ Frames after.content := by
  obtain ⟨body, hreads⟩ := h
  have hresumes : Resumes (body.length - body.length) after.content ↔ Frames after.content := by
    rw [Nat.sub_self, resumes_zero]
  exact ⟨fun h ↦ hresumes.mp (hreads.resumes le_rfl h),
    fun h ↦ hreads.frames le_rfl (hresumes.mpr h)⟩

theorem Frames.of_reads {r r' : Reader} (hreach : ReflTransGen (ReadsFrame cbor) r r')
    (h : Frames r.content) : Frames r'.content := by
  induction hreach with
  | refl => exact h
  | tail _ hframe ih => exact hframe.frames_iff.mp ih

/-- Where the loop stops with success. -/
theorem frames_of_closed (hcbor : cbor.Lawful) {env : StreamEnv} {fuel : ℕ} {r : Reader}
    {received : List Msg} (hclosed : (receive cbor env fuel r received).2 = .closed)
    (hcut : ¬CutAfterLength r.content)
    (hshort : ∀ r' n body after, ReflTransGen (ReadsFrame cbor) r r' →
      ReadsMsg cbor r' n body after → body.length < n →
      Resumes (n - body.length) after.content) : Frames r.content := by
  induction fuel generalizing r received with
  | zero => cases hclosed
  | succ fuel ih =>
    rw [receive] at hclosed
    have hspec := deserializeMsg_spec hcbor r
    cases hrun : (deserializeMsg cbor).run r with
    | error err after =>
      rw [hrun] at hspec hclosed
      cases hspec with
      | ended hempty => exact hempty ▸ .nil
      | cut hlength hcontent => exact absurd ⟨[], _, _, hcontent, .nil, hlength⟩ hcut
      | failed hfailed =>
        simp only [if_neg hfailed] at hclosed
        cases hclosed
    | ok msg after =>
      rw [hrun] at hclosed
      cases hreceived : receivedMsg env received.length with
      | error err =>
        rw [hreceived] at hclosed
        cases hclosed
      | ok value =>
        rw [hreceived] at hclosed
        obtain ⟨n, body, hreads, hle⟩ := readsMsg_of_run hcbor hrun
        rcases hle.lt_or_eq with hlt | rfl
        · exact hreads.frames hle (hshort r n body after .refl hreads hlt)
        · have hframe : ReadsFrame cbor r after := ⟨body, hreads⟩
          refine hframe.frames_iff.mpr (ih hclosed (fun hafter ↦ hcut ?_) ?_)
          · obtain ⟨lengthBytes, hlength, hcontent⟩ := hreads.frame
            exact hcontent ▸ hafter.cons hlength rfl
          · intro r' n' body' after' hreach
            exact hshort r' n' body' after' (.head hframe hreach)

end End

/-- Success means complete frames exactly when the stream does not end after a length and the first
item that leaves bytes of its frame unread, if there is one, is followed by these bytes and by
complete frames. -/
theorem closed_stream_complete_iff {cbor : Cbor Msg} (hcbor : cbor.Lawful) {env : StreamEnv}
    {chunks : List (List UInt8)} {ending : ReadError}
    (hclosed : (streamHandlerForProtocol cbor env chunks ending).2 = .closed) :
    Frames chunks.flatten ↔ ¬CutAfterLength chunks.flatten ∧
      ∀ r n body after, ReflTransGen (ReadsFrame cbor) { chunks := chunks, ending := ending } r →
        ReadsMsg cbor r n body after → body.length < n →
        Resumes (n - body.length) after.content := by
  constructor
  · intro hframes
    refine ⟨hframes.not_cutAfterLength, fun r n body after hreach hreads hlt ↦ ?_⟩
    exact hreads.resumes hlt.le (hframes.of_reads hreach)
  · rintro ⟨hcut, hshort⟩
    rw [streamHandlerForProtocol] at hclosed
    cases hdeadline : env.setReadDeadline with
    | error err =>
      rw [hdeadline] at hclosed
      cases hclosed
    | ok value =>
      rw [hdeadline] at hclosed
      exact frames_of_closed hcbor hclosed hcut hshort

/-- The first item leaves one byte of its frame, which is taken for the length of the next one; the
stream is complete nevertheless. -/
theorem closed_stream_complete_iff_resumed :
    (streamHandlerForProtocol bytesCodec streamEnv [[2, 0], [2, 1, 0]] .eof).2 = .closed ∧
      ¬CutAfterLength [2, 0, 2, 1, 0] ∧ Resumes 1 [2, 1, 0] := by
  have hfirst : LengthBytes [2] 2 := ⟨.last (by decide), by decide, by decide, by decide⟩
  have hsecond : LengthBytes [1] 1 := ⟨.last (by decide), by decide, by decide, by decide⟩
  have hclosed : (streamHandlerForProtocol bytesCodec streamEnv [[2, 0], [2, 1, 0]] .eof).2 =
      .closed := rfl
  have hframes : Frames ([2] ++ ([0, 2] ++ ([1] ++ ([0] ++ [])))) :=
    .cons hfirst rfl (.cons hsecond rfl .nil)
  have hreads : ReadsMsg bytesCodec { chunks := [[2, 0], [2, 1, 0]] } 2 [0]
      { buffered := [2, 1, 0], chunks := [] } :=
    ⟨⟨[], rfl⟩, [2], hfirst, rfl⟩
  obtain ⟨hcut, hresumes⟩ := (closed_stream_complete_iff bytesCodec_lawful hclosed).mp hframes
  exact ⟨hclosed, hcut, hresumes _ _ _ _ .refl hreads (by decide)⟩

/-- The second message is cut after its length, and a message that does not fill its frame is cut
behind the item: both streams are closed as complete. -/
theorem cut_stream_closed :
    bytesCodec.Lawful ∧
      (streamHandlerForProtocol bytesCodec streamEnv [[3, 2, 7, 8], [5]] .eof =
          ([[7, 8]], .closed) ∧ ¬Frames [3, 2, 7, 8, 5]) ∧
      (streamHandlerForProtocol bytesCodec streamEnv [[9, 2, 7, 8]] .eof =
          ([[7, 8]], .closed) ∧ ¬Frames [9, 2, 7, 8]) := by
  refine ⟨bytesCodec_lawful, ⟨rfl, fun h ↦ ?_⟩, rfl, fun h ↦ ?_⟩
  · have hfirst : LengthBytes [3] 3 := ⟨.last (by decide), by decide, by decide, by decide⟩
    have hsecond : LengthBytes [5] 5 := ⟨.last (by decide), by decide, by decide, by decide⟩
    have hwhole : Frames ([3] ++ ([2, 7, 8] ++ [])) := .cons hfirst rfl .nil
    exact h.not_cutAfterLength ⟨[3, 2, 7, 8], [5], 5, rfl, hwhole, hsecond⟩
  · have hlength : LengthBytes [9] 9 := ⟨.last (by decide), by decide, by decide, by decide⟩
    obtain ⟨body, tail, heq, hbody, -⟩ := Frames.of_lengthBytes h hlength
    have hlength := congrArg List.length heq
    rw [List.length_append, hbody] at hlength
    simp at hlength
    omega

end FinalityGadget
