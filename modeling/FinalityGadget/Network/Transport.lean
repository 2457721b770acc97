import FinalityGadget.Foundation.Run
import FinalityGadget.Network.Framing

/-!
# The network of the peers

Every peer registers the protocols it sends and receives messages on: the type of a message decides
the protocol, and the protocol decides the type a received message is decoded as. A message is
written to a stream of its own for each receiver, except that a message to the sender itself goes
straight to its channel. A stream may be lost, and it may be cut at any byte; its handler decodes
one message after the other and puts them into the channel of the receiver as long as there is room.

Whatever happens, the network changes by the few moves of `NetworkMove`.
-/

namespace FinalityGadget

open Fallible Relation

/-! ## Protocols -/

variable {Kind : Type}

/-- The type of the message value in a description, as reflection sees it. -/
inductive MsgType (Kind : Type) where
  | nil
  | struct (kind : Kind)
  | other (name : String)

structure SendProtocolDescription (Kind : Type) where
  protocolID : String
  msgType : MsgType Kind
  timeout : ℤ

/-- What the constructor in a description returns: nothing, a pointer to a struct, or anything
else. -/
inductive Constructed (Kind : Type) where
  | nil
  | pointer (kind : Kind) (isNil : Bool)
  | other (name : String)

structure ReceiveProtocolDescription (Kind : Type) where
  protocolID : String
  typeFn : Option (Constructed Kind) := none
  /-- Whether the protocol brings its own stream handler. -/
  handler : Bool := false

structure SendProtocolData where
  protocolID : String
  timeout : ℤ

/-- A stream handler of the host: a foreign one, or the one that decodes messages of a type. -/
inductive Handler (Kind : Type) where
  | foreign
  | messages (kind : Kind)

/-- A message with its type. -/
abbrev AnyMsg (Msg : Kind → Type) := Σ kind, Msg kind

/-- What a peer knows of the protocols, and the channel of its received messages. -/
structure LibP2PNetwork (Msg : Kind → Type) where
  sendProtocols : Kind → Option SendProtocolData := fun _ ↦ none
  handlers : String → Option (Handler Kind) := fun _ ↦ none
  capacity : ℕ
  receivedMsgs : List (AnyMsg Msg) := []

/-- The texts of types and durations. -/
structure Formats (Kind : Type) where
  typeName : Kind → String
  duration : ℤ → String

namespace LibP2PNetwork

variable {Msg : Kind → Type} [DecidableEq Kind]

abbrev NetM (Msg : Kind → Type) := EStateM Err (LibP2PNetwork Msg)

def registerSendProtocol (formats : Formats Kind) (protocol : SendProtocolDescription Kind) :
    NetM Msg Unit := do
  ensure (protocol.protocolID ≠ "") "protocol ID must be assigned"
  ensure (0 ≤ protocol.timeout)
    (s!"negative duration is not allowed for timeout, got {formats.duration protocol.timeout} " ++
      s!"for {protocol.protocolID}")
  match protocol.msgType with
  | .nil => throw "message data type must be assigned"
  | .other name => throw s!"message data type must be struct, got {name}"
  | .struct kind => do
    let n ← get
    match n.sendProtocols kind with
    | some registered =>
      throw (s!"data type {formats.typeName kind} has been already registered for protocol " ++
        registered.protocolID)
    | none => modify fun n ↦ { n with
        sendProtocols := Function.update n.sendProtocols kind
          (some { protocolID := protocol.protocolID, timeout := protocol.timeout }) }

/-- The checks of the message constructor. -/
def constructedKind : Option (Constructed Kind) → Except Err Kind
  | none => .error "data struct constructor or handler must be assigned"
  | some .nil => .error "data struct constructor returns nil"
  | some (.other name) =>
    .error s!"data struct constructor must return pointer to struct but returns {name}"
  | some (.pointer kind isNil) =>
    if isNil = true then .error "data struct constructor returns uninitialized pointer"
    else .ok kind

def registerReceiveProtocol (protocol : ReceiveProtocolDescription Kind) : NetM Msg Unit := do
  ensure (protocol.protocolID ≠ "") "protocol ID must be assigned"
  let n ← get
  ensure ((n.handlers protocol.protocolID).isNone)
    s!"protocol {protocol.protocolID.quote} is already registered"
  if protocol.handler = true then
    modify fun n ↦
      { n with handlers := Function.update n.handlers protocol.protocolID (some .foreign) }
  else
    let kind ← ofExcept id (constructedKind protocol.typeFn)
    modify fun n ↦
      { n with handlers := Function.update n.handlers protocol.protocolID (some (.messages kind)) }

/-- Register one protocol after the other, up to the first error. -/
def registerAll {δ : Type} (protocolID : δ → String) (register : δ → NetM Msg Unit) :
    List δ → NetM Msg Unit
  | [] => pure ()
  | protocol :: protocols => do
    EStateM.adaptExcept (fun err ↦ s!"registering protocol {(protocolID protocol).quote}: {err}")
      (register protocol)
    registerAll protocolID register protocols

def registerSendProtocols (formats : Formats Kind)
    (protocols : List (SendProtocolDescription Kind)) : NetM Msg Unit := do
  ensure (protocols ≠ []) "at least one protocol description must be given"
  registerAll (·.protocolID) (registerSendProtocol formats) protocols

def registerReceiveProtocols (protocols : List (ReceiveProtocolDescription Kind)) :
    NetM Msg Unit := do
  ensure (protocols ≠ []) "at least one protocol description must be given"
  registerAll (·.protocolID) registerReceiveProtocol protocols

/-- The channel of a new network is empty; the handlers of its peer are none of its business. -/
def newLibP2PNetwork (self : Option (List String)) (capacity : ℕ) :
    Except Err (LibP2PNetwork Msg) :=
  match self with
  | none => .error "peer is nil"
  | some registered =>
    .ok { capacity := capacity
          handlers := fun protocolID ↦ if protocolID ∈ registered then some .foreign else none }

/-- Put a message into the channel; it is dropped when the channel is full. -/
def receivedMsg (n : LibP2PNetwork Msg) (origin : PeerID) (protocolID : String)
    (msg : AnyMsg Msg) : Except Err (LibP2PNetwork Msg) :=
  if n.receivedMsgs.length < n.capacity then
    .ok { n with receivedMsgs := n.receivedMsgs ++ [msg] }
  else .error s!"dropping {protocolID} message from {origin} because of slow consumer"

end LibP2PNetwork

/-! ## Peers and streams -/

/-- A stream on its way to its receiver: what was written to it, and the messages this is made
of. -/
structure Flight (Msg : Kind → Type) where
  sender : PeerID
  receiver : PeerID
  protocolID : String
  data : List UInt8
  messages : List (AnyMsg Msg)

/-- A stream with its handler, and the messages that were not read from it yet. -/
structure OpenStream (Msg : Kind → Type) where
  sender : PeerID
  receiver : PeerID
  protocolID : String
  kind : Kind
  reader : Reader
  unread : List (AnyMsg Msg)

/-- The stream as its handler gets it: the bytes that arrive, in the pieces they are read in. -/
def Flight.stream {Msg : Kind → Type} (flight : Flight Msg) (kind : Kind)
    (chunks : List (List UInt8)) (ending : ReadError) : OpenStream Msg where
  sender := flight.sender
  receiver := flight.receiver
  protocolID := flight.protocolID
  kind := kind
  reader := { chunks := chunks, ending := ending }
  unread := flight.messages

/-- The stream after a message was read from it. -/
def OpenStream.advance {Msg : Kind → Type} (stream : OpenStream Msg) (after : Reader) :
    OpenStream Msg :=
  { stream with reader := after, unread := stream.unread.tail }

/-- The peers with the streams between them. `sentTo` and `taken` are history: what was sent to a
peer and by whom, and what its main loop has taken out of the channel. -/
structure PeerNetwork (Msg : Kind → Type) where
  hosts : PeerID → LibP2PNetwork Msg
  flights : List (Flight Msg) := []
  streams : List (OpenStream Msg) := []
  sentTo : PeerID → List (PeerID × AnyMsg Msg) := fun _ ↦ []
  taken : PeerID → List (AnyMsg Msg) := fun _ ↦ []

/-- What a stream that is written to answers. -/
structure WriteEnv where
  createStream : Except Err Unit := .ok ()
  write : ℕ → Except Err Unit := fun _ ↦ .ok ()

/-- The messages that were written to a stream with their frames, and the joined errors. -/
structure Written (Msg : Type) where
  msgs : List Msg := []
  frames : List (List UInt8) := []
  err : Option Err := none

/-- `errors.Join` -/
def joinErr (first : Option Err) (second : Err) : Option Err :=
  match first with
  | none => some second
  | some first => some (first ++ "\n" ++ second)

/-- The loop of `SendMsgs` in front of write `i`. A message that cannot be serialized is left out,
and the first write that fails is the last one. -/
def writeMsgs {Msg : Type} (cbor : Cbor Msg) (write : ℕ → Except Err Unit) :
    ℕ → Option Err → List Msg → Written Msg
  | _, resErr, [] => { err := resErr }
  | i, resErr, msg :: msgs =>
    match serializeMsg cbor msg with
    | .error err => writeMsgs cbor write i (joinErr resErr s!"serializing message: {err}") msgs
    | .ok frame =>
      match write i with
      | .error err =>
        { msgs := [msg], frames := [frame], err := joinErr resErr s!"stream write error: {err}" }
      | .ok _ =>
        let rest := writeMsgs cbor write (i + 1) resErr msgs
        { rest with msgs := msg :: rest.msgs, frames := frame :: rest.frames }

namespace PeerNetwork

variable {Msg : Kind → Type} (cbor : ∀ kind, Cbor (Msg kind))

def setHost (net : PeerNetwork Msg) (peer : PeerID) (host : LibP2PNetwork Msg) : PeerNetwork Msg :=
  { net with hosts := Function.update net.hosts peer host }

/-- A peer whose channel has changed. -/
def setQueue (net : PeerNetwork Msg) (peer : PeerID) (queue : List (AnyMsg Msg)) :
    PeerNetwork Msg :=
  net.setHost peer { net.hosts peer with receivedMsgs := queue }

def enqueue (net : PeerNetwork Msg) (peer : PeerID) (msg : AnyMsg Msg) : PeerNetwork Msg :=
  net.setQueue peer ((net.hosts peer).receivedMsgs ++ [msg])

def recordSent (net : PeerNetwork Msg) (sender receiver : PeerID) (msgs : List (AnyMsg Msg)) :
    PeerNetwork Msg :=
  { net with
    sentTo := Function.update net.sentTo receiver
      (net.sentTo receiver ++ msgs.map (Prod.mk sender)) }

def recordTaken (net : PeerNetwork Msg) (peer : PeerID) (msg : AnyMsg Msg) : PeerNetwork Msg :=
  { net with taken := Function.update net.taken peer (net.taken peer ++ [msg]) }

/-- Write messages to a new stream. -/
def launch (net : PeerNetwork Msg) (flight : Flight Msg) : PeerNetwork Msg :=
  { net.recordSent flight.sender flight.receiver flight.messages with
    flights := net.flights ++ [flight] }

/-- The message goes to one of its receivers: to the own channel, or to a stream of its own. -/
def dispatch (self : PeerID) (protocolID : String) (data : List UInt8) (msg : AnyMsg Msg)
    (net : PeerNetwork Msg) (receiver : PeerID) : PeerNetwork Msg :=
  if receiver = self then
    match (net.hosts self).receivedMsg self protocolID msg with
    | .ok host => (net.recordSent self self [msg]).setHost self host
    | .error _ => net.recordSent self self [msg]
  else net.launch
    { sender := self
      receiver := receiver
      protocolID := protocolID
      data := data
      messages := [msg] }

def sendAsync (self : PeerID) (protocol : SendProtocolData) {kind : Kind} (msg : Msg kind)
    (receivers : List PeerID) (net : PeerNetwork Msg) : Except Err (PeerNetwork Msg) := do
  let data ← (serializeMsg (cbor kind) msg).mapError fun err ↦ s!"serializing message: {err}"
  .ok (receivers.foldl (dispatch self protocol.protocolID data ⟨kind, msg⟩) net)

def send (self : PeerID) {kind : Kind} (msg : Msg kind) (receivers : List PeerID)
    (net : PeerNetwork Msg) : Except Err (PeerNetwork Msg) :=
  if receivers = [] then .ok net
  else
    match (net.hosts self).sendProtocols kind with
    | none => .error s!"no protocol registered for messages of type {(cbor kind).typeName}"
    | some protocol =>
      (net.sendAsync cbor self protocol msg receivers).mapError fun err ↦ s!"sending message: {err}"

def sendMsgs (self : PeerID) (env : WriteEnv) {kind : Kind} (msgs : List (Msg kind))
    (receiver : PeerID) (net : PeerNetwork Msg) : PeerNetwork Msg × Option Err :=
  if msgs = [] then (net, none)
  else
    match (net.hosts self).sendProtocols kind with
    | none => (net, some s!"no protocol registered for messages of type {(cbor kind).typeName}")
    | some protocol =>
      match env.createStream with
      | .error err => (net, some s!"opening p2p stream {err}")
      | .ok _ =>
        let written := writeMsgs (cbor kind) env.write 0 none msgs
        let flight : Flight Msg :=
          { sender := self
            receiver := receiver
            protocolID := protocol.protocolID
            data := written.frames.flatten
            messages := written.msgs.map (Sigma.mk kind) }
        (net.launch flight, written.err)

def land (net : PeerNetwork Msg) (i : ℕ) : PeerNetwork Msg :=
  { net with flights := net.flights.eraseIdx i }

def openStream (net : PeerNetwork Msg) (stream : OpenStream Msg) : PeerNetwork Msg :=
  { net with streams := net.streams ++ [stream] }

def closeStream (net : PeerNetwork Msg) (i : ℕ) : PeerNetwork Msg :=
  { net with streams := net.streams.eraseIdx i }

def setStream (net : PeerNetwork Msg) (i : ℕ) (stream : OpenStream Msg) : PeerNetwork Msg :=
  { net with streams := net.streams.set i stream }

/-- A stream arrives, whole or cut, at a peer that handles its protocol or refuses it. -/
def accept (i : ℕ) (setReadDeadline : Except Err Unit) (chunks : List (List UInt8))
    (ending : ReadError) (net : PeerNetwork Msg) : PeerNetwork Msg :=
  match net.flights[i]? with
  | none => net
  | some flight =>
    if chunks.flatten <+: flight.data then
      let landed := net.land i
      match (net.hosts flight.receiver).handlers flight.protocolID, setReadDeadline with
      | some (.messages kind), .ok _ => landed.openStream (flight.stream kind chunks ending)
      | _, _ => landed
    else net

/-- One turn of the loop of a stream handler. -/
def read (i : ℕ) (net : PeerNetwork Msg) : PeerNetwork Msg :=
  match net.streams[i]? with
  | none => net
  | some stream =>
    match (deserializeMsg (cbor stream.kind)).run stream.reader with
    | .error _ _ => net.closeStream i
    | .ok msg after =>
      match (net.hosts stream.receiver).receivedMsg stream.sender stream.protocolID
        ⟨stream.kind, msg⟩ with
      | .error _ => net.closeStream i
      | .ok host => (net.setStream i (stream.advance after)).setHost stream.receiver host

/-- The main loop of a peer takes a message out of its channel. -/
def take (peer : PeerID) (net : PeerNetwork Msg) : PeerNetwork Msg :=
  match (net.hosts peer).receivedMsgs with
  | [] => net
  | msg :: rest =>
    (net.recordTaken peer msg).setQueue peer rest

/-- A new process takes the place of a peer; the streams to the old one are gone. -/
def reboot (peer : PeerID) (host : LibP2PNetwork Msg) (net : PeerNetwork Msg) : PeerNetwork Msg :=
  { net.setHost peer host with streams := net.streams.filter fun stream ↦ stream.receiver ≠ peer }

end PeerNetwork

/-- What happens in the network. -/
inductive NetworkEvent (Msg : Kind → Type) where
  | register (peer : PeerID) (protocols : List (ReceiveProtocolDescription Kind))
  | send (peer : PeerID) (msg : AnyMsg Msg) (receivers : List PeerID)
  | sendMsgs (peer : PeerID) (env : WriteEnv) (kind : Kind) (msgs : List (Msg kind))
      (receiver : PeerID)
  | accept (i : ℕ) (setReadDeadline : Except Err Unit) (chunks : List (List UInt8))
      (ending : ReadError)
  | read (i : ℕ)
  | take (peer : PeerID)

/-- Errors are only reported to the caller or logged. -/
def PeerNetwork.step {Msg : Kind → Type} (cbor : ∀ kind, Cbor (Msg kind)) (net : PeerNetwork Msg) :
    NetworkEvent Msg → PeerNetwork Msg
  | .register peer protocols =>
    net.setHost peer (final ((LibP2PNetwork.registerReceiveProtocols protocols).run
      (net.hosts peer)))
  | .send peer msg receivers => ((net.send cbor peer msg.2 receivers).toOption).getD net
  | .sendMsgs peer env _ msgs receiver => (net.sendMsgs cbor peer env msgs receiver).1
  | .accept i setReadDeadline chunks ending => net.accept i setReadDeadline chunks ending
  | .read i => net.read cbor i
  | .take peer => net.take peer

/-! ## Registering protocols -/

/-- The protocol is one for messages of the type. -/
structure ReceiveProtocolDescription.Describes (protocol : ReceiveProtocolDescription Kind)
    (protocolID : String) (kind : Kind) : Prop where
  protocolID : protocol.protocolID = protocolID
  handler : protocol.handler = false
  typeFn : protocol.typeFn = some (.pointer kind false)

structure SendProtocolDescription.Describes (protocol : SendProtocolDescription Kind)
    (protocolID : String) (kind : Kind) : Prop where
  protocolID : protocol.protocolID = protocolID
  msgType : protocol.msgType = .struct kind

namespace LibP2PNetwork

variable {Msg : Kind → Type}

/-- The peer has the same protocols for sending and at least the same handlers; what is new was
admitted. -/
structure Extends (admits : ReceiveProtocolDescription Kind → Prop) (n n' : LibP2PNetwork Msg) :
    Prop where
  capacity : n'.capacity = n.capacity
  sendProtocols : n'.sendProtocols = n.sendProtocols
  kept : ∀ {protocolID handler}, n.handlers protocolID = some handler →
    n'.handlers protocolID = some handler
  added : ∀ {protocolID kind}, n'.handlers protocolID = some (.messages kind) →
    n.handlers protocolID = some (.messages kind) ∨
      ∃ protocol, admits protocol ∧ protocol.Describes protocolID kind

section Extends

variable {admits : ReceiveProtocolDescription Kind → Prop} {n n' n'' : LibP2PNetwork Msg}

theorem Extends.refl (admits : ReceiveProtocolDescription Kind → Prop) (n : LibP2PNetwork Msg) :
    n.Extends admits n :=
  ⟨rfl, rfl, id, Or.inl⟩

theorem Extends.trans (h : n.Extends admits n') (h' : n'.Extends admits n'') :
    n.Extends admits n'' where
  capacity := h'.capacity.trans h.capacity
  sendProtocols := h'.sendProtocols.trans h.sendProtocols
  kept hhandler := h'.kept (h.kept hhandler)
  added hhandler := (h'.added hhandler).elim h.added Or.inr

/-- A new handler. -/
theorem Extends.handle {protocolID : String} (hnew : n.handlers protocolID = none)
    {handler : Handler Kind}
    (hadmits : ∀ kind, handler = .messages kind →
      ∃ protocol, admits protocol ∧ protocol.Describes protocolID kind) :
    n.Extends admits
      { n with handlers := Function.update n.handlers protocolID (some handler) } where
  capacity := rfl
  sendProtocols := rfl
  kept := by
    intro other handler' hother
    have hne : other ≠ protocolID := by
      rintro rfl
      rw [hnew] at hother
      cases hother
    exact (Function.update_of_ne hne _ _).trans hother
  added := by
    intro other kind (hother : Function.update n.handlers protocolID (some handler) other = _)
    rw [Function.update_apply] at hother
    split at hother
    · rename_i heq
      rw [heq]
      exact Or.inr (hadmits kind (Option.some.inj hother))
    · exact Or.inl hother

end Extends

theorem constructedKind_eq_ok {typeFn : Option (Constructed Kind)} {kind : Kind}
    (h : constructedKind typeFn = .ok kind) : typeFn = some (.pointer kind false) := by
  unfold constructedKind at h
  split at h
  · cases h
  · cases h
  · cases h
  · split at h
    · cases h
    · rename_i hnil
      cases h
      rw [Bool.not_eq_true] at hnil
      rw [hnil]

/-- What every single registration keeps is kept by all of them, also by those up to an error. -/
theorem registerAll_final {δ : Type} {protocolID : δ → String} {register : δ → NetM Msg Unit}
    {P : LibP2PNetwork Msg → Prop} {protocols : List δ}
    (hregister : ∀ protocol ∈ protocols, ∀ n, P n → P (final ((register protocol).run n)))
    {n : LibP2PNetwork Msg} (h : P n) :
    P (final ((registerAll protocolID register protocols).run n)) := by
  induction protocols generalizing n with
  | nil => exact h
  | cons protocol protocols ih =>
    rw [List.forall_mem_cons] at hregister
    have hfirst := hregister.1 n h
    unfold registerAll
    let Done (result : EStateM.Result Err (LibP2PNetwork Msg) Unit) : Prop := P (final result)
    suffices hdone : Done ((EStateM.adaptExcept _ (register protocol) >>= fun _ ↦
      registerAll protocolID register protocols).run n) from hdone
    refine exec_adaptExcept (fun err after hrun ↦ ?_) fun _ after hrun ↦ ?_
    · rw [hrun] at hfirst
      exact hfirst
    · rw [hrun] at hfirst
      exact ih hregister.2 hfirst

/-- A registration touches neither the channel nor what is registered. -/
theorem registerReceiveProtocol_extends {admits : ReceiveProtocolDescription Kind → Prop}
    {protocol : ReceiveProtocolDescription Kind} (hadmits : admits protocol)
    (n : LibP2PNetwork Msg) :
    n.Extends admits (final ((registerReceiveProtocol protocol).run n)) ∧
      (final ((registerReceiveProtocol protocol).run n)).receivedMsgs = n.receivedMsgs := by
  let Done (result : EStateM.Result Err (LibP2PNetwork Msg) Unit) : Prop :=
    n.Extends admits (final result) ∧ (final result).receivedMsgs = n.receivedMsgs
  suffices hdone : Done ((registerReceiveProtocol protocol).run n) from hdone
  have hsame : n.Extends admits n ∧ n.receivedMsgs = n.receivedMsgs := ⟨.refl admits n, rfl⟩
  refine exec_ensure (fun _ ↦ hsame) fun _ ↦ exec_get (exec_ensure (fun _ ↦ hsame) fun hnew ↦ ?_)
  have hnew := Option.isNone_iff_eq_none.mp hnew
  refine exec_ite (fun hhandler ↦ ?_) fun hhandler ↦ ?_
  · exact ⟨.handle hnew (by rintro kind ⟨⟩), rfl⟩
  · refine exec_ofExcept (fun _ _ ↦ hsame) fun kind hkind ↦ ?_
    refine ⟨.handle hnew fun kind' hkind' ↦ ?_, rfl⟩
    cases hkind'
    exact ⟨protocol, hadmits, rfl, Bool.eq_false_of_not_eq_true hhandler,
      constructedKind_eq_ok hkind⟩

theorem registerReceiveProtocols_extends {admits : ReceiveProtocolDescription Kind → Prop}
    {protocols : List (ReceiveProtocolDescription Kind)}
    (hadmits : ∀ protocol ∈ protocols, admits protocol) (n : LibP2PNetwork Msg) :
    n.Extends admits (final ((registerReceiveProtocols protocols).run n)) ∧
      (final ((registerReceiveProtocols protocols).run n)).receivedMsgs = n.receivedMsgs := by
  let Done (result : EStateM.Result Err (LibP2PNetwork Msg) Unit) : Prop :=
    n.Extends admits (final result) ∧ (final result).receivedMsgs = n.receivedMsgs
  suffices hdone : Done ((registerReceiveProtocols protocols).run n) from hdone
  refine exec_ensure (fun _ ↦ ⟨.refl admits n, rfl⟩) fun _ ↦ ?_
  let Kept (n' : LibP2PNetwork Msg) : Prop := n.Extends admits n' ∧ n'.receivedMsgs = n.receivedMsgs
  have hstart : Kept n := ⟨.refl admits n, rfl⟩
  refine registerAll_final (P := Kept) (fun protocol hmem n' h ↦ ?_) hstart
  have hone := registerReceiveProtocol_extends (hadmits protocol hmem) n'
  exact ⟨h.1.trans hone.1, hone.2.trans h.2⟩

/-- The peer has got protocols for sending, all of them from descriptions. -/
structure Offers (protocols : List (SendProtocolDescription Kind)) (n n' : LibP2PNetwork Msg) :
    Prop where
  capacity : n'.capacity = n.capacity
  handlers : n'.handlers = n.handlers
  receivedMsgs : n'.receivedMsgs = n.receivedMsgs
  described : ∀ {kind data}, n'.sendProtocols kind = some data →
    n.sendProtocols kind = some data ∨
      ∃ protocol ∈ protocols, protocol.Describes data.protocolID kind

theorem Offers.refl (protocols : List (SendProtocolDescription Kind)) (n : LibP2PNetwork Msg) :
    n.Offers protocols n :=
  ⟨rfl, rfl, rfl, Or.inl⟩

theorem Offers.trans {protocols : List (SendProtocolDescription Kind)}
    {n n' n'' : LibP2PNetwork Msg} (h : n.Offers protocols n') (h' : n'.Offers protocols n'') :
    n.Offers protocols n'' where
  capacity := h'.capacity.trans h.capacity
  handlers := h'.handlers.trans h.handlers
  receivedMsgs := h'.receivedMsgs.trans h.receivedMsgs
  described hdata := (h'.described hdata).elim h.described Or.inr

variable [DecidableEq Kind]

theorem registerSendProtocol_offers {formats : Formats Kind}
    {protocols : List (SendProtocolDescription Kind)} {protocol : SendProtocolDescription Kind}
    (hmem : protocol ∈ protocols) (n : LibP2PNetwork Msg) :
    n.Offers protocols (final ((registerSendProtocol formats protocol).run n)) := by
  let Done (result : EStateM.Result Err (LibP2PNetwork Msg) Unit) : Prop :=
    n.Offers protocols (final result)
  suffices hdone : Done ((registerSendProtocol formats protocol).run n) from hdone
  have hsame : n.Offers protocols n := .refl protocols n
  refine exec_ensure (fun _ ↦ hsame) fun _ ↦ exec_ensure (fun _ ↦ hsame) fun _ ↦ ?_
  cases htype : protocol.msgType with
  | nil => exact hsame
  | other name => exact hsame
  | struct kind =>
    refine exec_get ?_
    cases n.sendProtocols kind with
    | some registered => exact hsame
    | none =>
      refine ⟨rfl, rfl, rfl, ?_⟩
      intro kind' data (hdata : Function.update n.sendProtocols kind (some _) kind' = _)
      rw [Function.update_apply] at hdata
      split at hdata
      · rename_i heq
        cases hdata
        rw [heq]
        exact Or.inr ⟨protocol, hmem, rfl, htype⟩
      · exact Or.inl hdata

theorem registerSendProtocols_offers (formats : Formats Kind)
    (protocols : List (SendProtocolDescription Kind)) (n : LibP2PNetwork Msg) :
    n.Offers protocols (final ((registerSendProtocols formats protocols).run n)) := by
  let Done (result : EStateM.Result Err (LibP2PNetwork Msg) Unit) : Prop :=
    n.Offers protocols (final result)
  suffices hdone : Done ((registerSendProtocols formats protocols).run n) from hdone
  have hsame : n.Offers protocols n := .refl protocols n
  refine exec_ensure (fun _ ↦ hsame) fun _ ↦ ?_
  exact registerAll_final (P := n.Offers protocols)
    (fun _ hmem n' h ↦ h.trans (registerSendProtocol_offers hmem n')) hsame

end LibP2PNetwork

/-! ## What can happen -/

section Moves

variable {Msg : Kind → Type} (cbor : ∀ kind, Cbor (Msg kind))
  (admits : ReceiveProtocolDescription Kind → Prop)

/-- The bytes are the frames of the messages, which are of one type. -/
def Framed (kind : Kind) (messages : List (AnyMsg Msg)) (data : List UInt8) : Prop :=
  ∃ msgs frames, messages = msgs.map (Sigma.mk kind) ∧
    List.Forall₂ (fun msg frame ↦ serializeMsg (cbor kind) msg = .ok frame) msgs frames ∧
    data = frames.flatten

/-- The moves of the network. -/
inductive NetworkMove (net : PeerNetwork Msg) : PeerNetwork Msg → Prop
  | register {peer : PeerID} {host : LibP2PNetwork Msg}
      (hextends : (net.hosts peer).Extends admits host)
      (hqueue : host.receivedMsgs = (net.hosts peer).receivedMsgs) :
      NetworkMove net (net.setHost peer host)
  | launch {flight : Flight Msg} {kind : Kind} {protocol : SendProtocolData}
      (hsends : (net.hosts flight.sender).sendProtocols kind = some protocol)
      (hprotocol : flight.protocolID = protocol.protocolID)
      (hframed : Framed cbor kind flight.messages flight.data) : NetworkMove net (net.launch flight)
  | loopBack {peer : PeerID} {msg : AnyMsg Msg} {protocol : SendProtocolData}
      (hsends : (net.hosts peer).sendProtocols msg.1 = some protocol)
      (hroom : (net.hosts peer).receivedMsgs.length < (net.hosts peer).capacity) :
      NetworkMove net ((net.recordSent peer peer [msg]).enqueue peer msg)
  | loseOwn {peer : PeerID} {msg : AnyMsg Msg} {protocol : SendProtocolData}
      (hsends : (net.hosts peer).sendProtocols msg.1 = some protocol) :
      NetworkMove net (net.recordSent peer peer [msg])
  | accept {i : ℕ} {flight : Flight Msg} {kind : Kind} {chunks : List (List UInt8)}
      {ending : ReadError} (hflight : net.flights[i]? = some flight)
      (hhandler : (net.hosts flight.receiver).handlers flight.protocolID = some (.messages kind))
      (hcut : chunks.flatten <+: flight.data) :
      NetworkMove net ((net.land i).openStream (flight.stream kind chunks ending))
  | refuse {i : ℕ} {flight : Flight Msg} (hflight : net.flights[i]? = some flight) :
      NetworkMove net (net.land i)
  | read {i : ℕ} {stream : OpenStream Msg} {msg : Msg stream.kind} {after : Reader}
      (hstream : net.streams[i]? = some stream)
      (hrun : (deserializeMsg (cbor stream.kind)).run stream.reader = .ok msg after)
      (hroom : (net.hosts stream.receiver).receivedMsgs.length <
        (net.hosts stream.receiver).capacity) :
      NetworkMove net ((net.setStream i (stream.advance after)).enqueue stream.receiver
        ⟨stream.kind, msg⟩)
  | close {i : ℕ} {stream : OpenStream Msg} (hstream : net.streams[i]? = some stream) :
      NetworkMove net (net.closeStream i)
  | take {peer : PeerID} {msg : AnyMsg Msg} {rest : List (AnyMsg Msg)}
      (hqueue : (net.hosts peer).receivedMsgs = msg :: rest) :
      NetworkMove net ((net.recordTaken peer msg).setQueue peer rest)

end Moves

namespace PeerNetwork

variable {Msg : Kind → Type} {cbor : ∀ kind, Cbor (Msg kind)}
  {admits : ReceiveProtocolDescription Kind → Prop} {net : PeerNetwork Msg}

theorem receivedMsg_eq_ok {n host : LibP2PNetwork Msg} {origin : PeerID} {protocolID : String}
    {msg : AnyMsg Msg} (h : n.receivedMsg origin protocolID msg = .ok host) :
    host = { n with receivedMsgs := n.receivedMsgs ++ [msg] } ∧
      n.receivedMsgs.length < n.capacity := by
  unfold LibP2PNetwork.receivedMsg at h
  split at h
  · cases h
    exact ⟨rfl, ‹_›⟩
  · cases h

theorem dispatch_move {self receiver : PeerID} {kind : Kind} {msg : Msg kind} {data : List UInt8}
    {protocol : SendProtocolData} (hsends : (net.hosts self).sendProtocols kind = some protocol)
    (hserialize : serializeMsg (cbor kind) msg = .ok data) :
    NetworkMove cbor admits net
      (dispatch self protocol.protocolID data ⟨kind, msg⟩ net receiver) := by
  unfold dispatch
  split
  · split
    · rename_i host hroom
      obtain ⟨rfl, hlt⟩ := receivedMsg_eq_ok hroom
      exact .loopBack hsends hlt
    · exact .loseOwn hsends
  · exact .launch hsends rfl ⟨[msg], [data], rfl, .cons hserialize .nil, by simp⟩

/-- Sending changes nothing in the tables. -/
theorem sendProtocols_dispatch (self receiver : PeerID) (protocolID : String) (data : List UInt8)
    (msg : AnyMsg Msg) (peer : PeerID) :
    ((dispatch self protocolID data msg net receiver).hosts peer).sendProtocols =
      (net.hosts peer).sendProtocols := by
  unfold dispatch
  split
  · split
    · rename_i host hroom
      obtain ⟨rfl, -⟩ := receivedMsg_eq_ok hroom
      by_cases h : peer = self
      · subst h
        simp only [setHost, Function.update_self]
      · simp only [setHost, Function.update_of_ne h]
        rfl
    · rfl
  · rfl

/-- One move for every receiver. -/
theorem sendAsync_moves {self : PeerID} {protocol : SendProtocolData} {kind : Kind} {msg : Msg kind}
    {receivers : List PeerID} {net' : PeerNetwork Msg}
    (hsends : (net.hosts self).sendProtocols kind = some protocol)
    (hsend : net.sendAsync cbor self protocol msg receivers = .ok net') :
    ReflTransGen (NetworkMove cbor admits) net net' := by
  obtain ⟨data, hserialize, hfold⟩ := bind_eq_ok.mp hsend
  have hserialize := mapError_eq_ok.mp hserialize
  cases hfold
  clear hsend
  induction receivers generalizing net with
  | nil => exact .refl
  | cons receiver receivers ih =>
    rw [List.foldl_cons]
    refine .head (dispatch_move hsends hserialize) (ih ?_)
    rw [sendProtocols_dispatch]
    exact hsends

theorem send_moves {self : PeerID} {kind : Kind} {msg : Msg kind} {receivers : List PeerID}
    {net' : PeerNetwork Msg} (hsend : net.send cbor self msg receivers = .ok net') :
    ReflTransGen (NetworkMove cbor admits) net net' := by
  unfold send at hsend
  split at hsend
  · cases hsend
    exact .refl
  · split at hsend
    · cases hsend
    · rename_i protocol hprotocol
      exact sendAsync_moves hprotocol (mapError_eq_ok.mp hsend)

theorem writeMsgs_framed {Msg : Type} (cbor : Cbor Msg) (write : ℕ → Except Err Unit)
    (msgs : List Msg) (i : ℕ) (resErr : Option Err) :
    List.Forall₂ (fun msg frame ↦ serializeMsg cbor msg = .ok frame)
      (writeMsgs cbor write i resErr msgs).msgs (writeMsgs cbor write i resErr msgs).frames := by
  induction msgs generalizing i resErr with
  | nil => exact .nil
  | cons msg msgs ih =>
    rw [writeMsgs]
    cases hserialize : serializeMsg cbor msg with
    | error err => exact ih i _
    | ok frame =>
      cases write i with
      | error err => exact .cons hserialize .nil
      | ok _ => exact .cons hserialize (ih (i + 1) resErr)

theorem sendMsgs_moves (self : PeerID) (env : WriteEnv) {kind : Kind} (msgs : List (Msg kind))
    (receiver : PeerID) :
    ReflTransGen (NetworkMove cbor admits) net (net.sendMsgs cbor self env msgs receiver).1 := by
  unfold sendMsgs
  split
  · exact .refl
  · split
    · exact .refl
    · rename_i protocol hprotocol
      split
      · exact .refl
      · exact .single (.launch hprotocol rfl
          ⟨_, _, rfl, writeMsgs_framed (cbor kind) env.write msgs 0 none, rfl⟩)

theorem accept_moves (i : ℕ) (setReadDeadline : Except Err Unit) (chunks : List (List UInt8))
    (ending : ReadError) :
    ReflTransGen (NetworkMove cbor admits) net (net.accept i setReadDeadline chunks ending) := by
  unfold accept
  split
  · exact .refl
  · rename_i flight hflight
    split
    · rename_i hcut
      split
      · rename_i kind _ hhandler
        exact .single (.accept hflight hhandler hcut)
      · exact .single (.refuse hflight)
    · exact .refl

theorem read_moves (i : ℕ) : ReflTransGen (NetworkMove cbor admits) net (net.read cbor i) := by
  unfold read
  split
  · exact .refl
  · rename_i stream hstream
    split
    · exact .single (.close hstream)
    · rename_i msg after hrun
      split
      · exact .single (.close hstream)
      · rename_i host hroom
        obtain ⟨rfl, hlt⟩ := receivedMsg_eq_ok hroom
        exact .single (.read hstream hrun hlt)

theorem take_moves (peer : PeerID) :
    ReflTransGen (NetworkMove cbor admits) net (net.take peer) := by
  unfold take
  split
  · exact .refl
  · rename_i msg rest hqueue
    exact .single (.take hqueue)

/-- Only admitted protocols are registered. -/
def Admissible (admits : ReceiveProtocolDescription Kind → Prop) : NetworkEvent Msg → Prop
  | .register _ protocols => ∀ protocol ∈ protocols, admits protocol
  | _ => True

theorem step_moves {event : NetworkEvent Msg} (hevent : Admissible admits event) :
    ReflTransGen (NetworkMove cbor admits) net (net.step cbor event) := by
  cases event with
  | register peer protocols =>
    obtain ⟨hextends, hqueue⟩ :=
      LibP2PNetwork.registerReceiveProtocols_extends hevent (net.hosts peer)
    exact .single (.register hextends hqueue)
  | send peer msg receivers =>
    rw [step]
    cases hsend : net.send cbor peer msg.2 receivers with
    | ok net' => exact send_moves hsend
    | error err => exact .refl
  | sendMsgs peer env kind msgs receiver => exact sendMsgs_moves peer env msgs receiver
  | accept i setReadDeadline chunks ending => exact accept_moves i setReadDeadline chunks ending
  | read i => exact read_moves i
  | take peer => exact take_moves peer

/-- What every move keeps is kept by every run. -/
theorem invariant_of_moves {invariant : PeerNetwork Msg → Prop}
    (hmove : ∀ net net', invariant net → NetworkMove cbor admits net net' → invariant net')
    {events : List (NetworkEvent Msg)} (hevents : ∀ event ∈ events, Admissible admits event)
    (hinit : invariant net) : invariant (Run.run (step cbor) net events) := by
  refine Run.invariant_run ?_ hinit
    (Run.guarded_of_mem (fun event hmem _ ↦ hevents event hmem) net)
  intro net event h hevent
  have hmoves : ReflTransGen (NetworkMove cbor admits) net (net.step cbor event) :=
    step_moves hevent
  generalize net.step cbor event = net' at hmoves
  induction hmoves with
  | refl => exact h
  | tail _ hlast ih => exact hmove _ _ ih hlast

end PeerNetwork

end FinalityGadget
