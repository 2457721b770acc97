import FinalityGadget.Network.Delivery
import FinalityGadget.Network.Messages

/-!
# The network of the validators

Each type of messages has a protocol of its own. A validator sends requests, proposals and
handshakes and answers replication requests; it never sends a certification response. When its
network is made it handles replication messages only, and the handlers of block proposals and
certification responses follow when the node runs. The root nodes are peers of the same network that
use the same protocols.
-/

namespace FinalityGadget

open Fallible Varint

inductive MessageKind where
  | ledgerReplicationRequest
  | ledgerReplicationResponse
  | blockProposal
  | blockCertificationRequest
  | handshake
  | certificationResponse
  deriving DecidableEq

def ValidatorMsg (C : Type) : MessageKind → Type
  | .ledgerReplicationRequest => LedgerReplicationRequest
  | .ledgerReplicationResponse => LedgerReplicationResponse C
  | .blockProposal => BlockProposal
  | .blockCertificationRequest => BlockCertificationRequest
  | .handshake => Handshake
  | .certificationResponse => CertificationResponse

def protocolBlockProposal : String := "/ab/block-proposal/0.0.1"

def protocolLedgerReplicationReq : String := "/ab/replication-req/0.0.1"

def protocolLedgerReplicationResp : String := "/ab/replication-resp/0.0.1"

def protocolHandshake : String := "/ab/handshake/0.0.1"

def protocolBlockCertification : String := "/ab/block-certification/0.0.1"

def protocolUnicityCertificates : String := "/ab/certificates/0.0.1"

def MessageKind.protocolID : MessageKind → String
  | .ledgerReplicationRequest => protocolLedgerReplicationReq
  | .ledgerReplicationResponse => protocolLedgerReplicationResp
  | .blockProposal => protocolBlockProposal
  | .blockCertificationRequest => protocolBlockCertification
  | .handshake => protocolHandshake
  | .certificationResponse => protocolUnicityCertificates

theorem MessageKind.protocolID_injective : Function.Injective MessageKind.protocolID := by
  intro kind kind' h
  revert h
  cases kind <;> cases kind' <;> decide

def millisecond : ℤ := 1000000

structure ValidatorNetworkOptions where
  receivedChannelCapacity : ℕ := 1000
  blockCertificationTimeout : ℤ := 300 * millisecond
  blockProposalTimeout : ℤ := 300 * millisecond
  ledgerReplicationRequestTimeout : ℤ := 300 * millisecond
  ledgerReplicationResponseTimeout : ℤ := 300 * millisecond
  handshakeTimeout : ℤ := 300 * millisecond

def sendProtocolDescriptions (opts : ValidatorNetworkOptions) :
    List (SendProtocolDescription MessageKind) :=
  [{ protocolID := protocolLedgerReplicationReq
     timeout := opts.ledgerReplicationRequestTimeout
     msgType := .struct .ledgerReplicationRequest },
   { protocolID := protocolLedgerReplicationResp
     timeout := opts.ledgerReplicationResponseTimeout
     msgType := .struct .ledgerReplicationResponse },
   { protocolID := protocolBlockProposal
     timeout := opts.blockProposalTimeout
     msgType := .struct .blockProposal },
   { protocolID := protocolBlockCertification
     timeout := opts.blockCertificationTimeout
     msgType := .struct .blockCertificationRequest },
   { protocolID := protocolHandshake
     timeout := opts.handshakeTimeout
     msgType := .struct .handshake }]

def receiveProtocolDescriptions : List (ReceiveProtocolDescription MessageKind) :=
  [{ protocolID := protocolLedgerReplicationReq
     typeFn := some (.pointer .ledgerReplicationRequest false) },
   { protocolID := protocolLedgerReplicationResp
     typeFn := some (.pointer .ledgerReplicationResponse false) }]

/-- The protocols of `RegisterValidatorProtocols`. -/
def validatorProtocols : List (ReceiveProtocolDescription MessageKind) :=
  [{ protocolID := protocolBlockProposal
     typeFn := some (.pointer .blockProposal false) },
   { protocolID := protocolUnicityCertificates
     typeFn := some (.pointer .certificationResponse false) }]

variable {C : Type}

def newLibP2PValidatorNetwork (formats : Formats MessageKind) (self : Option (List String))
    (opts : ValidatorNetworkOptions) : Except Err (LibP2PNetwork (ValidatorMsg C)) := do
  let base ← LibP2PNetwork.newLibP2PNetwork self opts.receivedChannelCapacity
  match (LibP2PNetwork.registerSendProtocols formats (sendProtocolDescriptions opts)).run base with
  | .error err _ => .error s!"registering send protocols: {err}"
  | .ok _ n =>
    match (LibP2PNetwork.registerReceiveProtocols receiveProtocolDescriptions).run n with
    | .error err _ => .error s!"registering receive protocols: {err}"
    | .ok _ n => .ok n

/-- What a validator knows of the protocols: the ones that it was given. -/
structure NewValidator (opts : ValidatorNetworkOptions) (n : LibP2PNetwork (ValidatorMsg C)) :
    Prop where
  capacity : n.capacity = opts.receivedChannelCapacity
  receivedMsgs : n.receivedMsgs = []
  sends : ∀ {kind data}, n.sendProtocols kind = some data →
    ∃ protocol ∈ sendProtocolDescriptions opts, protocol.Describes data.protocolID kind
  handles : ∀ {protocolID kind}, n.handlers protocolID = some (.messages kind) →
    ∃ protocol ∈ receiveProtocolDescriptions, protocol.Describes protocolID kind

theorem newLibP2PValidatorNetwork_spec {formats : Formats MessageKind} {self : Option (List String)}
    {opts : ValidatorNetworkOptions} {n : LibP2PNetwork (ValidatorMsg C)}
    (h : newLibP2PValidatorNetwork formats self opts = .ok n) : NewValidator opts n := by
  obtain ⟨base, hbase, h⟩ := bind_eq_ok.mp h
  have hoffers := LibP2PNetwork.registerSendProtocols_offers formats (sendProtocolDescriptions opts)
    base
  split at h
  · cases h
  · rename_i sending hsend
    rw [hsend, final_ok] at hoffers
    have hadmits : ∀ protocol ∈ receiveProtocolDescriptions,
        protocol ∈ receiveProtocolDescriptions := fun _ hmem ↦ hmem
    have hextends := LibP2PNetwork.registerReceiveProtocols_extends hadmits sending
    split at h
    · cases h
    · rename_i receiving hreceive
      cases h
      rw [hreceive, final_ok] at hextends
      obtain ⟨hextends, hqueue⟩ := hextends
      -- nothing was registered before
      cases self with
      | none => cases hbase
      | some registered =>
        cases hbase
        constructor
        case capacity => exact hextends.capacity.trans hoffers.capacity
        case receivedMsgs => exact hqueue.trans hoffers.receivedMsgs
        case sends =>
          intro kind data hdata
          rw [hextends.sendProtocols] at hdata
          exact (hoffers.described hdata).resolve_left (by rintro ⟨⟩)
        case handles =>
          intro protocolID kind hhandler
          refine (hextends.added hhandler).resolve_left fun hold ↦ ?_
          rw [hoffers.handlers] at hold
          dsimp only at hold
          split at hold <;> cases hold

/-- A validator sends every type on its protocol, and has none for certification responses. -/
theorem sendProtocolDescriptions_fit {opts : ValidatorNetworkOptions}
    {protocol : SendProtocolDescription MessageKind} {protocolID : String} {kind : MessageKind}
    (hmem : protocol ∈ sendProtocolDescriptions opts) (h : protocol.Describes protocolID kind) :
    protocolID = kind.protocolID ∧ kind ≠ .certificationResponse := by
  obtain ⟨rfl, htype⟩ := h
  revert kind
  revert protocol
  simp only [sendProtocolDescriptions, List.forall_mem_cons]
  refine ⟨?_, ?_, ?_, ?_, ?_, fun _ hmem ↦ absurd hmem List.not_mem_nil⟩ <;>
  · rintro kind ⟨⟩
    exact ⟨rfl, by decide⟩

/-- The types that validators handle. -/
def MessageKind.Handled (kind : MessageKind) : Prop :=
  kind ≠ .blockCertificationRequest ∧ kind ≠ .handshake

theorem receiveProtocols_fit {protocol : ReceiveProtocolDescription MessageKind}
    {protocolID : String} {kind : MessageKind}
    (hmem : protocol ∈ receiveProtocolDescriptions ++ validatorProtocols)
    (h : protocol.Describes protocolID kind) : protocolID = kind.protocolID ∧ kind.Handled := by
  obtain ⟨rfl, -, htype⟩ := h
  revert kind
  revert protocol
  simp only [receiveProtocolDescriptions, validatorProtocols, List.cons_append, List.nil_append,
    List.forall_mem_cons]
  refine ⟨?_, ?_, ?_, ?_, fun _ hmem ↦ absurd hmem List.not_mem_nil⟩ <;>
  · rintro kind ⟨⟩
    exact ⟨rfl, by decide, by decide⟩

theorem NewValidator.uses {opts : ValidatorNetworkOptions} {n : LibP2PNetwork (ValidatorMsg C)}
    (h : NewValidator opts n) : n.Uses MessageKind.protocolID := by
  constructor
  · intro kind data hdata
    obtain ⟨protocol, hmem, hdescribes⟩ := h.sends hdata
    exact (sendProtocolDescriptions_fit hmem hdescribes).1
  · intro protocolID kind hhandler
    obtain ⟨protocol, hmem, hdescribes⟩ := h.handles hhandler
    exact (receiveProtocols_fit (List.mem_append_left _ hmem) hdescribes).1

/-- A peer as it starts: a validator, or a root node that uses the same protocols. -/
inductive NewPeer (formats : Formats MessageKind) (n : LibP2PNetwork (ValidatorMsg C)) : Prop
  | validator {self : Option (List String)} {opts : ValidatorNetworkOptions}
      (h : newLibP2PValidatorNetwork formats self opts = .ok n)
  | root (huses : n.Uses MessageKind.protocolID) (hempty : n.receivedMsgs = [])

/-- Only the validator protocols are registered later. -/
def ValidatorEvent : NetworkEvent (ValidatorMsg C) → Prop :=
  PeerNetwork.Admissible (· ∈ validatorProtocols)

theorem validatorProtocols_fit :
    PeerNetwork.Fits MessageKind.protocolID (· ∈ validatorProtocols) :=
  fun hmem hdescribes ↦ (receiveProtocols_fit (List.mem_append_right _ hmem) hdescribes).1

section Runs

variable {cbor : ∀ kind, Cbor (ValidatorMsg C kind)} {formats : Formats MessageKind}
  {hosts : PeerID → LibP2PNetwork (ValidatorMsg C)} {events : List (NetworkEvent (ValidatorMsg C))}

theorem NewPeer.receivedMsgs {n : LibP2PNetwork (ValidatorMsg C)} (h : NewPeer formats n) :
    n.receivedMsgs = [] := by
  cases h with
  | validator hnew => exact (newLibP2PValidatorNetwork_spec hnew).receivedMsgs
  | root _ hempty => exact hempty

theorem NewPeer.uses {n : LibP2PNetwork (ValidatorMsg C)} (h : NewPeer formats n) :
    n.Uses MessageKind.protocolID := by
  cases h with
  | validator hnew => exact (newLibP2PValidatorNetwork_spec hnew).uses
  | root huses _ => exact huses

theorem received_start (hhosts : ∀ peer, NewPeer formats (hosts peer)) (peer : PeerID) :
    ({ hosts := hosts } : PeerNetwork (ValidatorMsg C)).received peer = [] :=
  (hhosts peer).receivedMsgs

theorem faithful_start (hhosts : ∀ peer, NewPeer formats (hosts peer)) :
    PeerNetwork.Faithful cbor MessageKind.protocolID { hosts := hosts } := by
  refine ⟨fun peer ↦ (hhosts peer).uses, by simp, by simp, fun peer ↦ ?_⟩
  rw [received_start hhosts]
  exact le_rfl

theorem faithful_run (hcbor : ∀ kind, (cbor kind).Lawful) (hwhole : ∀ kind, (cbor kind).PrefixFree)
    {net : PeerNetwork (ValidatorMsg C)}
    (h : PeerNetwork.Faithful cbor MessageKind.protocolID net)
    (hevents : ∀ event ∈ events, ValidatorEvent event) :
    PeerNetwork.Faithful cbor MessageKind.protocolID
      (Run.run (PeerNetwork.step cbor) net events) :=
  PeerNetwork.invariant_of_moves (fun _ _ h hmove ↦ h.move
    MessageKind.protocolID_injective hcbor hwhole validatorProtocols_fit hmove) hevents h

theorem extends_run (hevents : ∀ event ∈ events, ValidatorEvent event) (peer : PeerID) :
    (hosts peer).Extends (· ∈ validatorProtocols)
      ((Run.run (PeerNetwork.step cbor) { hosts := hosts } events).hosts peer) := by
  have hmove : ∀ net net', (hosts peer).Extends (· ∈ validatorProtocols) (net.hosts peer) →
      NetworkMove cbor (· ∈ validatorProtocols) net net' →
      (hosts peer).Extends (· ∈ validatorProtocols) (net'.hosts peer) :=
    fun _ _ h hmove ↦ h.trans (PeerNetwork.extends_of_move hmove peer)
  exact PeerNetwork.invariant_of_moves hmove hevents (.refl _ _)

theorem attributed_run (hhosts : ∀ peer, NewPeer formats (hosts peer))
    (hevents : ∀ event ∈ events, ValidatorEvent event) :
    (Run.run (PeerNetwork.step cbor) { hosts := hosts } events).Attributed := by
  refine PeerNetwork.invariant_of_moves (fun _ _ h hmove ↦ h.move hmove) hevents ?_
  refine ⟨by simp, by simp, fun peer msg hmem ↦ ?_⟩
  rw [received_start hhosts] at hmem
  exact absurd hmem List.not_mem_nil

/-- A validator has handlers for four types of messages. -/
theorem handled_of_handler {self : Option (List String)} {opts : ValidatorNetworkOptions}
    {peer : PeerID} (hvalidator : newLibP2PValidatorNetwork formats self opts = .ok (hosts peer))
    (hevents : ∀ event ∈ events, ValidatorEvent event) {protocolID : String} {kind : MessageKind}
    (hhandler : ((Run.run (PeerNetwork.step cbor) { hosts := hosts } events).hosts peer).handlers
      protocolID = some (.messages kind)) : kind.Handled := by
  rcases (extends_run hevents peer).added hhandler with hold | ⟨protocol, hmem, hdescribes⟩
  · obtain ⟨protocol, hmem, hdescribes⟩ := (newLibP2PValidatorNetwork_spec hvalidator).handles hold
    exact (receiveProtocols_fit (List.mem_append_left _ hmem) hdescribes).2
  · exact (receiveProtocols_fit (List.mem_append_right _ hmem) hdescribes).2

theorem bounded_run (hhosts : ∀ peer, NewPeer formats (hosts peer))
    (hevents : ∀ event ∈ events, ValidatorEvent event) :
    (Run.run (PeerNetwork.step cbor) { hosts := hosts } events).Bounded := by
  refine PeerNetwork.invariant_of_moves (fun _ _ h hmove ↦ h.move hmove) hevents fun peer ↦ ?_
  rw [(hhosts peer).receivedMsgs]
  exact Nat.zero_le _

end Runs

namespace Reference

/-- A codec that knows some messages and encodes each of them as a string of the length of its
index. -/
def tokenCodec {Msg : Type} (tokens : List Msg) [DecidableEq Msg] : Cbor Msg where
  typeName := "token"
  marshal msg :=
    if msg ∈ tokens then bytesCodec.marshal (List.replicate (tokens.idxOf msg) 0)
    else .error "unknown message"
  decode limit := fun r ↦
    match (bytesCodec.decode limit).run r with
    | .ok bytes after =>
      match tokens[bytes.length]? with
      | some msg => .ok msg after
      | none => .error (.other "unknown message") after
    | .error err after => .error err after

section Token

variable {Msg : Type} {tokens : List Msg} [DecidableEq Msg]

theorem run_decode_token (limit : ℕ) (r : Reader) : ((tokenCodec tokens).decode limit).run r =
    match (bytesCodec.decode limit).run r with
    | .ok bytes after =>
      match tokens[bytes.length]? with
      | some msg => .ok msg after
      | none => .error (.other "unknown message") after
    | .error err after => .error err after := rfl

theorem marshal_token {msg : Msg} {data : List UInt8}
    (h : (tokenCodec tokens).marshal msg = .ok data) :
    msg ∈ tokens ∧ bytesCodec.marshal (List.replicate (tokens.idxOf msg) 0) = .ok data := by
  have hmarshal : (if msg ∈ tokens then bytesCodec.marshal (List.replicate (tokens.idxOf msg) 0)
    else .error "unknown message") = .ok data := h
  split at hmarshal
  · exact ⟨‹_›, hmarshal⟩
  · cases hmarshal

theorem decode_of_decode_token {limit : ℕ} {r after : Reader} {msg : Msg}
    (h : ((tokenCodec tokens).decode limit).run r = .ok msg after) :
    ∃ bytes, (bytesCodec.decode limit).run r = .ok bytes after := by
  rw [run_decode_token] at h
  split at h
  · rename_i bytes after' hbytes
    split at h <;> cases h
    exact ⟨bytes, hbytes⟩
  · cases h

theorem tokenCodec_lawful : (tokenCodec tokens).Lawful := by
  constructor
  · intro limit r msg after hrun
    obtain ⟨bytes, hbytes⟩ := decode_of_decode_token hrun
    exact bytesCodec_lawful.limited hbytes
  · intro msg data r rest hmarshal hcontent
    obtain ⟨hmem, hbytes⟩ := marshal_token hmarshal
    obtain ⟨after, hrun, hreads⟩ := bytesCodec_lawful.inverts hbytes hcontent
    refine ⟨after, ?_, hreads⟩
    rw [run_decode_token, hrun]
    simp only [List.length_replicate, List.getElem?_idxOf hmem]
  · intro limit r hpos
    rw [← bytesCodec_lawful.eof_iff hpos, run_decode_token]
    cases (bytesCodec.decode limit).run r with
    | ok bytes after => cases htoken : tokens[bytes.length]? <;> simp [htoken]
    | error err after => simp

theorem bytesCodec_prefixFree : bytesCodec.PrefixFree := by
  intro msg data r hmarshal hwhole hne msg' after hrun
  obtain ⟨hshort, rfl⟩ := marshal_eq_ok hmarshal
  have hlt : r.content.length < (msg.length.toUInt8 :: msg).length := by
    refine lt_of_le_of_ne hwhole.length_le fun heq ↦ hne ?_
    exact hwhole.eq_of_length heq
  rw [run_decode, List.take_of_length_le hlt.le] at hrun
  cases hcontent : r.content with
  | nil =>
    rw [hcontent] at hrun
    cases hrun
  | cons size body =>
    rw [hcontent] at hrun hwhole hlt
    obtain ⟨rfl, -⟩ := List.cons_prefix_cons.mp hwhole
    rw [List.length_cons, List.length_cons] at hlt
    have hcut : body.length < msg.length.toUInt8.toNat := by
      rw [toNat_toUInt8 hshort]
      omega
    simp only [if_pos hcut] at hrun
    cases hrun

theorem tokenCodec_prefixFree : (tokenCodec tokens).PrefixFree := by
  intro msg data r hmarshal hwhole hne msg' after hrun
  obtain ⟨-, hbytes⟩ := marshal_token hmarshal
  obtain ⟨bytes, hdecode⟩ := decode_of_decode_token hrun
  exact bytesCodec_prefixFree hbytes hwhole hne bytes after hdecode

end Token

/-- A message of each type. -/
def sample : ∀ kind, ValidatorMsg UnicityCertificate kind
  | .ledgerReplicationRequest => ({ } : LedgerReplicationRequest)
  | .ledgerReplicationResponse => ({ } : LedgerReplicationResponse UnicityCertificate)
  | .blockProposal => ({ } : BlockProposal)
  | .blockCertificationRequest => ({ } : BlockCertificationRequest)
  | .handshake => ({ } : Handshake)
  | .certificationResponse => ({ } : CertificationResponse)

instance instDecidableEqValidatorMsg : ∀ kind, DecidableEq (ValidatorMsg UnicityCertificate kind)
  | .ledgerReplicationRequest => inferInstanceAs (DecidableEq LedgerReplicationRequest)
  | .ledgerReplicationResponse =>
    inferInstanceAs (DecidableEq (LedgerReplicationResponse UnicityCertificate))
  | .blockProposal => inferInstanceAs (DecidableEq BlockProposal)
  | .blockCertificationRequest => inferInstanceAs (DecidableEq BlockCertificationRequest)
  | .handshake => inferInstanceAs (DecidableEq Handshake)
  | .certificationResponse => inferInstanceAs (DecidableEq CertificationResponse)

/-- Codecs for one message of each type. -/
def codecs (token : ∀ kind, ValidatorMsg UnicityCertificate kind) (kind : MessageKind) :
    Cbor (ValidatorMsg UnicityCertificate kind) :=
  tokenCodec [token kind]

theorem codecs_lawful (token : ∀ kind, ValidatorMsg UnicityCertificate kind) (kind : MessageKind) :
    (codecs token kind).Lawful :=
  tokenCodec_lawful

theorem codecs_prefixFree (token : ∀ kind, ValidatorMsg UnicityCertificate kind)
    (kind : MessageKind) : (codecs token kind).PrefixFree :=
  tokenCodec_prefixFree

def formats : Formats MessageKind where
  typeName _ := "message"
  duration _ := "duration"

/-- A root node sends certification responses and nothing else. -/
def rootHost : LibP2PNetwork (ValidatorMsg UnicityCertificate) where
  capacity := 10
  sendProtocols kind :=
    if kind = .certificationResponse then
      some { protocolID := protocolUnicityCertificates, timeout := 0 }
    else none

theorem rootHost_uses : rootHost.Uses MessageKind.protocolID := by
  constructor
  · intro kind data hdata
    have htable : (if kind = .certificationResponse then
        some { protocolID := protocolUnicityCertificates, timeout := 0 }
      else none) = some data := hdata
    split at htable
    · rename_i hkind
      cases htable
      rw [hkind]
      rfl
    · cases htable
  · rintro protocolID kind ⟨⟩

def validatorHost : LibP2PNetwork (ValidatorMsg UnicityCertificate) :=
  (newLibP2PValidatorNetwork formats (some ["/ipfs/id/1.0.0"]) {}).toOption.getD rootHost

theorem validatorHost_new : NewPeer formats validatorHost := by
  have hnew : newLibP2PValidatorNetwork formats (some ["/ipfs/id/1.0.0"]) {} =
    .ok validatorHost := rfl
  exact .validator hnew

/-- The peers, `"R"` is the root node. -/
def hosts (peer : PeerID) : LibP2PNetwork (ValidatorMsg UnicityCertificate) :=
  if peer = "R" then rootHost else validatorHost

theorem hosts_new (peer : PeerID) : NewPeer formats (hosts peer) := by
  unfold hosts
  split
  · exact .root rootHost_uses rfl
  · exact validatorHost_new

/-- A certification response is sent to two validators, one of which does not handle it yet. -/
def responses : List (NetworkEvent (ValidatorMsg UnicityCertificate)) :=
  [.register "A" validatorProtocols,
   .send "R" ⟨.certificationResponse, sample _⟩ ["A", "B"],
   .accept 0 (.ok ()) [[1], [0]] .eof,
   .accept 0 (.ok ()) [[1], [0]] .eof,
   .read 0]

theorem responses_events : ∀ event ∈ responses, ValidatorEvent event := by
  simp only [responses, List.forall_mem_cons]
  exact ⟨fun _ hmem ↦ hmem, trivial, trivial, trivial, trivial, by simp⟩

end Reference

open Reference

/-- Whatever is lost, cut or delayed, a peer never receives anything but what was sent to it, as
the type it was sent as and at most as often, and the channel never exceeds its capacity. -/
theorem peers_receive_what_was_sent {cbor : ∀ kind, Cbor (ValidatorMsg C kind)}
    (hcbor : ∀ kind, (cbor kind).Lawful) (hwhole : ∀ kind, (cbor kind).PrefixFree)
    {formats : Formats MessageKind} {hosts : PeerID → LibP2PNetwork (ValidatorMsg C)}
    (hhosts : ∀ peer, NewPeer formats (hosts peer))
    {events : List (NetworkEvent (ValidatorMsg C))}
    (hevents : ∀ event ∈ events, ValidatorEvent event) (peer : PeerID) :
    let net := Run.run (PeerNetwork.step cbor) { hosts := hosts } events
    (net.received peer : Multiset (AnyMsg (ValidatorMsg C))) ≤ net.messagesTo peer ∧
      (net.hosts peer).receivedMsgs.length ≤ (hosts peer).capacity := by
  intro net
  constructor
  · have hfaithful := faithful_run hcbor hwhole (faithful_start hhosts) hevents
    exact le_trans (Multiset.le_add_right _ _) (hfaithful.accounted peer)
  · have hbounded : net.Bounded := bounded_run hhosts hevents
    have hcapacity : (net.hosts peer).capacity = (hosts peer).capacity :=
      (extends_run hevents peer).capacity
    exact (hbounded peer).trans_eq hcapacity

theorem peers_receive_what_was_sent_response :
    let net := Run.run (PeerNetwork.step (codecs sample)) { hosts := hosts } responses
    net.received "A" = [⟨.certificationResponse, sample _⟩] ∧ net.received "B" = [] ∧
      (net.received "A" : Multiset (AnyMsg (ValidatorMsg UnicityCertificate))) ≤
        net.messagesTo "A" ∧
      (net.hosts "A").receivedMsgs.length ≤ (hosts "A").capacity := by
  refine ⟨rfl, rfl, ?_⟩
  exact peers_receive_what_was_sent (codecs_lawful sample) (codecs_prefixFree sample) hosts_new
    responses_events "A"

end FinalityGadget
