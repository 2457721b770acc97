import Mathlib.Tactic.Abel
import FinalityGadget.Foundation.Pool
import FinalityGadget.Network.Transport

/-!
# What the peers receive

The messages that a peer has received and those on their way to it are, taken together, among the
messages that were sent to it: every move of the network passes messages on from a stream in flight
to an open one and from there to the channel, or drops them. A stream that was cut is no exception,
since a beginning of an encoding is never accepted as an encoding.

A peer has handlers for the messages that it receives from others, and whoever sent a message has a
protocol for it.
-/

namespace FinalityGadget

open Fallible Varint

/-! ## Frames on a stream that was cut -/

section Frames

variable {Msg : Type} {cbor : Cbor Msg}

/-- No proper beginning of an encoding is an encoding. -/
def Cbor.PrefixFree (cbor : Cbor Msg) : Prop :=
  ∀ {msg data r}, cbor.marshal msg = .ok data → r.content <+: data → r.content ≠ data →
    ∀ msg' after, (cbor.decode data.length).run r ≠ .ok msg' after

theorem serializeMsg_eq_ok {msg : Msg} {frame : List UInt8}
    (h : serializeMsg cbor msg = .ok frame) :
    ∃ lengthBytes data, frame = lengthBytes ++ data ∧ cbor.marshal msg = .ok data ∧
      Spells lengthBytes data.length := by
  obtain ⟨data, hmarshal, h⟩ := bind_eq_ok.mp h
  cases hput : putUvarint 8 data.length with
  | none =>
    rw [hput] at h
    cases h
  | some lengthBytes =>
    rw [hput] at h
    cases h
    exact ⟨lengthBytes, data, rfl, mapError_eq_ok.mp hmarshal, spells_of_putUvarint hput⟩

/-- What is read from a stream that was cut somewhere is the message of its first frame. -/
theorem deserializeMsg_of_cut (hcbor : cbor.Lawful) (hwhole : cbor.PrefixFree) {msg msg' : Msg}
    {frame rest : List UInt8} {r after : Reader} (hserialize : serializeMsg cbor msg = .ok frame)
    (hcontent : r.content <+: frame ++ rest)
    (hrun : (deserializeMsg cbor).run r = .ok msg' after) :
    msg' = msg ∧ after.content <+: rest := by
  obtain ⟨lengthBytes, data, rfl, hmarshal, hspells⟩ := serializeMsg_eq_ok hserialize
  have hexit := deserializeMsg_spec hcbor r
  rw [hrun] at hexit
  cases hexit with
  | @read lengthBytes' n _ middle _ hlength hreads hdecode =>
    obtain ⟨lost, hlost⟩ := hcontent
    have hbytes : lengthBytes' ++ (middle.content ++ lost) = lengthBytes ++ (data ++ rest) := by
      rw [← List.append_assoc, ← hreads.1, hlost, List.append_assoc]
    obtain ⟨rfl, rfl, hbody⟩ := hlength.spells.unique hspells hbytes
    -- either the whole encoding is there, or the decoder would have accepted a part of it
    have hthere : ∃ more, middle.content = data ++ more ∧ more <+: rest := by
      rcases List.append_eq_append_iff.mp hbody with ⟨missing, hdata, _⟩ | ⟨more, hmiddle, hrest⟩
      · by_cases hnone : middle.content = data
        · exact ⟨[], by rw [hnone, List.append_nil], List.nil_prefix⟩
        · exact absurd hdecode (hwhole hmarshal ⟨missing, hdata.symm⟩ hnone _ _)
      · exact ⟨more, hmiddle, lost, hrest.symm⟩
    obtain ⟨more, hmiddle, hmore⟩ := hthere
    obtain ⟨after', hdecode', hread⟩ := hcbor.inverts hmarshal hmiddle
    rw [hdecode] at hdecode'
    cases hdecode'
    have hafter : after.content = more :=
      List.append_cancel_left (hread.1.symm.trans hmiddle)
    exact ⟨rfl, hafter ▸ hmore⟩

end Frames

/-! ## Accounting -/

section Accounting

variable {Kind : Type} {Msg : Kind → Type} (cbor : ∀ kind, Cbor (Msg kind))
  (protocolOf : Kind → String)

/-- The peer sends and receives messages of a type on the protocol of the type. -/
structure LibP2PNetwork.Uses (n : LibP2PNetwork Msg) : Prop where
  sends : ∀ {kind protocol}, n.sendProtocols kind = some protocol →
    protocol.protocolID = protocolOf kind
  handles : ∀ {protocolID kind}, n.handlers protocolID = some (.messages kind) →
    protocolID = protocolOf kind

/-- The messages, if they are for the peer. -/
def addressed (receiver peer : PeerID) (msgs : List (AnyMsg Msg)) : Multiset (AnyMsg Msg) :=
  if receiver = peer then msgs else 0

def Flight.heldFor (peer : PeerID) (flight : Flight Msg) : Multiset (AnyMsg Msg) :=
  addressed flight.receiver peer flight.messages

def OpenStream.heldFor (peer : PeerID) (stream : OpenStream Msg) : Multiset (AnyMsg Msg) :=
  addressed stream.receiver peer stream.unread

namespace PeerNetwork

/-- The messages on their way to a peer. -/
def inTransit (net : PeerNetwork Msg) (peer : PeerID) : Multiset (AnyMsg Msg) :=
  Pool.held (Flight.heldFor peer) net.flights + Pool.held (OpenStream.heldFor peer) net.streams

/-- The messages that a peer has received. -/
def received (net : PeerNetwork Msg) (peer : PeerID) : List (AnyMsg Msg) :=
  net.taken peer ++ (net.hosts peer).receivedMsgs

def messagesTo (net : PeerNetwork Msg) (peer : PeerID) : List (AnyMsg Msg) :=
  (net.sentTo peer).map Prod.snd

/-- The peers use the protocols of the types, the streams carry frames, and what was received or is
on its way was sent. -/
structure Faithful (net : PeerNetwork Msg) : Prop where
  uses : ∀ peer, (net.hosts peer).Uses protocolOf
  flights : ∀ flight ∈ net.flights, ∃ kind, flight.protocolID = protocolOf kind ∧
    Framed cbor kind flight.messages flight.data
  streams : ∀ stream ∈ net.streams, ∃ data, Framed cbor stream.kind stream.unread data ∧
    stream.reader.content <+: data
  accounted : ∀ peer, (net.received peer : Multiset (AnyMsg Msg)) + net.inTransit peer ≤
    net.messagesTo peer

end PeerNetwork

end Accounting

namespace PeerNetwork

variable {Kind : Type} {Msg : Kind → Type} {cbor : ∀ kind, Cbor (Msg kind)}
  {protocolOf : Kind → String} {admits : ReceiveProtocolDescription Kind → Prop}
  {net net' : PeerNetwork Msg}

/-! ### Where the messages are -/

theorem addressed_cons (receiver peer : PeerID) (msg : AnyMsg Msg) (msgs : List (AnyMsg Msg)) :
    addressed receiver peer (msg :: msgs) =
      addressed receiver peer [msg] + addressed receiver peer msgs := by
  unfold addressed
  split <;> rfl

theorem messagesTo_recordSent (net : PeerNetwork Msg) (sender receiver peer : PeerID)
    (msgs : List (AnyMsg Msg)) :
    ((net.recordSent sender receiver msgs).messagesTo peer : Multiset (AnyMsg Msg)) =
      net.messagesTo peer + addressed receiver peer msgs := by
  have hsent : (net.recordSent sender receiver msgs).messagesTo peer =
      (Function.update net.sentTo receiver
        (net.sentTo receiver ++ msgs.map (Prod.mk sender)) peer).map Prod.snd := rfl
  rw [hsent, addressed]
  by_cases h : receiver = peer
  · subst h
    rw [Function.update_self, if_pos rfl, List.map_append, List.map_map, Multiset.coe_add]
    simp [messagesTo, Function.comp_def]
  · rw [Function.update_of_ne (Ne.symm h), if_neg h, add_zero]
    rfl

theorem received_enqueue (net : PeerNetwork Msg) (peer other : PeerID) (msg : AnyMsg Msg) :
    ((net.enqueue peer msg).received other : Multiset (AnyMsg Msg)) =
      net.received other + addressed peer other [msg] := by
  have hreceived : (net.enqueue peer msg).received other =
      net.taken other ++ (Function.update net.hosts peer { net.hosts peer with
        receivedMsgs := (net.hosts peer).receivedMsgs ++ [msg] } other).receivedMsgs := rfl
  rw [hreceived, received, addressed]
  by_cases h : peer = other
  · subst h
    rw [Function.update_self, if_pos rfl, Multiset.coe_add, List.append_assoc]
  · rw [Function.update_of_ne (Ne.symm h), if_neg h, add_zero]

theorem received_setHost {peer : PeerID} {host : LibP2PNetwork Msg}
    (hqueue : host.receivedMsgs = (net.hosts peer).receivedMsgs) (other : PeerID) :
    (net.setHost peer host).received other = net.received other :=
  congrArg (net.taken other ++ ·) ((Function.forall_update_iff net.hosts fun other host ↦
    host.receivedMsgs = (net.hosts other).receivedMsgs).mpr ⟨hqueue, fun _ _ ↦ rfl⟩ other)

/-- A message that is taken moves from the channel to the end of what was taken. -/
theorem received_take {peer : PeerID} {msg : AnyMsg Msg} {rest : List (AnyMsg Msg)}
    (hqueue : (net.hosts peer).receivedMsgs = msg :: rest) (other : PeerID) :
    ((net.recordTaken peer msg).setQueue peer rest).received other = net.received other := by
  by_cases h : other = peer
  · subst h
    simp only [received, recordTaken, setQueue, setHost, Function.update_self, hqueue,
      List.append_assoc, List.singleton_append]
  · simp only [received, recordTaken, setQueue, setHost, Function.update_of_ne h]

/-- A stream and everything else that is on its way. -/
theorem inTransit_eq_of_stream {i : ℕ} {stream : OpenStream Msg}
    (hstream : net.streams[i]? = some stream) (peer : PeerID) :
    net.inTransit peer = stream.heldFor peer + (net.closeStream i).inTransit peer := by
  have hclosed : (net.closeStream i).inTransit peer = Pool.held (Flight.heldFor peer) net.flights +
      Pool.held (OpenStream.heldFor peer) (net.streams.eraseIdx i) := rfl
  rw [hclosed, inTransit, Pool.held_eraseIdx hstream]
  abel

theorem inTransit_setStream {i : ℕ} {stream : OpenStream Msg}
    (hstream : net.streams[i]? = some stream) (stream' : OpenStream Msg) (peer : PeerID) :
    (net.setStream i stream').inTransit peer =
      stream'.heldFor peer + (net.closeStream i).inTransit peer := by
  have hset : (net.setStream i stream').inTransit peer =
      Pool.held (Flight.heldFor peer) net.flights +
        Pool.held (OpenStream.heldFor peer) (net.streams.set i stream') := rfl
  have hclosed : (net.closeStream i).inTransit peer = Pool.held (Flight.heldFor peer) net.flights +
      Pool.held (OpenStream.heldFor peer) (net.streams.eraseIdx i) := rfl
  rw [hset, hclosed, Pool.held_set hstream]
  abel

theorem inTransit_openStream (net : PeerNetwork Msg) (stream : OpenStream Msg) (peer : PeerID) :
    (net.openStream stream).inTransit peer = stream.heldFor peer + net.inTransit peer := by
  have hopen : (net.openStream stream).inTransit peer =
      Pool.held (Flight.heldFor peer) net.flights +
        Pool.held (OpenStream.heldFor peer) (net.streams ++ [stream]) := rfl
  rw [hopen, inTransit, Pool.held_append, Pool.held_cons, Pool.held_nil]
  abel

theorem inTransit_launch (net : PeerNetwork Msg) (flight : Flight Msg) (peer : PeerID) :
    (net.launch flight).inTransit peer = net.inTransit peer + flight.heldFor peer := by
  have hlaunch : (net.launch flight).inTransit peer =
      Pool.held (Flight.heldFor peer) (net.flights ++ [flight]) +
        Pool.held (OpenStream.heldFor peer) net.streams := rfl
  rw [hlaunch, inTransit, Pool.held_append, Pool.held_cons, Pool.held_nil]
  abel

/-- A flight and everything else that is on its way. -/
theorem inTransit_eq_of_flight {i : ℕ} {flight : Flight Msg}
    (hflight : net.flights[i]? = some flight) (peer : PeerID) :
    net.inTransit peer = flight.heldFor peer + (net.land i).inTransit peer := by
  have hland : (net.land i).inTransit peer =
      Pool.held (Flight.heldFor peer) (net.flights.eraseIdx i) +
        Pool.held (OpenStream.heldFor peer) net.streams := rfl
  rw [hland, inTransit, Pool.held_eraseIdx hflight, add_assoc]

/-! ### What a move does to the peers -/

/-- What holds of a peer with another channel and of all the other peers. -/
theorem forall_hosts_setQueue {P : PeerID → LibP2PNetwork Msg → Prop} {peer : PeerID}
    {queue : List (AnyMsg Msg)} (hpeer : P peer { net.hosts peer with receivedMsgs := queue })
    (hother : ∀ other, P other (net.hosts other)) (other : PeerID) :
    P other ((net.setQueue peer queue).hosts other) :=
  (Function.forall_update_iff net.hosts P).mpr ⟨hpeer, fun other _ ↦ hother other⟩ other

/-- The tables of the peers only grow. -/
theorem extends_of_move (hmove : NetworkMove cbor admits net net') (peer : PeerID) :
    (net.hosts peer).Extends admits (net'.hosts peer) := by
  have hrefl : ∀ peer, (net.hosts peer).Extends admits (net.hosts peer) := fun _ ↦ .refl admits _
  have hqueue : ∀ peer queue other, (net.hosts other).Extends admits
      ((net.setQueue peer queue).hosts other) := fun peer queue ↦
    forall_hosts_setQueue (P := fun other host ↦ (net.hosts other).Extends admits host)
      ⟨rfl, rfl, id, Or.inl⟩ hrefl
  cases hmove with
  | register hextends _ =>
    exact (Function.forall_update_iff net.hosts fun peer host ↦
      (net.hosts peer).Extends admits host).mpr ⟨hextends, fun peer _ ↦ hrefl peer⟩ peer
  | loopBack _ _ => exact hqueue _ _ peer
  | read _ _ _ => exact hqueue _ _ peer
  | take _ => exact hqueue _ _ peer
  | launch _ _ _ => exact hrefl peer
  | loseOwn _ => exact hrefl peer
  | accept _ _ _ => exact hrefl peer
  | refuse _ => exact hrefl peer
  | close _ => exact hrefl peer

/-- The channels keep to their capacity. -/
def Bounded (net : PeerNetwork Msg) : Prop :=
  ∀ peer, (net.hosts peer).receivedMsgs.length ≤ (net.hosts peer).capacity

theorem Bounded.move (h : net.Bounded) (hmove : NetworkMove cbor admits net net') :
    net'.Bounded := by
  have hqueue : ∀ {peer queue}, queue.length ≤ (net.hosts peer).capacity →
      (net.setQueue peer queue).Bounded := fun hlength ↦
    forall_hosts_setQueue (P := fun _ host ↦ host.receivedMsgs.length ≤ host.capacity) hlength h
  cases hmove with
  | @register peer host hextends hsame =>
    refine (Function.forall_update_iff net.hosts fun _ host ↦
      host.receivedMsgs.length ≤ host.capacity).mpr ⟨?_, fun other _ ↦ h other⟩
    rw [hsame, hextends.capacity]
    exact h peer
  | loopBack _ hroom => exact hqueue (List.length_append.trans_le hroom)
  | read _ _ hroom => exact hqueue (List.length_append.trans_le hroom)
  | @take peer _ _ htaken =>
    apply hqueue
    have hbounded := h peer
    rw [htaken, List.length_cons] at hbounded
    exact Nat.le_of_succ_le hbounded
  | launch _ _ _ => exact h
  | loseOwn _ => exact h
  | accept _ _ _ => exact h
  | refuse _ => exact h
  | close _ => exact h

/-! ### What a move does to the messages -/

/-- A message that is read is the next one that was written. -/
theorem deserializeMsg_of_framed {kind : Kind} (hcbor : (cbor kind).Lawful)
    (hwhole : (cbor kind).PrefixFree) {unread : List (AnyMsg Msg)} {data : List UInt8}
    (hframed : Framed cbor kind unread data) {r after : Reader} (hcut : r.content <+: data)
    {msg : Msg kind} (hrun : (deserializeMsg (cbor kind)).run r = .ok msg after) :
    ∃ data', unread = ⟨kind, msg⟩ :: unread.tail ∧ Framed cbor kind unread.tail data' ∧
      after.content <+: data' := by
  obtain ⟨msgs, frames, rfl, hframes, rfl⟩ := hframed
  cases hframes with
  | nil =>
    have hlt := length_lt_of_read hcbor hrun
    rw [List.prefix_nil.mp hcut] at hlt
    exact absurd hlt (Nat.not_lt_zero _)
  | @cons first frame msgs frames hserialize hframes =>
    obtain ⟨rfl, hafter⟩ := deserializeMsg_of_cut hcbor hwhole hserialize hcut hrun
    exact ⟨_, rfl, ⟨msgs, frames, rfl, hframes, rfl⟩, hafter⟩

theorem Faithful.flights_move (h : Faithful cbor protocolOf net)
    (hmove : NetworkMove cbor admits net net') :
    ∀ flight ∈ net'.flights, ∃ kind, flight.protocolID = protocolOf kind ∧
      Framed cbor kind flight.messages flight.data := by
  have herase : ∀ i, ∀ flight ∈ net.flights.eraseIdx i, ∃ kind,
      flight.protocolID = protocolOf kind ∧ Framed cbor kind flight.messages flight.data :=
    fun i flight hmem ↦ h.flights flight (List.eraseIdx_subset hmem)
  cases hmove with
  | @launch flight kind protocol hsends hprotocol hframed =>
    refine List.forall_mem_append.mpr ⟨h.flights, List.forall_mem_singleton.mpr ?_⟩
    exact ⟨kind, hprotocol.trans ((h.uses _).sends hsends), hframed⟩
  | accept _ _ _ => exact herase _
  | refuse _ => exact herase _
  | register _ _ => exact h.flights
  | loopBack _ _ => exact h.flights
  | loseOwn _ => exact h.flights
  | read _ _ _ => exact h.flights
  | close _ => exact h.flights
  | take _ => exact h.flights

theorem Faithful.streams_move (hinjective : Function.Injective protocolOf)
    (hcbor : ∀ kind, (cbor kind).Lawful) (hwhole : ∀ kind, (cbor kind).PrefixFree)
    (h : Faithful cbor protocolOf net) (hmove : NetworkMove cbor admits net net') :
    ∀ stream ∈ net'.streams, ∃ data, Framed cbor stream.kind stream.unread data ∧
      stream.reader.content <+: data := by
  cases hmove with
  | @accept i flight kind chunks ending hflight hhandler hcut =>
    obtain ⟨kind', hprotocol, hframed⟩ := h.flights flight (List.mem_of_getElem? hflight)
    have hkind : kind' = kind :=
      hinjective (hprotocol.symm.trans ((h.uses _).handles hhandler))
    subst hkind
    refine List.forall_mem_append.mpr ⟨h.streams, List.forall_mem_singleton.mpr ?_⟩
    exact ⟨flight.data, hframed, hcut⟩
  | @read i stream msg after hstream hrun hroom =>
    intro stream' hmem
    rcases List.mem_or_eq_of_mem_set hmem with hmem | rfl
    · exact h.streams stream' hmem
    · obtain ⟨data, hframed, hcut⟩ := h.streams stream (List.mem_of_getElem? hstream)
      obtain ⟨data', -, hrest, hafter⟩ :=
        deserializeMsg_of_framed (hcbor _) (hwhole _) hframed hcut hrun
      exact ⟨data', hrest, hafter⟩
  | close _ => exact fun stream hmem ↦ h.streams stream (List.eraseIdx_subset hmem)
  | refuse _ => exact h.streams
  | register _ _ => exact h.streams
  | launch _ _ _ => exact h.streams
  | loopBack _ _ => exact h.streams
  | loseOwn _ => exact h.streams
  | take _ => exact h.streams

/-- Messages are passed on or dropped. -/
theorem Faithful.accounted_move (hcbor : ∀ kind, (cbor kind).Lawful)
    (hwhole : ∀ kind, (cbor kind).PrefixFree) (h : Faithful cbor protocolOf net)
    (hmove : NetworkMove cbor admits net net') (peer : PeerID) :
    (net'.received peer : Multiset (AnyMsg Msg)) + net'.inTransit peer ≤ net'.messagesTo peer := by
  have hold := h.accounted peer
  cases hmove with
  | register _ hqueue =>
    rw [received_setHost hqueue]
    exact hold
  | @launch flight kind protocol hsends hprotocol hframed =>
    calc (net.received peer : Multiset (AnyMsg Msg)) + (net.launch flight).inTransit peer
        = net.received peer + net.inTransit peer + flight.heldFor peer := by
          rw [inTransit_launch, add_assoc]
      _ ≤ net.messagesTo peer + flight.heldFor peer := add_le_add_left hold _
      _ = (net.recordSent flight.sender flight.receiver flight.messages).messagesTo peer :=
          (messagesTo_recordSent net _ _ peer _).symm
  | @loopBack peer' msg protocol hsends hroom =>
    rw [received_enqueue]
    calc (net.received peer : Multiset (AnyMsg Msg)) + addressed peer' peer [msg] +
          net.inTransit peer
        = net.received peer + net.inTransit peer + addressed peer' peer [msg] := by abel
      _ ≤ net.messagesTo peer + addressed peer' peer [msg] := add_le_add_left hold _
      _ = (net.recordSent peer' peer' [msg]).messagesTo peer :=
          (messagesTo_recordSent net _ _ peer _).symm
  | @loseOwn peer' msg protocol hsends =>
    rw [messagesTo_recordSent]
    exact hold.trans (Multiset.le_add_right _ _)
  | @accept i flight kind chunks ending hflight hhandler hcut =>
    rw [inTransit_openStream]
    rw [inTransit_eq_of_flight hflight] at hold
    exact hold
  | @refuse i flight hflight =>
    rw [inTransit_eq_of_flight hflight] at hold
    exact (add_le_add_right (Multiset.le_add_left _ _) _).trans hold
  | @read i stream msg after hstream hrun hroom =>
    obtain ⟨data, hframed, hcut⟩ := h.streams stream (List.mem_of_getElem? hstream)
    obtain ⟨-, hunread, -⟩ :=
      deserializeMsg_of_framed (hcbor _) (hwhole _) hframed hcut hrun
    have hheld : stream.heldFor peer = addressed stream.receiver peer [⟨stream.kind, msg⟩] +
        (stream.advance after).heldFor peer := by
      rw [OpenStream.heldFor, hunread, addressed_cons]
      rfl
    rw [received_enqueue]
    calc (net.received peer : Multiset (AnyMsg Msg)) +
          addressed stream.receiver peer [⟨stream.kind, msg⟩] +
          (net.setStream i (stream.advance after)).inTransit peer
        = net.received peer + net.inTransit peer := by
          rw [inTransit_setStream hstream, inTransit_eq_of_stream hstream, hheld]
          abel
      _ ≤ net.messagesTo peer := hold
  | @close i stream hstream =>
    rw [inTransit_eq_of_stream hstream] at hold
    exact (add_le_add_right (Multiset.le_add_left _ _) _).trans hold
  | @take peer' msg rest hqueue =>
    rw [received_take hqueue]
    exact hold

/-- Protocols are registered for the types of their messages. -/
def Fits (protocolOf : Kind → String) (admits : ReceiveProtocolDescription Kind → Prop) : Prop :=
  ∀ {protocol protocolID kind}, admits protocol → protocol.Describes protocolID kind →
    protocolID = protocolOf kind

theorem Faithful.move (hinjective : Function.Injective protocolOf)
    (hcbor : ∀ kind, (cbor kind).Lawful) (hwhole : ∀ kind, (cbor kind).PrefixFree)
    (hfits : Fits protocolOf admits) (h : Faithful cbor protocolOf net)
    (hmove : NetworkMove cbor admits net net') : Faithful cbor protocolOf net' where
  uses peer := by
    have hextends := extends_of_move hmove peer
    constructor
    · intro kind protocol hsends
      rw [hextends.sendProtocols] at hsends
      exact (h.uses peer).sends hsends
    · intro protocolID kind hhandler
      rcases hextends.added hhandler with hold | ⟨protocol, hadmits, hdescribes⟩
      · exact (h.uses peer).handles hold
      · exact hfits hadmits hdescribes
  flights := h.flights_move hmove
  streams := h.streams_move hinjective hcbor hwhole hmove
  accounted := h.accounted_move hcbor hwhole hmove

/-- A peer that starts again has received less than it had before. -/
theorem Faithful.reboot (h : Faithful cbor protocolOf net) {peer : PeerID}
    {host : LibP2PNetwork Msg} (huses : host.Uses protocolOf) (hempty : host.receivedMsgs = []) :
    Faithful cbor protocolOf (net.reboot peer host) where
  uses := (Function.forall_update_iff net.hosts fun _ host ↦ host.Uses protocolOf).mpr
    ⟨huses, fun other _ ↦ h.uses other⟩
  flights := h.flights
  streams stream hmem := h.streams stream (List.mem_of_mem_filter hmem)
  accounted other := by
    have hreceived : ((net.reboot peer host).received other : Multiset (AnyMsg Msg)) ≤
        net.received other := by
      refine (Function.forall_update_iff net.hosts fun other host ↦
        ((net.taken other ++ host.receivedMsgs : List (AnyMsg Msg)) : Multiset (AnyMsg Msg)) ≤
          net.received other).mpr ⟨?_, fun _ _ ↦ le_rfl⟩ other
      rw [hempty, List.append_nil, received, ← Multiset.coe_add]
      exact Multiset.le_add_right _ _
    have htransit : (net.reboot peer host).inTransit other ≤ net.inTransit other :=
      add_le_add_right (Pool.held_filter_le _ net.streams) _
    exact (add_le_add hreceived htransit).trans (h.accounted other)

/-! ### Where messages come from -/

/-- Senders have protocols for what they send, and receivers have handlers for what they receive
unless they have sent it to themselves. -/
structure Attributed (net : PeerNetwork Msg) : Prop where
  senders : ∀ peer, ∀ sent ∈ net.sentTo peer,
    ∃ protocol, (net.hosts sent.1).sendProtocols sent.2.1 = some protocol
  streams : ∀ stream ∈ net.streams,
    (net.hosts stream.receiver).handlers stream.protocolID = some (.messages stream.kind)
  received : ∀ peer, ∀ msg ∈ net.received peer, (peer, msg) ∈ net.sentTo peer ∨
    ∃ protocolID, (net.hosts peer).handlers protocolID = some (.messages msg.1)

theorem mem_addressed {receiver peer : PeerID} {msg : AnyMsg Msg} {msgs : List (AnyMsg Msg)} :
    msg ∈ addressed receiver peer msgs ↔ receiver = peer ∧ msg ∈ msgs := by
  unfold addressed
  split <;> simp_all

theorem mem_received_enqueue {peer other : PeerID} {msg msg' : AnyMsg Msg}
    (h : msg' ∈ (net.enqueue peer msg).received other) :
    msg' ∈ net.received other ∨ peer = other ∧ msg' = msg := by
  rw [← Multiset.mem_coe, received_enqueue, Multiset.mem_add, mem_addressed] at h
  simpa using h

theorem mem_sentTo_recordSent {sender receiver peer : PeerID} {msgs : List (AnyMsg Msg)}
    {sent : PeerID × AnyMsg Msg} :
    sent ∈ (net.recordSent sender receiver msgs).sentTo peer ↔
      sent ∈ net.sentTo peer ∨ peer = receiver ∧ sent.1 = sender ∧ sent.2 ∈ msgs := by
  have hsent : (net.recordSent sender receiver msgs).sentTo = Function.update net.sentTo receiver
      (net.sentTo receiver ++ msgs.map (Prod.mk sender)) := rfl
  rw [hsent, Function.update_apply]
  split
  · rename_i h
    subst h
    rw [List.mem_append, List.mem_map]
    refine or_congr_right ⟨?_, ?_⟩
    · rintro ⟨msg, hmem, rfl⟩
      exact ⟨rfl, rfl, hmem⟩
    · rintro ⟨-, rfl, hmem⟩
      exact ⟨sent.2, hmem, rfl⟩
  · rename_i h
    exact ⟨Or.inl, fun hsent ↦ hsent.resolve_right fun hnew ↦ h hnew.1⟩

/-- Who sends a message has a protocol for it. -/
theorem Attributed.senders_move (h : net.Attributed) (hmove : NetworkMove cbor admits net net') :
    ∀ peer, ∀ sent ∈ net'.sentTo peer,
      ∃ protocol, (net'.hosts sent.1).sendProtocols sent.2.1 = some protocol := by
  intro peer sent
  rw [(extends_of_move hmove sent.1).sendProtocols]
  have hnew : ∀ {sender receiver msgs}, (∀ msg ∈ msgs, ∃ protocol,
      (net.hosts sender).sendProtocols msg.1 = some protocol) →
      sent ∈ (net.recordSent sender receiver msgs).sentTo peer →
      ∃ protocol, (net.hosts sent.1).sendProtocols sent.2.1 = some protocol := by
    intro sender receiver msgs hsends hmem
    rcases mem_sentTo_recordSent.mp hmem with hold | ⟨-, hsender, hmsg⟩
    · exact h.senders peer sent hold
    · rw [hsender]
      exact hsends sent.2 hmsg
  cases hmove with
  | @launch flight kind protocol hsends _ hframed =>
    apply hnew
    obtain ⟨msgs, -, hmessages, -⟩ := hframed
    rw [hmessages, List.forall_mem_map]
    exact fun _ _ ↦ ⟨protocol, hsends⟩
  | loopBack hsends _ => exact hnew (List.forall_mem_singleton.mpr ⟨_, hsends⟩)
  | loseOwn hsends => exact hnew (List.forall_mem_singleton.mpr ⟨_, hsends⟩)
  | register _ _ => exact h.senders peer sent
  | accept _ _ _ => exact h.senders peer sent
  | refuse _ => exact h.senders peer sent
  | read _ _ _ => exact h.senders peer sent
  | close _ => exact h.senders peer sent
  | take _ => exact h.senders peer sent

theorem Attributed.streams_move (h : net.Attributed) (hmove : NetworkMove cbor admits net net') :
    ∀ stream ∈ net'.streams, (net'.hosts stream.receiver).handlers stream.protocolID =
      some (.messages stream.kind) := by
  have hold : ∀ stream ∈ net.streams, (net'.hosts stream.receiver).handlers stream.protocolID =
      some (.messages stream.kind) := fun stream hmem ↦
    (extends_of_move hmove stream.receiver).kept (h.streams stream hmem)
  cases hmove with
  | accept _ hhandler _ =>
    exact List.forall_mem_append.mpr ⟨hold, List.forall_mem_singleton.mpr hhandler⟩
  | @read i stream msg after hstream _ _ =>
    intro stream' hmem
    rcases List.mem_or_eq_of_mem_set hmem with hmem | rfl
    · exact hold stream' hmem
    · exact hold stream (List.mem_of_getElem? hstream)
  | close _ => exact fun stream hmem ↦ hold stream (List.eraseIdx_subset hmem)
  | register _ _ => exact hold
  | launch _ _ _ => exact hold
  | loopBack _ _ => exact hold
  | loseOwn _ => exact hold
  | refuse _ => exact hold
  | take _ => exact hold

/-- What comes from a stream was read by its handler. -/
theorem Attributed.received_move (h : net.Attributed) (hmove : NetworkMove cbor admits net net') :
    ∀ peer, ∀ msg ∈ net'.received peer, (peer, msg) ∈ net'.sentTo peer ∨
      ∃ protocolID, (net'.hosts peer).handlers protocolID = some (.messages msg.1) := by
  have hkept : ∀ {peer msg}, (∃ protocolID, (net.hosts peer).handlers protocolID =
      some (.messages msg)) → ∃ protocolID, (net'.hosts peer).handlers protocolID =
      some (.messages msg) := by
    rintro peer msg ⟨protocolID, hhandler⟩
    exact ⟨protocolID, (extends_of_move hmove peer).kept hhandler⟩
  intro peer msg hmem
  have hold : msg ∈ net.received peer → (peer, msg) ∈ net.sentTo peer ∨
      ∃ protocolID, (net'.hosts peer).handlers protocolID = some (.messages msg.1) :=
    fun hreceived ↦ (h.received peer msg hreceived).imp_right hkept
  cases hmove with
  | register _ hqueue =>
    rw [received_setHost hqueue] at hmem
    exact hold hmem
  | launch _ _ _ =>
    exact (hold hmem).imp_left fun hsent ↦ mem_sentTo_recordSent.mpr (Or.inl hsent)
  | loopBack _ _ =>
    rcases mem_received_enqueue hmem with hreceived | ⟨rfl, rfl⟩
    · exact (hold hreceived).imp_left fun hsent ↦ mem_sentTo_recordSent.mpr (Or.inl hsent)
    · refine Or.inl (mem_sentTo_recordSent.mpr (Or.inr ⟨rfl, rfl, List.mem_singleton_self _⟩))
  | loseOwn _ =>
    exact (hold hmem).imp_left fun hsent ↦ mem_sentTo_recordSent.mpr (Or.inl hsent)
  | @read i stream value after hstream _ _ =>
    rcases mem_received_enqueue hmem with hreceived | ⟨rfl, rfl⟩
    · exact hold hreceived
    · exact Or.inr (hkept ⟨_, h.streams stream (List.mem_of_getElem? hstream)⟩)
  | @take peer' taken rest hqueue =>
    rw [received_take hqueue] at hmem
    exact hold hmem
  | accept _ _ _ => exact hold hmem
  | refuse _ => exact hold hmem
  | close _ => exact hold hmem

theorem Attributed.move (h : net.Attributed) (hmove : NetworkMove cbor admits net net') :
    net'.Attributed :=
  ⟨h.senders_move hmove, h.streams_move hmove, h.received_move hmove⟩

/-! ### Histories -/

theorem dispatch_histories (self receiver : PeerID) (protocolID : String) (data : List UInt8)
    (msg : AnyMsg Msg) (net : PeerNetwork Msg) :
    (dispatch self protocolID data msg net receiver).sentTo =
      Function.update net.sentTo receiver (net.sentTo receiver ++ [(self, msg)]) ∧
    (dispatch self protocolID data msg net receiver).taken = net.taken := by
  unfold dispatch
  split
  · rename_i heq
    subst heq
    split <;> exact ⟨rfl, rfl⟩
  · exact ⟨rfl, rfl⟩

theorem foldl_dispatch_histories (self : PeerID) (protocolID : String) (data : List UInt8)
    (msg : AnyMsg Msg) (receivers : List PeerID) (net : PeerNetwork Msg) :
    (∀ peer, (receivers.foldl (dispatch self protocolID data msg) net).sentTo peer =
      net.sentTo peer ++ List.replicate (receivers.count peer) (self, msg)) ∧
    (receivers.foldl (dispatch self protocolID data msg) net).taken = net.taken := by
  induction receivers generalizing net with
  | nil => exact ⟨fun peer ↦ (List.append_nil _).symm, rfl⟩
  | cons receiver receivers ih =>
    rw [List.foldl_cons]
    obtain ⟨hsent, htaken⟩ := dispatch_histories self receiver protocolID data msg net
    obtain ⟨hrest, htakenRest⟩ := ih (dispatch self protocolID data msg net receiver)
    refine ⟨fun peer ↦ ?_, htakenRest.trans htaken⟩
    rw [hrest, hsent, List.count_cons]
    by_cases h : receiver = peer
    · subst h
      rw [Function.update_self, beq_self_eq_true, if_pos rfl, List.append_assoc]
      rfl
    · rw [Function.update_of_ne (Ne.symm h), if_neg (by simpa using h), Nat.add_zero]

theorem send_eq_ok {self : PeerID} {msg : AnyMsg Msg} {receivers : List PeerID}
    (h : net.send cbor self msg.2 receivers = .ok net') :
    net' = net ∨ ∃ protocolID data,
      net' = receivers.foldl (dispatch self protocolID data msg) net := by
  unfold send at h
  split at h
  · cases h
    exact Or.inl rfl
  · split at h
    · cases h
    · obtain ⟨data, -, hok⟩ := bind_eq_ok.mp (mapError_eq_ok.mp h)
      cases hok
      exact Or.inr ⟨_, data, rfl⟩

/-- A message is sent to every receiver, or to none. -/
theorem send_histories (cbor : ∀ kind, Cbor (Msg kind)) (self : PeerID) (msg : AnyMsg Msg)
    (receivers : List PeerID) (net : PeerNetwork Msg) :
    ((∀ peer, (net.step cbor (.send self msg receivers)).sentTo peer = net.sentTo peer) ∨
      ∀ peer, (net.step cbor (.send self msg receivers)).sentTo peer =
        net.sentTo peer ++ List.replicate (receivers.count peer) (self, msg)) ∧
    (net.step cbor (.send self msg receivers)).taken = net.taken := by
  rw [step]
  cases hsend : net.send cbor self msg.2 receivers with
  | error err => exact ⟨Or.inl fun _ ↦ rfl, rfl⟩
  | ok net' =>
    rcases send_eq_ok hsend with rfl | ⟨protocolID, data, rfl⟩
    · exact ⟨Or.inl fun _ ↦ rfl, rfl⟩
    · obtain ⟨hsent, htaken⟩ := foldl_dispatch_histories self protocolID data msg receivers net
      exact ⟨Or.inr hsent, htaken⟩

theorem take_histories {peer : PeerID} {msg : AnyMsg Msg} {rest : List (AnyMsg Msg)}
    (hqueue : (net.hosts peer).receivedMsgs = msg :: rest) :
    (net.take peer).sentTo = net.sentTo ∧
      (net.take peer).taken = Function.update net.taken peer (net.taken peer ++ [msg]) := by
  unfold take
  rw [hqueue]
  exact ⟨rfl, rfl⟩

theorem accept_histories (i : ℕ) (setReadDeadline : Except Err Unit) (chunks : List (List UInt8))
    (ending : ReadError) (net : PeerNetwork Msg) :
    (net.accept i setReadDeadline chunks ending).sentTo = net.sentTo ∧
      (net.accept i setReadDeadline chunks ending).taken = net.taken := by
  unfold accept
  split
  · exact ⟨rfl, rfl⟩
  · split
    · split <;> exact ⟨rfl, rfl⟩
    · exact ⟨rfl, rfl⟩

theorem read_histories (cbor : ∀ kind, Cbor (Msg kind)) (i : ℕ) (net : PeerNetwork Msg) :
    (net.read cbor i).sentTo = net.sentTo ∧ (net.read cbor i).taken = net.taken := by
  unfold read
  split
  · exact ⟨rfl, rfl⟩
  · split
    · exact ⟨rfl, rfl⟩
    · split <;> exact ⟨rfl, rfl⟩

end PeerNetwork

end FinalityGadget
