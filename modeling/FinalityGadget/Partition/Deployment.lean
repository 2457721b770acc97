import FinalityGadget.Network.ValidatorNetwork
import FinalityGadget.Partition.Answers

/-!
# Validators on the network

The nodes of the shard run on the network: a message that a node takes out of its channel is the
next event of its main loop, and what a turn sends is handed to the network at its end. Root nodes
send certification responses. Messages are lost, delayed and reordered, and every other event of the
main loops happens at any time in between.

A validator's request for blocks carries its name, every other validator answers it at most once,
and no answer is doubled on the way.
-/

namespace FinalityGadget

open Bytes Fallible

variable {C : Type}

/-! ## What a turn posts -/

/-- Proposals and replication requests are in the name of the node. -/
def Message.InName (lib : BaseLibrary C) (conf : NodeConf) : Message C → Prop
  | .blockProposal prop => prop.nodeID = conf.peerID
  | .replicationRequest request => request.nodeID = lib.peerIDString conf.peerID
  | _ => True

/-- The node has sent more messages than before. -/
def Posts (lib : BaseLibrary C) (conf : NodeConf) (n n' : Node C) : Prop :=
  ∃ news, n'.sent = n.sent ++ news ∧ ∀ sent ∈ news, sent.message.InName lib conf

section Posts

variable {lib : BaseLibrary C} {conf : NodeConf} {env : Env} {n m n' : Node C}

theorem posts_of_sent (h : n'.sent = n.sent) : Posts lib conf n n' :=
  ⟨[], h.trans (List.append_nil _).symm, by simp⟩

theorem Posts.trans (h : Posts lib conf n m) (h' : Posts lib conf m n') : Posts lib conf n n' := by
  obtain ⟨news, hsent, hnames⟩ := h
  obtain ⟨news', hsent', hnames'⟩ := h'
  refine ⟨news ++ news', ?_, List.forall_mem_append.mpr ⟨hnames, hnames'⟩⟩
  rw [hsent', hsent, List.append_assoc]

theorem posts_post (n : Node C) {message : Message C} (receivers : List PeerID)
    (h : message.InName lib conf) : Posts lib conf n (n.post message receivers) :=
  ⟨[⟨message, receivers, n.toNodeState⟩], rfl, List.forall_mem_singleton.mpr h⟩

theorem Message.Routine.inName {message : Message C} (h : message.Routine lib conf) :
    message.InName lib conf := by
  cases message with
  | replicationRequest request => exact h
  | handshake msg => trivial
  | _ => exact h.elim

theorem Message.Campaign.inName {message : Message C} (h : message.Campaign conf) :
    message.InName lib conf := by
  cases message with
  | blockProposal prop => exact h
  | certificationRequest request => trivial
  | _ => exact h.elim

theorem Campaigns.posts (h : Campaigns conf n n') : Posts lib conf n n' := by
  obtain ⟨⟨news, hsent, hnews⟩, -⟩ := h
  exact ⟨news, hsent, fun sent hmem ↦ (hnews sent hmem).inName⟩

theorem carries_posts (lib : BaseLibrary C) (conf : NodeConf) :
    Carries lib conf (fun _ ↦ True) (Posts lib conf) where
  trans h h' := h.trans h'
  kept hsent _ _ := posts_of_sent hsent
  routine n _ receivers hroutine := posts_post n receivers hroutine.inName
  remembers _ _ _ := posts_of_sent rfl
  proposes h := h.campaigns.posts
  votes _ _ _ _ _ h := h.campaigns.posts

theorem posts_sendResponse (msg : LedgerReplicationResponse C) (toId : String) (n : Node C) :
    Posts lib conf n (final ((sendLedgerReplicationResponse lib env msg toId).run n)) := by
  unfold sendLedgerReplicationResponse
  cases lib.decodePeerID toId with
  | error err => exact posts_of_sent rfl
  | ok id =>
    have hpost : Posts lib conf n (n.post (.replicationResponse msg) [id]) :=
      posts_post n [id] trivial
    cases env.sendResponse <;> exact hpost

/-- A turn adds to the messages, and proposes and asks for blocks in its own name only. -/
theorem step_posts (lib : BaseLibrary C) (conf : NodeConf) (n : Node C) (input : Input C) :
    Posts lib conf n (step lib conf n input) := by
  cases hservice : input.event.isService with
  | false =>
    refine (carries_posts lib conf).step ?_ (fun _ _ ↦ trivial) hservice
    unfold Event.Delivers
    split <;> trivial
  | true =>
    apply step_service _ _ _ hservice
    · exact fun h h' ↦ h.trans h'
    · exact fun _ _ ↦ posts_of_sent rfl
    · exact fun _ msg toId n ↦ posts_sendResponse msg toId n

end Posts

/-! ## Nodes and network -/

/-- A message as the network carries it. -/
def Message.toAny : Message C → AnyMsg (ValidatorMsg C)
  | .handshake msg => ⟨.handshake, msg⟩
  | .blockProposal msg => ⟨.blockProposal, msg⟩
  | .certificationRequest msg => ⟨.blockCertificationRequest, msg⟩
  | .replicationRequest msg => ⟨.ledgerReplicationRequest, msg⟩
  | .replicationResponse msg => ⟨.ledgerReplicationResponse, msg⟩

theorem Message.toAny_injective : Function.Injective (Message.toAny (C := C)) := by
  intro message message' h
  cases message <;> cases message' <;> cases h <;> rfl

/-- The handler of the main loop that a message goes to. -/
def handleMessage (formats : Formats MessageKind) : AnyMsg (ValidatorMsg C) → Except Err (Event C)
  | ⟨.certificationResponse, msg⟩ => .ok (.certificationResponse (some msg))
  | ⟨.blockProposal, msg⟩ => .ok (.blockProposal (some msg))
  | ⟨.ledgerReplicationRequest, msg⟩ => .ok (.ledgerReplicationRequest (some msg))
  | ⟨.ledgerReplicationResponse, msg⟩ => .ok (.ledgerReplicationResponse (some msg))
  | ⟨kind, _⟩ => .error s!"unknown message: {formats.typeName kind}"

theorem handleMessage_of_handled (formats : Formats MessageKind) {msg : AnyMsg (ValidatorMsg C)}
    (h : msg.1.Handled) : ∃ event, handleMessage formats msg = .ok event := by
  obtain ⟨kind, msg⟩ := msg
  cases kind with
  | blockCertificationRequest => exact absurd rfl h.1
  | handshake => exact absurd rfl h.2
  | _ => exact ⟨_, rfl⟩

/-- The event is a message. -/
def Event.isMessage : Event C → Bool
  | .certificationResponse _ => true
  | .blockProposal _ => true
  | .ledgerReplicationRequest _ => true
  | .ledgerReplicationResponse _ => true
  | _ => false

structure Deployment (C : Type) where
  net : PeerNetwork (ValidatorMsg C)
  nodes : PeerID → Node C

inductive DeploymentEvent (C : Type) where
  | network (event : NetworkEvent (ValidatorMsg C))
  /-- The main loop of a validator gets the next message of its channel. -/
  | receive (peer : PeerID) (envs : ℕ → Env)
  /-- Any other event of the main loop or a turn of a replication worker. -/
  | turn (peer : PeerID) (input : Input C)

namespace Deployment

variable (lib : BaseLibrary C) (confs : PeerID → NodeConf)
  (cbor : ∀ kind, Cbor (ValidatorMsg C kind)) (formats : Formats MessageKind)

/-- Hand messages to the network, one after the other. -/
def post (peer : PeerID) (news : List (Sent C)) (net : PeerNetwork (ValidatorMsg C)) :
    PeerNetwork (ValidatorMsg C) :=
  Run.run (PeerNetwork.step cbor) net
    (news.map fun sent ↦ .send peer sent.message.toAny sent.receivers)

def turn (d : Deployment C) (peer : PeerID) (input : Input C) : Deployment C :=
  let node := FinalityGadget.step lib (confs peer) (d.nodes peer) input
  { net := post cbor peer (node.sent.drop (d.nodes peer).sent.length) d.net
    nodes := Function.update d.nodes peer node }

def receive (d : Deployment C) (peer : PeerID) (envs : ℕ → Env) : Deployment C :=
  match (d.net.hosts peer).receivedMsgs with
  | [] => d
  | msg :: _ =>
    let taken := { d with net := d.net.take peer }
    match handleMessage formats msg with
    | .error _ => taken
    | .ok event => taken.turn lib confs cbor peer ⟨event, envs⟩

def step (d : Deployment C) : DeploymentEvent C → Deployment C
  | .network event => { d with net := d.net.step cbor event }
  | .receive peer envs => d.receive lib confs cbor formats peer envs
  | .turn peer input => d.turn lib confs cbor peer input

end Deployment

/-- Root nodes send certification responses, and only validators run the main loop. -/
def DeploymentEvent.Allowed (validators : Finset PeerID) : DeploymentEvent C → Prop
  | .network (.register _ protocols) => protocols ⊆ validatorProtocols
  | .network (.send peer msg _) => peer ∉ validators ∧ msg.1 = .certificationResponse
  | .network (.sendMsgs _ _ _ _ _) => False
  | .network (.take peer) => peer ∉ validators
  | .network (.accept _ _ _ _) => True
  | .network (.read _) => True
  | .receive peer _ => peer ∈ validators
  | .turn peer input => peer ∈ validators ∧ input.event.isMessage = false

/-! ## Requests and responses -/

/-- The request that a message answers. -/
def responseID : AnyMsg (ValidatorMsg C) → Option ℕ
  | ⟨.ledgerReplicationResponse, msg⟩ => some (LedgerReplicationResponse.uuid msg)
  | _ => none

/-- The request that a peer has sent. -/
def ownRequest (peer : PeerID) : PeerID × AnyMsg (ValidatorMsg C) → Option ℕ
  | (sender, ⟨.ledgerReplicationRequest, msg⟩) =>
    if sender = peer then some (LedgerReplicationRequest.uuid msg) else none
  | _ => none

/-- The answer that a message asks for. -/
def AnyMsg.asks (lib : BaseLibrary C) : AnyMsg (ValidatorMsg C) → Option (List PeerID × ℕ)
  | ⟨.ledgerReplicationRequest, msg⟩ => Event.asks lib (.ledgerReplicationRequest (some msg))
  | _ => none

/-- The request of the peer that an answer is for. -/
def answerFor (peer : PeerID) (answer : List PeerID × ℕ) : Option ℕ :=
  if answer.1 = [peer] then some answer.2 else none

namespace Deployment

/-- The replication responses that were sent to a peer. -/
def responsesTo (net : PeerNetwork (ValidatorMsg C)) (peer : PeerID) : Multiset ℕ :=
  (net.messagesTo peer : Multiset (AnyMsg (ValidatorMsg C))).filterMap responseID

/-- The answers for a peer that are among the answers. -/
def answersFor (peer : PeerID) (answers : List (List PeerID × ℕ)) : Multiset ℕ :=
  (answers : Multiset (List PeerID × ℕ)).filterMap (answerFor peer)

section Posting

variable (cbor : ∀ kind, Cbor (ValidatorMsg C kind)) (net : PeerNetwork (ValidatorMsg C))
  (peer : PeerID)

theorem filterMap_replicate_of_none (count : ℕ) {msg : AnyMsg (ValidatorMsg C)}
    (h : responseID msg = none) : (Multiset.replicate count msg).filterMap responseID = 0 := by
  refine Multiset.eq_zero_of_forall_notMem fun uuid hmem ↦ ?_
  obtain ⟨msg', hmsg, huuid⟩ := (Multiset.mem_filterMap _ _).mp hmem
  rw [Multiset.eq_of_mem_replicate hmsg, h] at huuid
  cases huuid

theorem answersFor_append (peer : PeerID) (answers answers' : List (List PeerID × ℕ)) :
    answersFor peer (answers ++ answers') = answersFor peer answers + answersFor peer answers' := by
  rw [answersFor, ← Multiset.coe_add, Multiset.filterMap_add]
  rfl

/-- Sending a message as often as a peer is among its receivers. -/
theorem responsesTo_send_le (msg : AnyMsg (ValidatorMsg C)) (receivers : List PeerID)
    (receiver : PeerID) :
    responsesTo (net.step cbor (.send peer msg receivers)) receiver ≤ responsesTo net receiver +
      (Multiset.replicate (receivers.count receiver) msg).filterMap responseID := by
  obtain ⟨hnone | hsent, -⟩ := PeerNetwork.send_histories cbor peer msg receivers net
  · rw [responsesTo, PeerNetwork.messagesTo, hnone]
    exact Multiset.le_add_right _ _
  · have hmessages : (net.step cbor (.send peer msg receivers)).messagesTo receiver =
        net.messagesTo receiver ++ List.replicate (receivers.count receiver) msg := by
      rw [PeerNetwork.messagesTo, hsent, List.map_append, List.map_replicate]
      rfl
    rw [responsesTo, hmessages, ← Multiset.coe_add, Multiset.filterMap_add, Multiset.coe_replicate]
    exact le_rfl

/-- A response goes to the one who asked for it, if it is sent at all. -/
theorem responsesTo_send {sent : Sent C} (hsingle : ∀ answer, sent.answer = some answer →
    ∃ id, answer.1 = [id]) (receiver : PeerID) :
    responsesTo (net.step cbor (.send peer sent.message.toAny sent.receivers)) receiver ≤
      responsesTo net receiver + answersFor receiver sent.answer.toList := by
  refine (responsesTo_send_le cbor net peer _ _ receiver).trans (add_le_add_right ?_ _)
  cases hmessage : sent.message with
  | replicationResponse msg =>
    have hanswer : sent.answer = some (sent.receivers, msg.uuid) := by rw [Sent.answer, hmessage]
    obtain ⟨id, hid⟩ := hsingle _ hanswer
    have hid : sent.receivers = [id] := hid
    rw [hanswer, hid]
    by_cases h : id = receiver
    · subst h
      have hfor : answerFor id ([id], msg.uuid) = some msg.uuid := if_pos rfl
      have hone : answersFor id [([id], msg.uuid)] = {msg.uuid} :=
        Multiset.filterMap_cons_some (answerFor id) ([id], msg.uuid) 0 hfor
      rw [List.count_singleton_self, Option.toList_some, hone]
      exact le_rfl
    · rw [List.count_singleton, if_neg (by simpa using h), Multiset.replicate_zero]
      exact Multiset.zero_le _
  | _ =>
    rw [filterMap_replicate_of_none _ rfl]
    exact Multiset.zero_le _

theorem responsesTo_post {news : List (Sent C)} (hsingle : ∀ sent ∈ news, ∀ answer,
    sent.answer = some answer → ∃ id, answer.1 = [id]) (receiver : PeerID) :
    responsesTo (post cbor peer news net) receiver ≤
      responsesTo net receiver + answersFor receiver (news.filterMap Sent.answer) := by
  induction news generalizing net with
  | nil => exact Multiset.le_add_right _ _
  | cons sent news ih =>
    rw [List.forall_mem_cons] at hsingle
    have hfirst := responsesTo_send cbor net peer hsingle.1 receiver
    have hrest := ih (net.step cbor (.send peer sent.message.toAny sent.receivers)) hsingle.2
    have hsplit : (sent :: news).filterMap Sent.answer =
        sent.answer.toList ++ news.filterMap Sent.answer := by
      cases hanswer : sent.answer <;> simp [hanswer]
    rw [hsplit, answersFor_append, ← add_assoc]
    exact hrest.trans (add_le_add_left hfirst _)

/-- What holds of all messages still holds after sending one more. -/
theorem forall_sentTo_send {P : PeerID × AnyMsg (ValidatorMsg C) → Prop}
    {msg : AnyMsg (ValidatorMsg C)} (hmsg : P (peer, msg)) (receivers : List PeerID)
    (h : ∀ receiver, ∀ sent ∈ net.sentTo receiver, P sent) :
    ∀ receiver, ∀ sent ∈ (net.step cbor (.send peer msg receivers)).sentTo receiver, P sent := by
  intro receiver
  obtain ⟨hnone | hsent, -⟩ := PeerNetwork.send_histories cbor peer msg receivers net
  · rw [hnone]
    exact h receiver
  · rw [hsent, List.forall_mem_append]
    refine ⟨h receiver, fun sent hmem ↦ ?_⟩
    rw [List.eq_of_mem_replicate hmem]
    exact hmsg

theorem forall_sentTo_post {P : PeerID × AnyMsg (ValidatorMsg C) → Prop} {news : List (Sent C)}
    (hnews : ∀ sent ∈ news, P (peer, sent.message.toAny))
    (h : ∀ receiver, ∀ sent ∈ net.sentTo receiver, P sent) :
    ∀ receiver, ∀ sent ∈ (post cbor peer news net).sentTo receiver, P sent := by
  induction news generalizing net with
  | nil => exact h
  | cons sent news ih =>
    rw [List.forall_mem_cons] at hnews
    exact ih _ hnews.2 (forall_sentTo_send cbor net peer hnews.1 sent.receivers h)

theorem taken_post (news : List (Sent C)) : (post cbor peer news net).taken = net.taken := by
  induction news generalizing net with
  | nil => rfl
  | cons sent news ih =>
    exact (ih _).trans (PeerNetwork.send_histories cbor peer _ _ net).2

end Posting

/-! ## The invariant -/

/-- Replication requests are sent by validators, each in its own name. -/
def Named (lib : BaseLibrary C) (validators : Finset PeerID)
    (sent : PeerID × AnyMsg (ValidatorMsg C)) : Prop :=
  ∀ request, sent.2 = ⟨.ledgerReplicationRequest, request⟩ → sent.1 ∈ validators ∧
    LedgerReplicationRequest.nodeID request = lib.peerIDString sent.1

theorem named_of_inName {lib : BaseLibrary C} {conf : NodeConf} {validators : Finset PeerID}
    {peer : PeerID} (hmem : peer ∈ validators) (hpeer : conf.peerID = peer) {message : Message C}
    (h : message.InName lib conf) : Named lib validators (peer, message.toAny) := by
  intro request hrequest
  have hmessage : message = .replicationRequest request := Message.toAny_injective hrequest
  rw [hmessage] at h
  exact ⟨hmem, hpeer ▸ h⟩

/-- Only a replication request asks for an answer, and the answer is for the peer it names. -/
theorem asks_eq_some {lib : BaseLibrary C} {msg : AnyMsg (ValidatorMsg C)}
    {answer : List PeerID × ℕ} (h : AnyMsg.asks lib msg = some answer) :
    ∃ (request : LedgerReplicationRequest) (id : PeerID),
      msg = ⟨.ledgerReplicationRequest, request⟩ ∧ lib.decodePeerID request.nodeID = .ok id ∧
        answer = ([id], request.uuid) := by
  obtain ⟨kind, msg⟩ := msg
  cases kind with
  | ledgerReplicationRequest =>
    let request : LedgerReplicationRequest := msg
    have hasks : Event.asks lib (.ledgerReplicationRequest (some request)) = some answer := h
    unfold Event.asks at hasks
    have hanswer : request.answerTo lib = some answer := by
      dsimp only at hasks
      split at hasks
      · exact hasks
      · cases hasks
    unfold LedgerReplicationRequest.answerTo at hanswer
    split at hanswer
    · rename_i id hid
      exact ⟨request, id, rfl, hid, (Option.some.inj hanswer).symm⟩
    · cases hanswer
  | _ => cases h

/-- The messages that were taken have been handled, and the responses that were sent are answers of
the validators. -/
structure Served (lib : BaseLibrary C) (confs : PeerID → NodeConf)
    (cbor : ∀ kind, Cbor (ValidatorMsg C kind)) (validators : Finset PeerID) (d : Deployment C) :
    Prop where
  faithful : PeerNetwork.Faithful cbor MessageKind.protocolID d.net
  accounted : ∀ peer ∈ validators, Accounted lib (confs peer)
    ((d.net.taken peer).filterMap (AnyMsg.asks lib)) (d.nodes peer)
  answered : ∀ receiver, responsesTo d.net receiver ≤
    ∑ sender ∈ validators, answersFor receiver (d.nodes sender).answers
  named : ∀ receiver, ∀ sent ∈ d.net.sentTo receiver, Named lib validators sent

section Served

variable {lib : BaseLibrary C} {confs : PeerID → NodeConf}
  {cbor : ∀ kind, Cbor (ValidatorMsg C kind)} {formats : Formats MessageKind}
  {validators : Finset PeerID} {d : Deployment C}

theorem faithful_of_step (hcbor : ∀ kind, (cbor kind).Lawful)
    (hwhole : ∀ kind, (cbor kind).PrefixFree) {net : PeerNetwork (ValidatorMsg C)}
    (h : PeerNetwork.Faithful cbor MessageKind.protocolID net)
    {event : NetworkEvent (ValidatorMsg C)} (hevent : ValidatorEvent event) :
    PeerNetwork.Faithful cbor MessageKind.protocolID (net.step cbor event) :=
  faithful_run hcbor hwhole h (List.forall_mem_singleton.mpr hevent)

/-- A turn of a validator, after the network has handed over what is handled in it. -/
theorem Served.turn (hcbor : ∀ kind, (cbor kind).Lawful)
    (hwhole : ∀ kind, (cbor kind).PrefixFree) {peer : PeerID} (hmem : peer ∈ validators)
    (hpeer : (confs peer).peerID = peer) {input : Input C} {net : PeerNetwork (ValidatorMsg C)}
    (h : Served lib confs cbor validators d)
    (hfaithful : PeerNetwork.Faithful cbor MessageKind.protocolID net)
    (hsent : net.sentTo = d.net.sentTo)
    (htaken : ∀ other, (net.taken other).filterMap (AnyMsg.asks lib) =
      (d.net.taken other).filterMap (AnyMsg.asks lib) ++
        if other = peer then (input.event.asks lib).toList else []) :
    Served lib confs cbor validators
      (Deployment.turn lib confs cbor { d with net := net } peer input) := by
  obtain ⟨news, hnews, hnames⟩ := step_posts lib (confs peer) (d.nodes peer) input
  have hdrop : (FinalityGadget.step lib (confs peer) (d.nodes peer) input).sent.drop
      (d.nodes peer).sent.length = news := by rw [hnews, List.drop_left]
  have haccounted : Accounted lib (confs peer) ((net.taken peer).filterMap (AnyMsg.asks lib))
      (FinalityGadget.step lib (confs peer) (d.nodes peer) input) := by
    rw [htaken peer, if_pos rfl]
    exact (h.accounted peer hmem).step input
  have hanswers : (FinalityGadget.step lib (confs peer) (d.nodes peer) input).answers =
      (d.nodes peer).answers ++ news.filterMap Sent.answer := by
    rw [Node.answers, hnews, List.filterMap_append]
    rfl
  unfold Deployment.turn
  dsimp only
  rw [hdrop]
  generalize FinalityGadget.step lib (confs peer) (d.nodes peer) input = node at *
  constructor
  case faithful =>
    refine faithful_run hcbor hwhole hfaithful fun event hevent ↦ ?_
    obtain ⟨sent, -, rfl⟩ := List.mem_map.mp hevent
    trivial
  case accounted =>
    intro other hother
    rw [taken_post]
    dsimp only
    by_cases heq : other = peer
    · subst heq
      rw [Function.update_self]
      exact haccounted
    · rw [Function.update_of_ne heq, htaken other, if_neg heq, List.append_nil]
      exact h.accounted other hother
  case answered =>
    intro receiver
    have hsingle : ∀ sent ∈ news, ∀ answer, sent.answer = some answer → ∃ id, answer.1 = [id] := by
      intro sent hsent answer hanswer
      have hmem : answer ∈ node.answers := by
        refine hanswers ▸ List.mem_append_right _ ?_
        exact List.mem_filterMap.mpr ⟨sent, hsent, hanswer⟩
      obtain ⟨msg, -, hasks⟩ := List.mem_filterMap.mp
        (Multiset.mem_coe.mp (Multiset.mem_of_le haccounted.answers_le (Multiset.mem_coe.mpr hmem)))
      obtain ⟨request, id, -, -, rfl⟩ := asks_eq_some hasks
      exact ⟨id, rfl⟩
    have hgrown : ∑ sender ∈ validators,
        answersFor receiver (Function.update d.nodes peer node sender).answers =
        ∑ sender ∈ validators, answersFor receiver (d.nodes sender).answers +
          answersFor receiver (news.filterMap Sent.answer) := by
      refine Pool.sum_of_grown hmem ?_ fun other hother ↦ ?_
      · rw [Function.update_self, hanswers, answersFor_append]
      · rw [Function.update_of_ne hother]
    have hbefore : responsesTo net receiver = responsesTo d.net receiver := by
      rw [responsesTo, PeerNetwork.messagesTo, hsent]
      rfl
    calc responsesTo (post cbor peer news net) receiver
        ≤ responsesTo net receiver + answersFor receiver (news.filterMap Sent.answer) :=
          responsesTo_post cbor net peer hsingle receiver
      _ ≤ _ := by
          rw [hbefore, hgrown]
          exact add_le_add_left (h.answered receiver) _
  case named =>
    refine forall_sentTo_post cbor net peer (fun sent hsent ↦ ?_) (hsent ▸ h.named)
    exact named_of_inName hmem hpeer (hnames sent hsent)

/-- The network moves messages that are not handled yet. -/
theorem Served.moved {net : PeerNetwork (ValidatorMsg C)} (h : Served lib confs cbor validators d)
    (hfaithful : PeerNetwork.Faithful cbor MessageKind.protocolID net)
    (hsent : net.sentTo = d.net.sentTo)
    (htaken : ∀ peer ∈ validators, (net.taken peer).filterMap (AnyMsg.asks lib) =
      (d.net.taken peer).filterMap (AnyMsg.asks lib)) :
    Served lib confs cbor validators { d with net := net } where
  faithful := hfaithful
  accounted peer hmem := by
    dsimp only
    rw [htaken peer hmem]
    exact h.accounted peer hmem
  answered receiver := by
    have hbefore : responsesTo net receiver = responsesTo d.net receiver := by
      rw [responsesTo, PeerNetwork.messagesTo, hsent]
      rfl
    exact hbefore.trans_le (h.answered receiver)
  named := by
    dsimp only
    rw [hsent]
    exact h.named

/-- A root node sends a certification response. -/
theorem Served.root (h : Served lib confs cbor validators d) {peer : PeerID}
    {msg : AnyMsg (ValidatorMsg C)} (hkind : msg.1 = .certificationResponse)
    (receivers : List PeerID)
    (hfaithful : PeerNetwork.Faithful cbor MessageKind.protocolID
      (d.net.step cbor (.send peer msg receivers))) :
    Served lib confs cbor validators
      { d with net := d.net.step cbor (.send peer msg receivers) } := by
  obtain ⟨kind, msg⟩ := msg
  cases hkind
  refine ⟨hfaithful, fun peer' hmem ↦ ?_, fun receiver ↦ ?_, ?_⟩
  · dsimp only
    rw [(PeerNetwork.send_histories cbor peer _ receivers d.net).2]
    exact h.accounted peer' hmem
  · have hnone := filterMap_replicate_of_none (receivers.count receiver)
      (rfl : responseID (⟨.certificationResponse, msg⟩ : AnyMsg (ValidatorMsg C)) = none)
    have hsend :=
      responsesTo_send_le cbor d.net peer ⟨.certificationResponse, msg⟩ receivers receiver
    rw [hnone, add_zero] at hsend
    exact hsend.trans (h.answered receiver)
  · exact forall_sentTo_send cbor d.net peer (by rintro request ⟨⟩) receivers h.named

theorem asks_handleMessage {msg : AnyMsg (ValidatorMsg C)} {event : Event C}
    (h : handleMessage formats msg = .ok event) : event.asks lib = AnyMsg.asks lib msg := by
  obtain ⟨kind, msg⟩ := msg
  cases kind <;> cases h <;> rfl

theorem asks_of_unknown {msg : AnyMsg (ValidatorMsg C)} {err : Err}
    (h : handleMessage formats msg = .error err) : AnyMsg.asks lib msg = none := by
  obtain ⟨kind, msg⟩ := msg
  cases kind with
  | handshake | blockCertificationRequest => rfl
  | _ => cases h

theorem filterMap_asks_taken {net : PeerNetwork (ValidatorMsg C)} {peer : PeerID}
    {msg : AnyMsg (ValidatorMsg C)} {rest : List (AnyMsg (ValidatorMsg C))}
    (hqueue : (net.hosts peer).receivedMsgs = msg :: rest) (other : PeerID) :
    ((net.take peer).taken other).filterMap (AnyMsg.asks lib) =
      (net.taken other).filterMap (AnyMsg.asks lib) ++
        if other = peer then (AnyMsg.asks lib msg).toList else [] := by
  rw [(PeerNetwork.take_histories hqueue).2, Function.update_apply]
  split
  · rename_i heq
    subst heq
    rw [List.filterMap_append]
    cases hasks : AnyMsg.asks lib msg <;> simp [hasks]
  · rw [List.append_nil]

theorem Served.receive (hcbor : ∀ kind, (cbor kind).Lawful)
    (hwhole : ∀ kind, (cbor kind).PrefixFree) {peer : PeerID} (hmem : peer ∈ validators)
    (hpeer : (confs peer).peerID = peer) (h : Served lib confs cbor validators d)
    (envs : ℕ → Env) :
    Served lib confs cbor validators (d.receive lib confs cbor formats peer envs) := by
  unfold Deployment.receive
  split
  · exact h
  · rename_i msg rest hqueue
    have hfaithful : PeerNetwork.Faithful cbor MessageKind.protocolID
        (d.net.step cbor (.take peer)) := faithful_of_step hcbor hwhole h.faithful trivial
    have hsent := (PeerNetwork.take_histories hqueue).1
    have htaken : ∀ other, ((d.net.take peer).taken other).filterMap (AnyMsg.asks lib) =
        (d.net.taken other).filterMap (AnyMsg.asks lib) ++
          if other = peer then (AnyMsg.asks lib msg).toList else [] := filterMap_asks_taken hqueue
    split
    · rename_i err hunknown
      refine h.moved hfaithful hsent fun other _ ↦ ?_
      rw [htaken other, asks_of_unknown hunknown, Option.toList_none, ite_self, List.append_nil]
    · rename_i event hevent
      rw [← asks_handleMessage hevent] at htaken
      exact h.turn hcbor hwhole hmem hpeer hfaithful hsent htaken

theorem Served.step (hcbor : ∀ kind, (cbor kind).Lawful)
    (hwhole : ∀ kind, (cbor kind).PrefixFree)
    (hpeers : ∀ peer ∈ validators, (confs peer).peerID = peer)
    (h : Served lib confs cbor validators d) {event : DeploymentEvent C}
    (hallowed : event.Allowed validators) :
    Served lib confs cbor validators (d.step lib confs cbor formats event) := by
  cases event with
  | receive peer envs => exact h.receive hcbor hwhole hallowed (hpeers peer hallowed) envs
  | turn peer input =>
    obtain ⟨hmem, hmessage⟩ := hallowed
    refine h.turn hcbor hwhole hmem (hpeers peer hmem) h.faithful rfl fun other ↦ ?_
    have hnone : input.event.asks lib = none := by
      cases hevent : input.event with
      | ledgerReplicationRequest request =>
        rw [hevent] at hmessage
        cases hmessage
      | _ => rfl
    rw [hnone, Option.toList_none, ite_self, List.append_nil]
  | network event =>
    cases event with
    | register peer protocols =>
      have hevent : ValidatorEvent (.register peer protocols : NetworkEvent (ValidatorMsg C)) :=
        hallowed
      exact h.moved (faithful_of_step hcbor hwhole h.faithful hevent) rfl fun _ _ ↦ rfl
    | send peer msg receivers =>
      exact h.root hallowed.2 receivers (faithful_of_step hcbor hwhole h.faithful trivial)
    | sendMsgs peer env kind msgs receiver => exact hallowed.elim
    | accept i setReadDeadline chunks ending =>
      have hkept := PeerNetwork.accept_histories i setReadDeadline chunks ending d.net
      refine h.moved (faithful_of_step hcbor hwhole h.faithful trivial) hkept.1 fun peer _ ↦ ?_
      exact congrArg (fun taken ↦ (taken peer).filterMap (AnyMsg.asks lib)) hkept.2
    | read i =>
      have hkept := PeerNetwork.read_histories cbor i d.net
      refine h.moved (faithful_of_step hcbor hwhole h.faithful trivial) hkept.1 fun peer _ ↦ ?_
      exact congrArg (fun taken ↦ (taken peer).filterMap (AnyMsg.asks lib)) hkept.2
    | take peer =>
      have hfaithful : PeerNetwork.Faithful cbor MessageKind.protocolID
          (d.net.step cbor (.take peer)) := faithful_of_step hcbor hwhole h.faithful trivial
      cases hqueue : (d.net.hosts peer).receivedMsgs with
      | nil =>
        have hsame : d.net.step cbor (.take peer) = d.net := by
          rw [PeerNetwork.step, PeerNetwork.take, hqueue]
        refine h.moved hfaithful ?_ fun _ _ ↦ ?_ <;> rw [hsame]
      | cons msg rest =>
        refine h.moved hfaithful (PeerNetwork.take_histories hqueue).1 fun other hother ↦ ?_
        have hne : other ≠ peer := fun heq ↦ hallowed (heq ▸ hother)
        rw [PeerNetwork.step, filterMap_asks_taken hqueue, if_neg hne, List.append_nil]

theorem served_start {hosts : PeerID → LibP2PNetwork (ValidatorMsg C)}
    (hhosts : ∀ peer, NewPeer formats (hosts peer)) {nodes : PeerID → Node C}
    (hnodes : ∀ peer ∈ validators, ∃ store, Starts lib (confs peer) store (nodes peer)) :
    Served lib confs cbor validators { net := { hosts := hosts }, nodes := nodes } where
  faithful := faithful_start hhosts
  accounted peer hmem := by
    obtain ⟨store, hstarts⟩ := hnodes peer hmem
    exact hstarts.accounted
  answered _ := Multiset.zero_le _
  named _ _ hmem := absurd hmem List.not_mem_nil

/-- The requests that a validator was asked to answer for a peer are requests of that peer. -/
theorem Served.answers_le
    (hids : ∀ peer ∈ validators, lib.decodePeerID (lib.peerIDString peer) = .ok peer)
    (h : Served lib confs cbor validators d) {other : PeerID} (hmem : other ∈ validators)
    (peer : PeerID) :
    answersFor peer (d.nodes other).answers ≤
      (d.net.sentTo other : Multiset (PeerID × AnyMsg (ValidatorMsg C))).filterMap
        (ownRequest peer) := by
  let asksFor (msg : AnyMsg (ValidatorMsg C)) : Option ℕ :=
    (AnyMsg.asks lib msg).bind (answerFor peer)
  have hasked : ((d.nodes other).answers : Multiset (List PeerID × ℕ)) ≤
      (d.net.taken other : Multiset (AnyMsg (ValidatorMsg C))).filterMap (AnyMsg.asks lib) := by
    exact (h.accounted other hmem).answers_le
  have htaken : (d.net.taken other : Multiset (AnyMsg (ValidatorMsg C))) ≤
      d.net.messagesTo other := by
    have haccounted := h.faithful.accounted other
    rw [PeerNetwork.received, ← Multiset.coe_add, add_assoc] at haccounted
    exact (Multiset.le_add_right _ _).trans haccounted
  calc answersFor peer (d.nodes other).answers
      ≤ ((d.net.taken other : Multiset (AnyMsg (ValidatorMsg C))).filterMap
          (AnyMsg.asks lib)).filterMap (answerFor peer) :=
        Multiset.filterMap_le_filterMap _ hasked
    _ = (d.net.taken other : Multiset (AnyMsg (ValidatorMsg C))).filterMap asksFor :=
        Multiset.filterMap_filterMap _ _ _
    _ ≤ (d.net.messagesTo other : Multiset (AnyMsg (ValidatorMsg C))).filterMap asksFor :=
        Multiset.filterMap_le_filterMap _ htaken
    _ = (d.net.sentTo other : Multiset (PeerID × AnyMsg (ValidatorMsg C))).filterMap
          (asksFor ∘ Prod.snd) := by
        rw [PeerNetwork.messagesTo, ← Multiset.map_coe, Multiset.filterMap_map]
    _ ≤ _ := by
        refine Pool.filterMap_le_of_imp fun sent hsent uuid huuid ↦ ?_
        obtain ⟨answer, hasks, hfor⟩ := Option.bind_eq_some_iff.mp huuid
        obtain ⟨request, id, hmsg, hid, rfl⟩ := asks_eq_some hasks
        obtain ⟨sender, msg⟩ := sent
        cases hmsg
        -- the request names its sender, and so does the answer
        obtain ⟨hsender, hname⟩ := h.named other _ hsent request rfl
        have hname : request.nodeID = lib.peerIDString sender := hname
        rw [hname, hids sender hsender, Except.ok.injEq] at hid
        subst hid
        unfold answerFor at hfor
        split at hfor
        · rename_i hpeer
          obtain ⟨rfl, -⟩ := List.cons.inj hpeer
          exact (if_pos rfl).trans hfor
        · cases hfor

end Served

end Deployment

open Deployment

/-- While the validators run, whatever happens on the network, the replication responses that a peer
has received answer its own requests: one response at most for every request and every validator
that the request was sent to. -/
theorem responses_answer_own_requests {lib : BaseLibrary C} {confs : PeerID → NodeConf}
    {cbor : ∀ kind, Cbor (ValidatorMsg C kind)} {formats : Formats MessageKind}
    {validators : Finset PeerID} (hcbor : ∀ kind, (cbor kind).Lawful)
    (hwhole : ∀ kind, (cbor kind).PrefixFree)
    (hids : ∀ peer ∈ validators, lib.decodePeerID (lib.peerIDString peer) = .ok peer)
    (hpeers : ∀ peer ∈ validators, (confs peer).peerID = peer)
    {hosts : PeerID → LibP2PNetwork (ValidatorMsg C)}
    (hhosts : ∀ peer, NewPeer formats (hosts peer)) {nodes : PeerID → Node C}
    (hnodes : ∀ peer ∈ validators, ∃ store, Starts lib (confs peer) store (nodes peer))
    {events : List (DeploymentEvent C)} (hevents : ∀ event ∈ events, event.Allowed validators)
    (peer : PeerID) :
    let d := Run.run (Deployment.step lib confs cbor formats)
      { net := { hosts := hosts }, nodes := nodes } events
    (d.net.received peer : Multiset (AnyMsg (ValidatorMsg C))).filterMap responseID ≤
      ∑ other ∈ validators, (d.net.sentTo other : Multiset
        (PeerID × AnyMsg (ValidatorMsg C))).filterMap (ownRequest peer) := by
  intro d
  have hserved : Served lib confs cbor validators d :=
    Run.invariant_run (fun _ _ h hallowed ↦ h.step hcbor hwhole hpeers hallowed)
      (served_start hhosts hnodes) (Run.guarded_of_mem (fun event hmem _ ↦ hevents event hmem) _)
  have hreceived : (d.net.received peer : Multiset (AnyMsg (ValidatorMsg C))) ≤
      d.net.messagesTo peer :=
    le_trans (Multiset.le_add_right _ _) (hserved.faithful.accounted peer)
  calc (d.net.received peer : Multiset (AnyMsg (ValidatorMsg C))).filterMap responseID
      ≤ responsesTo d.net peer := Multiset.filterMap_le_filterMap _ hreceived
    _ ≤ ∑ other ∈ validators, answersFor peer (d.nodes other).answers := hserved.answered peer
    _ ≤ _ := Finset.sum_le_sum fun other hmem ↦ hserved.answers_le hids hmem peer

section Reference

open Reference

namespace Reference

def confs (id : PeerID) : NodeConf := conf id (if id = "A" then [1] else [2])

/-- The certificate of a block that neither of the validators has. -/
def aheadResponse : CertificationResponse := response (nextUC 8) (technical 4 "A")

/-- What `B` asks for when it gets the certificate. -/
def aheadRequest : LedgerReplicationRequest :=
  restarted.replicationRequest shardLibrary (confs "B") (env 10)

/-- What `A` answers. -/
def aheadReply : LedgerReplicationResponse UnicityCertificate where
  status := .blocksNotFound
  message := "Node does not have block: 3, latest block: 2"

def token : ∀ kind, ValidatorMsg UnicityCertificate kind
  | .ledgerReplicationRequest => aheadRequest
  | .ledgerReplicationResponse => aheadReply
  | .certificationResponse => aheadResponse
  | kind => sample kind

/-- `B` learns from the root node that it is behind and asks `A`, which is behind as well. -/
def behindTogether : List (DeploymentEvent UnicityCertificate) :=
  [.network (.register "A" validatorProtocols), .network (.register "B" validatorProtocols),
    .network (.send "R" ⟨.certificationResponse, aheadResponse⟩ ["B"]),
    .network (.accept 0 (.ok ()) [[1, 0]] .eof), .network (.read 0), .receive "B" fun _ ↦ env 10,
    .network (.accept 0 (.ok ()) [[1], [0]] .eof), .network (.read 1), .receive "A" fun _ ↦ env 10,
    .network (.accept 0 (.ok ()) [[1], [0]] .eof), .network (.read 2)]

end Reference

theorem behindTogether_allowed : ∀ event ∈ behindTogether, event.Allowed {"A", "B"} := by
  have hA : "A" ∈ ({"A", "B"} : Finset PeerID) := by decide
  have hB : "B" ∈ ({"A", "B"} : Finset PeerID) := by decide
  have hR : "R" ∉ ({"A", "B"} : Finset PeerID) := by decide
  simp only [behindTogether, List.forall_mem_cons]
  exact ⟨List.Subset.refl _, List.Subset.refl _, ⟨hR, rfl⟩, trivial, trivial, hB, trivial, trivial,
    hA, trivial, trivial, by simp⟩

theorem own_request_answered :
    let d := Run.run (Deployment.step shardLibrary confs (codecs token) formats)
      { net := { hosts := hosts }, nodes := fun _ ↦ restarted } behindTogether
    (d.net.received "B").filterMap responseID = [aheadRequest.uuid] ∧
      (d.net.received "B" : Multiset (AnyMsg (ValidatorMsg UnicityCertificate))).filterMap
        responseID ≤ ∑ other ∈ {"A", "B"}, (d.net.sentTo other : Multiset
          (PeerID × AnyMsg (ValidatorMsg UnicityCertificate))).filterMap (ownRequest "B") := by
  have hids : ∀ peer ∈ ({"A", "B"} : Finset PeerID),
      shardLibrary.decodePeerID (shardLibrary.peerIDString peer) = .ok peer := by
    simp only [Finset.mem_insert, Finset.mem_singleton]
    rintro peer (rfl | rfl) <;> rfl
  have hnodes : ∀ peer ∈ ({"A", "B"} : Finset PeerID),
      ∃ store, Starts shardLibrary (confs peer) store restarted :=
    fun peer _ ↦ ⟨_, starts_finalized peer (if peer = "A" then [1] else [2])⟩
  have hanswer := responses_answer_own_requests (codecs_lawful token) (codecs_prefixFree token)
    hids (fun _ _ ↦ rfl) hosts_new hnodes behindTogether_allowed "B"
  exact ⟨by decide +kernel, hanswer⟩

end Reference

/-- The main loop of a validator knows every message that the network hands it, unless it has sent
the message to itself, and a certification response never comes from a validator. -/
theorem validators_know_what_they_receive {cbor : ∀ kind, Cbor (ValidatorMsg C kind)}
    (hcbor : ∀ kind, (cbor kind).Lawful) (hwhole : ∀ kind, (cbor kind).PrefixFree)
    {formats : Formats MessageKind} {hosts : PeerID → LibP2PNetwork (ValidatorMsg C)}
    (hhosts : ∀ peer, NewPeer formats (hosts peer))
    {events : List (NetworkEvent (ValidatorMsg C))}
    (hevents : ∀ event ∈ events, ValidatorEvent event) {peer : PeerID}
    {self : Option (List String)} {opts : ValidatorNetworkOptions}
    (hvalidator : newLibP2PValidatorNetwork formats self opts = .ok (hosts peer)) :
    let net := Run.run (PeerNetwork.step cbor) { hosts := hosts } events
    ∀ msg ∈ net.received peer,
      ((peer, msg) ∈ net.sentTo peer ∨ ∃ event, handleMessage formats msg = .ok event) ∧
      (msg.1 = .certificationResponse → ∃ sender, (sender, msg) ∈ net.sentTo peer ∧
        ∀ self opts, newLibP2PValidatorNetwork formats self opts ≠ .ok (hosts sender)) := by
  intro net msg hmem
  have hattributed : net.Attributed := attributed_run hhosts hevents
  constructor
  · refine (hattributed.received peer msg hmem).imp_right fun ⟨protocolID, hhandler⟩ ↦ ?_
    exact handleMessage_of_handled formats (handled_of_handler hvalidator hevents hhandler)
  · intro hkind
    have hsent : msg ∈ net.messagesTo peer := by
      have hfaithful := faithful_run hcbor hwhole (faithful_start hhosts) hevents
      have hle := le_trans (Multiset.le_add_right _ _) (hfaithful.accounted peer)
      exact Multiset.mem_of_le hle hmem
    obtain ⟨⟨sender, msg'⟩, hfrom, heq⟩ := List.mem_map.mp hsent
    cases heq
    refine ⟨sender, hfrom, fun self opts hsender ↦ ?_⟩
    obtain ⟨protocol, hprotocol⟩ := hattributed.senders peer _ hfrom
    rw [(extends_run hevents sender).sendProtocols, hkind] at hprotocol
    obtain ⟨description, hmem, hdescribes⟩ :=
      (newLibP2PValidatorNetwork_spec hsender).sends hprotocol
    exact (sendProtocolDescriptions_fit hmem hdescribes).2 rfl

section Reference

open Reference

theorem response_known :
    let net := Run.run (PeerNetwork.step (codecs sample)) { hosts := hosts } responses
    net.received "A" = [⟨.certificationResponse, sample _⟩] ∧ ∀ msg ∈ net.received "A",
      (("A", msg) ∈ net.sentTo "A" ∨ ∃ event, handleMessage formats msg = .ok event) ∧
      (msg.1 = .certificationResponse → ∃ sender, (sender, msg) ∈ net.sentTo "A" ∧
        ∀ self opts, newLibP2PValidatorNetwork formats self opts ≠ .ok (hosts sender)) := by
  have hnew : newLibP2PValidatorNetwork formats (some ["/ipfs/id/1.0.0"]) {} = .ok (hosts "A") :=
    rfl
  exact ⟨rfl, validators_know_what_they_receive (codecs_lawful sample)
    (codecs_prefixFree sample) hosts_new responses_events hnew⟩

end Reference

end FinalityGadget
