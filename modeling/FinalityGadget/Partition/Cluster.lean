import FinalityGadget.Partition.Deployment
import FinalityGadget.Partition.Shard

/-!
# A shard on the network

The validators of a deployment may also stop and start again. A new process has empty protocol
tables and an empty channel, and its node starts on some store, while messages of the old process
may still be on their way.

Seen without the network, this is the shard in which validators take turns in any order. A validator
that hears of a proposal has got it from its channel, so it was sent, and only validators send
proposals, each in its own name. The signatures of the validators need not be trusted for that, and
the votes that arrive at the root nodes agree.
-/

namespace FinalityGadget

open Bytes Fallible Interleaving

variable {C : Type}

/-! ## The system -/

/-- A deployment, with the messages of the earlier processes of every validator. -/
structure Cluster (C : Type) extends Deployment C where
  past : PeerID → List (Sent C) := fun _ ↦ []

inductive ClusterEvent (C : Type) where
  | live (event : DeploymentEvent C)
  /-- A new process takes the place of a peer. -/
  | restart (peer : PeerID) (host : LibP2PNetwork (ValidatorMsg C)) (node : Node C)

namespace Cluster

def validator (c : Cluster C) (peer : PeerID) : Validator C :=
  { node := c.nodes peer, past := c.past peer }

/-- The validators as a shard. -/
def shard (c : Cluster C) (validators : Finset PeerID) (i : validators) : Validator C :=
  c.validator i

def restart (c : Cluster C) (peer : PeerID) (host : LibP2PNetwork (ValidatorMsg C))
    (node : Node C) : Cluster C where
  net := c.net.reboot peer host
  nodes := Function.update c.nodes peer node
  past := Function.update c.past peer (c.validator peer).sent

/-- A validator takes a turn when the network has come to another state. -/
def turn (lib : BaseLibrary C) (confs : PeerID → NodeConf)
    (cbor : ∀ kind, Cbor (ValidatorMsg C kind)) (c : Cluster C)
    (net : PeerNetwork (ValidatorMsg C)) (peer : PeerID) (input : Input C) : Cluster C :=
  { c with toDeployment := Deployment.turn lib confs cbor { c.toDeployment with net } peer input }

def step (lib : BaseLibrary C) (confs : PeerID → NodeConf)
    (cbor : ∀ kind, Cbor (ValidatorMsg C kind)) (formats : Formats MessageKind) (c : Cluster C) :
    ClusterEvent C → Cluster C
  | .live event => { c with toDeployment := c.toDeployment.step lib confs cbor formats event }
  | .restart peer host node => c.restart peer host node

section Frame

variable (lib : BaseLibrary C) (confs : PeerID → NodeConf)
  (cbor : ∀ kind, Cbor (ValidatorMsg C kind)) (c : Cluster C) (net : PeerNetwork (ValidatorMsg C))
  (peer : PeerID) (input : Input C) (host : LibP2PNetwork (ValidatorMsg C)) (node : Node C)

theorem validator_turn_self : (c.turn lib confs cbor net peer input).validator peer =
    (c.validator peer).next lib (confs peer) (.turn input) :=
  congrArg (fun node ↦ ({ node := node, past := c.past peer } : Validator C))
    (Function.update_self _ _ _)

variable {peer} in
theorem validator_turn_of_ne {other : PeerID} (h : other ≠ peer) :
    (c.turn lib confs cbor net peer input).validator other = c.validator other :=
  congrArg (fun node ↦ ({ node := node, past := c.past other } : Validator C))
    (Function.update_of_ne h _ _)

theorem validator_restart_self : (c.restart peer host node).validator peer =
    (c.validator peer).next lib (confs peer) (.restart node) := by
  simp only [restart, validator, Function.update_self]
  rfl

variable {peer} in
theorem validator_restart_of_ne {other : PeerID} (h : other ≠ peer) :
    (c.restart peer host node).validator other = c.validator other := by
  simp only [restart, validator, Function.update_of_ne h]

end Frame

end Cluster

/-- What can happen to a deployment, and new processes on any store. -/
def ClusterEvent.Allowed (lib : BaseLibrary C) (confs : PeerID → NodeConf)
    (formats : Formats MessageKind) (validators : Finset PeerID) : ClusterEvent C → Prop
  | .live event => event.Allowed validators
  | .restart peer host node => NewPeer formats host ∧
    (peer ∈ validators → ∃ store, Starts lib (confs peer) store node)

/-! ## Moves of a deployment -/

section Moves

variable (lib : BaseLibrary C) (confs : PeerID → NodeConf)
  (cbor : ∀ kind, Cbor (ValidatorMsg C kind)) (validators : Finset PeerID)

/-- What a step of a deployment does: the network moves messages, a root node sends a response, or
a validator takes a turn in which it hears of no proposal but from its channel. -/
inductive DeploymentMove (d : Deployment C) : Deployment C → Prop
  | carried {net : PeerNetwork (ValidatorMsg C)}
      (hfaithful : PeerNetwork.Faithful cbor MessageKind.protocolID net)
      (hsent : net.sentTo = d.net.sentTo) : DeploymentMove d { d with net := net }
  | answered {peer : PeerID} {msg : AnyMsg (ValidatorMsg C)} {receivers : List PeerID}
      (hfaithful : PeerNetwork.Faithful cbor MessageKind.protocolID
        (d.net.step cbor (.send peer msg receivers)))
      (hkind : msg.1 = .certificationResponse) :
      DeploymentMove d { d with net := d.net.step cbor (.send peer msg receivers) }
  | turn {net : PeerNetwork (ValidatorMsg C)} {peer : PeerID} {input : Input C}
      (hfaithful : PeerNetwork.Faithful cbor MessageKind.protocolID net)
      (hsent : net.sentTo = d.net.sentTo) (hmem : peer ∈ validators)
      (hheard : input.event.Delivers fun prop ↦
        (⟨.blockProposal, prop⟩ : AnyMsg (ValidatorMsg C)) ∈ d.net.received peer) :
      DeploymentMove d (Deployment.turn lib confs cbor { d with net := net } peer input)

variable {lib confs cbor validators} {formats : Formats MessageKind} {d : Deployment C}

/-- The proposal that an event delivers is the message that it stands for. -/
theorem delivers_handleMessage {msg : AnyMsg (ValidatorMsg C)} {event : Event C}
    (h : handleMessage formats msg = .ok event) :
    event.Delivers fun prop ↦ msg = ⟨.blockProposal, prop⟩ := by
  obtain ⟨kind, msg⟩ := msg
  cases kind with
  | blockProposal =>
    cases h
    exact rfl
  | certificationResponse | ledgerReplicationRequest | ledgerReplicationResponse =>
    cases h
    trivial
  | _ => cases h

theorem Event.Delivers.mono {heard heard' : BlockProposal → Prop} {event : Event C}
    (h : event.Delivers heard) (himp : ∀ prop, heard prop → heard' prop) :
    event.Delivers heard' := by
  unfold Event.Delivers at h ⊢
  split
  · exact himp _ h
  · trivial

theorem delivers_of_not_message {event : Event C} (h : event.isMessage = false)
    (heard : BlockProposal → Prop) : event.Delivers heard := by
  cases event with
  | blockProposal proposal => cases h
  | _ => trivial

theorem deploymentMove_receive (hcbor : ∀ kind, (cbor kind).Lawful)
    (hwhole : ∀ kind, (cbor kind).PrefixFree)
    (hfaithful : PeerNetwork.Faithful cbor MessageKind.protocolID d.net) {peer : PeerID}
    (hmem : peer ∈ validators) (envs : ℕ → Env) :
    DeploymentMove lib confs cbor validators d (d.receive lib confs cbor formats peer envs) := by
  unfold Deployment.receive
  split
  · exact .carried hfaithful rfl
  · rename_i msg rest hqueue
    have htaken : PeerNetwork.Faithful cbor MessageKind.protocolID
        (d.net.step cbor (.take peer)) :=
      Deployment.faithful_of_step hcbor hwhole hfaithful trivial
    have hsent := (PeerNetwork.take_histories hqueue).1
    split
    · exact .carried htaken hsent
    · rename_i event hevent
      refine .turn htaken hsent hmem ((delivers_handleMessage hevent).mono ?_)
      rintro prop rfl
      rw [PeerNetwork.received, hqueue]
      exact List.mem_append_right _ List.mem_cons_self

theorem deploymentMove_of_step (hcbor : ∀ kind, (cbor kind).Lawful)
    (hwhole : ∀ kind, (cbor kind).PrefixFree)
    (hfaithful : PeerNetwork.Faithful cbor MessageKind.protocolID d.net)
    {event : DeploymentEvent C} (hallowed : event.Allowed validators) :
    DeploymentMove lib confs cbor validators d (d.step lib confs cbor formats event) := by
  cases event with
  | receive peer envs => exact deploymentMove_receive hcbor hwhole hfaithful hallowed envs
  | turn peer input =>
    exact .turn hfaithful rfl hallowed.1 (delivers_of_not_message hallowed.2 _)
  | network event =>
    have hstep (hevent : ValidatorEvent event) :
        PeerNetwork.Faithful cbor MessageKind.protocolID (d.net.step cbor event) :=
      Deployment.faithful_of_step hcbor hwhole hfaithful hevent
    cases event with
    | register peer protocols => exact .carried (hstep hallowed) rfl
    | send peer msg receivers => exact .answered (hstep trivial) hallowed.2
    | sendMsgs peer env kind msgs receiver => exact hallowed.elim
    | accept i setReadDeadline chunks ending =>
      have hkept := PeerNetwork.accept_histories i setReadDeadline chunks ending d.net
      exact .carried (hstep trivial) hkept.1
    | read i => exact .carried (hstep trivial) (PeerNetwork.read_histories cbor i d.net).1
    | take peer =>
      refine .carried (hstep trivial) ?_
      cases hqueue : (d.net.hosts peer).receivedMsgs with
      | nil => rw [PeerNetwork.step, PeerNetwork.take, hqueue]
      | cons msg rest => exact (PeerNetwork.take_histories hqueue).1

end Moves

/-! ## Where messages come from -/

/-- A response of a root node, or a message that a validator has sent. -/
def Cluster.Traceable (validators : Finset PeerID) (c : Cluster C)
    (sent : PeerID × AnyMsg (ValidatorMsg C)) : Prop :=
  sent.2.1 = .certificationResponse ∨
    sent.1 ∈ validators ∧ ∃ entry ∈ (c.validator sent.1).sent, entry.message.toAny = sent.2

/-- Messages on the network are traced to their senders, and validators send proposals in their own
names. -/
structure Attributable (lib : BaseLibrary C) (confs : PeerID → NodeConf)
    (cbor : ∀ kind, Cbor (ValidatorMsg C kind)) (validators : Finset PeerID) (c : Cluster C) :
    Prop where
  faithful : PeerNetwork.Faithful cbor MessageKind.protocolID c.net
  traceable : ∀ receiver, ∀ sent ∈ c.net.sentTo receiver, c.Traceable validators sent
  named : ∀ peer ∈ validators, ∀ entry ∈ (c.validator peer).sent,
    entry.message.InName lib (confs peer)

section Attributable

variable {lib : BaseLibrary C} {confs : PeerID → NodeConf}
  {cbor : ∀ kind, Cbor (ValidatorMsg C kind)} {formats : Formats MessageKind}
  {validators : Finset PeerID} {c c' : Cluster C} {d : Deployment C}

theorem Cluster.Traceable.mono {sent : PeerID × AnyMsg (ValidatorMsg C)}
    (h : c.Traceable validators sent)
    (hgrows : ∀ peer ∈ validators, (c.validator peer).sent ⊆ (c'.validator peer).sent) :
    c'.Traceable validators sent := by
  refine h.imp_right fun ⟨hmem, entry, hentry, hmessage⟩ ↦ ?_
  exact ⟨hmem, entry, hgrows sent.1 hmem hentry, hmessage⟩

/-- What a peer has received was sent to it. -/
theorem Attributable.received (h : Attributable lib confs cbor validators c) {receiver : PeerID}
    {msg : AnyMsg (ValidatorMsg C)} (hmem : msg ∈ c.net.received receiver) :
    ∃ sender, c.Traceable validators (sender, msg) := by
  have hle := le_trans (Multiset.le_add_right _ _) (h.faithful.accounted receiver)
  obtain ⟨⟨sender, msg'⟩, hsent, hmsg⟩ := List.mem_map.mp (Multiset.mem_of_le hle hmem)
  cases hmsg
  exact ⟨sender, h.traceable receiver _ hsent⟩

/-- The messages of a validator after a turn of a peer. -/
theorem Cluster.sent_turn (cbor : ∀ kind, Cbor (ValidatorMsg C kind))
    (net : PeerNetwork (ValidatorMsg C)) {peer : PeerID} {input : Input C} {news : List (Sent C)}
    (hnews : (FinalityGadget.step lib (confs peer) (c.nodes peer) input).sent =
      (c.nodes peer).sent ++ news) (other : PeerID) :
    ((c.turn lib confs cbor net peer input).validator other).sent =
      (c.validator other).sent ++ if other = peer then news else [] := by
  by_cases h : other = peer
  · subst h
    have hsent : ((c.validator other).next lib (confs other) (.turn input)).sent = c.past other ++
        (FinalityGadget.step lib (confs other) (c.nodes other) input).sent := rfl
    rw [validator_turn_self, hsent, hnews, if_pos rfl, ← List.append_assoc]
    rfl
  · rw [validator_turn_of_ne lib confs cbor c net input h, if_neg h, List.append_nil]

theorem Attributable.turn (hcbor : ∀ kind, (cbor kind).Lawful)
    (hwhole : ∀ kind, (cbor kind).PrefixFree) (h : Attributable lib confs cbor validators c)
    {net : PeerNetwork (ValidatorMsg C)}
    (hfaithful : PeerNetwork.Faithful cbor MessageKind.protocolID net)
    (hsent : net.sentTo = c.net.sentTo) {peer : PeerID} (hmem : peer ∈ validators)
    (input : Input C) :
    Attributable lib confs cbor validators (c.turn lib confs cbor net peer input) := by
  obtain ⟨news, hnews, hnames⟩ := step_posts lib (confs peer) (c.nodes peer) input
  have hdrop : (FinalityGadget.step lib (confs peer) (c.nodes peer) input).sent.drop
      (c.nodes peer).sent.length = news := by rw [hnews, List.drop_left]
  have hnet : (c.turn lib confs cbor net peer input).net = Deployment.post cbor peer news net := by
    rw [← hdrop]
    rfl
  have hlog := Cluster.sent_turn cbor net hnews
  constructor
  case faithful =>
    rw [hnet]
    refine faithful_run hcbor hwhole hfaithful fun event hevent ↦ ?_
    obtain ⟨sent, -, rfl⟩ := List.mem_map.mp hevent
    trivial
  case traceable =>
    rw [hnet]
    refine Deployment.forall_sentTo_post cbor net peer
      (fun sent hnew ↦ Or.inr ⟨hmem, sent, ?_, rfl⟩) fun receiver sent hold ↦ ?_
    · rw [hlog, if_pos rfl]
      exact List.mem_append_right _ hnew
    · refine (h.traceable receiver sent (hsent ▸ hold)).mono fun other _ ↦ ?_
      rw [hlog]
      exact List.subset_append_left _ _
  case named =>
    intro other hother
    rw [hlog, List.forall_mem_append]
    refine ⟨h.named other hother, ?_⟩
    split
    · rename_i heq
      rw [heq]
      exact hnames
    · exact fun _ hentry ↦ absurd hentry List.not_mem_nil

theorem Attributable.move (hcbor : ∀ kind, (cbor kind).Lawful)
    (hwhole : ∀ kind, (cbor kind).PrefixFree) (h : Attributable lib confs cbor validators c)
    (hmove : DeploymentMove lib confs cbor validators c.toDeployment d) :
    Attributable lib confs cbor validators { c with toDeployment := d } := by
  cases hmove with
  | carried hfaithful hsent => exact ⟨hfaithful, hsent ▸ h.traceable, h.named⟩
  | answered hfaithful hkind =>
    refine ⟨hfaithful, ?_, h.named⟩
    exact Deployment.forall_sentTo_send cbor c.net _ (Or.inl hkind) _ h.traceable
  | turn hfaithful hsent hmem _ => exact h.turn hcbor hwhole hfaithful hsent hmem _

/-- A new process has sent nothing yet. -/
theorem Cluster.sent_restart {peer : PeerID} (host : LibP2PNetwork (ValidatorMsg C)) {node : Node C}
    (hnode : peer ∈ validators → ∃ store, Starts lib (confs peer) store node) {other : PeerID}
    (hother : other ∈ validators) :
    ((c.restart peer host node).validator other).sent = (c.validator other).sent := by
  by_cases h : other = peer
  · subst h
    obtain ⟨store, hstarts⟩ := hnode hother
    have hsent : ((c.validator other).next lib (confs other) (.restart node)).sent =
        (c.validator other).sent ++ node.sent := rfl
    rw [validator_restart_self lib confs, hsent, (started_of_starts lib (confs other) hstarts).sent,
      List.append_nil]
  · rw [validator_restart_of_ne c host node h]

theorem Attributable.restart (h : Attributable lib confs cbor validators c) {peer : PeerID}
    {host : LibP2PNetwork (ValidatorMsg C)} {node : Node C} (hhost : NewPeer formats host)
    (hnode : peer ∈ validators → ∃ store, Starts lib (confs peer) store node) :
    Attributable lib confs cbor validators (c.restart peer host node) where
  faithful := h.faithful.reboot hhost.uses hhost.receivedMsgs
  traceable receiver sent hsent := by
    refine (h.traceable receiver sent hsent).mono fun other hother ↦ ?_
    rw [Cluster.sent_restart host hnode hother]
    exact List.Subset.refl _
  named other hother := by
    rw [Cluster.sent_restart host hnode hother]
    exact h.named other hother

theorem Attributable.step (hcbor : ∀ kind, (cbor kind).Lawful)
    (hwhole : ∀ kind, (cbor kind).PrefixFree) (h : Attributable lib confs cbor validators c)
    {event : ClusterEvent C} (hallowed : event.Allowed lib confs formats validators) :
    Attributable lib confs cbor validators (c.step lib confs cbor formats event) := by
  cases event with
  | live event =>
    exact h.move hcbor hwhole (deploymentMove_of_step hcbor hwhole h.faithful hallowed)
  | restart peer host node => exact h.restart hallowed.1 hallowed.2

theorem attributable_start {hosts : PeerID → LibP2PNetwork (ValidatorMsg C)}
    (hhosts : ∀ peer, NewPeer formats (hosts peer)) {nodes : PeerID → Node C}
    (hnodes : ∀ peer ∈ validators, ∃ store, Starts lib (confs peer) store (nodes peer)) :
    Attributable lib confs cbor validators { net := { hosts := hosts }, nodes := nodes } where
  faithful := faithful_start hhosts
  traceable _ _ hsent := absurd hsent List.not_mem_nil
  named peer hmem := by
    obtain ⟨store, hstarts⟩ := hnodes peer hmem
    have hempty : (nodes peer).sent = [] := (started_of_starts lib (confs peer) hstarts).sent
    intro entry (hentry : entry ∈ [] ++ (nodes peer).sent)
    rw [hempty] at hentry
    exact absurd hentry List.not_mem_nil

/-- A proposal that a validator has received was announced by the validator that it names. -/
theorem Attributable.genuine (hpeers : ∀ peer ∈ validators, (confs peer).peerID = peer)
    (h : Attributable lib confs cbor validators c) {receiver : PeerID} {prop : BlockProposal}
    (hmem : (⟨.blockProposal, prop⟩ : AnyMsg (ValidatorMsg C)) ∈ c.net.received receiver) :
    Genuine lib (fun i : validators ↦ confs i) (c.shard validators) prop := by
  intro k _ _ hauthor _
  obtain ⟨sender, htraceable⟩ := h.received hmem
  obtain ⟨hsender, entry, hentry, hmessage⟩ := htraceable.resolve_left (by rintro ⟨⟩)
  have hproposal : entry.message = .blockProposal prop := Message.toAny_injective hmessage
  have hname := h.named sender hsender entry hentry
  rw [hproposal] at hname
  have hself : sender = k := by
    rw [← hpeers sender hsender, ← hpeers k k.2]
    exact hname.symm.trans hauthor
  subst hself
  exact ⟨prop, mem_proposalsIn.mpr ⟨entry, hentry, hproposal⟩, rfl⟩

end Attributable

/-! ## Refinement -/

section Refinement

variable {lib : BaseLibrary C} {confs : PeerID → NodeConf}
  {cbor : ∀ kind, Cbor (ValidatorMsg C kind)} {formats : Formats MessageKind}
  {validators : Finset PeerID} {c : Cluster C}

/-- When one validator has changed, the shard has taken a move of that validator. -/
theorem Cluster.shard_eq_turn {c' : Cluster C} {i : validators} {happening : Happening C}
    (hself : c'.validator i = (c.validator i).next lib (confs i) happening)
    (hother : ∀ peer : PeerID, peer ≠ i → c'.validator peer = c.validator peer) :
    c'.shard validators =
      Interleaving.turn (fun i : validators ↦ Validator.next lib (confs i)) (c.shard validators)
        (i, happening) := by
  funext j
  by_cases h : j = i
  · subst h
    rw [turn_self]
    exact hself
  · rw [turn_of_ne _ h]
    exact hother j (Subtype.coe_ne_coe.mpr h)

/-- A step of the cluster is a possible move of the shard, or none. -/
theorem Attributable.shard_step (hcbor : ∀ kind, (cbor kind).Lawful)
    (hwhole : ∀ kind, (cbor kind).PrefixFree)
    (hpeers : ∀ peer ∈ validators, (confs peer).peerID = peer)
    (h : Attributable lib confs cbor validators c) {event : ClusterEvent C}
    (hallowed : event.Allowed lib confs formats validators) :
    ∃ moves, Run.Guarded (Interleaving.turn fun i : validators ↦ Validator.next lib (confs i))
        (Possible lib fun i : validators ↦ confs i) (c.shard validators) moves ∧
      Run.run (Interleaving.turn fun i : validators ↦ Validator.next lib (confs i))
        (c.shard validators) moves = (c.step lib confs cbor formats event).shard validators := by
  cases event with
  | live event =>
    have hmove : DeploymentMove lib confs cbor validators c.toDeployment
        (c.toDeployment.step lib confs cbor formats event) :=
      deploymentMove_of_step hcbor hwhole h.faithful hallowed
    rw [Cluster.step]
    generalize c.toDeployment.step lib confs cbor formats event = d at hmove
    cases hmove with
    | carried _ _ => exact ⟨[], trivial, rfl⟩
    | answered _ _ => exact ⟨[], trivial, rfl⟩
    | @turn net peer input _ _ hmem hheard =>
      refine ⟨[(⟨peer, hmem⟩, .turn input)], ⟨?_, trivial⟩, ?_⟩
      · exact hheard.mono fun prop hprop ↦ h.genuine hpeers hprop
      · apply Eq.symm
        apply Cluster.shard_eq_turn
        · exact c.validator_turn_self lib confs cbor net peer input
        · exact fun other hne ↦ c.validator_turn_of_ne lib confs cbor net input hne
  | restart peer host node =>
    by_cases hmem : peer ∈ validators
    · refine ⟨[(⟨peer, hmem⟩, .restart node)], ⟨hallowed.2 hmem, trivial⟩, ?_⟩
      apply Eq.symm
      apply Cluster.shard_eq_turn
      · exact c.validator_restart_self lib confs peer host node
      · exact fun other hne ↦ c.validator_restart_of_ne host node hne
    · refine ⟨[], trivial, funext fun i ↦ ?_⟩
      have hne : (i : PeerID) ≠ peer := fun heq ↦ hmem (heq ▸ i.2)
      exact (c.validator_restart_of_ne host node hne).symm

theorem fresh_start {hosts : PeerID → LibP2PNetwork (ValidatorMsg C)} {nodes : PeerID → Node C}
    (hnodes : ∀ peer ∈ validators, ∃ store, Starts lib (confs peer) store (nodes peer)) :
    Fresh lib (fun i : validators ↦ confs i)
      (Cluster.shard { net := { hosts := hosts }, nodes := nodes } validators) :=
  fun i ↦ ⟨rfl, hnodes i i.2⟩

theorem attributable_run (hcbor : ∀ kind, (cbor kind).Lawful)
    (hwhole : ∀ kind, (cbor kind).PrefixFree) (h : Attributable lib confs cbor validators c)
    {events : List (ClusterEvent C)}
    (hevents : ∀ event ∈ events, event.Allowed lib confs formats validators) :
    Attributable lib confs cbor validators
      (Run.run (Cluster.step lib confs cbor formats) c events) :=
  Run.invariant_run (fun _ _ h hallowed ↦ h.step hcbor hwhole hallowed) h
    (Run.guarded_of_mem (fun event hmem _ ↦ hevents event hmem) c)

/-- A run of the cluster is a possible run of the shard. -/
theorem Attributable.exists_schedule (hcbor : ∀ kind, (cbor kind).Lawful)
    (hwhole : ∀ kind, (cbor kind).PrefixFree)
    (hpeers : ∀ peer ∈ validators, (confs peer).peerID = peer)
    (h : Attributable lib confs cbor validators c) {events : List (ClusterEvent C)}
    (hevents : ∀ event ∈ events, event.Allowed lib confs formats validators) :
    ∃ schedule, Run.Guarded (Interleaving.turn fun i : validators ↦ Validator.next lib (confs i))
        (Possible lib fun i : validators ↦ confs i) (c.shard validators) schedule ∧
      runShard lib (fun i : validators ↦ confs i) (c.shard validators) schedule =
        (Run.run (Cluster.step lib confs cbor formats) c events).shard validators :=
  Run.exists_run_of_simulation (fun _ _ h hallowed ↦ h.step hcbor hwhole hallowed)
    (fun _ _ h hallowed ↦ h.shard_step hcbor hwhole hpeers hallowed) h
    (Run.guarded_of_mem (fun event hmem _ ↦ hevents event hmem) c)

/-- Whatever happens on the network and whichever processes are replaced, the validators go through
a run of the shard in which nobody forges the proposals of a validator. -/
theorem cluster_refines_shard (hcbor : ∀ kind, (cbor kind).Lawful)
    (hwhole : ∀ kind, (cbor kind).PrefixFree)
    (hpeers : ∀ peer ∈ validators, (confs peer).peerID = peer)
    {hosts : PeerID → LibP2PNetwork (ValidatorMsg C)}
    (hhosts : ∀ peer, NewPeer formats (hosts peer)) {nodes : PeerID → Node C}
    (hnodes : ∀ peer ∈ validators, ∃ store, Starts lib (confs peer) store (nodes peer))
    {events : List (ClusterEvent C)}
    (hevents : ∀ event ∈ events, event.Allowed lib confs formats validators) :
    let start : Cluster C := { net := { hosts := hosts }, nodes := nodes }
    let c := Run.run (Cluster.step lib confs cbor formats) start events
    Fresh lib (fun i : validators ↦ confs i) (start.shard validators) ∧
      ∃ schedule, Run.Guarded (Interleaving.turn fun i : validators ↦ Validator.next lib (confs i))
          (Possible lib fun i : validators ↦ confs i) (start.shard validators) schedule ∧
        runShard lib (fun i : validators ↦ confs i) (start.shard validators) schedule =
          c.shard validators := by
  intro start c
  have hstart : Attributable lib confs cbor validators start := attributable_start hhosts hnodes
  exact ⟨fresh_start hnodes, hstart.exists_schedule hcbor hwhole hpeers hevents⟩

end Refinement

section Reference

open Reference

namespace Reference

def both : Finset PeerID := {"A", "B"}

/-- A root node that also takes the votes. -/
def votingHost : LibP2PNetwork (ValidatorMsg UnicityCertificate) :=
  { rootHost with
    handlers := fun protocolID ↦
      if protocolID = protocolBlockCertification then some (.messages .blockCertificationRequest)
      else none }

def clusterHosts (peer : PeerID) : LibP2PNetwork (ValidatorMsg UnicityCertificate) :=
  if peer = "R" then votingHost else validatorHost

def initialResponse : CertificationResponse :=
  response (certify { roundNumber := 1 } 5 (technical 2 "A")) (technical 2 "A")

/-- The vote of `B` for the proposal of `A`. -/
def secondRequest : BlockCertificationRequest := { firstRequest with nodeID := "B" }

/-- The messages of the round. -/
def votingMessages : ∀ kind, List (ValidatorMsg UnicityCertificate kind)
  | .certificationResponse => [initialResponse]
  | .blockProposal => [firstProposal]
  | .blockCertificationRequest => [firstRequest, secondRequest]
  | _ => []

/-- The next stream arrives and is read. -/
def arrive (stream : ℕ) (chunks : List (List UInt8)) : List (ClusterEvent UnicityCertificate) :=
  [.live (.network (.accept 0 (.ok ()) chunks .eof)), .live (.network (.read stream))]

/-- `B` is started again, both validators get the initial certificate, `B` votes for the proposal
that it gets from `A`, and the root node gets both votes. -/
def voting : List (ClusterEvent UnicityCertificate) :=
  [.restart "B" (clusterHosts "B") node, .live (.network (.register "A" validatorProtocols)),
    .live (.network (.register "B" validatorProtocols)),
    .live (.network (.send "R" ⟨.certificationResponse, initialResponse⟩ ["A", "B"]))] ++
  arrive 0 [[1], [0]] ++ [.live (.receive "A" fun _ ↦ env 10)] ++
  arrive 1 [[1], [0]] ++
  [.live (.receive "B" fun _ ↦ env 10), .live (.turn "A" (input 10 .t1Timeout))] ++
  arrive 2 [[1, 0]] ++ [.live (.receive "B" fun _ ↦ env 10)] ++
  arrive 3 [[1, 0]] ++ arrive 4 [[2, 1], [0]]

def votedCluster : Cluster UnicityCertificate :=
  Run.run (Cluster.step shardLibrary confs (fun kind ↦ tokenCodec (votingMessages kind)) formats)
    { net := { hosts := clusterHosts }, nodes := fun _ ↦ node } voting

end Reference

theorem votingHost_uses : votingHost.Uses MessageKind.protocolID := by
  constructor
  · exact rootHost_uses.sends
  · intro protocolID kind hhandler
    have htable : (if protocolID = protocolBlockCertification then
        some (Handler.messages MessageKind.blockCertificationRequest)
      else none) = some (.messages kind) := hhandler
    split at htable
    · rename_i hprotocol
      cases htable
      exact hprotocol
    · cases htable

theorem clusterHosts_new (peer : PeerID) : NewPeer formats (clusterHosts peer) := by
  unfold clusterHosts
  split
  · exact .root votingHost_uses rfl
  · exact validatorHost_new

theorem starts_confs (peer : PeerID) :
    ∃ store, Starts shardLibrary (confs peer) store node :=
  ⟨_, starts_empty peer (if peer = "A" then [1] else [2])⟩

theorem votingMessages_lawful (kind : MessageKind) : (tokenCodec (votingMessages kind)).Lawful :=
  tokenCodec_lawful

theorem votingMessages_prefixFree (kind : MessageKind) :
    (tokenCodec (votingMessages kind)).PrefixFree :=
  tokenCodec_prefixFree

theorem voting_allowed :
    ∀ event ∈ voting, event.Allowed shardLibrary confs formats both := by
  have hA : "A" ∈ both := by decide
  have hB : "B" ∈ both := by decide
  have hR : "R" ∉ both := by decide
  have hrestart : ClusterEvent.Allowed shardLibrary confs formats both
      (.restart "B" (clusterHosts "B") node) := ⟨clusterHosts_new "B", fun _ ↦ starts_confs "B"⟩
  have harrive : ∀ stream chunks, ∀ event ∈ arrive stream chunks,
      event.Allowed shardLibrary confs formats both := by
    intro stream chunks
    simp only [arrive, List.forall_mem_cons]
    exact ⟨trivial, trivial, by simp⟩
  simp only [voting, List.forall_mem_append, List.forall_mem_cons]
  refine ⟨⟨⟨⟨⟨⟨⟨⟨⟨hrestart, ?_, ?_, ⟨hR, rfl⟩, by simp⟩, harrive _ _⟩, hA, by simp⟩, harrive _ _⟩,
    hB, ⟨hA, rfl⟩, by simp⟩, harrive _ _⟩, hB, by simp⟩, harrive _ _⟩, harrive _ _⟩
  · exact List.Subset.refl validatorProtocols
  · exact List.Subset.refl validatorProtocols

theorem cluster_refines_shard_voting :
    (requestsIn (votedCluster.validator "B").sent).map Prod.snd = [secondRequest] ∧
      ∃ shard schedule,
        Run.Guarded (Interleaving.turn fun i : both ↦ Validator.next shardLibrary (confs i))
          (Possible shardLibrary fun i : both ↦ confs i) shard schedule ∧
        runShard shardLibrary (fun i : both ↦ confs i) shard schedule =
          votedCluster.shard both := by
  have hrefines := cluster_refines_shard votingMessages_lawful votingMessages_prefixFree
    (fun _ _ ↦ rfl) clusterHosts_new (fun peer _ ↦ starts_confs peer) voting_allowed
  exact ⟨by decide +kernel, _, hrefines.2⟩

end Reference

/-! ## Votes at the root nodes -/

section Votes

variable {lib : BaseLibrary C} {confs : PeerID → NodeConf}
  {cbor : ∀ kind, Cbor (ValidatorMsg C kind)} {formats : Formats MessageKind}
  {validators : Finset PeerID} {c : Cluster C}

/-- A certification request that somebody has received is a vote of a validator. -/
theorem Attributable.vote (h : Attributable lib confs cbor validators c) {receiver : PeerID}
    {request : BlockCertificationRequest}
    (hmem : (⟨.blockCertificationRequest, request⟩ : AnyMsg (ValidatorMsg C)) ∈
      c.net.received receiver) :
    ∃ i ∈ validators, ∃ voter, (voter, request) ∈ requestsIn (c.validator i).sent := by
  obtain ⟨sender, htraceable⟩ := h.received hmem
  obtain ⟨hsender, entry, hentry, hmessage⟩ := htraceable.resolve_left (by rintro ⟨⟩)
  have hrequest : entry.message = .certificationRequest request := Message.toAny_injective hmessage
  refine ⟨sender, hsender, entry.sender, List.mem_filterMap.mpr ⟨entry, hentry, ?_⟩⟩
  rw [hrequest]

/-- A certification request that any peer has received over the network is a vote of a validator.
Wherever two of them were cast in the same root round, whose leader is a validator that announces
one root only in each root round, they are for the same record up to the hash of the block, and for
the very same record if the voters extend the same block. -/
theorem received_votes_agree (hduplicate : lib.DuplicateLaw) (hrecordCbor : lib.CborLaw)
    (hhash : lib.BlockHashLaw) (hrecord : lib.BlockRecordLaw)
    (hrootRound : RootRoundLaw lib (Set.range fun i : validators ↦ confs i))
    (hcbor : ∀ kind, (cbor kind).Lawful) (hwhole : ∀ kind, (cbor kind).PrefixFree)
    (hpeers : ∀ peer ∈ validators, (confs peer).peerID = peer)
    (hshard : ∀ peer ∈ validators, ∀ peer' ∈ validators, ∀ shardConf shardConf',
      (confs peer).Loads shardConf → (confs peer').Loads shardConf' →
      shardConf'.partitionID = shardConf.partitionID ∧ shardConf'.shardID = shardConf.shardID)
    {hosts : PeerID → LibP2PNetwork (ValidatorMsg C)}
    (hhosts : ∀ peer, NewPeer formats (hosts peer)) {nodes : PeerID → Node C}
    (hnodes : ∀ peer ∈ validators, ∃ store, Starts lib (confs peer) store (nodes peer))
    {events : List (ClusterEvent C)}
    (hevents : ∀ event ∈ events, event.Allowed lib confs formats validators) :
    let c := Run.run (Cluster.step lib confs cbor formats)
      { net := { hosts := hosts }, nodes := nodes } events
    ∀ (receiver receiver' : PeerID) (request request' : BlockCertificationRequest),
      ⟨.blockCertificationRequest, request⟩ ∈ c.net.received receiver →
      ⟨.blockCertificationRequest, request'⟩ ∈ c.net.received receiver' →
      (∃ i ∈ validators, ∃ voter, (voter, request) ∈ requestsIn (c.validator i).sent) ∧
      ∀ i ∈ validators, ∀ j ∈ validators, ∀ voter voter',
        (voter, request) ∈ requestsIn (c.validator i).sent →
        (voter', request') ∈ requestsIn (c.validator j).sent →
        getRootRoundNumber voter'.luc = getRootRoundNumber voter.luc →
        ∀ leader ∈ validators, voter.leader = leader →
        AnnouncesOnce (c.validator leader).sent →
        (∀ tr tr', voter.ltr = some tr → voter'.ltr = some tr' →
          lib.technicalRecordHash tr = lib.technicalRecordHash tr' → tr = tr') →
        ∃ ir ir', request.inputRecord = some ir ∧ request'.inputRecord = some ir' ∧
          { ir with blockHash := none } = { ir' with blockHash := none } ∧
          (getBlockHash voter'.committedUC = getBlockHash voter.committedUC → ir' = ir) := by
  intro c receiver receiver' request request' hreceived _
  have hstart : Attributable lib confs cbor validators { net := { hosts := hosts }, nodes } :=
    attributable_start hhosts hnodes
  have hc : Attributable lib confs cbor validators c := attributable_run hcbor hwhole hstart hevents
  refine ⟨hc.vote hreceived, ?_⟩
  intro i hi j hj voter voter' hvote hvote' hround leader hmem hleader honce hcollision
  obtain ⟨schedule, hpossible, hrun⟩ := hstart.exists_schedule hcbor hwhole hpeers hevents
  -- the validators can account for their votes as those of the shard can
  have haccountable : ∀ k, Accountable lib (fun i : validators ↦ confs i) (c.shard validators) k :=
    hrun ▸ accountable_runShard hduplicate (fresh_start hnodes) hpossible
  have hinjective : Function.Injective fun i : validators ↦ (confs i).peerID := by
    intro i j hsame
    exact Subtype.ext ((hpeers i i.2).symm.trans (hsame.trans (hpeers j j.2)))
  exact (haccountable ⟨i, hi⟩).agree (k := ⟨leader, hmem⟩) hrecordCbor hhash hrecord hrootRound
    hinjective (fun i j ↦ hshard i i.2 j j.2) (haccountable ⟨j, hj⟩) hvote hvote' hround
    (hleader.trans (hpeers leader hmem).symm) honce hcollision

end Votes

section Reference

open Reference

/-- The votes of `A` and `B` arrive, and are for the same record. -/
theorem received_votes_agree_voting :
    votedCluster.net.received "R" = [⟨.blockCertificationRequest, firstRequest⟩,
        ⟨.blockCertificationRequest, secondRequest⟩] ∧
      ∃ ir ir', firstRequest.inputRecord = some ir ∧ secondRequest.inputRecord = some ir' ∧
        ir' = ir := by
  have hshard : ∀ peer ∈ both, ∀ peer' ∈ both,
      ∀ shardConf shardConf', (confs peer).Loads shardConf → (confs peer').Loads shardConf' →
      shardConf'.partitionID = shardConf.partitionID ∧ shardConf'.shardID = shardConf.shardID := by
    rintro _ _ _ _ _ _ ⟨_, ⟨⟩⟩ ⟨_, ⟨⟩⟩
    exact ⟨rfl, rfl⟩
  have hreceived : votedCluster.net.received "R" = [⟨.blockCertificationRequest, firstRequest⟩,
      ⟨.blockCertificationRequest, secondRequest⟩] := by decide +kernel
  have hvoters : ∀ peer ∈ both,
      ∀ vote ∈ requestsIn (votedCluster.validator peer).sent, vote.1.leader = "A" ∧
        getRootRoundNumber vote.1.luc = 5 ∧ vote.1.ltr = some (technical 2 "A") ∧
        getBlockHash vote.1.committedUC = none := by decide +kernel
  have hannounced : proposalsIn (votedCluster.validator "A").sent = [firstProposal] := by
    decide +kernel
  have honce : AnnouncesOnce (votedCluster.validator "A").sent := by
    intro prop hprop prop' hprop' _
    rw [hannounced, List.mem_singleton] at hprop hprop'
    rw [hprop, hprop']
  refine ⟨hreceived, ?_⟩
  have hagree := received_votes_agree duplicateLaw cborLaw blockHashLaw blockRecordLaw
    (shardLibrary_rootRoundLaw _) votingMessages_lawful votingMessages_prefixFree (fun _ _ ↦ rfl)
    hshard clusterHosts_new (fun peer _ ↦ starts_confs peer) voting_allowed
  have hfirst : (⟨.blockCertificationRequest, firstRequest⟩ : AnyMsg (ValidatorMsg _)) ∈
      votedCluster.net.received "R" := hreceived ▸ List.mem_cons_self
  have hsecond : (⟨.blockCertificationRequest, secondRequest⟩ : AnyMsg (ValidatorMsg _)) ∈
      votedCluster.net.received "R" := hreceived ▸ List.mem_cons_of_mem _ List.mem_cons_self
  obtain ⟨⟨i, hi, voter, hvote⟩, hsame⟩ := hagree "R" "R" _ _ hfirst hsecond
  obtain ⟨⟨j, hj, voter', hvote'⟩, -⟩ := hagree "R" "R" _ _ hsecond hfirst
  obtain ⟨hleader, hround, hltr, hblock⟩ := hvoters i hi _ hvote
  obtain ⟨-, hround', hltr', hblock'⟩ := hvoters j hj _ hvote'
  have hcollision : ∀ tr tr', voter.ltr = some tr → voter'.ltr = some tr' →
      shardLibrary.technicalRecordHash tr = shardLibrary.technicalRecordHash tr' → tr = tr' := by
    intro tr tr' htr htr' _
    exact Option.some.inj (htr.symm.trans (hltr.trans (hltr'.symm.trans htr')))
  obtain ⟨ir, ir', hir, hir', -, hequal⟩ :=
    hsame i hi j hj voter voter' hvote hvote' (hround'.trans hround.symm) "A" (by decide) hleader
      honce hcollision
  exact ⟨ir, ir', hir, hir', hequal (hblock'.trans hblock.symm)⟩

end Reference

end FinalityGadget
