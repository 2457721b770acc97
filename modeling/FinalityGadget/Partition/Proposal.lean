import FinalityGadget.Partition.Certificate

/-!
# Proposing and voting

The leader proposes when its timer fires and a follower verifies what the leader proposed; both end
in the same request to the root chain. Recording the proposal precedes everything that can fail on
the way to the root nodes, so an exit with an error may leave a recorded proposal behind.
-/

namespace FinalityGadget

open Bytes Fallible

variable {C : Type}

section Handlers

variable (lib : BaseLibrary C) (conf : NodeConf)

/-! ## The certification request -/

/-- The input record of a proposal. The block hash is calculated later. -/
def proposedIR (n : NodeState C) (state : Summary) : InputRecord where
  version := 1
  roundNumber := n.currentRoundNumber
  epoch := n.currentEpoch
  previousHash := getStateHash n.luc
  hash := state.rootHash
  summaryValue := state.summaryValue
  timestamp := getTimestamp n.luc
  blockHash := none
  sumOfEarnedFees := state.sumOfEarnedFees
  etHash := state.etHash

/-- The unsealed certificate of a proposal. -/
def proposedUC (n : NodeState C) (state : Summary) : UnicityCertificate where
  version := 1
  inputRecord := some (proposedIR n state)

/-- The header of a proposal; the block extends the last committed one. -/
def proposedHeader (n : NodeState C) (blockAuthor : String) : Header where
  version := 1
  partitionID := n.shardConf.partitionID
  shardID := n.shardConf.shardID
  proposerID := blockAuthor
  previousBlockHash := getBlockHash n.committedUC

/-- The pending block and its input record. -/
def buildProposal (n : NodeState C) (blockAuthor : String) (state : Summary) :
    Except Err (InputRecord × Block C) := do
  let ucBytes ← (lib.marshal (proposedUC n state)).mapError fun err ↦
    s!"failed to marshal unicity certificate: {err}"
  (lib.calculateBlockHash
    { header := some (proposedHeader n blockAuthor)
      unicityCertificate := some ucBytes
      transactions := some [] }).mapError fun err ↦ s!"calculating block hash: {err}"

/-- The signed request and the root nodes it goes to. -/
def prepareRequest (n : NodeState C) (ir : InputRecord) (pendingProposal : Block C) :
    Except Err (BlockCertificationRequest × List PeerID) := do
  let blockSize ← (lib.blockSize pendingProposal).mapError fun err ↦
    s!"calculating block size: {err}"
  let request : BlockCertificationRequest :=
    { partitionID := n.shardConf.partitionID
      shardID := n.shardConf.shardID
      nodeID := lib.peerIDString conf.peerID
      inputRecord := some ir
      blockSize := blockSize
      stateSize := 0 }
  let signed ← (request.sign lib conf.signBytes).mapError fun err ↦
    s!"failed to sign certification request: {err}"
  let rootValidators ← (n.rootValidators lib conf).mapError fun err ↦
    s!"failed to get current root validators: {err}"
  let rootIDs ← (rootNodesSelector lib n.luc rootValidators 2).mapError fun err ↦
    s!"selecting root nodes: {err}"
  pure (signed, rootIDs)

def sendCertificationRequest (env : Env) (blockAuthor : String) (state : Summary) :
    NodeM C Unit := do
  let n ← get
  let (ir, pendingProposal) ← ofExcept id (buildProposal lib n.toNodeState blockAuthor state)
  orRevert (fun err ↦ s!"failed to store pending block proposal: {err}")
    (storePendingProposal env pendingProposal)
  modify fun n ↦ n.setProposal pendingProposal
  let (request, rootIDs) ← ofExcept id (prepareRequest lib conf n.toNodeState ir pendingProposal)
  modify fun n ↦ n.post (.certificationRequest request) rootIDs
  ofExcept id env.sendRequest

/-! ## The leader -/

/-- The proposal a leader announces, not signed yet. -/
def announcement (n : NodeState C) (ltr : TechnicalRecord) (proposedRoot : Slice) :
    BlockProposal where
  partitionID := n.shardConf.partitionID
  shardID := n.shardConf.shardID
  nodeID := conf.peerID
  unicityCertificate := n.luc
  technical := ltr
  proposedRoot := proposedRoot

def sendBlockProposal (env : Env) (proposedRoot : Slice) : NodeM C Unit := do
  let n ← get
  match n.ltr with
  | none => throw "missing LTR"
  | some ltr =>
    let signed ← ofExcept (fun err ↦ s!"block proposal sign failed, {err}")
      ((announcement conf n.toNodeState ltr proposedRoot).sign lib conf.signHash)
    modify fun n ↦ n.post (.blockProposal signed) (n.filterValidatorNodes lib conf.peerID)
    ofExcept id env.sendProposal

/-- Each of the three failures rolls the transaction system back and is only logged. -/
def handleT1TimeoutEvent (env : Env) : NodeM C Unit := do
  let n ← get
  if n.status = .recovering then
    return ()
  if n.leader ≠ conf.peerID then
    return ()
  tryCatch (do
      let stateSummary ← onTx (FGPTxSystem.leaderPropose env.pow n.currentRoundNumber)
      sendBlockProposal lib conf env stateSummary.rootHash
      sendCertificationRequest lib conf env (lib.peerIDString conf.peerID) stateSummary)
    fun _ ↦ modify Node.revertState

/-! ## A follower -/

/-- The part of `handleBlockProposal` after the certificate of the proposal is the latest one. -/
def voteForProposal (env : Env) (prop : BlockProposal) (uc : UnicityCertificate) :
    NodeM C Unit := do
  let n ← get
  ensure (n.leader ≠ "" ∧ prop.nodeID = n.leader)
    s!"expecting leader {n.leader}, leader in proposal: {prop.nodeID}"
  let txState ← ofExcept (fun err ↦ s!"transaction system state error, {err}")
    n.transactionSystem.stateSummary
  -- an initial certificate has a nil state hash and needs not to match
  ensure (lib.isInitial uc = true ∨ (getStateHash (some uc)).equal txState.rootHash = true)
    (s!"transaction system start state mismatch error, expected: " ++
      s!"{Text.hexUpper txState.rootHash}, got: {Text.hexUpper (getStateHash (some uc))}")
  let stateSummary ← orRevert (fun err ↦ s!"follower failed to verify proposed block: {err}")
    (onTx (FGPTxSystem.followerVerify env.pow n.currentRoundNumber prop.proposedRoot))
  EStateM.adaptExcept (fun err ↦ s!"certification request send failed, {err}")
    (sendCertificationRequest lib conf env (lib.peerIDString prop.nodeID) stateSummary)

def handleBlockProposal (env : Env) (proposal : Option BlockProposal) : NodeM C Unit := do
  let n ← get
  if n.status = .recovering then
    modify fun n ↦ { n with recoveryLastProp := proposal }
    throw "node is in recovery status"
  else
    match proposal with
    | none => throw "block proposal is nil"
    | some prop =>
      let trustBase ← ofExcept
        (fun err ↦ s!"failed to load trust base for block proposal validation: {err}")
        (conf.trustBaseByEpoch (getRootEpoch prop.unicityCertificate))
      ofExcept (fun err ↦ s!"block proposal validation failed, {err}")
        (BlockProposal.isValid lib (some prop) trustBase n.shardConf)
      match prop.unicityCertificate with
      | none => throw "invalid memory address or nil pointer dereference"
      | some uc =>
        ensure (getRootRoundNumber n.luc ≤ getRootRoundNumber (some uc))
          (s!"stale block proposal with UC from root round {getRootRoundNumber (some uc)}, " ++
            s!"LUC root round {getRootRoundNumber n.luc}")
        onlyIf (getRootRoundNumber n.luc < getRootRoundNumber (some uc))
          (EStateM.adaptExcept (fun err ↦ s!"block proposal UC handling failed: {err}")
            (handleUnicityCertificate lib conf env uc (some prop.technical)))
        voteForProposal lib conf env prop uc

end Handlers

/-! ## Exits -/

/-- The node with a proposal recorded in the store and in memory. -/
def Node.recorded (n : Node C) (block : Block C) : Node C :=
  (n.store (.writeProposal block)).setProposal block

section Exits

variable (lib : BaseLibrary C) (conf : NodeConf)

/-- How `sendCertificationRequest` ends. -/
inductive RequestExit (env : Env) (blockAuthor : String) (state : Summary) (n : Node C) :
    EStateM.Result Err (Node C) Unit → Prop where
  | unbuilt (err : Err) (hbuild : ∀ built, buildProposal lib n.toNodeState blockAuthor state ≠
      .ok built) : RequestExit env blockAuthor state n (.error err n)
  | unstored (err : Err) (hwrite : env.writeProposal ≠ .ok ()) :
      RequestExit env blockAuthor state n (.error err n.revertState)
  | unsent (err : Err) (ir : InputRecord) (block : Block C)
      (hbuild : buildProposal lib n.toNodeState blockAuthor state = .ok (ir, block))
      (hprepare : ∀ prepared, prepareRequest lib conf n.toNodeState ir block ≠ .ok prepared)
      (hwrite : env.writeProposal = .ok ()) :
      RequestExit env blockAuthor state n (.error err (n.recorded block))
  | undelivered (err : Err) (ir : InputRecord) (block : Block C)
      (request : BlockCertificationRequest) (rootIDs : List PeerID)
      (hbuild : buildProposal lib n.toNodeState blockAuthor state = .ok (ir, block))
      (hprepare : prepareRequest lib conf n.toNodeState ir block = .ok (request, rootIDs))
      (hsend : env.sendRequest ≠ .ok ()) (hwrite : env.writeProposal = .ok ()) :
      RequestExit env blockAuthor state n
        (.error err ((n.recorded block).post (.certificationRequest request) rootIDs))
  | sent (ir : InputRecord) (block : Block C) (request : BlockCertificationRequest)
      (rootIDs : List PeerID)
      (hbuild : buildProposal lib n.toNodeState blockAuthor state = .ok (ir, block))
      (hprepare : prepareRequest lib conf n.toNodeState ir block = .ok (request, rootIDs))
      (hwrite : env.writeProposal = .ok ()) :
      RequestExit env blockAuthor state n
        (.ok () ((n.recorded block).post (.certificationRequest request) rootIDs))

/-- A built block carries the proposed record, with the calculated block hash. -/
structure Built (n : NodeState C) (blockAuthor : String) (state : Summary) (ir : InputRecord)
    (block : Block C) : Prop where
  ir_eq : ir = { proposedIR n state with blockHash := ir.blockHash }
  header : block.header = some (proposedHeader n blockAuthor)
  transactions : block.transactions = some []
  certificate : getUCv1 lib (some block) =
    .ok { proposedUC n state with inputRecord := some ir }
  record : lib.blockInputRecord block = .ok ir

theorem buildProposal_header (hhash : lib.BlockHashLaw) {n : NodeState C} {blockAuthor : String}
    {state : Summary} {ir : InputRecord} {block : Block C}
    (h : buildProposal lib n blockAuthor state = .ok (ir, block)) :
    block.header = some (proposedHeader n blockAuthor) := by
  obtain ⟨encoded, _, hcalculate⟩ := bind_eq_ok.mp h
  exact hhash.header (mapError_eq_ok.mp hcalculate)

theorem built_of_buildProposal (hcbor : lib.CborLaw) (hhash : lib.BlockHashLaw)
    (hrecord : lib.BlockRecordLaw) {n : NodeState C} {blockAuthor : String} {state : Summary}
    {ir : InputRecord} {block : Block C}
    (h : buildProposal lib n blockAuthor state = .ok (ir, block)) :
    Built lib n blockAuthor state ir block := by
  obtain ⟨encoded, hmarshal, hcalculate⟩ := bind_eq_ok.mp h
  have hmarshal := mapError_eq_ok.mp hmarshal
  have hcalculate := mapError_eq_ok.mp hcalculate
  obtain ⟨hir, encoded', hencoded, hdecoded⟩ :=
    hhash.certificate hcalculate rfl (hcbor hmarshal) rfl
  refine ⟨hir, buildProposal_header lib hhash h, hhash.transactions hcalculate, ?_, ?_⟩
  · simp only [getUCv1, hencoded]
    exact hdecoded
  · exact hrecord.record hencoded hdecoded rfl

/-- A request carries the record and the size of the proposal. -/
theorem prepareRequest_content {n : NodeState C} {ir : InputRecord} {block : Block C}
    {request : BlockCertificationRequest} {rootIDs : List PeerID}
    (h : prepareRequest lib conf n ir block = .ok (request, rootIDs)) :
    request.inputRecord = some ir ∧ lib.blockSize block = .ok request.blockSize := by
  obtain ⟨size, hsize, h⟩ := bind_eq_ok.mp h
  obtain ⟨signed, hsigned, h⟩ := bind_eq_ok.mp h
  obtain ⟨validators, _, h⟩ := bind_eq_ok.mp h
  obtain ⟨ids, _, h⟩ := bind_eq_ok.mp h
  cases h
  obtain ⟨data, _, hsign⟩ := bind_eq_ok.mp (mapError_eq_ok.mp hsigned)
  obtain ⟨signature, _, hresult⟩ := bind_eq_ok.mp hsign
  cases hresult
  exact ⟨rfl, mapError_eq_ok.mp hsize⟩

theorem storePendingProposal_run (env : Env) (block : Block C) (n : Node C) :
    (storePendingProposal env block).run n =
      match env.writeProposal with
      | .ok _ => .ok () (n.store (.writeProposal block))
      | .error err => .error s!"persist error, {err}" n := by
  unfold storePendingProposal
  cases env.writeProposal <;> rfl

theorem sendCertificationRequest_spec (env : Env) (blockAuthor : String) (state : Summary)
    (n : Node C) :
    RequestExit lib conf env blockAuthor state n
      ((sendCertificationRequest lib conf env blockAuthor state).run n) := by
  refine exec_get (exec_ofExcept (fun err herr ↦ ?_) ?_)
  · exact .unbuilt _ fun built h ↦ by simp [herr] at h
  rintro ⟨ir, block⟩ hbuild
  dsimp only
  refine exec_tryCatch (fun err after hrun ↦ ?_) fun _ after hrun ↦ ?_
  · rw [storePendingProposal_run] at hrun
    cases hwrite : env.writeProposal with
    | ok _ => simp [hwrite] at hrun
    | error _ =>
      simp only [hwrite] at hrun
      cases hrun
      exact .unstored _ (by simp [hwrite])
  rw [storePendingProposal_run] at hrun
  cases hwrite : env.writeProposal with
  | error _ => simp [hwrite] at hrun
  | ok _ =>
    simp only [hwrite] at hrun
    cases hrun
    refine exec_modify (exec_ofExcept (fun err herr ↦ ?_) ?_)
    · exact .unsent _ ir block hbuild (fun prepared h ↦ by simp [herr] at h) hwrite
    rintro ⟨request, rootIDs⟩ hprepare
    refine exec_modify ?_
    cases hsend : env.sendRequest with
    | error _ =>
      exact .undelivered _ ir block request rootIDs hbuild hprepare (by simp [hsend]) hwrite
    | ok _ => exact .sent ir block request rootIDs hbuild hprepare hwrite

/-- The node of a leader that has chosen a candidate and announced it. -/
structure Announced (env : Env) (n : Node C) (data : List UInt8) (m : Node C) : Prop where
  intro ::
  exists_proposal : ∃ height ltr prop,
    n.transactionSystem.Candidate env.pow data height ∧ n.ltr = some ltr ∧
    (announcement conf n.toNodeState ltr (some data)).sign lib conf.signHash = .ok prop ∧
    m = (n.setTx (n.transactionSystem.setPending (some data) height)).post (.blockProposal prop)
      (n.filterValidatorNodes lib conf.peerID)

/-- How `handleT1TimeoutEvent` ends; it never reports an error. -/
inductive TimeoutExit (env : Env) (n : Node C) : EStateM.Result Err (Node C) Unit → Prop where
  | idle (hidle : n.status = .recovering ∨ n.leader ≠ conf.peerID) : TimeoutExit env n (.ok () n)
  | abandoned (hstatus : n.status ≠ .recovering) (hleader : n.leader = conf.peerID)
      (hnone : ∀ data m, ¬Announced lib conf env n data m) :
      TimeoutExit env n (.ok () n.revertState)
  | unproposed (data : List UInt8) (m : Node C) (hstatus : n.status ≠ .recovering)
      (hleader : n.leader = conf.peerID) (hannounced : Announced lib conf env n data m)
      (hsend : env.sendProposal ≠ .ok ()) : TimeoutExit env n (.ok () m.revertState)
  | unrequested (data : List UInt8) (m m' : Node C) (err : Err) (hstatus : n.status ≠ .recovering)
      (hleader : n.leader = conf.peerID) (hannounced : Announced lib conf env n data m)
      (hrequest : RequestExit lib conf env (lib.peerIDString conf.peerID)
        (n.transactionSystem.summaryOf (some data)) m (.error err m'))
      (hsend : env.sendProposal = .ok ()) :
      TimeoutExit env n (.ok () m'.revertState)
  | requested (data : List UInt8) (m m' : Node C) (hstatus : n.status ≠ .recovering)
      (hleader : n.leader = conf.peerID) (hannounced : Announced lib conf env n data m)
      (hrequest : RequestExit lib conf env (lib.peerIDString conf.peerID)
        (n.transactionSystem.summaryOf (some data)) m (.ok () m'))
      (hsend : env.sendProposal = .ok ()) :
      TimeoutExit env n (.ok () m')

/-- The proposal of a leader fails, or is announced to the network first. -/
inductive AnnounceExit (env : Env) (n : Node C) (data : List UInt8) (height : UInt64) :
    EStateM.Result Err (Node C) Unit → Prop where
  | failed (err : Err) (hnone : ∀ m, ¬Announced lib conf env n data m) :
      AnnounceExit env n data height
        (.error err (n.setTx (n.transactionSystem.setPending (some data) height)))
  | undelivered (err : Err) (m : Node C) (h : Announced lib conf env n data m)
      (hsend : env.sendProposal ≠ .ok ()) : AnnounceExit env n data height (.error err m)
  | announced (m : Node C) (h : Announced lib conf env n data m)
      (hsend : env.sendProposal = .ok ()) :
      AnnounceExit env n data height (.ok () m)

theorem sendBlockProposal_spec (env : Env) (n : Node C) (data : List UInt8) (height : UInt64)
    (hcandidate : n.transactionSystem.Candidate env.pow data height) :
    AnnounceExit lib conf env n data height
      ((sendBlockProposal lib conf env (some data)).run
        (n.setTx (n.transactionSystem.setPending (some data) height))) := by
  refine exec_get ?_
  cases hltr : n.ltr with
  | none =>
    have hnone : ∀ m, ¬Announced lib conf env n data m := by
      rintro m ⟨_, ltr, _, _, h, _⟩
      simp [hltr] at h
    simp only [Node.setTx_ltr, hltr]
    exact .failed _ hnone
  | some ltr =>
    simp only [Node.setTx_ltr, hltr]
    refine exec_ofExcept (fun err herr ↦ .failed _ ?_) fun signed hsign ↦ exec_modify ?_
    · rintro m ⟨_, ltr', prop, _, h, hsign, _⟩
      rw [hltr] at h
      cases h
      cases herr.symm.trans hsign
    · have hannounced : Announced lib conf env n data
          ((n.setTx (n.transactionSystem.setPending (some data) height)).post
            (.blockProposal signed) (n.filterValidatorNodes lib conf.peerID)) :=
        ⟨height, ltr, signed, hcandidate, hltr, hsign, rfl⟩
      cases hsend : env.sendProposal with
      | ok _ => exact .announced _ hannounced hsend
      | error _ => exact .undelivered _ _ hannounced (by simp [hsend])

/-- A candidate that cannot be announced with one height cannot be announced at all. -/
theorem Announced.data_unique {env : Env} {n m : Node C} {data data' : List UInt8}
    {height' : UInt64} (h : Announced lib conf env n data m)
    (hcandidate : n.transactionSystem.Candidate env.pow data' height') : data = data' := by
  obtain ⟨height, _, _, hdata, _⟩ := h
  exact hdata.data_unique hcandidate

theorem handleT1TimeoutEvent_spec (env : Env) (n : Node C) :
    TimeoutExit lib conf env n ((handleT1TimeoutEvent lib conf env).run n) := by
  refine exec_get (exec_ite (fun hrecovering ↦ .idle (.inl hrecovering)) fun hstatus ↦ ?_)
  refine exec_ite (fun hleader ↦ .idle (.inr hleader)) fun hleader ↦ ?_
  have hleader : n.leader = conf.peerID := not_not.mp hleader
  rw [run_tryCatch, EStateM.run_bind]
  simp only [onTx, run_zoom]
  have hpropose := FGPTxSystem.leaderPropose_spec env.pow n.currentRoundNumber n.transactionSystem
  generalize (FGPTxSystem.leaderPropose env.pow n.currentRoundNumber).run n.transactionSystem =
    proposed at hpropose
  cases hpropose with
  | rejected err hnone =>
    refine .abandoned hstatus hleader fun data m h ↦ ?_
    obtain ⟨height, _, _, hcandidate, _⟩ := h
    exact hnone data height hcandidate
  | accepted data height hcandidate =>
    have hannounce := sendBlockProposal_spec lib conf env n data height hcandidate
    dsimp only
    rw [EStateM.run_bind]
    simp only [FGPTxSystem.summaryOf]
    generalize (sendBlockProposal lib conf env (some data)).run
      (n.setTx (n.transactionSystem.setPending (some data) height)) = announced at hannounce
    cases hannounce with
    | failed err hnone =>
      refine .abandoned hstatus hleader fun data' m h ↦ ?_
      exact hnone m (h.data_unique lib conf hcandidate ▸ h)
    | undelivered err m h hsend => exact .unproposed data m hstatus hleader h hsend
    | announced m h hsend =>
      have hrequest := sendCertificationRequest_spec lib conf env (lib.peerIDString conf.peerID)
        (n.transactionSystem.summaryOf (some data)) m
      simp only [FGPTxSystem.summaryOf] at hrequest
      dsimp only
      generalize (sendCertificationRequest lib conf env (lib.peerIDString conf.peerID) _).run m =
        requested at hrequest
      cases requested with
      | ok _ m' => exact .requested data m m' hstatus hleader h hrequest hsend
      | error err m' => exact .unrequested data m m' err hstatus hleader h hrequest hsend

/-- The checks a follower makes before it asks the proof-of-work node. -/
structure Electable (n : Node C) (prop : BlockProposal) (uc : UnicityCertificate) : Prop where
  leader_ne : n.leader ≠ ""
  author_eq : prop.nodeID = n.leader
  clean : n.transactionSystem.pendingStateHash = none
  extends_state : lib.isInitial uc = true ∨
    (getStateHash (some uc)).bytes = n.transactionSystem.committedStateHash.bytes

/-- How `voteForProposal` ends. -/
inductive VoteExit (env : Env) (prop : BlockProposal) (uc : UnicityCertificate) (n : Node C) :
    EStateM.Result Err (Node C) Unit → Prop where
  | refused (err : Err) (hrefused : ¬Electable lib n prop uc) :
      VoteExit env prop uc n (.error err n)
  | unverified (err : Err) (helectable : Electable lib n prop uc)
      (hnone : ∀ height, ¬FGPTxSystem.Verified env.pow n.transactionSystem prop.proposedRoot
        height) :
      VoteExit env prop uc n (.error err n.revertState)
  | unrequested (height : UInt64) (err cause : Err) (m : Node C)
      (helectable : Electable lib n prop uc)
      (hverified : FGPTxSystem.Verified env.pow n.transactionSystem prop.proposedRoot height)
      (hrequest : RequestExit lib conf env (lib.peerIDString prop.nodeID)
        (n.transactionSystem.summaryOf prop.proposedRoot)
        (n.setTx (n.transactionSystem.setPending prop.proposedRoot height)) (.error cause m)) :
      VoteExit env prop uc n (.error err m)
  | requested (height : UInt64) (m : Node C) (helectable : Electable lib n prop uc)
      (hverified : FGPTxSystem.Verified env.pow n.transactionSystem prop.proposedRoot height)
      (hrequest : RequestExit lib conf env (lib.peerIDString prop.nodeID)
        (n.transactionSystem.summaryOf prop.proposedRoot)
        (n.setTx (n.transactionSystem.setPending prop.proposedRoot height)) (.ok () m)) :
      VoteExit env prop uc n (.ok () m)

theorem voteForProposal_spec (env : Env) (prop : BlockProposal) (uc : UnicityCertificate)
    (n : Node C) :
    VoteExit lib conf env prop uc n ((voteForProposal lib conf env prop uc).run n) := by
  refine exec_get (exec_ensure (fun hno ↦ ?_) fun hleader ↦ ?_)
  · exact .refused _ fun h ↦ hno ⟨h.leader_ne, h.author_eq⟩
  refine exec_ofExcept (fun err herr ↦ ?_) fun txState hstate ↦ ?_
  · refine .refused _ fun h ↦ ?_
    rw [FGPTxSystem.stateSummary_ok_iff.mpr ⟨h.clean, rfl⟩] at herr
    cases herr
  obtain ⟨hclean, rfl⟩ := FGPTxSystem.stateSummary_ok_iff.mp hstate
  refine exec_ensure (fun hno ↦ ?_) fun hextends ↦ ?_
  · exact .refused _ fun h ↦ hno (h.extends_state.imp_right Slice.equal_iff.mpr)
  have helectable : Electable lib n prop uc :=
    ⟨hleader.1, hleader.2, hclean, hextends.imp_right Slice.equal_iff.mp⟩
  have hverify := FGPTxSystem.followerVerify_spec env.pow n.currentRoundNumber prop.proposedRoot
    n.transactionSystem
  generalize hrun : (FGPTxSystem.followerVerify env.pow n.currentRoundNumber
    prop.proposedRoot).run n.transactionSystem = verified at hverify
  cases hverify with
  | rejected cause h =>
    refine exec_tryCatch (fun err after hafter ↦ ?_) fun summary after hafter ↦ ?_
    · rw [onTx_of_error hrun] at hafter
      cases hafter
      exact .unverified _ helectable h
    · rw [onTx_of_error hrun] at hafter
      cases hafter
  | accepted height hverified =>
    refine exec_tryCatch (fun err after hafter ↦ ?_) fun summary after hafter ↦ ?_
    · rw [onTx_of_ok hrun] at hafter
      cases hafter
    · rw [onTx_of_ok hrun] at hafter
      cases hafter
      have hrequest := sendCertificationRequest_spec lib conf env (lib.peerIDString prop.nodeID)
        (n.transactionSystem.summaryOf prop.proposedRoot)
        (n.setTx (n.transactionSystem.setPending prop.proposedRoot height))
      rw [EStateM.run_adaptExcept]
      generalize (sendCertificationRequest lib conf env _ _).run _ = requested at hrequest
      cases requested with
      | ok _ m => exact .requested height m helectable hverified hrequest
      | error cause m => exact .unrequested height _ cause m helectable hverified hrequest

/-- The proposal passes validation under the node's configuration. -/
def ValidProposal (n : Node C) (prop : BlockProposal) : Prop :=
  ∃ trustBase, conf.trustBaseByEpoch (getRootEpoch prop.unicityCertificate) = .ok trustBase ∧
    BlockProposal.isValid lib (some prop) trustBase n.shardConf = .ok ()

/-- How `handleBlockProposal` ends. -/
inductive ProposalExit (env : Env) (n : Node C) (proposal : Option BlockProposal) :
    EStateM.Result Err (Node C) Unit → Prop where
  | remembered (err : Err) (hstatus : n.status = .recovering) :
      ProposalExit env n proposal (.error err { n with recoveryLastProp := proposal })
  | rejected (err : Err)
      (hrejected : ∀ prop uc, proposal = some prop → prop.unicityCertificate = some uc →
        ValidProposal lib conf n prop → getRootRoundNumber (some uc) < getRootRoundNumber n.luc) :
      ProposalExit env n proposal (.error err n)
  | uncertified (err cause : Err) (prop : BlockProposal) (uc : UnicityCertificate) (m : Node C)
      (hstatus : n.status ≠ .recovering) (hprop : proposal = some prop)
      (huc : prop.unicityCertificate = some uc) (hvalid : ValidProposal lib conf n prop)
      (hnewer : getRootRoundNumber n.luc < getRootRoundNumber (some uc))
      (hexit : UCExit lib conf env n uc (some prop.technical) (.error cause m))
      (hrun : (handleUnicityCertificate lib conf env uc (some prop.technical)).run n =
        .error cause m) :
      ProposalExit env n proposal (.error err m)
  | certified (prop : BlockProposal) (uc : UnicityCertificate) (m : Node C)
      (result : EStateM.Result Err (Node C) Unit)
      (hstatus : n.status ≠ .recovering) (hprop : proposal = some prop)
      (huc : prop.unicityCertificate = some uc) (hvalid : ValidProposal lib conf n prop)
      (hnewer : getRootRoundNumber n.luc < getRootRoundNumber (some uc))
      (hexit : UCExit lib conf env n uc (some prop.technical) (.ok () m))
      (hvote : VoteExit lib conf env prop uc m result)
      (hrun : (handleUnicityCertificate lib conf env uc (some prop.technical)).run n = .ok () m) :
      ProposalExit env n proposal result
  | current (prop : BlockProposal) (uc : UnicityCertificate)
      (result : EStateM.Result Err (Node C) Unit)
      (hstatus : n.status ≠ .recovering) (hprop : proposal = some prop)
      (huc : prop.unicityCertificate = some uc) (hvalid : ValidProposal lib conf n prop)
      (hsame : getRootRoundNumber n.luc = getRootRoundNumber (some uc))
      (hvote : VoteExit lib conf env prop uc n result) : ProposalExit env n proposal result

theorem handleBlockProposal_spec (env : Env) (n : Node C) (proposal : Option BlockProposal) :
    ProposalExit lib conf env n proposal ((handleBlockProposal lib conf env proposal).run n) := by
  refine exec_get (exec_ite (fun hrecovering ↦ .remembered _ hrecovering) fun hstatus ↦ ?_)
  cases proposal with
  | none => exact .rejected _ (by simp)
  | some prop =>
    dsimp only
    refine exec_ofExcept (fun err herr ↦ ?_) fun trustBase htrust ↦ ?_
    · refine .rejected _ ?_
      rintro _ uc ⟨⟩ _ ⟨trustBase, htrust, _⟩
      cases herr.symm.trans htrust
    refine exec_ofExcept (fun err herr ↦ ?_) fun _ hisValid ↦ ?_
    · refine .rejected _ ?_
      rintro _ uc ⟨⟩ _ ⟨_, htrust', hisValid⟩
      cases htrust.symm.trans htrust'
      cases herr.symm.trans hisValid
    have hvalid : ValidProposal lib conf n prop := ⟨trustBase, htrust, hisValid⟩
    cases huc : prop.unicityCertificate with
    | none =>
      refine .rejected _ ?_
      rintro _ uc ⟨⟩ huc'
      cases huc.symm.trans huc'
    | some uc =>
      dsimp only
      refine exec_ensure (fun hstale ↦ ?_) fun hle ↦ ?_
      · refine .rejected _ ?_
        rintro _ uc' ⟨⟩ huc' _
        cases huc.symm.trans huc'
        exact not_le.mp hstale
      refine exec_onlyIf (fun hnewer ↦ ?_) fun hnot ↦ ?_
      · have hcertificate := handleUnicityCertificate_spec lib conf env n uc (some prop.technical)
        refine exec_adaptExcept (fun cause m hrun ↦ ?_) fun _ m hrun ↦ ?_
        · rw [hrun] at hcertificate
          exact .uncertified _ cause prop uc m hstatus rfl huc hvalid hnewer hcertificate hrun
        · rw [hrun] at hcertificate
          exact .certified prop uc m _ hstatus rfl huc hvalid hnewer hcertificate
            (voteForProposal_spec lib conf env prop uc m) hrun
      · have hsame : getRootRoundNumber n.luc = getRootRoundNumber (some uc) := by
          exact UInt64.le_antisymm hle (UInt64.not_lt.mp hnot)
        exact .current prop uc _ hstatus rfl huc hvalid hsame
          (voteForProposal_spec lib conf env prop uc n)

end Exits

/-! ## What requests keep

A leader and a follower change the pending part of the transaction system, record the proposal and
hand messages to the network. Whatever these three leave alone is kept. -/

section Preservation

variable {lib : BaseLibrary C} {conf : NodeConf} {env : Env} {n : Node C}
  {result : EStateM.Result Err (Node C) Unit} {α : Type*} (f : Node C → α)
  (hpending : ∀ (m : Node C) (root : Slice) (height : UInt64),
    f (m.setTx (m.transactionSystem.setPending root height)) = f m)
  (hrecorded : ∀ (m : Node C) (block : Block C), f (m.recorded block) = f m)
  (hpost : ∀ (m : Node C) (message : Message C) (receivers : List PeerID),
    f (m.post message receivers) = f m)

include hpending hrecorded hpost

theorem RequestExit.preserves {author : String} {state : Summary}
    (h : RequestExit lib conf env author state n result) : f (final result) = f n := by
  cases h with
  | unbuilt => rfl
  | unstored => exact hpending n none 0
  | unsent => exact hrecorded n _
  | undelivered | sent => exact (hpost _ _ _).trans (hrecorded n _)

theorem TimeoutExit.preserves (h : TimeoutExit lib conf env n result) :
    f (final result) = f n := by
  have hannounce : ∀ {data m}, Announced lib conf env n data m → f m = f n := by
    rintro data m ⟨height, _, _, _, _, _, rfl⟩
    exact (hpost _ _ _).trans (hpending n _ _)
  cases h with
  | idle => rfl
  | abandoned => exact hpending n none 0
  | unproposed data m _ _ hannounced => exact (hpending m none 0).trans (hannounce hannounced)
  | unrequested data m m' err _ _ hannounced hrequest =>
    have hkept := hrequest.preserves f hpending hrecorded hpost
    exact (hpending m' none 0).trans (hkept.trans (hannounce hannounced))
  | requested data m m' _ _ hannounced hrequest =>
    have hkept := hrequest.preserves f hpending hrecorded hpost
    exact hkept.trans (hannounce hannounced)

theorem VoteExit.preserves {prop : BlockProposal} {uc : UnicityCertificate}
    (h : VoteExit lib conf env prop uc n result) : f (final result) = f n := by
  cases h with
  | refused => rfl
  | unverified => exact hpending n none 0
  | unrequested height err cause m helectable hverified hrequest =>
    have hkept := hrequest.preserves f hpending hrecorded hpost
    exact hkept.trans (hpending n _ _)
  | requested height m helectable hverified hrequest =>
    have hkept := hrequest.preserves f hpending hrecorded hpost
    exact hkept.trans (hpending n _ _)

end Preservation

end FinalityGadget
