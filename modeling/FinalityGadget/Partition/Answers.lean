import Mathlib.Tactic.Abel
import FinalityGadget.Partition.Serving
import FinalityGadget.Partition.Traffic

/-!
# Answering replication requests

A valid request is answered at once or waits in the queue until a worker takes it. So at any time
the answers that were sent and the requests in the queue together are the requests that came in:
none is answered twice, and none is lost unless the workers panic, because the configured number of
blocks is too large for a list. The queue never outgrows the number of workers.
-/

namespace FinalityGadget

open Bytes Fallible

variable {C : Type}

/-- Whom an answer to the request goes to, and which request it names. There is none when the
requester cannot be decoded. -/
def LedgerReplicationRequest.answerTo (lib : BaseLibrary C) (lr : LedgerReplicationRequest) :
    Option (List PeerID × ℕ) :=
  match lib.decodePeerID lr.nodeID with
  | .ok id => some ([id], lr.uuid)
  | .error _ => none

/-- The answer that a message is. -/
def Sent.answer (sent : Sent C) : Option (List PeerID × ℕ) :=
  match sent.message with
  | .replicationResponse msg => some (sent.receivers, msg.uuid)
  | _ => none

/-- The answers handed to the network. -/
def Node.answers (n : Node C) : List (List PeerID × ℕ) := n.sent.filterMap Sent.answer

/-- The answers to the requests that wait for a worker. -/
def Node.awaited (lib : BaseLibrary C) (n : Node C) : List (List PeerID × ℕ) :=
  n.replicationCh.filterMap fun lr ↦ lr.answerTo lib

/-- The answer that an event asks for. -/
def Event.asks (lib : BaseLibrary C) : Event C → Option (List PeerID × ℕ)
  | .ledgerReplicationRequest request =>
    match LedgerReplicationRequest.isValid request with
    | .ok _ => (request.getD default).answerTo lib
    | .error _ => none
  | _ => none

/-! ## Messages -/

section Messages

variable {n : Node C}

theorem answers_post (n : Node C) (message : Message C) (receivers : List PeerID) :
    (n.post message receivers).answers =
      n.answers ++ (Sent.answer ⟨message, receivers, n.toNodeState⟩).toList := by
  simp only [Node.answers, Node.post, List.filterMap_append]
  cases hanswer : Sent.answer ⟨message, receivers, n.toNodeState⟩ <;> simp [hanswer]

theorem answers_of_sent {n m : Node C} (h : m.sent = n.sent) : m.answers = n.answers :=
  congrArg (List.filterMap Sent.answer) h

/-- Nothing was answered and nothing was queued. -/
structure Unserved (n n' : Node C) : Prop where
  answers : n'.answers = n.answers
  queue : n'.replicationCh = n.replicationCh

theorem unserved_post (n : Node C) {message : Message C} (receivers : List PeerID)
    (h : Sent.answer ⟨message, receivers, n.toNodeState⟩ = none) :
    Unserved n (n.post message receivers) := by
  refine ⟨?_, rfl⟩
  rw [answers_post, h, Option.toList_none, List.append_nil]

theorem Unserved.trans {m n' : Node C} (h : Unserved n m) (h' : Unserved m n') : Unserved n n' :=
  ⟨h'.answers.trans h.answers, h'.queue.trans h.queue⟩

theorem Campaigns.unserved {n' : Node C} (h : Campaigns conf n n') : Unserved n n' := by
  obtain ⟨⟨news, hsent, hnews⟩, hqueue⟩ := h
  have hnone : news.filterMap Sent.answer = [] := by
    refine List.filterMap_eq_nil_iff.mpr fun sent hmem ↦ ?_
    have hconsensus := hnews sent hmem
    unfold Sent.answer
    cases hmessage : sent.message with
    | replicationResponse msg =>
      rw [hmessage] at hconsensus
      cases hconsensus
    | _ => rfl
  refine ⟨?_, hqueue⟩
  rw [Node.answers, hsent, List.filterMap_append, hnone, List.append_nil]
  rfl

theorem carries_unserved (lib : BaseLibrary C) (conf : NodeConf) :
    Carries lib conf (fun _ ↦ True) (Unserved : Node C → Node C → Prop) where
  trans h h' := h.trans h'
  kept hsent hqueue _ := ⟨answers_of_sent hsent, hqueue⟩
  routine n message receivers hroutine := by
    apply unserved_post
    cases message with
    | handshake | replicationRequest => rfl
    | _ => exact hroutine.elim
  remembers _ _ _ := ⟨rfl, rfl⟩
  proposes h := h.campaigns.unserved
  votes _ _ _ _ _ h := h.campaigns.unserved

end Messages

/-! ## The service -/

section Service

variable {lib : BaseLibrary C} {conf : NodeConf}

/-- An answer is sent to the requester, if that one can be decoded. -/
theorem sendResponse_answers (lib : BaseLibrary C) (env : Env) (msg : LedgerReplicationResponse C)
    {lr : LedgerReplicationRequest} (huuid : msg.uuid = lr.uuid) (n : Node C) :
    (final ((sendLedgerReplicationResponse lib env msg lr.nodeID).run n)).answers =
        n.answers ++ (lr.answerTo lib).toList ∧
      (final ((sendLedgerReplicationResponse lib env msg lr.nodeID).run n)).replicationCh =
        n.replicationCh := by
  unfold sendLedgerReplicationResponse LedgerReplicationRequest.answerTo
  cases lib.decodePeerID lr.nodeID with
  | error err => exact ⟨(List.append_nil _).symm, rfl⟩
  | ok id =>
    have hpost : (n.post (.replicationResponse msg) [id]).answers =
        n.answers ++ [([id], lr.uuid)] := by
      rw [answers_post, ← huuid]
      rfl
    cases env.sendResponse <;> exact ⟨hpost, rfl⟩

/-- Sent and awaited answers, those that are lost because a worker has panicked, and the bound on
the queue. -/
structure Accounted (lib : BaseLibrary C) (conf : NodeConf) (asked : List (List PeerID × ℕ))
    (n : Node C) : Prop where
  answered : ∃ lost : Multiset (List PeerID × ℕ),
    (n.answers : Multiset (List PeerID × ℕ)) + n.awaited lib + lost = asked ∧
      (conf.replicationConfig.Allocates → lost = 0)
  bounded : n.replicationCh.length ≤ conf.replicationConfig.maxWorkers.toNat

/-- Only what was asked for is answered, and at most once. -/
theorem Accounted.answers_le {n : Node C} {asked : List (List PeerID × ℕ)}
    (h : Accounted lib conf asked n) : (n.answers : Multiset (List PeerID × ℕ)) ≤ asked := by
  obtain ⟨lost, hasked, _⟩ := h.answered
  rw [← hasked, add_assoc]
  exact Multiset.le_add_right _ _

theorem Unserved.accounted {n n' : Node C} {asked : List (List PeerID × ℕ)}
    (h : Unserved n n') (haccounted : Accounted lib conf asked n) :
    Accounted lib conf asked n' where
  answered := by
    rw [h.answers, Node.awaited, h.queue]
    exact haccounted.answered
  bounded := by
    rw [h.queue]
    exact haccounted.bounded

/-- One more answer was sent while the queue stays as it is. -/
theorem Accounted.answer {n n' : Node C} {asked answer : List (List PeerID × ℕ)}
    (h : Accounted lib conf asked n) (hanswers : n'.answers = n.answers ++ answer)
    (hqueue : n'.replicationCh = n.replicationCh) : Accounted lib conf (asked ++ answer) n' where
  answered := by
    have hawaited : n'.awaited lib = n.awaited lib := by rw [Node.awaited, Node.awaited, hqueue]
    obtain ⟨lost, hasked, hnone⟩ := h.answered
    refine ⟨lost, ?_, hnone⟩
    rw [hanswers, hawaited, ← Multiset.coe_add, ← Multiset.coe_add, ← hasked]
    abel
  bounded := by
    rw [hqueue]
    exact h.bounded

/-- A request is answered, or it is queued when there is room. -/
theorem Accounted.request {n : Node C} {asked : List (List PeerID × ℕ)}
    (h : Accounted lib conf asked n) (env : Env) (request : Option LedgerReplicationRequest) :
    Accounted lib conf (asked ++ (Event.asks lib (.ledgerReplicationRequest request)).toList)
      (final ((handleLedgerReplicationRequest lib conf env request).run n)) := by
  have hexit : ServiceExit lib conf env n request
      ((handleLedgerReplicationRequest lib conf env request).run n) :=
    handleLedgerReplicationRequest_spec env n request
  generalize (handleLedgerReplicationRequest lib conf env request).run n = result at hexit
  unfold Event.asks
  cases hexit with
  | invalid err cause hvalid =>
    simp only [hvalid, Option.toList_none, List.append_nil]
    exact h
  | replied lr msg hrequest hvalid huuid =>
    obtain ⟨hanswers, hqueue⟩ := sendResponse_answers lib env msg huuid n
    simp only [hvalid, hrequest]
    exact h.answer hanswers hqueue
  | queued lr hrequest hvalid hroom =>
    simp only [hvalid, hrequest]
    refine ⟨?_, ?_⟩
    · have hawaited : Node.awaited lib { n with replicationCh := n.replicationCh ++ [lr] } =
          n.awaited lib ++ (lr.answerTo lib).toList := by
        rw [Node.awaited, Node.awaited, List.filterMap_append]
        cases hanswer : lr.answerTo lib <;> simp [hanswer]
      have hkept : Node.answers { n with replicationCh := n.replicationCh ++ [lr] } = n.answers :=
        rfl
      obtain ⟨lost, hasked, hnone⟩ := h.answered
      refine ⟨lost, ?_, hnone⟩
      rw [final_ok, hawaited, hkept, ← Multiset.coe_add, ← Multiset.coe_add, ← hasked]
      abel
    · simpa using Nat.succ_le_of_lt hroom

/-- A worker answers the first waiting request, or loses it. -/
theorem Accounted.worker {n : Node C} {asked : List (List PeerID × ℕ)}
    (h : Accounted lib conf asked n) (env : Env) :
    Accounted lib conf asked (final ((replicationWorker lib conf env).run n)) := by
  obtain ⟨lost, hasked, hnone⟩ := h.answered
  -- the request leaves the queue in both cases
  have hawaited : ∀ {lr rest}, n.replicationCh = lr :: rest →
      (n.awaited lib : Multiset (List PeerID × ℕ)) = (lr.answerTo lib).toList +
        Node.awaited lib { n with replicationCh := rest } := by
    intro lr rest hqueue
    rw [Node.awaited, Node.awaited, hqueue, Multiset.coe_add]
    cases hanswer : lr.answerTo lib <;> simp [hanswer]
  have hbounded : ∀ {lr rest}, n.replicationCh = lr :: rest →
      rest.length ≤ conf.replicationConfig.maxWorkers.toNat := by
    intro lr rest hqueue
    have hbounded := h.bounded
    rw [hqueue, List.length_cons] at hbounded
    exact (Nat.le_succ rest.length).trans hbounded
  have hexit := replicationWorker_spec lib conf env n
  generalize final ((replicationWorker lib conf env).run n) = after at hexit
  cases hexit with
  | idle => exact h
  | panicked lr rest hqueue hcap =>
    refine ⟨⟨(lr.answerTo lib).toList + lost, ?_, fun hfits ↦ absurd hfits hcap.not_ge⟩,
      hbounded hqueue⟩
    have hkept : Node.answers { n with replicationCh := rest } = n.answers := rfl
    rw [← hasked, hawaited hqueue, hkept]
    abel
  | answered lr rest msg hqueue huuid =>
    obtain ⟨hanswers, hkept⟩ :=
      sendResponse_answers lib env msg huuid { n with replicationCh := rest }
    refine ⟨⟨lost, ?_, hnone⟩, ?_⟩
    · have hsame : Node.answers { n with replicationCh := rest } = n.answers := rfl
      have hrest : Node.awaited lib (final ((sendLedgerReplicationResponse lib env msg
          lr.nodeID).run { n with replicationCh := rest })) =
          Node.awaited lib { n with replicationCh := rest } := by rw [Node.awaited, hkept]; rfl
      rw [hanswers, hrest, hsame, ← Multiset.coe_add, ← hasked, hawaited hqueue]
      abel
    · rw [hkept]
      exact hbounded hqueue

theorem Accounted.step {n : Node C} {asked : List (List PeerID × ℕ)}
    (h : Accounted lib conf asked n) (input : Input C) :
    Accounted lib conf (asked ++ (input.event.asks lib).toList)
      (FinalityGadget.step lib conf n input) := by
  have hother (hservice : input.event.isService = false) :
      Unserved n (FinalityGadget.step lib conf n input) := by
    refine (carries_unserved lib conf).step ?_ (fun _ _ ↦ trivial) hservice
    unfold Event.Delivers
    split <;> trivial
  obtain ⟨event, envs⟩ := input
  cases event with
  | ledgerReplicationRequest request => exact h.request (envs 0) request
  | replicationWorker =>
    simp only [Event.asks, Option.toList_none, List.append_nil]
    exact h.worker (envs 0)
  | _ =>
    simp only [Event.asks, Option.toList_none, List.append_nil]
    exact (hother rfl).accounted h

theorem Accounted.run {n : Node C} {asked : List (List PeerID × ℕ)}
    (h : Accounted lib conf asked n) (inputs : List (Input C)) :
    Accounted lib conf (asked ++ inputs.filterMap fun input ↦ input.event.asks lib)
      (runNode lib conf n inputs) := by
  induction inputs generalizing n asked with
  | nil =>
    rw [List.filterMap_nil, List.append_nil]
    exact h
  | cons input rest ih =>
    have hsplit : (input :: rest).filterMap (fun input ↦ input.event.asks lib) =
        (input.event.asks lib).toList ++ rest.filterMap fun input ↦ input.event.asks lib := by
      cases hasks : input.event.asks lib <;> simp [hasks]
    rw [hsplit, ← List.append_assoc]
    exact ih (h.step input)

theorem Starts.accounted {store : BlockStore C} {start : Node C}
    (h : Starts lib conf store start) : Accounted lib conf [] start := by
  obtain ⟨hqueue, _⟩ := h.queues_empty
  have hsent := (started_of_starts lib conf h).sent
  refine ⟨⟨0, ?_, fun _ ↦ rfl⟩, ?_⟩
  · rw [Node.answers, Node.awaited, hsent, hqueue]
    rfl
  · rw [hqueue]
    exact Nat.zero_le _

end Service

section Reference

open Reference

namespace Reference

end Reference

end Reference

end FinalityGadget
