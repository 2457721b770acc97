import FinalityGadget.Foundation.CyclicWindow
import FinalityGadget.Partition.Reference

/-!
# Selection of root nodes

A certification request goes to a few root nodes, chosen by the hash of the latest certificate. The
selection loop walks over the list of nodes from an index on and starts over at its end. Before each
pass the nodes chosen so far are the window that the walk has covered, and the loop ends with the
window of the requested size.
-/

namespace FinalityGadget

open Cyclic

/-- A hash read as a big-endian number. -/
def hashValue (hash : List UInt8) : ℕ := hash.foldl (fun value byte ↦ value * 256 + byte.toNat) 0

/-! ## One pass of the loop -/

section Passes

variable {nodes : List PeerID} {index upToNodes idx fuel : ℕ} {chosen : List PeerID} {node : PeerID}

/-- The passes of the selection loop: the index that is read and the nodes chosen before. -/
inductive SelectPass (nodes : List PeerID) (index upToNodes : ℕ) : ℕ → List PeerID → Prop where
  | first : SelectPass nodes index upToNodes index []
  | again {idx : ℕ} {chosen : List PeerID} {node : PeerID}
      (h : SelectPass nodes index upToNodes idx chosen) (hnode : nodes[idx]? = some node)
      (hgo : ¬(next nodes.length idx = index ∨ (chosen ++ [node]).length = upToNodes)) :
      SelectPass nodes index upToNodes (next nodes.length idx) (chosen ++ [node])

theorem selectNodes_succ (hnode : nodes[idx]? = some node) :
    selectNodes nodes index upToNodes (fuel + 1) idx chosen =
      if next nodes.length idx = index ∨ (chosen ++ [node]).length = upToNodes then
        some (chosen ++ [node])
      else selectNodes nodes index upToNodes fuel (next nodes.length idx) (chosen ++ [node]) := by
  rw [selectNodes, hnode]
  rfl

/-- The loop goes through each of its passes. -/
theorem SelectPass.selectNodes_eq (h : SelectPass nodes index upToNodes idx chosen) :
    selectNodes nodes index upToNodes (fuel + chosen.length) index [] =
      selectNodes nodes index upToNodes fuel idx chosen := by
  induction h generalizing fuel with
  | first => rfl
  | @again idx chosen node _ hnode hgo ih =>
    calc
      _ = selectNodes nodes index upToNodes (fuel + 1 + chosen.length) index [] := by
        rw [List.length_append, List.length_singleton, Nat.add_right_comm, Nat.add_assoc]
      _ = selectNodes nodes index upToNodes (fuel + 1) idx chosen := ih
      _ = _ := by rw [selectNodes_succ hnode, if_neg hgo]

/-- Before a pass the walk has covered a window that is still too small. -/
structure Covered (nodes : List PeerID) (index upToNodes idx : ℕ) (chosen : List PeerID) :
    Prop where
  idx_eq : idx = (index + chosen.length) % nodes.length
  chosen_eq : chosen = window nodes index chosen.length
  length_lt : chosen.length < min upToNodes nodes.length

theorem Covered.first (hindex : index < nodes.length) (hpos : 1 ≤ upToNodes) :
    Covered nodes index upToNodes index [] where
  idx_eq := (Nat.mod_eq_of_lt hindex).symm
  chosen_eq := rfl
  length_lt := lt_min hpos (Nat.zero_lt_of_lt hindex)

theorem Covered.idx_lt (h : Covered nodes index upToNodes idx chosen) : idx < nodes.length := by
  rw [h.idx_eq]
  exact Nat.mod_lt _ (Nat.zero_lt_of_lt (lt_min_iff.mp h.length_lt).2)

/-- A pass adds the next node of the window. -/
theorem Covered.append_eq (h : Covered nodes index upToNodes idx chosen)
    (hnode : nodes[idx]? = some node) :
    chosen ++ [node] = window nodes index (chosen.length + 1) := by
  have hlt : chosen.length < nodes.length := (lt_min_iff.mp h.length_lt).2
  rw [h.idx_eq] at hnode
  rw [window_succ hlt hnode, ← h.chosen_eq]

theorem Covered.next_eq (h : Covered nodes index upToNodes idx chosen) :
    next nodes.length idx = (index + (chosen.length + 1)) % nodes.length := by
  have hlt := (lt_min_iff.mp h.length_lt).2
  rw [h.idx_eq, next_mod (Nat.zero_lt_of_lt hlt), Nat.add_assoc]

/-- The loop stops when the window has its size: back at the start index, it holds every node. -/
theorem Covered.stop_iff (h : Covered nodes index upToNodes idx chosen)
    (hindex : index < nodes.length) :
    (next nodes.length idx = index ∨ (chosen ++ [node]).length = upToNodes) ↔
      chosen.length + 1 = min upToNodes nodes.length := by
  have hlt := h.length_lt
  have hturn : (index + (chosen.length + 1)) % nodes.length = index ↔
      chosen.length + 1 = nodes.length :=
    add_mod_eq_self_iff hindex (Nat.succ_pos _) (lt_min_iff.mp hlt).2
  rw [h.next_eq, hturn, List.length_append, List.length_singleton]
  omega

theorem Covered.again (h : Covered nodes index upToNodes idx chosen) (hindex : index < nodes.length)
    (hnode : nodes[idx]? = some node)
    (hgo : ¬(next nodes.length idx = index ∨ (chosen ++ [node]).length = upToNodes)) :
    Covered nodes index upToNodes (next nodes.length idx) (chosen ++ [node]) := by
  have hlength : (chosen ++ [node]).length = chosen.length + 1 := by
    rw [List.length_append, List.length_singleton]
  have hmore : chosen.length + 1 ≠ min upToNodes nodes.length := fun hfull ↦
    hgo ((h.stop_iff hindex).mpr hfull)
  refine ⟨?_, ?_, ?_⟩
  · rw [hlength, h.next_eq]
  · rw [hlength, h.append_eq hnode]
  · rw [hlength]
    exact lt_of_le_of_ne h.length_lt hmore

end Passes

/-! ## The whole loop -/

section Selection

variable {nodes : List PeerID} {index upToNodes idx fuel : ℕ} {chosen : List PeerID}

theorem SelectPass.covered (h : SelectPass nodes index upToNodes idx chosen)
    (hindex : index < nodes.length) (hpos : 1 ≤ upToNodes) :
    Covered nodes index upToNodes idx chosen := by
  induction h with
  | first => exact .first hindex hpos
  | again _ hnode hgo ih => exact ih.again hindex hnode hgo

/-- From any pass on, as many passes as nodes are missing are enough. -/
theorem Covered.selectNodes_eq (h : Covered nodes index upToNodes idx chosen)
    (hindex : index < nodes.length) (hfuel : min upToNodes nodes.length ≤ fuel + chosen.length) :
    selectNodes nodes index upToNodes fuel idx chosen =
      some (window nodes index (min upToNodes nodes.length)) := by
  induction fuel generalizing idx chosen with
  | zero =>
    have hlt := h.length_lt
    omega
  | succ fuel ih =>
    obtain ⟨node, hnode⟩ : ∃ node, nodes[idx]? = some node :=
      ⟨_, List.getElem?_eq_getElem h.idx_lt⟩
    rw [selectNodes_succ hnode]
    split
    · rename_i hstop
      rw [h.append_eq hnode, (h.stop_iff hindex).mp hstop]
    · rename_i hgo
      apply ih (h.again hindex hnode hgo)
      rw [List.length_append, List.length_singleton]
      omega

theorem selectNodes_eq_window (hindex : index < nodes.length) (hpos : 1 ≤ upToNodes)
    (hfuel : min upToNodes nodes.length ≤ fuel) :
    selectNodes nodes index upToNodes fuel index [] =
      some (window nodes index (min upToNodes nodes.length)) :=
  (Covered.first hindex hpos).selectNodes_eq hindex hfuel

end Selection

section Selector

variable {C : Type} (lib : BaseLibrary C) {uc : UnicityCertificate} {hash : List UInt8}
  {nodes : List PeerID} {upToNodes : ℕ}

theorem rootNodesSelector_of_le (hne : nodes ≠ []) (hpos : 1 ≤ upToNodes)
    (hle : nodes.length ≤ upToNodes) :
    rootNodesSelector lib (some uc) nodes upToNodes = .ok nodes := by
  have hsome : ¬nodes.length < 1 := Nat.not_lt.mpr (List.length_pos_of_ne_nil hne)
  rw [rootNodesSelector, if_neg hsome, if_neg (Nat.ne_zero_of_lt hpos), if_pos hle]

theorem rootNodesSelector_of_lt (hhash : lib.certificateHash uc = .ok hash) (hne : nodes ≠ [])
    (hpos : 1 ≤ upToNodes) (hlt : upToNodes < nodes.length) :
    rootNodesSelector lib (some uc) nodes upToNodes =
      .ok (window nodes (hashValue hash % nodes.length) upToNodes) := by
  have hcount : 0 < nodes.length := List.length_pos_of_ne_nil hne
  have hloop := selectNodes_eq_window (Nat.mod_lt (hashValue hash) hcount) hpos
    (min_le_right upToNodes nodes.length)
  rw [min_eq_left hlt.le] at hloop
  rw [rootNodesSelector, if_neg (Nat.not_lt.mpr hcount), if_neg (Nat.ne_zero_of_lt hpos),
    if_neg (Nat.not_le.mpr hlt), hhash]
  unfold hashValue at hloop ⊢
  simp only [hloop]

/-- The selection succeeds with the requested number of distinct nodes, or with all of them. Where
there are more, they are the window that starts at the hash modulo their number. The loop needs one
pass for each node of its window, and no pass reads outside of the list. -/
theorem rootNodesSelector_distinct (hhash : lib.certificateHash uc = .ok hash) (hne : nodes ≠ [])
    (hnodup : nodes.Nodup) (hpos : 1 ≤ upToNodes) :
    ∃ chosen, rootNodesSelector lib (some uc) nodes upToNodes = .ok chosen ∧
      chosen.length = min upToNodes nodes.length ∧ chosen.Nodup ∧ chosen ⊆ nodes ∧
      (upToNodes < nodes.length → chosen = window nodes (hashValue hash % nodes.length) upToNodes ∧
        ∀ i < upToNodes, chosen[i]? = nodes[(hashValue hash + i) % nodes.length]?) ∧
      (∀ fuel ≥ min upToNodes nodes.length,
        selectNodes nodes (hashValue hash % nodes.length) upToNodes fuel
            (hashValue hash % nodes.length) [] =
          some (window nodes (hashValue hash % nodes.length) (min upToNodes nodes.length))) ∧
      ∀ idx before, SelectPass nodes (hashValue hash % nodes.length) upToNodes idx before →
        idx < nodes.length := by
  have hindex : hashValue hash % nodes.length < nodes.length :=
    Nat.mod_lt _ (List.length_pos_of_ne_nil hne)
  have hbounds : ∀ idx before,
      SelectPass nodes (hashValue hash % nodes.length) upToNodes idx before →
        idx < nodes.length := fun idx before hpass ↦ (hpass.covered hindex hpos).idx_lt
  rcases Nat.lt_or_ge upToNodes nodes.length with hlt | hle
  · refine ⟨_, rootNodesSelector_of_lt lib hhash hne hpos hlt, length_window _ _ _,
      nodup_window hnodup _ _, window_subset _ _ _, fun _ ↦ ⟨rfl, fun i hi ↦ ?_⟩,
      fun _ hfuel ↦ selectNodes_eq_window hindex hpos hfuel, hbounds⟩
    rw [getElem?_window hi (hi.trans hlt), Nat.mod_add_mod]
  · exact ⟨nodes, rootNodesSelector_of_le lib hne hpos hle, (min_eq_right hle).symm, hnodup,
      List.Subset.refl _, fun hlt ↦ absurd hlt hle.not_gt,
      fun _ hfuel ↦ selectNodes_eq_window hindex hpos hfuel, hbounds⟩

end Selector

/-- The certificate of root round 6 selects from the third of four nodes on. -/
theorem rootNodesSelector_distinct_four :
    ∃ chosen, rootNodesSelector referenceLibrary (some Reference.proposalUC)
        ["R1", "R2", "R3", "R4"] 3 = .ok chosen ∧
      chosen.length = 3 ∧ chosen[0]? = some "R3" ∧ chosen[1]? = some "R4" ∧
      chosen[2]? = some "R1" := by
  have hhash : referenceLibrary.certificateHash Reference.proposalUC =
      .ok [0, 0, 0, 0, 0, 0, 0, 6] := rfl
  have hnodup : ["R1", "R2", "R3", "R4"].Nodup := by decide
  have hpos : 1 ≤ 3 := by decide
  obtain ⟨chosen, hok, hlength, -, -, hwindow, -, -⟩ :=
    rootNodesSelector_distinct referenceLibrary hhash (by decide) hnodup hpos
  obtain ⟨-, hentries⟩ := hwindow (by decide)
  exact ⟨chosen, hok, hlength, hentries 0 (by decide), hentries 1 (by decide),
    hentries 2 (by decide)⟩

end FinalityGadget
