import SpringQL.QuerySubtask.Run

/-!
# SpringQL.QuerySubtask.Termination

`run` on the trees it is written for (`LeafShaped`): nonempty, acyclic, and the collect nodes
are exactly the nodes with no child. On such a tree nothing in `run` panics and its loop ends:

* `LeafShaped.leafNodeIdx_ok`: a childless node exists, so `leaf_node_idx` finds one, and it is
  a collect node (`LeafShaped.leaf_collect`).
* `LeafShaped.ancestor_not_collect`: every node the loop visits has a child, so it is not a
  collect node and `run_non_leaf` runs it as a projection or an evaluation.
* `LeafShaped.run_eq`: with `nodeCount - 1` iterations of fuel or more, `run` is the leaf's
  output pushed through `runLevels` over the visited nodes; `LeafShaped.run_not_panic` follows.
* `run_terminates_without_panic`: the same for a subtask tree built `From<&QueryPlan>`.
-/

namespace SpringQL
namespace QuerySubtask

open Petgraph

variable {σ τ Op : Type}

/-- The trees `run` is written for. -/
structure LeafShaped (t : QuerySubtask σ τ) : Prop where
  nonempty : 0 < t.tree.nodeCount
  acyclic : t.tree.Acyclic
  collect_iff : ∀ i node, t.tree.nodeWeight i = some node →
    (node.isCollect = true ↔ ∀ j, ¬ t.tree.Adj i j)

section Runs

variable {t : QuerySubtask σ τ}

theorem runLeaf_collect {i : Nat} {collect : σ → Option (QuerySubtaskOut τ) × σ}
    (hn : t.tree.nodeWeight i = some (.collect collect)) (context : σ) :
    t.runLeaf i context = (.ok (collect context).1, (collect context).2) := by
  simp [runLeaf, hn]

/-- A projection or an evaluation node runs its subtask and wraps the tuple. -/
theorem runNonLeaf_of_not_collect {p : Nat} {node : QuerySubtaskNode σ τ}
    (hn : t.tree.nodeWeight p = some node) (hc : node.isCollect = false) :
    ∃ f : τ → Except SpringError τ, ∀ x, t.runNonLeaf p x = (Fault.lift (f x)).map fun y => [y] := by
  cases node with
  | projection f => exact ⟨f, fun x => by simp [runNonLeaf, hn]⟩
  | evalValueExpr f => exact ⟨f, fun x => by simp [runNonLeaf, hn]⟩
  | collect _ => cases hc

theorem runLevels_not_panic {ps : List Nat}
    (hps : ∀ p ∈ ps, ∃ f : τ → Except SpringError τ,
      ∀ x, t.runNonLeaf p x = (Fault.lift (f x)).map fun y => [y])
    (tuples : List τ) (msg : String) : t.runLevels ps tuples ≠ .error (.panic msg) := by
  induction ps generalizing tuples with
  | nil => simp [runLevels]
  | cons p ps ih =>
    simp only [runLevels]
    cases hm : tuples.mapM (t.runNonLeaf p) with
    | ok tupless => exact ih (fun q hq => hps q (List.mem_cons_of_mem p hq)) _
    | error f =>
      obtain ⟨x, -, hx⟩ := mapM_eq_error hm
      obtain ⟨g, hg⟩ := hps p (List.mem_cons_self p ps)
      rw [hg] at hx
      cases hgx : g x <;> simp [hgx, Except.map] at hx
      simp [← hx]

end Runs

namespace LeafShaped

variable {t : QuerySubtask σ τ} (ht : t.LeafShaped)
include ht

theorem leafNodeIdx_ok : ∃ leaf, t.leafNodeIdx = .ok leaf := by
  obtain ⟨i, hi, hc⟩ := DiGraph.exists_childless ht.nonempty ht.acyclic
  exact leafNodeIdx_of_childless hi hc

theorem leaf_collect {leaf : Nat} (h : t.leafNodeIdx = .ok leaf) :
    ∃ collect, t.tree.nodeWeight leaf = some (.collect collect) := by
  obtain ⟨hlt, hc⟩ := leafNodeIdx_eq_ok h
  obtain ⟨node, hn⟩ := DiGraph.nodeWeight_isSome hlt
  have hcol := (ht.collect_iff leaf node hn).mpr hc
  cases node with
  | collect collect => exact ⟨collect, hn⟩
  | _ => cases hcol

theorem ancestor_not_collect {i fuel p : Nat} (hp : p ∈ t.ancestors i fuel) :
    ∃ node, t.tree.nodeWeight p = some node ∧ node.isCollect = false := by
  obtain ⟨k, hk⟩ := DiGraph.walk_mem_adj (fun _ _ h => parentNodeIdx_adj h) hp
  obtain ⟨node, hn⟩ := DiGraph.nodeWeight_isSome (DiGraph.adj_lt hk).1
  refine ⟨node, hn, ?_⟩
  cases hc : node.isCollect
  · rfl
  · exact absurd hk ((ht.collect_iff p node hn).mp hc k)

theorem ancestors_unary (i fuel : Nat) :
    ∀ p ∈ t.ancestors i fuel, ∃ f : τ → Except SpringError τ,
      ∀ x, t.runNonLeaf p x = (Fault.lift (f x)).map fun y => [y] := by
  intro p hp
  obtain ⟨node, hn, hc⟩ := ht.ancestor_not_collect hp
  exact runNonLeaf_of_not_collect hn hc

/-- The walk from the leaf visits pairwise distinct nodes, at most `nodeCount - 1` of them, and
has stopped when the fuel is `nodeCount - 1` or more. -/
theorem ancestors_terminate {leaf fuel : Nat} (h : t.leafNodeIdx = .ok leaf)
    (hfuel : t.tree.nodeCount - 1 ≤ fuel) :
    (leaf :: t.ancestors leaf fuel).Nodup ∧ (t.ancestors leaf fuel).length ≤ t.tree.nodeCount - 1 ∧
      t.parentNodeIdx ((t.ancestors leaf fuel).getLastD leaf) = none := by
  have hp : ∀ i j, t.parentNodeIdx i = some j → t.tree.Adj j i := fun _ _ h => parentNodeIdx_adj h
  have hlt := (leafNodeIdx_eq_ok h).1
  exact ⟨DiGraph.walk_nodup hp ht.acyclic leaf fuel,
    Nat.le_sub_one_of_lt (DiGraph.walk_length_lt hp ht.acyclic hlt fuel),
    DiGraph.walk_terminates hp ht.acyclic hlt hfuel⟩

/-- With enough fuel, `run` is the leaf's output pushed through the levels of its ancestors. -/
theorem run_eq {leaf fuel : Nat} {collect : σ → Option (QuerySubtaskOut τ) × σ}
    (h : t.leafNodeIdx = .ok leaf) (hn : t.tree.nodeWeight leaf = some (.collect collect))
    (hfuel : t.tree.nodeCount - 1 ≤ fuel) (context : σ) :
    t.run fuel context =
      match (collect context).1 with
      | none => (some (.ok none), (collect context).2)
      | some leafOut =>
        (some ((t.runLevels (t.ancestors leaf fuel) leafOut.valuesSeq).map fun nextTuples =>
          some ⟨nextTuples, leafOut.inQueueMetricsUpdate⟩), (collect context).2) := by
  have hleaf := runLeaf_collect hn context
  cases hc : (collect context).1 with
  | none => simp [run, h, hleaf, hc]
  | some leafOut =>
    rw [run_of_leaf h (by rw [hleaf, hc]), runParents_eq_runLevels (ht.ancestors_terminate h hfuel).2.2]
    rfl

theorem run_not_panic {fuel : Nat} (hfuel : t.tree.nodeCount - 1 ≤ fuel) (context : σ) :
    ∃ r, (t.run fuel context).1 = some r ∧ ∀ msg, r ≠ .error (.panic msg) := by
  obtain ⟨leaf, h⟩ := ht.leafNodeIdx_ok
  obtain ⟨collect, hn⟩ := ht.leaf_collect h
  rw [ht.run_eq h hn hfuel context]
  cases (collect context).1 with
  | none => exact ⟨_, rfl, fun msg => by simp⟩
  | some leafOut =>
    refine ⟨_, rfl, fun msg hr =>
      runLevels_not_panic (ht.ancestors_unary leaf fuel) leafOut.valuesSeq msg ?_⟩
    cases hl : t.runLevels (t.ancestors leaf fuel) leafOut.valuesSeq <;> simp_all [Except.map]

end LeafShaped

theorem fromQueryPlan_leafShaped {nodeOf : Op → QuerySubtaskNode σ τ} {plan : QueryPlan Op}
    (hne : 0 < plan.asPetgraph.nodeCount) (hacyc : plan.asPetgraph.Acyclic)
    (hcollect : ∀ i op, plan.asPetgraph.nodeWeight i = some op →
      ((nodeOf op).isCollect = true ↔ ∀ j, ¬ plan.asPetgraph.Adj i j)) :
    (fromQueryPlan nodeOf plan).LeafShaped where
  nonempty := by simpa [fromQueryPlan] using hne
  acyclic i hi := hacyc i (by
    simpa [fromQueryPlan, DiGraph.Adj, DiGraph.map] using hi)
  collect_iff i node hn := by
    simp only [fromQueryPlan, DiGraph.map_nodeWeight, Option.map_eq_some'] at hn
    obtain ⟨op, hop, rfl⟩ := hn
    simpa [fromQueryPlan] using hcollect i op hop

/-- On a nonempty acyclic plan whose collect nodes are exactly its childless nodes,
`leaf_node_idx` finds a collect node, the loop's walk from it visits distinct nodes, none of them a
collect node, and stops within `nodeCount - 1` iterations, and `run` with that much fuel returns
without a panic. -/
theorem run_terminates_without_panic (nodeOf : Op → QuerySubtaskNode σ τ) (plan : QueryPlan Op)
    (hne : 0 < plan.asPetgraph.nodeCount) (hacyc : plan.asPetgraph.Acyclic)
    (hcollect : ∀ i op, plan.asPetgraph.nodeWeight i = some op →
      ((nodeOf op).isCollect = true ↔ ∀ j, ¬ plan.asPetgraph.Adj i j)) :
    ∃ leaf, (fromQueryPlan nodeOf plan).leafNodeIdx = .ok leaf ∧
      (∃ collect, (fromQueryPlan nodeOf plan).tree.nodeWeight leaf = some (.collect collect)) ∧
      (leaf :: (fromQueryPlan nodeOf plan).ancestors leaf (plan.asPetgraph.nodeCount - 1)).Nodup ∧
      (fromQueryPlan nodeOf plan).parentNodeIdx
          (((fromQueryPlan nodeOf plan).ancestors leaf (plan.asPetgraph.nodeCount - 1)).getLastD
            leaf) = none ∧
      (∀ p ∈ (fromQueryPlan nodeOf plan).ancestors leaf (plan.asPetgraph.nodeCount - 1),
        ∃ node, (fromQueryPlan nodeOf plan).tree.nodeWeight p = some node ∧
          node.isCollect = false) ∧
      ∀ fuel, plan.asPetgraph.nodeCount - 1 ≤ fuel → ∀ context,
        ∃ r, ((fromQueryPlan nodeOf plan).run fuel context).1 = some r ∧
          ∀ msg, r ≠ .error (.panic msg) := by
  have ht := fromQueryPlan_leafShaped hne hacyc hcollect
  have hn : (fromQueryPlan nodeOf plan).tree.nodeCount = plan.asPetgraph.nodeCount := by
    simp [fromQueryPlan]
  obtain ⟨leaf, h⟩ := ht.leafNodeIdx_ok
  obtain ⟨hnodup, -, hstop⟩ := ht.ancestors_terminate h (by rw [hn])
  exact ⟨leaf, h, ht.leaf_collect h, hnodup, hstop, fun p hp => ht.ancestor_not_collect hp,
    fun fuel hfuel => ht.run_not_panic (hn ▸ hfuel)⟩

/-- A projection `f` over a collect leaf that returns `rows` once per call: node `0` is the
projection, node `1` the leaf, and the one edge goes from `0` to `1`. -/
def projectCollect (f : Nat → Except SpringError Nat) (rows : List Nat) :
    QueryPlan (QuerySubtaskNode Unit Nat) where
  asPetgraph :=
    { nodes := [.projection f, .collect fun s => (some ⟨rows, ⟨rows.length, 8 * rows.length⟩⟩, s)]
      edges := [⟨0, 1, .left⟩]
      edges_valid := by simp }

theorem projectCollect_collect_iff (f : Nat → Except SpringError Nat) (rows : List Nat) :
    ∀ i op, (projectCollect f rows).asPetgraph.nodeWeight i = some op →
      (op.isCollect = true ↔ ∀ j, ¬ (projectCollect f rows).asPetgraph.Adj i j) :=
  fun _ _ => DiGraph.leavesAre_spec (g := (projectCollect f rows).asPetgraph)
    (p := QuerySubtaskNode.isCollect) rfl

/-- The plan that adds one to each of its leaf's tuples `1, 2`. -/
def incrementPlan : QueryPlan (QuerySubtaskNode Unit Nat) := projectCollect (fun x => .ok (x + 1)) [1, 2]

/-- The subtask tree of `incrementPlan`. -/
def incrementSubtask : QuerySubtask Unit Nat := fromQueryPlan id incrementPlan

theorem run_terminates_projectCollect :
    ∃ leaf, incrementSubtask.leafNodeIdx = .ok leaf ∧
      (∃ collect, incrementSubtask.tree.nodeWeight leaf = some (.collect collect)) ∧
      (leaf :: incrementSubtask.ancestors leaf (incrementPlan.asPetgraph.nodeCount - 1)).Nodup ∧
      incrementSubtask.parentNodeIdx
          ((incrementSubtask.ancestors leaf (incrementPlan.asPetgraph.nodeCount - 1)).getLastD leaf) =
        none ∧
      (∀ p ∈ incrementSubtask.ancestors leaf (incrementPlan.asPetgraph.nodeCount - 1),
        ∃ node, incrementSubtask.tree.nodeWeight p = some node ∧ node.isCollect = false) ∧
      ∀ fuel, incrementPlan.asPetgraph.nodeCount - 1 ≤ fuel → ∀ context,
        ∃ r, (incrementSubtask.run fuel context).1 = some r ∧ ∀ msg, r ≠ .error (.panic msg) :=
  run_terminates_without_panic id incrementPlan (by decide)
    (DiGraph.acyclic_of_lt (by decide)) (projectCollect_collect_iff _ _)

/-- A projection over two collect leaves, as a join plan has them: node `0` is the projection,
nodes `1` and `2` the leaves, each taking the head of its own queue of the context. -/
def projectTwoCollects : QueryPlan (QuerySubtaskNode (List Nat × List Nat) Nat) where
  asPetgraph :=
    { nodes := [.projection fun x => .ok x,
        .collect fun | (a :: as, bs) => (some ⟨[a], ⟨1, 8⟩⟩, (as, bs)) | ([], bs) => (none, ([], bs)),
        .collect fun | (as, b :: bs) => (some ⟨[b], ⟨1, 8⟩⟩, (as, bs)) | (as, []) => (none, (as, []))]
      edges := [⟨0, 1, .left⟩, ⟨0, 2, .right⟩]
      edges_valid := by simp }

/-- Only the first leaf's queue is read; the second leaf's row stays queued. -/
example : ((fromQueryPlan id projectTwoCollects).run 1 ([1], [2])).2 = ([], [2]) := rfl

theorem run_preserves_count_projectTwoCollects :
    ((fromQueryPlan id projectTwoCollects).run 1 ([1], [2])).1 = some (.ok (some ⟨[1], ⟨1, 8⟩⟩)) ∧
      ∃ leaf leafOut, (fromQueryPlan id projectTwoCollects).leafNodeIdx = .ok leaf ∧
        ((fromQueryPlan id projectTwoCollects).runLeaf leaf ([1], [2])).1 = .ok (some leafOut) ∧
        [1].length = leafOut.valuesSeq.length ∧ ⟨1, 8⟩ = leafOut.inQueueMetricsUpdate :=
  have h : ((fromQueryPlan id projectTwoCollects).run 1 ([1], [2])).1 =
      some (.ok (some ⟨[1], ⟨1, 8⟩⟩)) := rfl
  ⟨h, run_preserves_count h⟩

end QuerySubtask
end SpringQL
