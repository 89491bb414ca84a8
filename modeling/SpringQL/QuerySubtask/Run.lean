import SpringQL.Error
import SpringQL.Petgraph

/-!
# SpringQL.QuerySubtask.Run

`QuerySubtask` of `query_subtask.rs`: the subtask tree of one pump's query, and `run`.

The tree is the query plan's petgraph with every operation turned into its subtask; an edge goes
from a parent to its child, so the leaf is a node with no outgoing edge and `parent_node_idx`
steps against an edge. `run` takes the leaf's output and, in its `while let` loop, walks up to
the root, running each node on every tuple the level below produced.

The subtasks' module is not among the sources, so a subtask is given by its `run`: a projection
or a value-expression evaluation maps a tuple to a tuple or fails, and a collect subtask takes
rows from its upstream queue through the task context and returns `None` when there are none.
The queue's state is the context `σ`, passed explicitly: what the leaf took stays taken whatever
`run` returns afterwards. The loop has no syntactic bound, so `run` takes a `fuel` bounding its
iterations and returns `none` when the fuel runs out.

* `leafNodeIdx_eq_ok_iff`: `leaf_node_idx` is the childless node of least index.
* `runParents_eq_runLevels`: once the walk from the leaf has stopped within the fuel, the loop is
  `runLevels` over the visited nodes.
* `run_of_leaf`: `run` from the leaf's result.
* `run_preserves_count`: over any tree, a run that returns rows returns one per tuple its leaf
  collected, with the leaf's metrics.
-/

namespace SpringQL

open Petgraph

/-- Modelled from the spec: `InQueueMetricsUpdateByTaskExecution`, the rows and bytes a task took
from its input queue. -/
structure InQueueMetricsUpdateByTaskExecution where
  rowsUsed : Nat
  bytesUsed : Nat
  deriving DecidableEq, Repr

/-- `QuerySubtaskOut`: the tuples of a run and the change of its input queue's metrics. -/
structure QuerySubtaskOut (τ : Type) where
  valuesSeq : List τ
  inQueueMetricsUpdate : InQueueMetricsUpdateByTaskExecution

/-- `ChildDirection`: the side of a child in the plan. -/
inductive ChildDirection where
  | left
  | right
  deriving DecidableEq, Repr

/-- `QuerySubtaskNode`, each subtask by its `run`. -/
inductive QuerySubtaskNode (σ τ : Type) where
  | projection (run : τ → Except SpringError τ)
  | evalValueExpr (run : τ → Except SpringError τ)
  | collect (run : σ → Option (QuerySubtaskOut τ) × σ)

/-- The node is a collect subtask. -/
def QuerySubtaskNode.isCollect {σ τ : Type} : QuerySubtaskNode σ τ → Bool
  | .collect _ => true
  | _ => false

/-- `QueryPlan`, by the plan tree `as_petgraph` returns. The operations' module is not among the
sources: their type is `Op`. -/
structure QueryPlan (Op : Type) where
  asPetgraph : DiGraph Op ChildDirection

/-- `QuerySubtask`. -/
structure QuerySubtask (σ τ : Type) where
  tree : DiGraph (QuerySubtaskNode σ τ) ChildDirection

namespace QuerySubtask

variable {σ τ Op : Type}

/-- `From<&QueryPlan>`: the plan tree, each operation turned into its subtask by `nodeOf`
(`QuerySubtaskNode::from`) and each edge keeping its direction. -/
def fromQueryPlan (nodeOf : Op → QuerySubtaskNode σ τ) (plan : QueryPlan Op) : QuerySubtask σ τ :=
  ⟨plan.asPetgraph.map nodeOf id⟩

variable (t : QuerySubtask σ τ)

/-- `leaf_node_idx`: `find_map` over `node_references` for the first node, by index, whose
outgoing edges are empty; it panics when there is none. -/
def leafNodeIdx : Except Fault Nat :=
  expect ((List.range t.tree.nodeCount).find? fun idx =>
      (t.tree.edgesDirected idx .outgoing).head?.isNone)
    "asserting only 1 leaf currently. TODO multiple leaves"

/-- `parent_node_idx`: the source of the first edge into the node, the newest. -/
def parentNodeIdx (nodeIdx : Nat) : Option Nat :=
  (t.tree.edgesDirected nodeIdx .incoming).head?.map (·.source)

/-- `run_non_leaf`: a projection or an evaluation returns one tuple; a collect node is
`unreachable!()`. -/
def runNonLeaf (subtaskIdx : Nat) (childTuple : τ) : Except Fault (List τ) :=
  match t.tree.nodeWeight subtaskIdx with
  | none => .error (.panic "must be found")
  | some (.projection run) => (Fault.lift (run childTuple)).map fun tuple => [tuple]
  | some (.evalValueExpr run) => (Fault.lift (run childTuple)).map fun tuple => [tuple]
  | some (.collect _) => .error (.panic unreachableMsg)

/-- `run_leaf`: the collect subtask's run on the context; any other node is `unreachable!()`. -/
def runLeaf (subtaskIdx : Nat) (context : σ) : Except Fault (Option (QuerySubtaskOut τ)) × σ :=
  match t.tree.nodeWeight subtaskIdx with
  | none => (.error (.panic "must be found"), context)
  | some (.collect run) => (.ok (run context).1, (run context).2)
  | some _ => (.error (.panic unreachableMsg), context)

/-- The `while let` loop of `run`, for at most `fuel` iterations: step to the parent and run it on
every tuple, stopping at the first failure (`collect::<Result<Vec<_>>>()?`), then concatenate. -/
def runParents : Nat → Nat → List τ → Option (Except Fault (List τ))
  | fuel, nextIdx, nextTuples =>
    match t.parentNodeIdx nextIdx, fuel with
    | none, _ => some (.ok nextTuples)
    | some _, 0 => none
    | some parentIdx, fuel + 1 =>
      match nextTuples.mapM (t.runNonLeaf parentIdx) with
      | .error f => some (.error f)
      | .ok tupless => runParents fuel parentIdx tupless.flatten

/-- `run`. The context it returns is the one the leaf left. -/
def run (fuel : Nat) (context : σ) : Option (Except Fault (Option (QuerySubtaskOut τ))) × σ :=
  match t.leafNodeIdx with
  | .error f => (some (.error f), context)
  | .ok nextIdx =>
    match t.runLeaf nextIdx context with
    | (.error f, context) => (some (.error f), context)
    | (.ok none, context) => (some (.ok none), context)
    | (.ok (some leafOut), context) =>
      ((t.runParents fuel nextIdx leafOut.valuesSeq).map fun r =>
        r.map fun nextTuples => some ⟨nextTuples, leafOut.inQueueMetricsUpdate⟩, context)

/-- The nodes the loop visits after `nodeIdx`, for at most `fuel` iterations. -/
def ancestors (nodeIdx fuel : Nat) : List Nat := DiGraph.walk t.parentNodeIdx nodeIdx fuel

/-- The loop's levels over the visited nodes `ps`, in order. -/
def runLevels : List Nat → List τ → Except Fault (List τ)
  | [], tuples => .ok tuples
  | p :: ps, tuples =>
    match tuples.mapM (t.runNonLeaf p) with
    | .error f => .error f
    | .ok tupless => runLevels ps tupless.flatten

variable {t}

theorem parentNodeIdx_adj {i j : Nat} (h : t.parentNodeIdx i = some j) : t.tree.Adj j i := by
  simp only [parentNodeIdx, Option.map_eq_some', List.head?_eq_some_iff] at h
  obtain ⟨e, ⟨rest, hrest⟩, rfl⟩ := h
  have he := DiGraph.mem_edgesDirected.mp (hrest ▸ List.mem_cons_self e rest)
  exact ⟨e, he.1, rfl, he.2⟩

theorem parentNodeIdx_eq_none {x : Nat} (h : ∀ z, ¬ t.tree.Adj z x) : t.parentNodeIdx x = none := by
  cases he : t.tree.edgesDirected x .incoming with
  | nil => simp [parentNodeIdx, he]
  | cons e rest =>
    have hmem := DiGraph.mem_edgesDirected.mp (he ▸ List.mem_cons_self e rest)
    exact absurd ⟨e, hmem.1, rfl, hmem.2⟩ (h e.source)

/-- A node with exactly one parent `y` has `y` as its `parent_node_idx`. -/
theorem parentNodeIdx_eq_some {x y : Nat} (hyx : t.tree.Adj y x)
    (huniq : ∀ z, t.tree.Adj z x → z = y) : t.parentNodeIdx x = some y := by
  cases he : t.tree.edgesDirected x .incoming with
  | nil =>
    obtain ⟨e, hmem, rfl, hx⟩ := hyx
    have : e ∈ t.tree.edgesDirected x .incoming := DiGraph.mem_edgesDirected.mpr ⟨hmem, hx⟩
    simp [he] at this
  | cons e rest =>
    have hmem := DiGraph.mem_edgesDirected.mp (he ▸ List.mem_cons_self e rest)
    simp [parentNodeIdx, he, huniq e.source ⟨e, hmem.1, rfl, hmem.2⟩]

/-- `leaf_node_idx` is the childless node of least index. -/
theorem leafNodeIdx_eq_ok_iff {leaf : Nat} :
    t.leafNodeIdx = .ok leaf ↔
      leaf < t.tree.nodeCount ∧ (∀ j, ¬ t.tree.Adj leaf j) ∧ ∀ i < leaf, ∃ j, t.tree.Adj i j := by
  simp [leafNodeIdx, List.find?_range_eq_some, DiGraph.edgesDirected_outgoing_eq_nil, and_comm,
    and_left_comm]

theorem leafNodeIdx_eq_ok {leaf : Nat} (h : t.leafNodeIdx = .ok leaf) :
    leaf < t.tree.nodeCount ∧ ∀ j, ¬ t.tree.Adj leaf j :=
  ⟨(leafNodeIdx_eq_ok_iff.mp h).1, (leafNodeIdx_eq_ok_iff.mp h).2.1⟩

theorem leafNodeIdx_of_childless {i : Nat} (hi : i < t.tree.nodeCount) (hc : ∀ j, ¬ t.tree.Adj i j) :
    ∃ leaf, t.leafNodeIdx = .ok leaf := by
  simp only [leafNodeIdx]
  cases hf : (List.range t.tree.nodeCount).find? fun idx =>
      (t.tree.edgesDirected idx .outgoing).head?.isNone with
  | some leaf => exact ⟨leaf, rfl⟩
  | none =>
    have := List.find?_eq_none.mp hf i (List.mem_range.mpr hi)
    simp [DiGraph.edgesDirected_outgoing_eq_nil.mpr hc] at this

/-- The loop over a walk that stopped within the fuel is the levels over the visited nodes. -/
theorem runParents_eq_runLevels {fuel i : Nat} {tuples : List τ}
    (hstop : t.parentNodeIdx ((t.ancestors i fuel).getLastD i) = none) :
    t.runParents fuel i tuples = some (t.runLevels (t.ancestors i fuel) tuples) := by
  induction fuel generalizing i tuples with
  | zero => simp_all [ancestors, DiGraph.walk, runParents, runLevels]
  | succ fuel ih =>
    cases hp : t.parentNodeIdx i with
    | none => simp [runParents, hp, ancestors, DiGraph.walk_succ_of_root fuel hp, runLevels]
    | some j =>
      simp only [ancestors, DiGraph.walk_succ_of_parent fuel hp, List.getLastD_cons] at hstop ⊢
      rw [runParents.eq_def]
      simp only [hp, runLevels]
      cases t.runNonLeaf j |> tuples.mapM with
      | error f => rfl
      | ok tupless => exact ih hstop

/-- A level that fails stops the loop with its error, whatever lies above it. -/
theorem runParents_of_runLevels_error {fuel i : Nat} {tuples : List τ} {f : Fault}
    (h : t.runLevels (t.ancestors i fuel) tuples = .error f) :
    t.runParents fuel i tuples = some (.error f) := by
  induction fuel generalizing i tuples with
  | zero => simp [ancestors, DiGraph.walk, runLevels] at h
  | succ fuel ih =>
    cases hp : t.parentNodeIdx i with
    | none => simp [ancestors, DiGraph.walk_succ_of_root fuel hp, runLevels] at h
    | some j =>
      simp only [ancestors, DiGraph.walk_succ_of_parent fuel hp, runLevels] at h
      rw [runParents.eq_def]
      simp only [hp]
      cases hm : tuples.mapM (t.runNonLeaf j) with
      | error f' => rw [hm] at h; cases h; rfl
      | ok tupless => rw [hm] at h; exact ih h

/-- The levels over `ps ++ qs` are those over `qs` on what the levels over `ps` returned. -/
theorem runLevels_append_of_ok {ps qs : List Nat} {xs ys : List τ}
    (h : t.runLevels ps xs = .ok ys) : t.runLevels (ps ++ qs) xs = t.runLevels qs ys := by
  induction ps generalizing xs with
  | nil => cases h; rfl
  | cons p ps ih =>
    simp only [runLevels, List.cons_append] at h ⊢
    cases hm : xs.mapM (t.runNonLeaf p) with
    | error f => rw [hm] at h; cases h
    | ok tupless => rw [hm] at h; exact ih h

theorem run_of_leaf {fuel : Nat} {context context' : σ} {leaf : Nat} {leafOut : QuerySubtaskOut τ}
    (hleaf : t.leafNodeIdx = .ok leaf) (hrun : t.runLeaf leaf context = (.ok (some leafOut), context')) :
    t.run fuel context = ((t.runParents fuel leaf leafOut.valuesSeq).map fun r =>
      r.map fun nextTuples => some ⟨nextTuples, leafOut.inQueueMetricsUpdate⟩, context') := by
  simp [run, hleaf, hrun]

/-! ## One tuple in, one tuple out -/

/-- `run_non_leaf` returns exactly one tuple whenever it returns. -/
theorem runNonLeaf_eq_ok {p : Nat} {x : τ} {ys : List τ} (h : t.runNonLeaf p x = .ok ys) :
    ys.length = 1 := by
  rcases hw : t.tree.nodeWeight p with _ | (run | run | run) <;>
    simp only [runNonLeaf, hw, reduceCtorEq] at h <;>
    cases hr : run x <;> simp only [hr, Fault.lift, Except.map, reduceCtorEq, Except.ok.injEq] at h
  all_goals simp [← h]

theorem mapM_runNonLeaf_length {p : Nat} {xs : List τ} {tupless : List (List τ)}
    (h : xs.mapM (t.runNonLeaf p) = .ok tupless) : tupless.flatten.length = xs.length := by
  replace h := mapM_eq_ok_iff.mp h
  induction h with
  | nil => rfl
  | cons hx _ ih => simp [runNonLeaf_eq_ok hx, ih, Nat.add_comm]

/-- The loop neither drops nor duplicates a tuple: it returns as many as it was given. -/
theorem runParents_length {fuel i : Nat} {xs ys : List τ}
    (h : t.runParents fuel i xs = some (.ok ys)) : ys.length = xs.length := by
  induction fuel generalizing i xs with
  | zero =>
    rw [runParents.eq_def] at h
    rcases hp : t.parentNodeIdx i with _ | j <;>
      simp only [hp, Option.some.injEq, Except.ok.injEq, reduceCtorEq] at h
    exact h ▸ rfl
  | succ fuel ih =>
    rw [runParents.eq_def] at h
    rcases hp : t.parentNodeIdx i with _ | j <;> simp only [hp, Option.some.injEq, Except.ok.injEq] at h
    · exact h ▸ rfl
    · split at h
      · cases h
      · rw [ih h, mapM_runNonLeaf_length ‹_›]

/-- Whatever the tree's shape and the fuel, a run that returns rows returns one for each tuple its
leaf collected, with the leaf's change of the input queue's metrics. -/
theorem run_preserves_count {fuel : Nat} {context : σ} {out : QuerySubtaskOut τ}
    (h : (t.run fuel context).1 = some (.ok (some out))) :
    ∃ leaf leafOut, t.leafNodeIdx = .ok leaf ∧ (t.runLeaf leaf context).1 = .ok (some leafOut) ∧
      out.valuesSeq.length = leafOut.valuesSeq.length ∧
      out.inQueueMetricsUpdate = leafOut.inQueueMetricsUpdate := by
  rcases hleaf : t.leafNodeIdx with f | leaf
  · simp [run, hleaf] at h
  rcases hrun : t.runLeaf leaf context with ⟨_ | _ | leafOut, context'⟩
  · simp [run, hleaf, hrun] at h
  · simp [run, hleaf, hrun] at h
  rw [run_of_leaf hleaf hrun] at h
  rcases hp : t.runParents fuel leaf leafOut.valuesSeq with _ | _ | ys <;>
    simp only [hp, Option.map_none', Option.map_some', Option.some.injEq, Except.map, reduceCtorEq,
      Except.ok.injEq] at h
  subst h
  exact ⟨leaf, leafOut, rfl, by rw [hrun], runParents_length hp, rfl⟩

end QuerySubtask

end SpringQL
