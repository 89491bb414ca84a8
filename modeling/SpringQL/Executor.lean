import SpringQL.Error

/-!
# SpringQL.Executor

`NodeExecutorTree` of `node_executor_tree.rs`, the repository's earlier query executor, with the
`FinalRow` it returns (`final_row.rs`) and the `ForeignInputRow` it reads (`foreign_input_row.rs`).

A query plan, whose nodes are all `Collect` leaves in that version, compiles to a tree of node
executors and an empty `latest_new_row`. `run` runs the tree in post order against the row
repository and returns the newly created row, taken out of `latest_new_row`, or else the row the
tree read, `Preserved`. The `Stream` and `Window` executors are `todo!()`. The collect executor's
module is not among the sources: its `run` is a parameter, reading the row repository `ω`.
-/

namespace SpringQL
namespace Executor

/-- `LeafOperation`: a plan leaf collecting the rows of a pump. -/
inductive LeafOperation (Pump : Type) where
  | collect (pump : Pump)

/-- `QueryPlanNode`: in this version every node is a leaf. -/
inductive QueryPlanNode (Pump : Type) where
  | leaf (op : LeafOperation Pump)

/-- `QueryPlan`, by its root. -/
structure QueryPlan (Pump : Type) where
  root : QueryPlanNode Pump

/-- `NodeExecutor`: a collect executor by the pump it reads, or a stream or window executor. -/
inductive NodeExecutor (Pump : Type) where
  | collect (pump : Pump)
  | stream
  | window

/-- `FinalRow`: the row the plan read, or the row it created. -/
inductive FinalRow (ρ : Type) where
  | preserved (row : ρ)
  | newlyCreated (row : ρ)

/-- `NodeExecutorTree`. -/
structure NodeExecutorTree (Pump NewRow : Type) where
  root : NodeExecutor Pump
  latestNewRow : Option NewRow

/-- The message of `todo!()`. -/
def todoMsg : String := "not yet implemented"

variable {Pump NewRow ρ ω : Type}

/-- `compile_node`. -/
def compileNode : QueryPlanNode Pump → NodeExecutor Pump
  | .leaf (.collect pump) => .collect pump

/-- `NodeExecutorTree::compile`. -/
def compile (queryPlan : QueryPlan Pump) : NodeExecutorTree Pump NewRow :=
  ⟨compileNode queryPlan.root, none⟩

section Run

variable (collectRun : Pump → ω → Except SpringError ρ × ω) (into : NewRow → ρ)

/-- `run_dfs_post_order`. No arm writes `latest_new_row`, so it is left out. -/
def runDfsPostOrder (executor : NodeExecutor Pump) (rowRepo : ω) : Except Fault ρ × ω :=
  match executor with
  | .collect pump => (Fault.lift (collectRun pump rowRepo).1, (collectRun pump rowRepo).2)
  | .stream => (.error (.panic todoMsg), rowRepo)
  | .window => (.error (.panic todoMsg), rowRepo)

/-- `NodeExecutorTree::run`: the tree's row, then `latest_new_row.take()`. -/
def NodeExecutorTree.run (self : NodeExecutorTree Pump NewRow) (rowRepo : ω) :
    Except Fault (FinalRow ρ) × NodeExecutorTree Pump NewRow × ω :=
  match runDfsPostOrder collectRun self.root rowRepo with
  | (.error f, rowRepo) => (.error f, self, rowRepo)
  | (.ok row, rowRepo) =>
    match self.latestNewRow with
    | some newRow => (.ok (.newlyCreated (into newRow)), { self with latestNewRow := none }, rowRepo)
    | none => (.ok (.preserved row), self, rowRepo)

end Run

/-- `ForeignInputRow`: a JSON object from a foreign system. -/
structure ForeignInputRow (Json : Type) where
  json : Json

/-- `ForeignInputRow::_into_row`: `todo!()`. -/
def ForeignInputRow.intoRow {Json : Type} (_self : ForeignInputRow Json) : Except Fault ρ :=
  .error (.panic todoMsg)

end Executor
end SpringQL
