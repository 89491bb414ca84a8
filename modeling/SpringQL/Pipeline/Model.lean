import SpringQL.Error
import Mathlib.Data.Finset.Basic

/-!
# SpringQL.Pipeline.Model

The pipeline of `pipeline.rs`: a version, the set `object_names` of reserved names and the graph
of streams, pumps, source readers and sink writers.

`Pipeline`'s methods take `&mut self` and return `Result<()>`; a mutation made before an early
`?` return stays. Each is a function from the pipeline to its result paired with the pipeline it
leaves, on the `Err` path as well. The graph's own file is not among the sources: `PipelineGraph`
and its `add_*` follow the spec's words (streams are nodes; a pump joins two existing streams, a
source reader ends at one, a sink writer starts at one) and, like any value-returning function,
change nothing when they fail.

`add_pump` and `add_stream` have one body, `registerThen`, applied to their own name and graph
operation; `registerThen_eq` gives its result and state by cases on the name, and the lemmas
after it (version, names, the `Ok` and the `Err` path) are what later proofs use.
-/

namespace SpringQL

/-- Modelled from the spec: the SQL types of a stream shape's columns. -/
inductive SqlType where
  | smallInt
  | integer
  | bigInt
  | text
  | boolean
  | timestamp
  deriving DecidableEq, Repr

/-- Modelled from the spec: a non-NULL typed value cell. Timestamps are nanoseconds. -/
inductive NnSqlValue where
  | smallInt (v : Int)
  | integer (v : Int)
  | bigInt (v : Int)
  | text (v : String)
  | boolean (v : Bool)
  | timestamp (v : Int)
  deriving DecidableEq, Repr

/-- Modelled from the spec: a value cell, possibly NULL. -/
inductive SqlValue where
  | null
  | notNull (v : NnSqlValue)
  deriving DecidableEq, Repr

/-- Modelled from the spec: one `(column_name, sql_type, nullable)` entry of a stream shape. -/
structure ColumnDefinition where
  columnName : String
  sqlType : SqlType
  nullable : Bool
  deriving DecidableEq, Repr

/-- `StreamModel`: a stream's name and its shape, the ordered column list. -/
structure StreamModel where
  name : String
  shape : List ColumnDefinition
  deriving DecidableEq, Repr

/-- `PumpModel`, with the fields the pipeline reads: its name and the two streams it joins. -/
structure PumpModel where
  name : String
  upstream : String
  downstream : String
  deriving DecidableEq, Repr

/-- `SourceReaderModel`, with its name and the source stream it feeds. -/
structure SourceReaderModel where
  name : String
  destSourceStream : String
  deriving DecidableEq, Repr

/-- `SinkWriterModel`, with its name and the sink stream it drains. -/
structure SinkWriterModel where
  name : String
  fromSinkStream : String
  deriving DecidableEq, Repr

/-- Modelled from the spec: an edge of the pipeline graph. -/
inductive Edge where
  | pump (m : PumpModel)
  | source (m : SourceReaderModel)
  | sink (m : SinkWriterModel)
  deriving DecidableEq, Repr

/-- Modelled from the spec: `PipelineGraph`, a directed multigraph whose nodes are the streams and
whose edges are the pumps, source readers and sink writers, in the order they were added. -/
structure PipelineGraph where
  streams : List StreamModel
  edges : List Edge
  deriving DecidableEq, Repr

namespace PipelineGraph

/-- The empty graph, `PipelineGraph::default()`. -/
def empty : PipelineGraph := ⟨[], []⟩

/-- Modelled from the spec: a stream of that name is a node of the graph. -/
def hasStream (g : PipelineGraph) (name : String) : Bool := g.streams.any (·.name == name)

/-- Modelled from the spec: `get_stream`, failing with `Sql` when the stream is not registered. -/
def getStream (g : PipelineGraph) (name : String) : Except SpringError StreamModel :=
  match g.streams.find? (·.name == name) with
  | some s => .ok s
  | none => .error (.sql ("stream \"" ++ name ++ "\" is not registered in pipeline"))

/-- Modelled from the spec: `add_stream` adds a node. -/
def addStream (g : PipelineGraph) (stream : StreamModel) : Except SpringError PipelineGraph :=
  .ok { g with streams := g.streams ++ [stream] }

/-- Modelled from the spec: `add_pump` joins its upstream to its downstream stream, failing with
`Sql` when either is missing (upstream checked first, as `Pipeline::add_pump`'s doc lists them). -/
def addPump (g : PipelineGraph) (pump : PumpModel) : Except SpringError PipelineGraph :=
  if !g.hasStream pump.upstream then
    .error (.sql ("upstream \"" ++ pump.upstream ++ "\" is not found in pipeline"))
  else if !g.hasStream pump.downstream then
    .error (.sql ("downstream \"" ++ pump.downstream ++ "\" is not found in pipeline"))
  else .ok { g with edges := g.edges ++ [.pump pump] }

/-- Modelled from the spec: `add_source_reader` ends a source edge at its stream, failing with
`Sql` when that stream is missing. -/
def addSourceReader (g : PipelineGraph) (r : SourceReaderModel) : Except SpringError PipelineGraph :=
  if !g.hasStream r.destSourceStream then
    .error (.sql ("downstream \"" ++ r.destSourceStream ++ "\" is not found in pipeline"))
  else .ok { g with edges := g.edges ++ [.source r] }

/-- Modelled from the spec: `add_sink_writer` starts a sink edge at its stream, failing with
`Sql` when that stream is missing. -/
def addSinkWriter (g : PipelineGraph) (w : SinkWriterModel) : Except SpringError PipelineGraph :=
  if !g.hasStream w.fromSinkStream then
    .error (.sql ("upstream \"" ++ w.fromSinkStream ++ "\" is not found in pipeline"))
  else .ok { g with edges := g.edges ++ [.sink w] }

/-- Modelled from the spec: the pumps, in the order they were added. -/
def allPumps (g : PipelineGraph) : List PumpModel :=
  g.edges.filterMap fun | .pump m => some m | _ => none

/-- Modelled from the spec: `all_sources`. -/
def allSources (g : PipelineGraph) : List SourceReaderModel :=
  g.edges.filterMap fun | .source m => some m | _ => none

/-- Modelled from the spec: `all_sinks`. -/
def allSinks (g : PipelineGraph) : List SinkWriterModel :=
  g.edges.filterMap fun | .sink m => some m | _ => none

end PipelineGraph

/-- Modelled from the spec: `PipelineVersion`, an integer bumped by every mutation. -/
structure PipelineVersion where
  val : Nat
  deriving DecidableEq, Repr

/-- `PipelineVersion::up`. -/
def PipelineVersion.up (v : PipelineVersion) : PipelineVersion := ⟨v.val + 1⟩

@[simp] theorem PipelineVersion.up_val (v : PipelineVersion) : v.up.val = v.val + 1 := rfl

/-- `Pipeline`: `version`, `object_names` (a `HashSet<String>`) and `graph`. -/
structure Pipeline where
  version : PipelineVersion
  objectNames : Finset String
  graph : PipelineGraph
  deriving DecidableEq

namespace Pipeline

/-- `Pipeline::new`. -/
def new (version : PipelineVersion) : Pipeline := ⟨version, ∅, .empty⟩

/-- `Pipeline::get_stream`. -/
def getStream (self : Pipeline) (stream : String) : Except SpringError StreamModel :=
  self.graph.getStream stream

/-- `Pipeline::all_sources`. -/
def allSources (self : Pipeline) : List SourceReaderModel := self.graph.allSources

/-- `Pipeline::all_sinks`. -/
def allSinks (self : Pipeline) : List SinkWriterModel := self.graph.allSinks

/-- `update_version`. -/
def updateVersion (self : Pipeline) : Pipeline := { self with version := self.version.up }

/-- `register_name`: `HashSet::insert` returns `false` on a taken name and leaves the set as it
was, and the call fails with `Sql`. -/
def registerName (self : Pipeline) (name : String) : Except SpringError Unit × Pipeline :=
  if name ∈ self.objectNames then
    (.error (.sql ("name \"" ++ name ++ "\" already exists in pipeline")), self)
  else (.ok (), { self with objectNames := insert name self.objectNames })

/-- The last statement `self.graph.add_*(..)` of a mutator: the graph it returns is stored. -/
def setGraph (self : Pipeline) : Except SpringError PipelineGraph → Except SpringError Unit × Pipeline
  | .ok graph => (.ok (), { self with graph })
  | .error e => (.error e, self)

/-- The body `add_pump` and `add_stream` share: `update_version`, then `register_name(name)?`,
then the graph operation `op`. -/
def registerThen (self : Pipeline) (name : String)
    (op : PipelineGraph → Except SpringError PipelineGraph) : Except SpringError Unit × Pipeline :=
  let self := self.updateVersion
  match self.registerName name with
  | (.ok (), self) => self.setGraph (op self.graph)
  | (.error e, self) => (.error e, self)

/-- `add_pump`. -/
def addPump (self : Pipeline) (pump : PumpModel) : Except SpringError Unit × Pipeline :=
  self.registerThen pump.name (·.addPump pump)

/-- `add_stream`. -/
def addStream (self : Pipeline) (stream : StreamModel) : Except SpringError Unit × Pipeline :=
  self.registerThen stream.name (·.addStream stream)

/-- `add_source_reader`: `update_version`, then the graph's `add_source_reader`. No name is
registered. -/
def addSourceReader (self : Pipeline) (r : SourceReaderModel) : Except SpringError Unit × Pipeline :=
  let self := self.updateVersion
  self.setGraph (self.graph.addSourceReader r)

/-- `add_sink_writer`: `update_version`, then the graph's `add_sink_writer`. No name is
registered. -/
def addSinkWriter (self : Pipeline) (w : SinkWriterModel) : Except SpringError Unit × Pipeline :=
  let self := self.updateVersion
  self.setGraph (self.graph.addSinkWriter w)

@[simp] theorem updateVersion_version (p : Pipeline) : p.updateVersion.version = p.version.up := rfl
@[simp] theorem updateVersion_objectNames (p : Pipeline) :
    p.updateVersion.objectNames = p.objectNames := rfl
@[simp] theorem updateVersion_graph (p : Pipeline) : p.updateVersion.graph = p.graph := rfl

theorem registerName_of_mem {p : Pipeline} {name : String} (h : name ∈ p.objectNames) :
    p.registerName name = (.error (.sql ("name \"" ++ name ++ "\" already exists in pipeline")), p) :=
  if_pos h

theorem registerName_of_not_mem {p : Pipeline} {name : String} (h : name ∉ p.objectNames) :
    p.registerName name = (.ok (), { p with objectNames := insert name p.objectNames }) :=
  if_neg h

@[simp] theorem setGraph_ok (p : Pipeline) (g : PipelineGraph) :
    p.setGraph (.ok g) = (.ok (), { p with graph := g }) := rfl

@[simp] theorem setGraph_error (p : Pipeline) (e : SpringError) :
    p.setGraph (.error e) = (.error e, p) := rfl

theorem registerThen_eq (p : Pipeline) (name : String)
    (op : PipelineGraph → Except SpringError PipelineGraph) :
    p.registerThen name op =
      if name ∈ p.objectNames then
        (.error (.sql ("name \"" ++ name ++ "\" already exists in pipeline")), p.updateVersion)
      else (⟨p.version.up, insert name p.objectNames, p.graph⟩ : Pipeline).setGraph (op p.graph) := by
  by_cases h : name ∈ p.objectNames
  · rw [registerThen, registerName_of_mem (by simpa using h), if_pos h]
  · rw [registerThen, registerName_of_not_mem (by simpa using h), if_neg h]
    rfl

theorem setGraph_version (p : Pipeline) (r : Except SpringError PipelineGraph) :
    (p.setGraph r).2.version = p.version := by
  cases r <;> rfl

theorem setGraph_objectNames (p : Pipeline) (r : Except SpringError PipelineGraph) :
    (p.setGraph r).2.objectNames = p.objectNames := by
  cases r <;> rfl

theorem setGraph_fst_ok {p : Pipeline} {r : Except SpringError PipelineGraph}
    (h : (p.setGraph r).1 = .ok ()) : r = .ok (p.setGraph r).2.graph := by
  cases r <;> simp_all

theorem setGraph_fst_error {p : Pipeline} {r : Except SpringError PipelineGraph} {e : SpringError}
    (h : (p.setGraph r).1 = .error e) : (p.setGraph r).2.graph = p.graph := by
  cases r <;> simp_all

section RegisterThen

variable {p : Pipeline} {name : String} {op : PipelineGraph → Except SpringError PipelineGraph}

theorem registerThen_version : (p.registerThen name op).2.version = p.version.up := by
  rw [registerThen_eq]
  split_ifs <;> simp [setGraph_version]

theorem registerThen_objectNames :
    (p.registerThen name op).2.objectNames = insert name p.objectNames := by
  rw [registerThen_eq]
  split_ifs with h
  · simp [Finset.insert_eq_of_mem h]
  · simp [setGraph_objectNames]

theorem registerThen_ok (h : (p.registerThen name op).1 = .ok ()) :
    name ∉ p.objectNames ∧ op p.graph = .ok (p.registerThen name op).2.graph := by
  by_cases hn : name ∈ p.objectNames
  · simp [registerThen_eq, hn] at h
  · rw [registerThen_eq, if_neg hn] at h ⊢
    exact ⟨hn, setGraph_fst_ok h⟩

theorem registerThen_error {e : SpringError} (h : (p.registerThen name op).1 = .error e) :
    (p.registerThen name op).2.graph = p.graph := by
  by_cases hn : name ∈ p.objectNames
  · simp [registerThen_eq, hn]
  · rw [registerThen_eq, if_neg hn] at h ⊢
    exact setGraph_fst_error h

end RegisterThen

theorem addSourceReader_eq (p : Pipeline) (r : SourceReaderModel) :
    p.addSourceReader r = p.updateVersion.setGraph (p.graph.addSourceReader r) := rfl

theorem addSinkWriter_eq (p : Pipeline) (w : SinkWriterModel) :
    p.addSinkWriter w = p.updateVersion.setGraph (p.graph.addSinkWriter w) := rfl

end Pipeline

end SpringQL
