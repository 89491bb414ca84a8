import SpringQL.Pipeline.Model

/-!
# SpringQL.Pipeline.Invariants

Runs of `Pipeline` mutators from `Pipeline::new(v)`.

A `Mutation` is one call of `add_stream`, `add_pump`, `add_source_reader` or `add_sink_writer`,
and `Pipeline.applyAll` a run of them, each call on the pipeline the previous one left (failed
calls included: their mutations stay). What one call does is said once:

* `apply_version`: every call bumps the version exactly once, whatever it returns.
* `apply_objectNames`: `object_names` grows by the name `register_name` reserves, and only
  `add_stream` and `add_pump` reserve one.
* `apply_ok`, `apply_error_graph`: an `Ok` call found its name free and stored what the graph
  operation returned; an `Err` call left the graph as it was.

Over runs: `applyAll_version` counts the calls in the version, and `reachable_invariant` keeps the
spec's graph invariants and the uniqueness of stream and pump names. `getStream_after_addStream`:
a stream `add_stream` accepted is what `get_stream` returns for its name ever after, and
`getStream_eq_ok_added`: `get_stream` returns no other stream. `applyAll_allSources_allSinks`:
`all_sources` and `all_sinks` gain the readers and writers of the accepted calls, in call order.
`applyAll_reserves`: every name a call registers, failed calls included, stays taken for good.
-/

namespace SpringQL

/-- One call of a `Pipeline` mutator. -/
inductive Mutation where
  | addStream (stream : StreamModel)
  | addPump (pump : PumpModel)
  | addSourceReader (sourceReader : SourceReaderModel)
  | addSinkWriter (sinkWriter : SinkWriterModel)
  deriving DecidableEq, Repr

namespace Mutation

/-- The name the call reserves with `register_name`: `add_source_reader` and `add_sink_writer`
reserve none. -/
def registeredName : Mutation → Option String
  | .addStream s => some s.name
  | .addPump p => some p.name
  | .addSourceReader _ => none
  | .addSinkWriter _ => none

/-- The graph operation the call ends with. -/
def graphOp : Mutation → PipelineGraph → Except SpringError PipelineGraph
  | .addStream s, g => g.addStream s
  | .addPump p, g => g.addPump p
  | .addSourceReader r, g => g.addSourceReader r
  | .addSinkWriter w, g => g.addSinkWriter w

/-- The edge the call adds to the graph when it is accepted: `add_stream` adds a node. -/
def edge : Mutation → Option Edge
  | .addStream _ => none
  | .addPump p => some (.pump p)
  | .addSourceReader r => some (.source r)
  | .addSinkWriter w => some (.sink w)

/-- The source reader an `add_source_reader` call adds. -/
def sourceReader : Mutation → Option SourceReaderModel
  | .addSourceReader r => some r
  | _ => none

/-- The sink writer an `add_sink_writer` call adds. -/
def sinkWriter : Mutation → Option SinkWriterModel
  | .addSinkWriter w => some w
  | _ => none

/-- `object_names` after the call, from `names` before it. -/
def reserve (m : Mutation) (names : Finset String) : Finset String :=
  match m.registeredName with
  | some n => insert n names
  | none => names

end Mutation

namespace Pipeline

/-- The call `m` on `p`: its result and the pipeline it leaves. -/
def apply (p : Pipeline) : Mutation → Except SpringError Unit × Pipeline
  | .addStream s => p.addStream s
  | .addPump m => p.addPump m
  | .addSourceReader r => p.addSourceReader r
  | .addSinkWriter w => p.addSinkWriter w

/-- The calls `ms` one after another from `p`, each on the pipeline the previous one left. -/
def applyAll (p : Pipeline) (ms : List Mutation) : Pipeline :=
  ms.foldl (fun p m => (p.apply m).2) p

/-- The calls of the run `ms` from `p` that returned `Ok`, in call order. -/
def acceptedCalls (p : Pipeline) : List Mutation → List Mutation
  | [] => []
  | m :: ms =>
    (match (p.apply m).1 with
      | .ok () => [m]
      | .error _ => []) ++ acceptedCalls (p.apply m).2 ms

variable (p : Pipeline) (m : Mutation)

theorem apply_version : (p.apply m).2.version = p.version.up := by
  cases m <;>
    simp [apply, addStream, addPump, registerThen_version, addSourceReader_eq, addSinkWriter_eq,
      setGraph_version]

theorem apply_objectNames : (p.apply m).2.objectNames = m.reserve p.objectNames := by
  cases m <;>
    simp [apply, addStream, addPump, registerThen_objectNames, addSourceReader_eq,
      addSinkWriter_eq, setGraph_objectNames, Mutation.reserve, Mutation.registeredName]

variable {p m}

theorem apply_ok (h : (p.apply m).1 = .ok ()) :
    (∀ n ∈ m.registeredName, n ∉ p.objectNames) ∧ m.graphOp p.graph = .ok (p.apply m).2.graph := by
  cases m with
  | addStream s => simpa [Mutation.registeredName, Mutation.graphOp] using registerThen_ok h
  | addPump q => simpa [Mutation.registeredName, Mutation.graphOp] using registerThen_ok h
  | addSourceReader r => exact ⟨by simp [Mutation.registeredName], setGraph_fst_ok h⟩
  | addSinkWriter w => exact ⟨by simp [Mutation.registeredName], setGraph_fst_ok h⟩

theorem apply_error_graph {e : SpringError} (h : (p.apply m).1 = .error e) :
    (p.apply m).2.graph = p.graph := by
  cases m with
  | addStream s => exact registerThen_error h
  | addPump q => exact registerThen_error h
  | addSourceReader r => exact setGraph_fst_error h
  | addSinkWriter w => exact setGraph_fst_error h

theorem applyAll_version (ms : List Mutation) :
    (p.applyAll ms).version.val = p.version.val + ms.length := by
  induction ms generalizing p with
  | nil => rfl
  | cons m ms ih =>
    simp only [applyAll, List.foldl_cons] at ih ⊢
    rw [ih, apply_version, PipelineVersion.up_val, List.length_cons]
    omega

/-- A failed call leaves the version bumped, the reserved name (if any) in `object_names` and the
graph as it was. -/
theorem apply_error_eq {e : SpringError} (h : (p.apply m).1 = .error e) :
    (p.apply m).2 = ⟨p.version.up, m.reserve p.objectNames, p.graph⟩ := by
  rw [← apply_version p m, ← apply_objectNames p m, ← apply_error_graph h]

theorem apply_error_eq_missing_upstream :
    ((Pipeline.new ⟨0⟩).apply (.addPump ⟨"q", "a", "b"⟩)).1 =
        .error (.sql "upstream \"a\" is not found in pipeline") ∧
      ((Pipeline.new ⟨0⟩).apply (.addPump ⟨"q", "a", "b"⟩)).2 =
        ⟨⟨1⟩, insert "q" ∅, PipelineGraph.empty⟩ :=
  ⟨rfl, apply_error_eq rfl⟩

/-- With no stream in the pipeline, `add_pump` fails, yet the version is bumped and the pump's
name stays reserved. -/
theorem addPump_error_keeps_changes :
    ((Pipeline.new ⟨0⟩).addPump ⟨"q", "a", "b"⟩).1 =
        .error (.sql "upstream \"a\" is not found in pipeline") ∧
      ((Pipeline.new ⟨0⟩).addPump ⟨"q", "a", "b"⟩).2.version = ⟨1⟩ ∧
      "q" ∈ ((Pipeline.new ⟨0⟩).addPump ⟨"q", "a", "b"⟩).2.objectNames := by
  refine ⟨rfl, rfl, ?_⟩
  decide

/-- From a pipeline holding stream `s`, the same source reader `r` is accepted twice, and
`object_names` stays `{"s"}`. -/
theorem addSourceReader_same_name_twice :
    (((Pipeline.new ⟨0⟩).addStream ⟨"s", []⟩).2.addSourceReader ⟨"r", "s"⟩).1 = .ok () ∧
      (((Pipeline.new ⟨0⟩).addStream ⟨"s", []⟩).2.addSourceReader ⟨"r", "s"⟩).2.objectNames =
        {"s"} ∧
      ((((Pipeline.new ⟨0⟩).addStream ⟨"s", []⟩).2.addSourceReader ⟨"r", "s"⟩).2.addSourceReader
        ⟨"r", "s"⟩).1 = .ok () :=
  ⟨rfl, rfl, rfl⟩

end Pipeline

/-! ## Invariants of reachable pipelines -/

namespace PipelineGraph

/-- The spec's invariants of the graph: every pump joins two of its streams, every source reader
feeds one and every sink writer drains one. -/
structure WellFormed (g : PipelineGraph) : Prop where
  pumps : ∀ q ∈ g.allPumps, g.hasStream q.upstream ∧ g.hasStream q.downstream
  sources : ∀ r ∈ g.allSources, g.hasStream r.destSourceStream
  sinks : ∀ w ∈ g.allSinks, g.hasStream w.fromSinkStream

/-- The names of the graph's streams and pumps. -/
def elementNames (g : PipelineGraph) : List String :=
  g.streams.map (·.name) ++ g.allPumps.map (·.name)

theorem hasStream_append {g : PipelineGraph} {s : StreamModel} {n : String}
    (h : g.hasStream n) : PipelineGraph.hasStream { g with streams := g.streams ++ [s] } n := by
  simp only [hasStream, List.any_append, Bool.or_eq_true] at h ⊢
  exact .inl h

/-- What each accepted graph operation did, with the check it passed. -/
theorem graphOp_ok {g g' : PipelineGraph} {m : Mutation} (h : m.graphOp g = .ok g') :
    match m with
    | .addStream s => g' = { g with streams := g.streams ++ [s] }
    | .addPump q => g.hasStream q.upstream ∧ g.hasStream q.downstream ∧
        g' = { g with edges := g.edges ++ [.pump q] }
    | .addSourceReader r => g.hasStream r.destSourceStream ∧
        g' = { g with edges := g.edges ++ [.source r] }
    | .addSinkWriter w => g.hasStream w.fromSinkStream ∧
        g' = { g with edges := g.edges ++ [.sink w] } := by
  cases m <;> simp only [Mutation.graphOp, addStream, addPump, addSourceReader, addSinkWriter] at h
  · cases h; rfl
  all_goals (split_ifs at h; cases h; simp_all)

theorem graphOp_wellFormed {g g' : PipelineGraph} {m : Mutation} (hw : g.WellFormed)
    (h : m.graphOp g = .ok g') : g'.WellFormed := by
  cases m with
  | addStream s =>
    rw [show g' = _ from graphOp_ok h]
    exact ⟨fun q hq => ⟨hasStream_append (hw.pumps q hq).1, hasStream_append (hw.pumps q hq).2⟩,
      fun r hr => hasStream_append (hw.sources r hr), fun w hw' => hasStream_append (hw.sinks w hw')⟩
  | addPump q =>
    obtain ⟨hu, hd, rfl⟩ := graphOp_ok h
    refine ⟨fun q' hq' => ?_, fun r hr => hw.sources r (by simpa [allSources] using hr),
      fun w hw' => hw.sinks w (by simpa [allSinks] using hw')⟩
    simp only [allPumps, List.filterMap_append, List.mem_append] at hq'
    rcases hq' with hq' | hq'
    · exact hw.pumps q' hq'
    · simp at hq'; subst hq'; exact ⟨hu, hd⟩
  | addSourceReader r =>
    obtain ⟨hr, rfl⟩ := graphOp_ok h
    refine ⟨fun q hq => hw.pumps q (by simpa [allPumps] using hq), fun r' hr' => ?_,
      fun w hw' => hw.sinks w (by simpa [allSinks] using hw')⟩
    simp only [allSources, List.filterMap_append, List.mem_append] at hr'
    rcases hr' with hr' | hr'
    · exact hw.sources r' hr'
    · simp at hr'; subst hr'; exact hr
  | addSinkWriter w =>
    obtain ⟨hs, rfl⟩ := graphOp_ok h
    refine ⟨fun q hq => hw.pumps q (by simpa [allPumps] using hq),
      fun r hr => hw.sources r (by simpa [allSources] using hr), fun w' hw' => ?_⟩
    simp only [allSinks, List.filterMap_append, List.mem_append] at hw'
    rcases hw' with hw' | hw'
    · exact hw.sinks w' hw'
    · simp at hw'; subst hw'; exact hs

/-- An accepted graph operation adds to the stream and pump names exactly the name the call
registers. -/
theorem graphOp_elementNames {g g' : PipelineGraph} {m : Mutation} (h : m.graphOp g = .ok g') :
    g'.elementNames.Perm (g.elementNames ++ m.registeredName.toList) := by
  cases m with
  | addStream s =>
    rw [show g' = _ from graphOp_ok h]
    simpa [elementNames, Mutation.registeredName, allPumps] using
      (List.perm_append_singleton _ _).symm.append_left _
  | addPump q =>
    obtain ⟨-, -, rfl⟩ := graphOp_ok h
    simp [elementNames, Mutation.registeredName, allPumps]
  | addSourceReader r =>
    obtain ⟨-, rfl⟩ := graphOp_ok h
    simp [elementNames, Mutation.registeredName, allPumps]
  | addSinkWriter w =>
    obtain ⟨-, rfl⟩ := graphOp_ok h
    simp [elementNames, Mutation.registeredName, allPumps]

end PipelineGraph

namespace Pipeline

variable {p : Pipeline} {m : Mutation}

/-- What every reachable pipeline satisfies: the spec's graph invariants, and the streams and
pumps of the graph have pairwise distinct names, each reserved in `object_names`. -/
structure Invariant (p : Pipeline) : Prop where
  wellFormed : p.graph.WellFormed
  nodup : p.graph.elementNames.Nodup
  reserved : ∀ n ∈ p.graph.elementNames, n ∈ p.objectNames

theorem invariant_new (v : PipelineVersion) : (Pipeline.new v).Invariant :=
  ⟨⟨by simp [new, PipelineGraph.empty, PipelineGraph.allPumps],
    by simp [new, PipelineGraph.empty, PipelineGraph.allSources],
    by simp [new, PipelineGraph.empty, PipelineGraph.allSinks]⟩,
    by simp [new, PipelineGraph.empty, PipelineGraph.elementNames, PipelineGraph.allPumps],
    by simp [new, PipelineGraph.empty, PipelineGraph.elementNames, PipelineGraph.allPumps]⟩

theorem subset_reserve (m : Mutation) (names : Finset String) : names ⊆ m.reserve names := by
  unfold Mutation.reserve
  split
  · exact Finset.subset_insert _ _
  · exact subset_rfl

theorem apply_invariant (hi : p.Invariant) : (p.apply m).2.Invariant := by
  have hnames := apply_objectNames p m
  cases hr : (p.apply m).1 with
  | error e =>
    rw [apply_error_eq hr]
    exact ⟨hi.wellFormed, hi.nodup, fun n hn => subset_reserve m _ (hi.reserved n hn)⟩
  | ok u =>
    obtain ⟨hfree, hop⟩ := apply_ok hr
    have hperm := PipelineGraph.graphOp_elementNames hop
    refine ⟨PipelineGraph.graphOp_wellFormed hi.wellFormed hop, ?_, fun n hn => ?_⟩
    · refine hperm.nodup_iff.mpr (List.Nodup.append hi.nodup (Option.toList_nodup _) ?_)
      intro n hn hn'
      exact hfree n (by simpa using hn') (hi.reserved n hn)
    · rw [hnames]
      rcases List.mem_append.mp (hperm.mem_iff.mp hn) with hn | hn
      · exact subset_reserve m _ (hi.reserved n hn)
      · rw [Option.mem_toList, Option.mem_def] at hn
        simp [Mutation.reserve, hn]

theorem applyAll_invariant (ms : List Mutation) (hi : p.Invariant) : (p.applyAll ms).Invariant := by
  induction ms generalizing p with
  | nil => exact hi
  | cons m ms ih => exact ih (apply_invariant hi)

/-- Every pipeline reached from `Pipeline::new(v)` by any run of calls, failed ones included,
keeps the invariant. -/
theorem reachable_invariant (v : PipelineVersion) (ms : List Mutation) :
    ((Pipeline.new v).applyAll ms).Invariant :=
  applyAll_invariant ms (invariant_new v)

/-! ## Looking a stream up -/

theorem graphOp_streams {g g' : PipelineGraph} {m : Mutation} (h : m.graphOp g = .ok g') :
    ∃ l, g'.streams = g.streams ++ l := by
  cases m with
  | addStream s => exact ⟨[s], by rw [show g' = _ from PipelineGraph.graphOp_ok h]⟩
  | addPump q => obtain ⟨-, -, rfl⟩ := PipelineGraph.graphOp_ok h; exact ⟨[], by simp⟩
  | addSourceReader r => obtain ⟨-, rfl⟩ := PipelineGraph.graphOp_ok h; exact ⟨[], by simp⟩
  | addSinkWriter w => obtain ⟨-, rfl⟩ := PipelineGraph.graphOp_ok h; exact ⟨[], by simp⟩

/-- A call, whatever it returns, only appends streams. -/
theorem apply_streams (p : Pipeline) (m : Mutation) :
    ∃ l, (p.apply m).2.graph.streams = p.graph.streams ++ l := by
  cases hr : (p.apply m).1 with
  | error e => exact ⟨[], by simp [apply_error_graph hr]⟩
  | ok u => exact graphOp_streams (apply_ok hr).2

theorem applyAll_streams (p : Pipeline) (ms : List Mutation) :
    ∃ l, (p.applyAll ms).graph.streams = p.graph.streams ++ l := by
  induction ms generalizing p with
  | nil => exact ⟨[], by simp [applyAll]⟩
  | cons m ms ih =>
    obtain ⟨l₁, h₁⟩ := apply_streams p m
    obtain ⟨l₂, h₂⟩ := ih (p.apply m).2
    exact ⟨l₁ ++ l₂, by simp only [applyAll, List.foldl_cons] at h₂ ⊢; rw [h₂, h₁, List.append_assoc]⟩

theorem PipelineGraph.getStream_of_mem {g : PipelineGraph} {s : StreamModel}
    (hnd : (g.streams.map (·.name)).Nodup) (hs : s ∈ g.streams) : g.getStream s.name = .ok s := by
  obtain ⟨streams, edges⟩ := g
  simp only [PipelineGraph.getStream] at hnd hs ⊢
  induction streams with
  | nil => cases hs
  | cons a streams ih =>
    obtain ⟨ha, hnd⟩ := List.nodup_cons.mp hnd
    by_cases hn : a.name = s.name
    · have : a = s := by
        rcases List.mem_cons.mp hs with rfl | hs
        · rfl
        · exact absurd (by simp only [hn]; exact List.mem_map_of_mem (·.name) hs) ha
      simp [this]
    · have hs : s ∈ streams := (List.mem_cons.mp hs).resolve_left fun h => hn (h ▸ rfl)
      simpa [List.find?_cons, hn] using ih hnd hs

/-- A stream that `add_stream` accepted into a reachable pipeline is found by its name, as it
was added, by `get_stream` on every pipeline reached from there by any further calls. -/
theorem getStream_after_addStream {p : Pipeline} (hi : p.Invariant) {s : StreamModel}
    (hok : (p.addStream s).1 = .ok ()) (ms : List Mutation) :
    ((p.addStream s).2.applyAll ms).getStream s.name = .ok s := by
  have hmem : s ∈ (p.apply (.addStream s)).2.graph.streams := by
    rw [show (p.apply (.addStream s)).2.graph = _ from PipelineGraph.graphOp_ok (apply_ok (m := .addStream s) hok).2]
    simp
  obtain ⟨l, hl⟩ := applyAll_streams (p.apply (.addStream s)).2 ms
  have hinv := applyAll_invariant ms (apply_invariant (m := .addStream s) hi)
  exact PipelineGraph.getStream_of_mem (List.Nodup.of_append_left hinv.nodup)
    (hl ▸ List.mem_append_left l hmem)

theorem getStream_after_addStream_new :
    (Pipeline.new ⟨0⟩).Invariant ∧ ((Pipeline.new ⟨0⟩).addStream ⟨"s", []⟩).1 = .ok () ∧
      ∀ ms, (((Pipeline.new ⟨0⟩).addStream ⟨"s", []⟩).2.applyAll ms).getStream "s" =
        .ok ⟨"s", []⟩ :=
  ⟨invariant_new ⟨0⟩, rfl, getStream_after_addStream (invariant_new ⟨0⟩) rfl⟩

theorem PipelineGraph.getStream_eq_ok {g : PipelineGraph} {n : String} {s : StreamModel}
    (h : g.getStream n = .ok s) : s ∈ g.streams ∧ s.name = n := by
  unfold PipelineGraph.getStream at h
  split at h
  · rename_i hf
    cases h
    have hname := List.find?_some hf
    exact ⟨List.mem_of_find?_eq_some hf, by simpa using hname⟩
  · cases h

/-- A call adds a stream to the graph only as an accepted `add_stream` of it. -/
theorem mem_apply_streams {s : StreamModel} (h : s ∈ (p.apply m).2.graph.streams) :
    s ∈ p.graph.streams ∨ (m = .addStream s ∧ (p.apply m).1 = .ok ()) := by
  cases hr : (p.apply m).1 with
  | error e => exact .inl (apply_error_graph hr ▸ h)
  | ok u =>
    have hg := PipelineGraph.graphOp_ok (apply_ok hr).2
    cases m with
    | addStream t =>
      rw [hg, List.mem_append, List.mem_singleton] at h
      rcases h with h | rfl
      · exact .inl h
      · exact .inr ⟨rfl, rfl⟩
    | addPump q => rw [hg.2.2] at h; exact .inl h
    | addSourceReader r => rw [hg.2] at h; exact .inl h
    | addSinkWriter w => rw [hg.2] at h; exact .inl h

theorem mem_applyAll_streams {ms : List Mutation} {s : StreamModel}
    (h : s ∈ (p.applyAll ms).graph.streams) :
    s ∈ p.graph.streams ∨ ∃ ms₁ ms₂, ms = ms₁ ++ .addStream s :: ms₂ ∧
      ((p.applyAll ms₁).apply (.addStream s)).1 = .ok () := by
  induction ms generalizing p with
  | nil => exact .inl h
  | cons m ms ih =>
    rcases ih (p := (p.apply m).2) h with h | ⟨ms₁, ms₂, rfl, hok⟩
    · rcases mem_apply_streams h with h | ⟨rfl, hok⟩
      · exact .inl h
      · exact .inr ⟨[], ms, rfl, hok⟩
    · exact .inr ⟨m :: ms₁, ms₂, rfl, hok⟩

/-- `get_stream` on a pipeline reached from `Pipeline::new(v)` returns only a stream of the name
asked for that an accepted `add_stream` of the run added: no failed call, and no other kind of
call, puts a stream in the graph. -/
theorem getStream_eq_ok_added (v : PipelineVersion) (ms : List Mutation) {n : String}
    {s : StreamModel} (h : ((Pipeline.new v).applyAll ms).getStream n = .ok s) :
    s.name = n ∧ ∃ ms₁ ms₂, ms = ms₁ ++ .addStream s :: ms₂ ∧
      (((Pipeline.new v).applyAll ms₁).addStream s).1 = .ok () := by
  obtain ⟨hmem, hname⟩ := PipelineGraph.getStream_eq_ok h
  refine ⟨hname, (mem_applyAll_streams hmem).resolve_left ?_⟩
  simp [Pipeline.new, PipelineGraph.empty]

/-- Of two `add_stream` calls of `s`, the second refused for the taken name, `get_stream` returns
the stream the first one added. -/
theorem getStream_eq_ok_added_twice :
    ((Pipeline.new ⟨0⟩).applyAll [.addStream ⟨"s", []⟩, .addStream ⟨"s", []⟩]).getStream "s" =
        .ok ⟨"s", []⟩ ∧
      (⟨"s", []⟩ : StreamModel).name = "s" ∧ ∃ ms₁ ms₂,
        [.addStream ⟨"s", []⟩, .addStream ⟨"s", []⟩] = ms₁ ++ .addStream ⟨"s", []⟩ :: ms₂ ∧
        (((Pipeline.new ⟨0⟩).applyAll ms₁).addStream ⟨"s", []⟩).1 = .ok () :=
  have h : ((Pipeline.new ⟨0⟩).applyAll [.addStream ⟨"s", []⟩, .addStream ⟨"s", []⟩]).getStream
      "s" = .ok ⟨"s", []⟩ := rfl
  ⟨h, getStream_eq_ok_added ⟨0⟩ _ h⟩

/-! ## Listing sources and sinks -/

theorem apply_edges (p : Pipeline) (m : Mutation) :
    (p.apply m).2.graph.edges = p.graph.edges ++ (p.acceptedCalls [m]).filterMap Mutation.edge := by
  cases hr : (p.apply m).1 with
  | error e => simp [acceptedCalls, hr, apply_error_graph hr]
  | ok u =>
    have hg := PipelineGraph.graphOp_ok (apply_ok hr).2
    cases m <;> simp_all [acceptedCalls, Mutation.edge]

/-- Over a run, the graph gains the edges of the accepted calls, in call order, and no other. -/
theorem applyAll_edges (p : Pipeline) (ms : List Mutation) :
    (p.applyAll ms).graph.edges = p.graph.edges ++ (p.acceptedCalls ms).filterMap Mutation.edge := by
  induction ms generalizing p with
  | nil => simp [applyAll, acceptedCalls]
  | cons m ms ih =>
    have hstep := apply_edges p m
    simp only [acceptedCalls, List.append_nil] at hstep
    simp only [applyAll, List.foldl_cons, acceptedCalls] at ih ⊢
    rw [ih, hstep, List.filterMap_append, List.append_assoc]

/-- After any run of calls, failed ones included, `all_sources` and `all_sinks` list what they
listed before, then the source reader or sink writer of every accepted `add_source_reader` or
`add_sink_writer` call, in call order and once per call: a refused call adds none, and nothing
merges two calls of one reader. -/
theorem applyAll_allSources_allSinks (p : Pipeline) (ms : List Mutation) :
    (p.applyAll ms).allSources =
        p.allSources ++ (p.acceptedCalls ms).filterMap Mutation.sourceReader ∧
      (p.applyAll ms).allSinks = p.allSinks ++ (p.acceptedCalls ms).filterMap Mutation.sinkWriter := by
  simp only [allSources, allSinks, PipelineGraph.allSources, PipelineGraph.allSinks,
    applyAll_edges, List.filterMap_append, List.filterMap_filterMap]
  constructor <;> congr 2 <;> funext m <;> cases m <;> rfl

/-- The same source reader added twice is listed twice. -/
example :
    ((Pipeline.new ⟨0⟩).applyAll
        [.addStream ⟨"s", []⟩, .addSourceReader ⟨"r", "s"⟩, .addSourceReader ⟨"r", "s"⟩]).allSources =
      [⟨"r", "s"⟩, ⟨"r", "s"⟩] := rfl

/-! ## Names over runs -/

theorem reserve_eq_union (m : Mutation) (names : Finset String) :
    m.reserve names = names ∪ m.registeredName.toList.toFinset := by
  unfold Mutation.reserve
  split <;> simp_all [Finset.insert_eq, Finset.union_comm]

/-- A call registering a name already in `object_names` fails with `Sql`, whatever its graph
operation would have done. -/
theorem apply_of_mem {n : String} (hm : m.registeredName = some n) (hn : n ∈ p.objectNames) :
    (p.apply m).1 = .error (.sql ("name \"" ++ n ++ "\" already exists in pipeline")) := by
  cases m <;> simp only [Mutation.registeredName, Option.some.injEq, reduceCtorEq] at hm <;>
    simp [apply, addStream, addPump, registerThen_eq, hm, hn]

theorem applyAll_objectNames (p : Pipeline) (ms : List Mutation) :
    (p.applyAll ms).objectNames = p.objectNames ∪ (ms.filterMap Mutation.registeredName).toFinset := by
  induction ms generalizing p with
  | nil => simp [applyAll]
  | cons m ms ih =>
    simp only [applyAll, List.foldl_cons] at ih ⊢
    rw [ih, apply_objectNames, reserve_eq_union]
    rcases h : m.registeredName with _ | n <;>
      simp [List.filterMap_cons, h, Finset.union_assoc, Finset.insert_eq]

/-- After any run of calls, `object_names` is the names it held and every name a call of the run
registered, failed calls included. So a name, once registered, stays taken: every later
`add_stream` or `add_pump` of it fails with `Sql`, even when the call that registered it
failed. -/
theorem applyAll_reserves (p : Pipeline) (ms : List Mutation) :
    (p.applyAll ms).objectNames = p.objectNames ∪ (ms.filterMap Mutation.registeredName).toFinset ∧
      ∀ n ∈ ms.filterMap Mutation.registeredName, ∀ (ms' : List Mutation) (m : Mutation),
        m.registeredName = some n →
          (((p.applyAll ms).applyAll ms').apply m).1 =
            .error (.sql ("name \"" ++ n ++ "\" already exists in pipeline")) := by
  refine ⟨applyAll_objectNames p ms, fun n hn ms' m hm => apply_of_mem hm ?_⟩
  rw [applyAll_objectNames, applyAll_objectNames]
  exact Finset.mem_union_left _ (Finset.mem_union_right _ (List.mem_toFinset.mpr hn))

/-- A pump `q` refused for its missing streams keeps `q` taken: once both streams exist, the same
pump is refused again, now for its name. -/
theorem applyAll_reserves_failed_pump :
    ((Pipeline.new ⟨0⟩).applyAll [.addPump ⟨"q", "a", "b"⟩]).objectNames =
        (Pipeline.new ⟨0⟩).objectNames ∪ ({"q"} : Finset String) ∧
      ((((Pipeline.new ⟨0⟩).applyAll [.addPump ⟨"q", "a", "b"⟩]).applyAll
          [.addStream ⟨"a", []⟩, .addStream ⟨"b", []⟩]).apply (.addPump ⟨"q", "a", "b"⟩)).1 =
        .error (.sql ("name \"" ++ "q" ++ "\" already exists in pipeline")) :=
  ⟨by simpa using (applyAll_reserves (Pipeline.new ⟨0⟩) [.addPump ⟨"q", "a", "b"⟩]).1,
    (applyAll_reserves (Pipeline.new ⟨0⟩) [.addPump ⟨"q", "a", "b"⟩]).2 "q" (by decide)
      [.addStream ⟨"a", []⟩, .addStream ⟨"b", []⟩] (.addPump ⟨"q", "a", "b"⟩) rfl⟩

end Pipeline

/-! ## The engine's command -/

/-- Modelled from the spec: the engine's `alter_pipeline` (the engine is not among the sources).
The command is applied to a clone of the current pipeline, and the clone replaces it only when
the command succeeds. -/
def alterPipeline (current : Pipeline) (m : Mutation) : Except SpringError Unit × Pipeline :=
  match current.apply m with
  | (.ok (), next) => (.ok (), next)
  | (.error e, _) => (.error e, current)

end SpringQL
