import Mathlib.Data.Fintype.Card
import Mathlib.Data.List.Perm.Subperm
import Mathlib.Logic.Relation

/-!
# SpringQL.Petgraph

The part of petgraph's `DiGraph` that the query subtask tree uses. A graph built by `add_node`
and `add_edge` is its list of node weights, indexed from `0`, and its list of edges in the order
they were added; `add_edge` panics on a missing endpoint, so every edge of a `DiGraph` joins two
of its nodes (`edges_valid`). `edges_directed` lists a node's edges newest first, as petgraph's
per-node linked lists hold them.

A parent walk follows any `parent : Nat → Option Nat` that only steps against edges
(`parent i = some j` needs an edge `j → i`), for at most `fuel` steps (`walk`). In a finite
acyclic graph:

* `exists_childless`: a nonempty graph has a node with no outgoing edge.
* `walk_nodup`: the walk never visits a node twice, so it has at most `nodeCount - 1` steps.
* `walk_terminates`: with `nodeCount - 1` steps of fuel the walk has stopped: its last node has no
  parent, and more fuel changes nothing.
-/

namespace SpringQL
namespace Petgraph

/-- `petgraph::Direction`. -/
inductive Direction where
  | outgoing
  | incoming
  deriving DecidableEq, Repr

/-- An edge of a `DiGraph`: the indices of its two endpoints and its weight. -/
structure Edge (E : Type) where
  source : Nat
  target : Nat
  weight : E
  deriving DecidableEq, Repr

/-- The end of an edge that `edges_directed` matches against the node. -/
def Edge.endpoint {E : Type} (e : Edge E) : Direction → Nat
  | .outgoing => e.source
  | .incoming => e.target

/-- `DiGraph<N, E>`: node weights by index, edges in the order they were added. -/
structure DiGraph (N E : Type) where
  nodes : List N
  edges : List (Edge E)
  edges_valid : ∀ e ∈ edges, e.source < nodes.length ∧ e.target < nodes.length

namespace DiGraph

variable {N E : Type} (g : DiGraph N E)

/-- `node_count`. -/
def nodeCount : Nat := g.nodes.length

/-- `node_weight`. -/
def nodeWeight (i : Nat) : Option N := g.nodes[i]?

/-- `edges_directed(i, dir)`: the edges leaving (`outgoing`) or entering (`incoming`) node `i`,
newest first. -/
def edgesDirected (i : Nat) (dir : Direction) : List (Edge E) :=
  (g.edges.filter fun e => Edge.endpoint e dir == i).reverse

/-- `Graph::map`: new weights for nodes and edges, the same indices and edges. -/
def map {N' E' : Type} (f : N → N') (h : E → E') : DiGraph N' E' where
  nodes := g.nodes.map f
  edges := g.edges.map fun e => ⟨e.source, e.target, h e.weight⟩
  edges_valid := by
    simp only [List.mem_map, List.length_map, forall_exists_index, and_imp]
    rintro _ e he rfl
    exact g.edges_valid e he

/-- An edge leads from `i` to `j`. -/
def Adj (i j : Nat) : Prop := ∃ e ∈ g.edges, e.source = i ∧ e.target = j

/-- No node reaches itself along one or more edges. -/
def Acyclic : Prop := ∀ i, ¬ Relation.TransGen g.Adj i i

variable {g}

theorem adj_lt {i j : Nat} (h : g.Adj i j) : i < g.nodeCount ∧ j < g.nodeCount := by
  obtain ⟨e, he, rfl, rfl⟩ := h
  exact g.edges_valid e he

theorem nodeWeight_isSome {i : Nat} (h : i < g.nodeCount) : ∃ n, g.nodeWeight i = some n :=
  ⟨g.nodes[i], List.getElem?_eq_getElem h⟩

theorem mem_edgesDirected {i : Nat} {dir : Direction} {e : Edge E} :
    e ∈ g.edgesDirected i dir ↔ e ∈ g.edges ∧ Edge.endpoint e dir = i := by
  simp [edgesDirected]

theorem edgesDirected_outgoing_eq_nil {i : Nat} :
    g.edgesDirected i .outgoing = [] ↔ ∀ j, ¬ g.Adj i j := by
  rw [List.eq_nil_iff_forall_not_mem]
  simp only [mem_edgesDirected, Edge.endpoint]
  constructor
  · rintro h j ⟨e, he, hs, -⟩
    exact h e ⟨he, hs⟩
  · rintro h e ⟨he, hs⟩
    exact h _ ⟨e, he, hs, rfl⟩

theorem lt_of_nodeWeight {i : Nat} {n : N} (h : g.nodeWeight i = some n) : i < g.nodeCount :=
  (List.getElem?_eq_some_iff.mp h).1

/-- The nodes whose weight satisfies `p` are exactly the nodes with no outgoing edge, checked
node by node. -/
def leavesAre (g : DiGraph N E) (p : N → Bool) : Bool :=
  (List.range g.nodeCount).all fun i =>
    (g.nodeWeight i).all fun n => p n == (g.edgesDirected i .outgoing).isEmpty

theorem leavesAre_spec {p : N → Bool} (h : g.leavesAre p = true) {i : Nat} {n : N}
    (hn : g.nodeWeight i = some n) : p n = true ↔ ∀ j, ¬ g.Adj i j := by
  have hi := List.all_eq_true.mp h i (List.mem_range.mpr (lt_of_nodeWeight hn))
  simp only [hn, Option.all_some, beq_iff_eq] at hi
  rw [hi, List.isEmpty_iff, edgesDirected_outgoing_eq_nil]

@[simp] theorem map_nodeCount {N' E' : Type} (f : N → N') (h : E → E') :
    (g.map f h).nodeCount = g.nodeCount := List.length_map _ _

@[simp] theorem map_nodeWeight {N' E' : Type} (f : N → N') (h : E → E') (i : Nat) :
    (g.map f h).nodeWeight i = (g.nodeWeight i).map f := List.getElem?_map _ _ _

@[simp] theorem map_adj {N' E' : Type} (f : N → N') (h : E → E') (i j : Nat) :
    (g.map f h).Adj i j ↔ g.Adj i j := by
  simp [Adj, map]

/-- A graph whose edges all go to a higher index is acyclic. -/
theorem acyclic_of_lt (h : ∀ e ∈ g.edges, e.source < e.target) : g.Acyclic := by
  have hlt : ∀ {i j}, Relation.TransGen g.Adj i j → i < j := by
    intro i j hij
    induction hij with
    | single hab => obtain ⟨e, he, rfl, rfl⟩ := hab; exact h e he
    | tail _ hbc ih => obtain ⟨e, he, rfl, rfl⟩ := hbc; exact ih.trans (h e he)
  exact fun i hi => lt_irrefl i (hlt hi)

/-- A nonempty finite acyclic graph has a childless node: a node minimal for "reaches" has no
edge out, since its target would be reached from it. -/
theorem exists_childless (hn : 0 < g.nodeCount) (h : g.Acyclic) :
    ∃ i < g.nodeCount, ∀ j, ¬ g.Adj i j := by
  let r : Fin g.nodeCount → Fin g.nodeCount → Prop := fun a b => Relation.TransGen g.Adj b a
  haveI : IsTrans _ r := ⟨fun _ _ _ hab hbc => hbc.trans hab⟩
  haveI : IsIrrefl _ r := ⟨fun a => h a⟩
  obtain ⟨a, -, ha⟩ :=
    (Finite.wellFounded_of_trans_of_irrefl r).has_min Set.univ ⟨⟨0, hn⟩, trivial⟩
  exact ⟨a, a.2, fun j hj => ha ⟨j, (adj_lt hj).2⟩ trivial (.single hj)⟩

/-! ## Parent walks -/

/-- The nodes a walk by `parent` visits after `i`, for at most `fuel` steps. -/
def walk (parent : Nat → Option Nat) (i : Nat) : Nat → List Nat
  | 0 => []
  | fuel + 1 =>
    match parent i with
    | none => []
    | some j => j :: walk parent j fuel

section Walk

variable {parent : Nat → Option Nat}

theorem walk_succ_of_parent {i j : Nat} (fuel : Nat) (h : parent i = some j) :
    walk parent i (fuel + 1) = j :: walk parent j fuel := by
  simp [walk, h]

theorem walk_succ_of_root {i : Nat} (fuel : Nat) (h : parent i = none) :
    walk parent i (fuel + 1) = [] := by
  simp [walk, h]

/-- A walk that stopped short of its fuel ends at a node without parent. -/
theorem walk_stop {i fuel : Nat} (hlt : (walk parent i fuel).length < fuel) :
    parent ((walk parent i fuel).getLastD i) = none := by
  induction fuel generalizing i with
  | zero => simp at hlt
  | succ fuel ih =>
    cases h : parent i with
    | none => simpa [walk_succ_of_root fuel h] using h
    | some j =>
      rw [walk_succ_of_parent fuel h] at hlt ⊢
      rw [List.getLastD_cons]
      exact ih (by simpa using hlt)

/-- One more step of fuel changes nothing for a walk that did not use it. -/
theorem walk_succ_eq {i fuel : Nat} (hle : (walk parent i (fuel + 1)).length ≤ fuel) :
    walk parent i (fuel + 1) = walk parent i fuel := by
  induction fuel generalizing i with
  | zero => simpa using hle
  | succ fuel ih =>
    cases h : parent i with
    | none => rw [walk_succ_of_root _ h, walk_succ_of_root _ h]
    | some j =>
      rw [walk_succ_of_parent _ h] at hle ⊢
      rw [walk_succ_of_parent _ h, ih (by simpa using hle)]

/-- A walk that follows `l` and ends where `parent` has nothing visits exactly `l`. -/
theorem walk_of_chain {i fuel : Nat} {l : List Nat}
    (hc : List.Chain (fun a b => parent a = some b) i l) (hstop : parent (l.getLastD i) = none)
    (hfuel : l.length ≤ fuel) : walk parent i fuel = l := by
  induction l generalizing i fuel with
  | nil =>
    cases fuel with
    | zero => rfl
    | succ fuel => exact walk_succ_of_root fuel hstop
  | cons j l ih =>
    cases hc with
    | cons hij hc =>
      obtain ⟨fuel, rfl⟩ : ∃ f, fuel = f + 1 := ⟨fuel - 1, by simp at hfuel; omega⟩
      rw [walk_succ_of_parent fuel hij, ih hc (by rwa [List.getLastD_cons] at hstop)
        (by simpa using hfuel)]

variable (hp : ∀ i j, parent i = some j → g.Adj j i)
include hp

theorem walk_chain (i fuel : Nat) : List.Chain (fun a b => g.Adj b a) i (walk parent i fuel) := by
  induction fuel generalizing i with
  | zero => exact .nil
  | succ fuel ih =>
    cases h : parent i with
    | none => rw [walk_succ_of_root fuel h]; exact .nil
    | some j => rw [walk_succ_of_parent fuel h]; exact .cons (hp i j h) (ih j)

/-- Every node the walk visits has a child: the node it came from. -/
theorem walk_mem_adj {i fuel j : Nat} (hj : j ∈ walk parent i fuel) : ∃ k, g.Adj j k := by
  induction fuel generalizing i with
  | zero => cases hj
  | succ fuel ih =>
    cases h : parent i with
    | none => rw [walk_succ_of_root fuel h] at hj; cases hj
    | some j' =>
      rw [walk_succ_of_parent fuel h] at hj
      rcases List.mem_cons.mp hj with rfl | hj
      · exact ⟨i, hp i j h⟩
      · exact ih hj

theorem walk_lt {i fuel : Nat} (hi : i < g.nodeCount) : ∀ j ∈ i :: walk parent i fuel, j < g.nodeCount := by
  induction fuel generalizing i with
  | zero => simpa [walk] using hi
  | succ fuel ih =>
    cases h : parent i with
    | none => simpa [walk_succ_of_root fuel h] using hi
    | some j =>
      rw [walk_succ_of_parent fuel h]
      rintro k (_ | ⟨_, hk⟩)
      · exact hi
      · exact ih (adj_lt (hp i j h)).1 k hk

omit hp in
theorem transGen_of_chain {R : Nat → Nat → Prop} :
    ∀ {i j : Nat} {l : List Nat}, List.Chain R i l → j ∈ l → Relation.TransGen R i j
  | _, _, _ :: _, .cons hr _, .head _ => .single hr
  | _, _, _ :: _, .cons hr hc, .tail _ hj => .head hr (transGen_of_chain hc hj)

omit hp in
/-- In an acyclic graph a path against the edges has no repeated node. -/
theorem nodup_of_chain (h : g.Acyclic) :
    ∀ {i : Nat} {l : List Nat}, List.Chain (fun a b => g.Adj b a) i l → (i :: l).Nodup
  | _, [], _ => List.nodup_singleton _
  | i, j :: l, .cons hij hc => by
    refine List.nodup_cons.mpr ⟨fun hi => h i ?_, nodup_of_chain h hc⟩
    exact Relation.transGen_swap.mp (transGen_of_chain (.cons hij hc) hi)

theorem walk_nodup (h : g.Acyclic) (i fuel : Nat) : (i :: walk parent i fuel).Nodup :=
  nodup_of_chain h (walk_chain hp i fuel)

theorem walk_length_lt (h : g.Acyclic) {i : Nat} (hi : i < g.nodeCount) (fuel : Nat) :
    (walk parent i fuel).length < g.nodeCount := by
  have hsub := (walk_nodup hp h i fuel).subperm fun j hj => List.mem_range.mpr (walk_lt hp hi j hj)
  simpa using hsub.length_le

/-- With `nodeCount - 1` steps of fuel, or more, the walk has stopped. -/
theorem walk_terminates (h : g.Acyclic) {i fuel : Nat} (hi : i < g.nodeCount)
    (hfuel : g.nodeCount - 1 ≤ fuel) :
    parent ((walk parent i fuel).getLastD i) = none := by
  have hlt := walk_length_lt hp h hi (fuel + 1)
  rw [← walk_succ_eq (by omega)]
  exact walk_stop (by omega)

end Walk

end DiGraph

end Petgraph
end SpringQL
