import JoinPlanner.Proofs.Linked
import Mathlib.Combinatorics.SimpleGraph.Acyclic

/-!
# JoinPlanner — joins without a cycle

The joins of a forest join different tables, no two of them the same ones, and they close no
cycle. So the other joins of a forest never lead from one table of a join to its other table.

* `tableGraph`         — the tables and their links as a graph.
* `Forest`             — the property; joins with subqueries link nothing.
* `Forest.not_chained` — without a join its tables are not chained.
* `Forest.cons`, `Forest.cons_subplan` — how a forest grows.
-/

namespace JoinPlanner

/-- The tables, with an edge between two different ones that some join links. -/
def tableGraph (joins : List Predicate) : SimpleGraph String :=
  SimpleGraph.fromRel (SomeLinks joins)

variable {joins : List Predicate} {p : Predicate} {a b : String}

theorem tableGraph_adj : (tableGraph joins).Adj a b ↔ a ≠ b ∧ SomeLinks joins a b := by
  rw [tableGraph, SimpleGraph.fromRel_adj]
  refine and_congr_right fun _ => ⟨fun h => h.elim id (symm_of _), Or.inl⟩

/-- Links of one join have the same ends. -/
theorem Predicate.Links.ends_eq {c d : String} (h : p.Links a b) (h' : p.Links c d) :
    s(c, d) = s(a, b) := by
  obtain ⟨-, h⟩ := h
  obtain ⟨-, h'⟩ := h'
  rw [Sym2.eq_iff]
  rcases h with ⟨hl, hr⟩ | ⟨hl, hr⟩ <;> rcases h' with ⟨hl', hr'⟩ | ⟨hl', hr'⟩ <;>
    rw [hl] at hl' <;> rw [hr] at hr' <;> cases hl' <;> cases hr' <;> simp

/-- A link is one between the same ends in either direction. -/
theorem Predicate.Links.of_ends_eq {c d : String} (h : p.Links c d) (hEnds : s(c, d) = s(a, b)) :
    p.Links a b := by
  rcases Sym2.eq_iff.mp hEnds with ⟨rfl, rfl⟩ | ⟨rfl, rfl⟩
  · exact h
  · exact h.symm

/-- No self joins, no two joins of the same tables, no cycles. -/
structure Forest (joins : List Predicate) : Prop where
  noSelfJoin : ∀ p ∈ joins, ∀ a : String, ¬ p.Links a a
  single : ∀ p ∈ joins, ∀ q ∈ joins, ∀ a b : String, p.Links a b → q.Links a b → p = q
  acyclic : (tableGraph joins).IsAcyclic

namespace Forest

/-- Other joins do not lead from one table of a join to its other table. -/
theorem not_chained (h : Forest joins) (hp : p ∈ joins) (hLinks : p.Links a b)
    {rest : List Predicate} (hRest : ∀ q ∈ rest, q ∈ joins ∧ q ≠ p) : ¬ Chained rest a b := by
  intro hChain
  have hNe : a ≠ b := fun hSame => h.noSelfJoin p hp a (hSame ▸ hLinks)
  have hBridge := SimpleGraph.isAcyclic_iff_forall_adj_isBridge.mp h.acyclic
    (tableGraph_adj.mpr ⟨hNe, p, hp, hLinks⟩)
  -- a chain of other joins goes around the edge of this one
  have hAround : ∀ c, Chained rest a c →
      ((tableGraph joins).deleteEdges {s(a, b)}).Reachable a c := by
    intro c hChain
    induction hChain with
    | refl => exact .refl a
    | @tail x y _ hLink ih =>
      obtain ⟨q, hq, hLinks'⟩ := hLink
      obtain ⟨hJoins, hOther⟩ := hRest q hq
      by_cases hxy : x = y
      · exact hxy ▸ ih
      · refine ih.trans (SimpleGraph.Adj.reachable ?_)
        rw [SimpleGraph.deleteEdges_adj, tableGraph_adj, Set.mem_singleton_iff]
        refine ⟨⟨hxy, q, hJoins, hLinks'⟩, fun hEnds => hOther ?_⟩
        exact h.single q hJoins p hp a b (hLinks'.of_ends_eq hEnds) hLinks
  exact SimpleGraph.isBridge_iff.mp hBridge (hAround b hChain)

theorem nil : Forest [] := by
  refine ⟨?_, ?_, ?_⟩
  · intro p hp
    cases hp
  · intro p hp
    cases hp
  · refine SimpleGraph.isAcyclic_bot.anti fun a b hAdj => ?_
    obtain ⟨-, p, hp, -⟩ := tableGraph_adj.mp hAdj
    cases hp

/-- A join of a table that no other join has leads to a leaf. -/
theorem cons (h : Forest joins) (hLinks : p.Links a b) (hNe : a ≠ b)
    (hLeaf : ∀ q ∈ joins, some b ∉ q.tables) : Forest (p :: joins) := by
  have hNew : ∀ q ∈ joins, ∀ x y : String, p.Links x y → ¬ q.Links x y := by
    intro q hq x y hp hOther
    exact hLeaf q hq (hOther.of_ends_eq (hLinks.ends_eq hp)).mem_right
  refine ⟨?_, ?_, ?_⟩
  · refine List.forall_mem_cons.mpr ⟨fun c hSelf => hNe ?_, h.noSelfJoin⟩
    rcases Sym2.eq_iff.mp (hLinks.ends_eq hSelf) with ⟨rfl, rfl⟩ | ⟨rfl, rfl⟩ <;> rfl
  · intro q hq r hr x y hx hy
    rcases List.mem_cons.mp hq with rfl | hqRest <;> rcases List.mem_cons.mp hr with rfl | hrRest
    · rfl
    · exact absurd hy (hNew r hrRest x y hx)
    · exact absurd hx (hNew q hqRest x y hy)
    · exact h.single q hqRest r hrRest x y hx hy
  · have hUnreached : ¬ (tableGraph joins).Reachable b a := by
      intro hReach
      obtain ⟨walk⟩ := hReach
      cases walk with
      | nil => exact hNe rfl
      | cons hAdj _ =>
        obtain ⟨-, q, hq, hOther⟩ := tableGraph_adj.mp hAdj
        exact hLeaf q hq hOther.mem_left
    refine (h.acyclic.sup_edge_of_not_reachable hUnreached).anti fun x y hAdj => ?_
    obtain ⟨hxy, q, hq, hOther⟩ := tableGraph_adj.mp hAdj
    rw [SimpleGraph.sup_adj, SimpleGraph.edge_adj]
    rcases List.mem_cons.mp hq with rfl | hq
    · refine Or.inr ⟨?_, hxy⟩
      rcases Sym2.eq_iff.mp (hLinks.ends_eq hOther) with ⟨rfl, rfl⟩ | ⟨rfl, rfl⟩
      · exact Or.inr ⟨rfl, rfl⟩
      · exact Or.inl ⟨rfl, rfl⟩
    · exact Or.inl (tableGraph_adj.mpr ⟨hxy, q, hq, hOther⟩)

/-- A join with a subquery links nothing. -/
theorem cons_subplan (h : Forest joins) (hKind : p.kind = .subplan) : Forest (p :: joins) := by
  have hNone : ∀ x y : String, ¬ p.Links x y := by
    intro x y hLinks
    cases hKind.symm.trans hLinks.1
  refine ⟨?_, ?_, ?_⟩
  · exact List.forall_mem_cons.mpr ⟨fun c => hNone c c, h.noSelfJoin⟩
  · intro q hq r hr x y hx hy
    rcases List.mem_cons.mp hq with rfl | hq
    · exact absurd hx (hNone x y)
    · rcases List.mem_cons.mp hr with rfl | hr
      · exact absurd hy (hNone x y)
      · exact h.single q hq r hr x y hx hy
  · refine h.acyclic.anti fun x y hAdj => ?_
    obtain ⟨hxy, q, hq, hOther⟩ := tableGraph_adj.mp hAdj
    rcases List.mem_cons.mp hq with rfl | hq
    · exact absurd hOther (hNone x y)
    · exact tableGraph_adj.mpr ⟨hxy, q, hq, hOther⟩

end Forest

end JoinPlanner
