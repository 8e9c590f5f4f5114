import JoinPlanner.Proofs.Components
import Mathlib.Data.List.Induction

/-!
# JoinPlanner — the list of components

The components of predicates are listed in one way only: the tables of each in increasing
order, and the components in the order of their smallest tables. So the list does not depend
on how the predicates are given, as long as their tables are the same.

* `nodup_flatten_groups` — no table is in the groups of a graph twice.
* `ListsComponents`      — the groups are the components, in order.
* `ListsComponents.unique` — there is one such list.
* `Predicate.Resembles`  — two predicates have the same tables for an obvious reason.
* `Stores`               — the edges of a graph hold its predicates, each one once.
* `stores_ofPredicates`  — a predicate is put on the edge of its tables and on no other.
* `exists_findsComponents` — the statement about all lists of predicates.
-/

namespace JoinPlanner

-- ---------------------------------------------------------------------------
-- Increasing texts
-- ---------------------------------------------------------------------------

namespace Text

theorem ordered_iff {a b : String} : ordered a b = true ↔ a ≤ b := by
  rw [ordered, Bool.not_eq_true', decide_eq_false_iff_not, String.not_lt]

theorem lt_of_le_of_ne {a b : String} (h : a ≤ b) (hNe : a ≠ b) : a < b := by
  by_contra hNot
  exact hNe (String.le_antisymm h (String.not_lt.mp hNot))

theorem sortedOn_pairwise {α : Type} (key : α → String) (xs : List α) :
    (sortedOn key xs).Pairwise fun x y => key x ≤ key y := by
  have hSorted := sortBy_pairwise (fun x y => ordered (key x) (key y))
    (fun x y => by simpa only [Bool.or_eq_true, ordered_iff] using String.le_total (key x) (key y))
    (fun x y z => by simpa only [ordered_iff] using String.le_trans) xs
  exact hSorted.imp ordered_iff.mp

/-- Different texts are sorted strictly. -/
theorem sorted_pairwise {texts : List String} (h : texts.Nodup) :
    (sorted texts).Pairwise (· < ·) := by
  have hNodup : (sorted texts).Nodup := (sortBy_perm ordered texts).nodup_iff.mpr h
  have hSorted : (sorted texts).Pairwise (· ≤ ·) := sortedOn_pairwise id texts
  exact (hSorted.and hNodup).imp fun ⟨hLe, hNe⟩ => lt_of_le_of_ne hLe hNe

/-- Increasing lists with the same texts are the same list. -/
theorem eq_of_increasing {xs ys : List String} (hxs : xs.Pairwise (· < ·))
    (hys : ys.Pairwise (· < ·)) (h : ∀ a, a ∈ xs ↔ a ∈ ys) : xs = ys := by
  have hNodup : ∀ {zs : List String}, zs.Pairwise (· < ·) → zs.Nodup := by
    intro zs hzs
    refine hzs.imp ?_
    rintro a _ hLt rfl
    exact String.lt_irrefl a hLt
  refine List.Perm.eq_of_pairwise (fun a b _ _ hab hba => ?_) hxs hys
    ((List.perm_ext_iff_of_nodup (hNodup hxs) (hNodup hys)).mpr h)
  exact absurd (String.lt_trans hab hba) (String.lt_irrefl a)

end Text

-- ---------------------------------------------------------------------------
-- Tables of the groups
-- ---------------------------------------------------------------------------

namespace JoinGraph

theorem flatten_mergeGroups (groups : List (List String)) (e : Edge) :
    (mergeGroups groups e).flatten.Perm groups.flatten := by
  have hParts := (List.filter_append_perm
    (fun g => g.contains e.left || g.contains e.right) groups).flatten
  rwa [List.flatten_append] at hParts

/-- The groups hold the tables of the graph and no table twice. -/
theorem flatten_groups (graph : JoinGraph) : graph.groups.flatten.Perm graph.nodes := by
  have hMerged : ∀ (edges : List Edge) (groups : List (List String)),
      (edges.foldl mergeGroups groups).flatten.Perm groups.flatten := by
    intro edges
    induction edges with
    | nil => exact fun groups => List.Perm.refl _
    | cons e rest ih =>
      exact fun groups => (ih (mergeGroups groups e)).trans (flatten_mergeGroups groups e)
  have hSingles : (graph.nodes.map fun table => [table]).flatten = graph.nodes := by
    rw [← List.flatMap_def, List.flatMap_singleton']
  exact hSingles ▸ hMerged graph.edges _

end JoinGraph

-- ---------------------------------------------------------------------------
-- Lists of components
-- ---------------------------------------------------------------------------

/-- All tables of the later group come after some table of the earlier one. -/
def StartsBefore (group other : List String) : Prop := ∃ a ∈ group, ∀ b ∈ other, a < b

/-- The groups are the components of the predicates, by their smallest tables. -/
structure ListsComponents (predicates : List Predicate) (groups : List (List String)) : Prop where
  nonempty : ∀ group ∈ groups, group ≠ []
  disjoint : groups.Pairwise List.Disjoint
  cover : ∀ a : String, (∃ group ∈ groups, a ∈ group) ↔ some a ∈ Predicate.tablesIn predicates
  /-- The group of a table consists of the tables that a sequence of joins leads to. -/
  chained : ∀ group ∈ groups, ∀ a ∈ group, ∀ b, b ∈ group ↔ Chained predicates a b
  increasing : ∀ group ∈ groups, group.Pairwise (· < ·)
  ordered : groups.Pairwise StartsBefore

namespace ListsComponents

variable {predicates others : List Predicate} {groups groups' : List (List String)}

theorem mem_of_mem (h : ListsComponents predicates groups)
    (h' : ListsComponents predicates groups') {group : List String} (hGroup : group ∈ groups) :
    group ∈ groups' := by
  obtain ⟨a, ha⟩ := List.exists_mem_of_ne_nil group (h.nonempty group hGroup)
  obtain ⟨other, hOther, ha'⟩ := (h'.cover a).mpr ((h.cover a).mp ⟨group, hGroup, ha⟩)
  -- both groups consist of the tables that `a` is chained to
  have hSame : ∀ b, b ∈ group ↔ b ∈ other := fun b =>
    (h.chained group hGroup a ha b).trans (h'.chained other hOther a ha' b).symm
  rwa [Text.eq_of_increasing (h.increasing group hGroup) (h'.increasing other hOther) hSame]

theorem nodup (h : ListsComponents predicates groups) : groups.Nodup := by
  refine h.ordered.imp ?_
  rintro group _ ⟨a, ha, hAfter⟩ rfl
  exact String.lt_irrefl a (hAfter a ha)

/-- The components of predicates have one list. -/
theorem unique (h : ListsComponents predicates groups)
    (h' : ListsComponents predicates groups') : groups = groups' := by
  refine List.Perm.eq_of_pairwise (fun g g' _ _ hBefore hAfter => ?_) h.ordered h'.ordered
    ((List.perm_ext_iff_of_nodup h.nodup h'.nodup).mpr fun g => ⟨h.mem_of_mem h', h'.mem_of_mem h⟩)
  obtain ⟨a, ha, hLt⟩ := hBefore
  obtain ⟨b, hb, hLt'⟩ := hAfter
  exact absurd (String.lt_trans (hLt b hb) (hLt' a ha)) (String.lt_irrefl a)

/-- It depends on the tables of the predicates only. -/
theorem of_tables (h : ListsComponents predicates groups)
    (hSome : ∀ p ∈ predicates, ∃ q ∈ others, ∀ a : String, some a ∈ p.tables → some a ∈ q.tables)
    (hAll : ∀ q ∈ others, ∃ p ∈ predicates, ∀ a : String, some a ∈ q.tables → some a ∈ p.tables) :
    ListsComponents others groups := by
  refine { h with
    cover := fun a => (h.cover a).trans ?_
    chained := fun group hGroup a ha b => (h.chained group hGroup a ha b).trans
      ⟨Chained.of_tables hSome, Chained.of_tables hAll⟩ }
  rw [Predicate.mem_tablesIn, Predicate.mem_tablesIn]
  constructor
  · rintro ⟨p, hp, ha⟩
    obtain ⟨q, hq, hTables⟩ := hSome p hp
    exact ⟨q, hq, hTables a ha⟩
  · rintro ⟨q, hq, ha⟩
    obtain ⟨p, hp, hTables⟩ := hAll q hq
    exact ⟨p, hp, hTables a ha⟩

end ListsComponents

/-- Increasing groups with no table in common are sorted by their smallest tables. -/
theorem pairwise_startsBefore {groups : List (List String)}
    (hNonempty : ∀ group ∈ groups, group ≠ []) (hDisjoint : groups.Pairwise List.Disjoint)
    (hIncreasing : ∀ group ∈ groups, group.Pairwise (· < ·))
    (hHeads : groups.Pairwise fun g g' => g.headD "" ≤ g'.headD "") :
    groups.Pairwise StartsBefore := by
  refine (hHeads.and hDisjoint).imp_of_mem fun {g g'} hg hg' hBoth => ?_
  obtain ⟨hLe, hApart⟩ := hBoth
  obtain ⟨a, rest, rfl⟩ := List.exists_cons_of_ne_nil (hNonempty g hg)
  obtain ⟨b, rest', rfl⟩ := List.exists_cons_of_ne_nil (hNonempty g' hg')
  have hHead : a < b := Text.lt_of_le_of_ne hLe fun hEq =>
    hApart List.mem_cons_self (hEq ▸ List.mem_cons_self)
  refine ⟨a, List.mem_cons_self, fun c hc => ?_⟩
  rcases List.mem_cons.mp hc with rfl | hc
  · exact hHead
  · exact String.lt_trans hHead ((List.pairwise_cons.mp (hIncreasing _ hg')).1 c hc)

/-- The components of a graph are listed as those of its predicates. -/
theorem listsComponents_components {predicates : List Predicate} {graph : JoinGraph}
    (h : graph.Describes predicates) : ListsComponents predicates graph.components := by
  have hPerm : graph.components.Perm (graph.groups.map Text.sorted) := sortBy_perm _ _
  have hGroups : IsComponents predicates graph.components :=
    ((isComponents_groups h).map fun _ _ => mem_sortBy _).perm hPerm
  have hNodup : ∀ group ∈ graph.groups, group.Nodup :=
    (List.nodup_flatten.mp (graph.flatten_groups.nodup_iff.mpr h.nodup)).1
  have hIncreasing : ∀ group ∈ graph.components, group.Pairwise (· < ·) := by
    intro group hGroup
    obtain ⟨g, hg, rfl⟩ := List.mem_map.mp (hPerm.mem_iff.mp hGroup)
    exact Text.sorted_pairwise (hNodup g hg)
  exact {
    nonempty := hGroups.nonempty
    disjoint := hGroups.disjoint
    cover := fun a => (hGroups.cover a).trans Predicate.mem_tablesIn.symm
    chained := hGroups.chained
    increasing := hIncreasing
    ordered := pairwise_startsBefore hGroups.nonempty hGroups.disjoint hIncreasing
      (Text.sortedOn_pairwise _ _) }

theorem listsComponents_linkedGroups {predicates : List Predicate}
    (hNodes : ∀ p ∈ predicates, JoinGraph.HasNodes p) : ∃ graph,
      JoinGraph.ofPredicates predicates = .ok graph ∧
      linkedGroups predicates = .ok graph.components ∧
      ListsComponents predicates graph.components := by
  obtain ⟨graph, hGraph⟩ := JoinGraph.foldlM_addPredicate_eq_ok JoinGraph.empty hNodes
  refine ⟨graph, hGraph, ?_, listsComponents_components (JoinGraph.describes_ofPredicates hGraph)⟩
  rw [linkedGroups, JoinGraph.ofPredicates, hGraph]
  rfl

-- ---------------------------------------------------------------------------
-- Predicates with the same tables
-- ---------------------------------------------------------------------------

namespace Predicate

/-- Two predicates are the same join, or joins of one table with any subqueries. -/
def Resembles (p q : Predicate) : Prop :=
  p.SameJoin q ∨ (p.kind = .subplan ∧ q.kind = .subplan ∧ p.left.table = q.left.table)

variable {p q : Predicate}

theorem Resembles.mem_tables_iff (h : p.Resembles q) {table : Option String} :
    table ∈ p.tables ↔ table ∈ q.tables := by
  rcases h with hSame | ⟨hp, hq, hTable⟩
  · exact hSame.mem_tables_iff
  · simp only [tables, hp, hq, hTable]

theorem Resembles.hasNodes (h : p.Resembles q) (hq : JoinGraph.HasNodes q) :
    JoinGraph.HasNodes p := by
  rcases h with hSame | ⟨hp, -, hTable⟩
  · exact hq.of_sameJoin hSame
  · exact ⟨hTable ▸ hq.1, fun hKind => by simp [hp] at hKind⟩

/-- Each predicate of one list resembles some predicate of the other list. -/
def Alike (predicates others : List Predicate) : Prop :=
  (∀ p ∈ predicates, ∃ q ∈ others, q.Resembles p) ∧
    (∀ q ∈ others, ∃ p ∈ predicates, q.Resembles p)

end Predicate

-- ---------------------------------------------------------------------------
-- Predicates of the edges
-- ---------------------------------------------------------------------------

instance (p : Predicate) (a b : String) : Decidable (p.Links a b) :=
  inferInstanceAs (Decidable (_ ∧ _))

namespace JoinGraph

/-- The edges hold the table joins, each one on the edge of its tables. -/
structure Stores (edges : List Edge) (predicates : List Predicate) : Prop where
  /-- No two edges link the same tables. -/
  apart : edges.Pairwise fun e f => ¬ e.links f.left f.right
  /-- An edge holds the joins of its tables, in their order and as often as they are given. -/
  lists : ∀ e ∈ edges, e.predicates = predicates.filter fun p => p.Links e.left e.right
  /-- Together the edges hold what there is of table joins. -/
  all : (edges.flatMap Edge.predicates).Perm (predicates.filter fun p => p.kind = .table)

variable {edges : List Edge} {a b : String} {p : Predicate}

theorem mem_linkEdges {e : Edge} (h : e ∈ linkEdges edges a b p) :
    (e.left = a ∧ e.right = b) ∨ ∃ f ∈ edges, e.left = f.left ∧ e.right = f.right := by
  induction edges with
  | nil =>
    rw [linkEdges, List.mem_singleton] at h
    exact Or.inl (h ▸ ⟨rfl, rfl⟩)
  | cons f rest ih =>
    unfold linkEdges at h
    split at h
    · rcases List.mem_cons.mp h with rfl | h
      · exact Or.inr ⟨f, List.mem_cons_self, rfl, rfl⟩
      · exact Or.inr ⟨e, List.mem_cons_of_mem f h, rfl, rfl⟩
    · rcases List.mem_cons.mp h with rfl | h
      · exact Or.inr ⟨e, List.mem_cons_self, rfl, rfl⟩
      · rcases ih h with hNew | ⟨g, hg, hEnds⟩
        · exact Or.inl hNew
        · exact Or.inr ⟨g, List.mem_cons_of_mem f hg, hEnds⟩

/-- No second edge is made for tables that are linked. -/
theorem apart_linkEdges (h : edges.Pairwise fun e f => ¬ e.links f.left f.right) :
    (linkEdges edges a b p).Pairwise fun e f => ¬ e.links f.left f.right := by
  induction edges with
  | nil => exact List.pairwise_singleton _ _
  | cons e rest ih =>
    obtain ⟨hFirst, hRest⟩ := List.pairwise_cons.mp h
    unfold linkEdges
    split
    · exact List.pairwise_cons.mpr ⟨hFirst, hRest⟩
    · rename_i hOther
      refine List.pairwise_cons.mpr ⟨fun f hf => ?_, ih hRest⟩
      rcases mem_linkEdges hf with ⟨hl, hr⟩ | ⟨g, hg, hl, hr⟩
      · rwa [hl, hr]
      · rw [hl, hr]
        exact hFirst g hg

theorem flatMap_linkEdges :
    ((linkEdges edges a b p).flatMap Edge.predicates).Perm
      (edges.flatMap Edge.predicates ++ [p]) := by
  induction edges with
  | nil => exact List.Perm.refl _
  | cons e rest ih =>
    unfold linkEdges
    split
    · simp only [List.flatMap_cons, List.append_assoc]
      exact List.perm_append_comm.append_left _
    · simp only [List.flatMap_cons, List.append_assoc]
      exact ih.append_left _

/-- The joins of an edge's tables are those of two given tables, or none of them. -/
theorem links_ends_iff (hKind : p.kind = .table) (hLeft : p.left.table = some a)
    (hRight : p.right.table = some b) (e : Edge) :
    p.Links e.left e.right ↔ e.links a b = true := by
  simp only [Predicate.Links, Edge.links_iff, hKind, hLeft, hRight, Option.some.injEq, true_and]
  constructor
  · rintro (⟨hl, hr⟩ | ⟨hl, hr⟩)
    · exact Or.inl ⟨hl.symm, hr.symm⟩
    · exact Or.inr ⟨hr.symm, hl.symm⟩
  · rintro (⟨hl, hr⟩ | ⟨hl, hr⟩)
    · exact Or.inl ⟨hl.symm, hr.symm⟩
    · exact Or.inr ⟨hr.symm, hl.symm⟩

/-- Putting a join on the edge of its tables keeps the lists of all edges right. -/
theorem lists_linkEdges {done : List Predicate} (hKind : p.kind = .table)
    (hLeft : p.left.table = some a) (hRight : p.right.table = some b)
    (hApart : edges.Pairwise fun e f => ¬ e.links f.left f.right)
    (hLists : ∀ e ∈ edges, e.predicates = done.filter fun q => q.Links e.left e.right)
    (hFresh : (∀ e ∈ edges, ¬ e.links a b) → ∀ q ∈ done, ¬ q.Links a b) :
    ∀ e ∈ linkEdges edges a b p,
      e.predicates = (done ++ [p]).filter fun q => q.Links e.left e.right := by
  have hEnds := links_ends_iff hKind hLeft hRight
  induction edges with
  | nil =>
    -- a new edge: none of the earlier joins is one of its tables
    intro e he
    obtain rfl := List.mem_singleton.mp he
    have hNone : (done.filter fun q => q.Links a b) = [] := by
      simpa using hFresh (by simp)
    have hOwn : p.Links a b := ⟨hKind, Or.inl ⟨hLeft, hRight⟩⟩
    simp [List.filter_append, hNone, hOwn]
  | cons e rest ih =>
    obtain ⟨hFirst, hRest⟩ := List.pairwise_cons.mp hApart
    have hOld : ∀ f ∈ e :: rest, ¬ f.links a b →
        f.predicates = (done ++ [p]).filter fun q => q.Links f.left f.right := by
      intro f hf hOther
      have hNot : ¬ p.Links f.left f.right := mt (hEnds f).mp hOther
      simp [List.filter_append, hNot, hLists f hf]
    unfold linkEdges
    split
    · rename_i hLinks
      intro f hf
      rcases List.mem_cons.mp hf with rfl | hf
      · have hOwn : p.Links e.left e.right := (hEnds e).mpr hLinks
        simp [List.filter_append, hOwn, hLists e List.mem_cons_self]
      · refine hOld f (List.mem_cons_of_mem e hf) fun hLinks' => hFirst f hf ?_
        -- two edges of the same tables would be linked by each other
        rw [Edge.links_iff] at hLinks hLinks' ⊢
        rcases hLinks with ⟨rfl, rfl⟩ | ⟨rfl, rfl⟩ <;>
          rcases hLinks' with ⟨hl, hr⟩ | ⟨hl, hr⟩ <;> simp [hl, hr]
    · rename_i hOther
      intro f hf
      rcases List.mem_cons.mp hf with rfl | hf
      · exact hOld f List.mem_cons_self hOther
      · refine ih hRest (fun g hg => hLists g (List.mem_cons_of_mem e hg)) ?_ f hf
        exact fun hNone => hFresh (List.forall_mem_cons.mpr ⟨hOther, hNone⟩)

/-- Adding a predicate stores it. -/
theorem Stores.addPredicate {graph graph' : JoinGraph} {done : List Predicate} {p : Predicate}
    (hStores : Stores graph.edges done) (hDone : graph.Describes done)
    (h : graph.addPredicate p = .ok graph') : Stores graph'.edges (done ++ [p]) := by
  have hNodes := hasNodes_of_addPredicate h
  obtain ⟨kind, ⟨left, leftColumn⟩, operator, ⟨right, rightColumn⟩⟩ := p
  obtain ⟨a, rfl⟩ := Option.isSome_iff_exists.mp hNodes.1
  cases kind with
  | subplan =>
    obtain rfl : graph.addNode a = graph' := Except.ok.inj h
    rw [addNode_edges]
    refine ⟨hStores.apart, fun e he => ?_, ?_⟩
    · simp [hStores.lists e he, List.filter_append, Predicate.Links]
    · simpa [List.filter_append] using hStores.all
  | table =>
    obtain ⟨b, rfl⟩ := Option.isSome_iff_exists.mp (hNodes.2 rfl)
    rw [← Except.ok.inj h]
    refine ⟨?_, ?_, ?_⟩
    · exact apart_linkEdges (by simpa using hStores.apart)
    · refine lists_linkEdges rfl rfl rfl (by simpa using hStores.apart)
        (by simpa using hStores.lists) fun hNone q hq hLinks => ?_
      obtain ⟨e, he, hLink⟩ := (hDone.edges a b).mpr ⟨q, hq, hLinks⟩
      exact hNone e (by simpa using he) hLink
    · refine flatMap_linkEdges.trans ?_
      rw [addNode_edges, addNode_edges, List.filter_append]
      exact hStores.all.append_right _

/-- The graph of predicates stores them. -/
theorem stores_ofPredicates {predicates : List Predicate} {graph : JoinGraph}
    (h : ofPredicates predicates = .ok graph) : Stores graph.edges predicates := by
  induction predicates using List.reverseRecOn generalizing graph with
  | nil =>
    rw [← Except.ok.inj h]
    exact ⟨List.Pairwise.nil, fun e he => absurd he List.not_mem_nil, List.Perm.refl _⟩
  | append_singleton done p ih =>
    rw [ofPredicates, List.foldlM_append, Outcome.bind_eq_ok] at h
    obtain ⟨before, hBefore, hLast⟩ := h
    rw [List.foldlM_cons, Outcome.bind_eq_ok] at hLast
    obtain ⟨after, hAfter, hEq⟩ := hLast
    rw [← Outcome.pure_eq_ok.mp hEq]
    exact (ih hBefore).addPredicate (describes_ofPredicates hBefore) hAfter

end JoinGraph

-- ---------------------------------------------------------------------------
-- The statement
-- ---------------------------------------------------------------------------

/-- The graph of the predicates shows their components and holds the table joins. -/
structure FindsComponents (predicates : List Predicate) (graph : JoinGraph) : Prop where
  found : linkedGroups predicates = .ok graph.components
  lists : ListsComponents predicates graph.components
  /-- In another order, repeated, exchanged or with other subqueries the predicates have the
  same components. -/
  stable : ∀ others, Predicate.Alike predicates others →
    linkedGroups others = .ok graph.components
  stores : JoinGraph.Stores graph.edges predicates

/-- Predicates that have the aliases of a graph have a list of components. -/
theorem exists_findsComponents {predicates : List Predicate}
    (hNodes : ∀ p ∈ predicates, JoinGraph.HasNodes p) :
    ∃ graph, JoinGraph.ofPredicates predicates = .ok graph ∧
      FindsComponents predicates graph := by
  obtain ⟨graph, hGraph, hFound, hLists⟩ := listsComponents_linkedGroups hNodes
  refine ⟨graph, hGraph, hFound, hLists, fun others hAlike => ?_,
    JoinGraph.stores_ofPredicates hGraph⟩
  have hNodes' : ∀ q ∈ others, JoinGraph.HasNodes q := by
    intro q hq
    obtain ⟨p, hp, hResembles⟩ := hAlike.2 q hq
    exact hResembles.hasNodes (hNodes p hp)
  obtain ⟨graph', -, hFound', hLists'⟩ := listsComponents_linkedGroups hNodes'
  have hTables : ListsComponents others graph.components := by
    refine hLists.of_tables (fun p hp => ?_) (fun q hq => ?_)
    · obtain ⟨q, hq, hResembles⟩ := hAlike.1 p hp
      exact ⟨q, hq, fun a => hResembles.mem_tables_iff.mpr⟩
    · obtain ⟨p, hp, hResembles⟩ := hAlike.2 q hq
      exact ⟨p, hp, fun a => hResembles.mem_tables_iff.mp⟩
  rw [hFound', hLists'.unique hTables]

/-- Two tables that two joins link, one of them given the other way round as well, and a table
that is joined with a subquery. -/
theorem exists_findsComponents_links :
    let x : Predicate := ⟨.table, ⟨some "b", some "x"⟩, .less, ⟨some "a", some "y"⟩⟩
    let y : Predicate := ⟨.table, ⟨some "a", some "x"⟩, .equal, ⟨some "b", some "x"⟩⟩
    let z : Predicate := ⟨.subplan, ⟨some "c", some "x"⟩, .equal, ⟨none, none⟩⟩
    (∀ p ∈ [z, x, y, x.flipped], JoinGraph.HasNodes p) ∧
      ∃ graph, JoinGraph.ofPredicates [z, x, y, x.flipped] = .ok graph ∧
        FindsComponents [z, x, y, x.flipped] graph := by
  intro x y z
  have hNodes : ∀ p ∈ [z, x, y, x.flipped], JoinGraph.HasNodes p := by
    simp [JoinGraph.HasNodes, Predicate.flipped, x, y, z]
  exact ⟨hNodes, exists_findsComponents hNodes⟩

end JoinPlanner
