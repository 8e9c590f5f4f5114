import JoinPlanner.InputCheck
import JoinPlanner.Proofs.Linked
import JoinPlanner.Proofs.Outcome
import Mathlib.Data.List.Nodup
import Mathlib.Data.List.Pairwise

/-!
# JoinPlanner — components of the join graph

The groups of a join graph start as its single tables and are merged along its edges.
What is kept at each edge (`Partition`): no group is empty, no two have a table in
common, and two tables are in one group if and only if the edges so far chain them.

* `Describes`    — a graph has the tables and the links of some predicates.
* `describes_ofPredicates` — the graph of named predicates exists and describes them.
* `partition_groups` — the groups are the classes of chained tables.
* `IsComponents`     — the same about predicates, without their graph.
* `isComponents_linkedGroups` — `linkedGroups` finds the components.
* `checkLinked_eq_success_iff` — predicates that have the aliases of a graph pass the check
  if and only if they are linked.
-/

namespace JoinPlanner

theorem Edge.links_iff {e : Edge} {a b : String} :
    e.links a b = true ↔ (e.left = a ∧ e.right = b) ∨ (e.left = b ∧ e.right = a) := by
  simp [Edge.links]

namespace JoinGraph

-- ---------------------------------------------------------------------------
-- Tables and links
-- ---------------------------------------------------------------------------

/-- The graph has the tables and the links of the predicates. -/
structure Describes (graph : JoinGraph) (predicates : List Predicate) : Prop where
  nodup : graph.nodes.Nodup
  nodes : ∀ table, table ∈ graph.nodes ↔ ∃ p ∈ predicates, some table ∈ p.tables
  edges : ∀ a b, (∃ e ∈ graph.edges, e.links a b = true) ↔ SomeLinks predicates a b

theorem mem_addNode {graph : JoinGraph} {table other : String} :
    other ∈ (graph.addNode table).nodes ↔ other = table ∨ other ∈ graph.nodes := by
  unfold addNode
  split
  · rename_i hMem
    rw [List.contains_iff_mem] at hMem
    constructor
    · exact Or.inr
    · rintro (rfl | h)
      · exact hMem
      · exact h
  · simp [or_comm]

theorem nodup_addNode {graph : JoinGraph} (h : graph.nodes.Nodup) (table : String) :
    (graph.addNode table).nodes.Nodup := by
  unfold addNode
  split
  · exact h
  · rename_i hMem
    rw [List.contains_iff_mem] at hMem
    exact List.nodup_append.mpr
      ⟨h, List.nodup_singleton _, fun x hx y hy hxy => by simp_all⟩

@[simp] theorem addNode_edges (graph : JoinGraph) (table : String) :
    (graph.addNode table).edges = graph.edges := by
  unfold addNode
  split <;> rfl

/-- Adding a predicate to the edge of two tables links these and changes no other link. -/
theorem links_linkEdges {edges : List Edge} {a b x y : String} {p : Predicate} :
    (∃ e ∈ linkEdges edges a b p, e.links x y = true) ↔
      (∃ e ∈ edges, e.links x y = true) ∨ (a = x ∧ b = y) ∨ (a = y ∧ b = x) := by
  induction edges with
  | nil => simp [linkEdges, Edge.links_iff]
  | cons e rest ih =>
    unfold linkEdges
    split
    · -- the edge is there: it links the two tables already
      rename_i hLinks
      have hSame : (a = x ∧ b = y) ∨ (a = y ∧ b = x) → e.links x y = true := by
        rw [Edge.links_iff] at hLinks ⊢
        rintro (⟨rfl, rfl⟩ | ⟨rfl, rfl⟩)
        · exact hLinks
        · exact hLinks.symm
      simp only [List.exists_mem_cons_iff]
      constructor
      · rintro (h | h)
        · exact Or.inl (Or.inl h)
        · exact Or.inl (Or.inr h)
      · rintro ((h | h) | h)
        · exact Or.inl h
        · exact Or.inr h
        · exact Or.inl (hSame h)
    · simp only [List.exists_mem_cons_iff, ih, or_assoc]

/-- The sides that a graph needs have aliases. -/
def HasNodes (p : Predicate) : Prop :=
  p.left.table.isSome ∧ (p.kind = .table → p.right.table.isSome)

theorem hasNodes_of_named {p : Predicate} (h : p.Named) : HasNodes p :=
  ⟨h.left, h.right.mpr⟩

theorem HasNodes.exists_table {p : Predicate} (h : HasNodes p) :
    ∃ a : String, some a ∈ p.tables := by
  obtain ⟨a, ha⟩ := Option.isSome_iff_exists.mp h.1
  refine ⟨a, ?_⟩
  cases hKind : p.kind <;> simp [Predicate.tables, hKind, ha]

theorem HasNodes.isSome_of_mem_tables {p : Predicate} (h : HasNodes p) {table : Option String}
    (hTable : table ∈ p.tables) : table.isSome := by
  obtain ⟨kind, left, operator, right⟩ := p
  cases kind with
  | subplan => exact List.mem_singleton.mp hTable ▸ h.1
  | table => exact (List.mem_filter.mp hTable).2

theorem HasNodes.of_sameJoin {p q : Predicate} (h : HasNodes p) (hSame : q.SameJoin p) :
    HasNodes q := by
  rcases hSame with rfl | rfl
  · exact h
  · obtain ⟨kind, left, operator, right⟩ := p
    cases kind with
    | subplan => exact h
    | table => exact ⟨h.2 rfl, fun _ => h.1⟩

/-- A predicate can be added if it has the aliases; its table and its link come in. -/
theorem addPredicate_eq_ok (graph : JoinGraph) {p : Predicate} (hNodes : HasNodes p) :
    ∃ graph', graph.addPredicate p = .ok graph' ∧
      (graph.nodes.Nodup → graph'.nodes.Nodup) ∧
      (∀ table, table ∈ graph'.nodes ↔ some table ∈ p.tables ∨ table ∈ graph.nodes) ∧
      ∀ x y, (∃ e ∈ graph'.edges, e.links x y = true) ↔
        (∃ e ∈ graph.edges, e.links x y = true) ∨ p.Links x y := by
  obtain ⟨kind, ⟨left, leftColumn⟩, operator, ⟨right, rightColumn⟩⟩ := p
  obtain ⟨a, rfl⟩ := Option.isSome_iff_exists.mp hNodes.1
  cases kind with
  | subplan =>
    refine ⟨graph.addNode a, rfl, fun h => nodup_addNode h a, fun table => ?_, fun x y => ?_⟩
    · simp [mem_addNode, Predicate.tables]
    · simp [Predicate.Links]
  | table =>
    obtain ⟨b, rfl⟩ := Option.isSome_iff_exists.mp (hNodes.2 rfl)
    refine ⟨_, rfl, fun h => nodup_addNode (nodup_addNode h a) b, fun table => ?_,
      fun x y => ?_⟩
    · simp only [mem_addNode, Predicate.tables]
      simp [or_left_comm, or_assoc]
    · simp [links_linkEdges, Predicate.Links]

/-- The predicate that could be added has the aliases. -/
theorem hasNodes_of_addPredicate {graph graph' : JoinGraph} {p : Predicate}
    (h : graph.addPredicate p = .ok graph') : HasNodes p := by
  obtain ⟨kind, ⟨left, leftColumn⟩, operator, ⟨right, rightColumn⟩⟩ := p
  cases kind <;> cases left <;> cases right <;> simp_all [addPredicate, HasNodes]

theorem Describes.addPredicate {graph graph' : JoinGraph} {done : List Predicate}
    {p : Predicate} (hDone : graph.Describes done) (h : graph.addPredicate p = .ok graph') :
    graph'.Describes (done ++ [p]) := by
  obtain ⟨added, hAdded, hNodup, hNodes, hEdges⟩ :=
    addPredicate_eq_ok graph (hasNodes_of_addPredicate h)
  obtain rfl : added = graph' := Except.ok.inj (hAdded.symm.trans h)
  refine ⟨hNodup hDone.nodup, ?_, ?_⟩
  · intro table
    simp only [hNodes, hDone.nodes, List.mem_append, List.mem_singleton, or_and_right,
      exists_or, exists_eq_left]
    exact or_comm
  · intro x y
    simp only [hEdges, hDone.edges, SomeLinks, List.mem_append, List.mem_singleton, or_and_right,
      exists_or, exists_eq_left]

/-- Adding predicates one after another describes all of them. -/
theorem describes_foldlM {predicates : List Predicate} :
    ∀ {graph graph' : JoinGraph} {done : List Predicate}, graph.Describes done →
      predicates.foldlM JoinGraph.addPredicate graph = .ok graph' →
      graph'.Describes (done ++ predicates) := by
  induction predicates with
  | nil =>
    intro graph graph' done hDone h
    cases h
    rwa [List.append_nil]
  | cons p rest ih =>
    intro graph graph' done hDone h
    rw [List.foldlM_cons, Outcome.bind_eq_ok] at h
    obtain ⟨next, hNext, hRest⟩ := h
    have := ih (hDone.addPredicate hNext) hRest
    rwa [List.append_assoc] at this

theorem foldlM_addPredicate_eq_ok {predicates : List Predicate} :
    ∀ graph : JoinGraph, (∀ p ∈ predicates, HasNodes p) →
      ∃ graph', predicates.foldlM JoinGraph.addPredicate graph = .ok graph' := by
  induction predicates with
  | nil => exact fun graph _ => ⟨graph, rfl⟩
  | cons p rest ih =>
    intro graph hNodes
    obtain ⟨next, hNext, -⟩ :=
      addPredicate_eq_ok graph (hNodes p (List.mem_cons_self ..))
    obtain ⟨graph', hRest⟩ := ih next fun q hq => hNodes q (List.mem_cons_of_mem p hq)
    refine ⟨graph', ?_⟩
    rw [List.foldlM_cons, Outcome.bind_eq_ok]
    exact ⟨next, hNext, hRest⟩

theorem hasNodes_of_foldlM {predicates : List Predicate} :
    ∀ {graph graph' : JoinGraph},
      predicates.foldlM JoinGraph.addPredicate graph = .ok graph' →
      ∀ p ∈ predicates, HasNodes p := by
  induction predicates with
  | nil =>
    intro graph graph' _ p hp
    cases hp
  | cons q rest ih =>
    intro graph graph' h p hp
    rw [List.foldlM_cons, Outcome.bind_eq_ok] at h
    obtain ⟨next, hNext, hRest⟩ := h
    rcases List.mem_cons.mp hp with rfl | hp
    · exact hasNodes_of_addPredicate hNext
    · exact ih hRest p hp

theorem describes_empty : JoinGraph.empty.Describes [] := by
  refine ⟨List.nodup_nil, ?_, ?_⟩
  · simp [JoinGraph.empty]
  · simp [JoinGraph.empty, SomeLinks]

theorem describes_ofPredicates {predicates : List Predicate} {graph : JoinGraph}
    (h : ofPredicates predicates = .ok graph) : graph.Describes predicates :=
  describes_foldlM describes_empty h

-- ---------------------------------------------------------------------------
-- Groups
-- ---------------------------------------------------------------------------

/-- Some group holds both tables. -/
def Together (groups : List (List String)) (a b : String) : Prop :=
  ∃ group ∈ groups, a ∈ group ∧ b ∈ group

/-- Some of the edges link the two tables. -/
def EdgeLinks (edges : List Edge) (a b : String) : Prop := ∃ e ∈ edges, e.links a b = true

instance (edges : List Edge) : Std.Symm (EdgeLinks edges) where
  symm := fun _ _ ⟨e, he, hLinks⟩ =>
    ⟨e, he, Edge.links_iff.mpr (Edge.links_iff.mp hLinks).symm⟩

/-- A sequence of edges leads from one table to the other. -/
def EdgeChained (edges : List Edge) : String → String → Prop :=
  Relation.ReflTransGen (EdgeLinks edges)

theorem EdgeChained.mono {edges others : List Edge} (h : ∀ e ∈ edges, e ∈ others) {a b : String}
    (hChain : EdgeChained edges a b) : EdgeChained others a b := by
  have hLinks : EdgeLinks edges ≤ EdgeLinks others := fun _ _ ⟨e, he, hLinks⟩ =>
    ⟨e, h e he, hLinks⟩
  exact Relation.ReflTransGen.mono hLinks a b hChain

/-- The groups divide the tables into the classes that the edges chain. -/
structure Partition (tables : List String) (edges : List Edge) (groups : List (List String)) :
    Prop where
  nonempty : ∀ group ∈ groups, group ≠ []
  disjoint : groups.Pairwise List.Disjoint
  cover : ∀ table, table ∈ tables ↔ ∃ group ∈ groups, table ∈ group
  together : ∀ a ∈ tables, ∀ b ∈ tables, Together groups a b ↔ EdgeChained edges a b

/-- In disjoint groups a table is in one group only. -/
theorem eq_of_mem_of_disjoint {groups : List (List String)} (h : groups.Pairwise List.Disjoint)
    {g g' : List String} (hg : g ∈ groups) (hg' : g' ∈ groups) {table : String}
    (hMem : table ∈ g) (hMem' : table ∈ g') : g = g' := by
  have : Std.Symm (fun x y : List String => x.Disjoint y) :=
    ⟨fun _ _ hxy => List.disjoint_symm hxy⟩
  by_contra hne
  exact h.forall hg hg' hne hMem hMem'

theorem Together.trans {groups : List (List String)} (hDisjoint : groups.Pairwise List.Disjoint)
    {a b c : String} (hab : Together groups a b) (hbc : Together groups b c) :
    Together groups a c := by
  obtain ⟨g, hg, ha, hb⟩ := hab
  obtain ⟨g', hg', hb', hc⟩ := hbc
  obtain rfl := eq_of_mem_of_disjoint hDisjoint hg hg' hb hb'
  exact ⟨g, hg, ha, hc⟩

/-- Without edges each table is a group of its own. -/
theorem partition_singletons {tables : List String} (hNodup : tables.Nodup) :
    Partition tables [] (tables.map fun table => [table]) := by
  refine ⟨by simp, ?_, by simp, ?_⟩
  · rw [List.pairwise_map]
    exact hNodup.imp fun hne => by simpa using fun h => hne h.symm
  · intro a ha b _
    constructor
    · rintro ⟨group, hGroup, hMem, hMem'⟩
      obtain ⟨table, -, rfl⟩ := List.mem_map.mp hGroup
      rw [List.mem_singleton] at hMem hMem'
      rw [hMem, hMem']
      exact .refl
    · intro hChain
      have hab : a = b := by
        induction hChain with
        | refl => rfl
        | tail _ hLink _ =>
          obtain ⟨e, he, -⟩ := hLink
          cases he
      exact ⟨[a], List.mem_map.mpr ⟨a, ha, rfl⟩, by simp, by simp [hab]⟩

-- ---------------------------------------------------------------------------
-- Merging
-- ---------------------------------------------------------------------------

/-- A group holds an end of the edge. -/
def Touched (e : Edge) (group : List String) : Prop := e.left ∈ group ∨ e.right ∈ group

theorem mem_mergeGroups {groups : List (List String)} {e : Edge} {group : List String} :
    group ∈ mergeGroups groups e ↔
      group = (groups.filter fun g => g.contains e.left || g.contains e.right).flatten ∨
        group ∈ groups ∧ ¬ Touched e group := by
  simp [mergeGroups, Touched]

theorem mem_merged {groups : List (List String)} {e : Edge} {table : String} :
    table ∈ (groups.filter fun g => g.contains e.left || g.contains e.right).flatten ↔
      ∃ group ∈ groups, Touched e group ∧ table ∈ group := by
  simp [Touched, List.mem_flatten, and_assoc]

/-- Merging takes no two tables apart. -/
theorem Together.merge {groups : List (List String)} {e : Edge} {a b : String}
    (h : Together groups a b) : Together (mergeGroups groups e) a b := by
  obtain ⟨g, hg, ha, hb⟩ := h
  by_cases hTouched : Touched e g
  · exact ⟨_, mem_mergeGroups.mpr (Or.inl rfl), mem_merged.mpr ⟨g, hg, hTouched, ha⟩,
      mem_merged.mpr ⟨g, hg, hTouched, hb⟩⟩
  · exact ⟨g, mem_mergeGroups.mpr (Or.inr ⟨hg, hTouched⟩), ha, hb⟩

theorem disjoint_mergeGroups {groups : List (List String)}
    (h : groups.Pairwise List.Disjoint) (e : Edge) :
    (mergeGroups groups e).Pairwise List.Disjoint := by
  refine List.pairwise_cons.mpr ⟨?_, h.filter _⟩
  -- a table of the merged group is in a touched one, the others are not touched
  intro other hOther table hMem hMem'
  obtain ⟨g, hg, hTouched, hMem⟩ := mem_merged.mp hMem
  obtain ⟨hOther, hUntouched⟩ := List.mem_filter.mp hOther
  obtain rfl := eq_of_mem_of_disjoint h hg hOther hMem hMem'
  simp only [Touched] at hTouched
  simp_all

/-- Merging covers the same tables. -/
theorem mem_mergeGroups_iff {groups : List (List String)} {e : Edge} {table : String} :
    (∃ group ∈ mergeGroups groups e, table ∈ group) ↔ ∃ group ∈ groups, table ∈ group := by
  constructor
  · rintro ⟨g, hg, hMem⟩
    rcases mem_mergeGroups.mp hg with rfl | ⟨hg, -⟩
    · obtain ⟨g, hg, -, hMem⟩ := mem_merged.mp hMem
      exact ⟨g, hg, hMem⟩
    · exact ⟨g, hg, hMem⟩
  · rintro ⟨g, hg, hMem⟩
    obtain ⟨g', hg', hMem', -⟩ := Together.merge (e := e) ⟨g, hg, hMem, hMem⟩
    exact ⟨g', hg', hMem'⟩

namespace Partition

variable {tables : List String} {edges : List Edge} {groups : List (List String)} {e : Edge}

/-- The ends of the edge are in the merged group. -/
theorem together_ends (h : Partition tables edges groups) (hLeft : e.left ∈ tables)
    (hRight : e.right ∈ tables) : Together (mergeGroups groups e) e.left e.right := by
  obtain ⟨g, hg, hMem⟩ := (h.cover e.left).mp hLeft
  obtain ⟨g', hg', hMem'⟩ := (h.cover e.right).mp hRight
  exact ⟨_, mem_mergeGroups.mpr (Or.inl rfl), mem_merged.mpr ⟨g, hg, Or.inl hMem, hMem⟩,
    mem_merged.mpr ⟨g', hg', Or.inr hMem', hMem'⟩⟩

/-- All tables of the merged group reach the left end of the edge. -/
theorem chained_left (h : Partition tables edges groups) (hLeft : e.left ∈ tables)
    (hRight : e.right ∈ tables) {table : String} {group : List String} (hGroup : group ∈ groups)
    (hTouched : Touched e group) (hMem : table ∈ group) :
    EdgeChained (edges ++ [e]) table e.left := by
  have hOld : ∀ x ∈ edges, x ∈ edges ++ [e] := fun x hx => List.mem_append_left _ hx
  have hTable := (h.cover table).mpr ⟨group, hGroup, hMem⟩
  rcases hTouched with hEnd | hEnd
  · exact ((h.together table hTable _ hLeft).mp ⟨group, hGroup, hMem, hEnd⟩).mono hOld
  · have hChain := (h.together table hTable _ hRight).mp ⟨group, hGroup, hMem, hEnd⟩
    exact (hChain.mono hOld).tail ⟨e, List.mem_append_right _ (List.mem_singleton_self e),
      Edge.links_iff.mpr (Or.inr ⟨rfl, rfl⟩)⟩

/-- Tables that an edge links are in one group, be it an old edge or the one merged along. -/
theorem together_of_link (h : Partition tables edges groups)
    (hEnds : ∀ e ∈ edges, e.left ∈ tables ∧ e.right ∈ tables) (hLeft : e.left ∈ tables)
    (hRight : e.right ∈ tables) {a b : String} (hLink : EdgeLinks (edges ++ [e]) a b) :
    Together (mergeGroups groups e) a b := by
  obtain ⟨x, hx, hLinks⟩ := hLink
  rcases List.mem_append.mp hx with hx | hx
  · obtain ⟨hxl, hxr⟩ := hEnds x hx
    have hStep : EdgeChained edges a b := .single ⟨x, hx, hLinks⟩
    refine Together.merge ?_
    rcases Edge.links_iff.mp hLinks with ⟨rfl, rfl⟩ | ⟨rfl, rfl⟩
    · exact (h.together _ hxl _ hxr).mpr hStep
    · exact (h.together _ hxr _ hxl).mpr hStep
  · obtain rfl := List.mem_singleton.mp hx
    obtain ⟨g, hg, hMemL, hMemR⟩ := h.together_ends hLeft hRight
    rcases Edge.links_iff.mp hLinks with ⟨rfl, rfl⟩ | ⟨rfl, rfl⟩
    · exact ⟨g, hg, hMemL, hMemR⟩
    · exact ⟨g, hg, hMemR, hMemL⟩

/-- Merging along an edge between two tables keeps the groups right. -/
theorem merge (h : Partition tables edges groups)
    (hEnds : ∀ e ∈ edges, e.left ∈ tables ∧ e.right ∈ tables) (hLeft : e.left ∈ tables)
    (hRight : e.right ∈ tables) : Partition tables (edges ++ [e]) (mergeGroups groups e) := by
  have hDisjoint := disjoint_mergeGroups h.disjoint e
  have hCover : ∀ table, table ∈ tables ↔ ∃ group ∈ mergeGroups groups e, table ∈ group :=
    fun table => (h.cover table).trans mem_mergeGroups_iff.symm
  refine ⟨?_, hDisjoint, hCover, fun a ha b hb => ⟨?_, ?_⟩⟩
  · -- no group is empty
    intro group hGroup
    rcases mem_mergeGroups.mp hGroup with rfl | ⟨hGroup, -⟩
    · obtain ⟨g, hg, hMem⟩ := (h.cover e.left).mp hLeft
      exact List.ne_nil_of_mem (mem_merged.mpr ⟨g, hg, Or.inl hMem, hMem⟩)
    · exact h.nonempty group hGroup
  · -- tables of one group are chained
    rintro ⟨group, hGroup, hMemA, hMemB⟩
    rcases mem_mergeGroups.mp hGroup with rfl | ⟨hGroup, -⟩
    · obtain ⟨g, hg, hTouched, hMemA⟩ := mem_merged.mp hMemA
      obtain ⟨g', hg', hTouched', hMemB⟩ := mem_merged.mp hMemB
      exact (h.chained_left hLeft hRight hg hTouched hMemA).trans
        (symm (h.chained_left hLeft hRight hg' hTouched' hMemB))
    · exact ((h.together a ha b hb).mp ⟨group, hGroup, hMemA, hMemB⟩).mono
        fun x hx => List.mem_append_left _ hx
  · -- chained tables are in one group, by induction on the chain
    intro hChain
    clear hb
    induction hChain with
    | refl =>
      obtain ⟨g, hg, hMem⟩ := (hCover a).mp ha
      exact ⟨g, hg, hMem, hMem⟩
    | tail _ hLink ih => exact ih.trans hDisjoint (h.together_of_link hEnds hLeft hRight hLink)

end Partition

/-- Merging along edges one after another keeps the groups right. -/
theorem partition_foldl {tables : List String} {edges : List Edge} :
    ∀ {groups : List (List String)} {done : List Edge}, Partition tables done groups →
      (∀ e ∈ done ++ edges, e.left ∈ tables ∧ e.right ∈ tables) →
      Partition tables (done ++ edges) (edges.foldl mergeGroups groups) := by
  induction edges with
  | nil =>
    intro groups done h _
    rwa [List.append_nil]
  | cons e rest ih =>
    intro groups done h hEnds
    obtain ⟨hLeft, hRight⟩ := hEnds e (by simp)
    have hStep := h.merge (fun x hx => hEnds x (List.mem_append_left _ hx)) hLeft hRight
    have hRest := ih hStep (by simpa using hEnds)
    rwa [List.append_assoc] at hRest

/-- The groups of a join graph are the classes of tables that its edges chain. -/
theorem partition_groups {graph : JoinGraph} {predicates : List Predicate}
    (h : graph.Describes predicates) : Partition graph.nodes graph.edges graph.groups := by
  refine partition_foldl (partition_singletons h.nodup) fun e he => ?_
  obtain ⟨p, hp, hLinks⟩ :=
    (h.edges e.left e.right).mp ⟨e, he, Edge.links_iff.mpr (Or.inl ⟨rfl, rfl⟩)⟩
  exact ⟨(h.nodes _).mpr ⟨p, hp, hLinks.mem_left⟩, (h.nodes _).mpr ⟨p, hp, hLinks.mem_right⟩⟩

/-- The edges chain two tables if and only if the predicates do. -/
theorem Describes.edgeChained_iff {graph : JoinGraph} {predicates : List Predicate}
    (h : graph.Describes predicates) {a b : String} :
    EdgeChained graph.edges a b ↔ Chained predicates a b := by
  have hLinks : EdgeLinks graph.edges = SomeLinks predicates := by
    funext x y
    exact propext (h.edges x y)
  rw [EdgeChained, Chained, hLinks]

end JoinGraph

-- ---------------------------------------------------------------------------
-- The components of predicates
-- ---------------------------------------------------------------------------

/-- The groups are the classes of tables that the predicates chain, each listed once. -/
structure IsComponents (predicates : List Predicate) (groups : List (List String)) : Prop where
  nonempty : ∀ group ∈ groups, group ≠ []
  disjoint : groups.Pairwise List.Disjoint
  cover : ∀ a : String, (∃ group ∈ groups, a ∈ group) ↔ ∃ p ∈ predicates, some a ∈ p.tables
  /-- The group of a table consists of the tables that it is chained to. -/
  chained : ∀ group ∈ groups, ∀ a ∈ group, ∀ b, b ∈ group ↔ Chained predicates a b

namespace IsComponents

variable {predicates : List Predicate} {groups others : List (List String)}

/-- The sequence of the tables in a group does not matter. -/
theorem map {f : List String → List String} (h : IsComponents predicates groups)
    (hf : ∀ group a, a ∈ f group ↔ a ∈ group) : IsComponents predicates (groups.map f) := by
  refine ⟨?_, ?_, fun a => ?_, ?_⟩
  · intro group hGroup
    obtain ⟨g, hg, rfl⟩ := List.mem_map.mp hGroup
    obtain ⟨a, ha⟩ := List.exists_mem_of_ne_nil g (h.nonempty g hg)
    exact List.ne_nil_of_mem ((hf g a).mpr ha)
  · rw [List.pairwise_map]
    refine h.disjoint.imp fun hDisjoint a ha hb => ?_
    exact hDisjoint ((hf _ a).mp ha) ((hf _ a).mp hb)
  · rw [← h.cover a]
    constructor
    · rintro ⟨group, hGroup, ha⟩
      obtain ⟨g, hg, rfl⟩ := List.mem_map.mp hGroup
      exact ⟨g, hg, (hf g a).mp ha⟩
    · rintro ⟨g, hg, ha⟩
      exact ⟨f g, List.mem_map_of_mem hg, (hf g a).mpr ha⟩
  · intro group hGroup a ha b
    obtain ⟨g, hg, rfl⟩ := List.mem_map.mp hGroup
    rw [hf, h.chained g hg a ((hf g a).mp ha)]

/-- The sequence of the groups does not matter. -/
theorem perm (h : IsComponents predicates groups) (hPerm : others.Perm groups) :
    IsComponents predicates others := by
  refine ⟨?_, ?_, fun a => ?_, ?_⟩
  · exact fun group hGroup => h.nonempty group (hPerm.mem_iff.mp hGroup)
  · exact (hPerm.pairwise_iff fun hDisjoint => List.disjoint_symm hDisjoint).mpr h.disjoint
  · rw [← h.cover a]
    exact exists_congr fun group => and_congr_left fun _ => hPerm.mem_iff
  · exact fun group hGroup => h.chained group (hPerm.mem_iff.mp hGroup)

/-- Predicates that are the same joins have the same components. -/
theorem congr {joins : List Predicate} (h : IsComponents joins groups)
    (hSome : ∀ p ∈ joins, ∃ q ∈ predicates, q.SameJoin p)
    (hAll : ∀ q ∈ predicates, ∃ p ∈ joins, p.SameJoin q) : IsComponents predicates groups := by
  refine ⟨h.nonempty, h.disjoint, fun a => (h.cover a).trans ⟨?_, ?_⟩, ?_⟩
  · rintro ⟨p, hp, hMem⟩
    obtain ⟨q, hq, hSame⟩ := hSome p hp
    exact ⟨q, hq, hSame.mem_tables_iff.mpr hMem⟩
  · rintro ⟨q, hq, hMem⟩
    obtain ⟨p, hp, hSame⟩ := hAll q hq
    exact ⟨p, hp, hSame.mem_tables_iff.mpr hMem⟩
  · intro group hGroup a ha b
    rw [h.chained group hGroup a ha b]
    exact ⟨Chained.mono hSome, Chained.mono hAll⟩

/-- There is one component if and only if all tables are chained. -/
theorem length_eq_one_iff (h : IsComponents predicates groups)
    (hTables : ∃ p ∈ predicates, ∃ table : String, some table ∈ p.tables) :
    groups.length = 1 ↔ Linked predicates := by
  constructor
  · intro hOne p hp q hq a b ha hb
    obtain ⟨group, rfl⟩ := List.length_eq_one_iff.mp hOne
    have hMem : ∀ c : String, (∃ p ∈ predicates, some c ∈ p.tables) → c ∈ group :=
      fun c hc => by simpa using (h.cover c).mpr hc
    have hChained := h.chained group (List.mem_singleton_self group) a (hMem a ⟨p, hp, ha⟩) b
    exact hChained.mp (hMem b ⟨q, hq, hb⟩)
  · intro hLinked
    obtain ⟨p, hp, table, hTable⟩ := hTables
    obtain ⟨group, hGroup, -⟩ := (h.cover table).mpr ⟨p, hp, hTable⟩
    match groups, h, hGroup with
    | [_], _, _ => rfl
    | g :: g' :: rest, h, _ =>
      -- tables of two groups would be in one
      have hg : g ∈ g :: g' :: rest := List.mem_cons_self
      have hg' : g' ∈ g :: g' :: rest := List.mem_cons_of_mem _ List.mem_cons_self
      obtain ⟨a, ha⟩ := List.exists_mem_of_ne_nil g (h.nonempty g hg)
      obtain ⟨b, hb⟩ := List.exists_mem_of_ne_nil g' (h.nonempty g' hg')
      obtain ⟨p, hp, ha'⟩ := (h.cover a).mp ⟨g, hg, ha⟩
      obtain ⟨q, hq, hb'⟩ := (h.cover b).mp ⟨g', hg', hb⟩
      have hBoth : b ∈ g := (h.chained g hg a ha b).mpr (hLinked p hp q hq a b ha' hb')
      exact absurd hb ((List.pairwise_cons.mp h.disjoint).1 g' List.mem_cons_self hBoth)

/-- Otherwise there are several. -/
theorem one_lt_length_iff (h : IsComponents predicates groups)
    (hTables : ∃ p ∈ predicates, ∃ table : String, some table ∈ p.tables) :
    1 < groups.length ↔ ¬ Linked predicates := by
  have hOne := h.length_eq_one_iff hTables
  obtain ⟨p, hp, table, hTable⟩ := hTables
  obtain ⟨group, hGroup, -⟩ := (h.cover table).mpr ⟨p, hp, hTable⟩
  have hPos := List.length_pos_of_mem hGroup
  rw [← hOne]
  omega

end IsComponents

/-- A table that is chained to a table of the predicates is one of them. -/
theorem exists_mem_of_chained {predicates : List Predicate} {a b : String}
    (ha : ∃ p ∈ predicates, some a ∈ p.tables) (h : Chained predicates a b) :
    ∃ p ∈ predicates, some b ∈ p.tables := by
  cases h with
  | refl => exact ha
  | tail _ hLink =>
    obtain ⟨p, hp, hLinks⟩ := hLink
    exact ⟨p, hp, hLinks.mem_right⟩

/-- The groups of a join graph are the components of its predicates. -/
theorem isComponents_groups {predicates : List Predicate} {graph : JoinGraph}
    (h : graph.Describes predicates) : IsComponents predicates graph.groups := by
  have hGroups := JoinGraph.partition_groups h
  have hCover : ∀ a : String, (∃ group ∈ graph.groups, a ∈ group) ↔
      ∃ p ∈ predicates, some a ∈ p.tables := fun a => (hGroups.cover a).symm.trans (h.nodes a)
  refine ⟨hGroups.nonempty, hGroups.disjoint, hCover, fun group hGroup a ha b => ?_⟩
  have haNode := (hGroups.cover a).mpr ⟨group, hGroup, ha⟩
  constructor
  · intro hb
    have hbNode := (hGroups.cover b).mpr ⟨group, hGroup, hb⟩
    exact h.edgeChained_iff.mp
      ((hGroups.together a haNode b hbNode).mp ⟨group, hGroup, ha, hb⟩)
  · intro hChain
    have hbNode := (h.nodes b).mpr (exists_mem_of_chained ((h.nodes a).mp haNode) hChain)
    obtain ⟨both, hBoth, haBoth, hbBoth⟩ :=
      (hGroups.together a haNode b hbNode).mpr (h.edgeChained_iff.mpr hChain)
    rwa [JoinGraph.eq_of_mem_of_disjoint hGroups.disjoint hGroup hBoth ha haBoth]

/-- The groups of linked tables are the components of the predicates. -/
theorem isComponents_linkedGroups {predicates : List Predicate} {groups : List (List String)}
    (h : linkedGroups predicates = .ok groups) : IsComponents predicates groups := by
  rw [linkedGroups, Outcome.bind_eq_ok] at h
  obtain ⟨graph, hGraph, hGroups⟩ := h
  rw [← Outcome.pure_eq_ok.mp hGroups]
  have hComponents := isComponents_groups (JoinGraph.describes_ofPredicates hGraph)
  exact (hComponents.map fun _ _ => mem_sortBy _).perm (sortBy_perm _ _)

-- ---------------------------------------------------------------------------
-- The check
-- ---------------------------------------------------------------------------

/-- Predicates can only be checked if they have the aliases that their graph needs. -/
theorem hasNodes_of_checkLinked {predicates : List Predicate} {check : InputCheck}
    (h : checkLinked predicates = .ok check) : ∀ p ∈ predicates, JoinGraph.HasNodes p := by
  intro p hp
  have hNe : predicates ≠ [] := List.ne_nil_of_mem hp
  rw [checkLinked, if_neg (by simpa using hNe), Outcome.bind_eq_ok] at h
  obtain ⟨groups, hGroups, -⟩ := h
  rw [linkedGroups, Outcome.bind_eq_ok] at hGroups
  obtain ⟨graph, hGraph, -⟩ := hGroups
  exact JoinGraph.hasNodes_of_foldlM hGraph p hp

/-- Predicates with the aliases of a graph have components, and the check counts them. -/
theorem checkLinked_eq {predicates : List Predicate} (hNe : predicates ≠ [])
    (hNodes : ∀ p ∈ predicates, JoinGraph.HasNodes p) :
    ∃ groups, linkedGroups predicates = .ok groups ∧ checkLinked predicates =
      .ok (if groups.length = 1 then .success
        else ⟨false, crossProductReason, groups.map .group⟩) := by
  obtain ⟨graph, hGraph⟩ := JoinGraph.foldlM_addPredicate_eq_ok JoinGraph.empty hNodes
  have hGroups : linkedGroups predicates = .ok graph.components := by
    rw [linkedGroups, JoinGraph.ofPredicates, hGraph]
    rfl
  refine ⟨graph.components, hGroups, ?_⟩
  rw [checkLinked, if_neg (by simpa using hNe), hGroups]
  show (if graph.components.length = 1 then .ok .success
    else .ok ⟨false, crossProductReason, graph.components.map .group⟩ : Outcome InputCheck) = _
  split <;> rfl

/-- Such predicates pass the check if and only if their tables are linked. -/
theorem checkLinked_eq_success_iff {predicates : List Predicate}
    (hNodes : ∀ p ∈ predicates, JoinGraph.HasNodes p) :
    checkLinked predicates = .ok .success ↔ Linked predicates := by
  by_cases hEmpty : predicates = []
  · subst hEmpty
    refine iff_of_true rfl fun p hp => ?_
    cases hp
  obtain ⟨p, hp⟩ := List.exists_mem_of_ne_nil predicates hEmpty
  obtain ⟨groups, hGroups, hCheck⟩ := checkLinked_eq hEmpty hNodes
  rw [hCheck, ← (isComponents_linkedGroups hGroups).length_eq_one_iff
    ⟨p, hp, (hNodes p hp).exists_table⟩]
  split
  · simp_all
  · rename_i hLength
    simp [hLength, InputCheck.success]

end JoinPlanner
