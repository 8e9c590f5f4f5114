import JoinPlanner.Explanation
import JoinPlanner.Proofs.Components
import JoinPlanner.Proofs.Lookup

/-!
# JoinPlanner — the trees of left-deep orders

The tree of an order is built join by join. In a left-deep order every join after the
first reads a table that is held already, and all such tables are held by the join
before: so the joins form a chain, and the tables that no join held yet become scans.

* `preorders_perm`     — of some nodes, only the joins have others below them.
* `mem_tables_of_mem_sides`, `mem_sides_of_mem_tables` — the sides that are placed are the
  tables of the join.
* `Placement.Gathers`  — the parts of a join after some of its sides were gone through.
* `Placement.Reads`    — the same, if the last of the joins holds all tables that were read.
* `Placement.partsOf`  — the parts of a whole join, in the order of its sides.
* `Placement.Covers`   — the joins that were placed, as a chain above scans and subplans.
* `Covers.ensures_place` — a join that touches the ones before keeps this.
* `ensures_covers`     — every left-deep order has such a tree.
-/

namespace JoinPlanner

open Outcome PlannerError

-- ---------------------------------------------------------------------------
-- Nodes
-- ---------------------------------------------------------------------------

namespace PlanNode

/-- Whether the node is a join. -/
def isJoin : PlanNode → Bool
  | join _ _ _ _ => true
  | _ => false

@[simp] theorem isJoin_join (p : Predicate) (cost : Cost) (card : Cardinality)
    (children : List PlanNode) : (join p cost card children).isJoin = true := rfl

@[simp] theorem isJoin_scan (table : Option String) (cost : Cost) (card : Cardinality) :
    (scan table cost card).isJoin = false := rfl

@[simp] theorem isJoin_subplan : subplan.isJoin = false := rfl

/-- The nodes of subplans, one for each join with a subplan. -/
def subplans (joins : List Predicate) : List PlanNode :=
  List.replicate (joins.countP (·.isSubplan)) subplan

theorem subplans_append (joins others : List Predicate) :
    subplans (joins ++ others) = subplans joins ++ subplans others := by
  rw [subplans, List.countP_append, List.replicate_add]
  rfl

theorem subplans_concat (joins : List Predicate) (p : Predicate) :
    subplans (joins ++ [p]) = subplans joins ++ if p.isSubplan then [subplan] else [] := by
  rw [subplans_append]
  cases hKind : p.isSubplan <;> simp [subplans, hKind]

/-- Of some nodes, only the joins have others below them. -/
theorem preorders_perm (nodes : List PlanNode) :
    (preorders nodes).Perm
      (preorders (nodes.filter isJoin) ++ nodes.filter fun node => !node.isJoin) := by
  have hLeaf : ∀ node : PlanNode, node.isJoin = false → preorder node = [node] := by
    intro node hNode
    cases node with
    | join p cost card children => cases hNode
    | scan table cost card => simp [preorder]
    | subplan => simp [preorder]
  induction nodes with
  | nil => simp [preorders]
  | cons node rest ih =>
    rw [preorders]
    cases hNode : node.isJoin with
    | true =>
      rw [List.filter_cons_of_pos hNode, List.filter_cons_of_neg (by simp [hNode]), preorders,
        List.append_assoc]
      exact ih.append_left _
    | false =>
      rw [List.filter_cons_of_neg (by simp [hNode]), List.filter_cons_of_pos (by simp [hNode]),
        hLeaf node hNode]
      exact (ih.cons node).trans List.perm_middle.symm

end PlanNode

-- ---------------------------------------------------------------------------
-- The parts of a join
-- ---------------------------------------------------------------------------

namespace Placement

/-- The sides that are placed are the tables of a join, if it has the aliases that it needs. -/
theorem mem_tables_of_mem_sides {p : Predicate} (hNodes : JoinGraph.HasNodes p)
    {table : Option String} (h : table ∈ sides p) : table ∈ p.tables := by
  obtain ⟨kind, left, operator, right⟩ := p
  cases kind with
  | subplan => exact h
  | table =>
    have hSides : table = left.table ∨ table = right.table := by simpa [sides] using h
    refine List.mem_filter.mpr ⟨by simpa using hSides, ?_⟩
    rcases hSides with rfl | rfl
    · exact hNodes.1
    · exact hNodes.2 rfl

theorem mem_sides_of_mem_tables {p : Predicate} {table : Option String} (h : table ∈ p.tables) :
    table ∈ sides p := by
  obtain ⟨kind, left, operator, right⟩ := p
  cases kind with
  | subplan => exact h
  | table => simpa [sides] using (List.mem_filter.mp h).1

theorem nodup_sides (p : Predicate) : (sides p).Nodup := by
  unfold sides
  split
  · exact List.pairwise_singleton _ _
  · exact Predicate.nodup_eraseDups _

/-- The scan of a table, if it has estimates. -/
def scanNode (scans : ScanEstimates) (table : Option String) : Option PlanNode :=
  (scans.get? table).map fun (cost, card) => .scan table cost card

variable {scans : ScanEstimates} {placed : Placement} {read done : List (Option String)}
  {parts : Parts}

theorem filterMap_singleton {α β : Type} (f : α → Option β) (a : α) :
    [a].filterMap f = (f a).toList := by
  cases hValue : f a <;> simp [hValue]

/--
The parts of a join after some of its sides were gone through: the steps that hold one of
them, each once, and the scans of those that no step holds.
-/
structure Gathers (scans : ScanEstimates) (placed : Placement) (done : List (Option String))
    (parts : Parts) : Prop where
  nodup : parts.joined.Nodup
  joined : ∀ number, number ∈ parts.joined ↔
    ∃ table ∈ done, placed.holders.get? table = some number
  joins : parts.children.filter PlanNode.isJoin = parts.joined.filterMap (placed.steps[·]?)
  leaves : (parts.children.filter fun node => !node.isJoin) =
    (done.filter fun table => (placed.holders.get? table).isNone).filterMap (scanNode scans)

theorem gathers_nil : Gathers scans placed [] ⟨[], []⟩ :=
  ⟨List.nodup_nil, by simp, by simp, by simp⟩

/-- One more side is read from the step that holds it, which is added once, or from a scan. -/
theorem Gathers.step {table : Option String} (h : Gathers scans placed done parts)
    (hSteps : ∀ node ∈ placed.steps, node.isJoin = true)
    (hScan : ∃ estimate, scans.get? table = some estimate) :
    (addPart placed scans parts table).Ensures Never (Gathers scans placed (done ++ [table])) := by
  unfold addPart
  cases hHolder : placed.holders.get? table with
  | none =>
    obtain ⟨⟨cost, card⟩, hEstimate⟩ := hScan
    simp only [hEstimate]
    refine .ok ⟨h.nodup, fun number => ?_, ?_, ?_⟩
    · simp [h.joined, or_and_right, exists_or, hHolder]
    · simp [h.joins]
    · simp [h.leaves, hHolder, scanNode, hEstimate]
  | some holder =>
    have hLeaves : (done ++ [table]).filter (fun t => (placed.holders.get? t).isNone) =
        done.filter fun t => (placed.holders.get? t).isNone := by simp [hHolder]
    have hJoined : ∀ number, (∃ t ∈ done ++ [table], placed.holders.get? t = some number) ↔
        number ∈ parts.joined ∨ number = holder := by
      intro number
      simp only [h.joined, List.mem_append, List.mem_singleton, or_and_right, exists_or,
        exists_eq_left, hHolder, Option.some.injEq, @eq_comm _ holder]
    by_cases hBefore : holder ∈ parts.joined
    · simp only [List.contains_iff_mem, hBefore, if_true]
      refine .ok ⟨h.nodup, fun number => ?_, h.joins, ?_⟩
      · rw [hJoined]
        exact ⟨Or.inl, fun hNumber => hNumber.elim id fun hSame => hSame ▸ hBefore⟩
      · rw [hLeaves, h.leaves]
    · have hNode : ∀ node ∈ placed.steps[holder]?.toList, node.isJoin = true :=
        fun node hNode => hSteps node (List.mem_of_getElem? (Option.mem_toList.mp hNode))
      simp only [List.contains_iff_mem, hBefore, if_false]
      refine .ok ⟨?_, fun number => ?_, ?_, ?_⟩
      · exact List.nodup_append.mpr ⟨h.nodup, List.nodup_singleton holder, by
          rintro number hNumber _ hHolder rfl
          exact hBefore (List.mem_singleton.mp hHolder ▸ hNumber)⟩
      · rw [hJoined, List.mem_append, List.mem_singleton]
      · rw [List.filter_append, h.joins, List.filter_eq_self.mpr hNode, List.filterMap_append,
          filterMap_singleton]
      · have hNone : (placed.steps[holder]?.toList.filter fun node => !node.isJoin) = [] :=
          List.filter_eq_nil_iff.mpr fun node hMem => by simp [hNode node hMem]
        rw [hLeaves, List.filter_append, hNone, List.append_nil, h.leaves]

/-- The parts of a join are found, if there are scans of its sides. -/
theorem ensures_gathers {tables : List (Option String)}
    (hSteps : ∀ node ∈ placed.steps, node.isJoin = true)
    (hScans : ∀ table ∈ tables, ∃ estimate, scans.get? table = some estimate) :
    (tables.foldlM (addPart placed scans) ⟨[], []⟩).Ensures Never
      (Gathers scans placed tables) :=
  ensures_foldlM gathers_nil fun _ table _ _ hSplit hDone =>
    hDone.step hSteps (hScans table (by simp [hSplit]))

/-- The tables that were read are held by the last of the joins. -/
structure Holds (placed : Placement) (read : List (Option String)) : Prop where
  holders : ∀ table, placed.holders.get? table =
    if table ∈ read then some (placed.steps.length - 1) else none
  steps : ∀ node ∈ placed.steps, node.isJoin = true
  started : read ≠ [] → placed.steps ≠ []

/--
The parts of a join after some of its sides were gone through: the last of the earlier joins,
if it holds one of them, and the scans of the others.
-/
structure Reads (scans : ScanEstimates) (placed : Placement) (read done : List (Option String))
    (parts : Parts) : Prop where
  joined : parts.joined = if ∃ table ∈ done, table ∈ read then [placed.steps.length - 1] else []
  joins : parts.children.filter PlanNode.isJoin =
    if ∃ table ∈ done, table ∈ read then placed.steps.getLast?.toList else []
  leaves : (parts.children.filter fun node => !node.isJoin) =
    (done.filter fun table => !read.contains table).filterMap (scanNode scans)

/-- If the last of the joins holds all tables, then it is the only step that is read. -/
theorem Gathers.reads (h : Gathers scans placed done parts) (hHolds : placed.Holds read) :
    Reads scans placed read done parts := by
  have hMem : ∀ number, number ∈ parts.joined ↔
      (∃ table ∈ done, table ∈ read) ∧ number = placed.steps.length - 1 := by
    intro number
    rw [h.joined]
    constructor
    · rintro ⟨table, hTable, hHolder⟩
      rw [hHolds.holders] at hHolder
      split at hHolder
      · rename_i hRead
        exact ⟨⟨table, hTable, hRead⟩, (Option.some.inj hHolder).symm⟩
      · cases hHolder
    · rintro ⟨⟨table, hTable, hRead⟩, rfl⟩
      exact ⟨table, hTable, by rw [hHolds.holders, if_pos hRead]⟩
  have hJoined : parts.joined =
      if ∃ table ∈ done, table ∈ read then [placed.steps.length - 1] else [] := by
    split
    · rename_i hSome
      refine List.perm_singleton.mp ?_
      refine (List.perm_ext_iff_of_nodup h.nodup (List.nodup_singleton _)).mpr fun number => ?_
      rw [hMem, List.mem_singleton, and_iff_right hSome]
    · rename_i hNone
      exact List.eq_nil_iff_forall_not_mem.mpr fun number hNumber =>
        hNone ((hMem number).mp hNumber).1
  refine ⟨hJoined, ?_, ?_⟩
  · rw [h.joins, hJoined, List.getLast?_eq_getElem?]
    split
    · rw [filterMap_singleton]
    · rfl
  · have hUnread : ∀ table, (placed.holders.get? table).isNone = !read.contains table := by
      intro table
      rw [hHolds.holders]
      by_cases hRead : table ∈ read <;> simp [hRead]
    simp only [h.leaves, hUnread]

-- ---------------------------------------------------------------------------
-- The order of the parts
-- ---------------------------------------------------------------------------

/-- Whether the table is on a side of one of the joins. -/
def readBy (joins : List Predicate) (table : Option String) : Bool :=
  joins.any fun q => (sides q).contains table

theorem readBy_iff {joins : List Predicate} {table : Option String} :
    readBy joins table = true ↔ ∃ q ∈ joins, table ∈ sides q := by
  simp [readBy]

/-- What a side is read from: the joins before, if they have read its table, or else its scan. -/
def sourceOf (scans : ScanEstimates) (known : Option String → Bool) (last : Option PlanNode)
    (table : Option String) : List PlanNode :=
  if known table then last.toList else (scanNode scans table).toList

/-- Both sides of the join are read from one part: they share a table, or were read before. -/
def OnePart (known : Option String → Bool) (p : Predicate) : Prop :=
  p.isSubplan = false ∧ (p.left.table = p.right.table ∨
    known p.left.table = true ∧ known p.right.table = true)

instance (known : Option String → Bool) (p : Predicate) : Decidable (OnePart known p) :=
  inferInstanceAs (Decidable (_ ∧ (_ ∨ _ ∧ _)))

/-- The parts of a join: that of its left side, and then the other one, if there is one. -/
def partsOf (scans : ScanEstimates) (known : Option String → Bool) (last : Option PlanNode)
    (p : Predicate) : List PlanNode :=
  sourceOf scans known last p.left.table ++
    if OnePart known p then []
    else if p.isSubplan then [.subplan] else sourceOf scans known last p.right.table

theorem sides_of_subplan {p : Predicate} (h : p.isSubplan = true) : sides p = [p.left.table] := by
  rw [sides, show p.kind = .subplan from eq_of_beq h]

theorem sides_of_table {p : Predicate} (h : p.isSubplan = false) : sides p =
    if p.left.table = p.right.table then [p.left.table] else [p.left.table, p.right.table] := by
  obtain ⟨kind, left, operator, right⟩ := p
  cases kind with
  | subplan => cases h
  | table =>
    show [left.table, right.table].eraseDups = _
    by_cases hSame : left.table = right.table
    · simp [hSame, List.eraseDups_cons]
    · simp [hSame, Ne.symm hSame, List.eraseDups_cons]

theorem left_mem_sides (p : Predicate) : p.left.table ∈ sides p := by
  cases hKind : p.isSubplan with
  | true => simp [sides_of_subplan hKind]
  | false =>
    rw [sides_of_table hKind]
    split <;> exact List.mem_cons_self

theorem right_mem_sides {p : Predicate} (h : p.isSubplan = false) : p.right.table ∈ sides p := by
  rw [sides_of_table h]
  split
  · rename_i hSame
    simp [hSame]
  · simp

/-- The last join is read once, even if it has several tables of the next one. -/
theorem addPart_of_mem (hHolds : placed.Holds read) {table : Option String} (h : table ∈ read) :
    addPart placed scans parts table =
      .ok (if placed.steps.length - 1 ∈ parts.joined then parts
        else ⟨parts.children ++ placed.steps.getLast?.toList,
          parts.joined ++ [placed.steps.length - 1]⟩) := by
  rw [addPart, hHolds.holders, if_pos h, List.getLast?_eq_getElem?]
  simp only [List.contains_iff_mem]
  split <;> rfl

theorem addPart_of_not_mem (hHolds : placed.Holds read) {table : Option String} (h : table ∉ read)
    (hScan : ∃ estimate, scans.get? table = some estimate) :
    addPart placed scans parts table =
      .ok ⟨parts.children ++ (scanNode scans table).toList, parts.joined⟩ := by
  obtain ⟨⟨cost, card⟩, hEstimate⟩ := hScan
  rw [addPart, hHolds.holders, if_neg h, scanNode, hEstimate]
  rfl

/-- The parts that were found for the sides of a join, in their order. -/
theorem children_of_foldlM {p : Predicate} {known : Option String → Bool}
    (hHolds : placed.Holds read) (hKnown : ∀ table, known table = true ↔ table ∈ read)
    (hScans : ∀ table ∈ sides p, ∃ estimate, scans.get? table = some estimate)
    (h : (sides p).foldlM (addPart placed scans) ⟨[], []⟩ = .ok parts) :
    (if p.isSubplan then parts.children ++ [.subplan] else parts.children) =
      partsOf scans known placed.steps.getLast? p := by
  -- the first side
  have hFirst : ∀ {table}, (∃ estimate, scans.get? table = some estimate) →
      addPart placed scans ⟨[], []⟩ table =
        .ok ⟨sourceOf scans known placed.steps.getLast? table,
          if known table then [placed.steps.length - 1] else []⟩ := by
    intro table hScan
    by_cases hRead : table ∈ read
    · simp [addPart_of_mem hHolds hRead, sourceOf, (hKnown table).mpr hRead]
    · have hFresh : known table = false := Bool.eq_false_iff.mpr (mt (hKnown table).mp hRead)
      simp [addPart_of_not_mem hHolds hRead hScan, sourceOf, hFresh]
  have hLeft := left_mem_sides p
  cases hKind : p.isSubplan with
  | true =>
    rw [sides_of_subplan hKind, List.foldlM_cons, hFirst (hScans _ hLeft)] at h
    cases h
    simp [partsOf, OnePart, hKind]
  | false =>
    rw [sides_of_table hKind] at h
    by_cases hSame : p.left.table = p.right.table
    · rw [if_pos hSame, List.foldlM_cons, hFirst (hScans _ hLeft)] at h
      cases h
      simp [partsOf, OnePart, hKind, hSame]
    · have hRight := right_mem_sides hKind
      rw [if_neg hSame, List.foldlM_cons, hFirst (hScans _ hLeft)] at h
      obtain ⟨_, hEq, h⟩ := bind_eq_ok.mp h
      cases hEq
      obtain ⟨second, hSecond, hLast⟩ := bind_eq_ok.mp h
      obtain rfl := pure_eq_ok.mp hLast
      by_cases hRead : p.right.table ∈ read
      · rw [addPart_of_mem hHolds hRead] at hSecond
        cases hSecond
        have hKnownRight := (hKnown _).mpr hRead
        cases hKnownLeft : known p.left.table <;>
          simp [partsOf, OnePart, sourceOf, hKind, hSame, hKnownLeft, hKnownRight]
      · rw [addPart_of_not_mem hHolds hRead (hScans _ hRight)] at hSecond
        cases hSecond
        have hFresh : known p.right.table = false :=
          Bool.eq_false_iff.mpr (mt (hKnown _).mp hRead)
        simp [partsOf, OnePart, sourceOf, hKind, hSame, hFresh]

-- ---------------------------------------------------------------------------
-- The next join
-- ---------------------------------------------------------------------------

/-- The joins that were placed form a chain above the scans of all tables that they read. -/
structure Covers (scans : ScanEstimates) (done : List (Predicate × Estimate)) (placed : Placement)
    (read : List (Option String)) : Prop where
  holds : placed.Holds read
  nodup : read.Nodup
  mem : ∀ table, table ∈ read ↔ ∃ step ∈ done, table ∈ sides step.1
  length : placed.steps.length = done.length
  /-- Every join has the one before it below itself, and no other; its parts are in order. -/
  step : ∀ i p cost card, done[i]? = some (p, cost, card) → ∃ children,
    placed.steps[i]? = some (.join p cost card children) ∧
    children.filter PlanNode.isJoin = (placed.steps.take i).getLast?.toList ∧
    children = partsOf scans (readBy ((done.take i).map Prod.fst)) (placed.steps.take i).getLast? p
  nodes : (PlanNode.preorders placed.steps.getLast?.toList).Perm
    (placed.steps ++ read.filterMap (scanNode scans) ++ PlanNode.subplans (done.map Prod.fst))

theorem covers_empty : Covers scans [] empty [] where
  holds := ⟨fun table => rfl, by simp [empty], fun h => absurd rfl h⟩
  nodup := List.nodup_nil
  mem := by simp
  length := rfl
  step := by simp
  nodes := .refl _

variable {before : List (Predicate × Estimate)} {p : Predicate} {cost : Cost} {card : Cardinality}

/-- The last join of a left-deep order reads the one before, if there is one. -/
theorem Covers.reads_iff (h : Covers scans before placed read)
    (hTouches : before ≠ [] → p.Touches (before.map Prod.fst)) :
    (∃ table ∈ sides p, table ∈ read) ↔ before ≠ [] := by
  constructor
  · rintro ⟨table, -, hRead⟩
    obtain ⟨step, hStep, -⟩ := (h.mem table).mp hRead
    exact List.ne_nil_of_mem hStep
  · intro hBefore
    obtain ⟨q, hq, table, hTable, hShared⟩ := hTouches hBefore
    obtain ⟨step, hStep, rfl⟩ := List.mem_map.mp hq
    exact ⟨some table, mem_sides_of_mem_tables hTable,
      (h.mem _).mpr ⟨step, hStep, mem_sides_of_mem_tables hShared⟩⟩

/-- The tables that were read once a join is placed. -/
def readWith (read : List (Option String)) (p : Predicate) : List (Option String) :=
  read ++ (sides p).filter fun table => !read.contains table

theorem mem_readWith {table : Option String} :
    table ∈ readWith read p ↔ table ∈ read ∨ table ∈ sides p := by
  by_cases hRead : table ∈ read <;> simp [readWith, hRead]

theorem nodup_readWith (h : read.Nodup) (p : Predicate) : (readWith read p).Nodup := by
  refine List.nodup_append.mpr ⟨h, (nodup_sides p).filter _, ?_⟩
  rintro table hTable _ hFresh rfl
  rw [List.mem_filter, List.contains_iff_mem.mpr hTable] at hFresh
  cases hFresh.2

/-- The last join that was placed is the only join that is read. -/
theorem Covers.joins_eq (h : Covers scans before placed read)
    (hTouches : before ≠ [] → p.Touches (before.map Prod.fst))
    (hParts : Reads scans placed read (sides p) parts) :
    parts.children.filter PlanNode.isJoin = placed.steps.getLast?.toList := by
  rw [hParts.joins]
  split
  · rfl
  · rename_i hNone
    have hBefore : before = [] := not_not.mp (mt (h.reads_iff hTouches).mpr hNone)
    have hSteps : placed.steps = [] :=
      List.length_eq_zero_iff.mp (h.length.trans (List.length_eq_zero_iff.mpr hBefore))
    rw [hSteps]
    rfl

/-- All tables that were read are held by the join that was placed last. -/
theorem Covers.holds_next (h : Covers scans before placed read)
    (hTouches : before ≠ [] → p.Touches (before.map Prod.fst))
    (hParts : Reads scans placed read (sides p) parts) {node : PlanNode}
    (hNode : node.isJoin = true) {held : Association (Option String) Nat}
    (hHeld : held = (sides p).foldl (fun acc table => acc.put table placed.steps.length)
      placed.holders) :
    Holds ⟨placed.steps ++ [node],
      if parts.joined.isEmpty then held else held.map fun e => (e.1, placed.steps.length)⟩
      (readWith read p) := by
  refine ⟨fun table => ?_, ?_, fun _ => by simp⟩
  · have hGet : held.get? table = if table ∈ sides p then some placed.steps.length
        else if table ∈ read then some (placed.steps.length - 1) else none := by
      rw [hHeld, Association.get?_foldl_put, h.holds.holders]
    have hNumber : (placed.steps ++ [node]).length - 1 = placed.steps.length := by simp
    rw [hNumber, hParts.joined]
    by_cases hSome : ∃ other ∈ sides p, other ∈ read
    · simp only [hSome, if_true, List.isEmpty_cons, Bool.false_eq_true, if_false,
        Association.get?_map_const, hGet, mem_readWith]
      by_cases hSide : table ∈ sides p <;> by_cases hRead : table ∈ read <;> simp [hSide, hRead]
    · -- nothing was read before, otherwise the join would read it
      have hBefore : before = [] := not_not.mp (mt (h.reads_iff hTouches).mpr hSome)
      have hUnread : table ∉ read := fun hRead => by
        obtain ⟨step, hStep, -⟩ := (h.mem table).mp hRead
        exact List.ne_nil_of_mem hStep hBefore
      simp only [hSome, if_false, List.isEmpty_nil, if_true, hGet, mem_readWith, hUnread, false_or]
  · intro other hOther
    rcases List.mem_append.mp hOther with hOld | hNew
    · exact h.holds.steps other hOld
    · rw [List.mem_singleton.mp hNew]
      exact hNode

theorem perm_insert {α : Type} (x : α) (as bs cs ds es : List α) :
    (x :: (as ++ bs ++ cs ++ (ds ++ es))).Perm (as ++ [x] ++ (bs ++ ds) ++ (cs ++ es)) := by
  have hSwap : (cs ++ (ds ++ es)).Perm (ds ++ (cs ++ es)) := by
    rw [← List.append_assoc, ← List.append_assoc]
    exact List.perm_append_comm.append_right es
  calc
    x :: (as ++ bs ++ cs ++ (ds ++ es)) = x :: (as ++ (bs ++ (cs ++ (ds ++ es)))) := by simp
    List.Perm _ (as ++ x :: (bs ++ (cs ++ (ds ++ es)))) := List.perm_middle.symm
    List.Perm _ (as ++ x :: (bs ++ (ds ++ (cs ++ es)))) :=
      ((hSwap.append_left bs).cons x).append_left as
    _ = as ++ [x] ++ (bs ++ ds) ++ (cs ++ es) := by simp

/-- A join that touches the ones before is placed above them. -/
theorem Covers.ensures_place (h : Covers scans before placed read)
    (hTouches : before ≠ [] → p.Touches (before.map Prod.fst))
    (hScans : ∀ table ∈ sides p, ∃ estimate, scans.get? table = some estimate) :
    (place scans placed (p, cost, card)).Ensures Never fun next =>
      Covers scans (before ++ [(p, cost, card)]) next (readWith read p) := by
  simp only [place]
  refine ensures_bind (ensures_gathers h.holds.steps hScans) fun parts hFound hGathers => .ok ?_
  have hParts := hGathers.reads h.holds
  have hRead : ∀ table, readBy (before.map Prod.fst) table = true ↔ table ∈ read := by
    intro table
    rw [readBy_iff, h.mem]
    simp only [List.mem_map, exists_exists_and_eq_and]
  have hChildrenOf := children_of_foldlM h.holds hRead hScans hFound
  generalize hChildren :
    (if p.isSubplan then parts.children ++ [.subplan] else parts.children) = children
  rw [hChildren] at hChildrenOf
  have hJoins : children.filter PlanNode.isJoin = placed.steps.getLast?.toList := by
    rw [← h.joins_eq hTouches hParts, ← hChildren]
    split <;> simp
  have hLeaves : (children.filter fun node => !node.isJoin) =
      ((sides p).filter fun table => !read.contains table).filterMap (scanNode scans) ++
        if p.isSubplan then [.subplan] else [] := by
    rw [← hParts.leaves, ← hChildren]
    split <;> simp
  refine {
    holds := h.holds_next hTouches hParts rfl rfl
    nodup := nodup_readWith h.nodup p
    mem := fun table => by simp [mem_readWith, h.mem, or_and_right, exists_or]
    length := by simp [h.length]
    step := fun i q cost' card' hStep => ?_
    nodes := ?_ }
  · rcases Nat.lt_trichotomy i before.length with hLt | rfl | hGt
    · rw [List.getElem?_append_left hLt] at hStep
      obtain ⟨below, hNode, hBelow, hParts⟩ := h.step i q cost' card' hStep
      have hLt' : i < placed.steps.length := h.length ▸ hLt
      refine ⟨below, ?_, ?_, ?_⟩
      · rw [List.getElem?_append_left hLt', hNode]
      · rw [List.take_append_of_le_length (Nat.le_of_lt hLt'), hBelow]
      · rw [List.take_append_of_le_length (Nat.le_of_lt hLt'),
          List.take_append_of_le_length (Nat.le_of_lt hLt), hParts]
    · rw [List.getElem?_concat_length] at hStep
      cases hStep
      refine ⟨children, ?_, ?_, ?_⟩
      · rw [← h.length, List.getElem?_concat_length]
      · rw [← h.length, List.take_left, hJoins]
      · rw [List.take_left, ← h.length, List.take_left, hChildrenOf]
    · rw [List.getElem?_eq_none (by simp; omega)] at hStep
      cases hStep
  · rw [List.getLast?_concat, Option.toList_some, PlanNode.preorders, PlanNode.preorders,
      List.append_nil, PlanNode.preorder, readWith, List.filterMap_append, List.map_append,
      List.map_cons, List.map_nil, PlanNode.subplans_concat]
    refine List.Perm.trans ?_ (perm_insert _ _ _ _ _ _)
    refine ((PlanNode.preorders_perm children).trans ?_).cons _
    rw [hJoins, hLeaves]
    exact h.nodes.append_right _

end Placement

-- ---------------------------------------------------------------------------
-- Whole trees
-- ---------------------------------------------------------------------------

namespace Explanation

open Placement

variable {scans : ScanEstimates} {order : List Predicate} {estimates : List Estimate}

/-- A left-deep order has a tree, if all of its tables have been scanned. -/
theorem ensures_covers (hLength : order.length = estimates.length) (hDeep : LeftDeep order)
    (hScans : ∀ p ∈ order, ∀ table ∈ sides p, ∃ estimate, scans.get? table = some estimate) :
    (ofOrder order estimates scans).Ensures Never fun e => ∃ placed read,
      e = ⟨order, placed.steps⟩ ∧ Covers scans (order.zip estimates) placed read := by
  rw [ofOrder, if_neg (not_not.mpr hLength)]
  refine ensures_bind (P := fun placed => ∃ read, Covers scans (order.zip estimates) placed read)
    ?_ fun placed _ ⟨read, hCovers⟩ => .ok ⟨placed, read, rfl, hCovers⟩
  refine ensures_foldlM (M := fun done placed => ∃ read, Covers scans done placed read)
    ⟨[], covers_empty⟩ fun done step rest placed hSplit ⟨read, hCovers⟩ => ?_
  obtain ⟨p, cost, card⟩ := step
  have hOrder : order = done.map Prod.fst ++ p :: rest.map Prod.fst := by
    rw [← List.map_fst_zip (Nat.le_of_eq hLength), hSplit, List.map_append, List.map_cons]
  have hp : p ∈ order := by simp [hOrder]
  exact (hCovers.ensures_place (fun hDone => hDeep _ p _ hOrder (by simpa using hDone))
    (hScans p hp)).mono fun next _ hNext => ⟨readWith read p, hNext⟩

end Explanation

end JoinPlanner
