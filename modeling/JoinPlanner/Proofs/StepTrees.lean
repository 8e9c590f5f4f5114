import JoinPlanner.Proofs.Holders
import JoinPlanner.Proofs.Planner.LeftDeepPlans

/-!
# JoinPlanner — the trees of orders that need not be left-deep

The subtree of a step is complete if it has the nodes of all steps that the step joins, a scan
of each of their tables, and their subplans, each of them once. The steps of an order are
complete up to the first one that comes back: a step that joins one which an extension of
another group has left behind reads the extension in its place, and so its subtree lacks the
tables of the step that was left behind.

* `Comprises`     — the nodes of some steps with their scans and subplans.
* `CompleteAt`    — the subtree of a step is complete.
* `Comprises.append`, `Comprises.cons` — groups side by side, and a step above them.
* `Tracks.completeAt` — a step that does not come back is complete, if the earlier ones are.
* `Tracks.not_completeAt` — the first step that comes back is not.
* `Grows`         — what holds of the first steps of any order.
* `not_comesBack_of_leftDeep`, `complete_of_leftDeep` — in a left-deep order nothing comes back.
* `complete_iff_stays` — every order has a tree, complete as far as nothing comes back.
-/

namespace JoinPlanner

open Outcome PlannerError Placement

-- ---------------------------------------------------------------------------
-- The nodes of some steps
-- ---------------------------------------------------------------------------

/--
The nodes are those of some steps, the scans of all tables that these read, and their
subplans; each of them once.
-/
structure Comprises (scans : ScanEstimates) (order : List Predicate) (steps : List PlanNode)
    (members : Nat → Prop) (nodes : List PlanNode) (numbers : List Nat)
    (read : List (Option String)) : Prop where
  nodup : numbers.Nodup
  mem : ∀ j, j ∈ numbers ↔ members j
  nodup_read : read.Nodup
  mem_read : ∀ table, table ∈ read ↔ ∃ j, members j ∧ ReadAt order j table
  nodes : nodes.Perm (numbers.filterMap (steps[·]?) ++ read.filterMap (scanNode scans) ++
    PlanNode.subplans (numbers.filterMap (order[·]?)))

/-- The subtree of a step has what the step joins, and nothing else. -/
def CompleteAt (scans : ScanEstimates) (order : List Predicate) (steps : List PlanNode) (i : Nat) :
    Prop :=
  ∃ node numbers read, steps[i]? = some node ∧
    Comprises scans order steps (Joined order i) node.preorder numbers read

variable {scans : ScanEstimates} {order : List Predicate} {steps : List PlanNode} {n : Nat}
  {members members' : Nat → Prop} {nodes nodes' : List PlanNode} {numbers numbers' : List Nat}
  {read read' : List (Option String)}

theorem perm_groups {α : Type} (as bs cs ds es fs : List α) :
    (as ++ bs ++ cs ++ (ds ++ es ++ fs)).Perm (as ++ ds ++ (bs ++ es) ++ (cs ++ fs)) := by
  classical
  refine List.perm_iff_count.mpr fun a => ?_
  simp only [List.count_append]
  omega

namespace Comprises

theorem nil : Comprises scans order steps (fun _ => False) [] [] [] :=
  ⟨List.nodup_nil, by simp, List.nodup_nil, by simp, .refl _⟩

theorem of_perm (h : Comprises scans order steps members nodes numbers read)
    (hPerm : nodes'.Perm nodes) : Comprises scans order steps members nodes' numbers read :=
  ⟨h.nodup, h.mem, h.nodup_read, h.mem_read, hPerm.trans h.nodes⟩

/-- The nodes of two groups that are not linked are those of both. -/
theorem append (h : Comprises scans order steps members nodes numbers read)
    (h' : Comprises scans order steps members' nodes' numbers' read')
    (hLt : ∀ j, members j → j < n) (hLt' : ∀ j, members' j → j < n)
    (hApart : ∀ j j', members j → members' j' → ¬ LinkedIn order n j j') :
    Comprises scans order steps (fun j => members j ∨ members' j) (nodes ++ nodes')
      (numbers ++ numbers') (read ++ read') where
  nodup := by
    refine List.nodup_append.mpr ⟨h.nodup, h'.nodup, ?_⟩
    rintro j hj _ hj' rfl
    exact hApart j j ((h.mem j).mp hj) ((h'.mem j).mp hj') .refl
  mem := fun j => by rw [List.mem_append, h.mem, h'.mem]
  nodup_read := by
    refine List.nodup_append.mpr ⟨h.nodup_read, h'.nodup_read, ?_⟩
    rintro table hTable _ hTable' rfl
    obtain ⟨j, hj, hRead⟩ := (h.mem_read table).mp hTable
    obtain ⟨j', hj', hRead'⟩ := (h'.mem_read table).mp hTable'
    exact hApart j j' hj hj' (linkedIn_of_readAt (hLt j hj) (hLt' j' hj') hRead hRead')
  mem_read := fun table => by
    simp only [List.mem_append, h.mem_read, h'.mem_read, or_and_right, exists_or]
  nodes := by
    rw [List.filterMap_append, List.filterMap_append, List.filterMap_append,
      PlanNode.subplans_append]
    exact (h.nodes.append h'.nodes).trans (perm_groups _ _ _ _ _ _)

/-- A new step above some nodes adds the scans of the tables that these do not read. -/
theorem cons (h : Comprises scans order steps members nodes numbers read)
    (hLt : ∀ j, members j → j < steps.length) {p : Predicate} (hp : order[steps.length]? = some p)
    (root : PlanNode) {fresh : List (Option String)} (hNodup : fresh.Nodup)
    (hFresh : ∀ table, table ∈ fresh ↔ table ∈ sides p ∧ table ∉ read) :
    Comprises scans order (steps ++ [root]) (fun j => j = steps.length ∨ members j)
      (root :: (nodes ++ (fresh.filterMap (scanNode scans) ++
        if p.isSubplan then [.subplan] else [])))
      (numbers ++ [steps.length]) (read ++ fresh) where
  nodup := by
    refine List.nodup_append.mpr ⟨h.nodup, List.nodup_singleton _, ?_⟩
    rintro j hj _ hLast rfl
    have := hLt j ((h.mem j).mp hj)
    rw [List.mem_singleton.mp hLast] at this
    omega
  mem := fun j => by rw [List.mem_append, List.mem_singleton, h.mem, or_comm]
  nodup_read := by
    refine List.nodup_append.mpr ⟨h.nodup_read, hNodup, ?_⟩
    rintro table hTable _ hTable' rfl
    exact ((hFresh table).mp hTable').2 hTable
  mem_read := fun table => by
    have hOther : table ∈ read ↔ ∃ j, members j ∧ ReadAt order j table := h.mem_read table
    simp only [List.mem_append, hFresh, or_and_right, exists_or, exists_eq_left, readAt_iff hp,
      ← hOther]
    by_cases hRead : table ∈ read <;> simp [hRead]
  nodes := by
    have hOld : numbers.filterMap ((steps ++ [root])[·]?) = numbers.filterMap (steps[·]?) := by
      refine List.filterMap_congr fun j hj => ?_
      rw [List.getElem?_append_left (hLt j ((h.mem j).mp hj))]
    have hRoot : [steps.length].filterMap ((steps ++ [root])[·]?) = [root] := by simp
    have hLast : [steps.length].filterMap (order[·]?) = [p] := by simp [hp]
    rw [List.filterMap_append, List.filterMap_append, List.filterMap_append, hOld, hRoot, hLast,
      PlanNode.subplans_concat]
    exact ((h.nodes.append_right _).cons root).trans (perm_insert _ _ _ _ _ _)

end Comprises

-- ---------------------------------------------------------------------------
-- Complete subtrees
-- ---------------------------------------------------------------------------

/-- Whether a step is complete does not depend on later steps. -/
theorem completeAt_append {i : Nat} (hi : i < steps.length) (later : List PlanNode) :
    CompleteAt scans order (steps ++ later) i ↔ CompleteAt scans order steps i := by
  unfold CompleteAt
  rw [List.getElem?_append_left hi]
  refine exists_congr fun node => exists_congr fun numbers => exists_congr fun read =>
    and_congr_right fun _ => ?_
  have hSame : (∀ j, j ∈ numbers ↔ Joined order i j) →
      numbers.filterMap ((steps ++ later)[·]?) = numbers.filterMap (steps[·]?) := by
    intro hMem
    refine List.filterMap_congr fun j hj => ?_
    have := ((hMem j).mp hj).le
    rw [List.getElem?_append_left (by omega)]
  constructor
  · intro h
    exact ⟨h.nodup, h.mem, h.nodup_read, h.mem_read, hSame h.mem ▸ h.nodes⟩
  · intro h
    exact ⟨h.nodup, h.mem, h.nodup_read, h.mem_read, (hSame h.mem).symm ▸ h.nodes⟩

theorem scanNode_eq_some_iff {table other : Option String} {cost : Cost} {card : Cardinality} :
    scanNode scans table = some (.scan other cost card) ↔
      table = other ∧ scans.get? table = some (cost, card) := by
  simp only [scanNode, Option.map_eq_some_iff, PlanNode.scan.injEq, Prod.exists]
  constructor
  · rintro ⟨_, _, hGet, rfl, rfl, rfl⟩
    exact ⟨rfl, hGet⟩
  · rintro ⟨rfl, hGet⟩
    exact ⟨cost, card, hGet, rfl, rfl, rfl⟩

/-- The scans below a complete step are those of the tables that it joins. -/
theorem Comprises.scan_mem_iff (h : Comprises scans order steps members nodes numbers read)
    (hSteps : ∀ node ∈ steps, node.isJoin = true) {table : Option String} {cost : Cost}
    {card : Cardinality} (hScan : scans.get? table = some (cost, card)) :
    .scan table cost card ∈ nodes ↔ ∃ j, members j ∧ ReadAt order j table := by
  have hNotStep : PlanNode.scan table cost card ∉ numbers.filterMap (steps[·]?) := by
    intro hMem
    obtain ⟨j, -, hStep⟩ := List.mem_filterMap.mp hMem
    cases hSteps _ (List.mem_of_getElem? hStep)
  have hNotSubplan : ∀ joins, PlanNode.scan table cost card ∉ PlanNode.subplans joins := by
    intro joins hMem
    cases List.eq_of_mem_replicate hMem
  have hRead : PlanNode.scan table cost card ∈ read.filterMap (scanNode scans) ↔ table ∈ read := by
    simp only [List.mem_filterMap, scanNode_eq_some_iff]
    constructor
    · rintro ⟨_, hMem, rfl, -⟩
      exact hMem
    · intro hMem
      exact ⟨table, hMem, rfl, hScan⟩
  rw [h.nodes.mem_iff, List.mem_append, List.mem_append, hRead, ← h.mem_read]
  simp only [hNotStep, hNotSubplan, false_or, or_false]

theorem PlanNode.mem_preorders {nodes : List PlanNode} {node : PlanNode} :
    node ∈ preorders nodes ↔ ∃ root ∈ nodes, node ∈ root.preorder := by
  induction nodes with
  | nil => simp [preorders]
  | cons first rest ih => simp [preorders, ih]

/-- Complete steps that are not linked have what each of them joins. -/
theorem exists_comprises {tops : List Nat} (hLt : ∀ top ∈ tops, top < n)
    (hComplete : ∀ top ∈ tops, CompleteAt scans order steps top)
    (hApart : tops.Pairwise fun top other => ¬ LinkedIn order n top other) :
    ∃ numbers read, Comprises scans order steps (fun j => ∃ top ∈ tops, Joined order top j)
      (PlanNode.preorders (tops.filterMap (steps[·]?))) numbers read := by
  induction tops with
  | nil =>
    refine ⟨[], [], ?_⟩
    simpa [PlanNode.preorders] using Comprises.nil
  | cons top rest ih =>
    obtain ⟨hTop, hRest⟩ := List.forall_mem_cons.mp hLt
    obtain ⟨hFirst, hOthers⟩ := List.pairwise_cons.mp hApart
    obtain ⟨⟨node, numbers, read, hNode, hGroup⟩, hCompleteRest⟩ :=
      List.forall_mem_cons.mp hComplete
    obtain ⟨numbers', read', hGroups⟩ := ih hRest hCompleteRest hOthers
    have hLinked : ∀ {i j}, i < n → Joined order i j → LinkedIn order n i j :=
      fun hi hJoined => hJoined.mono (by omega)
    refine ⟨numbers ++ numbers', read ++ read', ?_⟩
    rw [List.filterMap_cons_some hNode, PlanNode.preorders]
    simp only [List.exists_mem_cons_iff]
    refine hGroup.append (n := n) hGroups (fun j hj => ?_) (fun j hj => ?_) ?_
    · have := hj.le
      omega
    · obtain ⟨other, hOther, hj⟩ := hj
      have := hRest other hOther
      have := hj.le
      omega
    · rintro j j' hj ⟨other, hOther, hj'⟩ hLink
      refine hFirst other hOther (((hLinked hTop hj).trans hLink).trans ?_)
      exact (hLinked (hRest other hOther) hj').symm

-- ---------------------------------------------------------------------------
-- The next step
-- ---------------------------------------------------------------------------

section Step

variable {placed : Placement} {parts : Parts} {p : Predicate} {cost : Cost} {card : Cardinality}

/-- The tables of a join that no step holds. -/
def freshSides (placed : Placement) (p : Predicate) : List (Option String) :=
  (sides p).filter fun table => (placed.holders.get? table).isNone

/-- Below a join are the steps that it reads, the scans of its other sides, and its subplan. -/
theorem Placement.Gathers.exists_node (hParts : Gathers scans placed (sides p) parts) (cost : Cost)
    (card : Cardinality) :
    ∃ children,
      (placed.add p cost card parts).steps = placed.steps ++ [.join p cost card children] ∧
      (PlanNode.preorders children).Perm
        (PlanNode.preorders (parts.joined.filterMap (placed.steps[·]?)) ++
          ((freshSides placed p).filterMap (scanNode scans) ++
            if p.isSubplan then [.subplan] else [])) := by
  refine ⟨_, rfl, (PlanNode.preorders_perm _).trans ?_⟩
  rw [freshSides, ← hParts.joins, ← hParts.leaves]
  split <;> simp

/-- The scan of a table that was read before is below one of the steps that a step reads. -/
theorem Placement.Tracks.exists_joined_of_scan (h : Tracks order n placed)
    (hParts : Gathers scans placed (sides p) parts)
    (hComplete : ∀ i < n, CompleteAt scans order placed.steps i) {table : Option String} {k : Nat}
    (hk : k < n) (hRead : ReadAt order k table) {scanCost : Cost} {scanCard : Cardinality}
    (hScan : scans.get? table = some (scanCost, scanCard)) {node : PlanNode}
    (hNode : (placed.add p cost card parts).steps[n]? = some node)
    (hMem : .scan table scanCost scanCard ∈ node.preorder) :
    ∃ side top j, placed.holders.get? side = some top ∧ top < n ∧ Joined order top j ∧
      ReadAt order j table := by
  obtain ⟨children, hSteps, hPerm⟩ := hParts.exists_node cost card
  rw [hSteps, ← h.length, List.getElem?_concat_length] at hNode
  obtain rfl := Option.some.inj hNode
  rw [PlanNode.preorder, List.mem_cons, hPerm.mem_iff, List.mem_append, List.mem_append] at hMem
  rcases hMem with hSelf | hBelow | hFresh | hSubplan
  · cases hSelf
  · obtain ⟨root, hRoot, hMem⟩ := PlanNode.mem_preorders.mp hBelow
    obtain ⟨top, hTop, hRoot⟩ := List.mem_filterMap.mp hRoot
    obtain ⟨side, -, hHolder⟩ := (hParts.joined top).mp hTop
    have hTopLt : top < n := h.length ▸ (List.getElem?_eq_some_iff.mp hRoot).1
    obtain ⟨other, numbers, read, hOther, hGroup⟩ := hComplete top hTopLt
    obtain rfl : root = other := Option.some.inj (hRoot.symm.trans hOther)
    obtain ⟨j, hj, hReadJ⟩ := (hGroup.scan_mem_iff h.steps hScan).mp hMem
    exact ⟨side, top, j, hHolder, hTopLt, hj, hReadJ⟩
  · -- the scans right below the step are of tables that no step holds
    obtain ⟨other, hOther, hSame⟩ := List.mem_filterMap.mp hFresh
    obtain ⟨rfl, -⟩ := scanNode_eq_some_iff.mp hSame
    obtain ⟨number, hHolder⟩ := h.exists_holder hk hRead
    have hNone := (List.mem_filter.mp hOther).2
    rw [hHolder] at hNone
    cases hNone
  · split at hSubplan <;> simp at hSubplan

variable (h : Tracks order n placed) (hp : order[n]? = some p)
  (hParts : Gathers scans placed (sides p) parts)

include h hp hParts

/-- A step that does not come back reads the latest steps of the groups that it reaches. -/
theorem Placement.Tracks.exists_latest (hStays : ¬ ComesBack order n) {top : Nat}
    (hTop : top ∈ parts.joined) : ∃ k < n, (∃ table, ReadAt order n table ∧ ReadAt order k table) ∧
      Latest order n k top := by
  obtain ⟨table, hSide, hHolder⟩ := (hParts.joined top).mp hTop
  obtain ⟨k, hk, hRead⟩ := h.exists_readAt hHolder
  exact ⟨k, hk, ⟨table, (readAt_iff hp).mpr hSide, hRead⟩,
    h.latest hp hStays hSide hHolder hk hRead⟩

/-- What it reaches is what the steps join that it reads. -/
theorem Placement.Tracks.reaches_iff (hStays : ¬ ComesBack order n) {j : Nat} :
    Reaches order n j ↔ ∃ top ∈ parts.joined, Joined order top j := by
  constructor
  · rintro ⟨k, hk, ⟨table, hSide, hRead⟩, hLink⟩
    obtain ⟨top, hHolder⟩ := h.exists_holder hk hRead
    have hSide' := (readAt_iff hp).mp hSide
    have hLatest := h.latest hp hStays hSide' hHolder hk hRead
    exact ⟨top, (hParts.joined top).mpr ⟨table, hSide', hHolder⟩,
      (hLatest.joined_iff hk).mpr hLink.symm⟩
  · rintro ⟨top, hTop, hj⟩
    obtain ⟨k, hk, hShare, hLatest⟩ := h.exists_latest hp hParts hStays hTop
    exact ⟨k, hk, hShare, ((hLatest.joined_iff hk).mp hj).symm⟩

/-- The steps that it reads are of different groups, and together they are complete. -/
theorem Placement.Tracks.exists_comprises_parts (hStays : ¬ ComesBack order n)
    (hComplete : ∀ i < n, CompleteAt scans order placed.steps i) :
    ∃ numbers read, Comprises scans order placed.steps (Reaches order n)
      (PlanNode.preorders (parts.joined.filterMap (placed.steps[·]?))) numbers read := by
  have hLt : ∀ top ∈ parts.joined, top < n := by
    intro top hTop
    obtain ⟨k, hk, -, hLatest⟩ := h.exists_latest hp hParts hStays hTop
    exact hLatest.linked.lt hk
  have hApart : parts.joined.Pairwise fun top other => ¬ LinkedIn order n top other := by
    refine hParts.nodup.imp_of_mem fun {top other} hTop hOther hNe hLink => hNe ?_
    obtain ⟨k, -, -, hLatest⟩ := h.exists_latest hp hParts hStays hTop
    obtain ⟨k', -, -, hLatest'⟩ := h.exists_latest hp hParts hStays hOther
    have hLe := hLatest'.le top (hLink.trans hLatest'.linked)
    have hGe := hLatest.le other (hLink.symm.trans hLatest.linked)
    omega
  have hMembers : Reaches order n = fun j => ∃ top ∈ parts.joined, Joined order top j :=
    funext fun j => propext (h.reaches_iff hp hParts hStays)
  rw [hMembers]
  exact exists_comprises hLt (fun top hTop => hComplete top (hLt top hTop)) hApart

/-- A step that does not come back is complete, if all earlier ones are. -/
theorem Placement.Tracks.completeAt (hStays : ¬ ComesBack order n)
    (hComplete : ∀ i < n, CompleteAt scans order placed.steps i) :
    CompleteAt scans order (placed.add p cost card parts).steps n := by
  obtain ⟨numbers, read, hBelow⟩ := h.exists_comprises_parts hp hParts hStays hComplete
  have hFresh : ∀ table, table ∈ freshSides placed p ↔ table ∈ sides p ∧ table ∉ read := by
    intro table
    rw [freshSides, List.mem_filter, hBelow.mem_read, Option.isNone_iff_eq_none, h.unread]
    refine and_congr_right fun hSide => ?_
    constructor
    · rintro hUnread ⟨j, hj, hRead⟩
      exact hUnread j hj.lt hRead
    · intro hUnread k hk hRead
      exact hUnread ⟨k, ⟨k, hk, ⟨table, (readAt_iff hp).mpr hSide, hRead⟩, .refl⟩, hRead⟩
  obtain ⟨children, hSteps, hPerm⟩ := hParts.exists_node cost card
  obtain rfl := h.length
  have hWhole := hBelow.cons (fun j hj => hj.lt) hp (.join p cost card children)
    ((nodup_sides p).filter _) hFresh
  have hMembers : (fun j => j = placed.steps.length ∨ Reaches order placed.steps.length j) =
      Joined order placed.steps.length := funext fun j => propext joined_iff.symm
  rw [hMembers] at hWhole
  rw [hSteps]
  refine ⟨.join p cost card children, numbers ++ [placed.steps.length], read ++ freshSides placed p,
    List.getElem?_concat_length, ?_⟩
  rw [PlanNode.preorder]
  exact hWhole.of_perm (hPerm.cons _)

/-- The first step that comes back reads the extension, or later steps, in the place of the one
that was left behind, and so it lacks the tables of this one. -/
theorem Placement.Tracks.not_completeAt (hBack : ComesBack order n)
    (hBefore : ∀ i < n, ¬ ComesBack order i)
    (hComplete : ∀ i < n, CompleteAt scans order placed.steps i)
    (hScans : ∀ q ∈ order, ∀ table ∈ sides q, ∃ estimate, scans.get? table = some estimate) :
    ¬ CompleteAt scans order (placed.add p cost card parts).steps n := by
  rintro ⟨node, numbers, read, hNode, hGroup⟩
  obtain ⟨m, k, hm, ⟨hk, hExtends, hLeft⟩, hJoined⟩ := hBack
  obtain ⟨q, hq⟩ : ∃ q, order[k]? = some q := by
    have hLength : n < order.length := (List.getElem?_eq_some_iff.mp hp).1
    exact ⟨order[k], List.getElem?_eq_getElem (by omega)⟩
  have hRead : ReadAt order k q.left.table := (readAt_iff hq).mpr (left_mem_sides q)
  obtain ⟨⟨scanCost, scanCard⟩, hScan⟩ :=
    hScans q (List.mem_of_getElem? hq) q.left.table (left_mem_sides q)
  have hNext : Tracks order (n + 1) (placed.add p cost card parts) := h.add hp hParts
  have hMem := (hGroup.scan_mem_iff hNext.steps hScan).mpr ⟨k, hJoined, hRead⟩
  obtain ⟨side, top, j, hHolder, hTop, hj, hReadJ⟩ :=
    h.exists_joined_of_scan hParts hComplete (by omega) hRead hScan hNode hMem
  -- what holds a table stands at the extension or after it
  have hLater : m ≤ top := h.newest m hm hExtends side top hHolder
  have hBackTop : Joined order top k := hj.of_readAt hReadJ hRead (by omega)
  rcases Nat.eq_or_lt_of_le hLater with rfl | hAfter
  · exact hLeft hBackTop
  · exact hBefore top hTop ⟨m, k, hAfter, ⟨hk, hExtends, hLeft⟩, hBackTop⟩

end Step

-- ---------------------------------------------------------------------------
-- Whole orders
-- ---------------------------------------------------------------------------

variable {estimates : List Estimate} {placed : Placement}

/-- What holds of the first steps of any order. -/
structure Grows (scans : ScanEstimates) (order : List Predicate) (estimates : List Estimate)
    (n : Nat) (placed : Placement) : Prop where
  tracks : Tracks order n placed
  /-- A step executes its join and has its estimates. -/
  node : ∀ i < n, ∀ p cost card, order[i]? = some p → estimates[i]? = some (cost, card) →
    ∃ children, placed.steps[i]? = some (.join p cost card children)
  complete : ∀ i < n, (∀ j < i, ¬ ComesBack order j) →
    (CompleteAt scans order placed.steps i ↔ ¬ ComesBack order i)

theorem grows_empty : Grows scans order estimates 0 Placement.empty :=
  ⟨tracks_empty, by simp, by simp⟩

/-- As far as nothing comes back, all steps are complete. -/
theorem Grows.completeAt (h : Grows scans order estimates n placed)
    (hStays : ∀ i < n, ¬ ComesBack order i) : ∀ i < n, CompleteAt scans order placed.steps i :=
  fun i hi => (h.complete i hi fun j hj => hStays j (by omega)).mpr (hStays i hi)

/-- One more step keeps this. -/
theorem Grows.ensures_place (h : Grows scans order estimates n placed) {p : Predicate}
    {cost : Cost} {card : Cardinality} (hp : order[n]? = some p)
    (hEstimate : estimates[n]? = some (cost, card))
    (hScans : ∀ q ∈ order, ∀ table ∈ sides q, ∃ estimate, scans.get? table = some estimate) :
    (place scans placed (p, cost, card)).Ensures Never (Grows scans order estimates (n + 1)) := by
  rw [place_eq]
  refine ensures_bind (ensures_gathers h.tracks.steps (hScans p (List.mem_of_getElem? hp)))
    fun parts _ hParts => .ok ?_
  obtain ⟨children, hSteps, -⟩ := hParts.exists_node cost card
  have hNext : Tracks order (n + 1) (placed.add p cost card parts) := h.tracks.add hp hParts
  have hLength := h.tracks.length
  refine ⟨hNext, fun i hi q cost' card' hq hEstimate' => ?_, fun i hi hStays => ?_⟩
  · rw [hSteps]
    rcases Nat.lt_succ_iff_lt_or_eq.mp hi with hOld | rfl
    · rw [List.getElem?_append_left (by omega)]
      exact h.node i hOld q cost' card' hq hEstimate'
    · obtain rfl := Option.some.inj (hp.symm.trans hq)
      cases hEstimate.symm.trans hEstimate'
      exact ⟨children, by rw [← hLength, List.getElem?_concat_length]⟩
  · rcases Nat.lt_succ_iff_lt_or_eq.mp hi with hOld | rfl
    · rw [hSteps, completeAt_append (by omega)]
      exact h.complete i hOld hStays
    · have hComplete := h.completeAt hStays
      constructor
      · intro hWhole hBack
        exact h.tracks.not_completeAt hp hParts hBack hStays hComplete hScans hWhole
      · intro hStay
        exact h.tracks.completeAt hp hParts hStay hComplete

-- ---------------------------------------------------------------------------
-- Left-deep orders
-- ---------------------------------------------------------------------------

/-- The steps of a left-deep order are one group. -/
theorem joined_of_leftDeep (hDeep : LeftDeep order) {m k : Nat} (hm : m < order.length)
    (hk : k ≤ m) : Joined order m k := by
  induction m generalizing k with
  | zero =>
    obtain rfl : k = 0 := by omega
    exact .refl
  | succ m ih =>
    obtain ⟨q, hq, table, hTable, hShared⟩ :=
      leftDeep_iff_getElem.mp hDeep (m + 1) hm (Nat.succ_pos m)
    obtain ⟨j, hj, rfl⟩ := List.mem_take_iff_getElem.mp hq
    have hRead : ReadAt order (m + 1) (some table) :=
      ⟨_, List.getElem?_eq_getElem hm, mem_sides_of_mem_tables hTable⟩
    have hRead' : ReadAt order j (some table) :=
      ⟨_, List.getElem?_eq_getElem (by omega), mem_sides_of_mem_tables hShared⟩
    have hTouches : LinkedIn order (m + 1 + 1) (m + 1) j :=
      linkedIn_of_readAt (by omega) (by omega) hRead hRead'
    rcases Nat.lt_succ_iff_lt_or_eq.mp (Nat.lt_succ_of_le hk) with hBefore | rfl
    · have hEarlier : LinkedIn order (m + 1) j k :=
        (ih (by omega) (by omega)).symm.trans (ih (by omega) (by omega))
      exact hTouches.trans (hEarlier.mono (by omega))
    · exact .refl

/-- So none of them is ever left behind. -/
theorem not_comesBack_of_leftDeep (hDeep : LeftDeep order) (i : Nat) : ¬ ComesBack order i := by
  rintro ⟨m, k, -, ⟨hk, ⟨j, -, table, ⟨p, hp, -⟩, -⟩, hLeft⟩, -⟩
  have hm : m < order.length := (List.getElem?_eq_some_iff.mp hp).1
  exact hLeft (joined_of_leftDeep hDeep hm (Nat.le_of_lt hk))

namespace Explanation

/-- Every order has a tree, if all of its tables have been scanned. -/
theorem ensures_grows (hLength : order.length = estimates.length)
    (hScans : ∀ p ∈ order, ∀ table ∈ sides p, ∃ estimate, scans.get? table = some estimate) :
    (ofOrder order estimates scans).Ensures Never fun e => ∃ placed,
      e = ⟨order, placed.steps⟩ ∧ Grows scans order estimates order.length placed := by
  rw [ofOrder, if_neg (not_not.mpr hLength)]
  refine ensures_bind (P := Grows scans order estimates order.length) ?_
    fun placed _ hGrows => .ok ⟨placed, rfl, hGrows⟩
  have hZip : (order.zip estimates).length = order.length := by
    rw [List.length_zip, hLength, Nat.min_self]
  rw [← hZip]
  refine ensures_foldlM (M := fun done placed => Grows scans order estimates done.length placed)
    grows_empty fun done step rest placed hSplit hGrows => ?_
  obtain ⟨p, cost, card⟩ := step
  have hAt : (order.zip estimates)[done.length]? = some (p, cost, card) := by
    rw [hSplit, List.getElem?_append_right (Nat.le_refl _), Nat.sub_self]
    rfl
  obtain ⟨hp, hEstimate⟩ := List.getElem?_zip_eq_some.mp hAt
  rw [List.length_append]
  exact hGrows.ensures_place hp hEstimate hScans

/-- The orders that a search returns are left-deep: in their trees every step is complete. -/
theorem complete_of_leftDeep (hLength : order.length = estimates.length)
    (hScans : ∀ p ∈ order, ∀ table ∈ sides p, ∃ estimate, scans.get? table = some estimate)
    (hDeep : LeftDeep order) : ∃ steps : List PlanNode,
      ofOrder order estimates scans = .ok ⟨order, steps⟩ ∧
      ∀ i < order.length, CompleteAt scans order steps i := by
  obtain ⟨_, hOk, placed, rfl, hGrows⟩ := (ensures_grows hLength hScans).exists_eq_ok
  exact ⟨placed.steps, hOk, hGrows.completeAt fun i _ => not_comesBack_of_leftDeep hDeep i⟩

/--
Every order has a tree in which each step executes its join with its estimates. The subtrees of
the first steps are complete if and only if none of these steps joins one that the extension of
another group has left behind.
-/
theorem complete_iff_stays (hLength : order.length = estimates.length)
    (hScans : ∀ p ∈ order, ∀ table ∈ sides p, ∃ estimate, scans.get? table = some estimate) :
    ∃ steps : List PlanNode, ofOrder order estimates scans = .ok ⟨order, steps⟩ ∧
      steps.length = order.length ∧
      (∀ (i : Nat) (p : Predicate) (cost : Cost) (card : Cardinality),
        order[i]? = some p → estimates[i]? = some (cost, card) →
        ∃ children, steps[i]? = some (.join p cost card children)) ∧
      ∀ n ≤ order.length,
        (∀ i < n, CompleteAt scans order steps i) ↔ ∀ i < n, ¬ ComesBack order i := by
  obtain ⟨_, hOk, placed, rfl, hGrows⟩ := (ensures_grows hLength hScans).exists_eq_ok
  refine ⟨placed.steps, hOk, hGrows.tracks.length, fun i p cost card hp hEstimate => ?_,
    fun n hn => ⟨fun hComplete i => ?_, fun hStays i hi => ?_⟩⟩
  · exact hGrows.node i (List.getElem?_eq_some_iff.mp hp).1 p cost card hp hEstimate
  · -- a first step that comes back would not be complete
    induction i using Nat.strong_induction_on with
    | _ i ih =>
      intro hi
      exact (hGrows.complete i (by omega) fun j hj => ih j hj (by omega)).mp (hComplete i hi)
  · refine (hGrows.complete i (by omega) fun j hj => ?_).mpr (hStays i hi)
    exact hStays j (by omega)

/-- Two groups, an extension of one of them, and a join that brings both together. -/
def scatteredOrder : List Predicate :=
  [sampleJoin "A" "x" "B" "x", sampleJoin "C" "x" "D" "x", sampleJoin "A" "y" "E" "x",
    sampleJoin "E" "y" "C" "y"]

def scatteredEstimates : List Estimate :=
  [(.whole 2000, 10), (.whole 2000, 10), (.whole 5000, 10), (.whole 8000, 10)]

def scatteredScans : ScanEstimates :=
  ["A", "B", "C", "D", "E"].map fun table => (some table, .whole 1000, 10)

theorem scatteredScans_of_mem : ∀ p ∈ scatteredOrder, ∀ table ∈ sides p,
    ∃ estimate, scatteredScans.get? table = some estimate := by
  have hAll : ∀ p ∈ scatteredOrder, ∀ table ∈ sides p, (scatteredScans.get? table).isSome := by
    decide
  intro p hp table hSide
  exact Option.isSome_iff_exists.mp (hAll p hp table hSide)

/-- The statement at this order. -/
theorem complete_iff_stays_scattered :
    scatteredOrder.length = scatteredEstimates.length ∧
      (∀ p ∈ scatteredOrder, ∀ table ∈ sides p,
        ∃ estimate, scatteredScans.get? table = some estimate) ∧
      ∃ steps : List PlanNode, ofOrder scatteredOrder scatteredEstimates scatteredScans =
          .ok ⟨scatteredOrder, steps⟩ ∧
        steps.length = scatteredOrder.length ∧
        (∀ (i : Nat) (p : Predicate) (cost : Cost) (card : Cardinality),
          scatteredOrder[i]? = some p → scatteredEstimates[i]? = some (cost, card) →
          ∃ children, steps[i]? = some (.join p cost card children)) ∧
        ∀ n ≤ scatteredOrder.length,
          (∀ i < n, CompleteAt scatteredScans scatteredOrder steps i) ↔
            ∀ i < n, ¬ ComesBack scatteredOrder i :=
  ⟨rfl, scatteredScans_of_mem, complete_iff_stays rfl scatteredScans_of_mem⟩

/-- The tree of this order has lost a table: the last step joins the second one, which was left
behind, but the scan of its table `D` is not below it. -/
theorem not_always_complete :
    ¬ ∀ order estimates scans, order.length = estimates.length →
      (∀ p ∈ order, ∀ table ∈ sides p, ∃ estimate, Association.get? scans table = some estimate) →
      ∃ steps, ofOrder order estimates scans = .ok ⟨order, steps⟩ ∧
        ∀ i < order.length, CompleteAt scans order steps i := by
  intro hClaim
  obtain ⟨steps, hOk, hComplete⟩ :=
    hClaim scatteredOrder scatteredEstimates scatteredScans rfl scatteredScans_of_mem
  obtain ⟨node, numbers, read, hNode, hGroup⟩ := hComplete 3 (by decide)
  have hTree : ((ofOrder scatteredOrder scatteredEstimates scatteredScans).toOption.any fun e =>
      e.steps.all PlanNode.isJoin && e.steps[3]?.all fun root =>
        !(root.preorder.map PlanNode.table?).contains (some "D")) = true := by
    decide
  rw [hOk] at hTree
  obtain ⟨hJoins, hLost⟩ := Bool.and_eq_true_iff.mp hTree
  have hC : ReadAt scatteredOrder 3 (some "C") ∧ ReadAt scatteredOrder 1 (some "C") :=
    ⟨⟨_, rfl, by decide⟩, _, rfl, by decide⟩
  have hJoined : Joined scatteredOrder 3 1 :=
    linkedIn_of_readAt (by decide) (by decide) hC.1 hC.2
  have hScan : scatteredScans.get? (some "D") = some (.whole 1000, 10) := rfl
  have hMem := (hGroup.scan_mem_iff (List.all_eq_true.mp hJoins) hScan).mpr
    ⟨1, hJoined, _, rfl, by decide⟩
  have hTable : some "D" ∈ node.preorder.map PlanNode.table? := List.mem_map.mpr ⟨_, hMem, rfl⟩
  simp only [hNode, Option.all_some, List.contains_iff_mem.mpr hTable] at hLost
  cases hLost

end Explanation

end JoinPlanner
