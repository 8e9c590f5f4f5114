import JoinPlanner.Predicate
import Mathlib.Data.List.Forall2

/-!
# JoinPlanner — left-deep orders

A left-deep order executes joins one after another. No step is a cross product: each
join after the first shares a table with an earlier one.

* `SameJoin`   — two predicates are the same join, perhaps with its sides exchanged.
* `Named`      — the sides that stand for tables have aliases, and no others.
* `Touches`    — a predicate shares a table with some others.
* `LeftDeep`   — every predicate after the first touches the earlier ones.
* `Executes`   — an order holds the joins of a list, each once, in some orientation.
* `executes_count` — exactly one predicate of such an order is a given join.
* `eq_of_mem_executes` — so it stands there in one orientation only.

None of these depends on orientations (`touches_iff_of_executes`).
-/

namespace JoinPlanner

namespace Predicate

-- ---------------------------------------------------------------------------
-- Orientations
-- ---------------------------------------------------------------------------

theorem mem_tables_flipped {p : Predicate} {table : Option String} :
    table ∈ p.flipped.tables ↔ table ∈ p.tables := by
  obtain ⟨kind, left, operator, right⟩ := p
  cases kind with
  | subplan => exact Iff.rfl
  | table =>
    simp only [flipped, tables, List.mem_filter, List.mem_cons, List.not_mem_nil, or_false]
    constructor
    · rintro ⟨hMem, hSome⟩
      exact ⟨hMem.symm, hSome⟩
    · rintro ⟨hMem, hSome⟩
      exact ⟨hMem.symm, hSome⟩

theorem isSubplan_flipped (p : Predicate) : p.flipped.isSubplan = p.isSubplan := by
  rw [isSubplan, isSubplan, flipped_kind]

/-- A join with a subplan has one orientation. -/
theorem flipped_of_subplan {p : Predicate} (h : p.isSubplan = true) : p.flipped = p := by
  rw [flipped, show p.kind = .subplan from eq_of_beq h]

theorem mem_tablesIn {predicates : List Predicate} {table : Option String} :
    table ∈ tablesIn predicates ↔ ∃ p ∈ predicates, table ∈ p.tables := by
  rw [tablesIn, List.mem_eraseDups, List.mem_flatMap]

/-- Dropping repetitions leaves none. -/
theorem nodup_eraseDups {α : Type} [BEq α] [LawfulBEq α] (items : List α) :
    items.eraseDups.Nodup := by
  induction hLength : items.length using Nat.strongRecOn generalizing items with
  | ind length ih =>
    cases items with
    | nil => exact List.nodup_nil
    | cons a rest =>
      have hShorter := List.length_filter_le (fun b => !b == a) rest
      rw [List.length_cons] at hLength
      rw [List.eraseDups_cons, List.nodup_cons, List.mem_eraseDups]
      exact ⟨by simp, ih _ (by omega) _ rfl⟩

theorem nodup_tablesIn (predicates : List Predicate) : (tablesIn predicates).Nodup :=
  nodup_eraseDups _

/-- The two predicates are the same join. -/
def SameJoin (p q : Predicate) : Prop := p = q ∨ p = q.flipped

instance (p q : Predicate) : Decidable (p.SameJoin q) :=
  inferInstanceAs (Decidable (p = q ∨ p = q.flipped))

theorem SameJoin.refl (p : Predicate) : p.SameJoin p := Or.inl rfl

theorem SameJoin.symm {p q : Predicate} (h : p.SameJoin q) : q.SameJoin p := by
  rcases h with rfl | rfl
  · exact Or.inl rfl
  · exact Or.inr (flipped_flipped q).symm

theorem SameJoin.trans {p q r : Predicate} (h : p.SameJoin q) (h' : q.SameJoin r) :
    p.SameJoin r := by
  rcases h with rfl | rfl
  · exact h'
  · rcases h' with rfl | rfl
    · exact Or.inr rfl
    · exact Or.inl (flipped_flipped r)

theorem SameJoin.mem_tables_iff {p q : Predicate} (h : p.SameJoin q) {table : Option String} :
    table ∈ p.tables ↔ table ∈ q.tables := by
  rcases h with rfl | rfl
  · exact Iff.rfl
  · exact mem_tables_flipped

theorem SameJoin.isSubplan_eq {p q : Predicate} (h : p.SameJoin q) :
    p.isSubplan = q.isSubplan := by
  rcases h with rfl | rfl
  · rfl
  · exact isSubplan_flipped q

/-- The sides that stand for tables have aliases; the side of a subquery has none. -/
structure Named (p : Predicate) : Prop where
  left : p.left.table.isSome
  right : p.right.table.isSome ↔ p.kind = .table

instance (p : Predicate) : Decidable p.Named :=
  decidable_of_iff (p.left.table.isSome ∧ (p.right.table.isSome ↔ p.kind = .table))
    ⟨fun h => ⟨h.1, h.2⟩, fun h => ⟨h.left, h.right⟩⟩

-- ---------------------------------------------------------------------------
-- Shared tables
-- ---------------------------------------------------------------------------

/-- The predicate shares a table with one of the others. -/
def Touches (p : Predicate) (others : List Predicate) : Prop :=
  ∃ q ∈ others, ∃ table : String, some table ∈ p.tables ∧ some table ∈ q.tables

instance (p : Predicate) (others : List Predicate) : Decidable (p.Touches others) :=
  decidable_of_iff (∃ q ∈ others, ∃ side ∈ p.tables, side.isSome ∧ side ∈ q.tables) <| by
    refine exists_congr fun q => and_congr_right fun _ => ?_
    constructor
    · rintro ⟨side, hSide, hSome, hShared⟩
      obtain ⟨table, rfl⟩ := Option.isSome_iff_exists.mp hSome
      exact ⟨table, hSide, hShared⟩
    · rintro ⟨table, hTable, hShared⟩
      exact ⟨some table, hTable, rfl, hShared⟩

end Predicate

open Predicate

-- ---------------------------------------------------------------------------
-- Left-deep orders
-- ---------------------------------------------------------------------------

/-- Every predicate after the first touches the ones before it. -/
def LeftDeep (order : List Predicate) : Prop :=
  ∀ before p after, order = before ++ p :: after → before ≠ [] → p.Touches before

theorem leftDeep_nil : LeftDeep [] := by
  intro before p after hSplit
  simp at hSplit

theorem leftDeep_concat {order : List Predicate} {p : Predicate} :
    LeftDeep (order ++ [p]) ↔ LeftDeep order ∧ (order ≠ [] → p.Touches order) := by
  constructor
  · intro h
    refine ⟨?_, fun hOrder => h order p [] rfl hOrder⟩
    intro before q after hSplit hBefore
    exact h before q (after ++ [p]) (by simp [hSplit]) hBefore
  · rintro ⟨hOrder, hLast⟩ before q after hSplit hBefore
    rcases List.eq_nil_or_concat after with rfl | ⟨after, r, rfl⟩
    · obtain ⟨rfl, hpq⟩ := List.append_inj' hSplit rfl
      cases hpq
      exact hLast hBefore
    · have hSplit' : order ++ [p] = (before ++ q :: after) ++ [r] := by simp [hSplit]
      obtain ⟨rfl, -⟩ := List.append_inj' hSplit' rfl
      exact hOrder before q after rfl hBefore

/-- Positions instead of parts, so that an order can be tested. -/
theorem leftDeep_iff_getElem {order : List Predicate} :
    LeftDeep order ↔ ∀ k (hLt : k < order.length), 0 < k → order[k].Touches (order.take k) := by
  constructor
  · intro h k hLt hk
    refine h (order.take k) order[k] (order.drop (k + 1)) ?_ ?_
    · rw [← List.drop_eq_getElem_cons hLt, List.take_append_drop]
    · exact List.ne_nil_of_length_pos (by rw [List.length_take]; omega)
  · rintro h before p after rfl hBefore
    have hTouches := h before.length (by simp) (List.length_pos_iff.mpr hBefore)
    simpa using hTouches

instance (order : List Predicate) : Decidable (LeftDeep order) :=
  decidable_of_iff _ leftDeep_iff_getElem.symm

theorem LeftDeep.take {order : List Predicate} (h : LeftDeep order) (size : Nat) :
    LeftDeep (order.take size) := by
  intro before p after hSplit hBefore
  refine h before p (after ++ order.drop size) ?_ hBefore
  rw [← List.cons_append, ← List.append_assoc, ← hSplit, List.take_append_drop]

-- ---------------------------------------------------------------------------
-- Orders of given joins
-- ---------------------------------------------------------------------------

/-- The order holds the given joins, each once, in some orientation. -/
def Executes (order joins : List Predicate) : Prop :=
  ∃ given, given.Perm joins ∧ List.Forall₂ SameJoin order given

theorem executes_nil : Executes [] [] := ⟨[], List.Perm.refl _, List.Forall₂.nil⟩

/-- A list in another order executes itself. -/
theorem executes_of_perm {order joins : List Predicate} (h : order.Perm joins) :
    Executes order joins :=
  ⟨order, h, List.forall₂_same.mpr fun p _ => SameJoin.refl p⟩

/-- One more join is executed last. -/
theorem executes_concat {order rest joins : List Predicate} {p q : Predicate}
    (hOrder : Executes order rest) (hSame : q.SameJoin p) (hPerm : (p :: rest).Perm joins) :
    Executes (order ++ [q]) joins := by
  obtain ⟨given, hGiven, hMatch⟩ := hOrder
  refine ⟨given ++ [p], ?_, List.rel_append hMatch (List.Forall₂.cons hSame .nil)⟩
  exact ((List.perm_append_singleton p given).trans (hGiven.cons p)).trans hPerm

theorem length_of_executes {order joins : List Predicate} (h : Executes order joins) :
    order.length = joins.length := by
  obtain ⟨given, hPerm, hMatch⟩ := h
  rw [hMatch.length_eq, hPerm.length_eq]

/-- Every predicate of the order is one of the joins. -/
theorem exists_sameJoin_of_mem {order joins : List Predicate} (h : Executes order joins)
    {q : Predicate} (hq : q ∈ order) : ∃ p ∈ joins, q.SameJoin p := by
  obtain ⟨given, hPerm, hMatch⟩ := h
  obtain ⟨i, hi, rfl⟩ := List.mem_iff_getElem.mp hq
  have hi' : i < given.length := hMatch.length_eq ▸ hi
  exact ⟨given[i], hPerm.mem_iff.mp (List.getElem_mem hi'), hMatch.get hi hi'⟩

/-- Every one of the joins is in the order. -/
theorem exists_mem_of_executes {order joins : List Predicate} (h : Executes order joins)
    {p : Predicate} (hp : p ∈ joins) : ∃ q ∈ order, q.SameJoin p := by
  obtain ⟨given, hPerm, hMatch⟩ := h
  obtain ⟨i, hi, rfl⟩ := List.mem_iff_getElem.mp (hPerm.mem_iff.mpr hp)
  have hi' : i < order.length := hMatch.length_eq.symm ▸ hi
  exact ⟨order[i], List.getElem_mem hi', hMatch.get hi' hi⟩

/-- The tables of an order are those of its joins. -/
theorem touches_iff_of_executes {order joins : List Predicate} (h : Executes order joins)
    (p : Predicate) : p.Touches order ↔ p.Touches joins := by
  constructor
  · rintro ⟨q, hq, table, hp, hTable⟩
    obtain ⟨r, hr, hSame⟩ := exists_sameJoin_of_mem h hq
    exact ⟨r, hr, table, hp, hSame.mem_tables_iff.mp hTable⟩
  · rintro ⟨r, hr, table, hp, hTable⟩
    obtain ⟨q, hq, hSame⟩ := exists_mem_of_executes h hr
    exact ⟨q, hq, table, hp, hSame.mem_tables_iff.mpr hTable⟩

/-- No two of the joins are the same. -/
def DistinctJoins (joins : List Predicate) : Prop :=
  joins.Pairwise fun p q => ¬ q.SameJoin p

instance (joins : List Predicate) : Decidable (DistinctJoins joins) :=
  inferInstanceAs (Decidable (joins.Pairwise fun p q => ¬ q.SameJoin p))

theorem DistinctJoins.nodup {joins : List Predicate} (h : DistinctJoins joins) : joins.Nodup :=
  h.imp fun hpq heq => hpq (Or.inl heq.symm)

theorem DistinctJoins.perm {joins others : List Predicate} (h : DistinctJoins joins)
    (hPerm : joins.Perm others) : DistinctJoins others :=
  (hPerm.pairwise_iff fun hNot hSame => hNot hSame.symm).mp h

/-- In a list of distinct joins each one occurs once, whatever its orientation. -/
theorem countP_sameJoin_of_distinct {joins : List Predicate} (h : DistinctJoins joins)
    {p : Predicate} (hp : p ∈ joins) : joins.countP (fun q => decide (q.SameJoin p)) = 1 := by
  induction joins with
  | nil => cases hp
  | cons r rest ih =>
    obtain ⟨hr, hRest⟩ := List.pairwise_cons.mp h
    rcases List.mem_cons.mp hp with rfl | hp
    · have hNone : rest.countP (fun q => decide (q.SameJoin p)) = 0 := by
        rw [List.countP_eq_zero]
        intro q hq
        simpa using hr q hq
      rw [List.countP_cons, hNone]
      simp [SameJoin.refl p]
    · have hNot : ¬ r.SameJoin p := fun hSame => hr p hp hSame.symm
      rw [List.countP_cons, ih hRest hp]
      simp [hNot]

/-- Exactly one predicate of an order is a given one of its joins. -/
theorem executes_count {order joins : List Predicate} (h : Executes order joins)
    (hDistinct : DistinctJoins joins) {p : Predicate} (hp : p ∈ joins) :
    order.countP (fun q => decide (q.SameJoin p)) = 1 := by
  obtain ⟨given, hPerm, hMatch⟩ := h
  -- matched predicates count alike, because being the same join is transitive
  have hCount : order.countP (fun q => decide (q.SameJoin p)) =
      given.countP (fun q => decide (q.SameJoin p)) := by
    clear hPerm
    induction hMatch with
    | nil => rfl
    | @cons q r order given hSame _ ih =>
      have hIff : q.SameJoin p ↔ r.SameJoin p := ⟨hSame.symm.trans, hSame.trans⟩
      rw [List.countP_cons, List.countP_cons, ih]
      simp [hIff]
  rw [hCount, hPerm.countP_eq]
  exact countP_sameJoin_of_distinct hDistinct hp

/-- Two predicates of an order that are the same join are equal. -/
theorem eq_of_mem_executes {order joins : List Predicate} (h : Executes order joins)
    (hDistinct : DistinctJoins joins) {p q r : Predicate} (hp : p ∈ joins) (hq : q ∈ order)
    (hr : r ∈ order) (hqp : q.SameJoin p) (hrp : r.SameJoin p) : q = r := by
  have hCount := executes_count h hDistinct hp
  rw [List.countP_eq_length_filter] at hCount
  obtain ⟨only, hOnly⟩ := List.length_eq_one_iff.mp hCount
  have hMem : ∀ s ∈ order, s.SameJoin p → s = only := by
    intro s hs hSame
    have hFilter : s ∈ order.filter fun q => decide (q.SameJoin p) :=
      List.mem_filter.mpr ⟨hs, decide_eq_true hSame⟩
    rw [hOnly] at hFilter
    exact List.mem_singleton.mp hFilter
  rw [hMem q hq hqp, hMem r hr hrp]

/-- Distinct joins that are the same are equal. -/
theorem DistinctJoins.eq_of_sameJoin {joins : List Predicate} (h : DistinctJoins joins)
    {p q : Predicate} (hp : p ∈ joins) (hq : q ∈ joins) (hSame : p.SameJoin q) : p = q :=
  eq_of_mem_executes (executes_of_perm (List.Perm.refl joins)) h hq hp hq hSame (.refl q)

end JoinPlanner
