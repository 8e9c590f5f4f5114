import JoinPlanner.Proofs.LeftDeep
import Mathlib.Data.List.Induction
import Mathlib.Logic.Relation

/-!
# JoinPlanner — linked tables

Two tables are chained if a sequence of table joins leads from one to the other.
Predicates are linked if all their tables are chained.

* `Chained`, `Linked` — the relation and the property.
* `linked_of_leftDeep` — the joins of a left-deep order are linked.
* `exists_leftDeep_of_linked` — linked joins have a left-deep order: any beginning of
  one that leaves joins over can be continued, because otherwise the tables of the
  beginning would be chained to no others.
* `Linked.of_tables` — whether predicates are linked depends on their tables only.
* `linked_congr` — it does not matter in which order and orientation joins are given.
-/

namespace JoinPlanner

/-- The predicate joins the two tables, in either direction. -/
def Predicate.Links (p : Predicate) (a b : String) : Prop :=
  p.kind = .table ∧ ((p.left.table = some a ∧ p.right.table = some b) ∨
    (p.left.table = some b ∧ p.right.table = some a))

namespace Predicate

theorem Links.symm {p : Predicate} {a b : String} (h : p.Links a b) : p.Links b a :=
  ⟨h.1, h.2.symm⟩

theorem Links.mem_left {p : Predicate} {a b : String} (h : p.Links a b) :
    some a ∈ p.tables := by
  obtain ⟨hKind, ⟨hl, hr⟩ | ⟨hl, hr⟩⟩ := h <;> simp [tables, hKind, hl, hr]

theorem Links.mem_right {p : Predicate} {a b : String} (h : p.Links a b) :
    some b ∈ p.tables := h.symm.mem_left

theorem links_flipped {p : Predicate} {a b : String} : p.flipped.Links a b ↔ p.Links a b := by
  obtain ⟨kind, left, operator, right⟩ := p
  cases kind with
  | subplan => exact Iff.rfl
  | table =>
    simp only [Links, flipped, true_and]
    constructor
    · rintro (⟨hl, hr⟩ | ⟨hl, hr⟩)
      · exact Or.inr ⟨hr, hl⟩
      · exact Or.inl ⟨hr, hl⟩
    · rintro (⟨hl, hr⟩ | ⟨hl, hr⟩)
      · exact Or.inr ⟨hr, hl⟩
      · exact Or.inl ⟨hr, hl⟩

/-- Two tables of one predicate are the same one, or the predicate links them. -/
theorem eq_or_links {p : Predicate} {a b : String} (ha : some a ∈ p.tables)
    (hb : some b ∈ p.tables) : a = b ∨ p.Links a b := by
  obtain ⟨kind, left, operator, right⟩ := p
  cases kind with
  | subplan =>
    simp only [tables, List.mem_singleton] at ha hb
    exact Or.inl (Option.some.inj (ha.trans hb.symm))
  | table =>
    simp only [tables, List.mem_filter, List.mem_cons, List.not_mem_nil, or_false,
      Option.isSome_some, and_true] at ha hb
    rcases ha with ha | ha <;> rcases hb with hb | hb
    · exact Or.inl (Option.some.inj (ha.trans hb.symm))
    · exact Or.inr ⟨rfl, Or.inl ⟨ha.symm, hb.symm⟩⟩
    · exact Or.inr ⟨rfl, Or.inr ⟨hb.symm, ha.symm⟩⟩
    · exact Or.inl (Option.some.inj (ha.trans hb.symm))

/-- A predicate whose sides are named has a table. -/
theorem Named.exists_table {p : Predicate} (h : p.Named) : ∃ a : String, some a ∈ p.tables := by
  obtain ⟨a, ha⟩ := Option.isSome_iff_exists.mp h.left
  refine ⟨a, ?_⟩
  cases hKind : p.kind <;> simp [tables, hKind, ha]

end Predicate

-- ---------------------------------------------------------------------------
-- Chains
-- ---------------------------------------------------------------------------

/-- Some of the joins link the two tables. -/
def SomeLinks (joins : List Predicate) (a b : String) : Prop := ∃ p ∈ joins, p.Links a b

/-- A sequence of joins leads from one table to the other. -/
def Chained (joins : List Predicate) : String → String → Prop :=
  Relation.ReflTransGen (SomeLinks joins)

instance (joins : List Predicate) : Std.Symm (SomeLinks joins) where
  symm := fun _ _ ⟨p, hp, hLinks⟩ => ⟨p, hp, hLinks.symm⟩

theorem Chained.symm {joins : List Predicate} {a b : String} (h : Chained joins a b) :
    Chained joins b a :=
  symm_of (Relation.ReflTransGen (SomeLinks joins)) h

/-- The tables of one of the joins are chained. -/
theorem chained_of_mem {joins : List Predicate} {p : Predicate} (hp : p ∈ joins) {a b : String}
    (ha : some a ∈ p.tables) (hb : some b ∈ p.tables) : Chained joins a b := by
  rcases Predicate.eq_or_links ha hb with rfl | hLinks
  · exact .refl
  · exact .single ⟨p, hp, hLinks⟩

/-- Joins whose tables are among those of other joins make no other chains. -/
theorem Chained.of_tables {joins others : List Predicate}
    (h : ∀ p ∈ joins, ∃ q ∈ others, ∀ a : String, some a ∈ p.tables → some a ∈ q.tables)
    {a b : String} (hChain : Chained joins a b) : Chained others a b := by
  induction hChain with
  | refl => exact .refl
  | tail _ hLink ih =>
    obtain ⟨p, hp, hLinks⟩ := hLink
    obtain ⟨q, hq, hTables⟩ := h p hp
    exact ih.trans (chained_of_mem hq (hTables _ hLinks.mem_left) (hTables _ hLinks.mem_right))

/-- A join that the other list has in some orientation makes the same chains. -/
theorem Chained.mono {joins others : List Predicate}
    (h : ∀ p ∈ joins, ∃ q ∈ others, q.SameJoin p) {a b : String} (hChain : Chained joins a b) :
    Chained others a b := by
  refine hChain.of_tables fun p hp => ?_
  obtain ⟨q, hq, hSame⟩ := h p hp
  exact ⟨q, hq, fun _ => hSame.mem_tables_iff.mpr⟩

/-- All tables of the joins are chained. -/
def Linked (joins : List Predicate) : Prop :=
  ∀ p ∈ joins, ∀ q ∈ joins, ∀ a b : String,
    some a ∈ p.tables → some b ∈ q.tables → Chained joins a b

/-- Whether joins are linked depends on their tables only. -/
theorem Linked.of_tables {joins others : List Predicate}
    (h : ∀ p ∈ joins, ∃ q ∈ others, ∀ a : String, some a ∈ p.tables → some a ∈ q.tables)
    (h' : ∀ q ∈ others, ∃ p ∈ joins, ∀ a : String, some a ∈ q.tables → some a ∈ p.tables)
    (hLinked : Linked joins) : Linked others := by
  intro q hq r hr a b ha hb
  obtain ⟨p, hp, hTables⟩ := h' q hq
  obtain ⟨p', hp', hTables'⟩ := h' r hr
  exact (hLinked p hp p' hp' a b (hTables a ha) (hTables' b hb)).of_tables h

theorem linked_congr {joins others : List Predicate}
    (h : ∀ p ∈ joins, ∃ q ∈ others, q.SameJoin p)
    (h' : ∀ q ∈ others, ∃ p ∈ joins, p.SameJoin q) : Linked joins ↔ Linked others := by
  have hTables : ∀ {xs ys : List Predicate}, (∀ p ∈ xs, ∃ q ∈ ys, q.SameJoin p) →
      ∀ p ∈ xs, ∃ q ∈ ys, ∀ a : String, some a ∈ p.tables → some a ∈ q.tables := by
    intro xs ys hxy p hp
    obtain ⟨q, hq, hSame⟩ := hxy p hp
    exact ⟨q, hq, fun _ => hSame.mem_tables_iff.mpr⟩
  exact ⟨Linked.of_tables (hTables h) (hTables h'), Linked.of_tables (hTables h') (hTables h)⟩

/-- An order is linked if and only if its joins are. -/
theorem linked_iff_of_executes {order joins : List Predicate} (h : Executes order joins) :
    Linked order ↔ Linked joins := by
  refine linked_congr (fun q hq => ?_) (fun p hp => exists_mem_of_executes h hp)
  obtain ⟨p, hp, hSame⟩ := exists_sameJoin_of_mem h hq
  exact ⟨p, hp, hSame.symm⟩

-- ---------------------------------------------------------------------------
-- Left-deep orders are linked
-- ---------------------------------------------------------------------------

/-- Linked joins stay linked with one more that touches them. -/
theorem linked_concat {order : List Predicate} {p : Predicate} (hLinked : Linked order)
    (hTouches : order ≠ [] → p.Touches order) : Linked (order ++ [p]) := by
  have hSubset : ∀ q ∈ order, ∃ r ∈ order ++ [p], r.SameJoin q := fun q hq =>
    ⟨q, List.mem_append_left _ hq, Predicate.SameJoin.refl q⟩
  have hLast : p ∈ order ++ [p] := List.mem_append_right _ (List.mem_singleton_self p)
  -- a table of an earlier join reaches every table of the new one
  have hReach : ∀ q ∈ order, ∀ a b : String, some a ∈ q.tables → some b ∈ p.tables →
      Chained (order ++ [p]) a b := by
    intro q hq a b ha hb
    obtain ⟨r, hr, table, hp, hTable⟩ := hTouches (List.ne_nil_of_mem hq)
    exact ((hLinked q hq r hr a table ha hTable).mono hSubset).trans
      (chained_of_mem hLast hp hb)
  intro q hq r hr a b ha hb
  rcases List.mem_append.mp hq with hOld | hNew <;>
    rcases List.mem_append.mp hr with hOld' | hNew'
  · exact (hLinked q hOld r hOld' a b ha hb).mono hSubset
  · obtain rfl := List.mem_singleton.mp hNew'
    exact hReach q hOld a b ha hb
  · obtain rfl := List.mem_singleton.mp hNew
    exact (hReach r hOld' b a hb ha).symm
  · obtain rfl := List.mem_singleton.mp hNew
    obtain rfl := List.mem_singleton.mp hNew'
    exact chained_of_mem hLast ha hb

theorem linked_of_leftDeep {order : List Predicate} (h : LeftDeep order) : Linked order := by
  induction order using List.reverseRecOn with
  | nil =>
    intro p hp
    cases hp
  | append_singleton order p ih =>
    obtain ⟨hOrder, hTouches⟩ := leftDeep_concat.mp h
    exact linked_concat (ih hOrder) hTouches

-- ---------------------------------------------------------------------------
-- Linked joins have a left-deep order
-- ---------------------------------------------------------------------------

/-- Of linked joins, some left-over one touches those that were taken. -/
theorem exists_touches_of_linked {taken left : List Predicate}
    (hTables : ∀ p ∈ taken ++ left, ∃ a : String, some a ∈ p.tables)
    (hLinked : Linked (taken ++ left)) (hTaken : taken ≠ []) (hLeft : left ≠ []) :
    ∃ p ∈ left, p.Touches taken := by
  by_contra hNone
  push Not at hNone
  obtain ⟨p, hp⟩ := List.exists_mem_of_ne_nil taken hTaken
  obtain ⟨q, hq⟩ := List.exists_mem_of_ne_nil left hLeft
  have hpAll := List.mem_append_left left hp
  have hqAll := List.mem_append_right taken hq
  obtain ⟨a, ha⟩ := hTables p hpAll
  obtain ⟨b, hb⟩ := hTables q hqAll
  -- a chain that starts in the taken joins never leaves their tables
  have hStay : ∀ c, Chained (taken ++ left) a c → ∃ r ∈ taken, some c ∈ r.tables := by
    intro c hChain
    induction hChain with
    | refl => exact ⟨p, hp, ha⟩
    | tail _ hLink ih =>
      obtain ⟨r, hr, hTable⟩ := ih
      obtain ⟨link, hMem, hLinks⟩ := hLink
      rcases List.mem_append.mp hMem with hMem | hMem
      · exact ⟨link, hMem, hLinks.mem_right⟩
      · exact absurd ⟨r, hr, _, hLinks.mem_left, hTable⟩ (hNone link hMem)
  obtain ⟨r, hr, hTable⟩ := hStay b (hLinked p hpAll q hqAll a b ha hb)
  exact hNone q hq ⟨r, hr, b, hb, hTable⟩

/-- A beginning of any length that is left-deep, with the joins that are left over. -/
theorem exists_leftDeep_beginning {joins : List Predicate} (hNamed : ∀ p ∈ joins, p.Named)
    (hLinked : Linked joins) : ∀ size, size ≤ joins.length →
      ∃ taken left, (taken ++ left).Perm joins ∧ taken.length = size ∧ LeftDeep taken := by
  intro size
  induction size with
  | zero => exact fun _ => ⟨[], joins, List.Perm.refl _, rfl, leftDeep_nil⟩
  | succ size ih =>
    intro hSize
    obtain ⟨taken, left, hPerm, hLength, hDeep⟩ := ih (by omega)
    have hTotal := hPerm.length_eq
    rw [List.length_append] at hTotal
    have hLeft : left ≠ [] := by
      rintro rfl
      simp only [List.length_nil] at hTotal
      omega
    have hAll : ∃ p ∈ left, taken ≠ [] → p.Touches taken := by
      by_cases hTaken : taken = []
      · obtain ⟨p, hp⟩ := List.exists_mem_of_ne_nil left hLeft
        exact ⟨p, hp, fun h => absurd hTaken h⟩
      · have hLinked' : Linked (taken ++ left) :=
          (linked_iff_of_executes (executes_of_perm hPerm)).mpr hLinked
        obtain ⟨p, hp, hTouches⟩ := exists_touches_of_linked
          (fun p hp => (hNamed p (hPerm.mem_iff.mp hp)).exists_table) hLinked' hTaken hLeft
        exact ⟨p, hp, fun _ => hTouches⟩
    obtain ⟨p, hp, hTouches⟩ := hAll
    refine ⟨taken ++ [p], left.erase p, ?_, by simp [hLength],
      leftDeep_concat.mpr ⟨hDeep, hTouches⟩⟩
    rw [List.append_assoc]
    exact ((List.perm_cons_erase hp).symm.append_left taken).trans hPerm

/-- Linked joins have a left-deep order. -/
theorem exists_leftDeep_of_linked {joins : List Predicate} (hNamed : ∀ p ∈ joins, p.Named)
    (hLinked : Linked joins) : ∃ order, order.Perm joins ∧ LeftDeep order := by
  obtain ⟨taken, left, hPerm, hLength, hDeep⟩ :=
    exists_leftDeep_beginning hNamed hLinked joins.length (Nat.le_refl _)
  have hTotal := hPerm.length_eq
  rw [List.length_append] at hTotal
  have hLeft : left = [] := List.length_eq_zero_iff.mp (by omega)
  rw [hLeft, List.append_nil] at hPerm
  exact ⟨taken, hPerm, hDeep⟩

end JoinPlanner
