import JoinPlanner.Proofs.Search.Agreement

/-!
# JoinPlanner — the same conditions

Two searches whose joins are the same conditions, up to the sides of subqueries, extend plans
alike. So their plans are equally good, and if no set has two cheapest joins, they are the
same plans.

* `SameReadings`   — two settings that tell the same of tables.
* `Predicate.SameCondition` — the same join, perhaps with another subquery.
* `follows_of_sameCondition` — such joins follow each other.
* `Searched.get?_eq_renamed` — without ties the plans are the same, up to the subqueries.
-/

namespace JoinPlanner

open Outcome Setting

-- ---------------------------------------------------------------------------
-- Settings
-- ---------------------------------------------------------------------------

/-- Both settings tell the same of every table. -/
structure SameReadings (s s' : Setting) : Prop where
  catalog : s'.catalog = s.catalog
  stats : s'.stats = s.stats
  fraction : s'.fraction = s.fraction
  selectivity : ∀ a : String, s'.selectivities.get? a = s.selectivities.get? a

namespace SameReadings

variable {s s' : Setting}

theorem statsOf_eq (h : SameReadings s s') (table : Option String) :
    s'.statsOf table = s.statsOf table := by
  rw [statsOf, statsOf, h.catalog, h.stats]

theorem scanOf_eq (h : SameReadings s s') (table : Option String) :
    s'.scanOf table = s.scanOf table := by
  have hSelectivity : table.bind s'.selectivities.get? = table.bind s.selectivities.get? := by
    cases table with
    | none => rfl
    | some a => exact h.selectivity a
  rw [scanOf, scanOf, hSelectivity, h.statsOf_eq]

theorem isKey_eq (h : SameReadings s s') (side : Operand) : s'.isKey side = s.isKey side := by
  rw [isKey, isKey, h.catalog]

theorem scanInput_eq (h : SameReadings s s') (side : Operand) :
    s'.scanInput side = s.scanInput side := by
  rw [scanInput, scanInput, h.scanOf_eq, h.isKey_eq]

theorem innerInput_eq (h : SameReadings s s') (p : Predicate) :
    s'.innerInput p = s.innerInput p := by
  rw [innerInput, innerInput, h.scanInput_eq]

theorem hasKey_eq (h : SameReadings s s') (order : List Predicate) :
    s'.hasKey order = s.hasKey order := by
  induction order with
  | nil => rfl
  | cons p rest ih => rw [hasKey, hasKey, h.isKey_eq, h.isKey_eq, ih]

theorem cardinalityOf_eq (h : SameReadings s s') (o : Oriented) :
    s'.cardinalityOf o = s.cardinalityOf o := by
  simp only [cardinalityOf, Setting.joinCardinality, h.statsOf_eq, h.fraction]

/-- A plan that looks alike is the same input of a join. -/
theorem inputs_of_looksAlike (h : SameReadings s s') {previous previous' : Option Plan}
    (hAlike : LooksAlike s s' previous previous') {p : Predicate} {l r : JoinInput}
    (hInputs : s.Inputs previous p l r) : s'.Inputs previous' p l r := by
  cases hAlike with
  | start =>
    cases hInputs with
    | first left right => exact .first (h.scanInput_eq _ ▸ left) (h.innerInput_eq _ ▸ right)
  | plans input tables =>
    cases hInputs with
    | onLeft shared left right =>
      exact .onLeft ((tables _).trans shared) (input.trans left) (h.innerInput_eq _ ▸ right)
    | onRight fresh kind shared right left =>
      exact .onRight ((tables _).trans fresh) kind ((tables _).trans shared) (input.trans right)
        (h.scanInput_eq _ ▸ left)

theorem candidate_of_looksAlike (h : SameReadings s s') {previous previous' : Option Plan}
    (hAlike : LooksAlike s s' previous previous') {p : Predicate} {o : Oriented}
    (hNext : s.Candidate previous p o) : s'.Candidate previous' p o := by
  obtain ⟨l, r, hInputs, hOrient⟩ := hNext
  exact ⟨l, r, h.inputs_of_looksAlike hAlike hInputs, hOrient⟩

end SameReadings

-- ---------------------------------------------------------------------------
-- Conditions
-- ---------------------------------------------------------------------------

/-- The predicates are the same condition, but subqueries may differ. -/
structure Predicate.SameCondition (p q : Predicate) : Prop where
  kind : q.kind = p.kind
  left : q.left = p.left
  operator : q.operator = p.operator
  right : p.isSubplan = false → q.right = p.right

namespace Predicate.SameCondition

variable {p q : Predicate}

theorem refl (p : Predicate) : p.SameCondition p := ⟨rfl, rfl, rfl, fun _ => rfl⟩

theorem isSubplan_eq (h : p.SameCondition q) : q.isSubplan = p.isSubplan := by
  rw [isSubplan, isSubplan, h.kind]

/-- A join of tables is the same as itself only. -/
theorem eq_of_table (h : p.SameCondition q) (hKind : p.isSubplan = false) : q = p := by
  obtain ⟨kind, left, operator, right⟩ := p
  obtain ⟨kind', left', operator', right'⟩ := q
  obtain rfl : kind' = kind := h.kind
  obtain rfl : left' = left := h.left
  obtain rfl : operator' = operator := h.operator
  obtain rfl : right' = right := h.right hKind
  rfl

theorem tables_eq (h : p.SameCondition q) : q.tables = p.tables := by
  cases hKind : p.isSubplan with
  | false => rw [h.eq_of_table hKind]
  | true =>
    have hSubplan : p.kind = .subplan := eq_of_beq hKind
    rw [tables, tables, h.kind, hSubplan, h.left]

end Predicate.SameCondition

/-- A plan with other joins in its order. -/
def Plan.renamed (other : Predicate → Predicate) (plan : Plan) : Plan :=
  { plan with order := plan.order.map other }

/-- An oriented join with another join. -/
def Oriented.renamed (other : Predicate → Predicate) (o : Oriented) : Oriented :=
  { o with join := other o.join }

theorem orderOf_renamed (other : Predicate → Predicate) (previous : Option Plan) :
    orderOf (previous.map (Plan.renamed other)) = (orderOf previous).map other := by
  cases previous <;> rfl

section Renaming

variable {s s' : Setting} {joins : List Predicate} {other : Predicate → Predicate}
  {plans : PlanTable} {previous previous' : Option Plan} {p q : Predicate} {l r : JoinInput}
  {o : Oriented}

/-- The side of a subquery is no input. -/
theorem inputs?_of_sameCondition (h : p.SameCondition q) :
    s.inputs? previous q = s.inputs? previous p := by
  cases hKind : p.isSubplan with
  | false => rw [h.eq_of_table hKind]
  | true => simp only [inputs?, innerInput, h.left, h.isSubplan_eq, hKind, if_true,
      Bool.not_true, Bool.false_and, Bool.false_eq_true, if_false]

theorem orient_map (hSame : ∀ p : Predicate, p.SameCondition (other p)) (p : Predicate)
    (l r : JoinInput) : orient (other p) l r = Oriented.renamed other <$> orient p l r := by
  cases hKind : p.isSubplan with
  | false =>
    rw [(hSame p).eq_of_table hKind]
    cases hOrient : orient p l r with
    | error e => rfl
    | ok o =>
      have hJoin : o.join.isSubplan = false :=
        (sameJoin_of_orient hOrient).isSubplan_eq.trans hKind
      show _ = Except.ok (o.renamed other)
      rw [Oriented.renamed, (hSame o.join).eq_of_table hJoin]
  | true =>
    have hGiven : asGiven (other p) l r = Oriented.renamed other <$> asGiven p l r := by
      rw [asGiven, asGiven, joinCost, joinCost, (hSame p).isSubplan_eq, map_bind]
      rfl
    rw [orient, orient, hGiven, (hSame p).isSubplan_eq, hKind]
    cases asGiven p l r <;> rfl

/-- The other join extends a plan that looks alike as the join does. -/
theorem candidate_renamed (hReadings : SameReadings s s')
    (hSame : ∀ p : Predicate, p.SameCondition (other p))
    (hAlike : LooksAlike s s' previous previous') (h : s.Candidate previous p o) :
    s'.Candidate previous' (other p) (o.renamed other) := by
  obtain ⟨l, r, hInputs, hOrient⟩ := hReadings.candidate_of_looksAlike hAlike h
  refine ⟨l, r, inputs?_eq_some_iff.mp ?_, ?_⟩
  · rw [inputs?_of_sameCondition (hSame p), inputs?_eq_some_iff.mpr hInputs]
  · rw [orient_map hSame, hOrient]
    rfl

/-- A join with a subplan keeps the tuples of its table, whatever the subquery is. -/
theorem cardinalityOf_renamed (hReadings : SameReadings s s')
    (hSame : ∀ p : Predicate, p.SameCondition (other p)) (o : Oriented) :
    s'.cardinalityOf (o.renamed other) = s.cardinalityOf o := by
  rw [hReadings.cardinalityOf_eq]
  cases hKind : o.join.isSubplan with
  | false => rw [Oriented.renamed, (hSame o.join).eq_of_table hKind]
  | true =>
    have hKind' : (o.renamed other).join.isSubplan = true :=
      (hSame o.join).isSubplan_eq.trans hKind
    rw [cardinalityOf, cardinalityOf, Setting.joinCardinality, Setting.joinCardinality,
      if_pos hKind, if_pos hKind']
    rfl

/-- Joins that are the same conditions follow each other, if the sides of their subqueries have
a key or not alike. -/
theorem follows_of_sameCondition (hReadings : SameReadings s s')
    (hSame : ∀ p : Predicate, p.SameCondition (other p))
    (hInjective : ∀ p ∈ joins, ∀ q ∈ joins, other p = other q → p = q)
    (hSides : ∀ p ∈ joins, p.isSubplan = false →
      (∃ key, s.isKey p.left = .ok key) ∧ ∃ key, s.isKey p.right = .ok key)
    (hRight : ∀ p ∈ joins, s.isKey (other p).right = s.isKey p.right) :
    Follows s s' joins other plans := by
  refine ⟨hInjective, fun p _ table => by rw [(hSame p).tables_eq], ?_, ?_⟩
  · intro p hp q q' hq hq'
    have hOriented : ∀ {a b : Predicate}, a.SameJoin b → (b.isSubplan = false → b = p) →
        s.hasKey [a] = s.hasKey [b] := fun hab hb =>
      hasKey_eq_of_sameJoins (.cons hab .nil) fun c hc hKind => by
        rw [List.mem_singleton.mp hc] at hKind ⊢
        obtain rfl := hb hKind
        exact hSides _ hp hKind
    have hOther : s.hasKey [other p] = s.hasKey [p] := by
      simp only [hasKey, (hSame p).left, hRight p hp]
    rw [hReadings.hasKey_eq, hOriented hq fun _ => rfl, ← hOther]
    refine hOriented hq' fun hKind => (hSame p).eq_of_table ?_
    rw [← (hSame p).isSubplan_eq, hKind]
  · intro _ _ p _ previous previous' o hLast hAlike _
    exact ⟨o.renamed other, candidate_renamed hReadings hSame hAlike hLast.next, rfl,
      cardinalityOf_renamed hReadings hSame o⟩

end Renaming

-- ---------------------------------------------------------------------------
-- Searches without ties
-- ---------------------------------------------------------------------------

section Untied

variable {s s' : Setting} {visit visit' : Visit} {joins joins' members members' : List Predicate}
  {other : Predicate → Predicate} {plans plans' : PlanTable} {size' : Nat}
  {known' : JoinSet → Option Plan}

/-- If there is one cheapest join of a set and its rest has the same plan, so has the set. -/
theorem Corresponds.eq_renamed (h : Corresponds s s' joins other plans known' members members')
    (hReference : Reference s visit joins plans) (hFollows : Follows s s' joins other plans)
    (hReadings : SameReadings s s') (hSame : ∀ p : Predicate, p.SameCondition (other p))
    (hVisit' : ∀ l, (visit' l).Perm l) (hUntied : s.Untied plans.get? ⟨members⟩)
    (hRest : ∀ p ∈ members, members.erase p ≠ [] → known' ⟨members'.erase (other p)⟩ =
      (plans.get? ⟨members.erase p⟩).map (Plan.renamed other))
    {best' : Option Plan} (hBest : s'.bestPlan visit' known' ⟨members'⟩ = .ok best') :
    best' = (plans.get? ⟨members⟩).map (Plan.renamed other) := by
  have hFirst := hReference.cheapestOf h.within
  have hSecond := cheapestOf_of_bestPlan h.nodup hVisit' (h.comparable hReference hFollows) hBest
  have hAgree := h.agree hReference hFollows hVisit' hBest
  cases hKept : plans.get? ⟨members⟩ with
  | none =>
    rw [hKept] at hAgree
    cases hAgree
    rfl
  | some plan =>
    rw [hKept] at hAgree hFirst
    cases hAgree with
    | @some _ plan' hBoth =>
      obtain ⟨p, previous, o, hCheapest, hComplete, -⟩ :=
        hFirst.exists_cheapest hReference.visits
      obtain ⟨p', previous', o', hCheapest', hComplete', -⟩ := hSecond.exists_cheapest hVisit'
      obtain ⟨q, before, last, rfl, hOther, -⟩ := h.exists_cheapest hReference hFollows hCheapest'
      obtain rfl := hUntied _ _ _ _ _ _ hCheapest hOther
      -- the plan that is extended is the same, so the last join is
      have hPrevious : previous' = previous.map (Plan.renamed other) ∧
          LooksAlike s s' previous previous' := by
        rcases h.previous_cases hReference hCheapest.mem with ⟨-, hNone, hNone'⟩ | ⟨hNone, -⟩ |
          ⟨kept, kept', hKept, hKept', hRests, hPlan, hPlan'⟩
        · obtain rfl := Option.some.inj (hNone.symm.trans hCheapest.last.rest)
          obtain rfl := Option.some.inj (hNone'.symm.trans hCheapest'.last.rest)
          exact ⟨rfl, .start⟩
        · cases hNone.symm.trans hCheapest.last.rest
        · obtain rfl := Option.some.inj (hKept.symm.trans hCheapest.last.rest)
          obtain rfl := Option.some.inj (hKept'.symm.trans hCheapest'.last.rest)
          refine ⟨?_, hFollows.looksAlike (fun r hr => h.mem_joins (List.mem_of_mem_erase hr))
            (h.erase_perm hCheapest.mem) hPlan.executes hPlan'.executes hRests⟩
          rw [previousOf?_eq (h.within.nodup hReference.nodup)] at hKept
          rw [previousOf?_eq h.nodup] at hKept'
          split at hKept
          · cases hKept
          · rename_i hNe
            rw [if_neg (mt (h.erase_eq_nil_iff hCheapest.mem).mp hNe),
              hRest _ hCheapest.mem hNe] at hKept'
            obtain ⟨_, hGet, hEq⟩ := Option.map_eq_some_iff.mp hKept
            rw [hGet, Option.some.inj hEq] at hKept'
            exact (Option.some.inj hKept').symm
      obtain ⟨rfl, hAlike⟩ := hPrevious
      have hJoin : o' = o.renamed other := hCheapest'.last.next.unique
        (candidate_renamed hReadings hSame hAlike hCheapest.last.next)
      obtain ⟨card, -, rfl⟩ := complete_eq_ok_iff.mp hComplete
      obtain ⟨card', -, rfl⟩ := complete_eq_ok_iff.mp hComplete'
      obtain rfl : card' = card := hBoth.cardinality
      rw [hJoin, orderOf_renamed, Option.map_some, Plan.renamed, List.map_append]
      rfl

/-- Without ties the second search keeps the plans of the first one, with its own joins. -/
theorem Searched.get?_eq_renamed (h' : Searched s' visit' joins' size' plans')
    (hReference : Reference s visit joins plans) (hFollows : Follows s s' joins other plans)
    (hReadings : SameReadings s s') (hSame : ∀ p : Predicate, p.SameCondition (other p))
    (hNodup' : joins'.Nodup) (hVisit' : ∀ l, (visit' l).Perm l)
    (hUntied : ∀ members, Within joins joins.length members → s.Untied plans.get? ⟨members⟩)
    (hWithin : Within joins joins.length members) (hWithin' : Within joins' size' members')
    (hPerm : members'.Perm (members.map other)) :
    plans'.get? ⟨members'⟩ = (plans.get? ⟨members⟩).map (Plan.renamed other) := by
  induction hLength : members'.length generalizing members members' with
  | zero => exact absurd (List.length_eq_zero_iff.mp hLength) hWithin'.nonempty
  | succ length ih =>
    have hCorresponds := h'.corresponds hNodup' hVisit'
      (h'.agree hReference hFollows hNodup' hVisit') (Nat.le_refl size') hWithin
      (hWithin'.mono (Nat.le_succ size')) hPerm
    refine hCorresponds.eq_renamed hReference hFollows hReadings hSame hVisit'
      (hUntied members hWithin) (fun p hp hRest => ?_) (h'.cell members' hWithin')
    have hMem := hCorresponds.other_mem hp
    have hErase := List.length_erase_of_mem hMem
    refine ih ((hWithin.mono (Nat.le_succ _)).erase hp hRest)
      ((hWithin'.mono (Nat.le_succ _)).erase hMem
        (mt (hCorresponds.erase_eq_nil_iff hp).mp hRest)) (hCorresponds.erase_perm hp) ?_
    omega

end Untied

end JoinPlanner
