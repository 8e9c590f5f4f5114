import JoinPlanner.Proofs.Meaning
import JoinPlanner.Proofs.Planner.LeftDeepPlans
import Mathlib.Data.String.Basic

/-!
# JoinPlanner — what the returned order means

The returned order stands for the same query as the predicates that were given, whatever
values the columns have. Leaving out repeated predicates and exchanging sides keep the
meaning of every operator but pattern matching. That is exchanged like a symmetric operator,
so that the text and the pattern change places.

* `order_not_equivalent` — a query that the exchange of a pattern match changes.
* `order_holds_iff`      — the order means the same, if each predicate is executed as given or
  is reversible.
-/

namespace JoinPlanner

open Outcome

-- ---------------------------------------------------------------------------
-- A sample with a pattern
-- ---------------------------------------------------------------------------

/-- Three texts and one pattern. -/
def patternCatalog : Catalog :=
  [("N", ["abc", "abd", "xyz"]), ("P", ["ab%"])].foldl (fun catalog (name, texts) =>
    (catalog.register name ⟨[⟨"text", .string⟩]⟩ "" (texts.map fun t => [.text t])).1)
    (Catalog.empty 4096)

/-- The statistics of the texts and the pattern. -/
def patternStats : Snapshot := (takeAll patternCatalog {} false 0).outcome.toOption.getD []

/-- A text that has to match the pattern. -/
def patternJoin : Predicate :=
  ⟨.table, ⟨some "N", some "text"⟩, .like, ⟨some "P", some "text"⟩⟩

/-- One of the texts with the pattern that it matches. -/
def patternMatch : Interpretation String where
  value side := if side.table = some "N" then "abc" else "ab%"
  matching text pattern := text = "abc" ∧ pattern = "ab%"
  subplan _ := True

namespace Planner

/-- The pattern is read first, which is cheaper, and then it has to match the text. -/
theorem order_not_equivalent :
    ∃ found,
      ((samplePlanner [patternJoin]).order List.reverse patternCatalog patternStats none
        false).2.outcome = .ok found ∧
      (∀ p ∈ [patternJoin], patternMatch.Holds p) ∧ ¬ ∀ q ∈ found, patternMatch.Holds q := by
  have hOrder : ((samplePlanner [patternJoin]).order List.reverse patternCatalog patternStats none
      false).2.outcome.toOption = some [patternJoin.flipped] := by decide +kernel
  refine ⟨[patternJoin.flipped], eq_ok_of_toOption hOrder, fun p hp => ?_, fun h => ?_⟩
  · obtain rfl := List.mem_singleton.mp hp
    exact ⟨rfl, rfl⟩
  · have hMatch : "ab%" = "abc" ∧ "abc" = "ab%" := h _ (List.mem_singleton_self _)
    exact absurd hMatch.1 (by decide)

-- ---------------------------------------------------------------------------
-- All queries
-- ---------------------------------------------------------------------------

universe u

/--
All predicates of the query hold if and only if all predicates of the returned order do,
provided that every pattern match is executed as given or matches both ways.
-/
theorem order_holds_iff {planner : Planner} {predicates : List Predicate} {visit : Visit}
    {catalog : Catalog} {stats : Snapshot} {selectivities : Option Selectivities}
    {explained : Bool} {found : List Predicate} (hFor : planner.IsFor predicates)
    (hVisit : ∀ l, (visit l).Perm l)
    (hOrder : (planner.order visit catalog stats selectivities explained).2.outcome = .ok found)
    {V : Type u} [LinearOrder V] (i : Interpretation V)
    (hKept : ∀ p ∈ predicates, p ∈ found ∨ i.Reversible p) :
    (∀ p ∈ predicates, i.Holds p) ↔ ∀ q ∈ found, i.Holds q :=
  Interpretation.holds_of_executes hFor.collects (executes_of_order hFor hVisit hOrder) hKept

/-- An inequality, the same one with its sides exchanged, and a pattern match. -/
def comparedJoins : List Predicate :=
  [⟨.table, ⟨some "C", some "id"⟩, .less, ⟨some "A", some "id"⟩⟩,
    ⟨.table, ⟨some "A", some "id"⟩, .greater, ⟨some "C", some "id"⟩⟩,
    ⟨.table, ⟨some "A", some "v"⟩, .like, ⟨some "D", some "v"⟩⟩]

/-- The statement at a query that loses its first predicate to the second one. -/
theorem order_holds_iff_compared :
    ∃ found,
      ((samplePlanner comparedJoins).order List.reverse sampleCatalog sampleStats none
        true).2.outcome = .ok found ∧ found = comparedJoins.tail ∧
      ∀ i : Interpretation Nat, (∀ p ∈ comparedJoins, i.Holds p) ↔ ∀ q ∈ found, i.Holds q := by
  have hOrder : ((samplePlanner comparedJoins).order List.reverse sampleCatalog sampleStats none
      true).2.outcome.toOption = some comparedJoins.tail := by decide +kernel
  refine ⟨comparedJoins.tail, eq_ok_of_toOption hOrder, rfl, fun i => ?_⟩
  refine order_holds_iff (isFor_samplePlanner comparedJoins) (fun l => l.reverse_perm)
    (eq_ok_of_toOption hOrder) i fun p hp => ?_
  rcases List.mem_cons.mp hp with rfl | hTail
  · exact Or.inr fun _ hLike => by cases hLike
  · exact Or.inl hTail

end Planner

end JoinPlanner
