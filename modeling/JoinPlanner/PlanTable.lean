import JoinPlanner.Association
import JoinPlanner.CostModel

/-!
# JoinPlanner — plan tables

The best plan that is known for a set of predicates. Sets are compared without
regard to order and repetition.

* `Plan`      — an order of joins with its cost and cardinality.
* `JoinSet`   — predicates, compared as a set.
* `PlanTable` — plans for sets, in the order in which the sets were added.
* `get?_add`  — storing a plan changes what is known of its set and of no other.
-/

namespace JoinPlanner

/-- A left-deep order of joins, each in its chosen orientation. -/
structure Plan where
  cost : Cost
  cardinality : Cardinality
  order : List Predicate
  deriving DecidableEq, Repr

/-- The plan as a document. -/
def Plan.document (plan : Plan) : Json.Document :=
  .ofFields [
    ("cost", .number plan.cost),
    ("cardinality", .int plan.cardinality),
    ("plan", .list (plan.order.map Predicate.document))]

/-- A set of predicates, listed without repetitions. -/
structure JoinSet where
  members : List Predicate
  deriving Repr

namespace JoinSet

/-- The set of the given predicates. -/
def ofList (joins : List Predicate) : JoinSet := ⟨joins.eraseDups⟩

/-- Sets are equal if each holds all members of the other. -/
instance : BEq JoinSet where
  beq s t := s.members.all t.members.contains && t.members.all s.members.contains

theorem beq_iff {s t : JoinSet} : s == t ↔ ∀ p, p ∈ s.members ↔ p ∈ t.members := by
  change (s.members.all t.members.contains && t.members.all s.members.contains) = true ↔ _
  simp only [Bool.and_eq_true, List.all_eq_true, List.contains_iff_mem]
  exact ⟨fun h p => ⟨h.1 p, h.2 p⟩, fun h => ⟨fun p => (h p).mp, fun p => (h p).mpr⟩⟩

instance : EquivBEq JoinSet where
  rfl := beq_iff.mpr fun _ => Iff.rfl
  symm h := beq_iff.mpr fun p => (beq_iff.mp h p).symm
  trans h h' := beq_iff.mpr fun p => (beq_iff.mp h p).trans (beq_iff.mp h' p)

@[simp] theorem mem_ofList {p : Predicate} {joins : List Predicate} :
    p ∈ (ofList joins).members ↔ p ∈ joins := by
  simp [ofList]

/-- The members as texts, in increasing order. -/
def texts (set : JoinSet) : List String := Text.sorted (set.members.map Predicate.toText)

/-- The set without one predicate. -/
def without (set : JoinSet) (join : Predicate) : JoinSet :=
  ⟨set.members.filter fun p => !(p == join)⟩

@[simp] theorem mem_without {p join : Predicate} {set : JoinSet} :
    p ∈ (set.without join).members ↔ p ∈ set.members ∧ p ≠ join := by
  simp [without]

end JoinSet

/-- Plans for sets of predicates. -/
structure PlanTable where
  entries : Association JoinSet Plan
  deriving Repr

namespace PlanTable

def empty : PlanTable := ⟨[]⟩

/-- Stores the plan of a set, in place of an earlier one. -/
def add (plans : PlanTable) (set : JoinSet) (plan : Plan) : PlanTable :=
  ⟨plans.entries.put set plan⟩

/-- Adds the plans of sets that have none yet. -/
def append (plans : PlanTable) (found : List (JoinSet × Plan)) : PlanTable :=
  ⟨plans.entries ++ found⟩

/-- The plan of a set. -/
def get? (plans : PlanTable) (set : JoinSet) : Option Plan := plans.entries.get? set

/-- Storing a plan changes what is known of its set and of no other. -/
theorem get?_add (plans : PlanTable) (set other : JoinSet) (plan : Plan) :
    (plans.add set plan).get? other = if set == other then some plan else plans.get? other :=
  Association.get?_put _ _ _ _

/-- Plans that are there already stay. -/
theorem get?_append (plans : PlanTable) (found : List (JoinSet × Plan)) (set : JoinSet) :
    (plans.append found).get? set = (plans.get? set).or (Association.get? found set) :=
  Association.get?_append _ _ _

def contains (plans : PlanTable) (set : JoinSet) : Bool := (plans.get? set).isSome

def size (plans : PlanTable) : Nat := plans.entries.length

/-- The sets that have a plan, in the order in which they were added. -/
def sets (plans : PlanTable) : List JoinSet := plans.entries.map Prod.fst

/--
Whether a value that is no set of predicates is in the table. A value without items
stands for the empty set, one with items is no key, and one whose items could not be
members of a set is refused.
-/
def containsValue (plans : PlanTable) : Value → Outcome Bool
  | .list items =>
    match items.findSome? Value.changeable? with
    | some type => .error (.unhashable type)
    | none => .ok (items.isEmpty && plans.contains ⟨[]⟩)
  | .mapping entries => .ok (entries.isEmpty && plans.contains ⟨[]⟩)
  | .text s => .ok (s.isEmpty && plans.contains ⟨[]⟩)
  | _ => .ok false

/-- Whether one listed set comes no later than another: smaller sets come first. -/
def listedBefore (a b : List String × Plan) : Bool :=
  a.1.length < b.1.length || (a.1.length == b.1.length && Text.orderedLists a.1 b.1)

/-- All plans with the texts of their sets, smaller sets first. -/
def listing (plans : PlanTable) : List (List String × Plan) :=
  sortBy listedBefore (plans.entries.map fun (set, plan) => (set.texts, plan))

/-- A short description. -/
def describe (plans : PlanTable) : String := s!"PlanCache(entries={plans.size})"

end PlanTable

end JoinPlanner
