import JoinPlanner.Proofs.Number.Rounding
import JoinPlanner.Search.Levels

/-!
# JoinPlanner — the order of quantities

An integer and a double are compared by their exact values. In units of the smallest
positive double every finite quantity is an integer, so finite quantities are ordered
like integers.

* `Quantity.Finite`  — integers and finite doubles.
* `Quantity.units`   — the exact value.
* `lt_iff_units`, `le_iff_units` — comparisons are those of the values.
* `unbounded_not_le` — every finite cost is below the bound of an empty search.
* `whole_le_iff`     — integers are compared as such.
* `Quantity.Defined` — all quantities but the undefined double. They are ordered by their
  levels, below, within or above the finite ones, and on one level by their values.
* `eq_of_not_lt`     — two of them of which none is less are equal, if both or none are
  integers and none is the negative zero.
-/

namespace JoinPlanner.Quantity

/-- An integer, or a double that is neither infinite nor undefined. -/
def Finite : Quantity → Prop
  | .whole _ => True
  | .real (.finite _ _) => True
  | .real _ => False

/-- The value of a finite quantity in units of the smallest positive double. -/
def units : Quantity → Int
  | .whole n => n * Binary64.unitsPerOne
  | .real (.finite negative units) => Binary64.signedUnits negative units
  | .real _ => 0

instance (q : Quantity) : Decidable q.Finite :=
  match q with
  | .whole _ => inferInstanceAs (Decidable True)
  | .real (.finite _ _) => inferInstanceAs (Decidable True)
  | .real .nan => inferInstanceAs (Decidable False)
  | .real (.infinite _) => inferInstanceAs (Decidable False)

@[simp] theorem finite_whole (n : Int) : Finite (.whole n) := trivial

theorem finite_of_whole {q : Quantity} (h : ∃ n, q = .whole n) : q.Finite := by
  obtain ⟨n, rfl⟩ := h
  exact finite_whole n

theorem unitsPerOne_pos : 0 < (Binary64.unitsPerOne : Int) :=
  Int.natCast_pos.mpr Binary64.unitsPerOne_pos

/-- A positive factor changes no comparison. -/
theorem compare_mul_pos {m n k : Int} (hk : 0 < k) :
    compare (m * k) (n * k) = compare m n := by
  rcases Int.lt_trichotomy m n with h | rfl | h
  · rw [Int.compare_eq_lt.mpr h, Int.compare_eq_lt]
    exact Int.mul_lt_mul_of_pos_right h hk
  · rw [Int.compare_eq_eq.mpr (Eq.refl (m * k)), Int.compare_eq_eq.mpr (Eq.refl m)]
  · rw [Int.compare_eq_gt.mpr h, Int.compare_eq_gt]
    exact Int.mul_lt_mul_of_pos_right h hk

/-- Finite quantities are compared by their values. -/
theorem compare?_eq_units {x y : Quantity} (hx : x.Finite) (hy : y.Finite) :
    Number.compare? x y = some (compare x.units y.units) := by
  match x, y with
  | .whole m, .whole n => exact congrArg some (compare_mul_pos unitsPerOne_pos).symm
  | .whole m, .real (.finite s k) =>
    exact congrArg some (Int.compare_swap (Binary64.signedUnits s k) (m * Binary64.unitsPerOne))
  | .real (.finite s k), .whole n => rfl
  | .real (.finite s k), .real (.finite t l) => rfl
  | .real .nan, _ => exact hx.elim
  | .real (.infinite s), _ => exact hx.elim
  | .whole m, .real .nan => exact hy.elim
  | .whole m, .real (.infinite s) => exact hy.elim
  | .real (.finite s k), .real .nan => exact hy.elim
  | .real (.finite s k), .real (.infinite t) => exact hy.elim

theorem lt_iff_units {x y : Quantity} (hx : x.Finite) (hy : y.Finite) :
    Number.lt x y = true ↔ x.units < y.units := by
  rw [Number.lt, compare?_eq_units hx hy, beq_iff_eq, Option.some.injEq, Int.compare_eq_lt]

theorem le_iff_units {x y : Quantity} (hx : x.Finite) (hy : y.Finite) :
    Number.le x y = true ↔ x.units ≤ y.units := by
  rw [Number.le, compare?_eq_units hx hy, Bool.or_eq_true, beq_iff_eq, beq_iff_eq,
    Option.some.injEq, Option.some.injEq, Int.compare_eq_lt, Int.compare_eq_eq]
  omega

theorem le_trans {x y z : Quantity} (hx : x.Finite) (hy : y.Finite) (hz : z.Finite)
    (hxy : Number.le x y = true) (hyz : Number.le y z = true) : Number.le x z = true := by
  rw [le_iff_units hx hy] at hxy
  rw [le_iff_units hy hz] at hyz
  rw [le_iff_units hx hz]
  omega

/-- Nothing finite reaches the bound that a search starts with. -/
theorem unbounded_not_le {x : Quantity} (hx : x.Finite) : Number.le unbounded x = false := by
  match x with
  | .whole n => rfl
  | .real (.finite s k) => rfl

/-- The larger of two integers has more units. -/
theorem units_whole_le_iff {m n : Int} : units (.whole m) ≤ units (.whole n) ↔ m ≤ n :=
  Int.mul_le_mul_right unitsPerOne_pos

theorem whole_le_iff {m n : Int} : Number.le (.whole m : Quantity) (.whole n) = true ↔ m ≤ n := by
  rw [le_iff_units (finite_whole m) (finite_whole n), units_whole_le_iff]

theorem whole_lt_iff {m n : Int} : Number.lt (.whole m : Quantity) (.whole n) = true ↔ m < n := by
  rw [lt_iff_units (finite_whole m) (finite_whole n), ← Int.not_le, units_whole_le_iff, Int.not_le]

-- ---------------------------------------------------------------------------
-- Infinite quantities
-- ---------------------------------------------------------------------------

/-- A quantity that can be compared. -/
def Defined (q : Quantity) : Prop := q ≠ .real .nan

instance (q : Quantity) : Decidable q.Defined := inferInstanceAs (Decidable (q ≠ .real .nan))

theorem Finite.defined {q : Quantity} (h : q.Finite) : q.Defined := by
  rintro rfl
  exact h

/-- Whether a quantity is below, among or above the finite ones. -/
def level : Quantity → Int
  | .real (.infinite true) => -1
  | .real (.infinite false) => 1
  | _ => 0

theorem level_of_finite {q : Quantity} (h : q.Finite) : q.level = 0 := by
  match q with
  | .whole n => rfl
  | .real (.finite s k) => rfl

theorem finite_or_infinite {q : Quantity} (h : q.Defined) :
    q.Finite ∨ ∃ negative, q = .real (.infinite negative) := by
  match q with
  | .whole n => exact Or.inl trivial
  | .real (.finite s k) => exact Or.inl trivial
  | .real (.infinite s) => exact Or.inr ⟨s, rfl⟩
  | .real .nan => exact absurd rfl h

/-- What can be compared is ordered by level, and on one level by value. -/
theorem compare?_eq_level {x y : Quantity} (hx : x.Defined) (hy : y.Defined) :
    Number.compare? x y = some (if x.level = y.level then compare x.units y.units
      else compare x.level y.level) := by
  rcases finite_or_infinite hx with hx | ⟨s, rfl⟩ <;>
    rcases finite_or_infinite hy with hy | ⟨t, rfl⟩
  · rw [compare?_eq_units hx hy, level_of_finite hx, level_of_finite hy, if_pos rfl]
  · match x with
    | .whole m => cases t <;> rfl
    | .real (.finite s k) => cases t <;> rfl
  · match y with
    | .whole m => cases s <;> rfl
    | .real (.finite t k) => cases s <;> rfl
  · cases s <;> cases t <;> rfl

theorem lt_iff_level {x y : Quantity} (hx : x.Defined) (hy : y.Defined) :
    Number.lt x y = true ↔ x.level < y.level ∨ (x.level = y.level ∧ x.units < y.units) := by
  rw [Number.lt, compare?_eq_level hx hy, beq_iff_eq, Option.some.injEq]
  split <;> rw [Int.compare_eq_lt] <;> omega

theorem le_iff_level {x y : Quantity} (hx : x.Defined) (hy : y.Defined) :
    Number.le x y = true ↔ x.level < y.level ∨ (x.level = y.level ∧ x.units ≤ y.units) := by
  rw [Number.le, compare?_eq_level hx hy, Bool.or_eq_true, beq_iff_eq, beq_iff_eq,
    Option.some.injEq, Option.some.injEq]
  split <;> rw [Int.compare_eq_lt, Int.compare_eq_eq] <;> omega

/-- The undefined double is not compared with anything. -/
theorem compare?_nan_right (x : Quantity) : Number.compare? x (.real .nan) = none := by
  match x with
  | .whole n => rfl
  | .real .nan => rfl
  | .real (.infinite s) => rfl
  | .real (.finite s k) => rfl

theorem not_lt_nan (x : Quantity) : Number.lt x (.real .nan) = false := by
  rw [Number.lt, compare?_nan_right]
  rfl

theorem nan_not_lt (x : Quantity) : Number.lt (.real .nan) x = false := by
  cases x <;> rfl

theorem defined_of_le {x y : Quantity} (h : Number.le x y = true) : x.Defined ∧ y.Defined := by
  constructor
  · rintro rfl
    cases y <;> cases h
  · rintro rfl
    rw [Number.le, compare?_nan_right] at h
    cases h

theorem not_lt_of_le {x y : Quantity} (h : Number.le x y = true) : Number.lt y x = false := by
  obtain ⟨hx, hy⟩ := defined_of_le h
  rw [Bool.eq_false_iff, ne_eq, lt_iff_level hy hx]
  have hLe := (le_iff_level hx hy).mp h
  omega

theorem lt_irrefl (x : Quantity) : Number.lt x x = false := by
  by_cases hx : x.Defined
  · rw [Bool.eq_false_iff, ne_eq, lt_iff_level hx hx]
    omega
  · rw [Classical.not_not.mp hx]
    rfl

theorem lt_asymm {x y : Quantity} (hx : x.Defined) (hy : y.Defined) (h : Number.lt x y = true) :
    Number.lt y x = false := by
  rw [lt_iff_level hx hy] at h
  rw [Bool.eq_false_iff, ne_eq, lt_iff_level hy hx]
  omega

theorem lt_of_not_le {x y : Quantity} (hx : x.Defined) (hy : y.Defined)
    (h : Number.le x y = false) : Number.lt y x = true := by
  rw [Bool.eq_false_iff, ne_eq, le_iff_level hx hy] at h
  rw [lt_iff_level hy hx]
  omega

/-- What is less than something that is not less than a third is less than that. -/
theorem not_lt_of_lt {x y z : Quantity} (hx : x.Defined) (hy : y.Defined) (hz : z.Defined)
    (hxy : Number.lt x y = false) (hzy : Number.lt z y = true) : Number.lt x z = false := by
  rw [Bool.eq_false_iff, ne_eq, lt_iff_level hx hy] at hxy
  rw [lt_iff_level hz hy] at hzy
  rw [Bool.eq_false_iff, ne_eq, lt_iff_level hx hz]
  omega

/-- Of some quantities that can be compared there is one that none is less than. -/
theorem exists_not_lt {α : Type} {cost : α → Quantity} {items : List α} (hNe : items ≠ [])
    (hDefined : ∀ a ∈ items, (cost a).Defined) :
    ∃ a ∈ items, ∀ b ∈ items, Number.lt (cost b) (cost a) = false := by
  induction items with
  | nil => exact absurd rfl hNe
  | cons x rest ih =>
    obtain ⟨hx, hRest⟩ := List.forall_mem_cons.mp hDefined
    by_cases hNil : rest = []
    · exact ⟨x, List.mem_cons_self, by simp [hNil, lt_irrefl]⟩
    · obtain ⟨a, ha, hLeast⟩ := ih hNil hRest
      cases hLt : Number.lt (cost x) (cost a) with
      | false => exact ⟨a, List.mem_cons_of_mem x ha, List.forall_mem_cons.mpr ⟨hLt, hLeast⟩⟩
      | true =>
        refine ⟨x, List.mem_cons_self, List.forall_mem_cons.mpr ⟨lt_irrefl _, fun b hb => ?_⟩⟩
        exact not_lt_of_lt (hRest b hb) (hRest a ha) hx (hLeast b hb) hLt

/-- Only the bound of an empty search reaches it. -/
theorem eq_unbounded_of_le {x : Quantity} (h : Number.le unbounded x = true) : x = unbounded := by
  match x with
  | .whole n => cases h
  | .real .nan => cases h
  | .real (.infinite false) => rfl
  | .real (.infinite true) => cases h
  | .real (.finite s k) => cases h

theorem unbounded_not_lt (x : Quantity) : Number.lt unbounded x = false := by
  match x with
  | .whole n => rfl
  | .real .nan => rfl
  | .real (.infinite false) => rfl
  | .real (.infinite true) => rfl
  | .real (.finite s k) => rfl

-- ---------------------------------------------------------------------------
-- Equal quantities
-- ---------------------------------------------------------------------------

/-- Whether the quantity is an integer. -/
def isWhole : Quantity → Bool
  | .whole _ => true
  | .real _ => false

/-- The quantity is not the zero that is below the other one in its sign only. -/
def NoNegativeZero (q : Quantity) : Prop := q ≠ .real (.finite true 0)

/-- Doubles of one value are equal, apart from the two zeros. -/
theorem eq_of_signedUnits_eq {s t : Bool} {m n : Nat} (hm : ¬ (s = true ∧ m = 0))
    (hn : ¬ (t = true ∧ n = 0))
    (h : Binary64.signedUnits s m = Binary64.signedUnits t n) : s = t ∧ m = n := by
  cases s <;> cases t <;> simp [Binary64.signedUnits] at h hm hn ⊢ <;> omega

/-- Of two quantities that differ one is less, unless they differ in kind or in the sign of zero. -/
theorem eq_of_not_lt {x y : Quantity} (hx : x.Defined) (hy : y.Defined)
    (hKind : x.isWhole = y.isWhole) (hxZero : x.NoNegativeZero) (hyZero : y.NoNegativeZero)
    (hxy : Number.lt x y = false) (hyx : Number.lt y x = false) : x = y := by
  rw [Bool.eq_false_iff, ne_eq, lt_iff_level hx hy] at hxy
  rw [Bool.eq_false_iff, ne_eq, lt_iff_level hy hx] at hyx
  have hLevel : x.level = y.level := by omega
  have hUnits : x.units = y.units := by omega
  match x, y with
  | .whole m, .whole n =>
    exact congrArg Number.whole (Int.eq_of_mul_eq_mul_right (Int.ne_of_gt unitsPerOne_pos) hUnits)
  | .real (.finite s m), .real (.finite t n) =>
    obtain ⟨rfl, rfl⟩ := eq_of_signedUnits_eq
      (fun ⟨hs, hm⟩ => hxZero (by rw [hs, hm])) (fun ⟨ht, hn⟩ => hyZero (by rw [ht, hn])) hUnits
    rfl
  | .real (.infinite s), .real (.infinite t) => cases s <;> cases t <;> first | rfl | cases hLevel
  | .real (.finite s m), .real (.infinite t) => cases t <;> cases hLevel
  | .real (.infinite s), .real (.finite t n) => cases s <;> cases hLevel
  | .real .nan, _ => exact absurd rfl hx
  | _, .real .nan => exact absurd rfl hy
  | .whole m, .real (.finite t n) => cases hKind
  | .whole m, .real (.infinite t) => cases hKind
  | .real (.finite s m), .whole n => cases hKind
  | .real (.infinite s), .whole n => cases hKind

end JoinPlanner.Quantity
