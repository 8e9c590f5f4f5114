import JoinPlanner.Catalog.Basic
import JoinPlanner.Proofs.Number.WholeDoubles
import JoinPlanner.Proofs.Outcome
import Mathlib.Order.Lattice.Nat

/-!
# JoinPlanner — heap pages

A page holds tuples of one size and a header with a bit for each of them. How many tuples fit is
a quotient of bits. How many pages they need is a quotient too, which is rounded to a double
before it is rounded up; and for less than `2 ^ 53` rows nothing is lost: a quotient that is no
integer exceeds the integer below it by more than half of the distance between two doubles.

* `Schema.FitOnPage`       — some tuples and their header are no larger than a page.
* `le_slotsPerPage_iff`    — the quotient of bits is the largest number of tuples that fit.
* `lt_nearestUnits_whole`  — a quotient is not rounded down to the integer below it.
* `pagesFor_of_isLeast`    — the computed number of pages is the least one that is enough.
* `FillsPages`, `fillsPages_of_table` — the statement about all tables and page sizes.
-/

namespace JoinPlanner

-- ---------------------------------------------------------------------------
-- Pages
-- ---------------------------------------------------------------------------

/-- The bytes of some tuples on a page, with a header of one bit for each in whole bytes. -/
def Schema.pageBytes (schema : Schema) (tuples : Nat) : Nat :=
  tuples * schema.tupleBytes + (tuples + 7) / 8

/-- The tuples and their header are no larger than the page. -/
def Schema.FitOnPage (schema : Schema) (pageSize : Int) (tuples : Nat) : Prop :=
  schema.pageBytes tuples ≤ pageSize

instance (schema : Schema) (pageSize : Int) (tuples : Nat) :
    Decidable (schema.FitOnPage pageSize tuples) :=
  inferInstanceAs (Decidable ((schema.pageBytes tuples : Int) ≤ pageSize))

variable {schema : Schema} {pageSize : Int}

/-- The header may be rounded up to bytes or not: the page is as large as whole bytes anyway. -/
theorem Schema.fitOnPage_iff {tuples : Nat} : schema.FitOnPage pageSize tuples ↔
    (tuples : Int) * (schema.tupleBytes * 8 + 1) ≤ pageSize * 8 := by
  have hBits : (tuples : Int) * (schema.tupleBytes * 8 + 1) =
      (tuples * schema.tupleBytes : Nat) * 8 + tuples := by
    push_cast
    ring
  rw [FitOnPage, pageBytes, hBits]
  generalize tuples * schema.tupleBytes = bytes
  omega

/-- Even a tuple without columns takes a bit. -/
theorem Schema.FitOnPage.le_bits {tuples : Nat} (h : schema.FitOnPage pageSize tuples) :
    (tuples : Int) ≤ pageSize * 8 := by
  rw [fitOnPage_iff] at h
  refine (le_mul_of_one_le_right (Int.natCast_nonneg tuples) ?_).trans h
  omega

/-- Exactly as many tuples fit as the quotient of bits says, or less. -/
theorem le_slotsPerPage_iff {tuples : Nat} :
    (tuples : Int) ≤ slotsPerPage schema pageSize ↔ schema.FitOnPage pageSize tuples := by
  rw [slotsPerPage, Int.fdiv_eq_ediv_of_nonneg _ (by omega), Int.le_ediv_iff_mul_le (by omega),
    Schema.fitOnPage_iff]

-- ---------------------------------------------------------------------------
-- Quotients that are rounded up
-- ---------------------------------------------------------------------------

/-- Above the middle between two integers a quotient is rounded up. -/
theorem lt_roundHalfEven {n num den : Nat} (hDen : 0 < den) (h : (2 * n + 1) * den < 2 * num) :
    n < roundHalfEven num den := by
  have hMul : (2 * n + 1) * den = 2 * (n * den) + den := by ring
  have hLe : n ≤ num / den := (Nat.le_div_iff_mul_le hDen).mpr (by omega)
  rcases Nat.eq_or_lt_of_le hLe with hSame | hLess
  · have hRest := Nat.div_add_mod num den
    rw [← hSame, Nat.mul_comm] at hRest
    have hUp : roundHalfEven num den ≠ num / den := by
      rw [Ne, roundHalfEven_eq_div_iff]
      omega
    have hLow := le_roundHalfEven num den
    omega
  · exact Nat.lt_of_lt_of_le hLess (le_roundHalfEven num den)

namespace Binary64

theorem two_pow_le_unitsPerOne : 2 ^ 56 ≤ unitsPerOne := by
  have hPow : ∀ k, 56 ≤ k → 2 ^ 56 ≤ Nat.pow 2 k :=
    fun k hk => Nat.pow_le_pow_right Nat.two_pos hk
  unfold unitsPerOne
  exact hPow 1074 (by omega)

/-- A power of two divides one if it is no larger. -/
theorem two_pow_dvd_unitsPerOne {bits : Nat} (h : 2 ^ bits < 2 * unitsPerOne) :
    2 ^ bits ∣ unitsPerOne := by
  have hPow : ∀ k, 2 ^ bits < 2 * Nat.pow 2 k → 2 ^ bits ∣ Nat.pow 2 k := by
    intro k hLess
    have hLess : 2 ^ bits < 2 * 2 ^ k := hLess
    rw [← Nat.pow_succ', Nat.pow_lt_pow_iff_right Nat.one_lt_two] at hLess
    exact Nat.pow_dvd_pow 2 (Nat.le_of_lt_succ hLess)
  unfold unitsPerOne at *
  exact hPow 1074 h

variable {m n k : Nat}

/-- What does not fit of a quotient of a small integer is less than two parts of one. -/
theorem mul_two_pow_spareBits_lt (hm : m < wholeLimit) (hn : 0 < n) (hFew : n ≤ unitsPerOne) :
    n * 2 ^ spareBits (m * unitsPerOne / n) < 2 * unitsPerOne := by
  have hPos := unitsPerOne_pos
  rcases Nat.eq_zero_or_pos (spareBits (m * unitsPerOne / n)) with hNone | hSome
  · rw [hNone]
    omega
  · have hLow := (Nat.le_div_iff_mul_le hn).mp (two_pow_le_of_spareBits hSome)
    generalize spareBits (m * unitsPerOne / n) = spare at hLow ⊢
    refine Nat.lt_of_mul_lt_mul_left (a := 2 ^ 52) ?_
    calc 2 ^ 52 * (n * 2 ^ spare) = 2 ^ (52 + spare) * n := by rw [Nat.pow_add]; ring
      _ ≤ m * unitsPerOne := hLow
      _ < 2 ^ 53 * unitsPerOne := Nat.mul_lt_mul_of_pos_right hm hPos
      _ = 2 ^ 52 * (2 * unitsPerOne) := by ring

/-- A quotient that is larger than an integer stays so when it is rounded. -/
theorem lt_nearestUnits_whole (hm : m < wholeLimit) (hn : 0 < n) (hFew : n ≤ unitsPerOne)
    (h : k * n < m) : k * unitsPerOne < nearestUnits (m * unitsPerOne) n := by
  have hSpare := mul_two_pow_spareBits_lt hm hn hFew
  rw [nearestUnits_eq]
  generalize spareBits (m * unitsPerOne / n) = spare at hSpare ⊢
  -- the integer has no bits that do not fit
  have hFits : 2 ^ spare ∣ unitsPerOne :=
    two_pow_dvd_unitsPerOne ((Nat.le_mul_of_pos_left _ hn).trans_lt hSpare)
  obtain ⟨parts, hParts⟩ := hFits
  have hStep : k * unitsPerOne = k * parts * 2 ^ spare := by rw [hParts]; ring
  rw [hStep]
  refine Nat.mul_lt_mul_of_pos_right (lt_roundHalfEven (by positivity) ?_) (Nat.two_pow_pos spare)
  calc (2 * (k * parts) + 1) * (n * 2 ^ spare)
      = 2 * (k * n * unitsPerOne) + n * 2 ^ spare := by rw [hParts]; ring
    _ < 2 * (k * n * unitsPerOne) + 2 * unitsPerOne := Nat.add_lt_add_left hSpare _
    _ = 2 * ((k * n + 1) * unitsPerOne) := by ring
    _ ≤ 2 * (m * unitsPerOne) := Nat.mul_le_mul_left 2 (Nat.mul_le_mul_right _ h)

/-- A double is rounded up to an integer that is not exceeded, if all smaller ones are. -/
theorem ceil_of_nonneg {units p : Nat} (hHigh : units ≤ p * unitsPerOne)
    (hLow : ∀ k, k < p → k * unitsPerOne < units) : ceil (finite false units) = .ok p := by
  have hPos : (0 : Int) < unitsPerOne := Int.natCast_pos.mpr unitsPerOne_pos
  have hFloor : Int.fdiv (signedUnits true units) unitsPerOne = -(p : Int) := by
    rw [signedUnits_true, Int.fdiv_eq_ediv_of_nonneg _ hPos.le]
    refine Int.le_antisymm (Int.le_of_lt_add_one ?_) ?_
    · rw [Int.ediv_lt_iff_lt_mul hPos]
      rcases Nat.eq_zero_or_pos p with rfl | hSome
      · omega
      · have hLess := hLow (p - 1) (by omega)
        zify [hSome] at hLess
        linarith
    · rw [Int.le_ediv_iff_mul_le hPos, Int.neg_mul]
      zify at hHigh
      linarith
  show Except.map (-·) (.ok (Int.fdiv (signedUnits true units) unitsPerOne)) = .ok (p : Int)
  rw [hFloor]
  exact congrArg Except.ok (Int.neg_neg _)

/-- The quotient of a small integer by another one. -/
theorem quotient_whole (hm : m ≤ wholeLimit) (hn : 0 < n) :
    Binary64.quotient m n = .ok (finite false (nearestUnits (m * unitsPerOne) n)) := by
  have hLe : nearestUnits (m * unitsPerOne) n ≤ m * unitsPerOne :=
    nearestUnits_le_of_exact hn (exact_whole hm) (Nat.le_mul_of_pos_right _ hn)
  have hFits := Nat.lt_of_le_of_lt hLe (whole_lt_overflowUnits hm)
  rw [Binary64.quotient, finiteOr_ofQuotient, Int.natAbs_natCast, Int.natAbs_natCast, if_pos hFits,
    decide_eq_false (by omega), decide_eq_false (by omega), Bool.xor_self]

end Binary64

open Binary64 Outcome

/-- The computed number of pages is the least one that is enough. -/
theorem pagesFor_of_isLeast {rows perPage p : Nat} (hRows : rows < wholeLimit)
    (hPerPage : 0 < perPage) (hFew : perPage ≤ unitsPerOne)
    (hLeast : IsLeast {p | rows ≤ p * perPage} p) : Catalog.pagesFor rows perPage = .ok p := by
  obtain ⟨hEnough, hLower⟩ := hLeast
  have hEnough : rows ≤ p * perPage := hEnough
  have hSmall : p ≤ rows := hLower (Nat.le_mul_of_pos_right rows hPerPage)
  refine bind_eq_ok.mpr ⟨_, quotient_whole hRows.le hPerPage, ceil_of_nonneg ?_ fun k hk => ?_⟩
  · refine nearestUnits_le_of_exact hPerPage (exact_whole (hSmall.trans hRows.le)) ?_
    calc rows * unitsPerOne ≤ p * perPage * unitsPerOne := Nat.mul_le_mul_right _ hEnough
      _ = p * unitsPerOne * perPage := Nat.mul_right_comm _ _ _
  · refine lt_nearestUnits_whole hRows hPerPage hFew (not_le.mp fun hLe => ?_)
    exact Nat.not_le.mpr hk (hLower hLe)

theorem exists_isLeast_pagesFor {rows perPage : Nat} (hRows : rows < wholeLimit)
    (hPerPage : 0 < perPage) (hFew : perPage ≤ unitsPerOne) :
    ∃ p : Nat, Catalog.pagesFor rows perPage = .ok p ∧ IsLeast {p | rows ≤ p * perPage} p := by
  have hEnough : {p | rows ≤ p * perPage}.Nonempty := ⟨rows, Nat.le_mul_of_pos_right _ hPerPage⟩
  have hLeast : IsLeast {p | rows ≤ p * perPage} (sInf {p | rows ≤ p * perPage}) :=
    ⟨Nat.sInf_mem hEnough, fun _ => Nat.sInf_le⟩
  exact ⟨_, pagesFor_of_isLeast hRows hPerPage hFew hLeast, hLeast⟩

/-- A page that holds no tuple is refused; otherwise the pages are counted. -/
theorem Catalog.pagesFilled_eq {catalog : Catalog} {id : Int} {t : Table} {perPage : Nat}
    (hTable : catalog.table id = .ok t)
    (hSlots : slotsPerPage t.schema catalog.pageSize = perPage) :
    catalog.pagesFilled id =
      if perPage = 0 then .error (.tupleTooLarge t.name catalog.pageSize)
      else ofNumber (pagesFor t.rows.length perPage) := by
  rw [pagesFilled, hTable]
  show (if slotsPerPage t.schema catalog.pageSize = 0 then _ else liftM (pagesFor _ _)) = _
  rw [hSlots, liftM_number]
  by_cases hNone : perPage = 0
  · rw [if_pos hNone, if_pos (Int.natCast_eq_zero.mpr hNone)]
    rfl
  · rw [if_neg hNone, if_neg (mt Int.natCast_eq_zero.mp hNone)]

-- ---------------------------------------------------------------------------
-- The statement
-- ---------------------------------------------------------------------------

/-- How many tuples of a table a page holds, and how many pages the table fills. -/
structure FillsPages (catalog : Catalog) (id : Int) (t : Table) (perPage : Nat) : Prop where
  slots : slotsPerPage t.schema catalog.pageSize = perPage
  fit : t.schema.FitOnPage catalog.pageSize perPage
  full : ¬ t.schema.FitOnPage catalog.pageSize (perPage + 1)
  /-- The number of pages is refused exactly for tuples that are too large. -/
  refused : (∃ message, (catalog.pagesFilled id).told? = some (.invalidValue, message)) ↔
    ¬ t.schema.FitOnPage catalog.pageSize 1
  pages : t.schema.FitOnPage catalog.pageSize 1 →
    ∃ p : Nat, catalog.pagesFilled id = .ok p ∧ IsLeast {p | t.rows.length ≤ p * perPage} p
  empty : t.schema.FitOnPage catalog.pageSize 1 → t.rows = [] → catalog.pagesFilled id = .ok 0

/-- The pages of a table are counted as they are filled, for pages of up to `2 ^ 53` bytes and
less than `2 ^ 53` rows. -/
theorem fillsPages_of_table {catalog : Catalog} {id : Int} {t : Table}
    (hTable : catalog.table id = .ok t) (hSize : 1 ≤ catalog.pageSize)
    (hLargest : catalog.pageSize ≤ wholeLimit) (hRows : t.rows.length < wholeLimit) :
    ∃ perPage, FillsPages catalog id t perPage := by
  have hNone : t.schema.FitOnPage catalog.pageSize 0 := by
    rw [Schema.fitOnPage_iff]
    omega
  obtain ⟨perPage, hSlots⟩ := Int.eq_ofNat_of_zero_le (le_slotsPerPage_iff.mpr hNone)
  have hFit : ∀ tuples : Nat, t.schema.FitOnPage catalog.pageSize tuples ↔ tuples ≤ perPage := by
    intro tuples
    rw [← le_slotsPerPage_iff, hSlots, Int.ofNat_le]
  have hFew : perPage ≤ unitsPerOne := by
    have hBits := ((hFit perPage).mpr le_rfl).le_bits
    refine Nat.le_trans ?_ two_pow_le_unitsPerOne
    rw [wholeLimit] at hLargest
    omega
  have hFilled := Catalog.pagesFilled_eq hTable hSlots
  have hPages : 1 ≤ perPage → ∃ p : Nat, catalog.pagesFilled id = .ok p ∧
      IsLeast {p | t.rows.length ≤ p * perPage} p := by
    intro hOne
    obtain ⟨p, hComputed, hLeast⟩ := exists_isLeast_pagesFor hRows hOne hFew
    refine ⟨p, ?_, hLeast⟩
    rw [hFilled, if_neg (Nat.ne_of_gt hOne), hComputed]
    rfl
  refine ⟨perPage, {
    slots := hSlots
    fit := (hFit perPage).mpr le_rfl
    full := fun hMore => Nat.not_succ_le_self perPage ((hFit _).mp hMore)
    refused := ?_
    pages := fun hOne => hPages ((hFit 1).mp hOne)
    empty := fun hOne hEmpty => ?_ }⟩
  · rw [hFit]
    constructor
    · rintro ⟨message, hTold⟩ hOne
      obtain ⟨p, hOk, -⟩ := hPages hOne
      rw [hOk] at hTold
      cases hTold
    · intro hZero
      rw [hFilled, if_pos (by omega)]
      exact ⟨_, rfl⟩
  · obtain ⟨p, hOk, -, hLower⟩ := hPages ((hFit 1).mp hOne)
    have hZero : p ≤ 0 := hLower (by simp [hEmpty])
    rw [hOk, Nat.le_zero.mp hZero]
    rfl

/-- The statement at pages that two tuples of eight bytes fill to the last byte. -/
theorem fillsPages_of_table_fiveRows :
    let catalog := ((Catalog.empty 17).register "t" ⟨[⟨"a", .integer⟩, ⟨"b", .integer⟩]⟩ ""
      (List.replicate 5 [.int 1, .int 2])).1
    ∃ t, catalog.table 0 = .ok t ∧ t.rows.length = 5 ∧ FillsPages catalog 0 t 2 ∧
      catalog.pagesFilled 0 = .ok 3 := by
  intro catalog
  have hFive : (5 : Nat) < wholeLimit := by decide
  have hTable : catalog.table 0 = .ok _ := rfl
  obtain ⟨perPage, hPages⟩ := fillsPages_of_table hTable (by decide) (by decide) hFive
  obtain rfl : perPage = 2 := (Int.natCast_inj.mp hPages.slots).symm
  obtain ⟨p, hFilled, hEnough, hLower⟩ := hPages.pages (by decide)
  have hThree : p ≤ 3 := hLower (show 5 ≤ 3 * 2 by decide)
  have hEnough : 5 ≤ p * 2 := hEnough
  obtain rfl : p = 3 := by omega
  exact ⟨_, rfl, rfl, hPages, hFilled⟩

end JoinPlanner
