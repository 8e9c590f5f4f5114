import JoinPlanner.Proofs.Histogram.Buckets

/-!
# JoinPlanner — counting values

A histogram counts the values that are added to it, one by one or several at a time. Whatever
calls have been made, also such that failed: the counts are those of the values that have been
added, and a value that cannot be added changes nothing and ends its call.

* `Addition`, `afterAll`, `addedBy` — calls, the histogram after them, and what they have added.
* `Tally.apply`, `Tally.afterAll` — the counts are kept up with by one call, and by all calls.
* `AddsUpTo`, `addsUpTo` — a call ends with the first value that cannot be added.
* `Tallied`, `tallied_of_create` — the statement about all calls.
-/

namespace JoinPlanner.Histogram

open Outcome

-- ---------------------------------------------------------------------------
-- Calls
-- ---------------------------------------------------------------------------

/-- A call that adds a value, or several of them. -/
inductive Addition where
  | value (v : Int)
  | values (vs : List Int)

/-- The histogram after a call, and how the call ends. -/
def Addition.apply (h : Histogram Binary64) : Addition → Histogram Binary64 × Outcome Unit
  | value v =>
    match h.add v with
    | .ok next => (next, .ok ())
    | .error e => (h, .error e)
  | values vs => h.addAll vs

/-- The bucket of a value, if it has one. -/
def bucketOf? (h : Histogram Binary64) (v : Int) : Option Nat := (h.locate v).toOption

/-- The values that a call adds: those before the first one that has no bucket. -/
def Addition.added (h : Histogram Binary64) : Addition → List Int
  | value v => [v].takeWhile fun v => (h.bucketOf? v).isSome
  | values vs => vs.takeWhile fun v => (h.bucketOf? v).isSome

/-- The histogram after some calls. -/
def afterAll (h : Histogram Binary64) (calls : List Addition) : Histogram Binary64 :=
  calls.foldl (fun h call => (call.apply h).1) h

/-- The values that some calls add, in order. -/
def addedBy (h : Histogram Binary64) : List Addition → List Int
  | [] => []
  | call :: rest => call.added h ++ addedBy (call.apply h).1 rest

variable {h start : Histogram Binary64} {buckets low high : Int} {v : Int} {i : Nat}
  {values : List Int}

-- ---------------------------------------------------------------------------
-- Frames
-- ---------------------------------------------------------------------------

theorem SameFrame.bucketOf?_eq (hFrame : SameFrame h start) : h.bucketOf? = start.bucketOf? := by
  funext v
  rw [bucketOf?, bucketOf?, hFrame.locate_eq]

theorem SameFrame.divides (hFrame : SameFrame h start) (hDivides : start.Divides) : h.Divides :=
  ⟨hFrame.bucketCount ▸ hDivides.bucket, hFrame.width ▸ hDivides.width⟩

-- ---------------------------------------------------------------------------
-- All calls
-- ---------------------------------------------------------------------------

/-- A single value is added like several of them. -/
theorem apply_value (h : Histogram Binary64) (v : Int) :
    Addition.apply h (.value v) = Addition.apply h (.values [v]) := by
  rw [Addition.apply, Addition.apply, add]
  cases hLocate : h.locate v with
  | error e => exact (addAll_cons_of_error [] hLocate).symm
  | ok i => exact (addAll_cons_of_ok [] hLocate).symm

/-- A call is counted, whether it fails or not. -/
theorem Tally.apply (hDivides : start.Divides) (hTally : Tally start h values) (call : Addition) :
    Tally start (call.apply h).1 (values ++ call.added h) := by
  cases call with
  | value v =>
    rw [apply_value]
    exact hTally.addAll hDivides.bucket [v]
  | values vs => exact hTally.addAll hDivides.bucket vs

/-- All calls are counted. -/
theorem Tally.afterAll (hDivides : start.Divides) (hTally : Tally start h values)
    (calls : List Addition) : Tally start (h.afterAll calls) (values ++ h.addedBy calls) := by
  induction calls generalizing h values with
  | nil =>
    rw [addedBy, List.append_nil]
    exact hTally
  | cons call rest ih =>
    rw [addedBy, ← List.append_assoc]
    exact ih (hTally.apply hDivides call)

-- ---------------------------------------------------------------------------
-- Failing calls
-- ---------------------------------------------------------------------------

/-- All values are added, or the first one that has no bucket ends the call with its error. -/
inductive AddsUpTo (h : Histogram Binary64) (vs : List Int) : Prop
  | all (located : ∀ v ∈ vs, ∃ i, h.locate v = .ok i) (ends : (h.addAll vs).2 = .ok ())
  | first (before : List Int) (v : Int) (rest : List Int) (e : PlannerError)
      (split : vs = before ++ v :: rest) (located : ∀ u ∈ before, ∃ i, h.locate u = .ok i)
      (failed : h.locate v = .error e) (ends : (h.addAll before).2 = .ok ())
      (adds : h.addAll vs = ((h.addAll before).1, .error e))

theorem addsUpTo (h : Histogram Binary64) (vs : List Int) : h.AddsUpTo vs := by
  induction vs generalizing h with
  | nil => exact .all (fun v hv => by cases hv) rfl
  | cons v rest ih =>
    cases hLocate : h.locate v with
    | error e =>
      exact .first [] v rest e rfl (fun u hu => by cases hu) hLocate rfl
        (addAll_cons_of_error rest hLocate)
    | ok i =>
      -- the rest goes on with one more value, which moves no bucket
      have hSame := ((sameFrame_refl h).increment i).locate_eq
      have hBoth : ∀ {us : List Int}, (∀ u ∈ us, ∃ j, (h.increment i).locate u = .ok j) →
          ∀ u ∈ v :: us, ∃ j, h.locate u = .ok j := by
        intro us hus u hu
        rcases List.mem_cons.mp hu with rfl | hRest
        · exact ⟨i, hLocate⟩
        · rw [← hSame]
          exact hus u hRest
      cases ih (h.increment i) with
      | all located ends =>
        refine .all (hBoth located) ?_
        rw [addAll_cons_of_ok rest hLocate]
        exact ends
      | first before w after e split located failed ends adds =>
        refine .first (v :: before) w after e (by rw [split]; rfl) (hBoth located)
          ((hSame w).symm.trans failed) ?_ ?_
        · rw [addAll_cons_of_ok before hLocate]
          exact ends
        · rw [addAll_cons_of_ok rest hLocate, addAll_cons_of_ok before hLocate]
          exact adds

-- ---------------------------------------------------------------------------
-- The statement
-- ---------------------------------------------------------------------------

/-- What holds of a histogram over a domain, after some values have been added to it. -/
structure Tallied (buckets low high : Int) (h : Histogram Binary64) (added : List Int) :
    Prop where
  domain : h.low = low ∧ h.high = high
  size : (h.counts.size : Int) = min buckets (high - low + 1)
  total : h.total = added.length
  sum : h.counts.toList.sum = h.total
  /-- A count is the number of the values that were added and have this bucket. -/
  count : ∀ i, i < h.counts.size →
    h.counts[i]? = some (added.countP fun v => h.bucketOf? v == some i)
  located : ∀ v ∈ added, ∃ i, h.locate v = .ok i
  /-- A bucket is one that there is. -/
  bucket : ∀ v i, h.locate v = .ok i → i < h.counts.size ∧ h.Locates v i
  mono : ∀ v w i j, h.locate v = .ok i → h.locate w = .ok j → v ≤ w → i ≤ j
  /-- A value outside of the domain, or too far from its lower end, changes nothing. -/
  fails : ∀ v e, h.locate v = .error e →
    h.Fails v e ∧ Addition.apply h (.value v) = (h, .error e)
  adds : ∀ v i, h.locate v = .ok i → Addition.apply h (.value v) = (h.increment i, .ok ())
  stops : ∀ vs, h.AddsUpTo vs

/-- At every moment a histogram has counted what has been added to it. -/
theorem tallied_of_create (hCreate : create buckets low high = .ok start)
    (calls : List Addition) :
    Tallied buckets low high (start.afterAll calls) (start.addedBy calls) := by
  have hDivides := divides_of_create hCreate
  have hTally := (tally_of_create hCreate).afterAll hDivides calls
  rw [List.nil_append] at hTally
  have hFrame := hTally.frame
  have hStill := hFrame.divides hDivides
  obtain ⟨hDomain, hBuckets, width, -, hNew⟩ := create_eq_ok hCreate
  refine {
    domain := ?_
    size := ?_
    total := hTally.total
    sum := hTally.sum
    count := fun i hi => ?_
    located := fun v hv => ?_
    bucket := fun v i hLocate => ?_
    mono := fun v w i j hv hw hLe => ?_
    fails := fun v e hLocate => ⟨(locate_eq_error_iff hStill).mp hLocate, ?_⟩
    adds := fun v i hLocate => ?_
    stops := addsUpTo _ }
  · rw [hFrame.low, hFrame.high, hNew]
    exact ⟨rfl, rfl⟩
  · have hSize : start.bucketCount = (min buckets (high - low + 1)).toNat := by
      rw [hNew, bucketCount, Array.size_replicate]
    have hSame := hFrame.bucketCount
    rw [bucketCount] at hSame
    omega
  · rw [hFrame.bucketOf?_eq]
    exact hTally.count i hi
  · rw [hFrame.locate_eq]
    exact hTally.located v hv
  · have hLocates := (locate_eq_ok_iff hStill).mp hLocate
    exact ⟨hLocates.lt_bucketCount hStill, hLocates⟩
  · exact ((locate_eq_ok_iff hStill).mp hv).mono hStill ((locate_eq_ok_iff hStill).mp hw) hLe
  · rw [apply_value]
    exact addAll_cons_of_error [] hLocate
  · rw [apply_value]
    exact addAll_cons_of_ok [] hLocate

/-- Calls of which two fail: at a value that no double reaches, and below the domain. -/
def sampleAdditions : List Addition :=
  [.value 5, .values [1, 10 ^ 309, 7], .value (-1), .values [10 ^ 308]]

/-- The statement at these calls, for ten buckets of a domain beyond the doubles. -/
theorem tallied_of_create_sample :
    ∃ start, create 10 0 (10 ^ 309) = .ok start ∧
      Tallied 10 0 (10 ^ 309) (start.afterAll sampleAdditions) (start.addedBy sampleAdditions) ∧
      start.addedBy sampleAdditions = [5, 1, 10 ^ 308] := by
  have hCreated : ((create 10 0 (10 ^ 309)).toOption.any fun start : Histogram Binary64 =>
      start.addedBy sampleAdditions == [5, 1, 10 ^ 308]) = true := by decide +kernel
  obtain ⟨start, hOk, hAdded⟩ := (Option.any_eq_true _ _).mp hCreated
  have hCreate := eq_ok_of_toOption hOk
  exact ⟨start, hCreate, tallied_of_create hCreate sampleAdditions, eq_of_beq hAdded⟩

end JoinPlanner.Histogram
