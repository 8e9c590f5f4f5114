/-!
# JoinPlanner — associations

Lists of keys with values in order of insertion. Setting the value of a key that is
there already keeps its place.

* `get?`, `put`, `erase` — the operations, for keys that are compared by a test.
* `get?_put`, `get?_erase` — what a key maps to after another was set or dropped.
* `get?_append` — what a key maps to in entries followed by others.
-/

namespace JoinPlanner

/-- Keys with values, in order of insertion. -/
abbrev Association (κ ν : Type) := List (κ × ν)

namespace Association

variable {κ ν : Type} [BEq κ]

/-- The value of a key. -/
def get? : Association κ ν → κ → Option ν
  | [], _ => none
  | (k, v) :: rest, key => if k == key then some v else get? rest key

/-- Sets the value of a key; a new key comes last. -/
def put : Association κ ν → κ → ν → Association κ ν
  | [], key, value => [(key, value)]
  | (k, v) :: rest, key, value =>
    if k == key then (k, value) :: rest else (k, v) :: put rest key value

/-- Drops the entry of a key. -/
def erase (entries : Association κ ν) (key : κ) : Association κ ν :=
  entries.filter fun e => !(e.1 == key)

/-- Whether there is an entry for a key. -/
def has (entries : Association κ ν) (key : κ) : Bool := (get? entries key).isSome

theorem get?_congr [EquivBEq κ] (entries : Association κ ν) {a b : κ} (h : a == b) :
    get? entries a = get? entries b := by
  induction entries with
  | nil => rfl
  | cons e rest ih => simp only [get?, BEq.congr_right h, ih]

/-- Setting a key changes its value and no other. -/
theorem get?_put [EquivBEq κ] (entries : Association κ ν) (key other : κ) (value : ν) :
    get? (put entries key value) other
      = if key == other then some value else get? entries other := by
  induction entries with
  | nil => rfl
  | cons e rest ih =>
    by_cases h : e.1 == key
    · simp only [put, get?, h, if_true, BEq.congr_left h]
      split <;> simp_all
    · by_cases ho : e.1 == other
      · have hk : (key == other) = false := by
          refine Bool.eq_false_iff.mpr fun hk => h ?_
          exact BEq.trans ho (BEq.symm hk)
        simp [put, get?, h, ho, hk]
      · simp [put, get?, h, ho, ih]

/-- In entries followed by others, the first ones count. -/
theorem get?_append (entries others : Association κ ν) (key : κ) :
    get? (entries ++ others) key = (get? entries key).or (get? others key) := by
  induction entries with
  | nil => rfl
  | cons e rest ih => by_cases h : e.1 == key <;> simp [get?, h, ih]

/-- Dropping a key changes no other. -/
theorem get?_erase [EquivBEq κ] (entries : Association κ ν) (key other : κ) :
    get? (erase entries key) other = if key == other then none else get? entries other := by
  induction entries with
  | nil => simp [erase, get?]
  | cons e rest ih =>
    by_cases h : e.1 == key
    · have drop : erase (e :: rest) key = erase rest key := by simp [erase, h]
      rw [drop, ih]
      simp only [get?, BEq.congr_left h]
      split <;> rfl
    · have keep : erase (e :: rest) key = e :: erase rest key := by simp [erase, h]
      rw [keep]
      simp only [get?, ih]
      by_cases ho : e.1 == other
      · have hk : (key == other) = false := by
          refine Bool.eq_false_iff.mpr fun hk => h ?_
          exact BEq.trans ho (BEq.symm hk)
        simp [ho, hk]
      · simp [ho]

end Association

end JoinPlanner
