import JoinPlanner.Trace
import Mathlib.Data.List.Forall2

/-!
# JoinPlanner — what outcomes ensure

Most statements about a run hold of its result and say how it can fail. A postcondition
is a property of the result together with the errors that are allowed for.

* `bind_eq_ok`, `bind_eq_error` — a success of two parts is a success of both, and a failure
  is one of the first part or else of the second one.
* `told?`           — the kind and the message of a failure.
* `Ensures`         — the property holds of the result, or the error is an allowed one.
* `ensures_bind`    — postconditions of two parts in a row.
* `ensures_foldlM`  — an invariant of the steps is an invariant of the loop.
* `foldlM_map_of_steps`, `foldlM_flatMap` — a loop over translated values does what the loop
  does, and one over the items of several lists is a loop of loops.
* `IsNumberError`   — the errors of a number that leaves the range of doubles.
* `outcome_foldlM`  — a loop that tells about its progress fails and succeeds like one that
  does not.
-/

namespace JoinPlanner

/-- A number left its range. -/
def PlannerError.IsNumberError : PlannerError → Prop
  | .number _ => True
  | _ => False

/-- Every error is allowed. -/
def PlannerError.Any (_ : PlannerError) : Prop := True

/-- No error is allowed. -/
def PlannerError.Never (_ : PlannerError) : Prop := False

namespace Outcome

variable {α β : Type}

-- ---------------------------------------------------------------------------
-- Successes
-- ---------------------------------------------------------------------------

theorem bind_eq_ok {ε : Type} {x : Except ε α} {f : α → Except ε β} {b : β} :
    (x >>= f) = .ok b ↔ ∃ a, x = .ok a ∧ f a = .ok b := by
  cases x with
  | error e =>
    constructor
    · intro h
      cases h
    · rintro ⟨a, ha, -⟩
      cases ha
  | ok a =>
    constructor
    · intro h
      exact ⟨a, rfl, h⟩
    · rintro ⟨a', ha, h⟩
      cases ha
      exact h

theorem bind_eq_error {ε : Type} {x : Except ε α} {f : α → Except ε β} {e : ε} :
    (x >>= f) = .error e ↔ x = .error e ∨ ∃ a, x = .ok a ∧ f a = .error e := by
  cases x with
  | error e' =>
    constructor
    · intro h
      cases h
      exact Or.inl rfl
    · rintro (h | ⟨a, ha, -⟩)
      · cases h
        rfl
      · cases ha
  | ok a =>
    constructor
    · intro h
      exact Or.inr ⟨a, rfl, h⟩
    · rintro (h | ⟨a', ha, h⟩)
      · cases h
      · cases ha
        exact h

theorem pure_eq_ok {ε : Type} {a b : α} : (pure a : Except ε α) = .ok b ↔ a = b := by
  constructor
  · intro h
    cases h
    rfl
  · rintro rfl
    rfl

theorem map_eq_ok {ε : Type} {x : Except ε α} {f : α → β} {b : β} :
    f <$> x = .ok b ↔ ∃ a, x = .ok a ∧ f a = b := by
  cases x <;> simp [Functor.map, Except.map]

@[simp] theorem liftM_number (x : Except NumberError α) :
    (liftM x : Outcome α) = ofNumber x := rfl

theorem ofNumber_eq_ok {x : Except NumberError α} {a : α} :
    ofNumber x = .ok a ↔ x = .ok a := by
  cases x <;> simp [ofNumber]

/-- An outcome whose result is known is that success. -/
theorem eq_ok_of_toOption {x : Outcome α} {a : α} (h : x.toOption = some a) : x = .ok a := by
  cases x with
  | error e => cases h
  | ok b =>
    cases h
    rfl

/-- An outcome with a result is a success. -/
theorem exists_eq_ok_of_isSome {x : Outcome α} (h : x.toOption.isSome = true) :
    ∃ a, x = .ok a := by
  cases x with
  | error e => cases h
  | ok a => exact ⟨a, rfl⟩

/-- What is told of a failure. -/
def told? : Outcome α → Option (ErrorKind × String)
  | .ok _ => none
  | .error e => some (e.failure.kind, e.failure.message)

/-- An outcome of which a failure is told is that failure. -/
theorem exists_eq_error_of_told {x : Outcome α} {kind : ErrorKind} {message : String}
    (h : x.told? = some (kind, message)) :
    ∃ e, x = .error e ∧ e.failure.kind = kind ∧ e.failure.message = message := by
  cases x with
  | ok a => cases h
  | error e =>
    cases h
    exact ⟨e, rfl, rfl, rfl⟩

/-- The results of a list come from its elements, one by one. -/
theorem forall₂_of_mapM {f : β → Outcome α} {items : List β} {results : List α}
    (h : items.mapM f = .ok results) :
    List.Forall₂ (fun b a => f b = .ok a) items results := by
  induction items generalizing results with
  | nil =>
    cases h
    exact .nil
  | cons b rest ih =>
    rw [List.mapM_cons] at h
    obtain ⟨a, hFirst, h⟩ := bind_eq_ok.mp h
    obtain ⟨others, hRest, h⟩ := bind_eq_ok.mp h
    rw [← pure_eq_ok.mp h]
    exact .cons hFirst (ih hRest)

/-- A failure of a list is that of its first element that fails. -/
theorem exists_of_mapM_error {f : β → Outcome α} {items : List β} {e : PlannerError}
    (h : items.mapM f = .error e) : ∃ before b after, items = before ++ b :: after ∧
      f b = .error e ∧ ∀ c ∈ before, ∃ a, f c = .ok a := by
  induction items with
  | nil => cases h
  | cons b rest ih =>
    rw [List.mapM_cons] at h
    rcases bind_eq_error.mp h with hFirst | ⟨a, hFirst, h⟩
    · exact ⟨[], b, rest, rfl, hFirst, fun c hc => by cases hc⟩
    · rcases bind_eq_error.mp h with hRest | ⟨_, -, h⟩
      · obtain ⟨before, c, after, rfl, hError, hBefore⟩ := ih hRest
        refine ⟨b :: before, c, after, rfl, hError, fun d hd => ?_⟩
        rcases List.mem_cons.mp hd with rfl | hd
        · exact ⟨a, hFirst⟩
        · exact hBefore d hd
      · cases h

-- ---------------------------------------------------------------------------
-- Postconditions
-- ---------------------------------------------------------------------------

/-- The property holds of the result, or the error is one of those that are allowed. -/
inductive Ensures (E : PlannerError → Prop) (P : α → Prop) : Outcome α → Prop
  | ok {a : α} (holds : P a) : Ensures E P (.ok a)
  | error {e : PlannerError} (allowed : E e) : Ensures E P (.error e)

variable {E : PlannerError → Prop} {P Q : α → Prop}

theorem ensures_any {x : Outcome α} (h : ∀ a, x = .ok a → P a) : Ensures PlannerError.Any P x := by
  cases x with
  | ok a => exact .ok (h a rfl)
  | error e => exact .error trivial

theorem Ensures.of_eq_ok {x : Outcome α} {a : α} (h : Ensures E P x) (hOk : x = .ok a) : P a := by
  subst hOk
  cases h with
  | ok holds => exact holds

theorem Ensures.of_eq_error {x : Outcome α} {e : PlannerError} (h : Ensures E P x)
    (hError : x = .error e) : E e := by
  subst hError
  cases h with
  | error allowed => exact allowed

theorem Ensures.exists_eq_ok {x : Outcome α} (h : Ensures PlannerError.Never P x) :
    ∃ a, x = .ok a ∧ P a := by
  cases h with
  | ok holds => exact ⟨_, rfl, holds⟩
  | error allowed => exact allowed.elim

theorem Ensures.mono {x : Outcome α} (h : Ensures E P x) (hPQ : ∀ a, x = .ok a → P a → Q a) :
    Ensures E Q x := by
  cases h with
  | ok holds => exact .ok (hPQ _ rfl holds)
  | error allowed => exact .error allowed

theorem ensures_bind {R : β → Prop} {x : Outcome α} {f : α → Outcome β} (hx : Ensures E P x)
    (hf : ∀ a, x = .ok a → P a → Ensures E R (f a)) : Ensures E R (x >>= f) := by
  cases hx with
  | ok holds => exact hf _ rfl holds
  | error allowed => exact .error allowed

/-- Arithmetic fails in no other way than by leaving its range. -/
theorem ensures_ofNumber {x : Except NumberError α} (h : ∀ a, x = .ok a → P a) :
    Ensures PlannerError.IsNumberError P (ofNumber x) := by
  cases x with
  | ok a => exact .ok (h a rfl)
  | error e => exact .error trivial

/-- What holds of the elements that were gone through is kept by each further one. -/
theorem ensures_foldlM {M : List β → α → Prop} {f : α → β → Outcome α} {start : α}
    {items : List β} (hStart : M [] start)
    (hStep : ∀ done b rest a, items = done ++ b :: rest → M done a →
      Ensures E (M (done ++ [b])) (f a b)) :
    Ensures E (M items) (items.foldlM f start) := by
  -- the induction is on the rest of the elements, for any beginning
  have hRest : ∀ rest done a, items = done ++ rest → M done a →
      Ensures E (M items) (rest.foldlM f a) := by
    intro rest
    induction rest with
    | nil =>
      intro done a hSplit hDone
      rw [List.append_nil] at hSplit
      subst hSplit
      exact .ok hDone
    | cons b rest ih =>
      intro done a hSplit hDone
      rw [List.foldlM_cons]
      refine ensures_bind (hStep done b rest a hSplit hDone) fun a' _ hNext => ?_
      exact ih (done ++ [b]) a' (by simp [hSplit]) hNext
  exact hRest items [] start rfl hStart

/-- A loop over values that are translated does what the loop does, step by step. -/
theorem foldlM_map_of_steps {α α' β : Type} {f : α → β → Outcome α} {f' : α' → β → Outcome α'}
    {g : α → α'} {M : List β → α → Prop} {start : α} {items : List β} (hStart : M [] start)
    (hStep : ∀ done b rest a, items = done ++ b :: rest → M done a →
      f' (g a) b = g <$> f a b ∧ ∀ a', f a b = .ok a' → M (done ++ [b]) a') :
    items.foldlM f' (g start) = g <$> items.foldlM f start := by
  -- the induction is on the rest of the elements, for any beginning
  have hRest : ∀ rest done a, items = done ++ rest → M done a →
      rest.foldlM f' (g a) = g <$> rest.foldlM f a := by
    intro rest
    induction rest with
    | nil =>
      intro done a _ _
      rfl
    | cons b rest ih =>
      intro done a hSplit hDone
      obtain ⟨hNext, hKept⟩ := hStep done b rest a hSplit hDone
      rw [List.foldlM_cons, List.foldlM_cons, hNext]
      cases hResult : f a b with
      | error e => rfl
      | ok a' => exact ih (done ++ [b]) a' (by simp [hSplit]) (hKept a' hResult)
  exact hRest items [] start rfl hStart

/-- A loop over the items of several lists is a loop of loops. -/
theorem foldlM_flatMap {γ : Type} {f : β → List γ} {step : α → γ → Outcome α} {start : α}
    {items : List β} : (items.flatMap f).foldlM step start =
      items.foldlM (fun a b => (f b).foldlM step a) start := by
  induction items generalizing start with
  | nil => rfl
  | cons b rest ih =>
    rw [List.flatMap_cons, List.foldlM_append, List.foldlM_cons]
    exact bind_congr fun a => ih

theorem ensures_mapM {f : β → Outcome α} {items : List β}
    (h : ∀ b ∈ items, (f b).Ensures E fun _ => True) :
    (items.mapM f).Ensures E fun _ => True := by
  induction items with
  | nil => exact .ok trivial
  | cons b rest ih =>
    rw [List.mapM_cons]
    refine ensures_bind (h b List.mem_cons_self) fun a _ _ => ?_
    refine ensures_bind (ih fun c hc => h c (List.mem_cons_of_mem b hc)) fun as _ _ => ?_
    exact .ok trivial

/-- More errors may be allowed. -/
theorem Ensures.weaken {E' : PlannerError → Prop} {x : Outcome α} (h : Ensures E P x)
    (hErrors : ∀ e, E e → E' e) : Ensures E' P x := by
  cases h with
  | ok holds => exact .ok holds
  | error allowed => exact .error (hErrors _ allowed)

end Outcome

-- ---------------------------------------------------------------------------
-- Traced operations
-- ---------------------------------------------------------------------------

namespace Traced

variable {α β : Type}

@[simp] theorem outcome_liftM (x : Outcome α) : (liftM x : Traced α).outcome = x := rfl

/-- The outcome of a loop is the loop over the outcomes. -/
theorem outcome_foldlM (f : α → β → Traced α) (start : α) (items : List β) :
    (items.foldlM f start).outcome = items.foldlM (fun a b => (f a b).outcome) start := by
  induction items generalizing start with
  | nil => rfl
  | cons b rest ih =>
    rw [List.foldlM_cons, List.foldlM_cons, outcome_bind]
    exact bind_congr fun a => ih a

end Traced

end JoinPlanner
