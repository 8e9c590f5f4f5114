import JoinPlanner.Error
import JoinPlanner.Predicate

/-!
# JoinPlanner — traced operations

Some operations tell about their progress and issue warnings on their way, also when
they fail in the end. A traced operation is its events with its outcome.

* `Event`  — a progress line, a report line, or a warning.
* `Traced` — the events of an operation, in order, and its outcome.
-/

namespace JoinPlanner

/-- Something that a caller should look at, but that stops nothing. -/
inductive Warning where
  /-- A predicate was given before, perhaps with its sides exchanged. -/
  | duplicateJoin (p : Predicate)
  /-- A row lies outside of the range that was seen when statistics were taken. -/
  | staleRow (value : Cell) (table : Int)
  deriving DecidableEq, Repr

/-- The wording of a warning. -/
def Warning.message : Warning → String
  | duplicateJoin p => "Ignoring duplicate join predicate " ++ p.toText
  | staleRow value table =>
    "Value " ++ value.display
      ++ s!" of table {table} outside of the range observed when creating the statistics. "
      ++ "Statistics are probably stale."

/-- What an operation tells on its way. -/
inductive Event where
  /-- A line about progress, which is shown with the time. -/
  | progress (line : String)
  /-- Lines that are shown as they are. -/
  | report (text : String)
  | warning (w : Warning)
  deriving DecidableEq, Repr

/-- The events of an operation and its outcome. -/
structure Traced (α : Type) where
  events : List Event
  outcome : Outcome α

namespace Traced

variable {α β : Type}

/-- An outcome without events. -/
def ofOutcome (outcome : Outcome α) : Traced α := ⟨[], outcome⟩

/-- Goes on after a success; the events of both parts are kept. -/
def andThen (x : Traced α) (f : α → Traced β) : Traced β :=
  match x.outcome with
  | .ok a =>
    let y := f a
    ⟨x.events ++ y.events, y.outcome⟩
  | .error e => ⟨x.events, .error e⟩

instance : Monad Traced where
  pure a := ⟨[], .ok a⟩
  bind := andThen

instance : MonadLift Outcome Traced where
  monadLift := ofOutcome

@[simp] theorem outcome_pure (a : α) : (pure a : Traced α).outcome = .ok a := rfl

@[simp] theorem outcome_bind (x : Traced α) (f : α → Traced β) :
    (x >>= f).outcome = x.outcome >>= fun a => (f a).outcome := by
  change (andThen x f).outcome = _
  unfold andThen
  cases x.outcome <;> rfl

/-- Some events and nothing else. -/
def tell (events : List Event) : Traced Unit := ⟨events, .ok ()⟩

/-- A line about progress, if the operation is meant to be verbose. -/
def progress (verbose : Bool) (line : String) : Traced Unit :=
  tell (if verbose then [.progress line] else [])

@[simp] theorem outcome_tell (events : List Event) : (tell events).outcome = .ok () := rfl

@[simp] theorem outcome_progress (verbose : Bool) (line : String) :
    (progress verbose line).outcome = .ok () := rfl

end Traced

end JoinPlanner
