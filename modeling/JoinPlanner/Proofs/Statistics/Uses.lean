import JoinPlanner.Proofs.Catalog.Changes
import JoinPlanner.Proofs.Outcome
import JoinPlanner.Workspace

/-!
# JoinPlanner — uses of statistics

What can happen to statistics once they are taken: the catalog changes, the reading of their
table breaks down, their histograms are forgotten, and filters are estimated. This module says
once what each of them does to the statistics of a name in a workspace.

* `Use`, `Use.command`     — the uses, as commands of a workspace.
* `Basis`, `Basis.after`   — what an estimate depends on, and how a use changes it.
* `Basis.outcome_selectivity`, `Basis.memo_selectivity_cases` — all that an estimate can do.
* `basis?_command`, `basis?_takeStats` — the commands do just that.
-/

namespace JoinPlanner

open Workspace Outcome

-- ---------------------------------------------------------------------------
-- Uses of statistics
-- ---------------------------------------------------------------------------

/-- What can happen to statistics and to the rows that they read. -/
inductive Use where
  | change (change : Change)
  /-- From now on the table is read under a fault, or without one. -/
  | fault (fault : Option Fault)
  | clear
  | estimate (column : ColumnRef) (op : Comparison) (constant : Constant)

/-- A use of the statistics of a name. -/
def Use.command (name : String) : Use → Command Unit
  | .change c => .onCatalog fun catalog => c.apply catalog
  | .fault f => do keep name { ← handle name with fault := f }
  | .clear => clearMemo name
  | .estimate column op constant => do let _ ← selectivity name column op constant

/-- The workspace after some uses. What a failed one leaves behind stays. -/
def Workspace.afterUses (w : Workspace) (name : String) (uses : List Use) : Workspace :=
  uses.foldl (fun w use => (use.command name w).1) w

/-- How an estimate would end now. -/
def Workspace.estimated (w : Workspace) (name : String) (column : ColumnRef) (op : Comparison)
    (constant : Constant) : Outcome Binary64 :=
  (selectivity name column op constant w).2.outcome

theorem afterUses_concat (w : Workspace) (name : String) (uses : List Use) (use : Use) :
    w.afterUses name (uses ++ [use]) = (use.command name (w.afterUses name uses)).1 := by
  simp [Workspace.afterUses]

-- ---------------------------------------------------------------------------
-- What estimates depend on
-- ---------------------------------------------------------------------------

/-- What the estimates of statistics depend on. -/
structure Basis where
  catalog : Catalog
  stats : TableStats
  memo : Memo

namespace Basis

/-- The rows that can be read now. -/
def scan (s : Basis) : Scan := s.stats.reread s.catalog

/-- The histogram of a column from these rows. -/
def built (s : Basis) (column : Nat) : Outcome ColumnHistogram :=
  (s.stats.columnHistogram s.scan column).outcome

/-- An estimate with the histograms that are remembered afterwards. -/
def selectivity (s : Basis) (column : ColumnRef) (op : Comparison) (constant : Constant) :
    Memo × Traced Binary64 :=
  s.stats.selectivity s.scan s.memo column op constant

/-- The basis after a use. -/
def after (s : Basis) : Use → Basis
  | .change change => { s with catalog := (change.apply s.catalog).1 }
  | .fault fault => { s with stats := { s.stats with fault } }
  | .clear => { s with memo := [] }
  | .estimate column op constant => { s with memo := (s.selectivity column op constant).1 }

/-- The histogram that a use builds for a column, unless one is remembered. -/
def offered (s : Basis) (use : Use) (index : Nat) : Option ColumnHistogram :=
  match use with
  | .estimate column _ _ =>
    if (s.stats.schema.locate column).toOption = some index then (s.built index).toOption else none
  | _ => none

/-- The same statistics, but remembering nothing. -/
def plain (s : Basis) : Basis := { s with stats := { s.stats with memoize := false }, memo := [] }

variable {s : Basis} {index : Nat}

/-- An estimate is that of the remembered histogram, or of one that is built now. -/
theorem outcome_selectivity (s : Basis) (column : ColumnRef) (op : Comparison)
    (constant : Constant) : (s.selectivity column op constant).2.outcome =
      s.stats.schema.locate column >>= fun index =>
        ((s.memo.get? index).elim (s.built index) pure) >>= fun h => h.estimate op constant := by
  simp only [selectivity, TableStats.selectivity, built]
  cases s.stats.schema.locate column with
  | error e => rfl
  | ok index =>
    show _ = ((s.memo.get? index).elim (s.stats.columnHistogram s.scan index).outcome pure) >>= _
    dsimp only
    cases s.memo.get? index with
    | some h => rfl
    | none =>
      dsimp only [Option.elim_none]
      cases (s.stats.columnHistogram s.scan index).outcome <;> rfl

/-- An estimate remembers a histogram that it has built, or there is none to be remembered. -/
theorem memo_selectivity_cases (s : Basis) (column : ColumnRef) (op : Comparison)
    (constant : Constant) :
    (∃ i h, s.stats.memoize = true ∧ s.stats.schema.locate column = .ok i ∧
      s.memo.get? i = none ∧ s.built i = .ok h ∧
      (s.selectivity column op constant).1 = s.memo.put i h) ∨
    ((s.selectivity column op constant).1 = s.memo ∧
      ∀ i h, s.stats.memoize = true → s.stats.schema.locate column = .ok i →
        s.built i = .ok h → (s.memo.get? i).isSome) := by
  simp only [selectivity, TableStats.selectivity, built]
  cases s.stats.schema.locate column with
  | error e => exact Or.inr ⟨rfl, fun _ _ _ hColumn => by cases hColumn⟩
  | ok i =>
    dsimp only
    cases hMemo : s.memo.get? i with
    | some h =>
      refine Or.inr ⟨rfl, fun j _ _ hColumn _ => ?_⟩
      cases hColumn
      simp [hMemo]
    | none =>
      cases hBuilt : (s.stats.columnHistogram s.scan i).outcome with
      | error e =>
        refine Or.inr ⟨rfl, fun j _ _ hColumn hOk => ?_⟩
        cases hColumn
        cases hBuilt.symm.trans hOk
      | ok h =>
        cases hMemoize : s.stats.memoize with
        | true => exact Or.inl ⟨i, h, rfl, rfl, hMemo, hBuilt, rfl⟩
        | false => exact Or.inr ⟨rfl, fun _ _ hTrue => by cases hTrue⟩

/-- What is remembered stays, and what can be built for another column is added. -/
theorem get?_after (hMemoize : s.stats.memoize = true) {use : Use} (hUse : use ≠ .clear)
    (index : Nat) :
    (s.after use).memo.get? index = (s.memo.get? index).or (s.offered use index) := by
  cases use with
  | clear => exact absurd rfl hUse
  | change _ => simp [after, offered]
  | fault _ => simp [after, offered]
  | estimate column op constant =>
    simp only [after, offered]
    rcases memo_selectivity_cases s column op constant with
      ⟨i, h, -, hColumn, hMemo, hBuilt, hPut⟩ | ⟨hKept, hNone⟩
    · rw [hPut, Association.get?_put, hColumn]
      by_cases hIndex : i = index
      · simp [← hIndex, hMemo, hBuilt, Except.toOption]
      · simp [hIndex, Except.toOption]
    · rw [hKept]
      split
      · rename_i hColumn
        cases hBuilt : s.built index with
        | error e => simp [Except.toOption]
        | ok h =>
          have hSome := hNone index h hMemoize (Outcome.eq_ok_of_toOption hColumn) hBuilt
          rw [Option.or_of_isSome hSome]
      · simp

/-- A histogram that cannot be built is not remembered, and nothing else changes. -/
theorem after_of_built_error {column : ColumnRef} {e : PlannerError}
    (hColumn : s.stats.schema.locate column = .ok index) (hBuilt : s.built index = .error e)
    (op : Comparison) (constant : Constant) : s.after (.estimate column op constant) = s := by
  rcases memo_selectivity_cases s column op constant with
    ⟨i, h, -, hLocate, -, hOk, -⟩ | ⟨hKept, -⟩
  · cases hColumn.symm.trans hLocate
    cases hBuilt.symm.trans hOk
  · rw [after, hKept]

/-- Whatever happens, the same happens to statistics that remember nothing. -/
theorem plain_after (s : Basis) (use : Use) : s.plain.after use = (s.after use).plain := by
  cases use with
  | estimate column op constant =>
    rcases memo_selectivity_cases s.plain column op constant with ⟨_, _, hMemoize, -⟩ | ⟨hKept, -⟩
    · cases hMemoize
    · rw [after, hKept]
      rfl
  | change _ => rfl
  | fault _ => rfl
  | clear => rfl

/-- Only the fault of statistics ever changes. -/
theorem stats_after (s : Basis) (use : Use) :
    ∃ fault, (s.after use).stats = { s.stats with fault } := by
  cases use with
  | fault fault => exact ⟨fault, rfl⟩
  | change _ => exact ⟨s.stats.fault, rfl⟩
  | clear => exact ⟨s.stats.fault, rfl⟩
  | estimate _ _ _ => exact ⟨s.stats.fault, rfl⟩

/-- The histogram of a column depends on the rows that are read, but not on the fault. -/
theorem built_of_scan {t : Basis} {stats : TableStats} {fault other : Option Fault}
    (hs : s.stats = { stats with fault }) (ht : t.stats = { stats with fault := other })
    (hScan : s.scan = t.scan) : s.built index = t.built index := by
  unfold built
  rw [hScan, hs, ht]
  rfl

theorem built_of_offered {use : Use} {h : ColumnHistogram}
    (hOffered : s.offered use index = some h) : s.built index = .ok h := by
  cases use with
  | estimate column op constant =>
    simp only [offered] at hOffered
    split at hOffered
    · exact Outcome.eq_ok_of_toOption hOffered
    · cases hOffered
  | change _ => cases hOffered
  | fault _ => cases hOffered
  | clear => cases hOffered

end Basis

/-- What the estimates of the statistics of a name depend on. -/
def Workspace.basis? (w : Workspace) (name : String) : Option Basis :=
  (w.handles.get? name).map fun stats =>
    ⟨w.catalog, stats, (w.memos.get? stats.serial).getD []⟩

section

variable {w : Workspace} {name : String} {s : Basis}

-- ---------------------------------------------------------------------------
-- Commands
-- ---------------------------------------------------------------------------

theorem basis?_eq_some_iff : w.basis? name = some s ↔
    w.catalog = s.catalog ∧ w.handles.get? name = some s.stats ∧
      (w.memos.get? s.stats.serial).getD [] = s.memo := by
  obtain ⟨catalog, stats, memo⟩ := s
  unfold Workspace.basis?
  cases w.handles.get? name with
  | none => simp
  | some found =>
    simp only [Option.map_some, Option.some.injEq, Basis.mk.injEq]
    constructor
    · rintro ⟨rfl, rfl, rfl⟩
      simp
    · rintro ⟨rfl, rfl, rfl⟩
      simp

/-- A command on statistics that exist goes on with them. -/
theorem handle_bind {α : Type} {stats : TableStats} (h : w.handles.get? name = some stats)
    (f : TableStats → Command α) : (handle name >>= f) w = f stats w := by
  show Command.andThen (handle name) f w = _
  have hHandle : handle name w = (w, .ofOutcome (.ok stats)) := by
    unfold handle Command.named
    rw [h]
  unfold Command.andThen
  rw [hHandle]
  rfl

theorem read_bind {α : Type} (f : Workspace → Command α) :
    (Command.read >>= f) w = f w w := rfl

/-- A command goes on with the outcome of a success. -/
theorem liftM_bind {α β : Type} {x : Outcome α} {a : α} (h : x = .ok a) (f : α → Command β) :
    ((liftM x : Command α) >>= f) w = f a w := by
  rw [h]
  rfl

theorem selectivity_of_basis (h : w.basis? name = some s) (column : ColumnRef) (op : Comparison)
    (constant : Constant) : Workspace.selectivity name column op constant w =
      ({ w with memos := w.memos.put s.stats.serial (s.selectivity column op constant).1 },
        (s.selectivity column op constant).2) := by
  obtain ⟨hCatalog, hHandle, hMemo⟩ := basis?_eq_some_iff.mp h
  unfold Workspace.selectivity
  rw [handle_bind hHandle, Basis.selectivity, Basis.scan, ← hCatalog, ← hMemo]
  rfl

/-- A use changes a basis whatever else there is in the workspace. -/
theorem basis?_command (h : w.basis? name = some s) (use : Use) :
    (use.command name w).1.basis? name = some (s.after use) := by
  obtain ⟨hCatalog, hHandle, hMemo⟩ := basis?_eq_some_iff.mp h
  cases use with
  | change c =>
    refine basis?_eq_some_iff.mpr ⟨?_, hHandle, hMemo⟩
    show (c.apply w.catalog).1 = (c.apply s.catalog).1
    rw [hCatalog]
  | fault f =>
    have hAfter : (Use.command name (.fault f) w).1 =
        { w with handles := w.handles.put name { s.stats with fault := f } } :=
      congrArg Prod.fst (handle_bind hHandle _)
    rw [hAfter, basis?_eq_some_iff]
    refine ⟨hCatalog, ?_, hMemo⟩
    simp [Association.get?_put, Basis.after]
  | clear =>
    have hAfter : (Use.command name .clear w).1 =
        { w with memos := w.memos.erase s.stats.serial } :=
      congrArg Prod.fst (handle_bind hHandle _)
    rw [hAfter, basis?_eq_some_iff]
    refine ⟨hCatalog, hHandle, ?_⟩
    simp [Association.get?_erase, Basis.after]
  | estimate column op constant =>
    have hAfter : (Use.command name (.estimate column op constant) w).1 =
        (selectivity name column op constant w).1 := by
      show (Command.andThen _ _ w).1 = _
      unfold Command.andThen
      dsimp only
      cases (selectivity name column op constant w).2.outcome <;> rfl
    rw [hAfter, selectivity_of_basis h, basis?_eq_some_iff]
    refine ⟨hCatalog, hHandle, ?_⟩
    simp [Association.get?_put, Basis.after]

-- ---------------------------------------------------------------------------
-- Taking statistics
-- ---------------------------------------------------------------------------

/-- The same statistics are taken, whether histograms are to be remembered or not. -/
theorem take_memoize {catalog : Catalog} {options : StatsOptions} {serial : Nat} {id : Int}
    {stats : TableStats} (h : TableStats.take catalog options serial id = .ok stats) :
    stats.serial = serial ∧ ∀ memoize,
      TableStats.take catalog { options with memoize } serial id = .ok { stats with memoize } := by
  unfold TableStats.take at h ⊢
  obtain ⟨table, hTable, h⟩ := bind_eq_ok.mp h
  obtain ⟨pages, hPages, h⟩ := bind_eq_ok.mp h
  obtain ⟨bounds, hBounds, h⟩ := bind_eq_ok.mp h
  obtain rfl := pure_eq_ok.mp h
  refine ⟨rfl, fun memoize => ?_⟩
  rw [hTable, hPages]
  show TableStats.afterScan id (catalog.scan _ id) (columnBounds table.schema _) >>= _ = _
  rw [hBounds]
  rfl

/-- Statistics that have just been taken know no histograms. -/
theorem basis?_takeStats {options : StatsOptions} {id : Int} {stats : TableStats}
    (hTaken : TableStats.take w.catalog options w.nextSerial id = .ok stats)
    (hNew : w.memos.get? w.nextSerial = none) (name : String) :
    (takeStats name id options w).1.basis? name = some ⟨w.catalog, stats, []⟩ := by
  have hAfter : (takeStats name id options w).1 =
      { w with
        nextSerial := w.nextSerial + 1
        handles := w.handles.put name stats } := by
    unfold takeStats
    refine (congrArg Prod.fst (read_bind _)).trans ?_
    exact congrArg Prod.fst (liftM_bind hTaken _)
  rw [hAfter, basis?_eq_some_iff]
  refine ⟨rfl, ?_, ?_⟩
  · simp [Association.get?_put]
  · simp [(take_memoize hTaken).1, hNew]

end

end JoinPlanner
