import JoinPlanner.Proofs.Statistics.Uses
import Mathlib.Data.List.Induction

/-!
# JoinPlanner — remembered histograms

Statistics may remember the histograms that they have built. Then an estimate does not look at
the rows of today, but at those of the estimate that built the histogram: the first one on its
column that could do so since histograms were last forgotten. Apart from that, remembering
changes no answer and no error.

* `Workspace.afterUses`, `FirstBuilt` — a run, and which histogram of a column it keeps.
* `Twins`, `twins_takeStats`   — the same statistics with and without remembering.
* `Twins.remembered_cases`     — what is remembered after a run.
* `OnlyCaches`, `onlyCaches`   — the statement about all runs.
-/

namespace JoinPlanner

open Workspace

-- ---------------------------------------------------------------------------
-- A run of uses
-- ---------------------------------------------------------------------------

section

variable {w : Workspace} {name : String} {s : Basis} {uses : List Use} {index : Nat}

/-- The histogram that the estimate after some uses could build for a column, if it was not
remembered yet; histograms have not been forgotten since. -/
def BuiltAfter (w : Workspace) (name : String) (uses : List Use) (index : Nat)
    (before : List Use) (h : ColumnHistogram) : Prop :=
  ∃ use since s, uses = before ++ use :: since ∧ Use.clear ∉ since ∧
    (w.afterUses name before).basis? name = some s ∧ s.offered use index = some h

/-- The first histogram of a column that could be built since histograms were last forgotten. -/
structure FirstBuilt (w : Workspace) (name : String) (uses : List Use) (index : Nat)
    (before : List Use) (h : ColumnHistogram) : Prop where
  built : BuiltAfter w name uses index before h
  first : ∀ other h', BuiltAfter w name uses index other h' → before.length ≤ other.length

theorem builtAfter_concat {use : Use} {before : List Use} {h : ColumnHistogram} :
    BuiltAfter w name (uses ++ [use]) index before h ↔
      (use ≠ .clear ∧ BuiltAfter w name uses index before h) ∨
      (before = uses ∧ ∃ s, (w.afterUses name uses).basis? name = some s ∧
        s.offered use index = some h) := by
  constructor
  · rintro ⟨this, since, s, hSplit, hSince, hBasis, hOffered⟩
    rcases List.eq_nil_or_concat since with rfl | ⟨since, last, rfl⟩
    · obtain ⟨rfl, hUse⟩ := List.append_inj' hSplit rfl
      cases hUse
      exact Or.inr ⟨rfl, s, hBasis, hOffered⟩
    · have hSplit' : uses ++ [use] = (before ++ this :: since) ++ [last] := by simp [hSplit]
      obtain ⟨rfl, hUse⟩ := List.append_inj' hSplit' rfl
      cases hUse
      simp only [List.concat_eq_append, List.mem_append, List.mem_singleton, not_or] at hSince
      exact Or.inl ⟨Ne.symm hSince.2, this, since, s, rfl, hSince.1, hBasis, hOffered⟩
  · rintro (⟨hUse, this, since, s, rfl, hSince, hBasis, hOffered⟩ | ⟨rfl, s, hBasis, hOffered⟩)
    · exact ⟨this, since ++ [use], s, by simp, by simp [hSince, Ne.symm hUse], hBasis, hOffered⟩
    · exact ⟨use, [], s, rfl, by simp, hBasis, hOffered⟩

theorem BuiltAfter.length_lt {before : List Use} {h : ColumnHistogram}
    (hBuilt : BuiltAfter w name uses index before h) : before.length < uses.length := by
  obtain ⟨use, since, s, rfl, -⟩ := hBuilt
  simp

/-- The first histogram stays the first one until histograms are forgotten. -/
theorem FirstBuilt.concat {use : Use} {before : List Use} {h : ColumnHistogram}
    (hFirst : FirstBuilt w name uses index before h) (hUse : use ≠ .clear) :
    FirstBuilt w name (uses ++ [use]) index before h := by
  refine ⟨builtAfter_concat.mpr (Or.inl ⟨hUse, hFirst.built⟩), fun other h' hNow => ?_⟩
  rcases builtAfter_concat.mp hNow with ⟨-, hOld⟩ | ⟨rfl, -⟩
  · exact hFirst.first _ _ hOld
  · exact Nat.le_of_lt hFirst.built.length_lt

/-- Where there has been none, the next histogram that can be built is the first one. -/
theorem firstBuilt_concat {use : Use} {h : ColumnHistogram}
    (hNone : ∀ before h, ¬ BuiltAfter w name uses index before h)
    (hBasis : (w.afterUses name uses).basis? name = some s)
    (hOffered : s.offered use index = some h) :
    FirstBuilt w name (uses ++ [use]) index uses h := by
  refine ⟨builtAfter_concat.mpr (Or.inr ⟨rfl, s, hBasis, hOffered⟩), fun other h' hNow => ?_⟩
  rcases builtAfter_concat.mp hNow with ⟨-, hOld⟩ | ⟨rfl, -⟩
  · exact absurd hOld (hNone _ _)
  · exact Nat.le_refl _

theorem FirstBuilt.unique {before other : List Use} {h h' : ColumnHistogram}
    (hFirst : FirstBuilt w name uses index before h)
    (hOther : FirstBuilt w name uses index other h') : before = other ∧ h = h' := by
  have hLength : before.length = other.length :=
    Nat.le_antisymm (hFirst.first _ _ hOther.built) (hOther.first _ _ hFirst.built)
  obtain ⟨use, since, s, hSplit, -, hBasis, hOffered⟩ := hFirst.built
  obtain ⟨use', since', s', hSplit', -, hBasis', hOffered'⟩ := hOther.built
  obtain ⟨rfl, hRest⟩ := List.append_inj (hSplit.symm.trans hSplit') hLength
  cases hRest
  cases hBasis.symm.trans hBasis'
  exact ⟨rfl, Option.some.inj (hOffered.symm.trans hOffered')⟩

theorem exists_of_firstBuilt {before : List Use} {h : ColumnHistogram}
    (hFirst : FirstBuilt w name uses index before h) :
    ∃ t, (w.afterUses name before).basis? name = some t ∧ t.built index = .ok h ∧
      before <+: uses := by
  obtain ⟨use, since, t, rfl, -, hBasis, hOffered⟩ := hFirst.built
  exact ⟨t, hBasis, Basis.built_of_offered hOffered, List.prefix_append _ _⟩

end

/-- Statistics that remember histograms but have none yet, and the same ones that never do. -/
structure Twins (name : String) (s : Basis) (cached plain : Workspace) : Prop where
  cached : cached.basis? name = some s
  memoize : s.stats.memoize = true
  new : s.memo = []
  plain : plain.basis? name = some s.plain

/-- Statistics that are taken twice, to remember histograms and not to. -/
theorem twins_takeStats {w : Workspace} {options : StatsOptions} {id : Int} {stats : TableStats}
    (hTaken : TableStats.take w.catalog options w.nextSerial id = .ok stats)
    (hNew : w.memos.get? w.nextSerial = none) (name : String) :
    Twins name ⟨w.catalog, { stats with memoize := true }, []⟩
      (takeStats name id { options with memoize := true } w).1
      (takeStats name id { options with memoize := false } w).1 where
  cached := basis?_takeStats ((take_memoize hTaken).2 true) hNew name
  memoize := rfl
  new := rfl
  plain := basis?_takeStats ((take_memoize hTaken).2 false) hNew name

namespace Twins

variable {cached plain : Workspace} {name : String} {s : Basis}

/-- Twins stay at the same table, and apart from the fault they stay the same statistics. -/
theorem exists_basis? (hTwins : Twins name s cached plain) (uses : List Use) :
    ∃ t fault, (cached.afterUses name uses).basis? name = some t ∧
      (plain.afterUses name uses).basis? name = some t.plain ∧
      t.stats = { s.stats with fault } := by
  induction uses using List.reverseRecOn with
  | nil => exact ⟨s, s.stats.fault, hTwins.cached, hTwins.plain, rfl⟩
  | append_singleton uses use ih =>
    obtain ⟨t, fault, hCached, hPlain, hStats⟩ := ih
    obtain ⟨next, hNext⟩ := t.stats_after use
    refine ⟨t.after use, next, ?_, ?_, by rw [hNext, hStats]⟩
    · rw [afterUses_concat]
      exact basis?_command hCached use
    · rw [afterUses_concat, basis?_command hPlain use, Basis.plain_after]

/--
What is remembered after a run is the first histogram that could be built since histograms were
last forgotten, for each column.
-/
theorem remembered_cases (hTwins : Twins name s cached plain) (uses : List Use) {t : Basis}
    (h : (cached.afterUses name uses).basis? name = some t) (index : Nat) :
    (t.memo.get? index = none ∧ ∀ before h, ¬ BuiltAfter cached name uses index before h) ∨
    ∃ before h, t.memo.get? index = some h ∧ FirstBuilt cached name uses index before h := by
  induction uses using List.reverseRecOn generalizing t with
  | nil =>
    cases hTwins.cached.symm.trans h
    refine Or.inl ⟨by rw [hTwins.new]; rfl, fun before h hBuilt => ?_⟩
    exact absurd hBuilt.length_lt (Nat.not_lt_zero _)
  | append_singleton uses use ih =>
    obtain ⟨b, _, hBefore, -, hStats⟩ := hTwins.exists_basis? uses
    rw [afterUses_concat] at h
    cases (basis?_command hBefore use).symm.trans h
    by_cases hUse : use = .clear
    · -- no estimate before this use counts any more, and this one builds nothing
      subst hUse
      refine Or.inl ⟨rfl, fun before h hBuilt => ?_⟩
      rcases builtAfter_concat.mp hBuilt with ⟨hOther, -⟩ | ⟨-, _, -, hOffered⟩
      · exact hOther rfl
      · cases hOffered
    · have hGet := Basis.get?_after (s := b) (by rw [hStats]; exact hTwins.memoize) hUse index
      rcases ih hBefore with ⟨hNone, hBuilt⟩ | ⟨before, h, hSome, hFirst⟩
      · -- nothing was remembered, so whatever this use can build is the first histogram
        rw [hNone, Option.none_or] at hGet
        cases hOffered : b.offered use index with
        | none =>
          refine Or.inl ⟨hGet.trans hOffered, fun before h hNow => ?_⟩
          rcases builtAfter_concat.mp hNow with ⟨-, hOld⟩ | ⟨-, s', hSame, hThis⟩
          · exact hBuilt _ _ hOld
          · cases hBefore.symm.trans hSame
            cases hOffered.symm.trans hThis
        | some h =>
          exact Or.inr ⟨uses, h, hGet.trans hOffered, firstBuilt_concat hBuilt hBefore hOffered⟩
      · rw [hSome, Option.some_or] at hGet
        exact Or.inr ⟨before, h, hGet, hFirst.concat hUse⟩

end Twins

-- ---------------------------------------------------------------------------
-- Answers
-- ---------------------------------------------------------------------------

section

variable {w : Workspace} {name : String} {s : Basis} {index : Nat} {column : ColumnRef}

theorem estimated_of_basis (h : w.basis? name = some s) (column : ColumnRef) (op : Comparison)
    (constant : Constant) : w.estimated name column op constant =
      s.stats.schema.locate column >>= fun index =>
        ((s.memo.get? index).elim (s.built index) pure) >>= fun h => h.estimate op constant := by
  unfold Workspace.estimated
  rw [selectivity_of_basis h]
  exact s.outcome_selectivity column op constant

theorem estimated_of_error {e : PlannerError} (hBasis : w.basis? name = some s)
    (hColumn : s.stats.schema.locate column = .error e) (op : Comparison) (constant : Constant) :
    w.estimated name column op constant = .error e := by
  rw [estimated_of_basis hBasis, hColumn]
  rfl

theorem estimated_of_get? {h : ColumnHistogram} (hBasis : w.basis? name = some s)
    (hColumn : s.stats.schema.locate column = .ok index) (hMemo : s.memo.get? index = some h)
    (op : Comparison) (constant : Constant) :
    w.estimated name column op constant = h.estimate op constant := by
  rw [estimated_of_basis hBasis, hColumn]
  show (s.memo.get? index).elim (s.built index) pure >>= _ = _
  rw [hMemo]
  rfl

theorem estimated_of_none (hBasis : w.basis? name = some s)
    (hColumn : s.stats.schema.locate column = .ok index) (hMemo : s.memo.get? index = none)
    (op : Comparison) (constant : Constant) :
    w.estimated name column op constant = s.built index >>= fun h => h.estimate op constant := by
  rw [estimated_of_basis hBasis, hColumn]
  show (s.memo.get? index).elim (s.built index) pure >>= _ = _
  rw [hMemo]
  rfl

end

/-- Statistics that remember histograms answer as the same ones that do not. -/
structure OnlyCaches (name : String) (schema : Schema) (cached plain : Workspace) : Prop where
  /-- With a histogram of the column, an estimate ends as it would have without remembering at
  the time when that was built, whatever has happened to the rows since. -/
  built : ∀ uses before column op constant index h, schema.locate column = .ok index →
    FirstBuilt cached name uses index before h →
    (cached.afterUses name uses).estimated name column op constant =
      (plain.afterUses name before).estimated name column op constant
  /-- Without one it ends as it does without remembering, also if there is no such column. -/
  current : ∀ uses column op constant,
    (∀ index before h, schema.locate column = .ok index →
      ¬ FirstBuilt cached name uses index before h) →
    (cached.afterUses name uses).estimated name column op constant =
      (plain.afterUses name uses).estimated name column op constant
  /-- Nothing but these histograms is remembered. -/
  remembered : ∀ uses, ∃ s, (cached.afterUses name uses).basis? name = some s ∧
    ∀ index h, s.memo.get? index = some h ↔ ∃ before, FirstBuilt cached name uses index before h
  /-- An estimate that cannot build its histogram leaves everything as it was. -/
  failed : ∀ uses s column op constant index e,
    (cached.afterUses name uses).basis? name = some s → schema.locate column = .ok index →
    s.built index = .error e →
    (cached.afterUses name (uses ++ [.estimate column op constant])).basis? name = some s
  /-- As long as the same rows are read, remembering makes no difference. -/
  unchanged : ∀ uses, (∀ before, before <+: uses →
      ((cached.afterUses name before).basis? name).map Basis.scan =
        ((cached.afterUses name uses).basis? name).map Basis.scan) →
    ∀ column op constant, (cached.afterUses name uses).estimated name column op constant =
      (plain.afterUses name uses).estimated name column op constant

namespace Twins

variable {cached plain : Workspace} {name : String} {s : Basis} {uses before : List Use}
  {index : Nat} {column : ColumnRef} {h : ColumnHistogram}

theorem estimated_of_firstBuilt (hTwins : Twins name s cached plain)
    (hColumn : s.stats.schema.locate column = .ok index)
    (hFirst : FirstBuilt cached name uses index before h) (op : Comparison) (constant : Constant) :
    (cached.afterUses name uses).estimated name column op constant =
      (plain.afterUses name before).estimated name column op constant := by
  obtain ⟨t, _, hNow, -, hStats⟩ := hTwins.exists_basis? uses
  obtain ⟨b, _, hCached, hPlain, hStats'⟩ := hTwins.exists_basis? before
  obtain ⟨b', hThen, hBuilt, -⟩ := exists_of_firstBuilt hFirst
  cases hCached.symm.trans hThen
  rcases hTwins.remembered_cases uses hNow index with
    ⟨-, hNone⟩ | ⟨_, _, hMemo, hOther⟩
  · exact absurd hFirst.built (hNone _ _)
  obtain ⟨-, rfl⟩ := hFirst.unique hOther
  rw [estimated_of_get? hNow (by rw [hStats]; exact hColumn) hMemo,
    estimated_of_none hPlain (by rw [Basis.plain, hStats']; exact hColumn) rfl]
  show _ = b.built index >>= _
  rw [hBuilt]
  rfl

theorem estimated_of_not_firstBuilt (hTwins : Twins name s cached plain)
    (hNone : ∀ index before h, s.stats.schema.locate column = .ok index →
      ¬ FirstBuilt cached name uses index before h) (op : Comparison) (constant : Constant) :
    (cached.afterUses name uses).estimated name column op constant =
      (plain.afterUses name uses).estimated name column op constant := by
  obtain ⟨t, _, hNow, hPlain, hStats⟩ := hTwins.exists_basis? uses
  have hSchema : t.stats.schema = s.stats.schema := by rw [hStats]
  cases hColumn : s.stats.schema.locate column with
  | error e =>
    rw [← hSchema] at hColumn
    rw [estimated_of_error hNow hColumn, estimated_of_error hPlain hColumn]
  | ok index =>
    rcases hTwins.remembered_cases uses hNow index with
      ⟨hMemo, -⟩ | ⟨before, h, -, hFirst⟩
    · rw [← hSchema] at hColumn
      rw [estimated_of_none hNow hColumn hMemo, estimated_of_none hPlain hColumn rfl]
      rfl
    · exact absurd hFirst (hNone index before h hColumn)

/-- Without remembering, an estimate depends on the rows that are read and on nothing else. -/
theorem estimated_plain_of_scan (hTwins : Twins name s cached plain)
    (hScan : ((cached.afterUses name before).basis? name).map Basis.scan =
      ((cached.afterUses name uses).basis? name).map Basis.scan)
    (hColumn : s.stats.schema.locate column = .ok index) (op : Comparison) (constant : Constant) :
    (plain.afterUses name before).estimated name column op constant =
      (plain.afterUses name uses).estimated name column op constant := by
  obtain ⟨b, _, hThen, hPlain, hStats⟩ := hTwins.exists_basis? before
  obtain ⟨t, _, hNow, hPlain', hStats'⟩ := hTwins.exists_basis? uses
  rw [hThen, hNow] at hScan
  rw [estimated_of_none hPlain (by rw [Basis.plain, hStats]; exact hColumn) rfl,
    estimated_of_none hPlain' (by rw [Basis.plain, hStats']; exact hColumn) rfl]
  show b.built index >>= _ = t.built index >>= _
  rw [Basis.built_of_scan hStats hStats' (Option.some.inj hScan)]

end Twins

/-- Whatever has happened to statistics and to their table, remembering histograms only caches. -/
theorem onlyCaches {name : String} {s : Basis} {cached plain : Workspace}
    (hTwins : Twins name s cached plain) : OnlyCaches name s.stats.schema cached plain := by
  refine ⟨fun uses before column op constant index h hColumn hFirst =>
    hTwins.estimated_of_firstBuilt hColumn hFirst op constant,
    fun uses column op constant hNone => hTwins.estimated_of_not_firstBuilt hNone op constant,
    fun uses => ?_, fun uses t column op constant index e hBasis hColumn hError => ?_,
    fun uses hSame column op constant => ?_⟩
  · obtain ⟨t, _, hNow, -, -⟩ := hTwins.exists_basis? uses
    refine ⟨t, hNow, fun index h => ?_⟩
    rcases hTwins.remembered_cases uses hNow index with
      ⟨hMemo, hNone⟩ | ⟨before, h', hMemo, hFirst⟩
    · simp only [hMemo, reduceCtorEq, false_iff, not_exists]
      exact fun before hFirst => hNone _ _ hFirst.built
    · rw [hMemo, Option.some.injEq]
      exact ⟨fun hSame => ⟨before, hSame ▸ hFirst⟩, fun ⟨_, hOther⟩ => (hFirst.unique hOther).2⟩
  · obtain ⟨t', _, hNow, -, hStats⟩ := hTwins.exists_basis? uses
    cases hBasis.symm.trans hNow
    rw [afterUses_concat, basis?_command hBasis,
      Basis.after_of_built_error (by rw [hStats]; exact hColumn) hError]
  · by_cases hNone : ∀ index before h, s.stats.schema.locate column = .ok index →
        ¬ FirstBuilt cached name uses index before h
    · exact hTwins.estimated_of_not_firstBuilt hNone op constant
    · push Not at hNone
      obtain ⟨index, before, h, hColumn, hFirst⟩ := hNone
      obtain ⟨-, -, -, hPrefix⟩ := exists_of_firstBuilt hFirst
      rw [hTwins.estimated_of_firstBuilt hColumn hFirst,
        hTwins.estimated_plain_of_scan (hSame before hPrefix) hColumn]

/-- A workspace with one table, of which no statistics have been taken. -/
def oneTable : Workspace :=
  { Workspace.create 4096 with
    catalog := ((Catalog.empty 4096).register "A" ⟨[⟨"id", .integer⟩]⟩ ""
      [[.int 1], [.int 9]]).1 }

/-- The statement at statistics of this table, taken with and without remembering. -/
theorem onlyCaches_oneTable : ∃ s,
    Twins "a" s (takeStats "a" 0 { buckets := 2, memoize := true } oneTable).1
      (takeStats "a" 0 { buckets := 2 } oneTable).1 ∧
    OnlyCaches "a" s.stats.schema (takeStats "a" 0 { buckets := 2, memoize := true } oneTable).1
      (takeStats "a" 0 { buckets := 2 } oneTable).1 := by
  obtain ⟨stats, hTaken⟩ := Outcome.exists_eq_ok_of_isSome
    (show (TableStats.take oneTable.catalog { buckets := 2 } 0 0).toOption.isSome = true by
      decide +kernel)
  have hTwins := twins_takeStats (w := oneTable) hTaken rfl "a"
  exact ⟨_, hTwins, onlyCaches hTwins⟩

-- a histogram that was built for another operator answers for the rows of that time
example :
    let uses : List Use := [.estimate (.name "id") .like (.number (.whole 1)),
      .change (.append "A" [[.int 8], [.int 7]])]
    (((takeStats "a" 0 { buckets := 2, memoize := true } oneTable).1.afterUses "a" uses).estimated
        "a" (.position 0) .less (.number (.whole 5))).toOption ≠
      (((takeStats "a" 0 { buckets := 2 } oneTable).1.afterUses "a" uses).estimated
        "a" (.position 0) .less (.number (.whole 5))).toOption := by
  decide +kernel

end JoinPlanner
