import JoinPlanner.Proofs.Planner.ExplainedTrees

/-!
# JoinPlanner — planners over time

A planner is used again and again, under a catalog that changes meanwhile. What it remembers
of one run must not show in the next: every run is that of a new planner, and an explanation
is one of the latest run, which failed, or it tells the plan and the estimates of that run.

* `Session`, `Call`     — a planner with its catalog, and what can happen to them.
* `latest`              — the latest request for an order, with the catalog that it found.
* `planner_afterAll`    — a planner remembers the latest request and nothing else.
* `explain_error`, `explain_ok` — a planner that remembers a failure, or a returned order.
* `OnlyLatest`, `onlyLatest_afterAll` — the statement about all calls.
-/

namespace JoinPlanner.Planner

open Outcome

-- ---------------------------------------------------------------------------
-- Calls
-- ---------------------------------------------------------------------------

/-- What can happen to a planner and its catalog. -/
inductive Call where
  | change (f : Catalog → Catalog)
  | order (visit : Visit) (stats : Snapshot) (selectivities : Option Selectivities)
      (explained : Bool)
  | explain

/-- Sets of joins are gone through in some order, each of their members once. -/
def Call.Fair : Call → Prop
  | order visit _ _ _ => ∀ l, (visit l).Perm l
  | _ => True

/-- A planner and the catalog that it reads. -/
structure Session where
  planner : Planner
  catalog : Catalog

namespace Session

/-- The session after a call. An order may fail; its planner has changed all the same. -/
def after (session : Session) : Call → Session
  | .change f => { session with catalog := f session.catalog }
  | .order visit stats selectivities explained =>
    { session with
      planner := (session.planner.order visit session.catalog stats selectivities explained).1 }
  | .explain => session

def afterAll (session : Session) (calls : List Call) : Session := calls.foldl after session

end Session

/-- A request for an order, with the catalog that it finds. -/
structure Request where
  visit : Visit
  catalog : Catalog
  stats : Snapshot
  selectivities : Option Selectivities
  explained : Bool

/-- The planner after the request, and its answer. -/
def Request.ordered (request : Request) (planner : Planner) : Planner × Traced (List Predicate) :=
  planner.order request.visit request.catalog request.stats request.selectivities
    request.explained

/-- The latest request among some calls, if there is one. -/
def latest (catalog : Catalog) : List Call → Option Request
  | [] => none
  | .change f :: rest => latest (f catalog) rest
  | .order visit stats selectivities explained :: rest =>
    (latest catalog rest).or (some ⟨visit, catalog, stats, selectivities, explained⟩)
  | .explain :: rest => latest catalog rest

theorem fair_of_latest {catalog : Catalog} {calls : List Call} {request : Request}
    (hFair : ∀ call ∈ calls, call.Fair) (h : latest catalog calls = some request) :
    ∀ l, (request.visit l).Perm l := by
  induction calls generalizing catalog with
  | nil => cases h
  | cons call rest ih =>
    have hRest : ∀ call ∈ rest, call.Fair := fun c hc => hFair c (List.mem_cons_of_mem call hc)
    cases call with
    | change f => exact ih hRest h
    | explain => exact ih hRest h
    | order visit stats selectivities explained =>
      rcases Option.or_eq_some_iff.mp h with hLater | ⟨-, hThis⟩
      · exact ih hRest hLater
      · cases hThis
        exact hFair _ List.mem_cons_self

-- ---------------------------------------------------------------------------
-- What is remembered
-- ---------------------------------------------------------------------------

variable {planner : Planner} {predicates : List Predicate} {visit : Visit} {catalog : Catalog}
  {stats : Snapshot} {selectivities : Option Selectivities} {explained : Bool}
  {found : List Predicate}

/-- An order does not depend on what is remembered of earlier runs. -/
theorem order_of_last (planner : Planner) (last : LastRun) (visit : Visit) (catalog : Catalog)
    (stats : Snapshot) (selectivities : Option Selectivities) (explained : Bool) :
    ({ planner with last } : Planner).order visit catalog stats selectivities explained =
      planner.order visit catalog stats selectivities explained := rfl

/-- After some calls a planner remembers the latest request, or what it did before. -/
theorem planner_afterAll (planner : Planner) (catalog : Catalog) (last : LastRun)
    (calls : List Call) :
    (Session.afterAll ⟨{ planner with last }, catalog⟩ calls).planner =
      match latest catalog calls with
      | none => { planner with last }
      | some request => (request.ordered planner).1 := by
  induction calls generalizing catalog last with
  | nil => rfl
  | cons call rest ih =>
    cases call with
    | change f => exact ih (f catalog) last
    | explain => exact ih catalog last
    | order visit stats selectivities explained =>
      -- only what is remembered has changed, and the calls after this one forget that
      obtain ⟨explanation, hLast⟩ :=
        exists_explanation_of_order planner visit catalog stats selectivities explained
      show (Session.afterAll ⟨(({ planner with last } : Planner).order visit catalog stats
        selectivities explained).1, catalog⟩ rest).planner = _
      rw [order_of_last, hLast, ih catalog, latest]
      cases latest catalog rest with
      | none => exact hLast.symm
      | some request => rfl

/-- A planner whose last run has failed has nothing to explain. -/
theorem explain_error (hFor : planner.IsFor predicates) (hVisit : ∀ l, (visit l).Perm l)
    {e : PlannerError}
    (h : (planner.order visit catalog stats selectivities explained).2.outcome = .error e) :
    (planner.order visit catalog stats selectivities explained).1.explain = .error .notOrdered := by
  rw [order_eq_run hFor hVisit] at h
  rw [explain_order]
  by_cases hJoins : planner.joins = []
  · obtain ⟨-, hOk⟩ := run_of_nil hJoins visit catalog stats selectivities
    cases hOk.symm.trans h
  · cases hFind : (planner.findPlans visit catalog stats selectivities).outcome with
    | error e => simp [run, hJoins, hFind, explain]
    | ok plans =>
      cases hPlan : plans.get? (JoinSet.ofList planner.joins) with
      | none => simp [run, hJoins, hFind, hPlan, explain]
      | some plan =>
        -- all tables have been scanned by the search, so the run cannot fail any more
        obtain ⟨scans, hScans⟩ := exists_scansOf (searched_of_findPlans hFor hVisit hFind) hVisit
        rw [(run_of_ok hJoins hFind).2, hPlan, hScans] at h
        cases h

/-- A planner that has returned an order explains it, with the estimates of that run. -/
theorem explain_ok (hFor : planner.IsFor predicates) (hVisit : ∀ l, (visit l).Perm l)
    (h : (planner.order visit catalog stats selectivities explained).2.outcome = .ok found) :
    ∃ plans estimates scans e,
      (planner.order visit catalog stats selectivities explained).1.last.plans = some plans ∧
      planner.stepEstimates plans found = .ok estimates ∧
      scansOf (planner.setting catalog stats selectivities) planner.joins = .ok scans ∧
      Explanation.ofOrder found estimates scans = .ok e ∧
      (planner.order visit catalog stats selectivities explained).1.explain = .ok e := by
  rcases order_cases h with ⟨hJoins, rfl, hPlans⟩ | ⟨hJoins, plans, plan, hFind, hPlans, hPlan, rfl⟩
  · refine ⟨.empty, [], [], ⟨[], []⟩, hPlans, rfl, ?_, rfl,
      explain_order.trans (explain_of_nil hJoins)⟩
    rw [hJoins]
    rfl
  · obtain ⟨scans, hScans⟩ := exists_scansOf (searched_of_findPlans hFor hVisit hFind) hVisit
    obtain ⟨estimates, placed, read, hEstimates, -, hExplain, -⟩ :=
      exists_explain hFor hVisit hJoins hFind hPlan hScans
    refine ⟨plans, estimates, scans, _, hPlans, hEstimates, hScans, ?_,
      explain_order.trans hExplain⟩
    rw [last_of_ok hJoins hFind hPlan hScans] at hExplain
    obtain ⟨estimates', hSame, hTree⟩ := bind_eq_ok.mp hExplain
    obtain rfl := Except.ok.inj (hEstimates.symm.trans hSame)
    exact hTree

-- ---------------------------------------------------------------------------
-- All calls
-- ---------------------------------------------------------------------------

/-- Of all calls so far only the latest request shows, and in explanations only. -/
structure OnlyLatest (planner : Planner) (session : Session) (request : Option Request) :
    Prop where
  /-- Another order is that of a planner that has not run yet: its outcome, what it tells on
  its way, and all that the planner remembers afterwards. -/
  order : ∀ visit stats selectivities explained,
    session.planner.order visit session.catalog stats selectivities explained =
      planner.order visit session.catalog stats selectivities explained
  /-- There is nothing to explain exactly if there was no request, or the latest one failed. -/
  notOrdered : session.planner.explain = .error .notOrdered ↔
    ∀ latest, request = some latest → ∃ e, (latest.ordered planner).2.outcome = .error e
  /-- Otherwise the order of the latest request is explained, with its plans and its scans. -/
  explained : ∀ latest found, request = some latest →
    (latest.ordered planner).2.outcome = .ok found → ∃ plans estimates scans e,
      (latest.ordered planner).1.last.plans = some plans ∧
      planner.stepEstimates plans found = .ok estimates ∧
      scansOf (planner.setting latest.catalog latest.stats latest.selectivities)
        planner.joins = .ok scans ∧
      Explanation.ofOrder found estimates scans = .ok e ∧
      session.planner.explain = .ok e

/-- A planner never shows what it did before its latest request, whatever is asked of it. -/
theorem onlyLatest_afterAll {fraction : Quantity} {verbose : Bool}
    (hNew : (create predicates fraction verbose).outcome = .ok planner) (catalog : Catalog)
    {calls : List Call} (hFair : ∀ call ∈ calls, call.Fair) :
    OnlyLatest planner (Session.afterAll ⟨planner, catalog⟩ calls) (latest catalog calls) := by
  have hFor := isFor_create hNew
  have hLast : planner.explain = .error .notOrdered := by
    cases hNew
    rfl
  have hPlanner := planner_afterAll planner catalog planner.last calls
  refine ⟨fun visit stats selectivities explained => ?_, ?_, fun request found hLatest hOk => ?_⟩
  · rw [hPlanner]
    cases latest catalog calls with
    | none => rfl
    | some request =>
      obtain ⟨explanation, hLast⟩ := exists_explanation_of_order planner request.visit
        request.catalog request.stats request.selectivities request.explained
      show (request.ordered planner).1.order _ _ _ _ _ = _
      rw [Request.ordered, hLast]
      exact order_of_last planner _ _ _ _ _ _
  · rw [hPlanner]
    cases hLatest : latest catalog calls with
    | none => exact iff_of_true hLast fun request hSome => by cases hSome
    | some request =>
      have hVisit := fair_of_latest hFair hLatest
      cases hOutcome : (request.ordered planner).2.outcome with
      | error e =>
        refine iff_of_true (explain_error hFor hVisit hOutcome) fun other hSome => ?_
        cases hSome
        exact ⟨e, hOutcome⟩
      | ok found =>
        obtain ⟨_, _, _, _, -, -, -, -, hExplain⟩ := explain_ok hFor hVisit hOutcome
        refine iff_of_false (fun h => ?_) fun h => ?_
        · cases hExplain.symm.trans h
        · obtain ⟨e, hError⟩ := h request rfl
          cases hOutcome.symm.trans hError
  · rw [hPlanner, hLatest]
    exact explain_ok hFor (fair_of_latest hFair hLatest) hOk

/-- Three requests, the second of which finds no tables; so would a fourth one. -/
def sampleCalls : List Call :=
  [.order List.reverse sampleStats none true, .change fun _ => Catalog.empty 4096,
    .order id sampleStats none false, .explain, .change fun _ => sampleCatalog,
    .order List.reverse sampleStats none false, .change fun _ => Catalog.empty 4096, .explain]

/-- The statement at these calls, which end with an order that has been explained. -/
theorem onlyLatest_afterAll_sample :
    (create sampleJoins defaultFraction false).outcome = .ok (samplePlanner sampleJoins) ∧
      (∀ call ∈ sampleCalls, call.Fair) ∧
      OnlyLatest (samplePlanner sampleJoins)
        (Session.afterAll ⟨samplePlanner sampleJoins, sampleCatalog⟩ sampleCalls)
        (latest sampleCatalog sampleCalls) ∧
      ∃ e, (Session.afterAll ⟨samplePlanner sampleJoins, sampleCatalog⟩
        sampleCalls).planner.explain = .ok e := by
  have hNew : (create sampleJoins defaultFraction false).outcome =
      .ok (samplePlanner sampleJoins) := rfl
  have hFair : ∀ call ∈ sampleCalls, call.Fair := by
    have hReverse : ∀ l : List Predicate, l.reverse.Perm l := fun l => l.reverse_perm
    simp [sampleCalls, Call.Fair, hReverse]
  have hOnly := onlyLatest_afterAll hNew sampleCatalog hFair
  refine ⟨hNew, hFair, hOnly, ?_⟩
  obtain ⟨request, hLatest, hOk⟩ : ∃ request, latest sampleCatalog sampleCalls = some request ∧
      ((request.ordered (samplePlanner sampleJoins)).2.outcome.toOption).isSome = true :=
    ⟨⟨List.reverse, sampleCatalog, sampleStats, none, false⟩, rfl, by decide +kernel⟩
  obtain ⟨found, hFound⟩ := exists_eq_ok_of_isSome hOk
  obtain ⟨_, _, _, e, -, -, -, -, hExplain⟩ := hOnly.explained request found hLatest hFound
  exact ⟨e, hExplain⟩

end JoinPlanner.Planner
