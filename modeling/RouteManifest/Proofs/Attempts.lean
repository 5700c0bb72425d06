import RouteManifest.Proofs.Generation
import RouteManifest.Proofs.OrderIndependence

/-!
# Every handler counts

A run goes over its handlers with four things in hand: the resolver, the operation ids of a unit, the owners of
operation ids and the faults so far. None of that is needed to say what comes out. The *candidates* of a run are the
handlers that are named after a verb, and each is *tried* in the state that the candidates before it left. The run
succeeds if all of them become routes with operation ids of their own, and then these routes are its output. If one
fails for good, its fault is the outcome; otherwise every candidate that is no route of its own has its fault
(`generate_all_or_nothing`).
-/

namespace RouteManifest

variable {c : Catalog}

/-! ## Candidates

Who is a candidate can be told without a resolver: by the names of the handlers and by the operation ids that the unit
has used before. Operation ids that are made up avoid these, so within a unit they never collide. -/

/-- The handlers of a unit that are named after a verb. -/
def ControllerUnit.verbHandlers (unit : ControllerUnit) : List Handler :=
  unit.handlers.filter fun h => (Verb.ofName? h.exportName).isSome

/-- A handler that a run is to make a route of. -/
structure Candidate where
  unit : ControllerUnit
  verb : Verb
  handler : Handler
  operationId : String

/-- The candidates among handlers of a unit that already uses some operation ids. -/
def candidatesFrom (rules : UrlRules) (unit : ControllerUnit) (used : List String) : List Handler → List Candidate
  | [] => []
  | h :: rest =>
    match Verb.ofName? h.exportName with
    | none => candidatesFrom rules unit used rest
    | some verb =>
      let id := operationIdFor used (rules.controllerName unit.path) verb h
      ⟨unit, verb, h, id⟩ :: candidatesFrom rules unit (id :: used) rest

/-- The candidates of units in the given order. -/
def candidates (rules : UrlRules) (units : List ControllerUnit) : List Candidate :=
  units.flatMap fun unit => candidatesFrom rules unit [] unit.handlers

section Candidates

variable {rules : UrlRules} {unit : ControllerUnit} {used : List String} {handlers : List Handler}

/-- The candidates of a unit belong to it. -/
theorem mem_candidatesFrom {q : Candidate} (h : q ∈ candidatesFrom rules unit used handlers) : q.unit = unit := by
  induction handlers generalizing used with
  | nil => cases h
  | cons handler rest ih =>
    rw [candidatesFrom] at h
    split at h
    · exact ih h
    · rcases List.mem_cons.mp h with rfl | h
      · rfl
      · exact ih h

/-- The candidates of a unit are its handlers with a verb for a name, in order. -/
theorem handlers_candidatesFrom : (candidatesFrom rules unit used handlers).map Candidate.handler =
    handlers.filter fun h => (Verb.ofName? h.exportName).isSome := by
  induction handlers generalizing used with
  | nil => rfl
  | cons handler rest ih =>
    rw [candidatesFrom]
    split
    next hnone => rw [List.filter_cons_of_neg (by rw [hnone]; decide), ih]
    next verb hverb => rw [List.filter_cons_of_pos (by rw [hverb]; rfl), List.map_cons, ih]

/-- An operation id that is made up differs from every one in use. -/
theorem operationIdFor_not_mem {name : String} {verb : Verb} {h : Handler} (hid : h.operationId = none) :
    operationIdFor used name verb h ∉ used := by
  rw [operationIdFor, hid]
  exact Text.fresh_not_mem used _

/-- An operation id that is made up is not one that was in use before. -/
theorem not_mem_of_candidatesFrom {q : Candidate} (h : q ∈ candidatesFrom rules unit used handlers)
    (hid : q.handler.operationId = none) : q.operationId ∉ used := by
  induction handlers generalizing used with
  | nil => cases h
  | cons handler rest ih =>
    rw [candidatesFrom] at h
    split at h
    · exact ih h
    · rcases List.mem_cons.mp h with rfl | h
      · exact operationIdFor_not_mem hid
      · exact fun hmem => ih h (List.mem_cons_of_mem _ hmem)

/-- An operation id that is made up differs from those of all candidates before. -/
theorem candidatesFrom_pairwise : (candidatesFrom rules unit used handlers).Pairwise fun p q =>
    q.handler.operationId = none → q.operationId ≠ p.operationId := by
  induction handlers generalizing used with
  | nil => exact .nil
  | cons handler rest ih =>
    rw [candidatesFrom]
    split
    · exact ih
    · refine List.pairwise_cons.mpr ⟨fun q hq hid heq => ?_, ih⟩
      exact not_mem_of_candidatesFrom hq hid (heq ▸ List.mem_cons_self)

end Candidates

/-! ## Attempts

An attempt is a candidate with its outcome, a route or a fault. `verdicts` judges the attempts from the left to the
right: a route is refused if an earlier one has its operation id, and that is the only thing an attempt needs to know of
those before it. -/

/-- A route, or why there is none. -/
abbrev Verdict := Except Fault Route

namespace Verdict

def route? : Verdict → Option Route
  | .ok route => some route
  | .error _ => none

def fault? : Verdict → Option Fault
  | .ok _ => none
  | .error fault => some fault

end Verdict

/-- A candidate with what became of it. -/
structure Attempt where
  candidate : Candidate
  outcome : Verdict

/-- Makes a route of a candidate. -/
def Candidate.build (rules : UrlRules) (providers : Providers) (q : Candidate) : Resolving c Route :=
  buildRoute providers (rules.address q.unit.path) q.verb q.operationId q.handler

/-- Tries candidates one after the other, each in the state that those before it left. -/
def attempts (rules : UrlRules) (providers : Providers) : List Candidate → Resolver c → List Attempt × Resolver c
  | [], r => ([], r)
  | q :: rest, r =>
    let (outcome, r₁) := (q.build rules providers).run r
    let (others, r₂) := attempts rules providers rest r₁
    (⟨q, outcome⟩ :: others, r₂)

/-- The routes of the attempts that succeeded. -/
def routesOf (tried : List Attempt) : List Route := (tried.map Attempt.outcome).filterMap Verdict.route?

/-- The faults of the attempts that failed. -/
def faultsOf (tried : List Attempt) : List Fault := (tried.map Attempt.outcome).filterMap Verdict.fault?

/-- The first fault that ends a run at once. -/
def fatal? (tried : List Attempt) : Option Fault := (faultsOf tried).find? Fault.isFatal

/-- The path of the controller that was the first to have a route with an operation id. -/
def owner? (earlier : List Attempt) (id : String) : Option String :=
  ((routesOf earlier).find? fun route => route.operationId == id).map Route.controllerPath

/-- What a run makes of an attempt after earlier ones: its fault, the fault that an earlier route has its operation id,
or its route. -/
def Attempt.verdict (earlier : List Attempt) (a : Attempt) : Verdict :=
  match a.outcome with
  | .error fault => .error fault
  | .ok route =>
    match owner? earlier route.operationId with
    | some owner =>
      .error (.invalidRoute (Progress.handlerLocation a.candidate.unit route.controllerMethod)
        (.duplicateOperationId route.operationId owner))
    | none => .ok route

/-- What a run makes of attempts in order. -/
def verdicts (earlier : List Attempt) : List Attempt → List Verdict
  | [] => []
  | a :: rest => a.verdict earlier :: verdicts (earlier ++ [a]) rest

section Tried

variable {rules : UrlRules} {providers : Providers}

/-- The first candidate is tried first, and the others in the state that it leaves. -/
theorem attempts_cons (q : Candidate) (rest : List Candidate) (r : Resolver c) :
    attempts rules providers (q :: rest) r =
      (⟨q, ((q.build rules providers).run r).1⟩ ::
       (attempts rules providers rest ((q.build rules providers).run r).2).1,
        (attempts rules providers rest ((q.build rules providers).run r).2).2) := rfl

/-- Trying two lists is trying the one and going on with the other in the state it has left. -/
theorem attempts_append (qs qs' : List Candidate) (r : Resolver c) :
    attempts rules providers (qs ++ qs') r =
      ((attempts rules providers qs r).1 ++ (attempts rules providers qs' (attempts rules providers qs r).2).1,
        (attempts rules providers qs' (attempts rules providers qs r).2).2) := by
  induction qs generalizing r with
  | nil => rfl
  | cons q rest ih => rw [List.cons_append, attempts_cons, attempts_cons, ih, List.cons_append]

/-- Every candidate is tried, whatever becomes of those before. -/
theorem candidates_attempts (qs : List Candidate) (r : Resolver c) :
    (attempts rules providers qs r).1.map Attempt.candidate = qs := by
  induction qs generalizing r with
  | nil => rfl
  | cons q rest ih => rw [attempts_cons, List.map_cons, ih]

/-- What a route has of its candidate. -/
structure Candidate.Makes (rules : UrlRules) (q : Candidate) (route : Route) : Prop where
  kind : route.kind = q.verb.kind
  method : route.method = q.verb.method
  url : route.url = rules.url q.unit.path
  operationId : route.operationId = q.operationId

/-- A route that is built has the verb, the address and the operation id of its candidate. -/
theorem makes_build {q : Candidate} {r r' : Resolver c} {route : Route}
    (h : (q.build rules providers).run r = (.ok route, r')) : q.Makes rules route := by
  obtain ⟨_, _, _, _, -, -, -, rfl⟩ := buildRoute_eq_ok h
  exact ⟨rfl, rfl, rfl, rfl⟩

/-- The routes of all attempts have what their candidates have. -/
theorem makes_attempts {qs : List Candidate} {r : Resolver c} {a : Attempt}
    (ha : a ∈ (attempts rules providers qs r).1) {route : Route} (h : a.outcome = .ok route) :
    a.candidate.Makes rules route := by
  induction qs generalizing r with
  | nil => cases ha
  | cons q rest ih =>
    rw [attempts_cons] at ha
    rcases List.mem_cons.mp ha with rfl | ha
    · exact makes_build (Prod.ext h rfl)
    · exact ih ha

/-- A route has the operation id that was chosen for it. -/
theorem operationId_attempts {qs : List Candidate} {r : Resolver c} {a : Attempt}
    (ha : a ∈ (attempts rules providers qs r).1) {route : Route} (h : a.outcome = .ok route) :
    route.operationId = a.candidate.operationId := (makes_attempts ha h).operationId

/-- What is fatal first is fatal first among the earlier attempts, if there is anything fatal among them. -/
theorem fatal?_append (tried tried' : List Attempt) : fatal? (tried ++ tried') = (fatal? tried).or (fatal? tried') := by
  rw [fatal?, faultsOf, List.map_append, List.filterMap_append, List.find?_append]
  rfl

/-! ## Runs over attempts

A computation `Ends` with some attempts: it stops at the first fatal fault among them, and otherwise it has a result of
which something is known. The rules for one attempt, for nothing and for `bind` are all that the extraction of units
needs. -/

/-- A computation that makes attempts and ends where they end: with the first fault that is fatal, or with something
good in the state that they left. -/
structure Ends {α : Type} (tried : List Attempt × Resolver c) (good : α → Prop) (run : Except Fault α × Resolver c) :
    Prop where
  fails : ∀ fatal, fatal? tried.1 = some fatal → run.1 = .error fatal
  goes : fatal? tried.1 = none → ∃ a, good a ∧ run = (.ok a, tried.2)

/-- A computation that attempts nothing is good as it is. -/
theorem Ends.pure {α : Type} {good : α → Prop} {a : α} (h : good a) (r : Resolver c) :
    Ends ([], r) good ((Pure.pure a : Resolving c α).run r) :=
  ⟨nofun, fun _ => ⟨a, h, rfl⟩⟩

/-- The attempts of a first part come before those of a second part, which go on in the state that the first left. -/
theorem Ends.bind {α β : Type} {m : Resolving c α} {f : α → Resolving c β} {good : α → Prop} {good' : β → Prop}
    {r : Resolver c} {tried tried' : List Attempt × Resolver c} (h : Ends tried good (m.run r))
    (hf : ∀ a, good a → Ends tried' good' ((f a).run tried.2)) :
    Ends (tried.1 ++ tried'.1, tried'.2) good' ((m >>= f).run r) := by
  rw [Resolving.run_bind]
  rcases hfatal : fatal? tried.1 with _ | first
  · obtain ⟨a, ha, hrun⟩ := h.goes hfatal
    rw [hrun]
    refine ⟨fun fatal hsome => (hf a ha).fails fatal ?_, fun hnone => (hf a ha).goes ?_⟩
    · rwa [fatal?_append, hfatal, Option.none_or] at hsome
    · rwa [fatal?_append, hfatal, Option.none_or] at hnone
  · have hrun := h.fails first hfatal
    rcases hm : m.run r with ⟨fault | a, r₁⟩
    · rw [hm] at hrun
      cases hrun
      refine ⟨fun fatal hsome => ?_, fun hnone => ?_⟩
      · rw [fatal?_append, hfatal, Option.some_or] at hsome
        rw [Option.some.inj hsome]
      · rw [fatal?_append, hfatal, Option.some_or] at hnone
        cases hnone
    · rw [hm] at hrun
      cases hrun

/-- What is done with the result of attempts attempts nothing. -/
theorem Ends.bind_pure {α β : Type} {m : Resolving c α} {g : α → β} {good : α → Prop} {good' : β → Prop}
    {r : Resolver c} {tried : List Attempt × Resolver c} (h : Ends tried good (m.run r))
    (hg : ∀ a, good a → good' (g a)) : Ends tried good' ((m >>= fun a => Pure.pure (g a)).run r) := by
  have hpure (a : α) (ha : good a) : Ends ([], tried.2) good' ((Pure.pure (g a) : Resolving c β).run tried.2) :=
    .pure (hg a ha) tried.2
  have := h.bind hpure
  rwa [List.append_nil] at this

/-- Trying a candidate is one attempt. -/
theorem attempt_ends (q : Candidate) (r : Resolver c) :
    Ends ([⟨q, ((q.build rules providers).run r).1⟩], ((q.build rules providers).run r).2)
      (· = ((q.build rules providers).run r).1)
      ((tryCatch (Except.ok <$> q.build rules providers) fun fault =>
        if fault.isFatal then throw fault else return .error fault : Resolving c Verdict).run r) := by
  rw [Resolving.run_tryCatch, Resolving.run_map]
  rcases (q.build rules providers).run r with ⟨fault | route, r₁⟩
  · rcases hfatal : fault.isFatal with _ | _
    · refine ⟨fun fatal h => ?_, fun _ => ⟨_, rfl, ?_⟩⟩
      · rw [show fatal? _ = List.find? Fault.isFatal [fault] from rfl, List.find?_cons, hfatal] at h
        cases h
      · simp only [Except.map, hfatal]
        rfl
    · refine ⟨fun fatal h => ?_, fun h => ?_⟩
      · rw [show fatal? _ = List.find? Fault.isFatal [fault] from rfl, List.find?_cons, hfatal] at h
        cases h
        simp only [Except.map, hfatal]
        rfl
      · rw [show fatal? _ = List.find? Fault.isFatal [fault] from rfl, List.find?_cons, hfatal] at h
        cases h
  · exact ⟨nofun, fun _ => ⟨_, rfl, rfl⟩⟩

/-- The routes and faults of a unit are those of its candidates. -/
theorem extractHandlers_ends (unit : ControllerUnit) (used : List String) (handlers : List Handler) (r : Resolver c)
    {tried : List Attempt × Resolver c}
    (htried : attempts rules providers (candidatesFrom rules unit used handlers) r = tried) :
    Ends tried (fun u => u.routes = routesOf tried.1 ∧ u.faults = faultsOf tried.1)
      ((extractHandlers providers (rules.address unit.path) used handlers : Resolving c UnitRoutes).run r) := by
  induction handlers generalizing used r tried with
  | nil =>
    subst htried
    exact .pure ⟨rfl, rfl⟩ r
  | cons handler rest ih =>
    rw [candidatesFrom] at htried
    rw [extractHandlers]
    split
    next hnone =>
      simp only [hnone] at htried
      exact ih used r htried
    next verb hverb =>
      simp only [hverb] at htried
      rw [attempts_cons] at htried
      subst htried
      refine (attempt_ends ⟨unit, verb, handler, _⟩ r).bind fun outcome houtcome => ?_
      refine (ih _ _ rfl).bind_pure fun others hothers => ?_
      rw [← houtcome]
      cases outcome with
      | ok route => exact ⟨congrArg (route :: ·) hothers.1, hothers.2⟩
      | error fault => exact ⟨hothers.1, congrArg (fault :: ·) hothers.2⟩

/-! ## What a run has so far

The progress of a run is a function of the attempts made up to now, so its three fields are accounted for together and
one unit at a time. -/

/-- A run has the routes, the faults and the owners that attempts come to. -/
structure Progress.Accounts (p : Progress) (tried : List Attempt) : Prop where
  routes : p.routes = (verdicts [] tried).filterMap Verdict.route?
  faults : p.faults.Perm ((verdicts [] tried).filterMap Verdict.fault?)
  owners : ∀ id, p.owners.find? id = owner? tried id

/-- Attempts are judged in the light of those before them. -/
theorem verdicts_append (earlier tried tried' : List Attempt) :
    verdicts earlier (tried ++ tried') = verdicts earlier tried ++ verdicts (earlier ++ tried) tried' := by
  induction tried generalizing earlier with
  | nil => rw [List.append_nil]; rfl
  | cons a rest ih => rw [List.cons_append, verdicts, ih, List.append_assoc, verdicts]; rfl

/-- An attempt that failed owns no operation id. -/
theorem owner?_concat_error (earlier : List Attempt) (q : Candidate) (fault : Fault) (id : String) :
    owner? (earlier ++ [⟨q, .error fault⟩]) id = owner? earlier id := by
  rw [owner?, routesOf, List.map_append, List.filterMap_append]
  show ((routesOf earlier ++ []).find? _).map _ = _
  rw [List.append_nil, owner?]

/-- An attempt that came to a route owns its operation id if nobody did before. -/
theorem owner?_concat_ok (earlier : List Attempt) (q : Candidate) (route : Route) (id : String) :
    owner? (earlier ++ [⟨q, .ok route⟩]) id =
      (owner? earlier id).or (if route.operationId = id then some route.controllerPath else none) := by
  rw [owner?, routesOf, List.map_append, List.filterMap_append]
  show ((routesOf earlier ++ [route]).find? _).map _ = _
  rw [List.find?_append, Option.map_or, ← owner?, List.find?_singleton]
  by_cases h : route.operationId = id
  · rw [if_pos h, if_pos (beq_iff_eq.mpr h)]
    rfl
  · rw [if_neg h, if_neg (mt beq_iff_eq.mp h)]
    rfl

/-- The routes of a unit are taken in one after the other, and their faults come to those of the other attempts. -/
theorem Progress.foldl_addRoute_eq {unit : ControllerUnit} {earlier tried : List Attempt} {p q : Progress}
    (hunit : ∀ a ∈ tried, a.candidate.unit = unit) (howners : ∀ id, p.owners.find? id = owner? earlier id)
    (hq : (routesOf tried).foldl (addRoute unit) p = q) :
    q.routes = p.routes ++ (verdicts earlier tried).filterMap Verdict.route? ∧
      (q.faults ++ faultsOf tried).Perm (p.faults ++ (verdicts earlier tried).filterMap Verdict.fault?) ∧
      ∀ id, q.owners.find? id = owner? (earlier ++ tried) id := by
  -- the owners of operation ids are those of the attempts so far, so the induction carries these along
  induction tried generalizing earlier p with
  | nil =>
    subst hq
    exact ⟨(List.append_nil _).symm, .refl _, by rwa [List.append_nil]⟩
  | cons a rest ih =>
    have ih {p : Progress} := @ih (earlier ++ [a]) p fun b hb => hunit b (List.mem_cons_of_mem _ hb)
    rw [List.append_assoc] at ih
    obtain ⟨candidate, fault | route⟩ := a
    · have howners (id : String) : p.owners.find? id = owner? (earlier ++ [⟨candidate, .error fault⟩]) id := by
        rw [owner?_concat_error, howners]
      obtain ⟨hroutes, hfaults, howners⟩ := ih howners hq
      exact ⟨hroutes, List.perm_middle.trans ((hfaults.cons fault).trans List.perm_middle.symm), howners⟩
    · rw [show routesOf (⟨candidate, .ok route⟩ :: rest) = route :: routesOf rest from rfl, List.foldl_cons, addRoute,
        howners] at hq
      rw [verdicts, Attempt.verdict]
      simp only
      rcases howner : owner? earlier route.operationId with _ | owner
      · have howners (id : String) : (p.owners.insert route.operationId route.controllerPath).find? id =
            owner? (earlier ++ [⟨candidate, .ok route⟩]) id := by
          rw [owner?_concat_ok, Table.find?_insert, howners]
          split
          next h => rw [← h, howner, Option.none_or]
          next h => rw [Option.or_none]
        simp only [howner] at hq
        obtain ⟨hroutes, hfaults, howners⟩ := ih howners hq
        refine ⟨?_, hfaults, howners⟩
        rw [hroutes, List.append_assoc]
        rfl
      · have howners (id : String) : p.owners.find? id = owner? (earlier ++ [⟨candidate, .ok route⟩]) id := by
          rw [owner?_concat_ok, howners]
          split
          next h => rw [← h, howner, Option.some_or]
          next h => rw [Option.or_none]
        simp only [howner] at hq
        obtain ⟨hroutes, hfaults, howners⟩ := ih (by exact howners) hq
        refine ⟨hroutes, ?_, howners⟩
        rw [List.append_assoc, ← hunit _ List.mem_cons_self] at hfaults
        exact hfaults

/-- Taking in a unit accounts for its attempts. -/
theorem Progress.Accounts.addUnit {p : Progress} {unit : ControllerUnit} {u : UnitRoutes} {earlier tried : List Attempt}
    (h : p.Accounts earlier) (hunit : ∀ a ∈ tried, a.candidate.unit = unit)
    (hu : u.routes = routesOf tried ∧ u.faults = faultsOf tried) : (p.addUnit unit u).Accounts (earlier ++ tried) := by
  obtain ⟨hroutes, hfaults, howners⟩ :=
    foldl_addRoute_eq (p := { p with faults := p.faults ++ u.faults }) hunit h.owners rfl
  rw [← hu.1] at hroutes hfaults howners
  refine ⟨?_, ?_, howners⟩
  · rw [verdicts_append, List.filterMap_append, ← h.routes]
    exact hroutes
  · rw [verdicts_append, List.filterMap_append]
    -- the faults of the unit stand before those of its routes, and cancel
    have hcancel : ((p.addUnit unit u).faults ++ u.faults).Perm
        ((p.faults ++ (verdicts earlier tried).filterMap Verdict.fault?) ++ u.faults) := by
      rw [hu.2]
      refine hfaults.trans ?_
      rw [hu.2, List.append_assoc, List.append_assoc]
      exact List.perm_append_comm.append_left p.faults
    exact ((List.perm_append_right_iff _).mp hcancel).trans (h.faults.append_right _)

/-- A run accounts for the attempts at the candidates of its units. -/
theorem extractUnits_ends {p : Progress} {earlier : List Attempt} (h : p.Accounts earlier) (units : List ControllerUnit)
    (r : Resolver c) :
    Ends (attempts rules providers (candidates rules units) r)
      (fun p' => p'.Accounts (earlier ++ (attempts rules providers (candidates rules units) r).1))
      ((extractUnits rules providers p units : Resolving c Progress).run r) := by
  induction units generalizing p earlier r with
  | nil => exact .pure (by rwa [show (attempts ..).1 = [] from rfl, List.append_nil]) r
  | cons unit rest ih =>
    rw [candidates, List.flatMap_cons, ← candidates, attempts_append]
    refine (extractHandlers_ends unit [] unit.handlers r rfl).bind fun u hu => ?_
    have hunit : ∀ a ∈ (attempts rules providers (candidatesFrom rules unit [] unit.handlers) r).1,
        a.candidate.unit = unit := by
      intro a ha
      have hmem := List.mem_map_of_mem (f := Attempt.candidate) ha
      rw [candidates_attempts] at hmem
      exact mem_candidatesFrom hmem
    have := ih (h.addUnit hunit hu) (attempts rules providers (candidatesFrom rules unit [] unit.handlers) r).2
    rw [List.append_assoc] at this
    exact this

end Tried

/-! ## Runs without a fault

What is left is to read the three ways in which a run ends off its attempts, and to see that all of them succeed just if
no candidate fails and no two have one operation id. -/

/-- A route is refused for its operation id alone. -/
theorem Attempt.verdict_ok {a : Attempt} {route : Route} (h : a.outcome = .ok route) (earlier : List Attempt) :
    (a.verdict earlier).fault? = none ↔ owner? earlier route.operationId = none := by
  rw [verdict, h]
  simp only
  rcases owner? earlier route.operationId with _ | owner
  · exact iff_of_true rfl rfl
  · exact iff_of_false (Option.some_ne_none _) (Option.some_ne_none _)

/-- No attempt is refused if and only if each comes to a route with an operation id that no route before it has. -/
theorem verdicts_fault?_eq_nil_iff {earlier tried : List Attempt}
    (hids : ∀ a ∈ tried, ∀ route, a.outcome = .ok route → route.operationId = a.candidate.operationId) :
    (∀ v ∈ verdicts earlier tried, v.fault? = none) ↔
      (∀ a ∈ tried, ∃ route, a.outcome = .ok route) ∧ (tried.map (·.candidate.operationId)).Nodup ∧
        ∀ a ∈ tried, owner? earlier a.candidate.operationId = none := by
  induction tried generalizing earlier with
  | nil => simp [verdicts]
  | cons a rest ih =>
    obtain ⟨hid, hids⟩ := List.forall_mem_cons.mp hids
    rw [verdicts]
    simp only [List.forall_mem_cons, List.map_cons, List.nodup_cons]
    rw [ih hids]
    obtain ⟨candidate, fault | route⟩ := a
    · constructor
      · rintro ⟨h, -⟩
        exact absurd (h : some fault = none) nofun
      · rintro ⟨⟨⟨_, h⟩, -⟩, -⟩
        cases h
    · have hid := hid route rfl
      rw [Attempt.verdict_ok rfl, hid]
      -- to all that come later the first attempt owns its operation id
      have howner (b : Attempt) : owner? (earlier ++ [⟨candidate, .ok route⟩]) b.candidate.operationId = none ↔
          owner? earlier b.candidate.operationId = none ∧ candidate.operationId ≠ b.candidate.operationId := by
        rw [owner?_concat_ok, hid, Option.or_eq_none_iff]
        simp
      have hmem : candidate.operationId ∉ rest.map (·.candidate.operationId) ↔
          ∀ b ∈ rest, candidate.operationId ≠ b.candidate.operationId := by
        rw [List.mem_map, not_exists]
        exact ⟨fun h b hb heq => h b ⟨hb, heq.symm⟩, fun h b hb => h b hb.1 hb.2.symm⟩
      simp only [howner]
      rw [hmem]
      constructor
      · rintro ⟨hnone, hok, hnodup, hfresh⟩
        exact ⟨⟨⟨route, rfl⟩, hok⟩, ⟨fun b hb => (hfresh b hb).2, hnodup⟩, hnone, fun b hb => (hfresh b hb).1⟩
      · rintro ⟨⟨-, hok⟩, ⟨hne, hnodup⟩, hnone, hfresh⟩
        exact ⟨hnone, hok, hnodup, fun b hb => ⟨hfresh b hb, hne b hb⟩⟩

/-- Where no attempt is refused, each is judged by its outcome. -/
theorem verdicts_eq_outcomes {earlier tried : List Attempt} (h : ∀ v ∈ verdicts earlier tried, v.fault? = none) :
    verdicts earlier tried = tried.map Attempt.outcome := by
  induction tried generalizing earlier with
  | nil => rfl
  | cons a rest ih =>
    rw [verdicts] at h
    obtain ⟨hverdict, hrest⟩ := List.forall_mem_cons.mp h
    rw [verdicts, ih hrest, List.map_cons]
    obtain ⟨candidate, fault | route⟩ := a
    · cases hverdict
    · rw [Attempt.verdict]
      simp only [(Attempt.verdict_ok rfl earlier).mp hverdict]

/-- Where none is refused, the routes are all there is. -/
theorem map_ok_filterMap_route? {l : List Verdict} (h : ∀ v ∈ l, v.fault? = none) :
    (l.filterMap Verdict.route?).map Except.ok = l := by
  induction l with
  | nil => rfl
  | cons v rest ih =>
    obtain ⟨hv, hrest⟩ := List.forall_mem_cons.mp h
    cases v with
    | error fault => cases hv
    | ok route => exact congrArg (.ok route :: ·) (ih hrest)

/-- The operation ids of the routes are those that were chosen for the candidates. -/
theorem operationIds_eq {routes : List Route} {tried : List Attempt}
    (h : routes.map Except.ok = tried.map Attempt.outcome)
    (hids : ∀ a ∈ tried, ∀ route, a.outcome = .ok route → route.operationId = a.candidate.operationId) :
    routes.map Route.operationId = tried.map (·.candidate.operationId) := by
  induction tried generalizing routes with
  | nil => rw [List.map_eq_nil_iff.mp h, List.map_nil, List.map_nil]
  | cons a rest ih =>
    obtain ⟨hid, hids⟩ := List.forall_mem_cons.mp hids
    cases routes with
    | nil => cases h
    | cons route routes =>
      obtain ⟨hroute, hroutes⟩ := List.cons.inj h
      rw [List.map_cons, List.map_cons, hid route hroute.symm, ih hroutes hids]

/-- A run in which no attempt failed has met nothing fatal. -/
theorem fatal?_eq_none_of_ok {tried : List Attempt} (h : ∀ a ∈ tried, ∃ route, a.outcome = .ok route) :
    fatal? tried = none := by
  rw [fatal?, List.find?_eq_none]
  intro fault hfault
  obtain ⟨v, hv, hfault⟩ := List.mem_filterMap.mp hfault
  obtain ⟨a, ha, rfl⟩ := List.mem_map.mp hv
  obtain ⟨route, hroute⟩ := h a ha
  rw [hroute] at hfault
  cases hfault

/-! ### A run as a whole

The three endings of a run, read off its attempts. -/

/-- A run is the first fault that is fatal, or accounts for all its attempts. -/
theorem generate_of_attempts {rules : UrlRules} {providers : Providers} {units : List ControllerUnit}
    {tried : List Attempt}
    (htried : (attempts rules providers (candidates rules (sortByPath units)) ({} : Resolver c)).1 = tried) :
    (∃ fatal, fatal? tried = some fatal ∧ generate c rules providers units = .error [fatal]) ∨
      fatal? tried = none ∧ ∃ (p : Progress) (schemas : List Entry), p.Accounts tried ∧
        generate c rules providers units = if p.faults.isEmpty then .ok ⟨p.routes, schemas⟩ else .error p.faults := by
  have hstart : Progress.Accounts {} [] := ⟨rfl, .refl _, fun _ => rfl⟩
  have hrun := @extractUnits_ends c rules providers _ _ hstart (sortByPath units) {}
  rw [htried, List.nil_append] at hrun
  rw [generate]
  rcases hfatal : fatal? tried with _ | fatal
  · obtain ⟨p, hp, heq⟩ := hrun.goes (htried ▸ hfatal)
    exact Or.inr ⟨rfl, p, _, hp, by rw [heq]⟩
  · have hfails := hrun.fails fatal (htried ▸ hfatal)
    rcases h : (extractUnits (c := c) rules providers {} (sortByPath units)).run {} with ⟨fault | p, r⟩
    · rw [h] at hfails
      cases hfails
      exact Or.inl ⟨fatal, rfl, rfl⟩
    · rw [h] at hfails
      cases hfails

/-- A run ends with the first fault that is fatal, or with the routes of all its attempts, or with the faults of those
that are refused. -/
theorem generate_cases {rules : UrlRules} {providers : Providers} {units : List ControllerUnit} {tried : List Attempt}
    (htried : (attempts rules providers (candidates rules (sortByPath units)) ({} : Resolver c)).1 = tried) :
    (∃ fatal, fatal? tried = some fatal ∧ generate c rules providers units = .error [fatal]) ∨
      fatal? tried = none ∧
        ((∀ v ∈ verdicts [] tried, v.fault? = none) ∧
            (∃ o, generate c rules providers units = .ok o ∧ o.routes.map Except.ok = tried.map Attempt.outcome) ∨
          (¬∀ v ∈ verdicts [] tried, v.fault? = none) ∧
            ∃ faults, generate c rules providers units = .error faults ∧
              faults.Perm ((verdicts [] tried).filterMap Verdict.fault?)) := by
  obtain hfatal | ⟨hfatal, p, schemas, hp, heq⟩ := generate_of_attempts htried
  · exact Or.inl hfatal
  · refine Or.inr ⟨hfatal, ?_⟩
    rcases hfaults : p.faults with _ | ⟨first, rest⟩
    · rw [hfaults] at heq
      have hnone : ∀ v ∈ verdicts [] tried, v.fault? = none :=
        List.filterMap_eq_nil_iff.mp (List.nil_perm.mp (hfaults ▸ hp.faults))
      refine Or.inl ⟨hnone, _, heq, ?_⟩
      rw [hp.routes, map_ok_filterMap_route? hnone, verdicts_eq_outcomes hnone]
    · rw [hfaults] at heq
      refine Or.inr ⟨fun hnone => ?_, p.faults, by rw [hfaults]; exact heq, hp.faults⟩
      have hperm := hp.faults
      rw [List.filterMap_eq_nil_iff.mpr hnone, hfaults] at hperm
      exact List.cons_ne_nil first rest (List.perm_nil.mp hperm)

/-- The routes of a run that succeeds are made of its candidates, whose operation ids are all different. -/
theorem routes_of_generate {rules : UrlRules} {providers : Providers} {units : List ControllerUnit} {o : Output}
    (h : generate c rules providers units = .ok o) :
    List.Forall₂ (Candidate.Makes rules) (candidates rules (sortByPath units)) o.routes ∧
      ((candidates rules (sortByPath units)).map Candidate.operationId).Nodup := by
  obtain ⟨fatal, -, heq⟩ | ⟨-, ⟨hnone, o', heq, hroutes⟩ | ⟨-, faults, heq, -⟩⟩ :=
    @generate_cases c rules providers units _ rfl
  · cases heq.symm.trans h
  · obtain rfl : o' = o := Except.ok.inj (heq.symm.trans h)
    obtain ⟨-, hids, -⟩ := (verdicts_fault?_eq_nil_iff fun a ha route => operationId_attempts ha).mp hnone
    have hcandidates := @candidates_attempts c rules providers (candidates rules (sortByPath units)) {}
    have hoks : List.Forall₂ Eq ((attempts rules providers (candidates rules (sortByPath units))
        ({} : Resolver c)).1.map Attempt.outcome) (o'.routes.map Except.ok) := by
      rw [List.forall₂_eq_eq_eq]
      exact hroutes.symm
    rw [List.forall₂_map_left_iff, List.forall₂_map_right_iff] at hoks
    rw [← hcandidates, List.forall₂_map_left_iff, List.map_map]
    refine ⟨?_, hids⟩
    exact ((List.forall₂_and_left _ _).mpr ⟨fun a ha => ha, hoks⟩).imp fun a route ha => makes_attempts ha.1 ha.2
  · cases heq.symm.trans h

/-- A run is all or nothing. Its candidates are the handlers that are named after a verb, unit by unit in the order of
paths. It succeeds if and only if each of them becomes a route, tried in the state that those before it left, and their
operation ids are all different; then it puts out these routes in order. It fails with the fault that ended it, or with
exactly one fault for each candidate that became no route or whose operation id an earlier route has. An operation id
that is made up is not in use in its unit. -/
theorem generate_all_or_nothing (rules : UrlRules) (providers : Providers) (units : List ControllerUnit) :
    let ordered := sortByPath units
    let tried := (attempts rules providers (candidates rules ordered) ({} : Resolver c)).1
    (ordered.Perm units ∧ ordered.Pairwise ControllerUnit.NotAfter ∧
      tried.map (·.candidate.handler) = ordered.flatMap ControllerUnit.verbHandlers) ∧
    ((∃ o, generate c rules providers units = .ok o) ↔
      (∀ a ∈ tried, ∃ route, a.outcome = .ok route) ∧ (tried.map (·.candidate.operationId)).Nodup) ∧
    (∀ o, generate c rules providers units = .ok o →
      o.routes.map Except.ok = tried.map Attempt.outcome ∧ (o.routes.map Route.operationId).Nodup) ∧
    (∀ faults, generate c rules providers units = .error faults →
      (∃ fatal, fatal? tried = some fatal ∧ faults = [fatal]) ∨
        fatal? tried = none ∧ faults.Perm ((verdicts [] tried).filterMap Verdict.fault?)) ∧
    ∀ unit ∈ units, (candidatesFrom rules unit [] unit.handlers).Pairwise fun p q =>
      q.handler.operationId = none → q.operationId ≠ p.operationId := by
  intro ordered tried
  have hids (a : Attempt) (ha : a ∈ tried) (route : Route) (h : a.outcome = .ok route) :
      route.operationId = a.candidate.operationId := operationId_attempts ha h
  have hhandlers : tried.map (·.candidate.handler) = ordered.flatMap ControllerUnit.verbHandlers := by
    show List.map (Candidate.handler ∘ Attempt.candidate) tried = _
    rw [← List.map_map, candidates_attempts, candidates, List.map_flatMap]
    exact List.flatMap_congr fun unit _ => handlers_candidatesFrom
  -- no verdict is a fault just if no attempt failed and no operation id comes twice
  have hgood : (∀ v ∈ verdicts [] tried, v.fault? = none) ↔
      (∀ a ∈ tried, ∃ route, a.outcome = .ok route) ∧ (tried.map (·.candidate.operationId)).Nodup := by
    rw [verdicts_fault?_eq_nil_iff hids]
    exact and_congr_right' (and_iff_left fun _ _ => rfl)
  have hcandidates := And.intro (sortByPath_perm units) (And.intro (sortByPath_sorted units) hhandlers)
  have hmade : ∀ unit ∈ units, (candidatesFrom rules unit [] unit.handlers).Pairwise fun p q =>
      q.handler.operationId = none → q.operationId ≠ p.operationId := fun _ _ => candidatesFrom_pairwise
  have htried : (attempts rules providers (candidates rules ordered) ({} : Resolver c)).1 = tried := rfl
  rw [← hgood]
  -- the three ways in which a run ends, each with what the statement says of it
  obtain ⟨fatal, hfatal, heq⟩ | ⟨hfatal, ⟨hnone, o, heq, hroutes⟩ | ⟨hsome, faults, heq, hperm⟩⟩ :=
    generate_cases htried <;> rw [heq]
  · have hrefused : ¬∀ v ∈ verdicts [] tried, v.fault? = none := fun hnone => by
      rw [fatal?_eq_none_of_ok (hgood.mp hnone).1] at hfatal
      cases hfatal
    refine ⟨hcandidates, iff_of_false (by rintro ⟨_, ⟨⟩⟩) hrefused, by rintro _ ⟨⟩, ?_, hmade⟩
    rintro _ ⟨⟩
    exact Or.inl ⟨fatal, hfatal, rfl⟩
  · refine ⟨hcandidates, iff_of_true ⟨o, rfl⟩ hnone, ?_, by rintro _ ⟨⟩, hmade⟩
    rintro _ ⟨⟩
    refine ⟨hroutes, ?_⟩
    rw [operationIds_eq hroutes hids]
    exact (hgood.mp hnone).2
  · refine ⟨hcandidates, iff_of_false (by rintro ⟨_, ⟨⟩⟩) hsome, by rintro _ ⟨⟩, ?_, hmade⟩
    rintro _ ⟨⟩
    exact Or.inr ⟨hfatal, hperm⟩

end RouteManifest
