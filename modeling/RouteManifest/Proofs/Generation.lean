import RouteManifest.Generation
import RouteManifest.Proofs.Binding.Request
import RouteManifest.Proofs.Resolution.Closed

/-!
# A run leaves no reference open

Everything that a successful run puts out points at registered schemas only. Outside of a resolution no
expansion is pending, so a coherent resolver is one whose schemas point at registered ones; every step of
the binding and of the extraction of routes goes from one such resolver to the next, as long as none fails.

A run that goes on after a fault keeps the fault, and in the end it does not succeed. So it is enough to follow runs in
which every step succeeds (`generate_eq_ok`). Schemas that were closed at an earlier step stay closed, since nothing that
is registered is ever taken away (`Resolver.Closes.moves`).
-/

namespace RouteManifest

variable {c : Catalog}

/-- Schemas that point at registered schemas only. -/
def Resolver.Closes (r : Resolver c) (l : List Schema) : Prop :=
  ∀ s ∈ l, s.Closed (({} : Pending c).Live r.registry)

/-- What pointed at registered schemas does so later. -/
theorem Resolver.Closes.moves {r r' : Resolver c} (h : Registry.Moves r.registry r'.registry) {l : List Schema}
    (hl : r.Closes l) : r'.Closes l :=
  fun s hs => (hl s hs).mono fun _ hid _ => hid.moves h

/-- What was closed before, together with what is closed now. -/
theorem Resolver.Closes.append {r r' : Resolver c} (h : Registry.Moves r.registry r'.registry) {l l' : List Schema}
    (hl : r.Closes l) (hl' : r'.Closes l') : r'.Closes (l ++ l') := by
  intro s hs
  rcases List.mem_append.mp hs with hs | hs
  · exact hl.moves h s hs
  · exact hl' s hs

/-- One step of a run: from a coherent resolver to a later one. -/
structure Continues (r r' : Resolver c) : Prop where
  moves : Registry.Moves r.registry r'.registry
  coherent : Coherent {} r'

/-- A coherent resolver goes on from itself. -/
theorem Continues.refl {r : Resolver c} (hr : Coherent {} r) : Continues r r := ⟨.refl, hr⟩

/-- Steps follow one another. -/
theorem Continues.trans {r r' r'' : Resolver c} (h : Continues r r') (h' : Continues r' r'') : Continues r r'' :=
  ⟨h.moves.trans h'.moves, h'.coherent⟩

/-- A call that succeeds is a step, and its answer points at registered schemas only. -/
theorem resolve_closed {e : TypeExpr} {origin : Location} {r r' : Resolver c} {s : Schema}
    (h : (resolve e origin : Resolving c Schema).run r = (.ok s, r')) (hr : Coherent {} r) :
    Continues r r' ∧ r'.Closes [s] := by
  have hruns : Runs {} (.node [] origin e) r (.ok s) r' := runs_iff.mpr h
  obtain ⟨hr', hs⟩ := (hruns.coherent (.outside trivial hr nofun)).ok s rfl
  exact ⟨⟨hruns.moves, hr'⟩, hs⟩

/-- What a parameter of a closed schema adds to the request is closed: the schema, or a property of an object that is
seen in it. -/
theorem Contributes.closed {P : String → Prop} {registry : Registry} {schema s : Schema}
    (h : Contributes registry schema s) (hregistry : registry.Closed P) (hschema : schema.Closed P) :
    s.Closed P := by
  cases h with
  | self => exact hschema
  | property htarget hview hmem =>
    refine (Registry.closed_objectView? hregistry ?_ hview).properties hmem
    rcases htarget with rfl | hu
    · exact hschema
    · exact Schema.closed_unwrapNullable? hschema hu

namespace Bind

variable {parts parts' : RequestParts} {r r' : Resolver c} {b : Binding}

/-- A parameter read from the request. -/
theorem Reads.closed {verb : Verb} {p : Parameter} (h : Reads verb p parts r b parts' r') (hr : Coherent {} r)
    (hparts : r.Closes parts.schemas) :
    Continues r r' ∧ r'.Closes parts'.schemas ∧ r'.Closes b.schemas := by
  cases h with
  | raw => exact ⟨.refl hr, hparts, fun _ hs => by cases hs⟩
  | schema hs htakes =>
    obtain ⟨hcont, hschema⟩ := resolve_closed hs hr
    obtain ⟨hb, hrequest⟩ := htakes.contributes
    rw [hb]
    refine ⟨hcont, fun t ht => ?_, hschema⟩
    rcases hrequest t ht with ht | ht
    · exact hparts.moves hcont.moves t ht
    · exact ht.closed hcont.coherent.closed (hschema _ List.mem_cons_self)

/-- Binding parameters, with all the providers behind them. -/
theorem Binds.closed {providers : Providers} {verb : Verb} {ps : List Parameter} {bs : List Binding}
    (h : Binds providers verb ps parts r bs parts' r') (hr : Coherent {} r) (hparts : r.Closes parts.schemas) :
    Continues r r' ∧ r'.Closes parts'.schemas ∧ r'.Closes (Binding.schemasOf bs) := by
  induction h with
  | nil => exact ⟨.refl hr, hparts, fun _ hs => by cases hs⟩
  | read _ hread _ ih =>
    obtain ⟨hcont, hparts₁, hschemas⟩ := hread.closed hr hparts
    obtain ⟨hcont', hparts', hschemas'⟩ := ih hcont.coherent hparts₁
    exact ⟨hcont.trans hcont', hparts', .append hcont'.moves hschemas hschemas'⟩
  | provided _ _ _ _ ihDeps ih =>
    obtain ⟨hcont, hparts₁, hschemas⟩ := ihDeps hr hparts
    obtain ⟨hcont', hparts', hschemas'⟩ := ih hcont.coherent hparts₁
    exact ⟨hcont.trans hcont', hparts', .append hcont'.moves hschemas hschemas'⟩

end Bind

/-! ## Routes

From the parameters of a handler to its route, from there to a unit, and on to all units. -/

/-- The schemas of the parts of a request and of the response. -/
def RouteSchema.schemas (s : RouteSchema) : List Schema :=
  s.params.toList ++ s.querystring.toList ++ s.body.toList ++ s.headers.toList ++ [s.response]

/-- All schemas of a route, those by which its parameters are read included. -/
def Route.schemas (r : Route) : List Schema := r.schema.schemas ++ Binding.schemasOf r.parameters

/-- The bindings of a handler are a step, and all schemas that come of them are closed. -/
theorem bindAll_closed {providers : Providers} {verb : Verb} {tokens : List String} {params : List Parameter}
    {r r' : Resolver c} {bindings : List Binding} {parts : RequestParts}
    (h : (bindAll providers verb tokens params).run r = (.ok (bindings, parts), r')) (hr : Coherent {} r) :
    Continues r r' ∧ r'.Closes parts.schemas ∧ r'.Closes (Binding.schemasOf bindings) :=
  (Bind.binds_of_bindAll h).closed hr fun _ hs => by cases hs

/-- The schema of a place is closed if its properties are. -/
theorem Properties.closed_toSchema? {P : String → Prop} {p : Properties} (h : ∀ s ∈ Table.values p.schemas, s.Closed P)
    {closed : Bool} {s : Schema} (hs : p.toSchema? closed = some s) : s.Closed P := by
  rw [toSchema?] at hs
  split at hs
  · cases hs
  · obtain rfl := Option.some.inj hs
    exact Schema.closed_object h _ _

/-- The schemas of a route are closed if its parts and its response are. -/
theorem RequestParts.closed_toRouteSchema {P : String → Prop} {parts : RequestParts}
    (h : ∀ s ∈ parts.schemas, s.Closed P) {response : Schema} (hresponse : response.Closed P) :
    ∀ s ∈ (parts.toRouteSchema response).schemas, s.Closed P := by
  intro s hs
  simp only [RouteSchema.schemas, toRouteSchema, List.mem_append, Option.mem_toList, List.mem_singleton] at hs
  rcases hs with (((hs | hs) | hs) | hs) | rfl
  · exact Properties.closed_toSchema? (fun t ht => h t (mem_schemas.mpr (Or.inl ht))) hs
  · exact Properties.closed_toSchema? (fun t ht => h t (mem_schemas.mpr (Or.inr (Or.inl ht)))) hs
  · exact h s (mem_schemas.mpr (Or.inr (Or.inr (Or.inr hs))))
  · exact Properties.closed_toSchema? (fun t ht => h t (mem_schemas.mpr (Or.inr (Or.inr (Or.inl ht))))) hs
  · exact hresponse

/-- A handler becomes a route if its parameters are bound, its path parameters are those of the URL, and its response
has a schema. -/
theorem buildRoute_eq_ok {providers : Providers} {address : UnitAddress} {verb : Verb} {operationId : String}
    {handler : Handler} {r r' : Resolver c} {route : Route}
    (h : (buildRoute providers address verb operationId handler).run r = (.ok route, r')) :
    ∃ bindings parts response r₁,
      (bindAll providers verb address.tokens handler.params).run r = (.ok (bindings, parts), r₁) ∧
      tokenFault? address parts.paramNames = none ∧
      (resolve handler.response handler.location).run r₁ = (.ok response, r') ∧
      route = {
        kind := verb.kind
        method := verb.method
        url := address.url
        operationId
        controllerName := address.controllerName
        controllerMethod := handler.exportName
        controllerPath := address.controllerPath
        description := handler.description
        parameters := bindings
        schema := parts.toRouteSchema response
        shortCircuits := parts.shortCircuits } := by
  obtain ⟨⟨bindings, parts⟩, r₁, hbind, h₁⟩ := Resolving.run_bind_eq_ok.mp h
  simp only at h₁
  split at h₁
  · cases h₁
  next htokens =>
    obtain ⟨response, r₂, hresponse, h₂⟩ := Resolving.run_bind_eq_ok.mp h₁
    cases h₂
    exact ⟨bindings, parts, response, r₁, hbind, htokens, hresponse, rfl⟩

/-- Building a route is a step, and all schemas of the route are closed. -/
theorem buildRoute_closed {providers : Providers} {address : UnitAddress} {verb : Verb} {operationId : String}
    {handler : Handler} {r r' : Resolver c} {route : Route}
    (h : (buildRoute providers address verb operationId handler).run r = (.ok route, r')) (hr : Coherent {} r) :
    Continues r r' ∧ r'.Closes route.schemas := by
  obtain ⟨bindings, parts, response, r₁, hbind, -, hresponse, rfl⟩ := buildRoute_eq_ok h
  obtain ⟨hcont, hparts, hbindings⟩ := bindAll_closed hbind hr
  obtain ⟨hcont', hclosed⟩ := resolve_closed hresponse hcont.coherent
  refine ⟨hcont.trans hcont', fun s hs => ?_⟩
  rcases List.mem_append.mp hs with hs | hs
  · exact RequestParts.closed_toRouteSchema (hparts.moves hcont'.moves) (hclosed response List.mem_cons_self) s hs
  · exact hbindings.moves hcont'.moves s hs

/-- A route that is tried is there, or the fault that it failed with, which is not fatal. -/
theorem attempt_eq_ok {m : Resolving c Route} {r r' : Resolver c} {outcome : Except Fault Route}
    (h : (tryCatch (Except.ok <$> m) fun fault =>
      if fault.isFatal then throw fault else return .error fault : Resolving c (Except Fault Route)).run r =
        (.ok outcome, r')) :
    m.run r = (outcome, r') := by
  rw [Resolving.run_tryCatch, Resolving.run_map] at h
  rcases hm : m.run r with ⟨fault | route, r₁⟩
  · rw [hm] at h
    simp only [Except.map] at h
    by_cases hfatal : fault.isFatal = true
    · rw [if_pos hfatal] at h
      cases h
    · rw [if_neg hfatal] at h
      cases h
      rfl
  · rw [hm] at h
    cases h
    rfl

/-! ### Runs of the extraction

Over handlers and over units, as long as no fault is met. -/

/-- The routes of a unit in which no handler has failed are closed. -/
theorem extractHandlers_closed {providers : Providers} {address : UnitAddress} {used : List String}
    {handlers : List Handler} {r r' : Resolver c} {u : UnitRoutes}
    (h : (extractHandlers providers address used handlers).run r = (.ok u, r')) (hfaults : u.faults = [])
    (hr : Coherent {} r) : Continues r r' ∧ ∀ route ∈ u.routes, r'.Closes route.schemas := by
  induction handlers generalizing used r u with
  | nil =>
    cases h
    exact ⟨.refl hr, fun _ hroute => by cases hroute⟩
  | cons handler rest ih =>
    rw [extractHandlers] at h
    split at h
    · exact ih h hfaults hr
    · obtain ⟨outcome, r₁, hattempt, h₁⟩ := Resolving.run_bind_eq_ok.mp h
      obtain ⟨others, r₂, hrest, h₂⟩ := Resolving.run_bind_eq_ok.mp h₁
      have hbuild := attempt_eq_ok hattempt
      cases outcome with
      | error fault =>
        cases h₂
        cases hfaults
      | ok route =>
        cases h₂
        obtain ⟨hcont, hroute⟩ := buildRoute_closed hbuild hr
        obtain ⟨hcont', hroutes⟩ := ih hrest hfaults hcont.coherent
        refine ⟨hcont.trans hcont', fun other hother => ?_⟩
        rcases List.mem_cons.mp hother with rfl | hother
        · exact hroute.moves hcont'.moves
        · exact hroutes other hother

namespace Progress

/-- Taking routes in adds faults and routes, and takes none away. -/
theorem foldl_addRoute (unit : ControllerUnit) (routes : List Route) (p : Progress) :
    p.faults <+: (routes.foldl (addRoute unit) p).faults ∧
      ∀ route ∈ (routes.foldl (addRoute unit) p).routes, route ∈ p.routes ∨ route ∈ routes := by
  induction routes generalizing p with
  | nil => exact ⟨List.prefix_refl _, fun _ h => Or.inl h⟩
  | cons r rest ih =>
    obtain ⟨hfaults, hroutes⟩ := ih (addRoute unit p r)
    have hstep : p.faults <+: (addRoute unit p r).faults ∧
        ∀ route ∈ (addRoute unit p r).routes, route ∈ p.routes ∨ route = r := by
      rw [addRoute]
      split
      · exact ⟨List.prefix_append _ _, fun _ h => Or.inl h⟩
      · refine ⟨List.prefix_refl _, fun route h => ?_⟩
        simpa using h
    refine ⟨hstep.1.trans hfaults, fun route h => ?_⟩
    rcases hroutes route h with h | h
    · rcases hstep.2 route h with h | rfl
      · exact Or.inl h
      · exact Or.inr List.mem_cons_self
    · exact Or.inr (List.mem_cons_of_mem _ h)

/-- Faults that were there are there still. -/
theorem addUnit_faults {p : Progress} {unit : ControllerUnit} {u : UnitRoutes}
    (h : (p.addUnit unit u).faults = []) : p.faults = [] ∧ u.faults = [] := by
  have := (foldl_addRoute unit u.routes { p with faults := p.faults ++ u.faults }).1
  rw [show u.routes.foldl (addRoute unit) { p with faults := p.faults ++ u.faults } = p.addUnit unit u from rfl, h,
    List.prefix_nil] at this
  exact List.append_eq_nil_iff.mp this

end Progress

/-- A run that has met no fault in the end met none before. -/
theorem extractUnits_faults {rules : UrlRules} {providers : Providers} {p p' : Progress}
    {units : List ControllerUnit} {r r' : Resolver c}
    (h : (extractUnits rules providers p units).run r = (.ok p', r')) (hfaults : p'.faults = []) :
    p.faults = [] := by
  induction units generalizing p r with
  | nil =>
    cases h
    exact hfaults
  | cons unit rest ih =>
    obtain ⟨u, r₁, -, h₁⟩ := Resolving.run_bind_eq_ok.mp h
    exact (Progress.addUnit_faults (ih h₁)).1

/-- Units are extracted one after the other, and no schema of an earlier route comes to dangle. -/
theorem extractUnits_closed {rules : UrlRules} {providers : Providers} {p p' : Progress}
    {units : List ControllerUnit} {r r' : Resolver c}
    (h : (extractUnits rules providers p units).run r = (.ok p', r')) (hfaults : p'.faults = [])
    (hr : Coherent {} r) (hp : ∀ route ∈ p.routes, r.Closes route.schemas) :
    Coherent {} r' ∧ ∀ route ∈ p'.routes, r'.Closes route.schemas := by
  induction units generalizing p r with
  | nil =>
    cases h
    exact ⟨hr, hp⟩
  | cons unit rest ih =>
    obtain ⟨u, r₁, hu, h₁⟩ := Resolving.run_bind_eq_ok.mp h
    -- faults are never taken away, so there were none before either
    have hnone := Progress.addUnit_faults (extractUnits_faults h₁ hfaults)
    obtain ⟨hcont, hroutes⟩ := extractHandlers_closed hu hnone.2 hr
    refine ih h₁ hcont.coherent fun route hroute => ?_
    rcases (Progress.foldl_addRoute unit u.routes _).2 route hroute with hroute | hroute
    · exact (hp route hroute).moves hcont.moves
    · exact hroutes route hroute

/-! ## Runs

A run starts with an empty registry and ends with its entries put out. -/

/-- A run that succeeds has met no fault. -/
theorem generate_eq_ok {rules : UrlRules} {providers : Providers} {units : List ControllerUnit} {o : Output} :
    generate c rules providers units = .ok o ↔
      ∃ p r, (extractUnits (c := c) rules providers {} (sortByPath units)).run {} = (.ok p, r) ∧
        p.faults = [] ∧ o = ⟨p.routes, r.registry.entries⟩ := by
  rw [generate]
  rcases (extractUnits (c := c) rules providers {} (sortByPath units)).run {} with ⟨fatal | p, r⟩
  · constructor
    · intro h
      cases h
    · rintro ⟨_, _, h, -⟩
      cases h
  · simp only
    by_cases hp : p.faults = []
    · rw [if_pos (List.isEmpty_iff.mpr hp)]
      constructor
      · intro h
        cases h
        exact ⟨p, r, rfl, hp, rfl⟩
      · rintro ⟨_, _, h, -, rfl⟩
        cases h
        rfl
    · rw [if_neg (mt List.isEmpty_iff.mp hp)]
      constructor
      · intro h
        cases h
      · rintro ⟨_, _, h, hp', -⟩
        cases h
        exact absurd hp' hp

/-- What a successful run puts out points at its schemas only. -/
theorem generate_closed {rules : UrlRules} {providers : Providers} {units : List ControllerUnit} {o : Output}
    (h : generate c rules providers units = .ok o) {s : Schema}
    (hs : (∃ e ∈ o.schemas, s = e.schema) ∨ ∃ route ∈ o.routes, s ∈ route.schemas) :
    s.Closed (· ∈ o.schemas.map Entry.id) := by
  obtain ⟨p, r, hrun, hfaults, rfl⟩ := generate_eq_ok.mp h
  obtain ⟨hr, hroutes⟩ := extractUnits_closed hrun hfaults coherent_empty fun _ hroute => by cases hroute
  have hlive : s.Closed (({} : Pending c).Live r.registry) := by
    rcases hs with ⟨e, he, rfl⟩ | ⟨route, hroute, hs⟩
    · exact hr.closed e.id e.schema ((Registry.get?_eq_some_iff_mem hr.sound.names_nodup).mpr ⟨e, he, rfl, rfl⟩)
    · exact hroutes route hroute s hs
  refine hlive.mono fun id hid _ => ?_
  rcases hid with ⟨schema, hget⟩ | hid
  · obtain ⟨e, he, rfl, -⟩ := (Registry.get?_eq_some_iff_mem hr.sound.names_nodup).mp hget
    exact List.mem_map_of_mem he
  · cases hid

end RouteManifest
