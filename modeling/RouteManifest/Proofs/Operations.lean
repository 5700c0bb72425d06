import RouteManifest.Proofs.Address
import RouteManifest.Proofs.Attempts
import RouteManifest.Proofs.Lists
import RouteManifest.Proofs.OpenApi

/-!
# Operations of a document

A document has one place for a path and a method, its *slot*, and a route is written into its slot whether or not
something is there. So a slot holds the last of its routes (`operationAt?_foldl`), and a document has an operation for
every route just if no two routes have one slot.

A run only makes sure that operation ids differ. Where ids are made up that is enough: two routes of one slot have
controllers of one name and the same verb, so they would have been given one id (`slots_nodup`). An id that a handler
insists on, or the number behind the id of a second handler of one verb, lets two routes through that share a slot.
-/

namespace RouteManifest

variable {c : Catalog}

/-! ## Slots

A document has a table of paths, and a path has one place for each method. A route that is no websocket is written into
one of these places, so the document can be read as a function from slots to operations. -/

namespace OpenApi

/-- The methods that a document has a place for. -/
def methods : List String := ["GET", "POST", "PUT", "DELETE", "PATCH"]

/-- The operation of a method. -/
def PathItem.at? (item : PathItem) : String → Option Operation
  | "GET" => item.get
  | "POST" => item.post
  | "PUT" => item.put
  | "DELETE" => item.delete
  | "PATCH" => item.patch
  | _ => none

/-- The operation of a path and a method. -/
def operationAt? (paths : Table PathItem) (slot : String × String) : Option Operation :=
  (paths.find? slot.1).bind fun item => item.at? slot.2

namespace Document

/-- The operation of a path and a method. -/
def at? (d : Document) (slot : String × String) : Option Operation := operationAt? d.paths slot

/-- The operations with their slots. -/
def entries (d : Document) : List ((String × String) × Operation) :=
  d.paths.flatMap fun (path, item) => methods.filterMap fun method => (item.at? method).map fun o => ((path, method), o)

end Document

namespace Endpoint

/-- Where the operation of a route is put. -/
def slot (e : Endpoint) : String × String := (pathOf e.url, e.method)

/-- The operation of a route. -/
def operation (e : Endpoint) : Operation := operationOf e.method e.url e.operationId e.description e.schema

end Endpoint

/-- There is no operation for a method that has no place. -/
theorem PathItem.at?_eq_none {item : PathItem} {method : String} (h : method ∉ methods) : item.at? method = none := by
  simp only [methods, List.mem_cons, List.not_mem_nil, or_false, not_or] at h
  rw [at?.eq_def]
  split <;> simp_all

/-- An operation that is put in a place changes that place. -/
theorem PathItem.at?_withOperation {item : PathItem} {method : String} (hmethod : method ∈ methods)
    (operation : Operation) (other : String) :
    (item.withOperation method operation).at? other = if method = other then some operation else item.at? other := by
  by_cases hother : other ∈ methods
  · simp only [methods, List.mem_cons, List.not_mem_nil, or_false] at hmethod hother
    rcases hmethod with rfl | rfl | rfl | rfl | rfl <;> rcases hother with rfl | rfl | rfl | rfl | rfl <;> rfl
  · rw [at?_eq_none hother, at?_eq_none hother, if_neg]
    rintro rfl
    exact hother hmethod

/-! ### Writing routes

A route changes its own slot, so a slot holds the last of the routes that have it. -/

/-- A route that is not a websocket takes its slot, and leaves all others as they are. -/
theorem operationAt?_addEndpoint {e : Endpoint} (hmethod : e.method ∈ methods) (paths : Table PathItem)
    (slot : String × String) :
    operationAt? (addEndpoint paths e) slot =
      if e.kind = .rest ∧ e.slot = slot then some e.operation else operationAt? paths slot := by
  obtain ⟨path, method⟩ := slot
  rw [addEndpoint]
  cases hkind : e.kind with
  | websocket => exact (if_neg (by simp)).symm
  | rest =>
    simp only [operationAt?, Endpoint.slot, Prod.mk.injEq, true_and]
    by_cases hpath : pathOf e.url = path
    · subst hpath
      rw [Table.find?_insert_self, Option.bind_some, PathItem.at?_withOperation hmethod]
      rcases paths.find? (pathOf e.url) with _ | item
      · by_cases h : e.method = method
        · simp [h, Endpoint.operation]
        · simp only [h, if_false, and_false, Option.bind_none]
          rw [Option.getD_none, PathItem.at?.eq_def]
          split <;> rfl
      · simp [Endpoint.operation]
    · rw [Table.find?_insert_of_ne _ _ hpath, if_neg fun h => hpath h.1]

/-- A slot holds the operation of the last of its routes. -/
theorem operationAt?_foldl {endpoints : List Endpoint} (h : ∀ e ∈ endpoints, e.method ∈ methods)
    (slot : String × String) :
    operationAt? (endpoints.foldl addEndpoint []) slot =
      ((endpoints.filter fun e => e.kind = .rest).reverse.find? fun e => e.slot = slot).map Endpoint.operation := by
  induction endpoints using List.reverseRecOn with
  | nil => rfl
  | append_singleton rest e ih =>
    obtain ⟨hrest, he⟩ := List.forall_mem_append.mp h
    rw [List.foldl_append, List.foldl_cons, List.foldl_nil, operationAt?_addEndpoint (he e List.mem_cons_self),
      ih hrest, List.filter_append, List.reverse_append, List.filter_singleton]
    by_cases hkind : e.kind = .rest
    · by_cases hslot : e.slot = slot
      · simp [hkind, hslot]
      · simp [hkind, hslot]
    · simp [hkind]

/-- Paths are not repeated. -/
theorem nodup_foldl (endpoints : List Endpoint) (paths : Table PathItem) (h : paths.names.Nodup) :
    (Table.names (endpoints.foldl addEndpoint paths)).Nodup := by
  induction endpoints generalizing paths with
  | nil => exact h
  | cons e rest ih =>
    refine ih _ ?_
    rw [addEndpoint]
    split
    · exact h
    · exact Table.nodup_insert h _ _

namespace Document

variable {d : Document}

/-- The entries of a document are the slots that hold something. -/
theorem mem_entries (h : d.paths.names.Nodup) {slot : String × String} {operation : Operation} :
    (slot, operation) ∈ d.entries ↔ d.at? slot = some operation := by
  obtain ⟨path, method⟩ := slot
  rw [at?, operationAt?, Option.bind_eq_some_iff, entries, List.mem_flatMap]
  constructor
  · rintro ⟨⟨path', item⟩, hitem, hmem⟩
    obtain ⟨method', -, hentry⟩ := List.mem_filterMap.mp hmem
    obtain ⟨_, hoperation, heq⟩ := Option.map_eq_some_iff.mp hentry
    cases heq
    exact ⟨item, (Table.find?_eq_some_iff h).mpr hitem, hoperation⟩
  · rintro ⟨item, hitem, hoperation⟩
    refine ⟨(path, item), Table.mem_of_find? hitem, List.mem_filterMap.mpr ⟨method, ?_, ?_⟩⟩
    · by_contra hmethod
      rw [PathItem.at?_eq_none hmethod] at hoperation
      cases hoperation
    · rw [hoperation]
      rfl

/-- Slots are not repeated. -/
theorem nodup_entries (h : d.paths.names.Nodup) : (d.entries.map Prod.fst).Nodup := by
  rw [entries, List.map_flatMap, List.nodup_flatMap]
  constructor
  · rintro ⟨path, item⟩ -
    rw [List.map_filterMap]
    refine List.Nodup.filterMap (fun m m' slot hm hm' => ?_) (by decide)
    simp only [Option.map_map, Option.mem_def, Option.map_eq_some_iff, Function.comp_apply] at hm hm'
    obtain ⟨_, -, rfl⟩ := hm
    obtain ⟨_, -, heq⟩ := hm'
    exact (Prod.mk.inj heq).2.symm
  · refine (List.pairwise_map.mp h).imp fun {e e'} hne => ?_
    have hpath {e : String × PathItem} {slot : String × String}
        (hslot : slot ∈ List.map Prod.fst (methods.filterMap fun m => (e.2.at? m).map fun o => ((e.1, m), o))) :
        slot.1 = e.1 := by
      obtain ⟨_, hentry, rfl⟩ := List.mem_map.mp hslot
      obtain ⟨_, -, hm⟩ := List.mem_filterMap.mp hentry
      obtain ⟨_, -, rfl⟩ := Option.map_eq_some_iff.mp hm
      rfl
    exact fun slot hslot hslot' => hne ((hpath hslot).symm.trans (hpath hslot'))

/-- A document in which every slot holds the last of some routes has exactly the operations of these routes if they have
different slots, and only then. -/
theorem entries_perm_iff (h : d.paths.names.Nodup) {routes : List Endpoint}
    (hlast : ∀ slot, d.at? slot = (routes.reverse.find? fun e => e.slot = slot).map Endpoint.operation) :
    d.entries.Perm (routes.map fun e => (e.slot, e.operation)) ↔ (routes.map Endpoint.slot).Nodup := by
  have hslots : (routes.map fun e => (e.slot, e.operation)).map Prod.fst = routes.map Endpoint.slot := by
    rw [List.map_map]
    rfl
  constructor
  · intro hperm
    rw [← hslots]
    exact (hperm.map Prod.fst).nodup_iff.mp (nodup_entries h)
  · intro hnodup
    refine (List.perm_ext_iff_of_nodup (nodup_entries h).of_map (hslots ▸ hnodup).of_map).mpr ?_
    rintro ⟨slot, operation⟩
    rw [mem_entries h, hlast, Option.map_eq_some_iff, List.mem_map]
    constructor
    · rintro ⟨e, hfind, rfl⟩
      have hslot : e.slot = slot := by simpa using List.find?_some hfind
      exact ⟨e, List.mem_reverse.mp (List.mem_of_find?_eq_some hfind), by rw [hslot]⟩
    · rintro ⟨e, he, heq⟩
      cases heq
      -- the last route of the slot is the only one
      rcases hfind : routes.reverse.find? fun e' => e'.slot = e.slot with _ | e'
      · have := List.find?_eq_none.mp hfind e (List.mem_reverse.mpr he)
        simp at this
      · have hslot : e'.slot = e.slot := by simpa using List.find?_some hfind
        have he' := List.mem_reverse.mp (List.mem_of_find?_eq_some hfind)
        exact ⟨e', hfind, by rw [List.inj_on_of_nodup_map hnodup he' he hslot]⟩

end Document

end OpenApi

/-! ## Routes of a run

The verb tells the method and the kind of a route. Two verbs have one method only where one of them is for websockets.
-/

namespace Route

/-- Where the operation of the route stands in a document: its path and its method. -/
def slot (r : Route) : String × String := (OpenApi.endpointOf r).slot

/-- The operation of the route. -/
def operation (r : Route) : OpenApi.Operation := (OpenApi.endpointOf r).operation

end Route

/-- The routes that are no websockets. -/
def Output.restRoutes (o : Output) : List Route := o.routes.filter fun r => r.kind = .rest

/-- Every verb has a method with a place in the document. -/
theorem Verb.method_mem_methods (verb : Verb) : verb.method ∈ OpenApi.methods := by
  cases verb <;> decide

/-- But for websockets, a verb is known by its method. -/
theorem Verb.eq_of_method {verb other : Verb} (h : verb.kind = .rest) (h' : other.kind = .rest)
    (hmethod : verb.method = other.method) : verb = other := by
  revert h h' hmethod
  cases verb <;> cases other <;> decide

theorem Verb.eq_of_text {verb other : Verb} (h : verb.text = other.text) : verb = other := by
  revert h
  cases verb <;> cases other <;> decide

/-- The endpoints that are no websockets are those of the routes that are none. -/
theorem endpoints_restRoutes (o : Output) :
    ((o.routes.map OpenApi.endpointOf).filter fun e => e.kind = .rest) = o.restRoutes.map OpenApi.endpointOf := by
  rw [List.filter_map]
  rfl

/-! ## Operation ids that are made up

An operation id is made of the verb and the name of the controller, with a number behind it if the unit has used it
before. In a plain unit there are no numbers. -/

/-- A name that is not taken is fresh. -/
theorem Text.fresh_of_not_mem {taken : List String} {name : String} (h : name ∉ taken) : fresh taken name = name := by
  rw [fresh, List.range_succ_eq_map, List.map_cons, List.find?_cons_of_pos (by simpa [numbered] using h)]
  rfl

/-- The verb that a handler is named after. -/
def Handler.verb? (h : Handler) : Option Verb := Verb.ofName? h.exportName

/-- No handler insists on an operation id, and no two are named after one verb. -/
structure ControllerUnit.Plain (unit : ControllerUnit) : Prop where
  operationId : ∀ h ∈ unit.handlers, h.operationId = none
  verbs : (unit.handlers.filterMap Handler.verb?).Nodup

/-- The operation id is that of the verb and the controller, without a number. -/
def Candidate.Plain (rules : UrlRules) (q : Candidate) : Prop :=
  q.operationId = q.verb.text ++ controllerStem (rules.controllerName q.unit.path)

/-- In a unit with one handler for a verb no operation id needs a number. -/
theorem plain_candidatesFrom {rules : UrlRules} {unit : ControllerUnit} {used : List String} {handlers : List Handler}
    (hids : ∀ h ∈ handlers, h.operationId = none)
    (hverbs : (handlers.filterMap Handler.verb?).Nodup)
    (hused : ∀ verb ∈ handlers.filterMap Handler.verb?,
      verb.text ++ controllerStem (rules.controllerName unit.path) ∉ used) :
    ∀ q ∈ candidatesFrom rules unit used handlers, q.Plain rules := by
  induction handlers generalizing used with
  | nil => exact nofun
  | cons handler rest ih =>
    obtain ⟨hid, hids⟩ := List.forall_mem_cons.mp hids
    rw [candidatesFrom]
    split
    next hnone =>
      have hnone : handler.verb? = none := hnone
      rw [List.filterMap_cons_none hnone] at hverbs hused
      exact ih hids hverbs hused
    next verb hverb =>
      have hverb : handler.verb? = some verb := hverb
      rw [List.filterMap_cons_some hverb] at hverbs hused
      obtain ⟨hfresh, hverbs⟩ := List.nodup_cons.mp hverbs
      obtain ⟨hnew, hused⟩ := List.forall_mem_cons.mp hused
      have heq : operationIdFor used (rules.controllerName unit.path) verb handler =
          verb.text ++ controllerStem (rules.controllerName unit.path) := by
        rw [operationIdFor, hid]
        exact Text.fresh_of_not_mem hnew
      refine List.forall_mem_cons.mpr ⟨heq, ih hids hverbs fun other hother => ?_⟩
      -- the id is in use from here on, but the verbs that follow are others
      rw [List.mem_cons, not_or, heq]
      refine ⟨fun hsame => ?_, hused other hother⟩
      rw [Verb.eq_of_text ((String.append_left_inj _).mp hsame)] at hother
      exact hfresh hother

/-- If all units are plain, so are all candidates. -/
theorem plain_candidates {rules : UrlRules} {units : List ControllerUnit} (h : ∀ unit ∈ units, unit.Plain) :
    ∀ q ∈ candidates rules units, q.Plain rules := by
  intro q hq
  obtain ⟨unit, hunit, hq⟩ := List.mem_flatMap.mp hq
  exact plain_candidatesFrom (h unit hunit).operationId (h unit hunit).verbs (fun _ _ => List.not_mem_nil) q hq

/-! ## Routes that share a slot

The path of a route tells the name of its controller, so routes of one slot would have had one operation id, and a run
refuses that. -/

/-- Candidates of one slot have one operation id if their ids are made up of verb and controller alone. -/
theorem Candidate.Makes.operationId_eq {rules : UrlRules} {q q' : Candidate} {r r' : Route} (h : q.Makes rules r)
    (h' : q'.Makes rules r') (hq : q.Plain rules) (hq' : q'.Plain rules) (hrest : r.kind = .rest)
    (hrest' : r'.kind = .rest) (hslot : r.slot = r'.slot) : q.operationId = q'.operationId := by
  obtain ⟨hpath, hmethod⟩ := Prod.mk.inj hslot
  have hverb : q.verb = q'.verb :=
    Verb.eq_of_method (h.kind ▸ hrest) (h'.kind ▸ hrest') (h.method ▸ h'.method ▸ hmethod)
  have hname : rules.controllerName q.unit.path = rules.controllerName q'.unit.path := by
    refine UrlRules.controllerName_eq_of_pathOf ?_
    rw [← h.url, ← h'.url]
    exact hpath
  rw [hq, hq', hverb, hname]

/-- Where all operation ids are made up, and each for its verb alone, no two routes share a slot. -/
theorem slots_nodup {rules : UrlRules} {providers : Providers} {units : List ControllerUnit} {o : Output}
    (h : generate c rules providers units = .ok o) (hplain : ∀ unit ∈ units, unit.Plain) :
    (o.restRoutes.map Route.slot).Nodup := by
  obtain ⟨hmakes, hids⟩ := routes_of_generate h
  have hcandidates : ∀ q ∈ candidates rules (sortByPath units), q.Plain rules :=
    plain_candidates fun unit hunit => hplain unit ((sortByPath_perm units).mem_iff.mp hunit)
  have hroutes : o.routes.Pairwise fun r r' => r.kind = .rest → r'.kind = .rest → r.slot ≠ r'.slot := by
    refine pairwise_of_forall₂ ((List.forall₂_and_left _ _).mpr ⟨hcandidates, hmakes⟩) (List.pairwise_map.mp hids) ?_
    rintro q q' r r' ⟨hq, hr⟩ ⟨hq', hr'⟩ hne hrest hrest' hslot
    exact hne (hr.operationId_eq hr' hq hq' hrest hrest' hslot)
  refine List.pairwise_map.mpr (List.pairwise_filter.mpr (hroutes.imp fun hne hrest hrest' => ?_))
  exact hne (of_decide_eq_true hrest) (of_decide_eq_true hrest')

/-- Every slot of the document of a run holds the operation of the last of its routes, and no other slot holds
anything. So the document has exactly one operation for each route that is no websocket if these have different slots,
and only then; they do if no handler insists on an operation id and no unit has two handlers of one verb. -/
theorem document_operations {rules : UrlRules} {providers : Providers} {units : List ControllerUnit} {o : Output}
    (h : generate c rules providers units = .ok o) (info : OpenApi.Info) :
    (∀ slot, (OpenApi.ofOutput info o).at? slot =
      (o.restRoutes.reverse.find? fun r => r.slot = slot).map Route.operation) ∧
    ((OpenApi.ofOutput info o).entries.Perm (o.restRoutes.map fun r => (r.slot, r.operation)) ↔
      (o.restRoutes.map Route.slot).Nodup) ∧
    ((∀ unit ∈ units, unit.Plain) → (o.restRoutes.map Route.slot).Nodup) := by
  obtain ⟨hmakes, -⟩ := routes_of_generate h
  have hmethods : ∀ e ∈ o.routes.map OpenApi.endpointOf, e.method ∈ OpenApi.methods := by
    intro e he
    obtain ⟨route, hroute, rfl⟩ := List.mem_map.mp he
    obtain ⟨i, hi, rfl⟩ := List.getElem_of_mem hroute
    have hmade := hmakes.get (hmakes.length_eq ▸ hi) hi
    exact (congrArg (· ∈ OpenApi.methods) hmade.method).mpr (Verb.method_mem_methods _)
  have hlast := OpenApi.operationAt?_foldl hmethods
  rw [endpoints_restRoutes] at hlast
  have hiff := OpenApi.Document.entries_perm_iff (d := OpenApi.ofOutput info o)
    (OpenApi.nodup_foldl _ _ List.nodup_nil) hlast
  rw [List.map_map, List.map_map] at hiff
  refine ⟨fun slot => ?_, hiff, slots_nodup h⟩
  rw [OpenApi.Document.at?]
  refine (hlast slot).trans ?_
  rw [← List.map_reverse, List.find?_map, Option.map_map]
  rfl

/-- A unit with two handlers of one verb. -/
def twiceUnit : ControllerUnit where
  path := ⟨"users.rs"⟩
  handlers := [
    { exportName := "get", location := ⟨⟨"users.rs"⟩, 1, 0⟩ },
    { exportName := "GET", location := ⟨⟨"users.rs"⟩, 2, 0⟩ }]

/-- Both handlers become routes, and the operation of the second is all that is left in their slot. -/
theorem document_operations_twice : ∃ o, generate {} ⟨⟨""⟩, .empty⟩ [] [twiceUnit] = .ok o ∧
    o.restRoutes.map Route.operationId = ["getUsers", "getUsers2"] ∧
    ((OpenApi.ofOutput {} o).at? ("/users", "GET")).map OpenApi.Operation.operationId = some "getUsers2" ∧
    ¬(OpenApi.ofOutput {} o).entries.Perm (o.restRoutes.map fun r => (r.slot, r.operation)) := by
  have hroutes : (generate {} ⟨⟨""⟩, .empty⟩ [] [twiceUnit]).toOption.map
      (fun o => o.restRoutes.map fun r => (r.operationId, r.slot)) =
      some [("getUsers", "/users", "GET"), ("getUsers2", "/users", "GET")] := by
    simp only [generate, twiceUnit, sortByPath, List.foldr, insertByPath, extractUnits, extractUnit, extractHandlers,
      buildRoute, resolve_eq_within]
    decide +kernel
  rcases h : generate {} ⟨⟨""⟩, .empty⟩ [] [twiceUnit] with faults | o
  · rw [h] at hroutes
    cases hroutes
  · rw [h] at hroutes
    have hroutes : (o.restRoutes.map fun r => (r.operationId, r.slot)) =
        [("getUsers", "/users", "GET"), ("getUsers2", "/users", "GET")] := Option.some.inj hroutes
    obtain ⟨hlast, hiff, -⟩ := document_operations h {}
    have hids := congrArg (List.map Prod.fst) hroutes
    have hslots := congrArg (List.map Prod.snd) hroutes
    rw [List.map_map] at hids hslots
    refine ⟨o, rfl, hids, ?_, fun hperm => ?_⟩
    · rw [hlast, Option.map_map]
      obtain ⟨first, rest, hrest, -, hsecond⟩ := List.map_eq_cons_iff.mp hroutes
      obtain ⟨second, others, rfl, heq, hnone⟩ := List.map_eq_cons_iff.mp hsecond
      obtain ⟨hid, hslot⟩ := Prod.mk.inj heq
      rw [hrest, List.map_eq_nil_iff.mp hnone, List.reverse_cons, List.reverse_singleton, List.singleton_append,
        List.find?_cons, decide_eq_true hslot]
      exact congrArg some hid
    · have hnodup := hiff.mp hperm
      rw [show o.restRoutes.map Route.slot = _ from hslots] at hnodup
      exact absurd hnodup (by decide)

end RouteManifest
