import Mathlib.Data.List.Pairwise
import Mathlib.Data.List.Perm.Basic
import RouteManifest.Generation
import RouteManifest.Proofs.Binding.Request
import RouteManifest.Proofs.Resolution.Reordered
import RouteManifest.Proofs.Table

/-!
# A run does not depend on the order of its inputs

Units are sorted before they are looked at, providers are looked up by alias, and a declaration is found by
its name and location. So nothing in a run asks where in its input something stood, apart from the positions
of declarations, and resolvers that differ in these alone go on to differ in these alone.

The proof runs the two programs side by side. Computations are alike that answer the same and keep such resolvers
alike (`Resolving.Alike`, `Bind.Alike`); this is kept by doing one computation after another (`Bind.Alike.bind`),
so it is enough to go through the steps of the binding and the extraction, of which only the resolution of a type
looks at declarations.
-/

namespace RouteManifest

variable {c c' : Catalog} {α β : Type}

/-! ## Binding

Each step of the binding is alike with itself over two catalogs. The two runs are not related by their states alone:
answers have to be equal, since they decide how a run goes on. -/

namespace Bind

/-- Computations that answer the same and keep resolvers alike, from any request parts. -/
def Alike (m : Bind c α) (m' : Bind c' α) : Prop := ∀ parts, Resolving.Alike (m.run parts) (m'.run parts)

/-- An answer that is there already depends on nothing. -/
theorem alike_pure (a : α) : Alike (pure a : Bind c α) (pure a : Bind c' α) :=
  fun parts => Resolving.alike_pure (a, parts)

theorem alike_throw (fault : Fault) : Alike (throw fault : Bind c α) (throw fault : Bind c' α) :=
  fun _ => Resolving.alike_throw fault

/-- A refusal is the same on both sides, with the same location and the same cause. -/
theorem alike_fail (location : Location) (cause : RouteFault) :
    Alike (fail location cause : Bind c α) (fail location cause : Bind c' α) := alike_throw _

/-- One computation after another: the same answer goes into the second, and the parts and resolvers that come with it
are alike. -/
theorem Alike.bind {m : Bind c α} {m' : Bind c' α} {f : α → Bind c β} {f' : α → Bind c' β} (hm : Alike m m')
    (hf : ∀ a, Alike (f a) (f' a)) : Alike (m >>= f) (m' >>= f') := by
  intro parts
  rw [StateT.run_bind, StateT.run_bind]
  exact (hm parts).bind fun x => hf x.1 x.2

theorem alike_get : Alike (get : Bind c RequestParts) (get : Bind c' RequestParts) :=
  fun parts => Resolving.alike_pure (parts, parts)

theorem alike_modify (f : RequestParts → RequestParts) :
    Alike (modifyThe RequestParts f : Bind c Unit) (modifyThe RequestParts f : Bind c' Unit) :=
  fun parts => Resolving.alike_pure ((), f parts)

/-- The parts of a request say nothing of declarations. -/
theorem alike_update (f : RequestParts → Except Fault RequestParts) :
    Alike (update f : Bind c Unit) (update f : Bind c' Unit) := by
  rw [update, update]
  refine alike_get.bind fun parts => ?_
  rcases f parts with fault | parts'
  · exact alike_throw fault
  · exact fun _ => Resolving.alike_pure ((), parts')

/-- The registry is all that a binding asks of the resolver. -/
theorem alike_registry {f : Resolver c → Bind c α} {f' : Resolver c' → Bind c' α}
    (hf : ∀ r r', r.registry = r'.registry → Alike (f r) (f' r')) :
    Alike (getThe (Resolver c) >>= f) (getThe (Resolver c') >>= f') := by
  intro parts
  rw [StateT.run_bind, StateT.run_bind]
  exact Resolving.alike_registry fun r r' h => hf r r' h parts

/-- Parameters are treated one after another, on both sides in the order of the handler. -/
theorem Alike.mapM {f : Parameter → Bind c β} {f' : Parameter → Bind c' β} (h : ∀ p, Alike (f p) (f' p))
    (ps : List Parameter) : Alike (ps.mapM f) (ps.mapM f') := by
  induction ps with
  | nil => exact alike_pure []
  | cons p rest ih =>
    rw [List.mapM_cons, List.mapM_cons]
    exact (h p).bind fun b => ih.bind fun bs => alike_pure (b :: bs)

/-- The one step that resolves a type. That it is alike is what is known of reordered catalogs. -/
theorem schemaOf_alike (hc : c.Reordered c') (p : Parameter) :
    Alike (schemaOf p : Bind c Schema) (schemaOf p : Bind c' Schema) :=
  fun parts => (resolve_alike hc p.node p.location).bind fun s => Resolving.alike_pure (s, parts)

/-- To see whether a schema is an object, the registry is asked, which is the same on both sides. -/
theorem objectOf_alike (place : Place) (p : Parameter) (schema : Schema) :
    Alike (objectOf place p schema : Bind c Schema) (objectOf place p schema : Bind c' Schema) := by
  rw [objectOf, objectOf]
  split
  next target optional _ =>
    refine alike_registry fun r r' hregistry => ?_
    rw [hregistry]
    rcases r'.registry.objectView? target with _ | object
    · exact alike_fail _ _
    · exact alike_pure _

/-- An object of the server needs no resolver. -/
theorem raw_alike (p : Parameter) (target : RawTarget) (verb : Verb) :
    Alike (raw p target verb : Bind c Binding) (raw p target verb : Bind c' Binding) := by
  cases target with
  | request => exact alike_pure _
  | reply => exact alike_pure _
  | socket =>
    rw [raw, raw]
    split
    · exact alike_pure _
    · exact alike_fail _ _

/-- A single property is added on both sides, or refused on both for the same reason. -/
theorem property_alike (place : Place) (p : Parameter) (schema : Schema) :
    Alike (property place p schema : Bind c Binding) (property place p schema : Bind c' Binding) := by
  cases place with
  | path => exact (alike_update _).bind fun _ => alike_pure _
  | query => exact (alike_update _).bind fun _ => alike_pure _
  | header => exact (alike_update _).bind fun _ => alike_pure _

/-- The properties of an object are added on both sides, or refused on both. -/
theorem whole_alike (place : Place) (p : Parameter) (schema : Schema) :
    Alike (whole place p schema : Bind c Binding) (whole place p schema : Bind c' Binding) :=
  (objectOf_alike place p schema).bind fun _ => (alike_update _).bind fun _ => alike_pure _

/-- A body is taken on both sides, or refused on both. -/
theorem body_alike (p : Parameter) (schema : Schema) :
    Alike (body p schema : Bind c Binding) (body p schema : Bind c' Binding) :=
  (alike_update _).bind fun _ => alike_pure _

/-- A parameter that goes to a place has its type resolved before. -/
theorem placed_alike (hc : c.Reordered c') (place : Place) (p : Parameter) :
    Alike (placed place p : Bind c Binding) (placed place p : Bind c' Binding) := by
  rw [placed, placed, hc.shapeOf_eq]
  refine (schemaOf_alike hc p).bind fun schema => ?_
  split
  · exact whole_alike place p schema
  · exact property_alike place p schema

/-- Where a marker sends a parameter depends on the marker and the verb. -/
theorem marked_alike (hc : c.Reordered c') (p : Parameter) (verb : Verb) (marker : Marker) :
    Alike (marked p verb marker : Bind c Binding) (marked p verb marker : Bind c' Binding) := by
  cases marker with
  | raw target => exact raw_alike p target verb
  | path => exact placed_alike hc .path p
  | query => exact placed_alike hc .query p
  | header => exact placed_alike hc .header p
  | body => exact (schemaOf_alike hc p).bind fun schema => body_alike p schema

/-- Where a parameter without one goes depends on its name, the tokens of the address and the verb. -/
theorem positional_alike (hc : c.Reordered c') (p : Parameter) (verb : Verb) (tokens : List String) :
    Alike (positional p verb tokens : Bind c Binding) (positional p verb tokens : Bind c' Binding) := by
  rw [positional, positional, hc.shapeOf_eq]
  refine (schemaOf_alike hc p).bind fun schema => ?_
  split
  · exact property_alike _ p schema
  · refine alike_get.bind fun parts => ?_
    split
    · exact alike_fail _ _
    · refine (alike_modify _).bind fun _ => ?_
      split
      · exact body_alike p schema
      · exact whole_alike .query p schema

/-- A parameter with a provider has those of the provider bound first. The recursion is the one of the binding itself: a
chain grows until every alias is on it. -/
theorem parameter_alike (hc : c.Reordered c') {providers providers' : Providers}
    (hproviders : ∀ name, providers.find? name = providers'.find? name) (verb : Verb)
    (tokens chain : List String) (p : Parameter) :
    Alike (parameter providers verb tokens chain p : Bind c Binding)
      (parameter providers' verb tokens chain p : Bind c' Binding) := by
  induction hn : outside providers chain using Nat.strongRecOn generalizing chain p with
  | ind n ih =>
  rw [parameter_eq, parameter_eq, ← hproviders]
  rcases hfound : providers.find? p.name with _ | provider
  · simp only
    split
    · exact marked_alike hc p verb _
    · exact positional_alike hc p verb tokens
  · by_cases hmem : chain.contains p.name = true
    · simp only [if_pos hmem]
      exact alike_fail _ _
    · simp only [if_neg hmem]
      split
      · exact alike_fail _ _
      · have hlt := outside_concat_lt hfound hmem
        refine (Alike.mapM (fun d => ih _ (hn ▸ hlt) _ d rfl) provider.params).bind fun dependencies => ?_
        exact (alike_modify _).bind fun _ => alike_pure _

end Bind

/-- The bindings of a handler are the same. -/
theorem bindAll_alike (hc : c.Reordered c') {providers providers' : Providers}
    (hproviders : ∀ name, providers.find? name = providers'.find? name) (verb : Verb)
    (tokens : List String) (params : List Parameter) :
    Resolving.Alike (bindAll providers verb tokens params : Resolving c _)
      (bindAll providers' verb tokens params : Resolving c' _) :=
  Bind.Alike.mapM (fun p => Bind.parameter_alike hc hproviders verb tokens [] p) params {}

/-! ## Routes

Going over handlers and units is a fold with a few lists in hand, which are the same on both sides from the start. -/

section Extraction

variable {providers providers' : Providers}

/-- A route is the same, since all that it shows besides its bindings is read off unit and handler. -/
theorem buildRoute_alike (hc : c.Reordered c') (hproviders : ∀ name, providers.find? name = providers'.find? name)
    (address : UnitAddress) (verb : Verb) (operationId : String) (handler : Handler) :
    Resolving.Alike (buildRoute providers address verb operationId handler : Resolving c Route)
      (buildRoute providers' address verb operationId handler : Resolving c' Route) := by
  refine (bindAll_alike hc hproviders verb address.tokens handler.params).bind fun bound => ?_
  obtain ⟨bindings, parts⟩ := bound
  simp only
  split
  · exact Resolving.alike_throw _
  · exact (resolve_alike hc handler.response handler.location).bind fun response => Resolving.alike_pure _

/-- The routes of a unit are the same, and so are the faults among them and the ids that they use up. -/
theorem extractHandlers_alike (hc : c.Reordered c')
    (hproviders : ∀ name, providers.find? name = providers'.find? name) (address : UnitAddress)
    (used : List String) (handlers : List Handler) :
    Resolving.Alike (extractHandlers providers address used handlers : Resolving c UnitRoutes)
      (extractHandlers providers' address used handlers : Resolving c' UnitRoutes) := by
  induction handlers generalizing used with
  | nil => exact Resolving.alike_pure _
  | cons handler rest ih =>
    rw [extractHandlers, extractHandlers]
    split
    · exact ih used
    next verb _ =>
      have hbuild := buildRoute_alike hc hproviders address verb
        (operationIdFor used address.controllerName verb handler) handler
      refine ((hbuild.map Except.ok).tryCatch fun fault => ?_).bind fun outcome => ?_
      · split
        · exact Resolving.alike_throw fault
        · exact Resolving.alike_pure _
      · exact (ih _).bind fun others => Resolving.alike_pure _

/-- The routes of several units are the same, in one order of the units. -/
theorem extractUnits_alike (hc : c.Reordered c')
    (hproviders : ∀ name, providers.find? name = providers'.find? name) (rules : UrlRules) (p : Progress)
    (units : List ControllerUnit) :
    Resolving.Alike (extractUnits rules providers p units : Resolving c Progress)
      (extractUnits rules providers' p units : Resolving c' Progress) := by
  induction units generalizing p with
  | nil => exact Resolving.alike_pure p
  | cons unit rest ih => exact (extractHandlers_alike hc hproviders _ _ unit.handlers).bind fun u => ih _

end Extraction

/-! ## Units and providers

Sorting by path is where the order of units disappears, which needs that no two units have one path. Providers are
looked up by alias, so there no alias may be repeated. -/

/-- The unit does not come after another. -/
def ControllerUnit.NotAfter (u v : ControllerUnit) : Prop := (u.path.compare v.path).isLE = true

/-- Putting a unit in its place adds that unit only. -/
theorem insertByPath_perm (u : ControllerUnit) (units : List ControllerUnit) :
    (insertByPath u units).Perm (u :: units) := by
  induction units with
  | nil => exact .refl _
  | cons v rest ih =>
    rw [insertByPath]
    split
    · exact (ih.cons v).trans (.swap u v rest)
    · exact .refl _

/-- The place is in front of the first unit that comes later. -/
theorem insertByPath_sorted (u : ControllerUnit) {units : List ControllerUnit}
    (h : units.Pairwise ControllerUnit.NotAfter) : (insertByPath u units).Pairwise ControllerUnit.NotAfter := by
  induction units with
  | nil => exact List.pairwise_singleton _ _
  | cons v rest ih =>
    obtain ⟨hv, hrest⟩ := List.pairwise_cons.mp h
    rw [insertByPath]
    split
    next hlt =>
      refine List.pairwise_cons.mpr ⟨fun w hw => ?_, ih hrest⟩
      rcases List.mem_cons.mp ((insertByPath_perm u rest).subset hw) with rfl | hw
      · rw [ControllerUnit.NotAfter, beq_iff_eq.mp hlt]
        rfl
      · exact hv w hw
    next hnot =>
      have hle : u.NotAfter v := by
        rw [beq_iff_eq] at hnot
        refine Std.OrientedCmp.isLE_of_isGE ?_
        rcases hcompare : v.path.compare u.path with _ | _ | _
        · exact absurd hcompare hnot
        · rfl
        · rfl
      refine List.pairwise_cons.mpr ⟨fun w hw => ?_, h⟩
      rcases List.mem_cons.mp hw with rfl | hw
      · exact hle
      · exact Std.TransCmp.isLE_trans hle (hv w hw)

/-- Sorting loses no units. -/
theorem sortByPath_perm (units : List ControllerUnit) : (sortByPath units).Perm units := by
  induction units with
  | nil => exact .refl _
  | cons u rest ih => exact (insertByPath_perm u _).trans (ih.cons u)

/-- Units come in the order of their paths. -/
theorem sortByPath_sorted (units : List ControllerUnit) : (sortByPath units).Pairwise ControllerUnit.NotAfter := by
  induction units with
  | nil => exact .nil
  | cons u rest ih => exact insertByPath_sorted u ih

/-- Units of different paths are sorted into one order. -/
theorem sortByPath_eq {units units' : List ControllerUnit} (hperm : units.Perm units')
    (hpaths : units.Pairwise fun u v => ¬u.path.same v.path = true) : sortByPath units = sortByPath units' := by
  refine List.Perm.eq_of_pairwise (fun u v hu hv huv hvu => ?_) (sortByPath_sorted units)
    (sortByPath_sorted units') ((sortByPath_perm units).trans (hperm.trans (sortByPath_perm units').symm))
  have hu := (sortByPath_perm units).subset hu
  have hv := hperm.symm.subset ((sortByPath_perm units').subset hv)
  have hsame : u.path.same v.path = true := Path.compare_eq_iff.mp (Std.OrientedCmp.isLE_antisymm huv hvu)
  have : Std.Symm fun u v : ControllerUnit => ¬u.path.same v.path = true := ⟨fun _ _ h h' => h (Path.same_comm h')⟩
  by_contra hne
  exact hpaths.forall hu hv hne hsame

/-- A run does not depend on the order of units of different paths, of declarations of which no two share both
name and location, and of providers of different aliases: it has the same output, or the same faults. -/
theorem generate_order_independent (rules : UrlRules) {units units' : List ControllerUnit}
    {declarations declarations' : List Declaration} {providers providers' : List (String × Provider)}
    (hunits : units.Perm units') (hpaths : units.Pairwise fun u v => ¬u.path.same v.path = true)
    (hdeclarations : declarations.Perm declarations')
    (hlocations : declarations.Pairwise fun d e => ¬(d.name = e.name ∧ d.location.same e.location = true))
    (hproviders : providers.Perm providers') (haliases : (providers.map Prod.fst).Nodup) :
    generate ⟨declarations⟩ rules (Table.ofEntries providers) units =
      generate ⟨declarations'⟩ rules (Table.ofEntries providers') units' := by
  have hc : Catalog.Reordered ⟨declarations⟩ ⟨declarations'⟩ := ⟨hdeclarations, hlocations⟩
  have hstart : ({} : Resolver ⟨declarations⟩).Alike ({} : Resolver ⟨declarations'⟩) := ⟨rfl, List.Forall₂.nil⟩
  obtain ⟨out, r, r', hr, hr', hlike⟩ := (extractUnits_alike hc
    (Table.find?_ofEntries_of_perm hproviders haliases) rules {}
    (sortByPath units)).run hstart
  rw [generate, generate, hr, ← sortByPath_eq hunits hpaths, hr']
  cases out with
  | error fatal => rfl
  | ok p =>
    simp only
    rw [hlike.registry]

/-- Two declarations of one name, each found from its own file, two units and two providers, all swapped. -/
theorem generate_order_independent_swap :
    let here : Location := ⟨⟨"a.rs"⟩, 1, 0⟩
    let there : Location := ⟨⟨"b.rs"⟩, 1, 0⟩
    let text : Declaration := { name := "Id", body := .string, location := here }
    let number : Declaration := { name := "Id", body := .primitive .i64, location := there }
    let first : ControllerUnit :=
      ⟨⟨"a.rs"⟩, [{ exportName := "get", response := .reference "Id", location := here }]⟩
    let second : ControllerUnit :=
      ⟨⟨"b.rs"⟩, [{ exportName := "get", response := .reference "Id", location := there }]⟩
    let user : String × Provider := ("user", { target := "user.rs::provide", location := here })
    let session : String × Provider := ("session", { target := "session.rs::provide", location := there })
    generate ⟨[text, number]⟩ ⟨⟨""⟩, .empty⟩ (Table.ofEntries [user, session]) [first, second] =
      generate ⟨[number, text]⟩ ⟨⟨""⟩, .empty⟩ (Table.ofEntries [session, user]) [second, first] :=
  generate_order_independent _ (.swap _ _ _) (by decide +kernel) (.swap _ _ _) (by decide +kernel)
    (.swap _ _ _) (by decide +kernel)

end RouteManifest
