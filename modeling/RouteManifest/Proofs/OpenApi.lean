import RouteManifest.OpenApi
import RouteManifest.Proofs.Generation
import RouteManifest.Proofs.Resolution.Evaluation

/-!
# Pointers in a document

The schemas of a document are those of the routes and the registered ones, with every id turned into a
pointer. Since the output of a run is closed, a pointer never misses its component.

The proof goes through the assembly of the document. An operation of the document is that of some endpoint
(`mem_operations_build`), a schema of an operation comes from the schemas of its route or is a property of one
(`mem_schemas_operationOf`), and turning ids into pointers turns the ids that a schema holds into the pointers
that its image holds.
-/

namespace RouteManifest

namespace OpenApi

/-! ## The schemas of a document

Two routes can take one place in the document, and then the later one replaces the earlier. What is said here is only
where operations come from, which is enough for their pointers. -/

/-- The schemas of an operation. -/
def Operation.schemas (o : Operation) : List Schema :=
  o.parameters.map Parameter.schema ++ (o.body.map RequestBody.schema).toList ++ o.response.toList

/-- The operations of a path. -/
def PathItem.operations (item : PathItem) : List Operation :=
  item.get.toList ++ item.put.toList ++ item.post.toList ++ item.delete.toList ++ item.patch.toList

/-- The operations of a document. -/
def Document.operations (d : Document) : List Operation := d.paths.values.flatMap PathItem.operations

/-- All schemas of a document. -/
def Document.schemas (d : Document) : List Schema :=
  d.components.values ++ d.operations.flatMap Operation.schemas

/-- An operation of the path was there before, or is the new one. -/
theorem PathItem.mem_withOperation {item : PathItem} {method : String} {operation o : Operation}
    (h : o ∈ (item.withOperation method operation).operations) : o ∈ item.operations ∨ o = operation := by
  unfold withOperation at h
  split at h <;>
    simp only [operations, List.mem_append, Option.mem_toList, Option.some_inj, eq_comm (a := operation)] at h ⊢ <;>
    tauto

/-- An operation was there before, or is that of the endpoint. -/
theorem mem_addEndpoint {paths : Table PathItem} {e : Endpoint} {o : Operation}
    (h : o ∈ (addEndpoint paths e).values.flatMap PathItem.operations) :
    o ∈ paths.values.flatMap PathItem.operations ∨
      o = operationOf e.method e.url e.operationId e.description e.schema := by
  rw [addEndpoint] at h
  split at h
  · exact Or.inl h
  · obtain ⟨item, hitem, ho⟩ := List.mem_flatMap.mp h
    rcases Table.mem_values_insert hitem with rfl | hitem
    · refine (PathItem.mem_withOperation ho).imp_left fun ho => ?_
      rcases hfind : paths.find? (pathOf e.url) with _ | old
      · rw [hfind] at ho
        cases ho
      · rw [hfind] at ho
        exact List.mem_flatMap.mpr ⟨old, List.mem_map_of_mem (Table.mem_of_find? hfind), ho⟩
    · exact Or.inl (List.mem_flatMap.mpr ⟨item, hitem, ho⟩)

/-- An operation of a document is that of one of its endpoints. -/
theorem mem_operations_build {info : Info} {endpoints : List Endpoint} {schemas : List (String × Schema)}
    {o : Operation} (h : o ∈ (build info endpoints schemas).operations) :
    ∃ e ∈ endpoints, o = operationOf e.method e.url e.operationId e.description e.schema := by
  have key (l : List Endpoint) (paths : Table PathItem)
      (h : o ∈ (l.foldl addEndpoint paths).values.flatMap PathItem.operations) :
      o ∈ paths.values.flatMap PathItem.operations ∨
        ∃ e ∈ l, o = operationOf e.method e.url e.operationId e.description e.schema := by
    induction l generalizing paths with
    | nil => exact Or.inl h
    | cons e rest ih =>
      rcases ih (addEndpoint paths e) h with h | ⟨f, hf, h⟩
      · exact (mem_addEndpoint h).imp_right fun h => ⟨e, List.mem_cons_self, h⟩
      · exact Or.inr ⟨f, List.mem_cons_of_mem _ hf, h⟩
  rcases key endpoints [] h with h | h
  · cases h
  · exact h

/-- A parameter is a property of the schema of its place. -/
theorem mem_parametersOf {place : String} {always : Bool} {schema : Option Schema} {p : Parameter}
    (h : p ∈ parametersOf place always schema) :
    ∃ s name property, schema = some s ∧ (name, property) ∈ s.keywords.properties.getD [] ∧
      p.schema = componentSchema property := by
  cases schema with
  | none => cases h
  | some s =>
    obtain ⟨⟨name, property⟩, hmem, rfl⟩ := List.mem_map.mp h
    exact ⟨s, name, property, rfl, hmem, rfl⟩

/-- A schema of an operation is one of the route's schemas or a property of one. -/
theorem mem_schemas_operationOf {method url operationId : String} {description : Option String} {rs : RouteSchema}
    {s : Schema} (h : s ∈ (operationOf method url operationId description rs).schemas) :
    ∃ t, s = componentSchema t ∧
      (t ∈ rs.schemas ∨ ∃ whole ∈ rs.schemas, ∃ name, (name, t) ∈ whole.keywords.properties.getD []) := by
  have hparameter {place : String} {always : Bool} {schema : Option Schema} {p : Parameter}
      (hp : p ∈ parametersOf place always schema) (hschema : ∀ whole, schema = some whole → whole ∈ rs.schemas) :
      ∃ t, p.schema = componentSchema t ∧
        (t ∈ rs.schemas ∨ ∃ whole ∈ rs.schemas, ∃ name, (name, t) ∈ whole.keywords.properties.getD []) := by
    obtain ⟨whole, name, t, hs, hmem, heq⟩ := mem_parametersOf hp
    exact ⟨t, heq, Or.inr ⟨whole, hschema whole hs, name, hmem⟩⟩
  simp only [Operation.schemas, operationOf, List.mem_append, List.mem_map, Option.mem_toList] at h
  rcases h with (⟨p, (hp | hp) | hp, rfl⟩ | h) | h
  · exact hparameter hp fun whole hs => by simp [RouteSchema.schemas, hs]
  · exact hparameter hp fun whole hs => by simp [RouteSchema.schemas, hs]
  · exact hparameter hp fun whole hs => by simp [RouteSchema.schemas, hs]
  · obtain ⟨b, hb, rfl⟩ := Option.map_eq_some_iff.mp h
    obtain ⟨t, ht, rfl⟩ := Option.map_eq_some_iff.mp hb
    exact ⟨t, rfl, Or.inl (by simp [RouteSchema.schemas, ht])⟩
  · split at h
    · cases h
    · exact ⟨rs.response, (Option.some.inj h).symm, Or.inl (by simp [RouteSchema.schemas])⟩

/-! ## Closed output

The output of a run holds all entries of the registry at the end of the run, and by then nothing is pending and nothing
that was given back is still pointed at. -/

/-- If an output points at its own schemas only, its document points at its own components only. -/
theorem pointers_closed {o : Output}
    (h : ∀ s, (∃ e ∈ o.schemas, s = e.schema) ∨ (∃ route ∈ o.routes, s ∈ route.schemas) →
      s.Closed (· ∈ o.schemas.map Entry.id))
    (info : Info) {s : Schema} (hs : s ∈ (ofOutput info o).schemas) {target : String} (ht : target ∈ s.refIds) :
    ∃ id ∈ (ofOutput info o).components.names, target = "#/components/schemas/" ++ id := by
  have hsource : ∃ t, s = componentSchema t ∧ t.Closed (· ∈ o.schemas.map Entry.id) := by
    rcases List.mem_append.mp hs with hs | hs
    · obtain ⟨⟨id, s⟩, hmem, rfl⟩ := List.mem_map.mp hs
      obtain ⟨⟨_, t⟩, hentry, heq⟩ := List.mem_map.mp (Table.mem_of_mem_ofEntries hmem)
      obtain ⟨e, he, heq'⟩ := List.mem_map.mp hentry
      cases heq
      cases heq'
      exact ⟨e.schema, rfl, h _ (Or.inl ⟨e, he, rfl⟩)⟩
    · obtain ⟨op, hop, hs⟩ := List.mem_flatMap.mp hs
      obtain ⟨_, he, rfl⟩ := mem_operations_build hop
      obtain ⟨route, hroute, rfl⟩ := List.mem_map.mp he
      have hmem {t : Schema} (ht : t ∈ route.schema.schemas) : t ∈ route.schemas := List.mem_append_left _ ht
      obtain ⟨t, rfl, ht | ⟨whole, hwhole, name, ht⟩⟩ := mem_schemas_operationOf hs
      · exact ⟨t, rfl, h t (Or.inr ⟨route, hroute, hmem ht⟩)⟩
      · exact ⟨t, rfl, (h whole (Or.inr ⟨route, hroute, hmem hwhole⟩)).properties ht⟩
  obtain ⟨t, rfl, hclosed⟩ := hsource
  rw [componentSchema, Schema.refIds_mapRefs] at ht
  obtain ⟨id, hid, rfl⟩ := List.mem_map.mp ht
  refine ⟨id, Table.mem_names_ofEntries.mpr ?_, rfl⟩
  simpa using (hclosed.refIds id hid).1

/-- No reference of a successful run dangles. Every `$ref` and every target of a mapping, in the registered
schemas, in the schemas of the routes and in those by which parameters are read, is the id of a registered
schema; and in the document of the run each is the pointer to a component. -/
theorem no_dangling_reference {c : Catalog} {rules : UrlRules} {providers : Providers}
    {units : List ControllerUnit} {o : Output} (h : generate c rules providers units = .ok o) :
    (∀ e ∈ o.schemas, ∀ id ∈ e.schema.refIds, id ∈ o.schemas.map Entry.id) ∧
    (∀ route ∈ o.routes, ∀ s ∈ route.schemas, ∀ id ∈ s.refIds, id ∈ o.schemas.map Entry.id) ∧
    ∀ info, ∀ s ∈ (ofOutput info o).schemas, ∀ target ∈ s.refIds,
      ∃ id ∈ (ofOutput info o).components.names, target = "#/components/schemas/" ++ id := by
  have hclosed := fun s hs => generate_closed (s := s) h hs
  refine ⟨fun e he id hid => ?_, fun route hroute s hs id hid => ?_, fun info s hs target ht => ?_⟩
  · exact ((hclosed e.schema (Or.inl ⟨e, he, rfl⟩)).refIds id hid).1
  · exact ((hclosed s (Or.inr ⟨route, hroute, hs⟩)).refIds id hid).1
  · exact pointers_closed hclosed info hs ht

/-- A list whose nodes hold their successors. -/
def listCatalog : Catalog where
  declarations := [{
    name := "Node"
    body := .object [("next", ⟨.reference "Node", false⟩)] false
    location := ⟨⟨"list.rs"⟩, 1, 0⟩ }]

/-- A unit that answers with such a list. -/
def listUnit : ControllerUnit where
  path := ⟨"list.rs"⟩
  handlers := [{ exportName := "get", response := .reference "Node", location := ⟨⟨"list.rs"⟩, 3, 0⟩ }]

/-- The run over that unit succeeds, and its one schema, which points at itself, is registered. -/
theorem no_dangling_reference_list :
    ∃ o, generate listCatalog ⟨⟨""⟩, .empty⟩ [] [listUnit] = .ok o ∧
      (∀ e ∈ o.schemas, ∀ id ∈ e.schema.refIds, id ∈ o.schemas.map Entry.id) ∧
      ∀ route ∈ o.routes, ∀ s ∈ route.schemas, ∀ id ∈ s.refIds, id ∈ o.schemas.map Entry.id := by
  have hok : (generate listCatalog ⟨⟨""⟩, .empty⟩ [] [listUnit]).isOk = true := by
    simp only [generate, listUnit, sortByPath, List.foldr, insertByPath, extractUnits, extractUnit,
      extractHandlers, buildRoute, resolve_eq_within]
    decide +kernel
  rcases h : generate listCatalog ⟨⟨""⟩, .empty⟩ [] [listUnit] with faults | o
  · rw [h] at hok
    cases hok
  · exact ⟨o, rfl, (no_dangling_reference h).1, (no_dangling_reference h).2.1⟩

end OpenApi

end RouteManifest
