import RouteManifest.Proofs.Binding.Request

/-!
# What binding comes to

`Bind.outcome` is the answer of a binding, or its fault, whatever becomes of the resolver. For every way to bind a
parameter there is an equation that says what it comes to, when the schema of the parameter is known. The properties of a
place can be added or not by their names alone (`Properties.add_cases`, `Properties.addAll_cases`); and the field that a
parameter is read from is settled by its mark and its shape (`Bind.readFrom_parameter`).
-/

namespace RouteManifest

variable {c : Catalog}

/-! ## Properties

Adding properties fails for one reason, a name that is taken. Schemas and required names are not looked at, so two
parameters with different schemas are accepted or refused together. -/

namespace Properties

variable {p : Properties}

/-- New names can be added if they differ from one another and from those that are there. -/
def Admits (p : Properties) (names : List String) : Prop := names.Nodup ∧ ∀ name ∈ names, name ∉ p.schemas.names

/-- The order of new names does not matter. -/
theorem Admits.perm {names names' : List String} (h : p.Admits names) (hperm : names.Perm names') : p.Admits names' :=
  ⟨hperm.nodup_iff.mp h.1, fun name hname => h.2 name (hperm.mem_iff.mpr hname)⟩

/-- A property is refused just if its name is taken. -/
theorem add_cases (p : Properties) (place : Place) (name : String) (schema : Schema) (required : Bool)
    (location : Location) :
    (name ∈ p.schemas.names ∧ ∃ fault, p.add place name schema required location = .error fault) ∨
      (name ∉ p.schemas.names ∧ ∃ p', p.add place name schema required location = .ok p' ∧
        p'.schemas.names = p.schemas.names ++ [name] ∧ p'.required = p.required ++ if required then [name] else []) := by
  rw [add]
  split
  next h => exact Or.inl ⟨Table.contains_iff.mp h, _, rfl⟩
  next h =>
    have hnew : name ∉ p.schemas.names := mt Table.contains_iff.mpr h
    refine Or.inr ⟨hnew, _, rfl, ?_, ?_⟩
    · rw [Table.insert_of_not_mem hnew, Table.names, List.map_append]
      rfl
    · cases required
      · exact (List.append_nil _).symm
      · rfl

/-- Whether properties can be added depends on their names, and so do the names that there are then. -/
theorem addAll_cases (p : Properties) (place : Place) (rename : String → String) (required : List String)
    (location : Location) (added : Table Schema) :
    (¬p.Admits (added.names.map rename) ∧ ∃ fault, p.addAll place rename required location added = .error fault) ∨
      (p.Admits (added.names.map rename) ∧ ∃ p', p.addAll place rename required location added = .ok p' ∧
        p'.schemas.names = p.schemas.names ++ added.names.map rename ∧
        p'.required = p.required ++ (added.names.filter required.contains).map rename) := by
  induction added generalizing p with
  | nil => exact Or.inr ⟨⟨List.nodup_nil, nofun⟩, p, rfl, (List.append_nil _).symm, (List.append_nil _).symm⟩
  | cons e rest ih =>
    obtain ⟨name, schema⟩ := e
    have hnames : (Table.names ((name, schema) :: rest)).map rename =
        rename name :: (Table.names rest).map rename := rfl
    have hadmits : p.Admits ((Table.names ((name, schema) :: rest)).map rename) ↔ rename name ∉ p.schemas.names ∧
        rename name ∉ (Table.names rest).map rename ∧ p.Admits ((Table.names rest).map rename) := by
      rw [hnames, Admits, Admits, List.nodup_cons, List.forall_mem_cons]
      tauto
    rw [addAll, hadmits]
    rcases p.add_cases place (rename name) schema (required.contains name) location with
      ⟨hmem, fault, hadd⟩ | ⟨hnew, p', hadd, hnames', hrequired⟩
    · rw [hadd]
      exact Or.inl ⟨fun h => h.1 hmem, fault, rfl⟩
    · rw [hadd]
      -- to the properties that follow, the first one is there already
      have hrest : p'.Admits ((Table.names rest).map rename) ↔
          rename name ∉ (Table.names rest).map rename ∧ p.Admits ((Table.names rest).map rename) := by
        rw [Admits, Admits, hnames']
        constructor
        · rintro ⟨hnodup, hfresh⟩
          exact ⟨fun h => hfresh _ h List.mem_concat_self, hnodup,
            fun other h hmem => hfresh other h (List.mem_append_left _ hmem)⟩
        · rintro ⟨hother, hnodup, hfresh⟩
          refine ⟨hnodup, fun other h hmem => ?_⟩
          rcases List.mem_append.mp hmem with hmem | hmem
          · exact hfresh other h hmem
          · exact hother (List.mem_singleton.mp hmem ▸ h)
      rcases ih p' with ⟨hno, hrun⟩ | ⟨hyes, p'', hrun, hnames'', hrequired'⟩
      · exact Or.inl ⟨fun h => hno (hrest.mpr h.2), hrun⟩
      · refine Or.inr ⟨⟨hnew, hrest.mp hyes⟩, p'', hrun, ?_, ?_⟩
        · rw [hnames'', hnames', hnames, List.append_assoc]
          rfl
        · have hcons : Table.names ((name, schema) :: rest) = name :: Table.names rest := rfl
          rw [hrequired', hrequired, hcons, List.filter_cons, List.append_assoc]
          cases required.contains name
          · rfl
          · rfl

/-- If a property can be added, so can any other of its name. -/
theorem add_both (p : Properties) (place : Place) (name : String) (schema schema' : Schema) (required required' : Bool)
    (location : Location) :
    (∃ f f', p.add place name schema required location = .error f ∧
      p.add place name schema' required' location = .error f') ∨
    ∃ q q', p.add place name schema required location = .ok q ∧ p.add place name schema' required' location = .ok q' ∧
      q.schemas.names = q'.schemas.names ∧ (q.required = p.required ++ if required then [name] else []) ∧
      q'.required = p.required ++ if required' then [name] else [] := by
  rcases p.add_cases place name schema required location with ⟨hmem, f, hadd⟩ | ⟨hnew, q, hadd, hnames, hrequired⟩
  · rcases p.add_cases place name schema' required' location with ⟨-, f', hadd'⟩ | ⟨hnew, -⟩
    · exact Or.inl ⟨f, f', hadd, hadd'⟩
    · exact absurd hmem hnew
  · rcases p.add_cases place name schema' required' location with ⟨hmem, -⟩ | ⟨-, q', hadd', hnames', hrequired'⟩
    · exact absurd hmem hnew
    · exact Or.inr ⟨q, q', hadd, hadd', hnames.trans hnames'.symm, hrequired, hrequired'⟩

/-- If properties can be added, so can others of the same names. -/
theorem addAll_both (p : Properties) (place : Place) (rename : String → String) (required required' : List String)
    (location : Location) {added added' : Table Schema} (hnames : added.names.Perm added'.names) :
    (∃ f f', p.addAll place rename required location added = .error f ∧
      p.addAll place rename required' location added' = .error f') ∨
    ∃ q q', p.addAll place rename required location added = .ok q ∧
      p.addAll place rename required' location added' = .ok q' ∧ q.schemas.names.Perm q'.schemas.names ∧
      q.required = p.required ++ (added.names.filter required.contains).map rename ∧
      q'.required = p.required ++ (added'.names.filter required'.contains).map rename := by
  have hrenamed := hnames.map rename
  rcases p.addAll_cases place rename required location added with ⟨hno, f, hadd⟩ | ⟨hyes, q, hadd, hq, hrequired⟩
  · rcases p.addAll_cases place rename required' location added' with ⟨-, f', hadd'⟩ | ⟨hyes, -⟩
    · exact Or.inl ⟨f, f', hadd, hadd'⟩
    · exact absurd (hyes.perm hrenamed.symm) hno
  · rcases p.addAll_cases place rename required' location added' with ⟨hno, -⟩ | ⟨-, q', hadd', hq', hrequired'⟩
    · exact absurd (hyes.perm hrenamed) hno
    · refine Or.inr ⟨q, q', hadd, hadd', ?_, hrequired, hrequired'⟩
      rw [hq, hq']
      exact hrenamed.append_left _

end Properties

/-! ## Equations

The resolver is touched by the resolution of a parameter's type and by nothing else. Once the schema is known, what is
left of a binding is an update of the parts, and each kind of parameter has an equation that shows it. -/

namespace Bind

variable {α : Type}

/-- What a computation comes to, whatever becomes of the resolver. -/
def outcome (m : Bind c α) (parts : RequestParts) (r : Resolver c) : Except Fault (α × RequestParts) :=
  ((m.run parts).run r).1

variable {parts : RequestParts} {r : Resolver c}

/-- What binding a parameter comes to if it is declared with that type. -/
def declared (providers : Providers) (verb : Verb) (tokens chain : List String) (p : Parameter) (parts : RequestParts)
    (r : Resolver c) (node : TypeExpr) : Except Fault (Binding × RequestParts) :=
  (parameter providers verb tokens chain { p with node } : Bind c Binding).outcome parts r

/-- What comes of a parameter's type depends on the schema, or is the fault of its resolution. -/
theorem outcome_schemaOf (p : Parameter) (f : Schema → Bind c α) :
    (schemaOf p >>= f).outcome parts r =
      match (resolve p.node p.location : Resolving c Schema).run r with
      | (.ok s, r') => (f s).outcome parts r'
      | (.error fault, _) => .error fault := by
  have hrun : ((schemaOf p : Bind c Schema).run parts).run r =
      match (resolve p.node p.location : Resolving c Schema).run r with
      | (.ok s, r') => (.ok (s, parts), r')
      | (.error fault, r') => (.error fault, r') := by
    show ((resolve p.node p.location : Resolving c Schema) >>= fun s => pure (s, parts)).run r = _
    rw [Resolving.run_bind]
    rcases (resolve p.node p.location : Resolving c Schema).run r with ⟨_ | s, r'⟩
    · rfl
    · rfl
  rw [outcome, StateT.run_bind, Resolving.run_bind, hrun]
  rcases (resolve p.node p.location : Resolving c Schema).run r with ⟨_ | s, r'⟩
  · rfl
  · rfl

/-- What comes after an update of the parts starts with the new ones, if there are any. -/
theorem outcome_update (g : RequestParts → Except Fault RequestParts) (f : Unit → Bind c α) :
    (update g >>= f).outcome parts r =
      match g parts with
      | .ok parts' => (f ()).outcome parts' r
      | .error fault => .error fault := by
  have hrun : ((update g : Bind c Unit).run parts).run r =
      match g parts with
      | .ok parts' => (.ok ((), parts'), r)
      | .error fault => (.error fault, r) := by
    show ((match g parts with
      | .ok parts' => set parts'
      | .error fault => throw fault : Bind c Unit).run parts).run r = _
    rcases g parts with _ | parts'
    · rfl
    · rfl
  rw [outcome, StateT.run_bind, Resolving.run_bind, hrun]
  rcases g parts with _ | parts'
  · rfl
  · rfl

/-- Adding a property is an update of the parts. -/
theorem addProperty_eq (place : Place) (name : String) (schema : Schema) (required : Bool) (location : Location) :
    (addProperty place name schema required location : Bind c Unit) = update fun parts =>
      ((parts.atPlace place).add place name schema required location).map fun props => parts.withPlace props place := by
  rw [addProperty]
  refine congrArg update (funext fun parts => ?_)
  cases place <;> exact bind_pure_eq_map

/-- Adding an object's properties is an update of the parts. -/
theorem addObject_eq (place : Place) (object : Schema) (location : Location) :
    (addObject place object location : Bind c Unit) = update fun parts =>
      ((parts.atPlace place).merge place object place.rename location).map fun props => parts.withPlace props place := by
  rw [addObject]
  refine congrArg update (funext fun parts => ?_)
  cases place <;> exact bind_pure_eq_map

/-- A property that is added to the parts, and then answered with. -/
theorem outcome_update_map (added : RequestParts → Except Fault Properties) (place : Place) (b : Binding) :
    (update (fun parts => (added parts).map fun props => parts.withPlace props place) >>= fun _ => pure b :
      Bind c Binding).outcome parts r = (added parts).map fun props => (b, parts.withPlace props place) := by
  rw [outcome_update]
  rcases added parts with _ | props
  · rfl
  · rfl

/-- A single property comes to a binding and one property more, required in a path and elsewhere if it cannot be null.
-/
theorem outcome_property (place : Place) (p : Parameter) (schema : Schema) :
    (property place p schema : Bind c Binding).outcome parts r =
      ((parts.atPlace place).add place (place.rename p.name) schema (decide (place = .path) || !schema.isNullable)
        p.location).map fun props =>
          (.request p.name p.node (place.single p.name) (some schema), parts.withPlace props place) := by
  have hproperty : (property place p schema : Bind c Binding) =
      addProperty place (place.rename p.name) schema (decide (place = .path) || !schema.isNullable) p.location >>=
        fun _ => pure (.request p.name p.node (place.single p.name) (some schema)) := by
    cases place <;> rfl
  rw [hproperty, addProperty_eq, outcome_update_map]

/-- A body comes to a binding if there is none yet. -/
theorem outcome_body (p : Parameter) (schema : Schema) :
    (body p schema : Bind c Binding).outcome parts r =
      if parts.body.isSome then .error (.invalidRoute p.location .secondBody)
      else .ok (.request p.name p.node .body (some schema), { parts with body := some schema }) := by
  rw [body, takeBody, outcome_update]
  rcases parts.body.isSome with _ | _
  · rfl
  · rfl

/-- What can be null is optional, in one form or the other. -/
theorem objectOf_eq (place : Place) (p : Parameter) (schema : Schema) :
    (objectOf place p schema : Bind c Schema) = getThe (Resolver c) >>= fun r =>
      match r.registry.objectView? (schema.unwrapNullable?.getD schema) with
      | none => fail p.location (.notAnObject place.text p.name p.node.displayName)
      | some object => pure (if schema.isNullable then .mk { object.keywords with required := none } else object) := by
  rw [objectOf]
  rcases hinner : schema.unwrapNullable? with _ | inner
  · rfl
  · rw [Schema.isNullable_of_unwrapNullable? hinner]
    rfl

/-- An object comes to a binding and its properties, all of them optional if it can be null. -/
theorem outcome_whole (place : Place) (p : Parameter) (schema : Schema) :
    (whole place p schema : Bind c Binding).outcome parts r =
      match r.registry.objectView? (schema.unwrapNullable?.getD schema) with
      | none => .error (.invalidRoute p.location (.notAnObject place.text p.name p.node.displayName))
      | some object =>
        ((parts.atPlace place).addAll place place.rename
          (if schema.isNullable then [] else object.keywords.required.getD []) p.location
          (object.keywords.properties.getD [])).map fun props =>
            (.request p.name p.node place.whole (some schema), parts.withPlace props place) := by
  have hwhole : (whole place p schema : Bind c Binding) = objectOf place p schema >>= fun object =>
      addObject place object p.location >>= fun _ => pure (.request p.name p.node place.whole (some schema)) := by
    cases place <;> rfl
  have hget (f : Resolver c → Bind c Binding) : (getThe (Resolver c) >>= f : Bind c Binding).outcome parts r =
      (f r).outcome parts r := rfl
  rw [hwhole, objectOf_eq, bind_assoc, hget]
  rcases r.registry.objectView? (schema.unwrapNullable?.getD schema) with _ | object
  · rfl
  · simp only [pure_bind, addObject_eq, outcome_update_map]
    rw [Properties.merge]
    cases schema.isNullable
    · rfl
    · rfl

/-- Binds the one structured parameter that is not marked. -/
def claim (p : Parameter) (b : Bind c Binding) : Bind c Binding := do
  match (← getThe RequestParts).positional with
  | some first => fail p.location (.ambiguousParameter p.name first)
  | none =>
    modifyThe RequestParts fun r => { r with positional := some p.name }
    b

/-- A parameter without a marker has its type resolved first, and goes where its shape and the verb say. -/
theorem positional_eq (p : Parameter) (verb : Verb) (tokens : List String) :
    (positional p verb tokens : Bind c Binding) = schemaOf p >>= fun s =>
      match c.shapeOf p.node p.location.unit with
      | .scalar => property (if tokens.contains p.name then .path else .query) p s
      | .structured => claim p (if verb.hasBody then body p s else whole .query p s) := rfl

/-- Only one structured parameter without a marker is allowed, and the second is told of the first. -/
theorem outcome_claim (p : Parameter) (b : Bind c Binding) :
    (claim p b).outcome parts r =
      match parts.positional with
      | some first => .error (.invalidRoute p.location (.ambiguousParameter p.name first))
      | none => b.outcome { parts with positional := some p.name } r := by
  have hget (f : RequestParts → Bind c Binding) :
      (getThe RequestParts >>= f : Bind c Binding).outcome parts r = (f parts).outcome parts r := rfl
  rw [claim, hget]
  rcases parts.positional with _ | first
  · rfl
  · rfl

end Bind

/-! ## Where a parameter is read from

Whether a parameter is accepted depends on its schema and on what was collected before. Where it is read from if it is
accepted does not, so this is said once for all outcomes. -/

/-- The field of a parameter that is marked with a place. -/
def Place.field (place : Place) (name : String) : Shape → Field
  | .structured => place.whole
  | .scalar => place.single name

/-- The field of a parameter that is not marked. -/
def Parameter.positionalField (p : Parameter) (verb : Verb) (tokens : List String) : Shape → Field
  | .scalar => (if tokens.contains p.name then Place.path else Place.query).single p.name
  | .structured => if verb.hasBody then .body else Place.query.whole

/-- The field that a parameter of a shape is read from if it has no provider. -/
def Parameter.field (p : Parameter) (verb : Verb) (tokens : List String) (shape : Shape) : Field :=
  match p.marker with
  | some (.raw target) => target.field
  | some .path => Place.path.field p.name shape
  | some .query => Place.query.field p.name shape
  | some .header => Place.header.field p.name shape
  | some .body => .body
  | none => p.positionalField verb tokens shape

namespace Bind

/-- If a parameter can be bound at all, it is read from that field of the request. -/
def ReadFrom (field : Field) (out : Except Fault (Binding × RequestParts)) : Prop :=
  ∀ b parts, out = .ok (b, parts) → ∃ name node schema, b = .request name node field schema

variable {parts : RequestParts} {r : Resolver c} {field : Field}

/-- What fails is read from anywhere. -/
theorem readFrom_error (fault : Fault) : ReadFrom field (.error fault) := nofun

/-- A binding that is made of an update's result has the field that it is made with. -/
theorem readFrom_map {α : Type} (out : Except Fault α) (name : String) (node : TypeExpr) (schema : Option Schema)
    (f : α → RequestParts) : ReadFrom field (out.map fun a => (.request name node field schema, f a)) := by
  rintro b parts h
  rcases out with _ | a
  · cases h
  · cases h
    exact ⟨name, node, schema, rfl⟩

/-- Resolving the type does not decide where a parameter is read from. -/
theorem readFrom_schemaOf {p : Parameter} {f : Schema → Bind c Binding}
    (h : ∀ s r, ReadFrom field ((f s).outcome parts r)) : ReadFrom field ((schemaOf p >>= f).outcome parts r) := by
  rw [outcome_schemaOf]
  rcases (resolve p.node p.location : Resolving c Schema).run r with ⟨_ | s, r'⟩
  · exact readFrom_error _
  · exact h s r'

/-- A single property is read from its own field. -/
theorem readFrom_property (place : Place) (p : Parameter) (schema : Schema) :
    ReadFrom (place.single p.name) ((property place p schema : Bind c Binding).outcome parts r) := by
  rw [outcome_property]
  exact readFrom_map _ _ _ _ _

/-- A body is read from the body. -/
theorem readFrom_body (p : Parameter) (schema : Schema) :
    ReadFrom .body ((body p schema : Bind c Binding).outcome parts r) := by
  rw [outcome_body]
  split
  · exact readFrom_error _
  · exact readFrom_map (.ok ()) _ _ _ fun _ => _

/-- An object that fills a place is read from the place as a whole. -/
theorem readFrom_whole (place : Place) (p : Parameter) (schema : Schema) :
    ReadFrom place.whole ((whole place p schema : Bind c Binding).outcome parts r) := by
  rw [outcome_whole]
  split
  · exact readFrom_error _
  · exact readFrom_map _ _ _ _ _

/-- A parameter that is marked with a place is read from a property or from the whole of it, by its shape. -/
theorem readFrom_placed (place : Place) (p : Parameter) :
    ReadFrom (place.field p.name (c.shapeOf p.node p.location.unit))
      ((placed place p : Bind c Binding).outcome parts r) := by
  rw [placed]
  refine readFrom_schemaOf fun s r => ?_
  cases c.shapeOf p.node p.location.unit with
  | structured => exact readFrom_whole place p s
  | scalar => exact readFrom_property place p s

/-- An object of the server is read from where the server keeps it. -/
theorem readFrom_raw (target : RawTarget) (p : Parameter) (verb : Verb) :
    ReadFrom target.field ((raw p target verb : Bind c Binding).outcome parts r) := by
  have hread (field : Field) : ReadFrom field (.ok (.request p.name p.node field none, parts)) :=
    readFrom_map (.ok ()) _ _ _ fun _ => parts
  cases target with
  | request => exact hread .request
  | reply => exact hread .reply
  | socket =>
    rw [raw]
    split
    · exact hread .socket
    · exact readFrom_error _

/-- A parameter without a marker is read from where its name, its shape and the verb say. -/
theorem readFrom_positional (p : Parameter) (verb : Verb) (tokens : List String) :
    ReadFrom (p.positionalField verb tokens (c.shapeOf p.node p.location.unit))
      ((positional p verb tokens : Bind c Binding).outcome parts r) := by
  rw [positional_eq]
  refine readFrom_schemaOf fun s r => ?_
  cases c.shapeOf p.node p.location.unit with
  | scalar => exact readFrom_property _ p s
  | structured =>
    dsimp only [Parameter.positionalField]
    rw [outcome_claim]
    rcases parts.positional with _ | first
    · dsimp only
      split
      · exact readFrom_body p s
      · exact readFrom_whole .query p s
    · exact readFrom_error _

/-- A parameter without a provider is read from its field. -/
theorem readFrom_parameter {providers : Providers} (verb : Verb) (tokens chain : List String) {p : Parameter}
    (hprovider : providers.find? p.name = none) : ReadFrom (p.field verb tokens (c.shapeOf p.node p.location.unit))
      ((parameter providers verb tokens chain p : Bind c Binding).outcome parts r) := by
  rw [parameter_eq, Parameter.field]
  simp only [hprovider]
  rcases p.marker with _ | marker
  · exact readFrom_positional p verb tokens
  · cases marker with
    | raw target => exact readFrom_raw target p verb
    | path => exact readFrom_placed .path p
    | query => exact readFrom_placed .query p
    | header => exact readFrom_placed .header p
    | body => exact readFrom_schemaOf fun s _ => readFrom_body p s

end Bind

end RouteManifest
