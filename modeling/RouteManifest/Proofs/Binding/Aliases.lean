import RouteManifest.Proofs.Binding.Leaves
import RouteManifest.Proofs.Binding.Outcomes
import RouteManifest.Proofs.Meaning.Names

/-!
# Binding aliases

A parameter can be declared with the name of an alias, or with what the alias stands for. Its shape is the same either
way, and the schema of the name is a `$ref` to the other one (`Registry.PointsTo`). So it is read from the same field,
and asks the request for properties of the same names. `Bind.Behind` says what can come between the two: a `$ref` does
not say that the schema behind it can be null, so what would be optional is required; and the object that a parameter is
spread into is looked for behind one `$ref` only, so that an alias is refused if its schema is itself a reference, or an
object or null.
-/

namespace RouteManifest

variable {c : Catalog}

/-! ## Objects

What a parameter is spread into is looked for in its schema, and behind a reference once. -/

namespace Schema

variable {s : Schema}

/-- An object says itself whether it can be null, so there is nothing to unwrap. -/
theorem unwrapNullable?_of_isObject (h : s.isObject = true) : s.unwrapNullable? = none := by
  rw [isObject, Bool.and_eq_true] at h
  rcases hunwrap : s.unwrapNullable? with _ | inner
  · rfl
  · rw [unwrapNullable?] at hunwrap
    split at hunwrap
    · split at hunwrap
      next hempty =>
        have htype : s.keywords.type = none := by
          have hempty := hempty.2
          simp only [Keywords.isEmpty, Bool.and_eq_true, Option.isNone_iff_eq_none] at hempty
          exact hempty.1.1.1.1.1.1.1.1.1.1.1.1.1.1
        rw [htype] at h
        cases h.1
      · cases hunwrap
    · cases hunwrap

end Schema

namespace Registry

variable {r : Registry}

/-- Behind a reference there is an object if the registered schema is one itself. -/
theorem objectView?_reference {id : String} {t : Schema} (ht : r.get? id = some t) :
    r.objectView? (.reference id) = if t.isObject then some t else none := by
  have htarget : (Schema.reference id).refId? = some id := rfl
  rw [objectView?, htarget]
  simp only [ht]
  rfl

/-- What expands into an object is one, can be null, or is a name. -/
theorem cases_of_objectView? {s object : Schema} (h : r.objectView? (s.unwrapNullable?.getD s) = some object) :
    s.isObject = true ∨ s.isNullable = true ∨ s.refId?.isSome = true := by
  rcases hinner : s.unwrapNullable? with _ | inner
  · rw [hinner] at h
    obtain ⟨hobject, ⟨-, rfl⟩ | ⟨id, hid, -⟩⟩ := objectView?_eq_some.mp h
    · exact Or.inl hobject
    · exact Or.inr (Or.inr (Option.isSome_of_eq_some hid))
  · exact Or.inr (Or.inl (Schema.isNullable_of_unwrapNullable? hinner))

end Registry

/-! ## What comes between

Two parameters that ask for properties of the same names leave parts that accept the same parameters afterwards, since
whether something can be added depends on names alone. -/

namespace RequestParts

/-- Parts of a request with properties of the same names. -/
structure SameNames (a b : RequestParts) : Prop where
  names : ∀ place, (a.atPlace place).schemas.names.Perm (b.atPlace place).schemas.names
  body : a.body.isSome = b.body.isSome
  positional : a.positional = b.positional
  shortCircuits : a.shortCircuits = b.shortCircuits

variable {parts : RequestParts}

/-- Parts have the same names as themselves. -/
theorem SameNames.refl (parts : RequestParts) : parts.SameNames parts := ⟨fun _ => .refl _, rfl, rfl, rfl⟩

/-- Parts have the same names after properties of the same names were put into one place of them. -/
theorem SameNames.withPlace {p q : Properties} (h : p.schemas.names.Perm q.schemas.names) (place : Place) :
    (parts.withPlace p place).SameNames (parts.withPlace q place) where
  names := by
    intro other
    rw [atPlace_withPlace, atPlace_withPlace]
    split
    · exact h
    · exact .refl _
  body := by rw [body_withPlace, body_withPlace]
  positional := by cases place <;> rfl
  shortCircuits := by cases place <;> rfl

end RequestParts

namespace Bind

/-- What binding a parameter comes to if it is declared with the name of an alias, and if it is declared with what the
alias stands for. The parts are those that there were before. -/
inductive Behind (parts : RequestParts) :
    Except Fault (Binding × RequestParts) → Except Fault (Binding × RequestParts) → Prop where
  /-- neither can be bound -/
  | fault {f f' : Fault} : Behind parts (.error f) (.error f')
  /-- both are read from one field, and ask for the same -/
  | bound {name : String} {node node' : TypeExpr} {field : Field} {schema schema' : Option Schema}
      {a b : RequestParts} :
      (field.isWhole = true → ∃ s, schema' = some s ∧ s.isObject = true ∧ s.isNullable = false) → a.SameNames b →
      (∀ place, (a.atPlace place).required.Perm (b.atPlace place).required) →
      Behind parts (.ok (.request name node field schema, a)) (.ok (.request name node' field schema', b))
  /-- what can be null is not required, and the name of the alias does not show that -/
  | optional {name : String} {node node' : TypeExpr} {field : Field} {schema : Option Schema} {s : Schema}
      {a b : RequestParts} : (field.isWhole = true → s.isObject = true) → s.isNullable = true → a.SameNames b →
      (∀ place, (b.atPlace place).required = (parts.atPlace place).required ∧
        (parts.atPlace place).required <+: (a.atPlace place).required) →
      Behind parts (.ok (.request name node field schema, a)) (.ok (.request name node' field (some s), b))
  /-- the object is not found behind the name of the alias -/
  | hidden {fault : Fault} {name : String} {node : TypeExpr} {place : Place} {s : Schema} {b : RequestParts} :
      s.isObject = false → s.isNullable = true ∨ s.refId?.isSome = true →
      Behind parts (.error fault) (.ok (.request name node place.whole (some s), b))

/-- What comes between depends on the places only, not on what else has been collected. -/
theorem Behind.congr {parts parts' : RequestParts} {out out' : Except Fault (Binding × RequestParts)}
    (h : Behind parts out out') (hsame : ∀ place, parts'.atPlace place = parts.atPlace place) :
    Behind parts' out out' := by
  cases h with
  | fault => exact .fault
  | bound hwhole hnames hrequired => exact .bound hwhole hnames hrequired
  | optional hwhole hnull hnames hrequired =>
    exact .optional hwhole hnull hnames fun place => hsame place ▸ hrequired place
  | hidden hobject h => exact .hidden hobject h

/-! ## The name of an alias

One lemma for each way to bind a parameter. The schema on the left is a reference, the one on the right is what it
points at. -/

variable {parts : RequestParts} {r : Resolver c}

section Places

variable {name : String} {node node' : TypeExpr} {field : Field} {schema : Option Schema} {s : Schema} {place : Place}
  {props props' : Properties} (hnames : props.schemas.names.Perm props'.schemas.names)
include hnames

/-- Both add the same to a place, and require the same of it. -/
theorem Behind.bound_withPlace (hwhole : field.isWhole = true → s.isObject = true ∧ s.isNullable = false)
    (hrequired : props.required.Perm props'.required) :
    Behind parts (.ok (.request name node field schema, parts.withPlace props place))
      (.ok (.request name node' field (some s), parts.withPlace props' place)) := by
  refine .bound (fun h => ⟨s, rfl, hwhole h⟩) (.withPlace hnames place) fun other => ?_
  rw [RequestParts.atPlace_withPlace, RequestParts.atPlace_withPlace]
  split
  · exact hrequired
  · exact .refl _

/-- Both add the same, but what can be null is required by the name of the alias alone. -/
theorem Behind.optional_withPlace (hwhole : field.isWhole = true → s.isObject = true) (hnull : s.isNullable = true)
    (hrequired : props'.required = (parts.atPlace place).required)
    (hgrows : (parts.atPlace place).required <+: props.required) :
    Behind parts (.ok (.request name node field schema, parts.withPlace props place))
      (.ok (.request name node' field (some s), parts.withPlace props' place)) := by
  refine .optional hwhole hnull (.withPlace hnames place) fun other => ?_
  rw [RequestParts.atPlace_withPlace, RequestParts.atPlace_withPlace]
  split
  next heq => exact heq ▸ ⟨hrequired, hgrows⟩
  · exact ⟨rfl, List.prefix_rfl⟩

end Places

variable {p p' : Parameter} {s t : Schema} {id : String} {q : Resolver c}

/-- The parameters are bound alike if they are by every two schemas that they may have. -/
theorem behind_schemaOf (hlocation : p'.location = p.location) {f f' : Schema → Bind c Binding}
    (hpoints : r.PointsTo p.location p.node p'.node)
    (hf : ∀ (id : String) (s t : Schema) (q r' : Resolver c), q.registry.get? id = some t → t.canonical = s.canonical →
      Behind parts ((f (.reference id)).outcome parts q) ((f' s).outcome parts r')) :
    Behind parts ((schemaOf p >>= f).outcome parts r) ((schemaOf p' >>= f').outcome parts r) := by
  rw [outcome_schemaOf, outcome_schemaOf, hlocation]
  rcases hout : (resolve p.node p.location : Resolving c Schema).run r with ⟨out, q⟩
  rcases hout' : (resolve p'.node p.location : Resolving c Schema).run r with ⟨out', r'⟩
  rw [Resolver.PointsTo, hout, hout'] at hpoints
  cases hpoints with
  | schema ht hshape => exact hf _ _ _ _ _ ht hshape
  | fault => exact .fault

section SameParameter

variable (hname : p'.name = p.name) (hlocation : p'.location = p.location)
include hname hlocation

/-- A property that is required is so by every name, unless it is one that can be null. -/
theorem behind_property (place : Place) :
    Behind parts ((property place p (.reference id) : Bind c Binding).outcome parts q)
      ((property place p' s : Bind c Binding).outcome parts r) := by
  rw [outcome_property, outcome_property, hname, hlocation]
  have hkeeps : (decide (place = .path) || !(Schema.reference id).isNullable) = true := Bool.or_true _
  rw [hkeeps]
  rcases (parts.atPlace place).add_both place (place.rename p.name) (.reference id) s true
      (decide (place = .path) || !s.isNullable) p.location with
    ⟨f, f', hadd, hadd'⟩ | ⟨props, props', hadd, hadd', hnames, hrequired, hrequired'⟩
  · rw [hadd, hadd']
    exact .fault
  · rw [hadd, hadd']
    have hperm : props.schemas.names.Perm props'.schemas.names := .of_eq hnames
    have hsingle {P : Prop} (h : (place.single p.name).isWhole = true) : P := by
      rw [Place.isWhole_single] at h
      cases h
    rcases hrequires : decide (place = .path) || !s.isNullable with _ | _
    · rw [hrequires] at hrequired'
      rw [Bool.or_eq_false_iff, Bool.not_eq_false'] at hrequires
      exact .optional_withPlace hperm hsingle hrequires.2 (hrequired'.trans (List.append_nil _))
        (hrequired ▸ List.prefix_append _ _)
    · rw [hrequires] at hrequired'
      exact .bound_withPlace hperm hsingle (.of_eq (hrequired.trans hrequired'.symm))

/-- A body is taken as it is, whatever its schema. -/
theorem behind_body : Behind parts ((body p t : Bind c Binding).outcome parts q)
    ((body p' s : Bind c Binding).outcome parts r) := by
  rw [outcome_body, outcome_body, hname, hlocation]
  split
  · exact .fault
  · refine .bound nofun ⟨fun place => ?_, rfl, rfl, rfl⟩ fun place => ?_
    · cases place <;> exact .refl _
    · cases place <;> exact .refl _

/-- An object is found behind one name, and nothing else is. -/
theorem behind_whole (place : Place) (ht : q.registry.get? id = some t) (hshape : t.canonical = s.canonical) :
    Behind parts ((whole place p (.reference id) : Bind c Binding).outcome parts q)
      ((whole place p' s : Bind c Binding).outcome parts r) := by
  rw [outcome_whole, outcome_whole, hname, hlocation]
  have htarget : (Schema.reference id).unwrapNullable?.getD (.reference id) = .reference id := rfl
  rw [htarget, Registry.objectView?_reference ht, Schema.isObject_of_shape hshape]
  by_cases hobject : s.isObject = true
  · rw [if_pos hobject, Schema.unwrapNullable?_of_isObject hobject, Option.getD_none,
      Registry.objectView?_of_isObject hobject]
    have hkeeps : (Schema.reference id).isNullable = false := rfl
    simp only [hkeeps, Bool.false_eq_true, if_false]
    rcases (parts.atPlace place).addAll_both place place.rename (t.keywords.required.getD [])
        (if s.isNullable then [] else s.keywords.required.getD []) p.location (Schema.names_perm_of_shape hshape) with
      ⟨f, f', hadd, hadd'⟩ | ⟨props, props', hadd, hadd', hnames, hrequired, hrequired'⟩
    · rw [hadd, hadd']
      exact .fault
    · rw [hadd, hadd']
      -- an object that can be null requires nothing, and its name does not show that
      rcases hnull : s.isNullable with _ | _
      · simp only [hnull, Bool.false_eq_true, if_false] at hrequired'
        refine .bound_withPlace hnames (fun _ => ⟨hobject, hnull⟩) ?_
        rw [hrequired, hrequired', funext (Schema.contains_required_of_shape hshape)]
        exact (((Schema.names_perm_of_shape hshape).filter _).map _).append_left _
      · simp only [hnull, if_true] at hrequired'
        have hnothing (l : List String) : l.filter ([] : List String).contains = [] := List.filter_false l
        rw [hnothing, List.map_nil, List.append_nil] at hrequired'
        exact .optional_withPlace hnames (fun _ => hobject) hnull hrequired' (hrequired ▸ List.prefix_append _ _)
  · rw [if_neg hobject]
    rcases hview : r.registry.objectView? (s.unwrapNullable?.getD s) with _ | object
    · exact .fault
    · have hhidden := (Registry.cases_of_objectView? hview).resolve_left hobject
      dsimp only
      rcases (parts.atPlace place).addAll place place.rename _ p.location _ with _ | props
      · exact .fault
      · exact .hidden (eq_false_of_ne_true hobject) hhidden

section Points

variable (hshape : c.shapeOf p'.node p'.location.unit = c.shapeOf p.node p.location.unit)
  (hpoints : r.PointsTo p.location p.node p'.node)
include hshape hpoints

/-- A parameter that is marked with a place is read as its shape says, which is the same for both. -/
theorem behind_placed (place : Place) : Behind parts ((placed place p : Bind c Binding).outcome parts r)
    ((placed place p' : Bind c Binding).outcome parts r) := by
  rw [placed, placed, hshape]
  refine behind_schemaOf hlocation hpoints fun id s t q r' ht hcanonical => ?_
  cases c.shapeOf p.node p.location.unit with
  | structured => exact behind_whole hname hlocation place ht hcanonical
  | scalar => exact behind_property hname hlocation place

/-! ### Marked and unmarked parameters

A marker decides where a parameter is read before its type is looked at, so that both readings take the same way.
Without a marker the shape has a say, which is the same for both. -/

/-- A marker sends both to the same place. -/
theorem behind_marked (verb : Verb) (marker : Marker) :
    Behind parts ((marked p verb marker : Bind c Binding).outcome parts r)
      ((marked p' verb marker : Bind c Binding).outcome parts r) := by
  cases marker with
  | raw target =>
    have hbound (field : Field) (hwhole : field.isWhole = false) :
        Behind parts (.ok (.request p.name p.node field none, parts))
          (.ok (.request p'.name p'.node field none, parts)) := by
      rw [hname]
      exact .bound (fun h => absurd (hwhole.symm.trans h) nofun) (.refl parts) fun _ => .refl _
    cases target with
    | request => exact hbound .request rfl
    | reply => exact hbound .reply rfl
    | socket =>
      rw [marked, marked, raw, raw]
      split
      · exact hbound .socket rfl
      · exact .fault
  | path => exact behind_placed hname hlocation hshape hpoints .path
  | query => exact behind_placed hname hlocation hshape hpoints .query
  | header => exact behind_placed hname hlocation hshape hpoints .header
  | body => exact behind_schemaOf hlocation hpoints fun _ _ _ _ _ _ _ => behind_body hname hlocation

/-- Without a marker, name, shape and verb decide, and they are the same for both. -/
theorem behind_positional (verb : Verb) (tokens : List String) :
    Behind parts ((positional p verb tokens : Bind c Binding).outcome parts r)
      ((positional p' verb tokens : Bind c Binding).outcome parts r) := by
  rw [positional_eq, positional_eq, hshape]
  refine behind_schemaOf hlocation hpoints fun id s t q r' ht hcanonical => ?_
  cases c.shapeOf p.node p.location.unit with
  | scalar =>
    rw [hname]
    exact behind_property hname hlocation _
  | structured =>
    dsimp only
    rw [outcome_claim, outcome_claim, hname, hlocation]
    rcases parts.positional with _ | first
    · have hsame (place : Place) : parts.atPlace place = { parts with positional := some p.name }.atPlace place := by
        cases place <;> rfl
      dsimp only
      split
      · exact (behind_body hname hlocation).congr hsame
      · exact (behind_whole hname hlocation .query ht hcanonical).congr hsame
    · exact .fault

end Points

end SameParameter

end Bind

/-- An alias is read from the same field of the request as what it stands for, whichever of the two can be bound. And it
is bound like what it stands for but for what its name does not show (`Bind.Behind`), if

* there is no way from the alias back to it,
* nobody insists on an id that the alias can have,
* and nothing that it stands for takes the id that it is about to get. -/
theorem binding_sees_aliases (hc : (c.declarations.map Declaration.name).Nodup) {i : Fin c.size} (hi : (c.get i).IsAlias)
    {providers : Providers} (verb : Verb) (tokens chain : List String) {p : Parameter}
    (hprovider : providers.find? p.name = none) (parts : RequestParts) (r : Resolver c) :
    (∃ field, Bind.ReadFrom field (Bind.declared providers verb tokens chain p parts r (.reference (c.get i).name)) ∧
      Bind.ReadFrom field (Bind.declared providers verb tokens chain p parts r (c.get i).body)) ∧
    (¬c.Leads i i → (∀ j id, (c.get i).MakesUp id → ¬(c.get j).InsistsOn id) → r.Called Intact →
      (r.id? (c.identity i []) = none →
        ∀ m, (Moment.call (c.get i).body p.location r).Within m → m.Avoids (r.expansionId i [])) →
      Bind.Behind parts (Bind.declared providers verb tokens chain p parts r (.reference (c.get i).name))
        (Bind.declared providers verb tokens chain p parts r (c.get i).body)) := by
  have hshape := (c.shapeOf_name hc i p.location.unit p.location.unit).symm
  constructor
  · refine ⟨_, Bind.readFrom_parameter verb tokens chain ?_, hshape ▸ Bind.readFrom_parameter verb tokens chain ?_⟩
    · exact hprovider
    · exact hprovider
  · intro hself hid hr hfree
    have hpoints := hr.pointsTo hi hself hid hc hfree
    rw [Bind.declared, Bind.declared, Bind.parameter_eq, Bind.parameter_eq]
    simp only [hprovider]
    rcases p.marker with _ | marker
    · refine Bind.behind_positional ?_ ?_ hshape hpoints verb tokens <;> rfl
    · refine Bind.behind_marked ?_ ?_ hshape hpoints verb marker <;> rfl

/-- A filter is an object, and a query is a filter by another name. -/
def searchCatalog : Catalog where
  declarations := [
    { name := "Filter", body := .object [("page", ⟨.primitive .u32, true⟩)] false, location := ⟨⟨"search.rs"⟩, 1, 0⟩ },
    { name := "Query", body := .reference "Filter", location := ⟨⟨"search.rs"⟩, 5, 0⟩ }]

/-- The declaration of a filter. -/
abbrev searchCatalog.filter : Fin searchCatalog.size := ⟨0, by decide⟩

/-- The declaration of a query. -/
abbrev searchCatalog.query : Fin searchCatalog.size := ⟨1, by decide⟩

/-- A parameter that says what to search for. -/
def searchParam : Parameter where
  name := "search"
  node := .reference "Filter"
  location := ⟨⟨"search.rs"⟩, 9, 0⟩

/-! ### A search

The aliases of one object, of an object or null, and of an alias of an alias. -/

/-- The only use in this catalog is that of a filter in a query. -/
theorem searchCatalog_uses {i j : Fin searchCatalog.size} (h : searchCatalog.Uses i j) :
    i = searchCatalog.query ∧ j = searchCatalog.filter := by
  obtain ⟨e, name, args, he, hform, hj⟩ := h
  have hcases : ∀ i : Fin searchCatalog.size, i = searchCatalog.filter ∨ i = searchCatalog.query := by decide
  rcases hcases i with rfl | rfl
  · -- there is no name in an object of numbers
    cases he with
    | self => cases hform
    | part hbuilt ha hx =>
      cases hbuilt
      obtain rfl := List.mem_singleton.mp ha
      cases hx with
      | self => cases hform
      | part hbuilt ha =>
        cases hbuilt
        cases ha
      | arg hnamed => cases hnamed
    | arg hnamed => cases hnamed
  · refine ⟨rfl, ?_⟩
    cases he with
    | self =>
      cases hform
      have hfilter : searchCatalog.lookup? "Filter" ⟨"search.rs"⟩ = some searchCatalog.filter := by decide +kernel
      exact Option.some.inj (hj.symm.trans hfilter)
    | part hbuilt => cases hbuilt
    | arg hnamed ha =>
      cases hnamed
      cases ha

/-- Nothing is reached in more than one step. -/
theorem searchCatalog_leads {i j : Fin searchCatalog.size} (h : searchCatalog.Leads i j) :
    i = searchCatalog.query ∧ j = searchCatalog.filter := by
  obtain ⟨_, hi, -⟩ := Relation.TransGen.head'_iff.mp h
  obtain ⟨_, -, hj⟩ := Relation.TransGen.tail'_iff.mp h
  exact ⟨(searchCatalog_uses hi).1, (searchCatalog_uses hj).2⟩

theorem searchCatalog_not_leads (i : Fin searchCatalog.size) : ¬searchCatalog.Leads i i := by
  intro h
  obtain ⟨rfl, hzero⟩ := searchCatalog_leads h
  exact absurd hzero (by decide)

/-- No id is insisted on. -/
theorem searchCatalog_externalId : ∀ i, (searchCatalog.get i).externalId = none := by decide

/-- The id of a filter is not that of a query. -/
theorem searchCatalog_not_canHave : ¬(searchCatalog.get searchCatalog.filter).CanHave "Query" := by
  rintro (⟨hexternal, -⟩ | ⟨args, k, hargs, -, hid⟩)
  · rw [searchCatalog_externalId] at hexternal
    cases hexternal
  · obtain rfl := List.length_eq_zero_iff.mp hargs
    have hname : (searchCatalog.get searchCatalog.filter).instanceName [] = "Filter" := by decide +kernel
    have hhead := congrArg (fun id => id.toList.head?) hid
    simp only [hname, Text.numbered] at hhead
    split at hhead
    · cases hhead
    · rw [String.toList_append] at hhead
      cases hhead

/-- What a search comes to for a parameter of that type. -/
def search (node : TypeExpr) : Except Fault (Binding × RequestParts) :=
  Bind.declared (c := searchCatalog) [] .get [] [] searchParam {} {} node

/-- A search is structured and its verb has no body, so it fills the query string. -/
theorem search_eq {node : TypeExpr} (hshape : searchCatalog.shapeOf node ⟨"search.rs"⟩ = .structured) :
    search node =
      match (resolve node ⟨⟨"search.rs"⟩, 9, 0⟩).run ({} : Resolver searchCatalog) with
      | (.ok s, r) => (Bind.whole .query { searchParam with node } s : Bind searchCatalog Binding).outcome
          { positional := some "search" } r
      | (.error fault, _) => .error fault := by
  rw [search, Bind.declared, Bind.parameter_eq]
  show (Bind.positional { searchParam with node } .get [] : Bind searchCatalog Binding).outcome {} {} = _
  have hstructured : searchCatalog.shapeOf { searchParam with node }.node { searchParam with node }.location.unit =
      .structured := hshape
  rw [Bind.positional, hstructured, Bind.outcome_schemaOf]
  have hnode : (resolve { searchParam with node }.node { searchParam with node }.location :
      Resolving searchCatalog Schema) = resolve node ⟨⟨"search.rs"⟩, 9, 0⟩ := rfl
  rw [hnode]
  rcases (resolve node ⟨⟨"search.rs"⟩, 9, 0⟩).run ({} : Resolver searchCatalog) with ⟨_ | s, r⟩
  · rfl
  · rfl

/-- A filter is spread over the query string like its object. A query is refused, being the name of a name. -/
theorem binding_sees_aliases_search :
    Bind.Behind {} (search (.reference "Filter")) (search (.object [("page", ⟨.primitive .u32, true⟩)] false)) ∧
      (search (.reference "Filter")).isOk = true ∧
      Bind.Behind {} (search (.reference "Query")) (search (.reference "Filter")) ∧
      (search (.reference "Query")).isOk = false := by
  have halias (i : Fin searchCatalog.size) : (searchCatalog.get i).IsAlias :=
    ⟨(by decide : ∀ i, (searchCatalog.get i).typeParams = []) i, searchCatalog_externalId i⟩
  have hinsists (j : Fin searchCatalog.size) (id : String) : ¬(searchCatalog.get j).InsistsOn id := by
    rintro ⟨hexternal, -⟩
    rw [searchCatalog_externalId] at hexternal
    cases hexternal
  have hfree (i : Fin searchCatalog.size) (m : Moment searchCatalog)
      (hm : (Moment.call (searchCatalog.get i).body ⟨⟨"search.rs"⟩, 9, 0⟩ ({} : Resolver searchCatalog)).Within m) :
      m.Avoids (({} : Resolver searchCatalog).expansionId i []) := by
    refine Moment.avoids_of_within hm trivial fun j hj => ?_
    obtain ⟨rfl, rfl⟩ := searchCatalog_leads (hj.leads (by decide))
    have hid : ({} : Resolver searchCatalog).expansionId searchCatalog.query [] = "Query" := by decide +kernel
    rw [hid]
    exact searchCatalog_not_canHave
  have hprovider : Table.find? ([] : Providers) searchParam.name = none := rfl
  have hbehind (i : Fin searchCatalog.size) :=
    (binding_sees_aliases (c := searchCatalog) (by decide) (halias i) .get [] [] hprovider {} {}).2
      (searchCatalog_not_leads i) (fun j id _ => hinsists j id) .fresh fun _ => hfree i
  have hobject : searchCatalog.shapeOf (.object [("page", ⟨.primitive .u32, true⟩)] false) ⟨"search.rs"⟩ =
      .structured := by
    have hcollection : (TypeExpr.object [("page", ⟨.primitive .u32, true⟩)] false).IsCollection := trivial
    rw [Catalog.shapeOf, Catalog.anyStructured_collection hcollection]
    rfl
  have hfilter : searchCatalog.shapeOf (.reference "Filter") ⟨"search.rs"⟩ = .structured :=
    (searchCatalog.shapeOf_name (by decide) searchCatalog.filter _ _).trans hobject
  have hquery : searchCatalog.shapeOf (.reference "Query") ⟨"search.rs"⟩ = .structured :=
    (searchCatalog.shapeOf_name (by decide) searchCatalog.query _ _).trans hfilter
  refine ⟨hbehind searchCatalog.filter, ?_, hbehind searchCatalog.query, ?_⟩
  · rw [search_eq hfilter, resolve_eq_within]
    decide +kernel
  · rw [search_eq hquery, resolve_eq_within]
    decide +kernel

end RouteManifest
