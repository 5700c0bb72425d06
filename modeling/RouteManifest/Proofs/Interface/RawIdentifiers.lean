import RouteManifest.Generation
import RouteManifest.Interface.Handlers
import RouteManifest.Proofs.Interface.NameRules
import RouteManifest.Proofs.Source.Places

/-!
# Raw identifiers

A file can be written with raw identifiers for its fields, variants and parameters, and with its tokens at other places
(`SourceFile.raw`). Two files that are the same when they are so written are the same to an interface: their declarations
are the same but for the places, and so are their handlers and providers, if the patterns of the parameters carry the same
marks wherever a name is read off them (`lowered_of_raw_eq`).

Fields and variants are named without the mark of a raw identifier. A parameter keeps the mark, in its name and where a
comment is searched for it. So a mark shows on a parameter of which one name is read (`FunctionParam.isMarked`), and on
no other: a pattern that binds several names gives the parameter a name by its position.

The proof goes along the lowering. Reading attributes does not look at places (`Relocates`), so a comment and the options
of an item are the same in both files; the type of an item looks at names only where the mark has been taken off; and of a
parameter everything but the name is the same, so that one equation of names decides (`FunctionParam.parameter?_eq_iff`).
-/

namespace RouteManifest

open Source TokenTree

variable {g : Position → Position}

/-! ## Files with raw identifiers

For every piece of a file there is the same piece with raw identifiers and its tokens moved. `rawIdentifier` puts the
mark on whether or not it was there, so two files that differ in their marks have one raw form. -/

namespace Source

/-- The raw identifier of a name. -/
def rawIdentifier (name : String) : String := "r#" ++ WireOptions.plainIdentifier name

/-- An identifier with and without the mark has one raw identifier. -/
theorem rawIdentifier_mark {name : String} (h : WireOptions.plainIdentifier name = name) :
    rawIdentifier ("r#" ++ name) = rawIdentifier name := by
  rw [rawIdentifier, rawIdentifier, WireOptions.plainIdentifier_raw, h]

/-- Whether a name is written with the mark of a raw identifier. -/
def isMarked (name : String) : Bool := (Text.dropLeadingText? "r#" name).isSome

/-- Without the mark a name is its own plain form, and with it the plain form behind the mark. -/
theorem eq_of_isMarked (name : String) :
    name = if isMarked name then rawIdentifier name else WireOptions.plainIdentifier name := by
  rw [isMarked, rawIdentifier, WireOptions.plainIdentifier]
  rcases h : Text.dropLeadingText? "r#" name with _ | plain
  · rfl
  · obtain ⟨cs, hcs, rfl⟩ := Option.map_eq_some_iff.mp h
    apply String.toList_injective
    simpa using Text.dropLeading?_eq_some hcs

/-- Two ways to write an identifier differ in the mark only. -/
theorem eq_iff_isMarked_eq {a b : String} (h : rawIdentifier a = rawIdentifier b) : a = b ↔ isMarked a = isMarked b := by
  refine ⟨congrArg isMarked, fun hmark => ?_⟩
  have hplain : WireOptions.plainIdentifier a = WireOptions.plainIdentifier b := by
    simpa only [rawIdentifier, WireOptions.plainIdentifier_raw] using congrArg WireOptions.plainIdentifier h
  rw [eq_of_isMarked a, eq_of_isMarked b, hmark, h, hplain]

/-- What an attribute says, at other places. -/
def AttributeContent.mapPlaces (g : Position → Position) : AttributeContent → AttributeContent
  | .list trees => .list (TokenTree.mapPlaces g trees)
  | content => content

/-- An attribute at other places. -/
def Attribute.mapPlaces (g : Position → Position) (a : Attribute) : Attribute :=
  { a with content := a.content.mapPlaces g }

/-- A field with its attributes at other places. -/
def Field.mapPlaces (g : Position → Position) (f : Field) : Field :=
  { f with attributes := f.attributes.map (Attribute.mapPlaces g) }

/-- A named field with a raw identifier. -/
def rawField (g : Position → Position) (f : String × Field) : String × Field := (rawIdentifier f.1, f.2.mapPlaces g)

/-- Fields with raw identifiers. -/
def Fields.raw (g : Position → Position) : Fields → Fields
  | .named fields => .named (fields.map (rawField g))
  | .positional fields => .positional (fields.map (Field.mapPlaces g))
  | .unit => .unit

/-- A variant with raw identifiers. -/
def Variant.raw (g : Position → Position) (v : Variant) : Variant where
  name := rawIdentifier v.name
  attributes := v.attributes.map (Attribute.mapPlaces g)
  fields := v.fields.raw g

/-- The head of a type at another place. -/
def TypeHead.mapPlaces (g : Position → Position) (h : TypeHead) : TypeHead :=
  { h with place := g h.place, attributes := h.attributes.map (Attribute.mapPlaces g) }

mutual
/-- A pattern with raw identifiers. -/
def Pattern.raw : Pattern → Pattern
  | .name text => .name (rawIdentifier text)
  | .wrapper elements => .wrapper (rawPatterns elements)
  | .reference target => .reference target.raw
  | .other => .other

/-- Patterns with raw identifiers. -/
def rawPatterns : List Pattern → List Pattern
  | [] => []
  | p :: rest => p.raw :: rawPatterns rest
end

/-- A parameter with raw identifiers. -/
def FunctionParam.raw (g : Position → Position) : FunctionParam → FunctionParam
  | .receiver => .receiver
  | .typed pattern place type => .typed pattern.raw (g place) type

/-- A function with raw identifiers for its parameters. -/
def Function.raw (g : Position → Position) (f : Function) : Function :=
  { f with
    place := g f.place
    attributes := f.attributes.map (Attribute.mapPlaces g)
    params := f.params.map (FunctionParam.raw g) }

mutual
/-- An item with raw identifiers. -/
def Item.raw (g : Position → Position) : Item → Item
  | .structItem head fields => .structItem (head.mapPlaces g) (fields.raw g)
  | .enumItem head variants => .enumItem (head.mapPlaces g) (variants.map (Variant.raw g))
  | .synonym head target => .synonym (head.mapPlaces g) target
  | .module items => .module (rawItems g items)
  | .function f => .function (f.raw g)
  | .other => .other

/-- Items with raw identifiers. -/
def rawItems (g : Position → Position) : List Item → List Item
  | [] => []
  | item :: rest => item.raw g :: rawItems g rest
end

end Source

/-- A file with raw identifiers for its fields, variants and parameters, at other places. -/
def SourceFile.raw (g : Position → Position) (file : SourceFile) : SourceFile :=
  { file with items := rawItems g file.items }

/-! ## What an interface shows, at other places

Declarations, handlers and providers carry the place they stand at, and nothing else of them depends on it. Moving the
place is the only difference that is allowed below. -/

/-- A location at another place of its file. -/
def Location.mapPlace (g : Position → Position) (l : Location) : Location := locate l.unit (g ⟨l.line, l.column⟩)

/-- A declaration at another place. -/
def Declaration.mapPlace (g : Position → Position) (d : Declaration) : Declaration :=
  { d with location := d.location.mapPlace g }

/-- A parameter at another place. -/
def Parameter.mapPlace (g : Position → Position) (p : Parameter) : Parameter :=
  { p with location := p.location.mapPlace g }

/-- A handler at another place. -/
def Handler.mapPlace (g : Position → Position) (h : Handler) : Handler :=
  { h with params := h.params.map (Parameter.mapPlace g), location := h.location.mapPlace g }

/-- A provider at another place. -/
def Provider.mapPlace (g : Position → Position) (p : Provider) : Provider :=
  { p with params := p.params.map (Parameter.mapPlace g), location := p.location.mapPlace g }

/-- A controller unit with its handlers at other places. -/
def ControllerUnit.mapPlaces (g : Position → Position) (unit : ControllerUnit) : ControllerUnit :=
  { unit with handlers := unit.handlers.map (Handler.mapPlace g) }

/-- Whether the name that is read off a parameter's pattern is written with the mark of a raw identifier. A receiver has no
name, and off a pattern that binds several names none is read. -/
def Source.FunctionParam.isMarked : Source.FunctionParam → Bool
  | .receiver => false
  | .typed pattern _ _ => pattern.bound?.any Source.isMarked

/-- Which parameters of a function are marked. -/
def Source.Function.marks (f : Source.Function) : List Bool := f.params.map Source.FunctionParam.isMarked

/-- Which parameters of a file's handlers are marked. -/
def SourceFile.handlerMarks (file : SourceFile) : List (List Bool) :=
  (file.functions.filter fun f => f.isPublic).map Source.Function.marks

/-- Which parameters are marked of the function that a provider reference means. -/
def SourceFile.providerMarks? (file : SourceFile) (r : ProviderReference) : Option (List Bool) :=
  (file.functions.find? fun f => f.name == r.function).map Source.Function.marks

/-- The names of a provider's parameters. -/
def Provider.parameterNames (p : Provider) : List String := p.params.map Parameter.name

/-- The names of the parameters of a unit's handlers. -/
def ControllerUnit.parameterNames (unit : ControllerUnit) : List (List String) :=
  unit.handlers.map fun h => h.params.map Parameter.name

/-- Places that are left alone leave a declaration alone. -/
theorem Declaration.mapPlace_id : Declaration.mapPlace id = id := rfl

theorem Handler.mapPlace_id : Handler.mapPlace id = id := by
  funext h
  show { h with params := h.params.map id } = h
  rw [List.map_id]

theorem ControllerUnit.mapPlaces_id (unit : ControllerUnit) : unit.mapPlaces id = unit := by
  rw [ControllerUnit.mapPlaces, Handler.mapPlace_id, List.map_id]

/-! ## Attributes at other places

The reader of attributes sees the kinds and texts of tokens. It was written with combinators that do not look at places,
and the instances follow the way it is put together. -/

namespace WireOptions

open Reading

instance : Relocates g entryKey := by unfold entryKey; infer_instance

instance {α : Type} {entry : Source.Reading α} [Relocates g entry] : Relocates g (nestedEntries entry) := by
  unfold nestedEntries
  infer_instance

instance : Relocates g textValue := by
  unfold textValue
  refine .bind inferInstance fun _ => ⟨fun trees => ?_⟩
  -- no kind of token is read by its place
  rcases trees with _ | ⟨⟨p, token⟩ | _, rest⟩
  · rfl
  · rcases token with _ | _ | _ | (_ | _ | _) <;> rfl
  · rfl

instance (depth : Nat) : Relocates g (passValueWithin depth) := by
  induction depth with
  | zero => exact inferInstanceAs (Relocates g failure)
  | succ depth ih =>
    unfold passValueWithin
    infer_instance

instance : Relocates g passValue := by unfold passValue; infer_instance

instance : Relocates g writtenName := by
  unfold writtenName
  refine .either inferInstance inferInstance (.bind inferInstance fun halves => ?_)
  split <;> infer_instance

/-- An entry of an attribute is read the same at other places, and leaves the same to be read behind it. -/
theorem entry_mapPlaces (o : WireOptions) (key : String) (trees : List TokenTree) :
    o.entry key (mapPlaces g trees) =
      ((o.entry key trees).1, (o.entry key trees).2.map (mapPlaces g)) := by
  have hname := reading_mapPlaces (g := g) writtenName trees
  have htext := reading_mapPlaces (g := g) textValue trees
  have hpass := reading_mapPlaces (g := g) passValue trees
  unfold entry
  split
  case h_1 | h_2 =>
    simp only [hname]
    cases writtenName trees <;> rfl
  case h_3 | h_4 =>
    simp only [htext]
    cases textValue trees <;> rfl
  case h_5 | h_6 | h_7 | h_8 | h_9 => rfl
  case h_10 | h_11 =>
    simp only [hpass]
    cases passValue trees <;> rfl

/-- All entries of an attribute are read the same at other places. -/
theorem entries_mapPlaces (o : WireOptions) (trees : List TokenTree) :
    o.entries (mapPlaces g trees) = o.entries trees := by
  have hkey := fun trees => reading_mapPlaces (g := g) entryKey trees
  have hcomma := fun trees => reading_mapPlaces (g := g) (marks ",") trees
  induction o, trees using entries.induct with
  | case1 o trees hnone =>
    unfold entries
    simp [hkey, hnone]
  | case2 o trees key rest hsome o' hentry =>
    unfold entries
    simp [hkey, entry_mapPlaces, hsome, hentry]
  | case3 o trees key rest hsome o' rest' hentry hend =>
    unfold entries
    simp [hkey, hcomma, entry_mapPlaces, hsome, hentry, hend]
  | case4 o trees key rest hsome o' rest' hentry _ more hmore hshorter ih =>
    unfold entries
    simp [hkey, hcomma, entry_mapPlaces, hsome, hentry, hmore, hshorter, ih]
  | case5 o trees key rest hsome o' rest' hentry _ more hmore hshorter =>
    unfold entries
    simp [hkey, hcomma, entry_mapPlaces, hsome, hentry, hmore, hshorter]

/-- What attributes ask for does not depend on where they stand. -/
theorem ofAttributes_mapPlaces (attributes : List Attribute) :
    ofAttributes (attributes.map (Attribute.mapPlaces g)) = ofAttributes attributes := by
  have hadd (o : WireOptions) (a : Attribute) : o.addAttribute (a.mapPlaces g) = o.addAttribute a := by
    obtain ⟨name, content⟩ := a
    cases content with
    | list trees =>
      by_cases hname : name = some "serde"
      · subst hname
        exact entries_mapPlaces o trees
      · simp [addAttribute, Attribute.mapPlaces, AttributeContent.mapPlaces, hname]
    | nothing | value => rfl
  rw [ofAttributes, List.foldl_map]
  simp only [hadd]
  rfl

end WireOptions

/-- A comment does not depend on where its lines stand. -/
theorem Documentation.ofAttributes_mapPlaces (attributes : List Attribute) :
    Documentation.ofAttributes (attributes.map (Attribute.mapPlaces g)) = Documentation.ofAttributes attributes := by
  have hline : line? ∘ Attribute.mapPlaces g = line? := by
    funext a
    obtain ⟨name, content⟩ := a
    cases content with
    | list trees =>
      by_cases hname : name = some "doc"
      · subst hname
        rfl
      · simp [line?, Attribute.mapPlaces, AttributeContent.mapPlaces]
    | nothing | value => rfl
  rw [Documentation.ofAttributes, List.filterMap_map, hline]
  rfl

/-- Attributes that differ in their places alone make up one comment. -/
theorem comment_of_mapPlaces_eq {attributes attributes' : List Attribute}
    (h : attributes.map (Attribute.mapPlaces g) = attributes'.map (Attribute.mapPlaces g)) :
    Documentation.ofAttributes attributes = Documentation.ofAttributes attributes' := by
  rw [← Documentation.ofAttributes_mapPlaces (g := g), h, Documentation.ofAttributes_mapPlaces]

/-! ## Declarations

By the kind of item, and for each kind by the kind of its fields. Names on the wire are made without the mark, and types
have no marks to begin with. -/

namespace Source

/-- The name on the wire is made without the mark of a raw identifier, so it is the same with it. -/
theorem nameOf_rawIdentifier (o : WireOptions) (rule : Option String) (name : String) :
    o.nameOf rule (rawIdentifier name) = o.nameOf rule name := by
  unfold WireOptions.nameOf rawIdentifier
  rw [WireOptions.plainIdentifier_raw]

/-- The fields that are kept are the same, since nothing that is skipped is skipped by its name. -/
theorem keptFields_raw (fields : List (String × Field)) :
    keptFields (fields.map (rawField g)) =
      (keptFields fields).map fun (name, f, o) => (rawIdentifier name, f.mapPlaces g, o) := by
  simp [keptFields, List.filter_map, Function.comp_def, rawField, Field.mapPlaces, WireOptions.ofAttributes_mapPlaces]

variable (params : List String) (rule : Option String) (closed : Bool)

/-- The type of named fields shows no marks. -/
theorem namedFieldsType_raw (fields : List (String × Field)) :
    namedFieldsType params rule closed (fields.map (rawField g)) = namedFieldsType params rule closed fields := by
  unfold namedFieldsType
  rw [keptFields_raw]
  dsimp only
  rw [List.filter_map, List.filter_map, List.isEmpty_map]
  simp [Function.comp_def, nameOf_rawIdentifier, Field.mapPlaces]

/-- The type of positional fields shows no places. -/
theorem positionalFieldsType_mapPlaces (fields : List Field) :
    positionalFieldsType params (fields.map (Field.mapPlaces g)) = positionalFieldsType params fields := by
  have hkept : (fields.map (Field.mapPlaces g)).filter (fun f => !(WireOptions.ofAttributes f.attributes).isSkipped) =
      (fields.filter fun f => !(WireOptions.ofAttributes f.attributes).isSkipped).map (Field.mapPlaces g) := by
    simp [List.filter_map, Function.comp_def, Field.mapPlaces, WireOptions.ofAttributes_mapPlaces]
  unfold positionalFieldsType
  rw [hkept]
  rcases fields.filter _ with _ | ⟨f, _ | ⟨f', rest⟩⟩
  · rfl
  · rfl
  · simp [Function.comp_def, Field.mapPlaces]

/-- The type of any fields is the same. -/
theorem Fields.toTypeExpr_raw (fields : Fields) :
    (fields.raw g).toTypeExpr params rule closed = fields.toTypeExpr params rule closed := by
  cases fields with
  | named fields => exact namedFieldsType_raw params rule closed fields
  | positional fields => exact positionalFieldsType_mapPlaces params fields
  | unit => rfl

/-- What a variant holds is the same. -/
theorem Variant.payload?_raw (v : Variant) : (v.raw g).payload? params = v.payload? params := by
  obtain ⟨name, attributes, fields⟩ := v
  have htype := Fields.toTypeExpr_raw params none false fields (g := g)
  cases fields with
  | unit => rfl
  | named | positional => exact congrArg some htype

/-- The variants that are kept are the same, under the same names on the wire. -/
theorem keptVariants_raw (variants : List Variant) :
    keptVariants rule (variants.map (Variant.raw g)) =
      (keptVariants rule variants).map fun (name, v) => (name, v.raw g) := by
  simp [keptVariants, List.filter_map, Function.comp_def, Variant.raw, nameOf_rawIdentifier,
    WireOptions.ofAttributes_mapPlaces]

theorem Variant.isUnit_raw (v : Variant) : (v.raw g).isUnit = v.isUnit := by
  obtain ⟨name, attributes, fields⟩ := v
  cases fields <;> rfl

/-- The type of an enumeration shows neither marks nor places. -/
theorem enumType_raw (o : WireOptions) (variants : List Variant) :
    enumType params o (variants.map (Variant.raw g)) = enumType params o variants := by
  have hunit : (fun kept : String × Variant => kept.2.isUnit) ∘ (fun (name, v) => (name, Variant.raw g v)) =
      fun kept => kept.2.isUnit :=
    funext fun kept => Variant.isUnit_raw kept.2
  unfold enumType
  rw [keptVariants_raw]
  dsimp only
  rw [List.all_map, hunit]
  simp [Variant.payload?_raw, Function.comp_def]

/-- The type of a structure shows neither marks nor places. -/
theorem structType_raw (o : WireOptions) (fields : Fields) :
    structType params o (fields.raw g) = structType params o fields := by
  simp only [structType, Fields.toTypeExpr_raw]

/-- All that changes about the declarations of a file is where they stand. -/
theorem declarationsOf_raw (path : Path) (items : List Item) :
    declarationsOf path (rawItems g items) = (declarationsOf path items).map (Declaration.mapPlace g) := by
  induction items using declarationsOf.induct
    (fun item => (item.raw g).declarations path = (item.declarations path).map (Declaration.mapPlace g)) with
  | case1 head fields =>
    have hoptions : WireOptions.ofAttributes (head.mapPlaces g).attributes = WireOptions.ofAttributes head.attributes :=
      WireOptions.ofAttributes_mapPlaces head.attributes
    rw [Item.raw, Item.declarations, Item.declarations]
    rw [hoptions, structType_raw]
    rfl
  | case2 head variants =>
    have hoptions : WireOptions.ofAttributes (head.mapPlaces g).attributes = WireOptions.ofAttributes head.attributes :=
      WireOptions.ofAttributes_mapPlaces head.attributes
    rw [Item.raw, Item.declarations, Item.declarations]
    rw [hoptions, enumType_raw]
    rfl
  | case3 head target =>
    rw [Item.raw, Item.declarations, Item.declarations]
    rfl
  | case4 items ih =>
    rw [Item.raw, Item.declarations, Item.declarations]
    exact ih
  | case5 f => rfl
  | case6 => rfl
  | case7 => rfl
  | case8 item rest ihitem ih =>
    rw [rawItems, declarationsOf, declarationsOf, ihitem, ih, List.map_append]

/-! ## Parameters

Here the mark matters. What is read off a parameter is its name, and the rest, which does not depend on the name except
for its comment. -/

/-- Lists that are alike in one way are alike in a second just if they are in a third, if that is so of their elements. -/
theorem map_eq_map_iff_of {α γ δ ε : Type} {r : α → γ} {u : α → δ} {v : α → ε}
    (h : ∀ a b, r a = r b → (u a = u b ↔ v a = v b)) {as bs : List α} (heq : as.map r = bs.map r) :
    as.map u = bs.map u ↔ as.map v = bs.map v := by
  induction as generalizing bs with
  | nil =>
    obtain rfl := List.map_eq_nil_iff.mp heq.symm
    exact iff_of_true rfl rfl
  | cons a as ih =>
    obtain ⟨b, bs, rfl, hhead, htail⟩ := List.map_eq_cons_iff.mp heq.symm
    simp only [List.map_cons, List.cons.injEq, h a b hhead.symm, ih htail.symm]

/-- What is taken of two lists is alike if it is at every place, provided that something is taken at the same places. -/
theorem filterMap_map_eq_iff {α β γ δ : Type} (f : α → Option β) {r : α → γ} (m : β → δ)
    (h : ∀ a b, r a = r b → (f a).isSome = (f b).isSome) {as bs : List α} (heq : as.map r = bs.map r) :
    (as.filterMap f).map m = (bs.filterMap f).map m ↔ as.map (fun a => (f a).map m) = bs.map fun b => (f b).map m := by
  induction as generalizing bs with
  | nil =>
    obtain rfl := List.map_eq_nil_iff.mp heq.symm
    exact iff_of_true rfl rfl
  | cons a as ih =>
    obtain ⟨b, bs, rfl, hhead, htail⟩ := List.map_eq_cons_iff.mp heq.symm
    have hsome := h a b hhead.symm
    cases ha : f a with
    | none =>
      cases hb : f b with
      | none => simp [ha, hb, ih htail.symm]
      | some y => simp [ha, hb] at hsome
    | some x =>
      cases hb : f b with
      | none => simp [ha, hb] at hsome
      | some y => simp [ha, hb, ih htail.symm]

variable (path : Path) (typeParams : List String) (d : Documentation)

/-- A parameter with a pattern is its name and what is known of its type, and of its name in a comment. -/
theorem FunctionParam.exists_parameter? (type : TypeTerm) :
    ∃ (node : TypeExpr) (marker : String → Option Marker), ∀ (pattern : Pattern) (place : Position) (index : Nat),
      let name := pattern.bound?.getD ("arg" ++ toString index)
      (FunctionParam.typed pattern place type).parameter? path typeParams d index =
        some { name, node, marker := marker name, location := locate path place } := by
  cases h : wrapper? typeParams type with
  | none =>
    refine ⟨type.toTypeExpr typeParams, d.markerFor?, fun pattern place index => ?_⟩
    simp [FunctionParam.parameter?, h]
  | some wrapped =>
    refine ⟨wrapped.2, fun _ => some wrapped.1, fun pattern place index => ?_⟩
    simp [FunctionParam.parameter?, h]

/-- A raw pattern binds the raw identifier of the name, if it binds one name. -/
theorem Pattern.bound?_raw (p : Pattern) : p.raw.bound? = p.bound?.map rawIdentifier := by
  fun_induction Pattern.bound? p with
  | case1 text => rfl
  | case2 p ih => simpa only [Pattern.raw, rawPatterns, Pattern.bound?] using ih
  | case3 p ih => simpa only [Pattern.raw, Pattern.bound?] using ih
  | case4 p _ hsingle _ =>
    cases p with
    | wrapper elements =>
      rcases elements with _ | ⟨p, _ | ⟨q, rest⟩⟩
      · rfl
      · exact absurd rfl (hsingle p)
      · rfl
    | _ => simp_all [Pattern.raw, Pattern.bound?]

/-- Patterns with one raw form bind the same name just if they mark it alike. -/
theorem Pattern.bound?_eq_iff {p q : Pattern} (h : p.raw = q.raw) :
    p.bound?.isSome = q.bound?.isSome ∧ (p.bound? = q.bound? ↔ p.bound?.any isMarked = q.bound?.any isMarked) := by
  have hraw : p.bound?.map rawIdentifier = q.bound?.map rawIdentifier := by rw [← bound?_raw, ← bound?_raw, h]
  cases hp : p.bound? with
  | none =>
    cases hq : q.bound? with
    | none => simp
    | some b => simp [hp, hq] at hraw
  | some a =>
    cases hq : q.bound? with
    | none => simp [hp, hq] at hraw
    | some b =>
      simp only [hp, hq, Option.map_some, Option.some.injEq] at hraw
      simp [eq_iff_isMarked_eq hraw]

/-- Of a parameter the file says the same but for its place if it says the same name, and the name is the same if the
pattern marks it alike. -/
theorem FunctionParam.parameter?_eq_iff (index : Nat) {p q : FunctionParam} (h : p.raw g = q.raw g) :
    (p.parameter? path typeParams d index).isSome = (q.parameter? path typeParams d index).isSome ∧
      (p.isMarked = q.isMarked ↔ (p.parameter? path typeParams d index).map Parameter.name =
          (q.parameter? path typeParams d index).map Parameter.name) ∧
      ((p.parameter? path typeParams d index).map Parameter.name =
          (q.parameter? path typeParams d index).map Parameter.name ↔
        (p.parameter? path typeParams d index).map (Parameter.mapPlace g) =
          (q.parameter? path typeParams d index).map (Parameter.mapPlace g)) := by
  cases p with
  | receiver =>
    cases q with
    | receiver => exact ⟨rfl, iff_of_true rfl rfl, iff_of_true rfl rfl⟩
    | typed => cases h
  | typed pattern place type =>
    cases q with
    | receiver => cases h
    | typed pattern' place' type' =>
      obtain ⟨hpattern, hplace, rfl⟩ := FunctionParam.typed.inj h
      have hlocation : (locate path place).mapPlace g = (locate path place').mapPlace g := congrArg (locate path) hplace
      obtain ⟨node, marker, hparameter⟩ := exists_parameter? path typeParams d type
      obtain ⟨hsome, hmark⟩ := Pattern.bound?_eq_iff hpattern
      rw [hparameter, hparameter]
      simp only [Option.map_some, Option.some.injEq, Parameter.mapPlace, Parameter.mk.injEq, hlocation, and_true,
        true_and]
      refine ⟨rfl, hmark.symm.trans ?_, fun hname => ⟨hname, congrArg marker hname⟩, And.left⟩
      -- a name by position is there for both parameters or for none
      cases hp : pattern.bound? with
      | none => simp_all
      | some a =>
        cases hq : pattern'.bound? with
        | none => simp [hp, hq] at hsome
        | some b => simp

variable {f f' : Function} (hraw : f.raw g = f'.raw g)
include hraw

/-- Parameters have the same names just if the patterns mark the same names that are read, and are the same but for the
places just if they have the same names. -/
theorem Function.parameters_eq_iff :
    (f.marks = f'.marks ↔
        (f.parameters path).map Parameter.name = (f'.parameters path).map Parameter.name) ∧
      ((f.parameters path).map Parameter.name = (f'.parameters path).map Parameter.name ↔
        (f.parameters path).map (Parameter.mapPlace g) = (f'.parameters path).map (Parameter.mapPlace g)) := by
  obtain ⟨-, -, -, hattributes, htypeParams, hparams, -⟩ := Function.mk.inj hraw
  have hcomment := comment_of_mapPlaces_eq hattributes
  -- a parameter that binds several names is named by its position, so positions go along
  have hindices : f.params.zipIdx.map (Prod.map (FunctionParam.raw g) id) =
      f'.params.zipIdx.map (Prod.map (FunctionParam.raw g) id) := by
    rw [← List.zipIdx_map, hparams, List.zipIdx_map]
  have hparam : ∀ a b : FunctionParam × Nat,
      Prod.map (FunctionParam.raw g) id a = Prod.map (FunctionParam.raw g) id b → a.1.raw g = b.1.raw g ∧ a.2 = b.2 :=
    fun _ _ h => Prod.mk.inj h
  have hmarks (h : Function) : h.marks = h.params.zipIdx.map fun a => a.1.isMarked := by
    rw [Function.marks, ← List.zipIdx_map_fst 0 h.params, List.map_map, List.zipIdx_map_fst]
    rfl
  unfold Function.parameters
  rw [hmarks, hmarks, hcomment, htypeParams]
  -- whether there is a parameter does not depend on marks
  have hsome : ∀ a b : FunctionParam × Nat,
      Prod.map (FunctionParam.raw g) id a = Prod.map (FunctionParam.raw g) id b →
      (a.1.parameter? path f'.typeParams (.ofAttributes f'.attributes) a.2).isSome =
        (b.1.parameter? path f'.typeParams (.ofAttributes f'.attributes) b.2).isSome := by
    intro a b h
    obtain ⟨hfst, hsnd⟩ := hparam a b h
    rw [hsnd]
    exact (FunctionParam.parameter?_eq_iff path _ _ b.2 hfst).1
  constructor
  · refine (map_eq_map_iff_of (fun a b h => ?_) hindices).trans (filterMap_map_eq_iff _ _ hsome hindices).symm
    obtain ⟨hfst, hsnd⟩ := hparam a b h
    rw [hsnd]
    exact (FunctionParam.parameter?_eq_iff path _ _ b.2 hfst).2.1
  · refine (filterMap_map_eq_iff _ _ hsome hindices).trans
      ((map_eq_map_iff_of (fun a b h => ?_) hindices).trans (filterMap_map_eq_iff _ _ hsome hindices).symm)
    obtain ⟨hfst, hsnd⟩ := hparam a b h
    rw [hsnd]
    exact (FunctionParam.parameter?_eq_iff path _ _ b.2 hfst).2.2

/-! ## Handlers and providers

Both are functions with parameters, so both inherit the equation of the parameters; files are compared item by item. -/

/-- A handler is the same but for its places just if its parameters are. -/
theorem Function.handler_eq_iff :
    (f.marks = f'.marks ↔ (f.handler path).mapPlace g = (f'.handler path).mapPlace g) ∧
      ((f.handler path).params.map Parameter.name = (f'.handler path).params.map Parameter.name ↔
        (f.handler path).mapPlace g = (f'.handler path).mapPlace g) := by
  obtain ⟨-, hname, hplace, hattributes, htypeParams, -, houtput⟩ := Function.mk.inj hraw
  have hcomment := comment_of_mapPlaces_eq hattributes
  have hlocation : (locate path f.place).mapPlace g = (locate path f'.place).mapPlace g := congrArg (locate path) hplace
  obtain ⟨hmarks, hnames⟩ := Function.parameters_eq_iff path hraw
  have hhandler : (f.parameters path).map (Parameter.mapPlace g) = (f'.parameters path).map (Parameter.mapPlace g) ↔
      (f.handler path).mapPlace g = (f'.handler path).mapPlace g := by
    refine ⟨fun hparams => ?_, congrArg Handler.params⟩
    simp only [Function.handler, Handler.mapPlace, hname, hparams, houtput, htypeParams, hcomment, hlocation]
  exact ⟨hmarks.trans (hnames.trans hhandler), hnames.trans hhandler⟩

/-- A provider is the same but for its places just if its parameters are. -/
theorem Function.provider_eq_iff (target : String) :
    (f.marks = f'.marks ↔ (f.provider path target).mapPlace g = (f'.provider path target).mapPlace g) ∧
      ((f.provider path target).params.map Parameter.name = (f'.provider path target).params.map Parameter.name ↔
        (f.provider path target).mapPlace g = (f'.provider path target).mapPlace g) := by
  obtain ⟨-, -, hplace, -, htypeParams, -, houtput⟩ := Function.mk.inj hraw
  have hlocation : (locate path f.place).mapPlace g = (locate path f'.place).mapPlace g := congrArg (locate path) hplace
  obtain ⟨hmarks, hnames⟩ := Function.parameters_eq_iff path hraw
  have hprovider : (f.parameters path).map (Parameter.mapPlace g) = (f'.parameters path).map (Parameter.mapPlace g) ↔
      (f.provider path target).mapPlace g = (f'.provider path target).mapPlace g := by
    refine ⟨fun hparams => ?_, congrArg Provider.params⟩
    simp only [Function.provider, Provider.mapPlace, hparams, houtput, htypeParams, hlocation]
  exact ⟨hmarks.trans (hnames.trans hprovider), hnames.trans hprovider⟩

omit hraw in
/-- Functions are found at the same points of a file. -/
theorem functions_rawItems (items : List Item) :
    (rawItems g items).filterMap Item.function? = (items.filterMap Item.function?).map (Function.raw g) := by
  induction items with
  | nil => rfl
  | cons item rest ih =>
    rw [rawItems]
    cases item with
    | function f => exact congrArg (f.raw g :: ·) ih
    | structItem | enumItem | synonym | module | other => exact ih

end Source

/-! ## Files

Two files with one raw form have the same functions and types but for places and marks. The marks that show are those on
parameters of handlers and of the providers that are looked up. -/

namespace SourceFile

section

variable {file file' : SourceFile} (h : file.raw g = file'.raw g)
include h

/-- Files with one raw form have one path. -/
theorem path_of_raw_eq : file.path = file'.path := (SourceFile.mk.inj h).1

/-- Files with one raw form have the same functions, but for marks and places. -/
theorem functions_of_raw_eq : file.functions.map (Function.raw g) = file'.functions.map (Function.raw g) := by
  rw [functions, functions, ← functions_rawItems, ← functions_rawItems, (SourceFile.mk.inj h).2]

/-- Files with one raw form have the same declarations, but for places. -/
theorem declarations_of_raw_eq :
    file.declarations.map (Declaration.mapPlace g) = file'.declarations.map (Declaration.mapPlace g) := by
  rw [declarations, declarations, ← declarationsOf_raw, ← declarationsOf_raw, path_of_raw_eq h,
    (SourceFile.mk.inj h).2]

/-- The units of two such files are the same but for the places just if the handlers have the same marks, or the same
names for their parameters. -/
theorem controllerUnit_eq_iff :
    (file.handlerMarks = file'.handlerMarks ↔ file.controllerUnit.mapPlaces g = file'.controllerUnit.mapPlaces g) ∧
      (file.controllerUnit.parameterNames = file'.controllerUnit.parameterNames ↔
        file.controllerUnit.mapPlaces g = file'.controllerUnit.mapPlaces g) := by
  have hpublic : (file.functions.filter fun f => f.isPublic).map (Function.raw g) =
      (file'.functions.filter fun f => f.isPublic).map (Function.raw g) := by
    have hkept (fs : List Function) : (fs.filter fun f => f.isPublic).map (Function.raw g) =
        (fs.map (Function.raw g)).filter fun f => f.isPublic := by
      rw [List.filter_map]
      rfl
    rw [hkept, hkept, functions_of_raw_eq h]
  have hpath := path_of_raw_eq h
  rw [ControllerUnit.mapPlaces, ControllerUnit.mapPlaces, ControllerUnit.mk.injEq]
  unfold handlerMarks ControllerUnit.parameterNames controllerUnit
  rw [← hpath, and_iff_right rfl]
  simp only [List.map_map]
  exact ⟨map_eq_map_iff_of (fun f f' hraw => (Function.handler_eq_iff file.path hraw).1) hpublic,
    map_eq_map_iff_of (fun f f' hraw => (Function.handler_eq_iff file.path hraw).2) hpublic⟩

/-- A provider of two such files is the same but for the places just if its parameters have the same marks, or the same
names. -/
theorem provider_eq_iff (name : String) (r : ProviderReference) :
    (file.providerMarks? r = file'.providerMarks? r ↔
        (file.provider name r).map (Provider.mapPlace g) = (file'.provider name r).map (Provider.mapPlace g)) ∧
      ((file.provider name r).map Provider.parameterNames = (file'.provider name r).map Provider.parameterNames ↔
        (file.provider name r).map (Provider.mapPlace g) = (file'.provider name r).map (Provider.mapPlace g)) := by
  have hfind : (file.functions.find? fun f => f.name == r.function).map (Function.raw g) =
      (file'.functions.find? fun f => f.name == r.function).map (Function.raw g) := by
    have hkept (fs : List Function) : (fs.find? fun f => f.name == r.function).map (Function.raw g) =
        (fs.map (Function.raw g)).find? fun f => f.name == r.function := by
      rw [List.find?_map]
      rfl
    rw [hkept, hkept, functions_of_raw_eq h]
  unfold SourceFile.provider providerMarks?
  rw [path_of_raw_eq h]
  cases hleft : file.functions.find? fun f => f.name == r.function with
  | none =>
    cases hright : file'.functions.find? fun f => f.name == r.function with
    | none => exact ⟨iff_of_true rfl rfl, iff_of_true rfl rfl⟩
    | some f' => simp [hleft, hright] at hfind
  | some f =>
    cases hright : file'.functions.find? fun f => f.name == r.function with
    | none => simp [hleft, hright] at hfind
    | some f' =>
      rw [hleft, hright] at hfind
      obtain ⟨hmarks, hnames⟩ := Function.provider_eq_iff file'.path (Option.some.inj hfind) r.text
      have hok : (f.provider file'.path r.text).mapPlace g = (f'.provider file'.path r.text).mapPlace g ↔
          (Except.ok (f.provider file'.path r.text) : Except Fault Provider).map (Provider.mapPlace g) =
            (Except.ok (f'.provider file'.path r.text)).map (Provider.mapPlace g) :=
        (Except.ok.injEq _ _).to_iff.symm
      exact ⟨(Option.some.injEq _ _).to_iff.trans (hmarks.trans hok),
        (Except.ok.injEq _ _).to_iff.trans (hnames.trans hok)⟩

/-- **Raw identifiers.** Let two files be the same but for the marks of raw identifiers, on fields, variants and parameters,
and for places that are taken to be the same. Then their declarations are the same but for such places, whatever is marked
in them. Their handlers and each provider that a reference means are the same but for such places just if their patterns
mark the same names that are read, in particular if they mark none; and just if the parameters have the same names. -/
theorem lowered_of_raw_eq :
    file.declarations.map (Declaration.mapPlace g) = file'.declarations.map (Declaration.mapPlace g) ∧
      ((file.handlerMarks = file'.handlerMarks ↔
          file.controllerUnit.mapPlaces g = file'.controllerUnit.mapPlaces g) ∧
        (file.controllerUnit.parameterNames = file'.controllerUnit.parameterNames ↔
          file.controllerUnit.mapPlaces g = file'.controllerUnit.mapPlaces g)) ∧
      ∀ (name : String) (r : ProviderReference),
        (file.providerMarks? r = file'.providerMarks? r ↔
          (file.provider name r).map (Provider.mapPlace g) = (file'.provider name r).map (Provider.mapPlace g)) ∧
        ((file.provider name r).map Provider.parameterNames = (file'.provider name r).map Provider.parameterNames ↔
          (file.provider name r).map (Provider.mapPlace g) = (file'.provider name r).map (Provider.mapPlace g)) :=
  ⟨declarations_of_raw_eq h, controllerUnit_eq_iff h, provider_eq_iff h⟩

end

/-- `enum Order { Latest }`, `struct Listing { order: Order }` and `pub fn get(id: u64) -> Listing`, with marks in front of
the variant and the field, and in front of the parameter. -/
def listing (mark parameterMark : String) : SourceFile where
  path := ⟨"src/listing.rs"⟩
  items := [
    .enumItem ⟨"Order", ⟨1, 5⟩, [], []⟩ [⟨mark ++ "Latest", [], .unit⟩],
    .structItem ⟨"Listing", ⟨2, 7⟩, [], []⟩ (.named [(mark ++ "order", ⟨[], .path false [] "Order" []⟩)]),
    .function {
      isPublic := true, name := "get", place := ⟨3, 7⟩, attributes := [], typeParams := []
      params := [.typed (.name (parameterMark ++ "id")) ⟨3, 11⟩ (.path false [] "u64" [])]
      output := some (.path false [] "Listing" []) }]

/-- A field and a variant can be raw, and a parameter cannot. -/
theorem lowered_listing :
    (listing "" "").declarations.map (Declaration.mapPlace id) =
        (listing "r#" "r#").declarations.map (Declaration.mapPlace id) ∧
      (listing "" "").controllerUnit.mapPlaces id = (listing "r#" "").controllerUnit.mapPlaces id ∧
      (listing "" "").controllerUnit.mapPlaces id ≠ (listing "r#" "r#").controllerUnit.mapPlaces id := by
  have hvariant : rawIdentifier ("r#" ++ "Latest") = rawIdentifier "Latest" := rawIdentifier_mark (by decide)
  have hfield : rawIdentifier ("r#" ++ "order") = rawIdentifier "order" := rawIdentifier_mark (by decide)
  have hparameter : rawIdentifier ("r#" ++ "id") = rawIdentifier "id" := rawIdentifier_mark (by decide)
  have hraw : (listing "" "").raw id = (listing "r#" "r#").raw id := by
    simp only [listing, SourceFile.raw, rawItems, Item.raw, Variant.raw, Fields.raw, rawField, Function.raw,
      FunctionParam.raw, Pattern.raw, List.map_cons, List.map_nil, String.empty_append, hvariant, hfield, hparameter]
  have hraw' : (listing "" "").raw id = (listing "r#" "").raw id := by
    simp only [listing, SourceFile.raw, rawItems, Item.raw, Variant.raw, Fields.raw, rawField, List.map_cons, List.map_nil,
      String.empty_append, hvariant, hfield]
  have hmarks : (listing "" "").handlerMarks = (listing "r#" "").handlerMarks := by decide +kernel
  have hmarks' : (listing "" "").handlerMarks ≠ (listing "r#" "r#").handlerMarks := by decide +kernel
  exact ⟨(lowered_of_raw_eq hraw).1, (lowered_of_raw_eq hraw').2.1.1.mp hmarks,
    mt (lowered_of_raw_eq hraw).2.1.1.mpr hmarks'⟩

/-- Marks on fields and variants change nothing of what is generated from files, nor do marks on names that are not read. -/
theorem generate_of_raw_eq {files files' : List SourceFile} (h : files.map (raw id) = files'.map (raw id))
    (hmarks : files.map handlerMarks = files'.map handlerMarks)
    (rules : UrlRules) (providers : Providers) (isController : Path → Bool) :
    generate ⟨files.flatMap declarations⟩ rules providers
        ((files.filter fun f => isController f.path).map controllerUnit) =
      generate ⟨files'.flatMap declarations⟩ rules providers
        ((files'.filter fun f => isController f.path).map controllerUnit) := by
  have hlowered : files.flatMap declarations = files'.flatMap declarations ∧
      (files.filter fun f => isController f.path).map controllerUnit =
        (files'.filter fun f => isController f.path).map controllerUnit := by
    induction files generalizing files' with
    | nil =>
      rw [List.map_eq_nil_iff.mp h.symm]
      exact ⟨rfl, rfl⟩
    | cons file files ih =>
      obtain ⟨file', files', rfl, hfile, hfiles⟩ := List.map_eq_cons_iff.mp h.symm
      obtain ⟨hmark, hmarks⟩ := List.cons_eq_cons.mp hmarks
      obtain ⟨hdeclarations, hunits⟩ := ih hfiles.symm hmarks
      have hdeclared : file.declarations = file'.declarations := by
        simpa only [Declaration.mapPlace_id, List.map_id] using declarations_of_raw_eq hfile.symm
      have hunit : file.controllerUnit = file'.controllerUnit := by
        simpa only [ControllerUnit.mapPlaces_id] using (controllerUnit_eq_iff hfile.symm).1.mp hmark
      refine ⟨by rw [List.flatMap_cons, List.flatMap_cons, hdeclared, hdeclarations], ?_⟩
      rw [List.filter_cons, List.filter_cons, path_of_raw_eq hfile.symm]
      split
      · rw [List.map_cons, List.map_cons, hunit, hunits]
      · exact hunits
  rw [hlowered.1, hlowered.2]

end SourceFile

end RouteManifest
