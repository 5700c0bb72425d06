import RouteManifest.Proofs.Json.Reading
import RouteManifest.Proofs.Schema.Canonical

/-!
# A written schema is read back

`Schema.ofJson?` gives back the schema that a JSON value was written from (`written_read_back`): the same keywords,
the absent ones absent and the empty ones empty, with properties, mappings and lists in their order. What a JSON value
cannot hold is left out: a count beyond 64 bits, and numbers with a fraction, whose text is not followed here.

The members of a node are read from the last to the first (`keywordsOfJson?_members`), one lemma for each kind of
keyword. All that is between a schema and its text is undone step by step: `Json.parse?_compact` for the text,
`keywordsOfJson?_members` for one node, and an induction over the nodes.
-/

namespace RouteManifest

/-- What the fields of a schema can hold: counts of items that fit 64 bits, and values without fractions. -/
structure Keywords.Storable {σ : Type} (k : Keywords σ) : Prop where
  minItems : ∀ n, k.minItems = some n → n < Nat.pow 2 64
  maxItems : ∀ n, k.maxItems = some n → n < Nat.pow 2 64
  enumeration : ∀ values, k.enumeration = some values → ∀ v ∈ values, v.Fits

namespace Discriminator

/-- A mapping is read back from the object it is written as. -/
theorem mappingOfJson?_mapValues (m : Table String) : mappingOfJson? (m.mapValues .string) = some m := by
  induction m with
  | nil => rfl
  | cons e rest ih =>
    obtain ⟨name, id⟩ := e
    show (mappingOfJson? (Table.mapValues Json.string rest)).map ((name, id) :: ·) = _
    rw [ih]
    rfl

/-- A discriminator is read back, with its mapping or without one. -/
theorem ofJson?_toJson (d : Discriminator) : ofJson? d.toJson = some d := by
  obtain ⟨name, _ | m⟩ := d
  · rfl
  · show (mappingOfJson? (m.mapValues .string)).map (fun m => (⟨name, some m⟩ : Discriminator)) = _
    rw [mappingOfJson?_mapValues]
    rfl

end Discriminator

namespace Schema

/-- The counts of items fit 64 bits everywhere, and the enumerations hold no fractions. -/
abbrev Storable : Schema → Prop := Every Keywords.Storable

/-! ## Parts

Counts, names, tables and lists are read by functions of their own, which fail where the value is of another kind. -/

/-- A count that fits is read back. -/
theorem countOfJson?_int {n : Nat} (h : n < Nat.pow 2 64) : countOfJson? (.int n) = some n :=
  if_pos ⟨Int.natCast_nonneg n, h⟩

/-- Names are read back, in their order. -/
theorem textsOfJson?_map (names : List String) : textsOfJson? (.array (names.map .string)) = some names := by
  show (names.map Json.string).mapM textOfJson? = some names
  induction names with
  | nil => rfl
  | cons name rest ih =>
    rw [List.map_cons, List.mapM_cons, ih]
    rfl

/-- The schema is read back from its JSON form. -/
def ReadsBack (s : Schema) : Prop := ofJson? s.toJson = some s

/-- Properties are read back if their schemas are. -/
theorem tableOfJson?_toJson {t : Table Schema} (h : ∀ s ∈ t.values, s.ReadsBack) :
    tableOfJson? (t.mapValues toJson) = some t := by
  induction t with
  | nil => rw [Table.mapValues, List.map_nil, tableOfJson?]
  | cons e rest ih =>
    obtain ⟨name, s⟩ := e
    have hs : ofJson? s.toJson = some s := h s List.mem_cons_self
    have hrest := ih fun s hs => h s (List.mem_cons_of_mem _ hs)
    show tableOfJson? ((name, s.toJson) :: Table.mapValues toJson rest) = _
    rw [tableOfJson?, hs, hrest]

/-- A list of schemas is read back if each of them is. -/
theorem listOfJson?_toJson {l : List Schema} (h : ∀ s ∈ l, s.ReadsBack) : listOfJson? (l.map toJson) = some l := by
  induction l with
  | nil => rw [List.map_nil, listOfJson?]
  | cons s rest ih =>
    have hs : ofJson? s.toJson = some s := h s List.mem_cons_self
    rw [List.map_cons, listOfJson?, hs, ih fun s hs => h s (List.mem_cons_of_mem _ hs)]

/-! ## One node

What is read of an object is the keywords of its members, those behind a member first. A keyword that is written under
its own name is put into a record in which it was absent. -/

/-- A schema is written as an object. -/
theorem exists_toJson (s : Schema) : ∃ members, s.toJson = .object members := by
  obtain ⟨k⟩ := s
  exact ⟨_, toJson_mk k⟩

section Keyword

variable {rest : Table Json} {k : Keywords Schema} (h : keywordsOfJson? rest = some k)
include h

/-- A member is read after the members behind it. -/
theorem keywordsOfJson?_cons {read : Keywords Schema → Option (Keywords Schema)} {name : String} {value : Json}
    {known : Keywords Schema} (hcons : keywordsOfJson? ((name, value) :: rest) = (keywordsOfJson? rest).bind read)
    (hread : read k = some known) : keywordsOfJson? ((name, value) :: rest) = some known := by
  rw [hcons, h, Option.bind_some, hread]

theorem keywordsOfJson?_text (text : String) :
    keywordsOfJson? (("type", .string text) :: rest) = some { k with type := some text } ∧
      keywordsOfJson? (("format", .string text) :: rest) = some { k with format := some text } ∧
      keywordsOfJson? (("$ref", .string text) :: rest) = some { k with ref := some text } :=
  ⟨keywordsOfJson?_cons h rfl rfl, keywordsOfJson?_cons h rfl rfl, keywordsOfJson?_cons h rfl rfl⟩

theorem keywordsOfJson?_count {n : Nat} (hn : n < Nat.pow 2 64) :
    keywordsOfJson? (("minItems", .int n) :: rest) = some { k with minItems := some n } ∧
      keywordsOfJson? (("maxItems", .int n) :: rest) = some { k with maxItems := some n } := by
  have hcount := countOfJson?_int hn
  exact ⟨keywordsOfJson?_cons h rfl (congrArg (Option.map _) hcount),
    keywordsOfJson?_cons h rfl (congrArg (Option.map _) hcount)⟩

/-- The schemas of a list are read into the keyword that they are written under. -/
theorem keywordsOfJson?_schemas {values : List Json} {l : List Schema} (hl : listOfJson? values = some l) :
    keywordsOfJson? (("prefixItems", .array values) :: rest) = some { k with prefixItems := some l } ∧
      keywordsOfJson? (("oneOf", .array values) :: rest) = some { k with oneOf := some l } ∧
      keywordsOfJson? (("allOf", .array values) :: rest) = some { k with allOf := some l } :=
  ⟨keywordsOfJson?_cons h rfl (congrArg (Option.map _) hl), keywordsOfJson?_cons h rfl (congrArg (Option.map _) hl),
    keywordsOfJson?_cons h rfl (congrArg (Option.map _) hl)⟩

theorem keywordsOfJson?_properties {members : Table Json} {t : Table Schema} (ht : tableOfJson? members = some t) :
    keywordsOfJson? (("properties", .object members) :: rest) = some { k with properties := some t } :=
  keywordsOfJson?_cons h rfl (congrArg (Option.map _) ht)

theorem keywordsOfJson?_required (names : List String) :
    keywordsOfJson? (("required", .array (names.map .string)) :: rest) = some { k with required := some names } :=
  keywordsOfJson?_cons h rfl (congrArg (Option.map _) (textsOfJson?_map names))

theorem keywordsOfJson?_items {s : Schema} (hs : s.ReadsBack) :
    keywordsOfJson? (("items", s.toJson) :: rest) = some { k with items := some s } := by
  rw [ReadsBack] at hs
  obtain ⟨members, hmembers⟩ := s.exists_toJson
  rw [hmembers] at hs ⊢
  exact keywordsOfJson?_cons h rfl (congrArg (Option.map _) hs)

/-- A flag is no object, so it is not mistaken for a schema. -/
theorem keywordsOfJson?_additional {a : Additional Schema} (ha : ∀ s ∈ a.children, s.ReadsBack) :
    keywordsOfJson? (("additionalProperties", (a.map toJson).toJson) :: rest) = some { k with additional := some a } := by
  cases a with
  | allowed flag => exact keywordsOfJson?_cons h rfl rfl
  | schema s =>
    have hs : ofJson? s.toJson = some s := ha s List.mem_cons_self
    obtain ⟨members, hmembers⟩ := s.exists_toJson
    rw [Additional.map, Additional.toJson]
    rw [hmembers] at hs ⊢
    exact keywordsOfJson?_cons h rfl (congrArg (Option.map _) hs)

/-- Enumerations are kept as they are, since any value can be in one. -/
theorem keywordsOfJson?_enumeration (values : List Json) :
    keywordsOfJson? (("enum", .array values) :: rest) = some { k with enumeration := some values } :=
  keywordsOfJson?_cons h rfl rfl

theorem keywordsOfJson?_discriminator (d : Discriminator) :
    keywordsOfJson? (("discriminator", d.toJson) :: rest) = some { k with discriminator := some d } :=
  keywordsOfJson?_cons h rfl (congrArg (Option.map _) (Discriminator.ofJson?_toJson d))

theorem keywordsOfJson?_nullable (flag : Bool) :
    keywordsOfJson? (("nullable", .bool flag) :: rest) = some { k with nullable := some flag } :=
  keywordsOfJson?_cons h rfl rfl

/-- One keyword more is known, if it is there. -/
theorem keywordsOfJson?_entry {α : Type} {name : String} (write : α → Json)
    (known : Option α → Keywords Schema) (value : Option α) (habsent : known none = k)
    (hread : ∀ a, value = some a → keywordsOfJson? ((name, write a) :: rest) = some (known (some a))) :
    keywordsOfJson? (Keywords.entry name write value ++ rest) = some (known value) := by
  cases value with
  | none => rw [habsent, ← h]; rfl
  | some a => exact hread a rfl

end Keyword

/-- What is done to a value before it is written can be done while it is written. -/
theorem entry_map {α β : Type} (name : String) (write : β → Json) (f : α → β) (value : Option α) :
    Keywords.entry name write (value.map f) = Keywords.entry name (write ∘ f) value := by
  cases value <;> rfl

/-- All keywords of a node are read back, the last one first: each member that is there adds its keyword to those read
so far, and each that is not leaves its keyword absent. -/
theorem keywordsOfJson?_members {k : Keywords Schema} (hk : k.Storable) (h : ∀ s ∈ k.children, s.ReadsBack) :
    keywordsOfJson? (k.map toJson).members = some k := by
  have nothing : keywordsOfJson? [] = some {} := by rw [keywordsOfJson?]
  have ref := keywordsOfJson?_entry nothing .string (fun v => { ref := v }) k.ref rfl
    fun text _ => (keywordsOfJson?_text nothing text).2.2
  have nullable := keywordsOfJson?_entry ref .bool (fun v => { ref := k.ref, nullable := v }) k.nullable rfl
    fun flag _ => keywordsOfJson?_nullable ref flag
  have discriminator := keywordsOfJson?_entry nullable Discriminator.toJson
    (fun v => { ref := k.ref, nullable := k.nullable, discriminator := v }) k.discriminator rfl
    fun d _ => keywordsOfJson?_discriminator nullable d
  have allOf := keywordsOfJson?_entry discriminator (Json.array ∘ List.map toJson)
    (fun v => { ref := k.ref, nullable := k.nullable, discriminator := k.discriminator, allOf := v }) k.allOf rfl
    fun l hl => (keywordsOfJson?_schemas discriminator (listOfJson?_toJson fun s hs =>
      h s (Keywords.mem_children_of_allOf hl hs))).2.2
  have oneOf := keywordsOfJson?_entry allOf (Json.array ∘ List.map toJson)
    (fun v => { ref := k.ref, nullable := k.nullable, discriminator := k.discriminator, allOf := k.allOf, oneOf := v })
    k.oneOf rfl
    fun l hl => (keywordsOfJson?_schemas allOf (listOfJson?_toJson fun s hs =>
      h s (Keywords.mem_children_of_oneOf hl hs))).2.1
  have enumeration := keywordsOfJson?_entry oneOf .array
    (fun v => {
      ref := k.ref, nullable := k.nullable, discriminator := k.discriminator, allOf := k.allOf, oneOf := k.oneOf
      enumeration := v }) k.enumeration rfl
    fun values _ => keywordsOfJson?_enumeration oneOf values
  -- from here on it is shorter to name what has not been read yet
  have maxItems := keywordsOfJson?_entry enumeration (fun n : Nat => .int n)
    (fun v => { k with
      type := none, format := none, properties := none, required := none, additional := none, items := none
      prefixItems := none, minItems := none, maxItems := v }) k.maxItems rfl
    fun n hn => (keywordsOfJson?_count enumeration (hk.maxItems n hn)).2
  have minItems := keywordsOfJson?_entry maxItems (fun n : Nat => .int n)
    (fun v => { k with
      type := none, format := none, properties := none, required := none, additional := none, items := none
      prefixItems := none, minItems := v }) k.minItems rfl
    fun n hn => (keywordsOfJson?_count maxItems (hk.minItems n hn)).1
  have prefixItems := keywordsOfJson?_entry minItems (Json.array ∘ List.map toJson)
    (fun v => { k with
      type := none, format := none, properties := none, required := none, additional := none, items := none
      prefixItems := v }) k.prefixItems rfl
    fun l hl => (keywordsOfJson?_schemas minItems (listOfJson?_toJson fun s hs =>
      h s (Keywords.mem_children_of_prefixItems hl hs))).1
  have items := keywordsOfJson?_entry prefixItems (id ∘ toJson)
    (fun v => { k with
      type := none, format := none, properties := none, required := none, additional := none, items := v }) k.items rfl
    fun s hs => keywordsOfJson?_items prefixItems (h s (Keywords.mem_children_of_items hs))
  have additional := keywordsOfJson?_entry items (Additional.toJson ∘ Additional.map toJson)
    (fun v => { k with type := none, format := none, properties := none, required := none, additional := v })
    k.additional rfl fun a ha => by
      refine keywordsOfJson?_additional items fun s hs => h s ?_
      cases a with
      | allowed flag => cases hs
      | schema inner =>
        obtain rfl := List.mem_singleton.mp hs
        exact Keywords.mem_children_of_additional ha
  have required := keywordsOfJson?_entry additional (fun names : List String => .array (names.map .string))
    (fun v => { k with type := none, format := none, properties := none, required := v }) k.required rfl
    fun names _ => keywordsOfJson?_required additional names
  have properties := keywordsOfJson?_entry required (Json.object ∘ Table.mapValues toJson)
    (fun v => { k with type := none, format := none, properties := v }) k.properties rfl
    fun t ht => keywordsOfJson?_properties required (tableOfJson?_toJson fun s hs =>
      h s (Keywords.mem_children_of_properties ht hs))
  have format := keywordsOfJson?_entry properties .string (fun v => { k with type := none, format := v }) k.format rfl
    fun text _ => (keywordsOfJson?_text properties text).2.1
  have type := keywordsOfJson?_entry format .string (fun v => { k with type := v }) k.type rfl
    fun text _ => (keywordsOfJson?_text format text).1
  simp only [Keywords.members, Keywords.map, entry_map, List.append_assoc]
  rw [List.append_nil] at type
  exact type

/-! ## Whole schemas

Subschemas are read back by the induction hypothesis, and the rest of the node by what has been shown of one node. For
the text it remains that the JSON form holds numbers that the reader takes. -/

/-- Every schema is read back, by induction on its nodes. -/
theorem Storable.readsBack {s : Schema} (hs : s.Storable) : s.ReadsBack := by
  induction hs with
  | @mk k node _ ih =>
    rw [ReadsBack, toJson_mk, ofJson?, keywordsOfJson?_members node ih]
    rfl

/-- The JSON form of a schema holds nothing that the reader of texts would not take. -/
theorem Storable.fits_toJson {s : Schema} (hs : s.Storable) : s.toJson.Fits := by
  induction hs with
  | @mk k node _ ih =>
    rw [toJson_mk]
    refine .object (Keywords.forall_mem_members .string .bool .array .object (fun n hn => ?_) (fun v hv => ?_)
      node.enumeration)
    · have hlimit : n < Nat.pow 2 64 := hn.elim (node.minItems n) (node.maxItems n)
      exact .int (by omega) (by exact_mod_cast hlimit)
    · rw [Keywords.children_map] at hv
      obtain ⟨t, ht, rfl⟩ := List.mem_map.mp hv
      exact ih t ht

/-- A schema is read back from its JSON form; it is read back from the text of that form, too, unless its subschemas
are nested too deep for the reader. Schemas with one text are one schema. -/
theorem written_read_back {s : Schema} (hs : s.Storable) :
    ofJson? s.toJson = some s ∧
      (s.toJson.depth ≤ Json.Parser.maxDepth → (Json.parse? s.toJson.compact).bind ofJson? = some s) ∧
      ∀ t : Schema, t.Storable → s.toJson.compact = t.toJson.compact → s = t := by
  refine ⟨hs.readsBack, fun hdepth => ?_, fun t ht htext => ?_⟩
  · rw [Json.parse?_compact hs.fits_toJson hdepth]
    exact hs.readsBack
  · have hjson : s.toJson = t.toJson := Json.compact_injective hs.fits_toJson.whole ht.fits_toJson.whole htext
    have hread : ofJson? s.toJson = some t := hjson ▸ ht.readsBack
    exact Option.some.inj (Eq.trans hs.readsBack.symm hread)

/-- An open object with a tuple and an enumeration in it. Lists and mappings are empty, which is not the same as absent. -/
def shelf : Schema := .mk {
  type := some "object"
  properties := some [
    ("slots", .mk { prefixItems := some [reference "Slot", .mk {}], minItems := some 2, maxItems := some 2 }),
    ("", .mk { enumeration := some [.null, .int (-1), .string "\"", .array [], .object [("a", .bool true)]] })]
  required := some []
  additional := some (.schema (.mk {}))
  oneOf := some []
  discriminator := some ⟨"kind", some []⟩
  nullable := some false }

/-- A node without counts, values and subschemas holds nothing that could not be stored. -/
theorem storable_of_plain {k : Keywords Schema} (hmin : k.minItems = none) (hmax : k.maxItems = none)
    (henum : k.enumeration = none) (hchildren : k.children = []) : (mk k).Storable := by
  refine .mk ⟨?_, ?_, ?_⟩ ?_
  · rw [hmin]; rintro n ⟨⟩
  · rw [hmax]; rintro n ⟨⟩
  · rw [henum]; rintro values ⟨⟩
  · rw [hchildren]; rintro s ⟨⟩

/-- Two slots are few enough to be counted, and no value on the shelf has a fraction. -/
theorem storable_shelf : shelf.Storable := by
  refine .mk ⟨by rintro n ⟨⟩, by rintro n ⟨⟩, by rintro values ⟨⟩⟩ fun s hs => ?_
  simp only [Keywords.children, Table.values, Additional.children, Option.map_some, Option.getD_some, List.map_cons,
    List.map_nil, Option.toList_none, Option.getD_none, List.append_nil, List.cons_append, List.nil_append,
    List.mem_cons, List.not_mem_nil, or_false] at hs
  rcases hs with rfl | rfl | rfl
  · refine .mk ⟨?_, ?_, by rintro values ⟨⟩⟩ fun s hs => ?_
    · rintro n ⟨⟩; decide
    · rintro n ⟨⟩; decide
    · rcases hs with _ | ⟨_, _ | ⟨_, hs⟩⟩
      · exact storable_of_plain rfl rfl rfl rfl
      · exact storable_of_plain rfl rfl rfl rfl
      · cases hs
  · refine .mk ⟨by rintro n ⟨⟩, by rintro n ⟨⟩, ?_⟩ (by rintro s ⟨⟩)
    rintro values ⟨⟩ v hv
    simp only [List.mem_cons, List.not_mem_nil, or_false] at hv
    rcases hv with rfl | rfl | rfl | rfl | rfl
    · exact .null
    · exact .int (by decide) (by decide)
    · exact .string _
    · exact .array (by rintro v ⟨⟩)
    · refine .object fun v hv => ?_
      obtain rfl := List.mem_singleton.mp hv
      exact .bool true
  · exact storable_of_plain rfl rfl rfl rfl

/-- The shelf is read back from its JSON form and from the text of it, empty lists and all. -/
theorem written_read_back_shelf :
    shelf.Storable ∧ shelf.toJson.depth ≤ Json.Parser.maxDepth ∧ ofJson? shelf.toJson = some shelf ∧
      (Json.parse? shelf.toJson.compact).bind ofJson? = some shelf := by
  have hread := written_read_back storable_shelf
  have hdepth : shelf.toJson.depth ≤ Json.Parser.maxDepth := by decide
  exact ⟨storable_shelf, hdepth, hread.1, hread.2.1 hdepth⟩

end Schema

end RouteManifest
