import Mathlib.Data.List.Zip
import RouteManifest.Proofs.Meaning.Building
import RouteManifest.Proofs.Meaning.Compiled

/-!
# From the values of parts to the values of a type

A value that the schema of an expression admits belongs to the expression, if that is so for its parts
(`belongs_of_build`). The other direction is said for one kind of expression at a time, since a value that belongs
to a type does so by one rule.
-/

namespace RouteManifest

variable {c : Catalog} {scope : List (String × Closure)} {unit : Path}

/-! ## Properties and their schemas side by side

The properties of an object are resolved in the order in which they are declared, so the schemas come as a list next to
the declarations, and both are zipped. -/

theorem mem_zip_swap {α β : Type} {as : List α} {bs : List β} {a : α} {b : β} (h : (a, b) ∈ as.zip bs) :
    (b, a) ∈ bs.zip as := by
  rw [← List.zip_swap]
  exact List.mem_map_of_mem (f := Prod.swap) h

namespace Table

variable {properties : Table (Member TypeExpr)} {l : List Schema}

theorem names_zip_values (properties : Table (Member TypeExpr)) :
    properties.names.zip properties.values = properties := by
  rw [names, values, List.zip_map']
  exact List.map_id _

/-- The schema of a declared property. -/
theorem exists_schema (hlength : l.length = (properties.values.map Member.node).length) {p : String × Member TypeExpr}
    (hp : p ∈ properties) :
    ∃ s, (p.1, s) ∈ properties.names.zip l ∧ (s, p.2.node) ∈ l.zip (properties.values.map Member.node) := by
  rw [← names_zip_values properties] at hp
  have hnames : l.length = properties.names.length := by simpa [names, values] using hlength
  have hp' : (p.1, p.2) ∈ properties.names.zip properties.values := hp
  obtain ⟨s, hs, hmember⟩ := exists_mem_zip_between hnames hp'
  rw [List.zip_map_right]
  exact ⟨s, hs, List.mem_map.mpr ⟨(s, p.2), hmember, rfl⟩⟩

/-- The declaration of a property that has a schema. -/
theorem exists_member {name : String} {s : Schema} (hs : (name, s) ∈ properties.names.zip l) :
    ∃ m, (name, m) ∈ properties ∧ (s, m.node) ∈ l.zip (properties.values.map Member.node) := by
  have hvalues : properties.values.length = properties.names.length := by simp [names, values]
  obtain ⟨m, hm, hmember⟩ := exists_mem_zip_between hvalues hs
  rw [names_zip_values] at hm
  rw [List.zip_map_right]
  exact ⟨m, hm, List.mem_map.mpr ⟨(s, m), mem_zip_swap hmember, rfl⟩⟩

theorem names_zip_names (hlength : l.length = (properties.values.map Member.node).length) :
    names (properties.names.zip l) = properties.names := by
  have hnames : l.length = properties.names.length := by simpa [names, values] using hlength
  exact List.map_fst_zip (by omega)

end Table

/-- The names of the properties that have to be there. -/
theorem TypeExpr.mem_requiredNames {properties : Table (Member TypeExpr)} {name : String} :
    name ∈ requiredNames properties ↔ ∃ p ∈ properties, p.2.required = true ∧ p.1 = name := by
  rw [requiredNames, List.mem_filterMap]
  constructor
  · rintro ⟨⟨n, m⟩, hp, h⟩
    simp only at h
    split at h
    next hrequired => exact ⟨(n, m), hp, hrequired, Option.some.inj h⟩
    · cases h
  · rintro ⟨p, hp, hrequired, rfl⟩
    exact ⟨p, hp, if_pos hrequired⟩

/-! ## Literals

A type of literals is a literal, or a union of nothing but literals. It is built as one enumeration of the literals, in
the order of the variants. -/

namespace TypeExpr

/-- If all variants are types of literals, the literals are those of the variants. -/
theorem mapM_literals? {variants : List TypeExpr} {lists : List (List Literal)}
    (h : variants.mapM literals? = some lists) :
    (∀ e ∈ variants, ∃ own ∈ lists, e.literals? = some own) ∧
      ∀ own ∈ lists, ∃ e ∈ variants, e.literals? = some own := by
  induction variants generalizing lists with
  | nil =>
    obtain rfl := Option.some.inj h
    exact ⟨fun _ he => (by cases he), fun _ hown => by cases hown⟩
  | cons e rest ih =>
    rw [List.mapM_cons] at h
    obtain ⟨own, hown, h⟩ := Option.bind_eq_some_iff.mp h
    obtain ⟨others, hothers, h⟩ := Option.bind_eq_some_iff.mp h
    obtain rfl := Option.some.inj h
    obtain ⟨hto, hfrom⟩ := ih hothers
    simp only [List.forall_mem_cons]
    refine ⟨⟨⟨own, List.mem_cons_self, hown⟩, fun e he => ?_⟩, ⟨⟨e, List.mem_cons_self, hown⟩, fun own hown => ?_⟩⟩
    · obtain ⟨own, hmem, h⟩ := hto e he
      exact ⟨own, List.mem_cons_of_mem _ hmem, h⟩
    · obtain ⟨e, he, h⟩ := hfrom own hown
      exact ⟨e, List.mem_cons_of_mem _ he, h⟩

/-- The literals of literal types are the literals of one of them. -/
theorem mem_commonLiterals? {variants : List TypeExpr} {literals : List Literal}
    (h : commonLiterals? variants = some literals) {l : Literal} :
    l ∈ literals ↔ ∃ e ∈ variants, ∃ own, e.literals? = some own ∧ l ∈ own := by
  obtain ⟨lists, hlists, h⟩ := Option.bind_eq_some_iff.mp h
  split at h
  · obtain rfl := Option.some.inj h
    obtain ⟨hto, hfrom⟩ := mapM_literals? hlists
    rw [List.mem_eraseDups, List.mem_flatten]
    constructor
    · rintro ⟨own, hown, hl⟩
      obtain ⟨e, he, heq⟩ := hfrom own hown
      exact ⟨e, he, own, heq, hl⟩
    · rintro ⟨e, he, own, heq, hl⟩
      obtain ⟨own', hown', heq'⟩ := hto e he
      obtain rfl := Option.some.inj (heq.symm.trans heq')
      exact ⟨own, hown', hl⟩
  · cases h

/-- If a union is one of literals, so is each of its variants. -/
theorem literals?_of_commonLiterals? {variants : List TypeExpr} {literals : List Literal}
    (h : commonLiterals? variants = some literals) {e : TypeExpr} (he : e ∈ variants) :
    ∃ own, e.literals? = some own := by
  obtain ⟨lists, hlists, -⟩ := Option.bind_eq_some_iff.mp h
  obtain ⟨own, -, heq⟩ := (mapM_literals? hlists).1 e he
  exact ⟨own, heq⟩

end TypeExpr

/-- The values of a type of literals are its literals. -/
theorem belongs_literals {e : TypeExpr} (own : List Literal) (h : e.literals? = some own) {v : Json} :
    Belongs c (.mk e scope unit) v ↔ ∃ l ∈ own, v = l.toJson := by
  cases e with
  | literal value =>
    obtain rfl := Option.some.inj h
    constructor
    · intro hv
      cases hv with
      | literal => exact ⟨value, List.mem_cons_self, rfl⟩
      | named htarget => cases htarget
    · rintro ⟨l, hl, rfl⟩
      obtain rfl := List.mem_singleton.mp hl
      exact .literal
  | enumeration values =>
    obtain rfl := Option.some.inj h
    constructor
    · intro hv
      cases hv with
      | enumeration hl => exact ⟨_, hl, rfl⟩
      | named htarget => cases htarget
    · rintro ⟨l, hl, rfl⟩
      exact .enumeration hl
  | _ => cases h

/-! ## Unions

Null is taken out of a union before it is built and allowed afterwards. So there are three ways for a value to belong:
it is null, it is one of the common literals, or it belongs to a variant that was built. -/

namespace TypeExpr

/-- A variant that is not a union stays when unions are flattened. -/
theorem mem_flatten_of_mem {variants : List TypeExpr} {e : TypeExpr} (he : e ∈ variants)
    (hnot : ∀ inner, e ≠ .union inner) : e ∈ flatten variants :=
  mem_flatten_iff.mpr (Or.inl ⟨he, hnot⟩)

/-- Of a variant that is a union the variants stay. -/
theorem mem_flatten_of_union {variants inner : List TypeExpr} (hinner : .union inner ∈ variants) {e : TypeExpr}
    (he : e ∈ flatten inner) : e ∈ flatten variants :=
  mem_flatten_iff.mpr (Or.inr ⟨inner, hinner, he⟩)

end TypeExpr

/-- Null belongs to the types for null, and nothing else does. -/
theorem belongs_isNullLike {e : TypeExpr} (h : e.isNullLike = true) {v : Json} :
    Belongs c (.mk e scope unit) v ↔ v = .null := by
  rw [TypeExpr.isNullLike.eq_def] at h
  split at h
  · constructor
    · intro hv
      cases hv with
      | primitive hv => exact hv
      | named htarget => cases htarget
    · exact fun hv => .primitive hv
  · rw [belongs_literals [.null] rfl]
    simp [Literal.toJson]
  · cases h

/-- A union has the values of its variants, those of unions among them included. -/
theorem belongs_union {variants : List TypeExpr} {e : TypeExpr} (he : e ∈ TypeExpr.flatten variants) {v : Json}
    (hv : Belongs c (.mk e scope unit) v) : Belongs c (.mk (.union variants) scope unit) v :=
  TypeExpr.flatten_induction (P := fun variants => Belongs c (.mk (.union variants) scope unit) v)
    (fun _ hmem _ => .union hmem hv) (fun _ _ hmem ih => .union hmem ih) he

section Admits

variable {target? : String → Option Schema} {ok : Schema → Json → Prop} {v : Json}

/-- With null allowed a schema admits null, if a variant says so, and what it admitted before. -/
theorem admits_orNullOf {variants : List TypeExpr} {s : Schema}
    (h : (TypeExpr.orNullOf variants s).keywords.Admits target? ok v) :
    v = .null ∧ (TypeExpr.flatten variants).any TypeExpr.isNullLike = true ∨ s.keywords.Admits target? ok v ∨
      s.keywords.ref.isSome = true ∧ ok s v := by
  rw [TypeExpr.orNullOf] at h
  split at h
  next hnull =>
    rcases Schema.admits_orNull.mp h with rfl | h
    · exact Or.inl ⟨rfl, hnull⟩
    · split at h
      next href => exact Or.inr (Or.inr ⟨href, h⟩)
      · exact Or.inr (Or.inl h)
  · exact Or.inr (Or.inl h)

/-- What the schema of a union admits belongs to the union. -/
theorem belongs_of_union {variants : List TypeExpr} {parts : List TypeExpr} {build : Registry → List Schema → Schema}
    (h : (TypeExpr.union variants).form = .built parts build) (hne : TypeExpr.flatten variants ≠ []) {l : List Schema}
    (hlength : l.length = parts.length) (hparts : ∀ p ∈ l.zip parts, p.1.keywords.Admits target? ok v ∨ ok p.1 v →
      Belongs c (.mk p.2 scope unit) v)
    {entries : Registry} (hv : (build entries l).keywords.Admits target? ok v) :
    Belongs c (.mk (.union variants) scope unit) v := by
  have hnull (hany : (TypeExpr.flatten variants).any TypeExpr.isNullLike = true) (hv : v = .null) :
      Belongs c (.mk (.union variants) scope unit) v := by
    obtain ⟨e, he, hlike⟩ := List.any_eq_true.mp hany
    exact belongs_union he ((belongs_isNullLike hlike).mpr hv)
  have hproper {e : TypeExpr} (he : e ∈ TypeExpr.proper variants) : e ∈ TypeExpr.flatten variants :=
    (List.mem_filter.mp he).1
  cases TypeExpr.unionForm h with
  | null hempty =>
    -- there are variants, and none of them is proper
    refine hnull ?_ (Schema.admits_null.mp hv)
    obtain ⟨e, he⟩ := List.exists_mem_of_ne_nil _ hne
    refine List.any_eq_true.mpr ⟨e, he, ?_⟩
    by_contra hlike
    have hmem : e ∈ TypeExpr.proper variants := List.mem_filter.mpr ⟨he, by simpa using hlike⟩
    rw [hempty] at hmem
    cases hmem
  | literals _ hliterals =>
    rcases admits_orNullOf hv with ⟨hv, hany⟩ | hv | ⟨href, -⟩
    · exact hnull hany hv
    · obtain ⟨l, hl, hv⟩ := Schema.admits_ofLiterals.mp hv
      obtain ⟨e, he, own, hown, hl⟩ := (TypeExpr.mem_commonLiterals? hliterals).mp hl
      exact belongs_union (hproper he) ((belongs_literals _ hown).mpr ⟨l, hl, hv⟩)
    · cases href
  | alternatives =>
    have hone : ∀ s ∈ l, s.keywords.Admits target? ok v ∨ ok s v →
        Belongs c (.mk (.union variants) scope unit) v := by
      intro s hs hv
      obtain ⟨e, he⟩ := exists_mem_zip_left hlength.symm hs
      exact belongs_union (hproper (List.of_mem_zip he).2) (hparts (s, e) he hv)
    rcases admits_orNullOf hv with ⟨hv, hany⟩ | hv | ⟨href, hv⟩
    · exact hnull hany hv
    · obtain ⟨s, hs, hv⟩ := Registry.admits_oneOf hv
      exact hone s hs hv
    · rcases entries.oneOf_cases l with ⟨s, hs, heq⟩ | heq
      · rw [heq] at hv
        exact hone s (mem_of_mem_distinctShapes (by rw [hs]; exact List.mem_cons_self)) (Or.inr hv)
      · rw [heq] at href
        cases href

/-! ## Any expression

From schemas to types by cases of the expression, and from types to schemas for a union, which is the case where a value
may belong by several variants. -/

/-- What the schema of an expression admits belongs to the expression, if that is so for the parts. -/
theorem belongs_of_build {e : TypeExpr} (he : ∀ members, e ≠ .intersection members)
    (hunion : ∀ variants, e = .union variants → TypeExpr.flatten variants ≠ []) {parts : List TypeExpr}
    {build : Registry → List Schema → Schema} (h : e.form = .built parts build) {l : List Schema}
    (hlength : l.length = parts.length)
    (hparts : ∀ p ∈ l.zip parts, ∀ w, p.1.keywords.Admits target? ok w ∨ ok p.1 w → Belongs c (.mk p.2 scope unit) w)
    {entries : Registry} (hv : (build entries l).keywords.Admits target? ok v) : Belongs c (.mk e scope unit) v := by
  -- for each kind of expression the keywords of what is built are read back as the rule by which values belong
  cases e with
  | primitive kind =>
    cases h
    exact .primitive (Schema.admits_ofPrimitive.mp hv)
  | object properties closed =>
    cases h
    obtain ⟨members, rfl, hproperties, hrequired, hclosed⟩ := Schema.admits_object.mp hv
    refine .object (fun p hp m hm hname => ?_) (fun p hp hrequire => ?_) fun hclose m hm => ?_
    · obtain ⟨s, hs, hmember⟩ := Table.exists_schema hlength hp
      exact hparts _ hmember m.2 (Or.inr (hproperties _ hs m hm hname))
    · exact hrequired p.1 (TypeExpr.mem_requiredNames.mpr ⟨p, hp, hrequire, rfl⟩)
    · rw [← Table.names_zip_names hlength]
      exact hclosed hclose m hm
  | map value =>
    cases h
    obtain ⟨s, rfl⟩ := List.length_eq_one_iff.mp hlength
    obtain ⟨members, rfl, hmembers⟩ := Schema.admits_map.mp hv
    exact .map fun m hm => hparts (s, value) List.mem_cons_self m.2 (Or.inr (hmembers m hm))
  | array element =>
    cases h
    obtain ⟨s, rfl⟩ := List.length_eq_one_iff.mp hlength
    obtain ⟨items, rfl, hitems⟩ := Schema.admits_array.mp hv
    exact .array fun w hw => hparts (s, element) List.mem_cons_self w (Or.inr (hitems w hw))
  | tuple elements =>
    cases h
    obtain ⟨items, rfl, hitemsLength, hitems⟩ := Schema.admits_tuple.mp hv
    refine .tuple (hlength.symm.trans hitemsLength) fun ⟨e, w⟩ hp => ?_
    obtain ⟨s, hs, hw⟩ := exists_mem_zip_between hlength hp
    exact hparts (s, e) (mem_zip_swap hs) w (Or.inr (hitems (s, w) hw))
  | union variants =>
    exact belongs_of_union h (hunion variants rfl) hlength (fun p hp => hparts p hp v) hv
  | intersection members => exact absurd rfl (he members)
  | enumeration literals =>
    cases h
    exact (belongs_literals literals rfl).mpr (Schema.admits_ofLiterals.mp hv)
  | literal value =>
    cases h
    exact (belongs_literals [value] rfl).mpr (Schema.admits_ofLiterals.mp hv)
  | _ => cases h

end Admits

/-- A variant's value validates against the schema of the union. -/
theorem validates_of_union {r : Registry} {variants : List TypeExpr} {parts : List TypeExpr}
    {build : Registry → List Schema → Schema} (h : (TypeExpr.union variants).form = .built parts build)
    {l : List Schema}
    (hlength : l.length = parts.length) (htidy : ∀ s ∈ l, s.Tidy) {e : TypeExpr} (he : e ∈ TypeExpr.flatten variants)
    {v : Json} (hv : Belongs c (.mk e scope unit) v) (hparts : ∀ s, (s, e) ∈ l.zip parts → Validates r s v)
    (entries : Registry) : Validates r (build entries l) v := by
  -- null is allowed if a variant says so, whichever way the rest is built
  have horNull {s : Schema} (hs : v = .null ∧ (TypeExpr.flatten variants).any TypeExpr.isNullLike = true ∨
        Validates r s v) :
      Validates r (TypeExpr.orNullOf variants s) v := by
    rw [TypeExpr.orNullOf]
    split
    next => exact Schema.validates_orNull.mpr (hs.imp_left And.left)
    next hnone => exact hs.resolve_left fun hnull => hnone hnull.2
  have hnull (hlike : e.isNullLike = true) : v = .null ∧ (TypeExpr.flatten variants).any TypeExpr.isNullLike = true :=
    ⟨(belongs_isNullLike hlike).mp hv, List.any_eq_true.mpr ⟨e, he, hlike⟩⟩
  have hproper (hlike : ¬e.isNullLike = true) : e ∈ TypeExpr.proper variants :=
    List.mem_filter.mpr ⟨he, by simpa using hlike⟩
  -- a value of a variant for null is null, and any other variant has been built
  cases TypeExpr.unionForm h with
  | null hempty =>
    refine validates_iff.mpr (Schema.admits_null.mpr (hnull ?_).1)
    by_contra hlike
    have hmem := hproper hlike
    rw [hempty] at hmem
    cases hmem
  | literals _ hliterals =>
    refine horNull ?_
    by_cases hlike : e.isNullLike = true
    · exact Or.inl (hnull hlike)
    · obtain ⟨own, hown⟩ := TypeExpr.literals?_of_commonLiterals? hliterals (hproper hlike)
      obtain ⟨l, hl, hv⟩ := (belongs_literals _ hown).mp hv
      have hmem := (TypeExpr.mem_commonLiterals? hliterals).mpr ⟨e, hproper hlike, own, hown, hl⟩
      exact Or.inr (validates_iff.mpr (Schema.admits_ofLiterals.mpr ⟨l, hmem, hv⟩))
  | alternatives =>
    refine horNull ?_
    by_cases hlike : e.isNullLike = true
    · exact Or.inl (hnull hlike)
    · obtain ⟨s, hs⟩ := exists_mem_zip_left hlength (hproper hlike)
      have hs := mem_zip_swap hs
      exact Or.inr (Registry.validates_oneOf htidy (List.of_mem_zip hs).1 (hparts s hs))

end RouteManifest
