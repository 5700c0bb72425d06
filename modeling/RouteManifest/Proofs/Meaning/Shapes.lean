import RouteManifest.Proofs.Binding.Request
import RouteManifest.Proofs.Meaning.Preservation
import RouteManifest.Proofs.Resolution.Course
import RouteManifest.Proofs.Shape

/-!
# Shapes and schemas

The shape of a type is read off its expression, its schema is what resolution makes of it. A type can only have the
schema of an object because there is an object in it (`Catalog.Explains`): one that the search for the shape sees as
well, or one that has been passed on as an argument to a declaration that stands for one of its type parameters. The
search does not look at arguments, so it misses the second kind, and nothing else (`shape_of_object`).

That every schema has an explanation is kept by a run (`Runs.explains`). A schema that is a reference is explained by the
declaration it is the answer for, and so on from there, which has to come to an end: when nothing is pending, every
declaration that has answered has a schema with an explanation of its own, and following references leads from one to
the next (`Explained.sees_collection`).
-/

namespace RouteManifest

variable {c : Catalog}

/-! ## What the search sees

What the search goes through is the variants of flattened unions and the bodies of declarations; an explanation may
point to anything that lies behind. -/

namespace TypeExpr

/-- An expression, or one of its variants, is one of some type parameters. -/
def StandsForOneOf (e : TypeExpr) (params : List String) : Prop :=
  ∃ v ∈ flatten [e], ∃ name ∈ params, v.form = .named name [] ∨ v.form = .parameter name

/-- A union has its flattened variants among any variants. -/
theorem flatten_union (variants : List TypeExpr) : flatten [union variants] = flatten variants := by
  rw [flatten, flatten, List.append_nil]

/-- Any other variant stays as it is. -/
theorem flatten_singleton {e : TypeExpr} (he : ∀ variants, e ≠ .union variants) : flatten [e] = [e] := by
  rw [flatten, flatten]
  exact he

/-- A variant is no union. -/
theorem flatten_of_mem_flatten {variants : List TypeExpr} {v : TypeExpr} (hv : v ∈ flatten variants) :
    flatten [v] = [v] :=
  flatten_induction (fun _ _ hnot => flatten_singleton hnot) (fun _ _ _ ih => ih) hv

/-- What a variant stands for, the union does. -/
theorem StandsForOneOf.union {variants : List TypeExpr} {v : TypeExpr} {params : List String}
    (hv : v ∈ flatten variants) (h : v.StandsForOneOf params) : (TypeExpr.union variants).StandsForOneOf params := by
  obtain ⟨w, hw, hname⟩ := h
  rw [flatten_of_mem_flatten hv] at hw
  obtain rfl := List.mem_singleton.mp hw
  exact ⟨w, (flatten_union variants).symm ▸ hv, hname⟩

end TypeExpr

/-- The body of a declaration is one of its type parameters, perhaps as one variant of several. -/
def Declaration.PassesOn (d : Declaration) : Prop := d.body.StandsForOneOf d.typeParams

namespace Catalog

/-- However deep a variant is nested, the search sees it from one of the outermost. -/
theorem sees_of_mem_flatten {unit : Path} {variants : List TypeExpr} {v : TypeExpr}
    (hv : v ∈ TypeExpr.flatten variants) : ∃ w ∈ variants, c.Sees (w, unit) (v, unit) := by
  refine TypeExpr.flatten_induction (P := fun variants => ∃ w ∈ variants, c.Sees (w, unit) (v, unit))
    (fun variants hmem _ => ⟨v, hmem, .refl⟩) (fun variants inner hmem ih => ?_) hv
  obtain ⟨w, hw, hsees⟩ := ih
  exact ⟨_, hmem, .head (.variant hw) hsees⟩

/-- The search sees every flattened variant from the union. -/
theorem sees_union {unit : Path} {variants : List TypeExpr} {v : TypeExpr} (hv : v ∈ TypeExpr.flatten variants) :
    c.Sees (.union variants, unit) (v, unit) := by
  obtain ⟨w, hw, hsees⟩ := sees_of_mem_flatten hv
  exact .head (.variant hw) hsees

/-- What the search comes to from behind an expression, it comes to from there. -/
theorem ComesTo.of_sees {x y : TypeExpr × Path} {i : Fin c.size} (hsees : c.Sees x y) (h : c.ComesTo y i) :
    c.ComesTo x i := by
  obtain ⟨z, hz, hi⟩ := h
  exact ⟨z, hsees.trans hz, hi⟩

/-- The search comes to a declaration that passes one of its arguments on. -/
def MeetsArgument (c : Catalog) (x : TypeExpr × Path) : Prop := ∃ i, c.ComesTo x i ∧ (c.get i).PassesOn

/-- Where the schema of an expression comes from, as far as it can be an object: it is none, or the search for the
shape sees a collection, or the schema is that of a type parameter, or it points at the answer for a declaration. -/
inductive Explains (c : Catalog) (answers : Identity c → String → Prop) (params : List String) (x : TypeExpr × Path) :
    Schema → Prop where
  | plain {s : Schema} : s.refId? = none → s.isObject = false → Explains c answers params x s
  | collection {s : Schema} {y : TypeExpr × Path} : c.Sees x y → y.1.IsCollection → Explains c answers params x s
  | parameter {s : Schema} : x.1.StandsForOneOf params → Explains c answers params x s
  | reference {identity : Identity c} {id : String} : c.ComesTo x identity.declaration → answers identity id →
      Explains c answers params x (.reference id)

namespace Explains

variable {answers : Identity c → String → Prop} {params : List String} {x : TypeExpr × Path} {s : Schema}

/-- An explanation may name more answers than there were. -/
theorem imp {answers' : Identity c → String → Prop} (h : c.Explains answers params x s)
    (hanswers : ∀ identity id, s = .reference id → answers identity id → answers' identity id) :
    c.Explains answers' params x s := by
  cases h with
  | plain href hobject => exact .plain href hobject
  | collection hsees hy => exact .collection hsees hy
  | parameter hparam => exact .parameter hparam
  | reference hcomes hid => exact .reference hcomes (hanswers _ _ rfl hid)

/-- What explains the schema of a variant explains that of the union. -/
theorem union {variants : List TypeExpr} {unit : Path} {v : TypeExpr} (hv : v ∈ TypeExpr.flatten variants)
    (h : c.Explains answers params (v, unit) s) : c.Explains answers params (.union variants, unit) s := by
  cases h with
  | plain href hobject => exact .plain href hobject
  | collection hsees hy => exact .collection ((sees_union hv).trans hsees) hy
  | parameter hparam => exact .parameter (hparam.union hv)
  | reference hcomes hid => exact .reference (hcomes.of_sees (sees_union hv)) hid

/-- Null is no object, so allowing it needs no explanation. -/
theorem orNull (h : c.Explains answers params x s) : c.Explains answers params x s.orNull := by
  cases h with
  | plain href hobject =>
    refine .plain s.orNull_wrapped.1 ?_
    obtain ⟨k⟩ := s
    rw [Schema.orNull]
    split
    · rfl
    · exact hobject
  | collection hsees hy => exact .collection hsees hy
  | parameter hparam => exact .parameter hparam
  | reference => exact .plain (Schema.orNull_wrapped _).1 rfl

/-- An explanation with fewer type parameters is one with more. -/
theorem narrow {params' : List String} (h : c.Explains answers params x s) (hparams : ∀ name ∈ params, name ∈ params') :
    c.Explains answers params' x s := by
  cases h with
  | plain href hobject => exact .plain href hobject
  | collection hsees hy => exact .collection hsees hy
  | parameter hparam =>
    obtain ⟨v, hv, name, hname, hform⟩ := hparam
    exact .parameter ⟨v, hv, name, hparams name hname, hform⟩
  | reference hcomes hid => exact .reference hcomes hid

/-- Schemas of one shape have one explanation. -/
theorem of_shape {t : Schema} (h : c.Explains answers params x s) (hshape : t.canonical = s.canonical) :
    c.Explains answers params x t := by
  cases h with
  | plain href hobject =>
    refine .plain ?_ ?_
    · rw [← Schema.refId?_canonical, hshape, Schema.refId?_canonical, href]
    · rw [← Schema.isObject_canonical, hshape, Schema.isObject_canonical, hobject]
  | collection hsees hy => exact .collection hsees hy
  | parameter hparam => exact .parameter hparam
  | reference hcomes hid =>
    rw [Schema.eq_reference_of_shape hshape]
    exact .reference hcomes hid

/-- What is built has an explanation if its parts have. -/
theorem build {e : TypeExpr} {unit : Path} {parts : List TypeExpr} {build : Registry → List Schema → Schema}
    (he : e.form = .built parts build) {l : List Schema} (r : Registry)
    (h : ∀ s ∈ l, ∃ part ∈ parts, c.Explains answers params (part, unit) s) :
    c.Explains answers params (e, unit) (build r l) := by
  have hliterals (literals : List Literal) {x : TypeExpr × Path} :
      c.Explains answers params x (.ofLiterals literals) := by
    refine .plain ?_ ?_
    · simp [Schema.refId?, Schema.ofLiterals, Schema.keywords, Keywords.isEmpty]
    · simp [Schema.isObject, Schema.ofLiterals, Schema.keywords]
  -- objects and collections explain themselves; of the others only a union can have the schema of a part
  cases e with
  | object | map | array | tuple | intersection => exact .collection .refl trivial
  | primitive kind =>
    cases he
    exact .plain (by cases kind <;> rfl) (by cases kind <;> rfl)
  | enumeration | literal =>
    cases he
    exact hliterals _
  | reference | generic | typeParameter | callable => cases he
  | union variants =>
    have hnull {s : Schema} (hs : c.Explains answers params (.union variants, unit) s) :
        c.Explains answers params (.union variants, unit) (TypeExpr.orNullOf variants s) := by
      rw [TypeExpr.orNullOf]
      split
      · exact hs.orNull
      · exact hs
    cases TypeExpr.unionForm he with
    | null => exact .plain rfl rfl
    | literals => exact hnull (hliterals _)
    | alternatives =>
      refine hnull ?_
      rcases r.oneOf_cases l with ⟨s, hs, heq⟩ | heq
      · -- the only alternative is the schema of one of the variants
        have hmem : s ∈ l := mem_of_mem_distinctShapes (by rw [hs]; exact List.mem_cons_self)
        obtain ⟨v, hv, hexplains⟩ := h s hmem
        rw [heq]
        exact hexplains.union (List.mem_of_mem_filter hv)
      · rw [heq]
        exact .plain rfl rfl

end Explains

end Catalog

/-! ## What is registered

An id can be given up for that of an equal schema, and then the answer for a declaration is the schema of another one.
It has the same shape, and explanations do not tell shapes apart (`Explains.of_shape`). -/

/-- What a name stands for while some expansions have begun: the id of its own expansion, or the id it is known by. -/
def Pending.Answers (p : Pending c) (r : Resolver c) (identity : Identity c) (id : String) : Prop :=
  p.id? identity = some id ∨ r.id? identity = some id

/-- Every id that is known has a schema which the body of its declaration explains. -/
structure Explained (p : Pending c) (r : Resolver c) : Prop where
  recorded : Recorded p r
  tidy : r.registry.Tidy
  known : ∀ identity id, r.id? identity = some id → ∃ s, r.registry.get? id = some s ∧
    c.Explains (p.Answers r) (c.get identity.declaration).typeParams
      ((c.get identity.declaration).body, (c.get identity.declaration).location.unit) s

/-- In the beginning nothing is known. -/
theorem explained_empty : Explained ({} : Pending c) {} := ⟨recorded_empty, Registry.tidy_empty, nofun⟩

/-- A schema that is nothing but a `$ref` to an id keeps the id from being given up. -/
theorem Registry.fill_eq_own {r : Registry} {own id : String} {schema : Schema} {owner : Location}
    (hfill : (r.fill own schema owner).1 = .ok id)
    (href : schema = .reference own ∨ ∃ other, r.get? other = some (.reference own)) : id = own := by
  have hself : (Schema.reference own).references own = true := Schema.references_reference.mpr rfl
  rcases r.fill_cases own schema owner with
    ⟨_, hf, -⟩ | ⟨_, -, -, hf⟩ | ⟨_, _, -, -, hschema, hfilled, hf⟩ | ⟨_, _, -, hf⟩
  · rw [hf] at hfill
    cases hfill
  · rw [hf] at hfill
    exact (Except.ok.inj hfill).symm
  · rcases href with rfl | ⟨other, hother⟩
    · rw [hself] at hschema
      cases hschema
    · rw [Registry.isReferenced_of_get? hother hself] at hfilled
      cases hfilled
  · rw [hf] at hfill
    exact (Except.ok.inj hfill).symm

/-- An id that a schema has been accepted under has a schema of that shape. -/
theorem Registry.exists_shape_of_fill {r : Registry} (hr : r.Sound) (htidy : r.Tidy) {own id : String} {schema : Schema}
    (hschema : schema.Tidy) {owner : Location} (hfill : (r.fill own schema owner).1 = .ok id) :
    ∃ t, (r.fill own schema owner).2.get? id = some t ∧ t.canonical = schema.canonical := by
  have hlasts {t : Schema} (ht : r.get? id = some t) (hfingerprint : t.fingerprint = schema.fingerprint) :
      ∃ t, (r.fill own schema owner).2.get? id = some t ∧ t.canonical = schema.canonical :=
    ⟨t, get?_of_moves (r.fill_moves own schema owner) ht,
      Schema.canonical_eq_of_fingerprint (htidy id t ht).spelled hschema.spelled hfingerprint⟩
  rcases r.fill_cases own schema owner with
    ⟨_, hf, -⟩ | ⟨existing, hget, hfingerprint, hf⟩ | ⟨_, shared, -, hshared, -, -, hf⟩ | ⟨explicit, order, -, hf⟩
  · rw [hf] at hfill
    cases hfill
  · have heq := hfill
    rw [hf] at heq
    cases heq
    exact hlasts hget hfingerprint
  · have heq := hfill
    rw [hf] at heq
    cases heq
    obtain ⟨existing, hget, hfingerprint⟩ := hr.index_filled _ _ hshared
    exact hlasts hget hfingerprint
  · rw [hf] at hfill ⊢
    cases hfill
    exact ⟨schema, by rw [get?_store, if_pos rfl], rfl⟩

namespace Explained

variable {p : Pending c} {r : Resolver c}

/-- An expansion that begins is one more answer to point to. -/
theorem opened (h : Explained p r) (i : Fin c.size) (args : List Schema) (hp : p.id? (c.identity i args) = none)
    (hknown : r.id? (c.identity i args) = none) :
    Explained (p.push (c.identity i args) (r.expansionId i args)) (r.opened i args) where
  recorded := h.recorded.opened i args hknown
  tidy := h.tidy.opened i args
  known := by
    intro identity id hid
    obtain ⟨s, hs, hexplains⟩ := h.known identity id hid
    refine ⟨s, by rwa [Resolver.get?_opened], hexplains.imp fun other id _ hother => ?_⟩
    refine hother.imp_left fun hother => (Pending.id?_push_of_ne ?_).trans hother
    rintro rfl
    rw [hp] at hother
    cases hother

/-- When an expansion ends, what has been answered in its course stays true. -/
theorem filled {identity : Identity c} {own id : String} (hpending : p.id? identity = none)
    (h : Explained (p.push identity own) r) {body : Schema} (hbody : body.Tidy)
    (hexplains : c.Explains ((p.push identity own).Answers r) (c.get identity.declaration).typeParams
      ((c.get identity.declaration).body, (c.get identity.declaration).location.unit) body)
    {owner : Location} (hfill : (r.registry.fill own body owner).1 = .ok id) :
    Explained p (r.filled identity own body owner) := by
  have hself : (r.filled identity own body owner).id? identity = some id := by
    rw [Resolver.id?_filled_self, hfill]
    rfl
  -- the id of this expansion is kept if a schema points at it and says nothing else
  have hanswers {s : Schema} (href : s = body ∨ ∃ other, r.registry.get? other = some s) (other : Identity c)
      (id' : String) (hs : s = .reference id') (hother : (p.push identity own).Answers r other id') :
      p.Answers (r.filled identity own body owner) other id' := by
    by_cases heq : other = identity
    · obtain rfl := heq
      rcases hother with hown | hid
      · rw [Pending.id?_push_self] at hown
        obtain rfl := Option.some.inj hown
        obtain rfl := Registry.fill_eq_own hfill (href.imp (fun h => h.symm.trans hs) fun ⟨k, hk⟩ => ⟨k, hs ▸ hk⟩)
        exact Or.inr hself
      · exact absurd rfl (Pending.ne_of_push (h.recorded.ended other id' hid))
    · exact hother.imp (Pending.id?_push_of_ne heq).symm.trans (Resolver.id?_filled_of_ne heq).trans
  refine ⟨h.recorded.filled hpending body owner, fun other s hs => ?_, fun other id' hid => ?_⟩
  · rcases Registry.get?_fill h.recorded.sound.names_nodup hs with hs | ⟨-, rfl, -⟩
    · exact h.tidy other s hs
    · exact hbody
  · by_cases heq : other = identity
    · obtain rfl := heq
      obtain rfl := Option.some.inj (hself.symm.trans hid)
      obtain ⟨t, ht, hshape⟩ := Registry.exists_shape_of_fill h.recorded.sound h.tidy hbody hfill
      exact ⟨t, ht, (hexplains.imp (hanswers (Or.inl rfl))).of_shape hshape⟩
    · rw [Resolver.id?_filled_of_ne heq] at hid
      obtain ⟨s, hs, hexplains⟩ := h.known other id' hid
      exact ⟨s, Registry.get?_of_moves (Resolver.filled_moves _ _ _ _ _) hs, hexplains.imp (hanswers (Or.inr ⟨id', hs⟩))⟩

end Explained

/-! ## Runs

The answer to a task has an explanation in terms of what is answered for the names in it, and that is kept as further
names are answered. -/

/-- The answer of a task has an explanation. -/
def Task.Explains (p : Pending c) (r : Resolver c) : (t : Task c) → t.Answer → Prop
  | .node scope origin e, s => c.Explains (p.Answers r) scope.names (e, origin.unit) s
  | .list scope origin es, l => ∀ s ∈ l, ∃ e ∈ es, c.Explains (p.Answers r) scope.names (e, origin.unit) s
  | .apply _ i args _, s => ∃ id, s = .reference id ∧ p.Answers r (c.identity i args) id

/-- A type parameter of a declaration is bound under its own name. -/
theorem Declaration.mem_typeParams_of_scope {d : Declaration} {args : List Schema} {name : String}
    (h : name ∈ (d.scope args).names) : name ∈ d.typeParams := by
  obtain ⟨⟨param, s⟩, hmem, rfl⟩ := List.mem_map.mp h
  exact (List.of_mem_zip (Table.mem_of_mem_ofEntries hmem)).1

/-- A task that succeeds has an answer that its expression explains, and so have all that it registers. -/
theorem Runs.explains {p : Pending c} {t : Task c} {r r' : Resolver c} {out : Except Fault t.Answer}
    (h : Runs p t r out r') {answer : t.Answer} (hout : out = .ok answer) (hr : Explained p r)
    (hin : ∀ s ∈ t.inputs, s.Tidy) : Explained p r' ∧ t.Explains p r' answer := by
  induction h with
  | nil =>
    cases hout
    exact ⟨hr, nofun⟩
  | cons hhead htail ihHead ihTail =>
    cases hout
    obtain ⟨hr', hs⟩ := ihHead rfl hr hin
    obtain ⟨hr'', hl⟩ := ihTail rfl hr' hin
    have hlasts := htail.lasts hr'.recorded
    refine ⟨hr'', List.forall_mem_cons.mpr ⟨⟨_, List.mem_cons_self, ?_⟩, fun t ht => ?_⟩⟩
    · exact hs.imp fun identity id _ hid => hid.imp_right (hlasts.known identity id)
    · obtain ⟨e, he, ht⟩ := hl t ht
      exact ⟨e, List.mem_cons_of_mem _ he, ht⟩
  | built he _ ih =>
    cases hout
    obtain ⟨hr', hl⟩ := ih rfl hr hin
    exact ⟨hr', .build he _ hl⟩
  | @bound p scope origin e name r s he hs =>
    cases hout
    -- a name is no union, so it is itself what it consists of
    have hunion (variants : List TypeExpr) : e ≠ .union variants := by
      rintro rfl
      obtain ⟨parts, build, hform⟩ := TypeExpr.form_union variants
      rw [hform] at he
      rcases he with he | he <;> cases he
    have hmem : e ∈ TypeExpr.flatten [e] := by
      rw [TypeExpr.flatten_singleton hunion]
      exact List.mem_singleton_self e
    exact ⟨hr, .parameter ⟨e, hmem, name, List.mem_map_of_mem (f := Prod.fst) (Table.mem_of_find? hs), he⟩⟩
  | named he hs hi hargs _ ihArgs ihName =>
    obtain ⟨hr', -⟩ := ihArgs rfl hr hin
    have hl := (hargs.tidy rfl hr.recorded.sound hr.tidy hin).2
    obtain ⟨hr'', id, rfl, hid⟩ := ihName hout hr' hl
    exact ⟨hr'', .reference ⟨_, .refl, _, _, he, (Catalog.applied_eq_ok.mp hi).1⟩ hid⟩
  | pending hid =>
    cases hout
    exact ⟨hr, _, rfl, Or.inl hid⟩
  | known _ hid =>
    cases hout
    exact ⟨hr, _, rfl, Or.inr hid⟩
  | @expanded p name i args origin r body r' hp hk hd hbody ih =>
    obtain ⟨id, hfill, rfl⟩ := referenceTo_eq_ok.mp hout
    have hopened := hr.opened i args hp hk
    have hscope : ∀ s ∈ ((c.get i).scope args).values, s.Tidy := fun s hs => hin s (Declaration.mem_of_mem_scope hs)
    obtain ⟨hr', hexplains⟩ := ih rfl hopened hscope
    have hbodyTidy := (hbody.tidy rfl hopened.recorded.sound hopened.tidy hscope).2 body List.mem_cons_self
    refine ⟨hr'.filled hp hbodyTidy ?_ hfill, id, rfl, Or.inr ?_⟩
    · exact hexplains.narrow fun name => Declaration.mem_typeParams_of_scope
    · rw [Resolver.id?_filled_self, hfill]
      rfl
  | _ => cases hout

/-! ## Objects

From what a run keeps to what a call answers: nothing is pending, so there is an end to every chain of references. -/

/-- Following `$ref`s from a schema leads to the schema of an object. -/
inductive Registry.LeadsToObject (r : Registry) : Schema → Prop where
  | object {s : Schema} : s.isObject = true → LeadsToObject r s
  | reference {id : String} {t : Schema} : r.get? id = some t → LeadsToObject r t → LeadsToObject r (.reference id)

/-- What is met from behind an expression is met from there. -/
theorem Catalog.MeetsArgument.of_sees {x y : TypeExpr × Path} (hsees : c.Sees x y) (h : c.MeetsArgument y) :
    c.MeetsArgument x := by
  obtain ⟨i, hcomes, hpasses⟩ := h
  exact ⟨i, hcomes.of_sees hsees, hpasses⟩

/-- When nothing is pending, an explained schema leads to an object only if there is a collection to be seen, or an
argument is passed on. -/
theorem Explained.sees_collection {r : Resolver c} (hr : Explained {} r) {s : Schema} (hs : r.registry.LeadsToObject s)
    {params : List String} {x : TypeExpr × Path} (h : c.Explains (({} : Pending c).Answers r) params x s) :
    (∃ y, c.Sees x y ∧ y.1.IsCollection) ∨ x.1.StandsForOneOf params ∨ c.MeetsArgument x := by
  induction hs generalizing params x with
  | object hobject =>
    cases h with
    | plain _ hnot => exact absurd hobject (by rw [hnot]; exact nofun)
    | collection hsees hy => exact Or.inl ⟨_, hsees, hy⟩
    | parameter hparam => exact Or.inr (Or.inl hparam)
    | reference => cases hobject
  | @reference id t hget _ ih =>
    cases h with
    | plain hnot _ => cases hnot
    | collection hsees hy => exact Or.inl ⟨_, hsees, hy⟩
    | parameter hparam => exact Or.inr (Or.inl hparam)
    | @reference identity _ hcomes hid =>
      -- the search goes on in the body of the declaration, which explains the schema of the id
      obtain ⟨y, hsees, hstands⟩ := hcomes
      have hbody := hsees.tail (.body hstands)
      obtain ⟨t', hget', hexplains⟩ := hr.known identity id (hid.resolve_left nofun)
      obtain rfl := Option.some.inj (hget.symm.trans hget')
      rcases ih hexplains with ⟨z, hz, hcollection⟩ | hparam | hmeets
      · exact Or.inl ⟨z, hbody.trans hz, hcollection⟩
      · exact Or.inr (Or.inr ⟨_, ⟨y, hsees, hstands⟩, hparam⟩)
      · exact Or.inr (Or.inr (hmeets.of_sees hbody))

/-- A call that succeeds leaves everything explained, its answer included. -/
theorem Explained.call {r r' : Resolver c} (hr : Explained {} r) {e : TypeExpr} {origin : Location} {s : Schema}
    (h : (resolve e origin).run r = (.ok s, r')) :
    Explained {} r' ∧ c.Explains (({} : Pending c).Answers r') [] (e, origin.unit) s := by
  have hrun : Runs {} (.node [] origin e) r (.ok s) r' := runs_iff.mpr h
  exact hrun.explains rfl hr nofun

/-- Everything is explained after any calls that have succeeded. -/
theorem Resolver.Reached.explained {r : Resolver c} (hr : r.Reached) : Explained {} r := by
  induction hr with
  | fresh => exact explained_empty
  | resolved _ h ih => exact (ih.call h).1

/-- A parameter that is read as one property of a place is scalar. -/
theorem Bind.Takes.scalar_of_single {r : Resolver c} {p : Parameter} {schema s : Schema} {parts parts' : RequestParts}
    {b : Binding} (h : Takes r p schema parts b parts') {place : Place}
    (hb : b = .request p.name p.node (place.single p.name) (some s)) :
    s = schema ∧ c.shapeOf p.node p.location.unit = .scalar := by
  cases h with
  | property hshape =>
    injection hb with _ _ _ hschema
    exact ⟨(Option.some.inj hschema).symm, hshape⟩
  | @whole place' =>
    injection hb with _ _ hfield
    cases place <;> cases place' <;> cases hfield
  | body =>
    injection hb with _ _ hfield
    cases place <;> cases hfield

/-- **Objects are structured.** After any successful resolutions, a type whose schema is an object, or leads to one by
`$ref`s, is structured, unless the search for its shape comes to a declaration that passes on one of its arguments. So
a parameter of such a type is not read as one property of a place. -/
theorem shape_of_object {r : Resolver c} (hr : r.Reached) :
    (∀ e origin s r', (resolve e origin).run r = (.ok s, r') → r'.registry.LeadsToObject s →
      c.shapeOf e origin.unit = .structured ∨ c.MeetsArgument (e, origin.unit)) ∧
    ∀ providers verb tokens chain p parts (place : Place) s parts' r', Table.find? providers p.name = none →
      (Bind.parameter providers verb tokens chain p : Bind c Binding).Gives parts r
        (.request p.name p.node (place.single p.name) (some s)) parts' r' →
      r'.registry.LeadsToObject s → c.MeetsArgument (p.node, p.location.unit) := by
  have hshape {e : TypeExpr} {origin : Location} {s : Schema} {r' : Resolver c}
      (h : (resolve e origin).run r = (.ok s, r')) (hs : r'.registry.LeadsToObject s) :
      c.shapeOf e origin.unit = .structured ∨ c.MeetsArgument (e, origin.unit) := by
    obtain ⟨hr', hexplains⟩ := hr.explained.call h
    rcases hr'.sees_collection hs hexplains with ⟨y, hsees, hy⟩ | ⟨_, _, _, hmem, -⟩ | hmeets
    · exact Or.inl (Catalog.shapeOf_of_sees hsees hy)
    · cases hmem
    · exact Or.inr hmeets
  refine ⟨fun e origin s r' => hshape, fun providers verb tokens chain p parts place s parts' r' hnone h hs => ?_⟩
  have hreads : Bind.Reads verb p parts r (.request p.name p.node (place.single p.name) (some s)) parts' r' := by
    rw [Bind.parameter_eq, hnone] at h
    simp only at h
    split at h
    · exact Bind.reads_marked h
    · exact Bind.reads_positional h
  -- a leaf of one property has a schema, so it was not read from the server, and its type is scalar
  generalize hb : Binding.request p.name p.node (place.single p.name) (some s) = b at hreads
  cases hreads with
  | raw =>
    injection hb with _ _ _ hschema
    cases hschema
  | schema hresolve htakes =>
    obtain ⟨rfl, hscalar⟩ := htakes.scalar_of_single hb.symm
    rcases hshape hresolve hs with hstructured | hmeets
    · rw [hscalar] at hstructured
      cases hstructured
    · exact hmeets

/-! ### An object that is missed

A type that stands for its argument. The search does not look at the argument, so it takes for a scalar what has an
object for its schema. -/

/-- Users, and a type that is its argument. -/
def onlyCatalog : Catalog where
  declarations := [
    { name := "Only", typeParams := ["T"], body := .typeParameter "T", location := ⟨⟨"users.rs"⟩, 1, 0⟩ },
    { name := "User", body := .object [("name", ⟨.primitive .string, true⟩)] false, location := ⟨⟨"users.rs"⟩, 2, 0⟩ }]

/-- A parameter that is a user, passed on by `Only`. -/
def ownerParam : Parameter where
  name := "owner"
  node := .generic "Only" [.reference "User"]
  location := ⟨⟨"users.rs"⟩, 9, 0⟩

/-- The search does not look at the argument of Only, so it sees nothing structured. -/
theorem onlyCatalog_shapeOf_only : onlyCatalog.shapeOf (.generic "Only" [.reference "User"]) ⟨"users.rs"⟩ = .scalar := by
  have honly : onlyCatalog.StandsFor (.generic "Only" [.reference "User"], ⟨"users.rs"⟩) (0 : Fin 2) :=
    ⟨_, _, rfl, by decide +kernel⟩
  rw [Catalog.shapeOf_eq_scalar_iff, Catalog.anyStructured_named honly]
  refine Bool.or_eq_false_iff.mpr ⟨rfl, ?_⟩
  show onlyCatalog.anyStructured [(0 : Fin 2)] [(.typeParameter "T", ⟨"users.rs"⟩)] = false
  rw [Catalog.anyStructured, Catalog.anyStructured]

/-- A user has no type parameters to pass on. -/
theorem onlyCatalog_not_meetsArgument_user : ¬onlyCatalog.MeetsArgument (.reference "User", ⟨"users.rs"⟩) := by
  have huser : onlyCatalog.StandsFor (.reference "User", ⟨"users.rs"⟩) (1 : Fin 2) := ⟨_, _, rfl, by decide +kernel⟩
  rintro ⟨i, hcomes, v, -, name, hname, -⟩
  rcases (Catalog.comesTo_named_iff huser).mp hcomes with rfl | ⟨y, hy, hi⟩
  · cases hname
  · -- nothing is to be seen behind an object
    obtain rfl := Catalog.sees_eq (fun _ h => by cases h) (fun _ ⟨_, _, hform, _⟩ => by cases hform) hy
    obtain ⟨_, _, hform, -⟩ := hi
    cases hform

/-- A run that answers with a bare reference is known, but for the resolver that it leaves. -/
theorem run_of_refId? {c : Catalog} {m : Resolving c Schema} {r : Resolver c} {id : String}
    (h : (m.run r).1.toOption.bind Schema.refId? = some id) : m.run r = (.ok (.reference id), (m.run r).2) := by
  rcases hrun : m.run r with ⟨fault | s, r'⟩
  · rw [hrun] at h
    cases h
  · rw [hrun] at h
    rw [Schema.eq_reference_of_refId? h]

/-- A user is structured. As the argument of `Only` it is the same object, and is read as one field of the query. -/
theorem shape_of_object_only :
    onlyCatalog.shapeOf (.reference "User") ⟨"users.rs"⟩ = .structured ∧
      ∃ s parts' r', (Bind.parameter [] .get [] [] ownerParam : Bind onlyCatalog Binding).Gives {} {}
          (.request "owner" ownerParam.node (.queryField "owner") (some s)) parts' r' ∧
        r'.registry.LeadsToObject s ∧ onlyCatalog.MeetsArgument (ownerParam.node, ⟨"users.rs"⟩) := by
  have hobject {r : Registry} (h : (r.get? "User").any Schema.isObject = true) : r.LeadsToObject (.reference "User") := by
    rcases hget : r.get? "User" with _ | t
    · rw [hget] at h
      cases h
    · rw [hget] at h
      exact .reference hget (.object h)
  obtain ⟨hshape, hbind⟩ := shape_of_object (c := onlyCatalog) .fresh
  constructor
  · have hid : ((resolve (.reference "User") ⟨⟨"users.rs"⟩, 9, 0⟩).run ({} : Resolver onlyCatalog)).1.toOption.bind
        Schema.refId? = some "User" := by
      rw [resolve_eq_within]
      decide +kernel
    have hget : (((resolve (.reference "User") ⟨⟨"users.rs"⟩, 9, 0⟩).run ({} : Resolver onlyCatalog)).2.registry.get?
        "User").any Schema.isObject = true := by
      rw [resolve_eq_within]
      decide +kernel
    exact (hshape _ _ _ _ (run_of_refId? hid) (hobject hget)).resolve_right onlyCatalog_not_meetsArgument_user
  · -- `Only_User` leads to the user in two steps, so the one field that is bound does lead to an object
    have hid : ((resolve ownerParam.node ownerParam.location).run ({} : Resolver onlyCatalog)).1.toOption.bind
        Schema.refId? = some "Only_User" := by
      rw [resolve_eq_within]
      decide +kernel
    have honly : (((resolve ownerParam.node ownerParam.location).run ({} : Resolver onlyCatalog)).2.registry.get?
        "Only_User").bind Schema.refId? = some "User" := by
      rw [resolve_eq_within]
      decide +kernel
    have hget : (((resolve ownerParam.node ownerParam.location).run ({} : Resolver onlyCatalog)).2.registry.get?
        "User").any Schema.isObject = true := by
      rw [resolve_eq_within]
      decide +kernel
    obtain ⟨t, ht, hrefers⟩ := Option.bind_eq_some_iff.mp honly
    have hleads : ((resolve ownerParam.node ownerParam.location).run ({} : Resolver onlyCatalog)).2.registry.LeadsToObject
        (.reference "Only_User") := .reference ht (Schema.eq_reference_of_refId? hrefers ▸ hobject hget)
    have hgives : (Bind.parameter [] .get [] [] ownerParam : Bind onlyCatalog Binding).Gives {} {}
        (.request "owner" ownerParam.node (.queryField "owner") (some (.reference "Only_User")))
        (RequestParts.withPlace {} ⟨[("owner", .reference "Only_User")],
          if !(Schema.reference "Only_User").isNullable then ["owner"] else []⟩ .query)
        ((resolve ownerParam.node ownerParam.location).run {}).2 := by
      rw [Bind.parameter_eq]
      show (Bind.positional ownerParam .get [] : Bind onlyCatalog Binding).Gives _ _ _ _ _
      refine Bind.gives_bind.mpr ⟨_, {}, _, Bind.gives_schemaOf.mpr ⟨run_of_refId? hid, rfl⟩, ?_⟩
      rw [show onlyCatalog.shapeOf ownerParam.node ownerParam.location.unit = .scalar from onlyCatalog_shapeOf_only]
      refine Bind.gives_bind.mpr ⟨(), _, _, Bind.gives_addProperty.mpr ⟨⟨_, rfl, rfl⟩, rfl⟩, ?_⟩
      exact Bind.gives_pure.mpr ⟨rfl, rfl, rfl⟩
    exact ⟨_, _, _, hgives, hleads, hbind [] .get [] [] ownerParam {} .query _ _ _ rfl hgives hleads⟩

end RouteManifest
