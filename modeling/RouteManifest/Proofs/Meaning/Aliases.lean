import Mathlib.Logic.Relation
import RouteManifest.Proofs.Meaning.Preservation

/-!
# Where aliases end

A declaration whose body only names another type is registered as a bare reference, and so is one that names this
declaration in turn. Following such entries comes to an end if following the names of the types does. That is what
`Catalog.Grounded` asks of the declarations; types that stand for nothing but one another never end
(`not_ends_of_resolve`).

The condition is about types and not about declarations alone, since a generic alias stands for whatever it is applied
to. So an entry has to be known as the schema of a type, arguments included: the arguments of a key are schemas of
some types (`Keyed.rooted`), and any of these will do.
-/

namespace RouteManifest

variable {c : Catalog}

/-! ## Following references

Bare references are followed from entry to entry, and an id ends if that leads to an entry which is more than a
reference. -/

namespace Registry

variable {r : Registry} {id last : String}

/-- The schema of an id is nothing but a reference to another. -/
def Aliases (r : Registry) (id target : String) : Prop := r.get? id = some (.reference target)

/-- Bare references lead from an id to a schema that is none. -/
def Ends (r : Registry) (id : String) : Prop :=
  ∃ last s, Relation.ReflTransGen r.Aliases id last ∧ r.get? last = some s ∧ s.refId? = none

/-- An alias of what ends does end. -/
theorem Ends.head {target : String} (h : r.Aliases id target) (hends : r.Ends target) : r.Ends id := by
  obtain ⟨last, s, hchain, hs⟩ := hends
  exact ⟨last, s, .head h hchain, hs⟩

/-- An id ends if its schema is no bare reference, or is one to an id that ends. -/
theorem ends_of_get? {s : Schema} (h : r.get? id = some s) (href : ∀ target, s = .reference target → r.Ends target) :
    r.Ends id := by
  rcases htarget : s.refId? with _ | target
  · exact ⟨id, s, .refl, h, htarget⟩
  · obtain rfl := Schema.eq_reference_of_refId? htarget
    exact .head h (href target rfl)

/-- The schemas along bare references have the same values. -/
theorem validates_of_aliases (h : Relation.ReflTransGen r.Aliases id last) {s t : Schema} (hs : r.get? id = some s)
    (ht : r.get? last = some t) (v : Json) : Validates r s v ↔ Validates r t v := by
  induction h using Relation.ReflTransGen.head_induction_on generalizing s with
  | refl => rw [Option.some.inj (hs.symm.trans ht)]
  | @head id target halias hchain ih =>
    obtain rfl := Option.some.inj (hs.symm.trans halias)
    rw [validates_iff, Schema.admits_reference]
    -- the next entry is there, whether it is the last one or a reference again
    obtain ⟨u, hu⟩ : ∃ u, r.get? target = some u := by
      rcases hchain.cases_head with rfl | ⟨next, hnext, -⟩
      · exact ⟨t, ht⟩
      · exact ⟨_, hnext⟩
    rw [← ih hu]
    refine ⟨fun ⟨w, hw, hv⟩ => ?_, fun hv => ⟨u, hu, hv⟩⟩
    obtain rfl := Option.some.inj (hw.symm.trans hu)
    exact hv

end Registry

/-! ## Concrete types

A type is concrete if it is more than a name, or a name for something concrete. Being a least relation, it leaves out
every type whose names lead in a circle. -/

/-- A type has a schema of its own in the end: it is more than a name, or stands for such a type. A union stands for
its variants if they come to be the same, and an intersection for its only member. -/
inductive Closure.Concrete (c : Catalog) : Closure → Prop where
  | own {cl} : cl.target? c = none → (∀ variants, cl.node ≠ .union variants) →
      (∀ member, cl.node ≠ .intersection [member]) → Concrete c cl
  | named {cl target} : cl.target? c = some target → Concrete c target → Concrete c cl
  | empty {variants scope unit} : TypeExpr.flatten variants = [] → Concrete c (.mk (.union variants) scope unit)
  | union {variants scope unit e} : e ∈ TypeExpr.flatten variants → Concrete c (.mk e scope unit) →
      Concrete c (.mk (.union variants) scope unit)
  | intersection {member scope unit} : Concrete c (.mk member scope unit) →
      Concrete c (.mk (.intersection [member]) scope unit)

/-- Declarations that are applied to concrete types are concrete: no chain of names comes back to where it was. -/
def Catalog.Grounded (c : Catalog) : Prop :=
  ∀ i args, (c.get i).typeParams.length = args.length → (∀ a ∈ args, a.Concrete c) → (c.applied? i args).Concrete c

/-- In a grounded catalog all types are concrete. -/
theorem Closure.concrete (hc : c.Grounded) (cl : Closure) : cl.Concrete c := by
  -- the size goes down with the expression, and from a name that is bound to what the scope has for it; names that are
  -- declared are left to the catalog
  induction hsize : sizeOf cl using Nat.strong_induction_on generalizing cl with
  | h n ih =>
    obtain ⟨e, scope, unit⟩ := cl
    rw [Closure.mk.sizeOf_spec] at hsize
    have hinner {a : TypeExpr} (ha : sizeOf a < sizeOf e) : (Closure.mk a scope unit).Concrete c := by
      refine ih _ ?_ _ rfl
      rw [Closure.mk.sizeOf_spec]
      omega
    rcases htarget : (Closure.mk e scope unit).target? c with _ | target
    · cases e with
      | union variants =>
        rcases hflat : TypeExpr.flatten variants with _ | ⟨v, rest⟩
        · exact .empty hflat
        · have hv : v ∈ TypeExpr.flatten variants := by
            rw [hflat]
            exact List.mem_cons_self
          refine .union hv (hinner ?_)
          have := TypeExpr.sizeOf_lt_of_mem_flatten hv
          rw [TypeExpr.union.sizeOf_spec]
          omega
      | intersection members =>
        rcases members with _ | ⟨m, _ | ⟨m', rest⟩⟩
        · exact .own htarget nofun nofun
        · refine .intersection (hinner ?_)
          rw [TypeExpr.intersection.sizeOf_spec, List.cons.sizeOf_spec]
          omega
        · exact .own htarget nofun nofun
      | _ => exact .own htarget nofun nofun
    · refine .named htarget ?_
      rcases Closure.target?_cases htarget with ⟨name, hcl⟩ | ⟨i, name, args, hform, hlength, rfl⟩
      · have hmem := List.sizeOf_lt_of_mem (Table.mem_of_find? hcl)
        rw [Prod.mk.sizeOf_spec] at hmem
        exact ih _ (by omega) _ rfl
      · refine hc i _ (hlength.trans (List.length_map _).symm) fun cl hcl => ?_
        obtain ⟨a, ha, rfl⟩ := List.mem_map.mp hcl
        exact hinner (TypeExpr.sizeOf_lt_of_mem_args hform ha)

/-! ## References that were compiled

A schema that is a bare reference was compiled from a name, or from a union or an intersection with one part left. The
entry it points at is compiled from what the name stands for, and that goes on inside the proof that the type is
concrete. -/

section Keys

variable {r : Registry} {keys : Key c → Prop}

/-- A reference is compiled from what stands for something else, from a union whose variants all have it, or from
an intersection whose only member has. -/
theorem Compiled.of_reference {cl : Closure} {id : String} (h : Compiled r keys (.reference id) cl) :
    (∃ target, cl.target? c = some target) ∨
    (∃ variants, cl.node = .union variants ∧ TypeExpr.flatten variants ≠ [] ∧
      ∀ e ∈ TypeExpr.flatten variants, Compiled r keys (.reference id) (cl.within e)) ∨
    ∃ member, cl.node = .intersection [member] ∧ Compiled r keys (.reference id) (cl.within member) := by
  -- the schema has to be a variable for the induction
  obtain ⟨s, hs⟩ : ∃ s, s = Schema.reference id := ⟨_, rfl⟩
  rw [← hs] at h
  induction h with
  | given h => exact h.elim
  | viewed h => exact h.elim
  | shape _ hshape ih => exact ih (Schema.eq_reference_of_shape (hshape.trans (congrArg _ hs)))
  | target htarget => exact Or.inl ⟨_, htarget⟩
  | key _ htarget => exact Or.inl ⟨_, htarget⟩
  | @built cl parts build l entries hform hnode hlength htidy hparts _ =>
    rcases TypeExpr.build_cases hnode hform entries l with ⟨variants, s, hunion, rfl, hany, hdistinct, rfl⟩ | ⟨href, -⟩
    · -- no variant means null, and the schemas of the variants have one shape
      rw [Registry.oneOf_single hdistinct] at hs
      rw [hs] at hdistinct
      refine Or.inr (Or.inl ⟨variants, hunion, fun hempty => ?_, fun e he => ?_⟩)
      · rw [TypeExpr.proper, hempty] at hlength
        rw [List.length_eq_zero_iff.mp hlength] at hdistinct
        cases hdistinct
      · have hproper : e ∈ TypeExpr.proper variants :=
          List.mem_filter.mpr ⟨he, by simpa using List.any_eq_false.mp hany e he⟩
        obtain ⟨t, ht⟩ := exists_mem_zip_left hlength hproper
        have ht := mem_zip_swap ht
        obtain ⟨u, hu, hshape⟩ := exists_shape_of_mem htidy (List.of_mem_zip ht).1
        rw [hdistinct, List.mem_singleton] at hu
        rw [hu] at hshape
        obtain rfl : t = .reference id := Schema.eq_reference_of_shape hshape
        exact hparts _ ht
    · rw [hs] at href
      cases href
  | @intersection cl members l hnode hlength _ hparts _ =>
    rcases Registry.allOf_cases {} l with ⟨s, rfl, heq⟩ | ⟨properties, required, -, heq⟩ | ⟨-, heq⟩
    · obtain ⟨e, rfl⟩ := List.length_eq_one_iff.mp hlength.symm
      obtain rfl : s = .reference id := heq.symm.trans hs
      exact Or.inr (Or.inr ⟨e, hnode, hparts _ List.mem_cons_self⟩)
    · rw [heq] at hs
      cases hs
    · rw [heq] at hs
      cases hs

/-- What is registered for a key is the schema of what the key stands for. -/
theorem Compiled.exists_entry (hgood : ∀ key, keys key → key.Good r keys) (htidy : r.Tidy) {key : Key c}
    (hkey : keys key) {args : List Closure} (hlength : args.length = key.args.length)
    (hargs : ∀ s a, (some s, a) ∈ key.args.zip args → Compiled r keys s a) :
    ∃ entry, r.get? key.id = some entry ∧ Compiled r keys entry (c.applied? key.declaration args) := by
  obtain ⟨entry, hget, -⟩ := hgood key hkey
  exact ⟨entry, hget, .entry (fun key _ hkey _ => hgood key hkey) htidy hkey hget hlength hargs⟩

/-- A reference that was compiled from a concrete type ends. -/
theorem ends_of_concrete (hgood : ∀ key, keys key → key.Good r keys) (htidy : r.Tidy) {cl : Closure}
    (hcl : cl.Concrete c) {id : String} (h : Compiled r keys (.reference id) cl) : r.Ends id := by
  -- on the way to the concrete type an entry is looked up only for a name, and then it is the schema of the next type
  induction hcl generalizing id with
  | own htarget hunion hintersection =>
    rcases h.of_reference with ⟨target, hsome⟩ | ⟨variants, hnode, -⟩ | ⟨member, hnode, -⟩
    · rw [htarget] at hsome
      cases hsome
    · exact absurd hnode (hunion variants)
    · exact absurd hnode (hintersection member)
  | named htarget _ ih =>
    rcases h.of_target htarget with h | ⟨key, args, hkey, rfl, hshape, hlength, hargs⟩
    · exact ih h
    · obtain rfl : id = key.id := Schema.reference_inj (Schema.eq_reference_of_shape hshape)
      obtain ⟨entry, hget, hentry⟩ := Compiled.exists_entry hgood htidy hkey hlength hargs
      exact Registry.ends_of_get? hget fun target heq => ih (heq ▸ hentry)
  | empty hflat =>
    rcases h.of_reference with ⟨_, hsome⟩ | ⟨variants, hnode, hne, -⟩ | ⟨_, hnode, -⟩
    · cases hsome
    · cases hnode
      exact absurd hflat hne
    · cases hnode
  | union he _ ih =>
    rcases h.of_reference with ⟨_, hsome⟩ | ⟨variants, hnode, -, hvariants⟩ | ⟨_, hnode, -⟩
    · cases hsome
    · cases hnode
      exact ih (hvariants _ he)
    · cases hnode
  | intersection _ ih =>
    rcases h.of_reference with ⟨_, hsome⟩ | ⟨_, hnode, -⟩ | ⟨member, hnode, hmember⟩
    · cases hsome
    · cases hnode
    · cases hnode
      exact ih hmember

/-- What is known of the arguments of a key is compiled from some arguments. -/
theorem exists_arguments {args : List (Option Schema)} (h : ∀ s, some s ∈ args → Rooted r keys s) :
    ∃ closures, closures.length = args.length ∧ ∀ s a, (some s, a) ∈ args.zip closures → Compiled r keys s a := by
  induction args with
  | nil => exact ⟨[], rfl, fun _ _ hs => by cases hs⟩
  | cons o rest ih =>
    obtain ⟨closures, hlength, hclosures⟩ := ih fun s hs => h s (List.mem_cons_of_mem _ hs)
    obtain ⟨cl, hcl⟩ : ∃ cl, ∀ s, o = some s → Compiled r keys s cl := by
      cases o with
      | none => exact ⟨.mk .null [] ⟨""⟩, nofun⟩
      | some s =>
        obtain ⟨cl, hcl⟩ := h s List.mem_cons_self
        exact ⟨cl, fun t ht => Option.some.inj ht ▸ hcl⟩
    refine ⟨cl :: closures, congrArg Nat.succ hlength, fun s a hs => ?_⟩
    rcases List.mem_cons.mp hs with heq | hs
    · obtain ⟨ho, rfl⟩ := Prod.mk.inj heq
      exact hcl s ho.symm
    · exact hclosures s a hs

/-! ### Types that stand for one another

The converse: names that lead in a circle have references that lead in a circle, so `aliases_end` cannot do without its
condition. -/

/-- Types that stand for one another and for nothing else. -/
def Closure.Looping (c : Catalog) (types : Closure → Prop) : Prop :=
  ∀ cl, types cl → ∃ target, cl.target? c = some target ∧ types target

/-- The schema of such a type is a reference, and what is registered there is the schema of such a type again. -/
theorem Compiled.of_looping (hgood : ∀ key, keys key → key.Good r keys) (htidy : r.Tidy) {types : Closure → Prop}
    (hloop : Closure.Looping c types) {s : Schema} {cl : Closure} (h : Compiled r keys s cl) (hcl : types cl) :
    ∃ id entry next, s = .reference id ∧ r.get? id = some entry ∧ types next ∧ Compiled r keys entry next := by
  obtain ⟨target, htarget, hnext⟩ := hloop cl hcl
  induction h generalizing target with
  | given h => exact h.elim
  | viewed h => exact h.elim
  | shape _ hshape ih =>
    obtain ⟨id, entry, next, rfl, hentry⟩ := ih hcl target htarget hnext
    exact ⟨id, entry, next, Schema.eq_reference_of_shape hshape.symm, hentry⟩
  | target htarget' _ ih =>
    obtain rfl := Option.some.inj (htarget'.symm.trans htarget)
    obtain ⟨further, hfurther, hlater⟩ := hloop _ hnext
    exact ih hnext further hfurther hlater
  | @key key cl args hkey htarget' hlength hargs =>
    obtain rfl := Option.some.inj (htarget'.symm.trans htarget)
    obtain ⟨entry, hget, hentry⟩ := Compiled.exists_entry hgood htidy hkey hlength hargs
    exact ⟨key.id, entry, _, rfl, hget, hnext, hentry⟩
  | built _ hform =>
    rw [Closure.target?_built hform] at htarget
    cases htarget
  | intersection hnode =>
    rw [Closure.target?_intersection hnode] at htarget
    cases htarget

/-- A reference that was compiled from such a type does not end. -/
theorem not_ends_of_looping (hgood : ∀ key, keys key → key.Good r keys) (htidy : r.Tidy) {types : Closure → Prop}
    (hloop : Closure.Looping c types) {id : String} {cl : Closure} (h : Compiled r keys (.reference id) cl)
    (hcl : types cl) : ¬r.Ends id := by
  -- all entries of the chain are schemas of such types, the last one as well
  rintro ⟨last, s, hchain, hlast, href⟩
  induction hchain using Relation.ReflTransGen.head_induction_on generalizing cl with
  | refl =>
    obtain ⟨id, entry, next, heq, hget, hnext, hentry⟩ := h.of_looping hgood htidy hloop hcl
    obtain rfl : last = id := Schema.reference_inj heq
    obtain rfl := Option.some.inj (hget.symm.trans hlast)
    obtain ⟨_, _, _, rfl, -⟩ := hentry.of_looping hgood htidy hloop hnext
    cases href
  | head halias _ ih =>
    obtain ⟨id, entry, next, heq, hget, hnext, hentry⟩ := h.of_looping hgood htidy hloop hcl
    obtain rfl := Schema.reference_inj heq
    obtain rfl := Option.some.inj (hget.symm.trans halias)
    exact ih hentry hnext

end Keys

/-! ## Resolving

Both directions are read off the invariant of a resolver that was reached by calls that succeed: every entry has a key,
so it is compiled from a type. -/

/-- A type that stands for itself in the end, and for nothing else on the way, is answered as a reference that does
not end. -/
theorem not_ends_of_resolve (hc : c.Separate) {types : Closure → Prop} (hloop : Closure.Looping c types)
    {r r' : Resolver c} (hr : r.Reached) {e : TypeExpr} {origin : Location} {s : Schema}
    (h : (resolve e origin).run r = (.ok s, r')) (hcl : types (.mk e [] origin.unit)) :
    ∃ id, s = .reference id ∧ ¬r'.registry.Ends id := by
  obtain ⟨keys, hkeys⟩ := hr.keyed hc
  obtain ⟨keys', hkeys', hcompiled⟩ := compiled_of_resolve hc hkeys h
  obtain ⟨id, -, -, rfl, -⟩ := hcompiled.of_looping hkeys'.all_good hkeys'.tidy hloop hcl
  exact ⟨id, rfl, not_ends_of_looping hkeys'.all_good hkeys'.tidy hloop hcompiled hcl⟩

/-- An alias that was meant for the type of the same name in another file is the first that its own name finds. -/
example : (((resolve (.reference "User") ⟨⟨"account.rs"⟩, 9, 0⟩).run ({} : Resolver {
    declarations := [
      { name := "User", body := .reference "User", location := ⟨⟨"account.rs"⟩, 1, 0⟩ },
      { name := "User", body := .object [] false, location := ⟨⟨"user.rs"⟩, 1, 0⟩ }] })).2.registry.get? "User").bind
      Schema.refId? = some "User" := by
  rw [resolve_eq_within]
  decide +kernel

/-- Every named type ends in a schema of its own. In a catalog where no chain of names comes back to where it was,
after any successful resolutions, following entries that are nothing but references leads from any entry to one
that is more than that, and to the same values. -/
theorem aliases_end (hc : c.Separate) (hg : c.Grounded) {r : Resolver c} (hr : r.Reached) {id : String} {s : Schema}
    (h : r.registry.get? id = some s) :
    ∃ last t, Relation.ReflTransGen r.registry.Aliases id last ∧ r.registry.get? last = some t ∧ t.refId? = none ∧
      ∀ v, Validates r.registry s v ↔ Validates r.registry t v := by
  obtain ⟨keys, hkeys⟩ := hr.keyed hc
  have hends : r.registry.Ends id := by
    -- the key was used for arguments of many types perhaps; that its schemas come from some is enough
    obtain ⟨key, hkey, rfl⟩ := hkeys.held id s h
    obtain ⟨args, hlength, hargs⟩ := exists_arguments (hkeys.rooted key hkey)
    obtain ⟨entry, hget, hentry⟩ := Compiled.exists_entry hkeys.all_good hkeys.tidy hkey hlength hargs
    refine Registry.ends_of_get? hget fun target heq => ?_
    exact ends_of_concrete hkeys.all_good hkeys.tidy (Closure.concrete hg _) (heq ▸ hentry)
  obtain ⟨last, t, hchain, ht, href⟩ := hends
  exact ⟨last, t, hchain, ht, href, Registry.validates_of_aliases hchain h ht⟩

/-- Two aliases, one of them generic, that end in an object. -/
def ownerCatalog : Catalog where
  declarations := [
    { name := "Owner"
      body := .generic "Only" [.reference "User"]
      location := ⟨⟨"owner.rs"⟩, 1, 0⟩ },
    { name := "Only"
      typeParams := ["T"]
      body := .typeParameter "T"
      location := ⟨⟨"owner.rs"⟩, 2, 0⟩ },
    { name := "User"
      body := .object [("name", ⟨.primitive .string, true⟩)] false
      location := ⟨⟨"owner.rs"⟩, 3, 0⟩ }]

/-- No id is asked for by two declarations of the catalog. -/
theorem ownerCatalog_separate : ownerCatalog.Separate := by
  refine Catalog.separate_of_alone fun i _ id ⟨hid, _⟩ => ?_
  obtain ⟨n, hn⟩ := i
  match n, hn with
  | 0, _ => cases hid
  | 1, _ => cases hid
  | 2, _ => cases hid

/-- Both aliases lead to the object. -/
theorem ownerCatalog_grounded : ownerCatalog.Grounded := by
  have hlookup : ownerCatalog.lookup? "Only" ⟨"owner.rs"⟩ = some ⟨1, by decide⟩ ∧
      ownerCatalog.lookup? "User" ⟨"owner.rs"⟩ = some ⟨2, by decide⟩ := by
    decide +kernel
  have huser (args : List Closure) : (ownerCatalog.applied? ⟨2, by decide⟩ args).Concrete ownerCatalog :=
    .own rfl nofun nofun
  have honly {a : Closure} (ha : a.Concrete ownerCatalog) :
      (ownerCatalog.applied? ⟨1, by decide⟩ [a]).Concrete ownerCatalog := .named rfl ha
  rintro ⟨n, hn⟩ args hlength hargs
  match n, hn with
  | 0, _ =>
    obtain rfl := List.length_eq_zero_iff.mp hlength.symm
    refine .named (Closure.target?_named (e := .generic "Only" [.reference "User"]) rfl nofun hlookup.1 rfl) ?_
    refine honly (.named (Closure.target?_named (e := .reference "User") rfl (fun _ => rfl) hlookup.2 rfl) ?_)
    exact huser []
  | 1, _ =>
    obtain ⟨a, rfl⟩ := List.length_eq_one_iff.mp hlength.symm
    exact honly (hargs a List.mem_cons_self)
  | 2, _ => exact huser args

theorem aliases_end_owner : ∃ (r : Resolver ownerCatalog) (s : Schema), r.registry.get? "Owner" = some s ∧
    s.refId? = some "Only_User" ∧ ∃ last t, Relation.ReflTransGen r.registry.Aliases "Owner" last ∧
      r.registry.get? last = some t ∧ t.refId? = none ∧ ∀ v, Validates r.registry s v ↔ Validates r.registry t v := by
  have hok : ((resolve (.reference "Owner") ⟨⟨"owner.rs"⟩, 9, 0⟩).run ({} : Resolver ownerCatalog)).1.isOk = true ∧
      (((resolve (.reference "Owner") ⟨⟨"owner.rs"⟩, 9, 0⟩).run ({} : Resolver ownerCatalog)).2.registry.get?
        "Owner").bind Schema.refId? = some "Only_User" := by
    rw [resolve_eq_within]
    decide +kernel
  rcases h : (resolve (.reference "Owner") ⟨⟨"owner.rs"⟩, 9, 0⟩).run ({} : Resolver ownerCatalog) with ⟨fault | s, r⟩
  · rw [h] at hok
    cases hok.1
  · rw [h] at hok
    obtain ⟨entry, hget, href⟩ := Option.bind_eq_some_iff.mp hok.2
    exact ⟨r, entry, hget, href, aliases_end ownerCatalog_separate ownerCatalog_grounded (.resolved .fresh h) hget⟩

end RouteManifest
