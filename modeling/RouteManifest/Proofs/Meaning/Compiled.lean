import RouteManifest.Proofs.Meaning.Basic
import RouteManifest.Proofs.Resolution.Tidy

/-!
# Schemas that were compiled from types

`Compiles` says how a schema came from a type: from the schemas of the parts, from what a name stands for, or as
a reference to the id that was handed out for a declaration with arguments (`Key`). The derivations are finite
even where types are not, since a reference is a leaf; what stands behind it is said of the key
(`Key.Good`): the registered schema is compiled from the body of the declaration.

A key is used again for all arguments with equal fingerprints, and equal schemas can come from different types.
So the schema of a key is compiled for all closures at once, from what is *given* about the schemas of its
arguments and nothing else. An argument that does not matter any more is `none`; that happens when an id is given
up that the argument pointed at (`Key.forget`), and the argument of such a key has left no trace in its schema
(`Compiles.forget`).
-/

namespace RouteManifest

variable {c : Catalog}

/-! ## Lists side by side

Arguments, their schemas and their closures are three lists of one length, which are zipped in pairs. -/

section Zip

variable {α β γ : Type}

/-- In two lists of one length every element has a partner. -/
theorem exists_mem_zip_left {as : List α} {bs : List β} (h : bs.length = as.length) {a : α} (ha : a ∈ as) :
    ∃ b, (a, b) ∈ as.zip bs := by
  have hmem : a ∈ (as.zip bs).map Prod.fst := by
    rw [List.map_fst_zip (by omega)]
    exact ha
  obtain ⟨⟨_, b⟩, hb, rfl⟩ := List.mem_map.mp hmem
  exact ⟨b, hb⟩

/-- In three lists of one length two partners of one element have a common one. -/
theorem exists_mem_zip_between {as : List α} {bs : List β} {cs : List γ} (h : bs.length = as.length) {a : α} {c : γ}
    (hmem : (a, c) ∈ as.zip cs) : ∃ b, (a, b) ∈ as.zip bs ∧ (b, c) ∈ bs.zip cs := by
  induction as generalizing bs cs with
  | nil => cases hmem
  | cons x as ih =>
    cases bs with
    | nil => cases h
    | cons y bs =>
      cases cs with
      | nil => cases hmem
      | cons z cs =>
        rcases List.mem_cons.mp hmem with heq | hmem
        · cases heq
          exact ⟨y, List.mem_cons_self, List.mem_cons_self⟩
        · obtain ⟨b, hb, hc⟩ := ih (Nat.succ.inj h) hmem
          exact ⟨b, List.mem_cons_of_mem _ hb, List.mem_cons_of_mem _ hc⟩

end Zip

/-! ## What names stand for

Inversion of `Closure.target?`: a name stands for something by one of two ways, and only a name does. -/

namespace Closure

variable {e : TypeExpr} {scope : List (String × Closure)} {unit : Path} {name : String}

/-- A name without arguments, or a type parameter, that is in scope. -/
theorem target?_bound (h : e.form = .named name [] ∨ e.form = .parameter name) {cl : Closure}
    (hcl : Table.find? scope name = some cl) : (mk e scope unit).target? c = some cl := by
  rcases h with h | h
  · rcases TypeExpr.form_eq_named h with rfl | ⟨rfl, -⟩
    · rw [target?, hcl]
      rfl
    · rw [target?, hcl]
      rfl
  · obtain rfl := TypeExpr.form_eq_parameter h
    exact hcl

/-- A name that is declared. -/
theorem target?_named {args : List TypeExpr} (h : e.form = .named name args)
    (hscope : args = [] → Table.find? scope name = none) {i : Fin c.size} (hi : c.lookup? name unit = some i)
    (hargs : (c.get i).typeParams.length = args.length) :
    (mk e scope unit).target? c = some (c.applied? i (args.map fun a => mk a scope unit)) := by
  have hdeclared : c.declared? name (args.map fun a => mk a scope unit) unit =
      some (c.applied? i (args.map fun a => mk a scope unit)) := by
    rw [Catalog.declared?, hi, Option.bind_some, if_pos (by rw [List.length_map, hargs])]
  rcases TypeExpr.form_eq_named h with rfl | ⟨rfl, rfl⟩
  · cases args with
    | nil =>
      rw [target?, hscope rfl]
      exact hdeclared
    | cons a rest => exact hdeclared
  · rw [target?, hscope rfl]
    exact hdeclared

/-- A declared name stands for the body of a declaration with as many parameters as there are arguments. -/
theorem declared?_eq_some {args : List Closure} {target : Closure} (h : c.declared? name args unit = some target) :
    ∃ i, (c.get i).typeParams.length = args.length ∧ target = c.applied? i args := by
  obtain ⟨i, -, h⟩ := Option.bind_eq_some_iff.mp h
  split at h
  next hlength => exact ⟨i, hlength, (Option.some.inj h).symm⟩
  · cases h

/-- What stands for something is bound in the scope, or names a declaration with as many arguments as that has
parameters. -/
theorem target?_cases {target : Closure} (h : (mk e scope unit).target? c = some target) :
    (∃ name, Table.find? scope name = some target) ∨ ∃ i name args, e.form = .named name args ∧
      (c.get i).typeParams.length = args.length ∧ target = c.applied? i (args.map fun a => mk a scope unit) := by
  cases e with
  | reference name =>
    refine (Option.or_eq_some_iff.mp h).imp (fun h => ⟨name, h⟩) fun ⟨_, h⟩ => ?_
    obtain ⟨i, hlength, rfl⟩ := declared?_eq_some h
    exact ⟨i, name, [], rfl, hlength, rfl⟩
  | generic base args =>
    cases args with
    | nil =>
      refine (Option.or_eq_some_iff.mp h).imp (fun h => ⟨base, h⟩) fun ⟨_, h⟩ => ?_
      obtain ⟨i, hlength, rfl⟩ := declared?_eq_some h
      exact ⟨i, base, [], rfl, hlength, rfl⟩
    | cons a rest =>
      obtain ⟨i, hlength, rfl⟩ := declared?_eq_some h
      exact Or.inr ⟨i, base, a :: rest, rfl, hlength.trans (List.length_map _), rfl⟩
  | typeParameter name => exact Or.inl ⟨name, h⟩
  | _ => cases h

/-- What is built from its parts does not stand for anything else. -/
theorem target?_built {parts : List TypeExpr} {build : Registry → List Schema → Schema} {cl : Closure}
    (h : cl.node.form = .built parts build) : cl.target? c = none := by
  obtain ⟨e, scope, unit⟩ := cl
  cases e with
  | reference name => cases h
  | generic base args => cases h
  | typeParameter name => cases h
  | _ => rfl

/-- An intersection does not stand for anything else. -/
theorem target?_intersection {members : List TypeExpr} {cl : Closure} (h : cl.node = .intersection members) :
    cl.target? c = none := by
  have hform : cl.node.form = .built members fun registry schemas => registry.allOf schemas := by
    rw [h]
    rfl
  exact target?_built hform

end Closure

/-! ## Keys

A key is what the registry is asked for, together with what is still known of the arguments. Derivations refer to keys
and not to entries, so that they stay what they are while entries come and ids go. -/

/-- A declaration with the schemas of its arguments and the id it is known by. -/
structure Key (c : Catalog) where
  declaration : Fin c.size
  args : List (Option Schema)
  id : String

namespace Key

/-- What is given about closures in the place of the arguments. -/
def Given (key : Key c) (args : List Closure) (s : Schema) (cl : Closure) : Prop := (some s, cl) ∈ key.args.zip args

/-- The key without arguments that point at an id. -/
def forget (id : String) (key : Key c) : Key c :=
  { key with args := key.args.map fun a => a.bind fun s => if s.references id then none else some s }

end Key

/-! ## Derivations

There are rules for what is given, for what a name stands for, for references to keys, and for what is built from parts,
where an intersection has a rule of its own. Schemas of one shape are interchangeable, since an entry may have been
shared. -/

/-- A schema was compiled from a type, with the keys so far and what is given. -/
inductive Compiles (r : Registry) (keys : Key c → Prop) (given : Schema → Closure → Prop) :
    Schema → Closure → Prop where
  | given {s cl} : given s cl → Compiles r keys given s cl
  /-- the object that is seen in a given schema -/
  | viewed {s cl object} : given s cl → r.objectView? s = some object → Compiles r keys given object cl
  | shape {s t cl} : Compiles r keys given s cl → s.canonical = t.canonical → Compiles r keys given t cl
  | target {s cl target} : cl.target? c = some target → Compiles r keys given s target → Compiles r keys given s cl
  | key {key : Key c} {cl args} : keys key → cl.target? c = some (c.applied? key.declaration args) →
      args.length = key.args.length → (∀ s a, (some s, a) ∈ key.args.zip args → Compiles r keys given s a) →
      Compiles r keys given (.reference key.id) cl
  | built {cl parts build l} (entries : Registry) : cl.node.form = .built parts build →
      (∀ members, cl.node ≠ .intersection members) → l.length = parts.length → (∀ s ∈ l, s.Tidy) →
      (∀ p ∈ l.zip parts, Compiles r keys given p.1 (cl.within p.2)) → Compiles r keys given (build entries l) cl
  /-- the parts are schemas of the members, or objects seen in them -/
  | intersection {cl members l} : cl.node = .intersection members → l.length = members.length → (∀ s ∈ l, s.Tidy) →
      (∀ p ∈ l.zip members, Compiles r keys given p.1 (cl.within p.2)) →
      Compiles r keys given (({} : Registry).allOf l) cl

/-- A schema was compiled from a type, and nothing was given. -/
abbrev Compiled (r : Registry) (keys : Key c → Prop) (s : Schema) (cl : Closure) : Prop :=
  Compiles r keys (fun _ _ => False) s cl

/-- The schema that is registered for a key is compiled from the body of its declaration. -/
def Key.Good (r : Registry) (keys : Key c → Prop) (key : Key c) : Prop :=
  ∃ entry, r.get? key.id = some entry ∧ ∀ args, args.length = key.args.length →
    Compiles r keys (key.Given args) entry (c.applied? key.declaration args)

namespace Compiles

variable {r r' : Registry} {keys keys' : Key c → Prop} {given given' : Schema → Closure → Prop} {s : Schema}
  {cl : Closure}

/-- What is given can be replaced by what is compiled. -/
theorem cut (h : Compiles r keys given s cl) (hgiven : ∀ s cl, given s cl → Compiles r keys given' s cl)
    (hviewed : ∀ s cl object, given s cl → r.objectView? s = some object → Compiles r keys given' object cl) :
    Compiles r keys given' s cl := by
  induction h with
  | given h => exact hgiven _ _ h
  | viewed h hview => exact hviewed _ _ _ h hview
  | shape _ hshape ih => exact .shape ih hshape
  | target htarget _ ih => exact .target htarget ih
  | key hkey htarget hlength _ ih => exact .key hkey htarget hlength ih
  | built entries hform hnode hlength htidy _ ih => exact .built entries hform hnode hlength htidy ih
  | intersection hnode hlength htidy _ ih => exact .intersection hnode hlength htidy ih

/-- More keys and more entries do no harm. -/
theorem mono (h : Compiles r keys given s cl) (hview : ∀ s object, r.objectView? s = some object →
    r'.objectView? s = some object) (hkeys : ∀ key, keys key → keys' key) : Compiles r' keys' given s cl := by
  induction h with
  | given h => exact .given h
  | viewed h hobject => exact .viewed h (hview _ _ hobject)
  | shape _ hshape ih => exact .shape ih hshape
  | target htarget _ ih => exact .target htarget ih
  | key hkey htarget hlength _ ih => exact .key (hkeys _ hkey) htarget hlength ih
  | built entries hform hnode hlength htidy _ ih => exact .built entries hform hnode hlength htidy ih
  | intersection hnode hlength htidy _ ih => exact .intersection hnode hlength htidy ih

end Compiles

/-- What a key still knows without an id is what it knew, and does not point at the id. -/
theorem Key.bind_eq_some {id : String} {o : Option Schema} {s : Schema} :
    (o.bind fun s => if s.references id then none else some s) = some s ↔ o = some s ∧ s.references id = false := by
  rw [Option.bind_eq_some_iff]
  constructor
  · rintro ⟨t, rfl, h⟩
    split at h
    · cases h
    next href =>
      obtain rfl := Option.some.inj h
      exact ⟨rfl, by simpa using href⟩
  · rintro ⟨rfl, h⟩
    exact ⟨s, rfl, by simp [h]⟩

/-- What a key still knows without an id is what it knew that does not point there. -/
theorem Key.mem_args_forget {id : String} {key : Key c} {s : Schema} :
    some s ∈ (key.forget id).args ↔ some s ∈ key.args ∧ s.references id = false := by
  rw [forget, List.mem_map]
  constructor
  · rintro ⟨o, ho, heq⟩
    obtain ⟨rfl, hs⟩ := bind_eq_some.mp heq
    exact ⟨ho, hs⟩
  · rintro ⟨ho, hs⟩
    exact ⟨some s, ho, bind_eq_some.mpr ⟨rfl, hs⟩⟩

/-- What is given by a key without an id was given before. -/
theorem Key.mem_forget {id : String} {key : Key c} {args : List Closure} {s : Schema} {a : Closure} :
    (some s, a) ∈ (key.forget id).args.zip args ↔ (some s, a) ∈ key.args.zip args ∧ s.references id = false := by
  rw [forget, List.zip_map_left, List.mem_map]
  constructor
  · rintro ⟨⟨o, b⟩, hmem, heq⟩
    obtain ⟨ho, rfl⟩ := Prod.mk.inj heq
    obtain ⟨rfl, hs⟩ := bind_eq_some.mp ho
    exact ⟨hmem, hs⟩
  · rintro ⟨hmem, hs⟩
    exact ⟨(some s, a), hmem, Prod.ext (bind_eq_some.mpr ⟨rfl, hs⟩) rfl⟩

/-! ### Seeing objects

Where parts are merged, the objects that are seen in them take their place. An object that is seen in a reference is the
entry of a key, so it is compiled from the same type. -/

/-- The object that is seen in a compiled schema is compiled from the same type, if what is registered for the
keys is. -/
theorem Compiles.view {r : Registry} {keys : Key c → Prop} {given : Schema → Closure → Prop}
    (hgood : ∀ key entry, keys key → r.get? key.id = some entry → key.Good r keys) (htidy : r.Tidy)
    {s : Schema} {cl : Closure}
    (h : Compiles r keys given s cl) {object : Schema} (hview : r.objectView? s = some object) :
    Compiles r keys given object cl := by
  induction h generalizing object with
  | given h => exact .viewed h hview
  | @viewed s cl other h hother =>
    -- an object is its own view
    have hself := Registry.objectView?_of_isObject (r := r) (Registry.objectView?_eq_some.mp hother).1
    obtain rfl := Option.some.inj (hself.symm.trans hview)
    exact .viewed h hother
  | @shape s t cl h hshape ih =>
    obtain ⟨-, ⟨-, rfl⟩ | ⟨id, hid, -⟩⟩ := Registry.objectView?_eq_some.mp hview
    · exact .shape h hshape
    · obtain rfl := Schema.eq_reference_of_refId? hid
      obtain rfl := Schema.eq_reference_of_shape hshape
      exact ih hview
  | target htarget _ ih => exact .target htarget (ih hview)
  | @key key cl args hkey htarget hlength hargs ih =>
    obtain ⟨hobject, ⟨-, rfl⟩ | ⟨id, hid, hget⟩⟩ := Registry.objectView?_eq_some.mp hview
    · cases hobject
    · obtain rfl : key.id = id := Option.some.inj hid
      obtain ⟨entry, hentry, hbody⟩ := hgood key object hkey hget
      obtain rfl := Option.some.inj (hget.symm.trans hentry)
      exact .target htarget ((hbody args hlength).cut hargs fun s a other hmem hother => ih s a hmem hother)
  | @built cl parts build l entries hform hnode hlength hl h ih =>
    rcases TypeExpr.build_cases hnode hform entries l with ⟨variants, s, -, -, -, hs, rfl⟩ | ⟨href, -⟩
    · -- the object is seen in the only alternative, and the union is built again from nothing but that
      have hmem : s ∈ l := mem_of_mem_distinctShapes (by rw [hs]; exact List.mem_cons_self)
      rw [Registry.oneOf_single hs] at hview
      obtain ⟨-, ⟨-, rfl⟩ | ⟨id, hid, -⟩⟩ := Registry.objectView?_eq_some.mp hview
      · rw [← Registry.oneOf_single (r := entries) hs]
        exact .built entries hform hnode hlength hl h
      obtain rfl := Schema.eq_reference_of_refId? hid
      have hdistinct : distinctShapes [] (l.map fun _ => object) = [object] := by
        refine distinctShapes_of_eq (by simpa using List.ne_nil_of_mem hmem) fun t ht => ?_
        obtain ⟨-, -, rfl⟩ := List.mem_map.mp ht
        rfl
      rw [← Registry.oneOf_single (r := entries) hdistinct]
      refine .built entries hform hnode (by simpa using hlength) (fun t ht => ?_) fun p hp => ?_
      · obtain ⟨-, -, rfl⟩ := List.mem_map.mp ht
        exact Registry.tidy_objectView? htidy (hl _ hmem) hview
      · rw [List.zip_map_left, List.mem_map] at hp
        obtain ⟨q, hq, rfl⟩ := hp
        obtain ⟨t, ht, hshape⟩ := exists_shape_of_mem hl (List.of_mem_zip hq).1
        rw [hs, List.mem_singleton] at ht
        rw [ht] at hshape
        have hq' : q.1 = .reference id := Schema.eq_reference_of_shape hshape
        exact ih q hq (by rw [hq']; exact hview)
    · obtain ⟨-, ⟨-, rfl⟩ | ⟨id, hid, -⟩⟩ := Registry.objectView?_eq_some.mp hview
      · exact .built entries hform hnode hlength hl h
      · rw [href] at hid
        cases hid
  | @intersection cl members l hnode hlength hl h ih =>
    obtain ⟨-, ⟨-, rfl⟩ | ⟨id, hid, -⟩⟩ := Registry.objectView?_eq_some.mp hview
    · exact .intersection hnode hlength hl h
    -- only an intersection of one part is a reference
    rcases Registry.allOf_cases {} l with ⟨s, rfl, heq⟩ | ⟨properties, required, -, heq⟩ | ⟨-, heq⟩
    · rw [heq] at hview
      refine .intersection (l := [object]) hnode hlength (fun t ht => ?_) fun p hp => ?_
      · obtain rfl := List.mem_singleton.mp ht
        exact Registry.tidy_objectView? htidy (hl s List.mem_cons_self) hview
      · obtain ⟨e, rfl⟩ := List.length_eq_one_iff.mp hlength.symm
        obtain rfl := List.mem_singleton.mp hp
        exact ih (s, e) List.mem_cons_self hview
    · rw [heq] at hid
      cases hid
    · rw [heq] at hid
      cases hid

/-- An intersection is compiled from its members also if objects are seen in them. -/
theorem Compiles.allOf {r : Registry} {keys : Key c → Prop} {given : Schema → Closure → Prop}
    (hgood : ∀ key entry, keys key → r.get? key.id = some entry → key.Good r keys) (htidy : r.Tidy) {cl : Closure}
    {members : List TypeExpr} (hnode : cl.node = .intersection members) {l : List Schema}
    (hlength : l.length = members.length) (hl : ∀ s ∈ l, s.Tidy)
    (h : ∀ p ∈ l.zip members, Compiles r keys given p.1 (cl.within p.2)) : Compiles r keys given (r.allOf l) cl := by
  obtain ⟨views, hviews, hseen, heq⟩ := r.allOf_views l
  rw [heq]
  refine .intersection hnode (hviews.trans hlength) (fun s hs => ?_) fun ⟨view, e⟩ hp => ?_
  · obtain ⟨t, ht⟩ := exists_mem_zip_left hviews.symm hs
    rcases hseen _ ht with heq | hview
    · obtain rfl : s = t := heq
      exact hl s (List.of_mem_zip ht).2
    · exact Registry.tidy_objectView? htidy (hl t (List.of_mem_zip ht).2) hview
  · obtain ⟨s, hs, he⟩ := exists_mem_zip_between hviews.symm hp
    rcases hseen _ hs with heq | hview
    · obtain rfl : view = s := heq
      exact h _ he
    · exact (h _ he).view hgood htidy hview

/-- A derivation does without an id that is given up, unless the schema points at it. -/
theorem Compiles.forget {r r' : Registry} {keys keys' : Key c → Prop} {given given' : Schema → Closure → Prop}
    {s : Schema} {cl : Closure} {id : String} (hid : r.get? id = none)
    (hview : ∀ s object, r.objectView? s = some object → r'.objectView? s = some object)
    (hkeys : ∀ key, keys key → key.id ≠ id → keys' (key.forget id))
    (hgiven : ∀ s cl, given s cl → s.references id = false → given' s cl) (h : Compiles r keys given s cl) :
    s.references id = true ∨ Compiles r' keys' given' s cl := by
  induction h with
  | @given s cl h =>
    rcases hs : s.references id with _ | _
    · exact Or.inr (.given (hgiven s cl h hs))
    · exact Or.inl rfl
  | @viewed s cl object h hobject =>
    rcases hs : s.references id with _ | _
    · exact Or.inr (.viewed (hgiven s cl h hs) (hview _ _ hobject))
    · -- the object is not behind the id, so it is the schema itself
      obtain ⟨-, ⟨-, rfl⟩ | ⟨other, hother, hget⟩⟩ := Registry.objectView?_eq_some.mp hobject
      · exact Or.inl hs
      · rw [Schema.eq_reference_of_refId? hother, Schema.references_reference] at hs
        rw [hs, hid] at hget
        cases hget
  | shape _ hshape ih => exact ih.imp (Schema.references_of_shape hshape) fun ih => .shape ih hshape
  | target htarget _ ih => exact ih.imp_right (.target htarget)
  | @key key cl args hkey htarget hlength _ ih =>
    -- a reference to the id points there; any other key goes on without the arguments that do
    by_cases hne : key.id = id
    · exact Or.inl (Schema.references_mk.mpr (Or.inl (congrArg some hne)))
    · have hargs : ∀ s a, (some s, a) ∈ (key.forget id).args.zip args → Compiles r' keys' given' s a :=
          fun s a hmem => by
        obtain ⟨hmem, hs⟩ := Key.mem_forget.mp hmem
        exact (ih s a hmem).resolve_left (by simp [hs])
      have hlength' : args.length = (key.forget id).args.length := hlength.trans (List.length_map _).symm
      have hkey' : Compiles r' keys' given' (.reference (key.forget id).id) cl :=
        .key (hkeys key hkey hne) htarget hlength' hargs
      exact Or.inr hkey'
  | @built cl parts build l entries hform hnode hlength htidy _ ih =>
    -- what is built shows the references of its parts, so a part that points at the id gives it away
    by_cases hl : ∃ t ∈ l, t.references id = true
    · obtain ⟨t, ht, href⟩ := hl
      exact Or.inl (TypeExpr.references_build hnode hform hlength htidy ht href)
    · refine Or.inr (.built entries hform hnode hlength htidy fun p hp => (ih p hp).resolve_left fun href => ?_)
      exact hl ⟨p.1, (List.of_mem_zip hp).1, href⟩
  | @intersection cl members l hnode hlength htidy _ ih =>
    by_cases hl : ∃ t ∈ l, t.references id = true
    · obtain ⟨t, ht, href⟩ := hl
      exact Or.inl (Registry.references_allOf htidy ht href)
    · refine Or.inr (.intersection hnode hlength htidy fun p hp => (ih p hp).resolve_left fun href => ?_)
      exact hl ⟨p.1, (List.of_mem_zip hp).1, href⟩

end RouteManifest
