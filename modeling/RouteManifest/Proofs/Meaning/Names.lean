import RouteManifest.Proofs.Meaning.Shapes
import RouteManifest.Proofs.Resolution.Beside

/-!
# A name and what it stands for

A declaration without parameters can be written out: its name and its body have one shape (`Catalog.shapeOf_name`), and
either both have a schema or neither has, that of the name being a `$ref` to that of the body
(`Resolver.Called.pointsTo`).

If the declaration is new, its expansion goes side by side with the resolution of its body outside of any
(`Runs.pointsTo_of_unknown`). If it is known, its body was resolved earlier, when everything that it mentions was
registered, so that it can be resolved again where everything is known (`Resolver.Derives`).
-/

namespace RouteManifest

variable {c : Catalog}

/-! ## Shapes

The search looks a name up in the file where it is written. If no two declarations have one name, it finds the same one
from every file. -/

namespace Catalog

section Nodup

variable (hc : (c.declarations.map Declaration.name).Nodup)
include hc

/-- With names that are not repeated, a name stands for the same declaration in every file. -/
theorem standsFor_unit {e : TypeExpr} {u : Path} {i : Fin c.size} (h : c.StandsFor (e, u) i) (v : Path) :
    c.StandsFor (e, v) i := by
  obtain ⟨name, args, hform, hi⟩ := h
  exact ⟨name, args, hform, (lookup?_eq hc name v u).trans hi⟩

/-- It does not matter in which files the expressions are written. -/
theorem anyStructured_unit {visited : List (Fin c.size)} {work work' : List (TypeExpr × Path)}
    (h : work'.map Prod.fst = work.map Prod.fst) : c.anyStructured visited work' = c.anyStructured visited work := by
  have split {e : TypeExpr} {unit : Path} {work work' : List (TypeExpr × Path)}
      (h : work'.map Prod.fst = ((e, unit) :: work).map Prod.fst) :
      ∃ v rest, work' = (e, v) :: rest ∧ rest.map Prod.fst = work.map Prod.fst := by
    obtain ⟨⟨e', v⟩, rest, rfl, rfl, hrest⟩ := List.map_eq_cons_iff.mp h
    exact ⟨v, rest, rfl, hrest⟩
  have hwithin (unit : Path) (l : List TypeExpr) : (within unit l).map Prod.fst = l := by
    rw [within, List.map_map]
    exact List.map_id l
  -- a name means the same in all files, so both searches go on in the same way
  induction visited, work using search_induction generalizing work' with
  | nil => rw [List.map_eq_nil_iff.mp h]
  | collection visited e unit work he =>
    obtain ⟨v, rest, rfl, -⟩ := split h
    rw [anyStructured_collection he, anyStructured_collection he]
  | union visited variants unit work ih =>
    obtain ⟨v, rest, rfl, hrest⟩ := split h
    rw [anyStructured_union, anyStructured_union]
    refine ih ?_
    rw [List.map_append, List.map_append, hwithin, hwithin, hrest]
  | again visited e unit work i hi hmem =>
    obtain ⟨v, rest, rfl, -⟩ := split h
    rw [anyStructured_named hi, anyStructured_named (standsFor_unit hc hi v), List.contains_iff_mem.mpr hmem,
      Bool.true_or, Bool.true_or]
  | name visited e unit work i hi _ ih =>
    obtain ⟨v, rest, rfl, hrest⟩ := split h
    have hbody : (((c.get i).body, (c.get i).location.unit) :: rest).map Prod.fst = _ := congrArg (List.cons _) hrest
    rw [anyStructured_named hi, anyStructured_named (standsFor_unit hc hi v), ih hbody]
  | scalar visited e unit work he hunion hname ih =>
    obtain ⟨v, rest, rfl, hrest⟩ := split h
    rw [anyStructured_scalar he hunion hname,
      anyStructured_scalar he hunion fun i hi => hname i (standsFor_unit hc hi unit), ih hrest]

/-- A declaration has the shape of its body, wherever the two are written. -/
theorem shapeOf_name (i : Fin c.size) (u v : Path) :
    c.shapeOf (.reference (c.get i).name) u = c.shapeOf (c.get i).body v := by
  rw [shapeOf_of_standsFor ⟨_, _, rfl, lookup?_name hc i u⟩, shapeOf, shapeOf]
  have hunit : c.anyStructured [] [((c.get i).body, (c.get i).location.unit)] =
      c.anyStructured [] [((c.get i).body, v)] := anyStructured_unit hc rfl
  rw [hunit]

end Nodup

end Catalog

/-! ## Schemas

Two resolutions are compared that start from the same state: that of the name, which reserves an id first and fills it
in the end, and that of the body. They go side by side as long as nothing that the body mentions takes that id. -/

/-- One outcome is a `$ref` to a schema of the shape that the other one is, or both are faults. -/
inductive Registry.PointsTo (r : Registry) : Except Fault Schema → Except Fault Schema → Prop where
  | schema {id : String} {s t : Schema} : r.get? id = some t → t.canonical = s.canonical →
      PointsTo r (.ok (.reference id)) (.ok s)
  | fault {f f' : Fault} : PointsTo r (.error f) (.error f')

/-- Resolving the one expression comes to a `$ref` to what resolving the other one comes to. -/
def Resolver.PointsTo (r : Resolver c) (origin : Location) (e e' : TypeExpr) : Prop :=
  ((resolve e origin).run r).2.registry.PointsTo ((resolve e origin).run r).1 ((resolve e' origin).run r).1

/-- A registry with one more reserved id is beside the registry without it. -/
theorem Registry.beside_reserve {r : Registry} {name : String} (hnew : r.slots.find? (r.reserve name false).1 = none) :
    (r.reserve name false).2.Beside (r.reserve name false).1 r := by
  rcases r.reserve_cases name false with ⟨-, h, -⟩ | ⟨-, -, h⟩
  · cases h
  · rw [h]
    refine ⟨fun id hid => ?_, rfl, ⟨_, Table.find?_insert_self _ _ _⟩, hnew⟩
    rw [Table.find?_insert_of_ne _ _ (Ne.symm hid)]

/-- Without arguments nothing is bound. -/
theorem Declaration.scope_nil (d : Declaration) : d.scope [] = [] := by
  rw [scope, List.zip_nil_right]
  rfl

/-- An alias is a declaration that neither has parameters nor insists on an id. -/
structure Declaration.IsAlias (d : Declaration) : Prop where
  typeParams : d.typeParams = []
  externalId : d.externalId = none

section Alias

variable {i : Fin c.size} (hi : (c.get i).IsAlias)

/-- Nobody insists on the id of an alias. -/
theorem Declaration.IsAlias.isExplicit {d : Declaration} (h : d.IsAlias) :
    (d.externalId.isSome && ([] : List Schema).isEmpty) = false := by
  rw [h.externalId]
  rfl

include hi

/-- The id of an alias is made up, and new. -/
theorem Resolver.expansionId_alias (r : Resolver c) :
    (c.get i).MakesUp (r.expansionId i []) ∧ r.registry.slots.find? (r.expansionId i []) = none := by
  have hlength : ([] : List Schema).length = (c.get i).typeParams.length := (congrArg List.length hi.typeParams).symm
  rcases expansionId_cases r hlength with ⟨-, h⟩ | ⟨hmade, -, hnew⟩
  · rw [hi.isExplicit] at h
    cases h
  · exact ⟨hmade, hnew⟩

/-- The resolver in which an alias has begun is beside the resolver before. -/
theorem Resolver.beside_opened {r : Resolver c} (hr : r.registry.Sound) :
    (r.opened i []).Beside i (r.expansionId i []) r where
  registry := by
    have hnew := (r.expansionId_alias hi).2
    rw [Resolver.expansionId] at hnew
    rw [Resolver.opened, Resolver.expansionId]
    simp only [hi.isExplicit] at hnew ⊢
    exact Registry.beside_reserve hnew
  sound := hr.opened i []
  sound' := hr
  known := fun _ _ => rfl

end Alias

/-- No schema is given to the body of a declaration that has no arguments. -/
theorem Task.forall_inputs_ofBody (i : Fin c.size) {P : Schema → Prop} : ∀ s ∈ (Task.ofBody i [] : Task c).inputs, P s :=
  fun _ hs => absurd (Declaration.mem_of_mem_scope hs) List.not_mem_nil

/-- What is reserved, and not insisted on, is filled. -/
theorem Registry.exists_fill_of_reserved {r : Registry} (hr : r.Sound) (htidy : r.Tidy) {own : String}
    {explicit : Bool} {order : Nat} (held : r.slots.find? own = some (.reserved explicit order)) {schema : Schema}
    (hschema : schema.Tidy) (owner : Location) :
    ∃ id t, (r.fill own schema owner).1 = .ok id ∧ (r.fill own schema owner).2.get? id = some t ∧
      t.canonical = schema.canonical := by
  rcases hfill : (r.fill own schema owner).1 with fault | id
  · rcases r.fill_cases own schema owner with ⟨_, -, hno⟩ | ⟨_, -, -, hf⟩ | ⟨_, _, -, -, -, -, hf⟩ | ⟨_, _, -, hf⟩
    · exact absurd ⟨explicit, order, held⟩ hno
    all_goals
      rw [hf] at hfill
      cases hfill
  · obtain ⟨t, ht, hshape⟩ := Registry.exists_shape_of_fill hr htidy hschema hfill
    exact ⟨id, t, rfl, ht, hshape⟩

section Unknown

variable {i : Fin c.size} {r r' : Resolver c} {origin : Location}

/-- Wherever the body of a declaration is written, it comes to what the declaration leads to. -/
theorem Task.ComesTo.leads (hc : (c.declarations.map Declaration.name).Nodup) {j : Fin c.size}
    (h : (Task.node [] origin (c.get i).body : Task c).ComesTo j) : c.Leads i j := by
  obtain ⟨k, ⟨x, name, args, unit, ⟨hx, rfl⟩, hform, hk⟩, huses⟩ := h
  exact .head' ⟨x, name, args, hx, hform, (Catalog.lookup?_eq hc name _ _).trans hk⟩ huses

/-- An alias that is not known is answered with a `$ref` to the schema that its body has where the alias is written, if
nothing in it takes the id of the alias. -/
theorem Runs.pointsTo_of_unknown (hc : (c.declarations.map Declaration.name).Nodup) (hi : (c.get i).IsAlias)
    (hself : ¬c.Leads i i) (hr : r.registry.Sound) (htidy : r.registry.Tidy) (hknown : r.id? (c.identity i []) = none)
    (havoids : ∀ m, (Moment.call (c.get i).body origin r).Within m → m.Avoids (r.expansionId i []))
    {out : Except Fault Schema} (h : Runs {} (.node [] origin (c.get i).body) r out r') (name : String) :
    ∃ (out' : Except Fault Schema) (q : Resolver c), Runs {} (.apply name i [] origin) r out' q ∧
      q.registry.PointsTo out' out := by
  -- nothing in the body comes to the alias or takes its id, so it is resolved as if the alias were not pending
  obtain ⟨q, hbeside, hq⟩ := h.beside
    (fun m hm => ⟨fun h => hself ((Moment.comesTo_of_within hm h).leads hc), havoids m hm⟩)
    (Pending.beside_push i {} (r.expansionId i [])) (Resolver.beside_opened hi hr)
  have hmoved : ∃ out' : Except Fault Schema,
      Runs (({} : Pending c).push (c.identity i []) (r.expansionId i [])) (.ofBody i []) (r.opened i []) out' q ∧
        out'.toOption = out.toOption := by
    show ∃ out' : Except Fault Schema, Runs _ (.node ((c.get i).scope []) _ _) _ out' _ ∧ _
    rw [Declaration.scope_nil]
    exact hbeside.moved_node fun name => Catalog.lookup?_eq hc name _ _
  obtain ⟨out', hbody, hout⟩ := hmoved
  have hdepth : ¬(([] : List Schema) ≠ [] ∧ maxGenericDepth ≤ ({} : Pending c).depth) := fun h => h.1 rfl
  rcases out' with fault | s
  · rcases out with fault' | s'
    · exact ⟨_, _, .expandedFault rfl hknown hdepth hbody, .fault⟩
    · cases hout
  · rcases out with fault' | s'
    · cases hout
    · cases hout
      obtain ⟨htidy', hs⟩ := hbody.tidy rfl (hr.opened i []) (htidy.opened i []) (Task.forall_inputs_ofBody i)
      obtain ⟨order, hslot⟩ := hq.registry.reserved
      obtain ⟨id, t, hfill, ht, hshape⟩ := Registry.exists_fill_of_reserved hq.sound htidy' hslot
        (hs s List.mem_cons_self) (c.get i).location
      refine ⟨_, _, .expanded rfl hknown hdepth hbody, ?_⟩
      rw [hfill]
      exact .schema ht hshape

end Unknown

/-! ### What is known

A known alias was expanded at some earlier time. Its body derives the id from then on, since no later task takes away
what the body needs. -/

/-- The body of a declaration without arguments was resolved when all that it mentions was known, and an id has a schema
of the shape that came out. -/
def Resolver.Derives (r : Resolver c) (i : Fin c.size) (id : String) : Prop :=
  ∃ q s t, Recorded {} q ∧ q.Backed ∧ q.LastsIn r ∧ Runs {} (.ofBody i []) q (.ok s) q ∧
    r.registry.get? id = some t ∧ t.canonical = s.canonical

/-- What is derived stays derived where no less is known. -/
theorem Resolver.Derives.mono {r r' : Resolver c} {i : Fin c.size} {id : String} (h : r.Derives i id)
    (hlasts : r.LastsIn r') : r'.Derives i id := by
  obtain ⟨q, s, t, hq, hbacked, hqlasts, hrun, ht, hshape⟩ := h
  exact ⟨q, s, t, hq, hbacked, hqlasts.trans hlasts, hrun, hlasts.registered id t ht, hshape⟩

/-- Giving back an id loses nothing that is known. -/
theorem Resolver.lastsIn_released {r : Resolver c} (hr : r.registry.Sound) (id : String) : r.LastsIn (r.released id) :=
  ⟨fun _ _ h => h, fun _ _ h => (Registry.get?_release hr.names_nodup id).trans h⟩

/-- Every task that starts within another one is applied to as many arguments as it takes, if that one is. -/
theorem Moment.applied_of_within {m m' : Moment c} (h : m.Within m') (hm : m.task.Applied) : m'.task.Applied := by
  refine h.invariant (P := fun m => m.task.Applied) (fun {m m'} _ hstarts => ?_) hm
  cases hstarts with
  | apply _ _ hi hargs => exact hargs.length_eq.trans (Catalog.applied_eq_ok.mp hi).2.symm
  | _ => trivial

/-- An id that nobody insists on is not taken from what is waiting to be filled. -/
theorem Moment.spares_of_applied {m : Moment c} (hm : m.task.Applied) {id : String}
    (hid : ∀ j, ¬(c.get j).InsistsOn id) : m.Spares id := by
  obtain ⟨p, t, r⟩ := m
  rintro name j args origin rfl - - rfl explicit order hslot
  have hlength : args.length = (c.get j).typeParams.length := hm
  rcases expansionId_cases r hlength with ⟨hinsists, -⟩ | ⟨-, -, hnew⟩
  · exact hid j hinsists
  · rw [hnew] at hslot
    cases hslot

/-- An id is not taken if no declaration that is come to can have it. -/
theorem Moment.avoids_of_within {m m' : Moment c} (h : m.Within m') (hm : m.task.Applied) {id : String}
    (hid : ∀ j, m.task.ComesTo j → ¬(c.get j).CanHave id) : m'.Avoids id := by
  intro name j args origin htask _ _ heq
  have happlied := applied_of_within h hm
  have hcomes : m'.task.ComesTo j := htask ▸ ⟨j, rfl, .refl⟩
  rw [htask] at happlied
  exact hid j (comesTo_of_within h hcomes) (heq ▸ (expansionId_asks m'.resolver happlied).insistsOn_or_makesUp)

/-- The id of an alias is still reserved when its body has been resolved, if nobody insists on it. -/
theorem Runs.reserved_of_alias {i : Fin c.size} {p : Pending c} {r r' : Resolver c} {out : Except Fault Schema}
    (hi : (c.get i).IsAlias) (hid : ∀ j id, (c.get i).MakesUp id → ¬(c.get j).InsistsOn id)
    (hbody : Runs p (.ofBody i []) (r.opened i []) out r') : r'.registry.slots.find? (r.expansionId i []) =
      some (.reserved ((c.get i).externalId.isSome && ([] : List Schema).isEmpty) r.registry.nextOrder) := by
  obtain ⟨hmade, hnew⟩ := r.expansionId_alias hi
  have hinsists (j : Fin c.size) : ¬(c.get j).InsistsOn (r.expansionId i []) := hid j _ hmade
  exact hbody.reserved_lasts
    (fun m hm => Moment.spares_of_applied (Moment.applied_of_within hm trivial) hinsists) (find?_opened hnew)

/-- Nothing that a body mentions is pending, since all that is pending leads to its declaration. -/
theorem Pending.LeadTo.id?_push_of_mentions {p : Pending c} {name : String} {i : Fin c.size} {origin : Location}
    (hlead : p.LeadTo (.apply name i [] origin)) (hself : ¬c.Leads i i) {id : String} {j : Fin c.size}
    (hj : (Task.ofBody i [] : Task c).Mentions j) {args : List Schema} :
    (p.push (c.identity i []) id).id? (c.identity j args) = none := by
  rw [Option.eq_none_iff_forall_ne_some]
  intro other hother
  rcases List.mem_cons.mp (Pending.mem_of_id? hother) with heq | hentry
  · obtain ⟨rfl, -⟩ := Identity.mk.inj (Prod.mk.inj heq).1
    exact hself (.single hj.uses)
  · exact hself (.head hj.uses (hlead.mentions _ hentry i rfl))

/-! ### A known alias

Every call keeps that an alias which is known has its body derived, so that name and body can be compared at any later
call. -/

section Known

variable {i : Fin c.size} (hi : (c.get i).IsAlias) (hself : ¬c.Leads i i)
  (hid : ∀ j id, (c.get i).MakesUp id → ¬(c.get j).InsistsOn id)
include hi hself hid

/-- The expansion of an alias ends with an id that its body derives. -/
theorem Runs.derives_filled {p : Pending c} {name : String} {origin : Location} {r r' : Resolver c} {body : Schema}
    (hlead : p.LeadTo (.apply name i [] origin)) (hr : Recorded p r) (hbacked : r.Backed) (htidy : r.registry.Tidy)
    (hknown : r.id? (c.identity i []) = none)
    (hbody : Runs (p.push (c.identity i []) (r.expansionId i [])) (.ofBody i []) (r.opened i []) (.ok body) r')
    {id : String} (h : (r'.filled (c.identity i []) (r.expansionId i []) body (c.get i).location).id? (c.identity i []) =
      some id) : (r'.filled (c.identity i []) (r.expansionId i []) body (c.get i).location).Derives i id := by
  have hopened := hr.opened i [] hknown
  have hr' := hbody.recorded hopened
  obtain ⟨htidy', hs⟩ := hbody.tidy rfl hopened.sound (htidy.opened i []) (Task.forall_inputs_ofBody i)
  obtain ⟨final, t, hfill, ht, hshape⟩ := Registry.exists_fill_of_reserved hr'.sound htidy'
    (hbody.reserved_of_alias hi hid) (hs body List.mem_cons_self) (c.get i).location
  rw [Resolver.id?_filled_self, hfill] at h
  obtain rfl : final = id := Option.some.inj h
  -- where all is known the body can be resolved once more
  have hrun : Runs {} (.ofBody i []) r' (.ok body) r' ∧ _ :=
    hbody.again_within rfl hopened (hbacked.opened i []) (.refl r') (fun j hj args => by
      rw [hlead.id?_push_of_mentions hself hj]
      exact ⟨rfl, nofun⟩) (Task.forall_inputs_ofBody i)
  exact ⟨r', body, t, ⟨hr'.sound, fun _ _ _ => rfl, hr'.named⟩, hbody.backed rfl hopened.sound (hbacked.opened i []),
    hr'.lastsIn_filled _ _, hrun.1, ht, hshape⟩

/-- If an alias is known by an id that its body derives, it is so after any task. -/
theorem Runs.derives {p : Pending c} {t : Task c} {r r' : Resolver c} {out : Except Fault t.Answer}
    (h : Runs p t r out r') (hlead : p.LeadTo t) (hr : Recorded p r) (hbacked : r.Backed)
    (htidy : r.registry.Tidy) (hin : ∀ s ∈ t.inputs, s.Tidy)
    (hderives : ∀ id, r.id? (c.identity i []) = some id → r.Derives i id) :
    ∀ id, r'.id? (c.identity i []) = some id → r'.Derives i id := by
  induction h with
  | cons hhead _ ihHead ihTail | consTail hhead _ ihHead ihTail =>
    obtain ⟨htidy', -⟩ := hhead.tidy rfl hr.sound htidy hin
    exact ihTail hlead.tail (hhead.recorded hr) (hhead.backed rfl hr.sound hbacked) htidy' hin
      (ihHead hlead.head hr hbacked htidy hin hderives)
  | consHead _ ih => exact ih hlead.head hr hbacked htidy hin hderives
  | built he _ ih | builtFault he _ ih =>
    exact ih (hlead.list fun _ ha _ hx => .part he ha hx) hr hbacked htidy hin hderives
  | named he _ hj hargs _ ihArgs ihName =>
    obtain ⟨hlookup, -⟩ := Catalog.applied_eq_ok.mp hj
    obtain ⟨htidy', hl⟩ := hargs.tidy rfl hr.sound htidy hin
    exact ihName (hlead.apply he hlookup _) (hargs.recorded hr)
      (hargs.backed rfl hr.sound hbacked) htidy' hl
      (ihArgs (hlead.list fun _ ha _ hx => .arg he ha hx) hr hbacked htidy hin hderives)
  | namedFault he _ _ _ ih =>
    exact ih (hlead.list fun _ ha _ hx => .arg he ha hx) hr hbacked htidy hin hderives
  | @expanded p name j args origin r body r' _ hknown _ hbody ih =>
    have hopened := hr.opened j args hknown
    -- either it is the alias that has been expanded, or what is known of the alias was known at the end of the body
    by_cases hidentity : c.identity i [] = c.identity j args
    · obtain ⟨rfl, hnil⟩ := Identity.mk.inj hidentity
      obtain rfl := List.map_eq_nil_iff.mp hnil.symm
      exact fun id h => Runs.derives_filled hi hself hid hlead hr hbacked htidy hknown hbody h
    · intro id h
      rw [Resolver.id?_filled_of_ne hidentity] at h
      refine (ih (hlead.push _) hopened (hbacked.opened j args) (htidy.opened j args)
        (fun s hs => hin s (Declaration.mem_of_mem_scope hs)) (fun id h => ?_) id h).mono
        ((hbody.recorded hopened).lastsIn_filled _ _)
      exact (hderives id h).mono ⟨fun _ _ h => h, fun _ _ h => (Resolver.get?_opened _ _ _ _).trans h⟩
  | @expandedFault p name j args origin r fault r' _ hknown _ hbody ih =>
    have hopened := hr.opened j args hknown
    intro id h
    refine (ih (hlead.push _) hopened (hbacked.opened j args) (htidy.opened j args)
      (fun s hs => hin s (Declaration.mem_of_mem_scope hs)) (fun id h => ?_) id h).mono
      (Resolver.lastsIn_released (hbody.recorded hopened).sound _)
    exact (hderives id h).mono ⟨fun _ _ h => h, fun _ _ h => (Resolver.get?_opened _ _ _ _).trans h⟩
  | _ => exact hderives

/-- In the course of calls that do not corrupt the registry an alias is known by an id that its body derives. -/
theorem Resolver.Called.derives {r : Resolver c} (hr : r.Called Intact) :
    ∀ id, r.id? (c.identity i []) = some id → r.Derives i id := by
  induction hr with
  | fresh => exact nofun
  | call hr hrun _ ih =>
    have hrun' : Runs {} (.node [] _ _) _ _ _ := runs_iff.mpr hrun
    exact hrun'.derives hi hself hid (Pending.leadTo_empty _) hr.recorded hr.backed
      (inherited_tidy.called hr).registered nofun ih

/-- The name of an alias is answered with a `$ref` to the schema that its body has, or both fail. Nothing in the body
may take the id that an alias would get which is not known yet. -/
theorem Resolver.Called.pointsTo (hc : (c.declarations.map Declaration.name).Nodup) {r : Resolver c}
    (hr : r.Called Intact) {origin : Location} (hfree : r.id? (c.identity i []) = none →
      ∀ m, (Moment.call (c.get i).body origin r).Within m → m.Avoids (r.expansionId i [])) :
    r.PointsTo origin (.reference (c.get i).name) (c.get i).body := by
  have happlied : c.applied (c.get i).name 0 origin = .ok i :=
    Catalog.applied_eq_ok.mpr ⟨Catalog.lookup?_name hc i _, congrArg List.length hi.typeParams⟩
  have hname {out : Except Fault Schema} {q : Resolver c} (h : Runs {} (.apply (c.get i).name i [] origin) r out q) :
      (resolve (.reference (c.get i).name) origin).run r = (out, q) :=
    (Runs.named rfl (fun _ => rfl) happlied .nil h : Runs {} (.node [] origin (.reference (c.get i).name)) r out q).eq
  rcases hknown : r.id? (c.identity i []) with _ | id
  · obtain ⟨out, q, hrun, hpoints⟩ := (Task.runs {} (.node [] origin (c.get i).body) r).pointsTo_of_unknown hc hi hself
      hr.recorded.sound (inherited_tidy.called hr).registered hknown (hfree hknown) (c.get i).name
    rw [Resolver.PointsTo, hname hrun]
    exact hpoints
  · obtain ⟨q, s, t, hq, hbacked, hlasts, hderived, ht, hshape⟩ := hr.derives hi hself hid id hknown
    have hagain : Runs {} (.ofBody i []) r (.ok s) r :=
      (hderived.again_within rfl hq hbacked hlasts (fun _ _ _ => ⟨rfl, nofun⟩)
        (Task.forall_inputs_ofBody i)).1
    have hmoved : ∃ out : Except Fault Schema, Runs {} (.node ((c.get i).scope []) origin (c.get i).body) r out r ∧
        out.toOption = some s := hagain.moved_node fun name => Catalog.lookup?_eq hc name _ _
    rw [Declaration.scope_nil] at hmoved
    obtain ⟨fault | s', hbody, hs'⟩ := hmoved
    · cases hs'
    · cases hs'
      have hbody' : (resolve (c.get i).body origin).run r = (.ok s, r) := hbody.eq
      rw [Resolver.PointsTo, hname (.known rfl hknown), hbody']
      exact .schema ht hshape

end Known

end RouteManifest
