import RouteManifest.Proofs.Resolution.Steady

/-!
# The order of discovery

Which declaration a route mentions first decides which id a declaration gets, and what is filled when unions and
intersections are put together inside a cycle. Both can be seen in the schemas: a union has no discriminator while one of
its alternatives is still being resolved, and of two declarations with equal schemas the one that is filled first gives
its schema to both, unless the other is pointed at already.

These are the only ways. If the same calls are made in two orders, and are steady in both (`Catalog.Steady`), with the
same declarations sharing ids (`Naming.Alike`), then whatever the one order leaves is what the other order leaves, with
other ids (`Runs.renamed`). The proof follows a run of the one and finds a run of the other for each of its tasks: the
task's own, or where the other order has resolved the declaration before, the run that did. So schemas have the same
discriminators (`discriminators_agree`).
-/

namespace RouteManifest

variable {c : Catalog}

/-! ## Tasks with other ids

The other order resolves the same expressions, but the schemas that it has in scope and gives as arguments have other
ids in them. So a task is followed by the task with renamed ids. -/

/-- Inside a declaration the parameters stand for renamed arguments if it is applied to such. -/
theorem Declaration.scope_mapRefs (d : Declaration) (f : String → String) (args : List Schema) :
    d.scope (args.map (Schema.mapRefs f)) = (d.scope args).mapValues (Schema.mapRefs f) := by
  rw [scope, scope, List.zip_map_right, ← Table.ofEntries_mapValues]
  rfl

/-- The task with the ids in what it is given renamed. -/
def Task.mapRefs (f : String → String) : Task c → Task c
  | .node scope origin e => .node (scope.mapValues (Schema.mapRefs f)) origin e
  | .list scope origin es => .list (scope.mapValues (Schema.mapRefs f)) origin es
  | .apply name i args origin => .apply name i (args.map (Schema.mapRefs f)) origin

/-- Where a declaration is applied to renamed arguments, its body is resolved with them. -/
theorem Catalog.Expands.exists_run {calls : List (TypeExpr × Location)} {i : Fin c.size} {f : String → String}
    {args : List Schema} {s : Schema} (h : c.Expands calls i (args.map (Schema.mapRefs f)) s) :
    ∃ p q q', ({} : Resolver c).Passes calls ⟨p, (Task.ofBody i args).mapRefs f, q⟩ ∧
      Runs p ((Task.ofBody i args).mapRefs f) q (.ok s) q' := by
  rw [Expands] at h
  dsimp only [Task.ofBody] at h
  rwa [Declaration.scope_mapRefs] at h

namespace Catalog

/-- An id of an instantiation that is known after both lists of calls. -/
def Common (c : Catalog) (calls calls' : List (TypeExpr × Location)) (id : String) : Prop :=
  ∃ id', (c.Knows calls).Matches (c.Knows calls') id id'

/-- Whatever is registered in the course of the first calls is registered after the others as well, with other ids. -/
def Carries (c : Catalog) (calls calls' : List (TypeExpr × Location)) (f : String → String) (r : Registry) : Prop :=
  ∀ id s, r.get? id = some s → c.Common calls calls' id ∧ s.Over (c.Common calls calls') ∧
    (({} : Resolver c).after calls').registry.get? (f id) = some (s.mapRefs f)

namespace Carries

variable {calls calls' : List (TypeExpr × Location)} {f : String → String} {r : Resolver c}

theorem opened (h : c.Carries calls calls' f r.registry) (i : Fin c.size) (args : List Schema) :
    c.Carries calls calls' f (r.opened i args).registry := by
  intro id s hs
  rw [Resolver.get?_opened] at hs
  exact h id s hs

/-- An expansion that ends brings its own entry along, if that of the other calls is the renamed one. -/
theorem filled (h : c.Carries calls calls' f r.registry) (hr : r.registry.Sound) {identity : Identity c}
    {reserved id : String} {body : Schema} {owner : Location}
    (hfill : (r.registry.fill reserved body owner).1 = .ok id) (hid : c.Common calls calls' id)
    (hbody : body.Over (c.Common calls calls'))
    (hget : (({} : Resolver c).after calls').registry.get? (f id) = some (body.mapRefs f)) :
    c.Carries calls calls' f (r.filled identity reserved body owner).registry := by
  intro other s hs
  rcases Registry.get?_fill hr.names_nodup hs with hs | ⟨rfl, rfl, hfill'⟩
  · exact h other s hs
  · obtain rfl := Except.ok.inj (hfill'.symm.trans hfill)
    exact ⟨hid, hbody, hget⟩

theorem tidy (h : c.Carries calls calls' f r.registry) : r.registry.Tidy := fun id s hs => (h id s hs).2.1.tidy

/-- What is seen in a schema has ids that are known after both. -/
theorem objectView? (h : c.Carries calls calls' f r.registry) {s object : Schema}
    (hs : s.Over (c.Common calls calls')) (hview : r.registry.objectView? s = some object) :
    object.Over (c.Common calls calls') := by
  obtain ⟨-, ⟨-, rfl⟩ | ⟨id, -, hget⟩⟩ := Registry.objectView?_eq_some.mp hview
  · exact hs
  · exact (h id object hget).2.1

end Carries

end Catalog

/-! ## Following a run

`Renames` is what is shown of a task and its renamed companion: their answers correspond, and so does whatever was
registered meanwhile. It says nothing of the state of the other calls; only what is known after all of them counts. -/

/-- A task and the task with renamed ids end alike: the answer to the one is the renamed answer to the other, and whatever is
registered when the one ends is carried over. -/
structure Renames (calls calls' : List (TypeExpr × Location)) (f : String → String) (t : Task c) (answer : t.Answer)
    (r : Resolver c) (answer' : (t.mapRefs f).Answer) : Prop where
  carries : c.Carries calls calls' f r.registry
  common : ∀ s ∈ t.outputs answer, s.Over (c.Common calls calls')
  renamed : (t.mapRefs f).outputs answer' = (t.outputs answer).map (Schema.mapRefs f)

namespace Renames

variable {calls calls' : List (TypeExpr × Location)} {f : String → String} {scope : Table Schema} {origin : Location}
  {r r' : Resolver c}

/-- Several expressions are renamed one after the other. -/
theorem cons {e : TypeExpr} {es : List TypeExpr} {s s' : Schema} {l l' : List Schema}
    (hhead : Renames calls calls' f (.node scope origin e) s r s')
    (htail : Renames calls calls' f (.list scope origin es) l r' l') :
    Renames calls calls' f (.list scope origin (e :: es)) (s :: l) r' (s' :: l') where
  carries := htail.carries
  common := List.forall_mem_cons.mpr ⟨hhead.common _ List.mem_cons_self, htail.common⟩
  renamed := congrArg₂ (· ++ ·) hhead.renamed htail.renamed

/-- A declaration that is known to both is answered with an id of it. -/
theorem reference {name : String} {i : Fin c.size} {args : List Schema} {id : String}
    (hr : c.Carries calls calls' f r.registry) (hid : c.Common calls calls' id) :
    Renames calls calls' f (.apply name i args origin) (.reference id) r (.reference (f id)) where
  carries := hr
  common := List.forall_mem_singleton.mpr ⟨Schema.tidy_reference id, Schema.closed_reference hid⟩
  renamed := by
    show [Schema.reference (f id)] = [Schema.reference id].map (Schema.mapRefs f)
    rw [List.map_singleton, Schema.mapRefs_reference]

end Renames

section Renaming

variable {calls calls' : List (TypeExpr × Location)} {f g : String → String}
  (h : c.Steady calls) (h' : c.Steady calls')
include h h'

/-- What is seen in the parts of a union or an intersection is seen in the renamed parts as well. -/
theorem Runs.seesRenamed {p p' : Pending c} {scope : Table Schema} {origin : Location} {e : TypeExpr}
    {parts : List TypeExpr} {build : Registry → List Schema → Schema} (he : e.form = .built parts build) (hlooks : e.Looks)
    {r r' q q' : Resolver c} {l : List Schema} (hrun : Runs p (.list scope origin parts) r (.ok l) r')
    (hpasses : ({} : Resolver c).Passes calls ⟨p, .node scope origin e, r⟩)
    (hr' : c.Carries calls calls' f r'.registry)
    (hrun' : Runs p' (.list (scope.mapValues (Schema.mapRefs f)) origin parts) q (.ok (l.map (Schema.mapRefs f))) q')
    (hpasses' : ({} : Resolver c).Passes calls' ⟨p', .node (scope.mapValues (Schema.mapRefs f)) origin e, q⟩) :
    r'.registry.SeesRenamed q'.registry f l := by
  have hlasts := (h'.succeeds.onCourse recorded_empty (hpasses'.starts (.parts he))).lasts hrun'
  intro s hs
  rw [Registry.objectView?, Registry.objectView?, Schema.refId?_mapRefs]
  rcases hid : s.refId? with _ | id
  · simp [Schema.isObject_mapRefs]
  · -- it is filled in both when the parts are put together, and there it is what it is in the end
    obtain ⟨t, ht⟩ := h.anchored _ hpasses scope origin e parts build l r' rfl he hlooks hrun s hs id hid
    obtain ⟨t', ht'⟩ := h'.anchored _ hpasses' _ origin e parts build _ q' rfl he hlooks hrun' (s.mapRefs f)
      (List.mem_map_of_mem hs) (f id) (by rw [Schema.refId?_mapRefs, hid]; rfl)
    obtain ⟨-, -, hcarried⟩ := hr' id t ht
    obtain rfl := Option.some.inj (hcarried.symm.trans (hlasts.registered _ _ ht'))
    simp [ht, ht', Schema.isObject_mapRefs]

variable (hf : ∀ id id', (c.Knows calls).Matches (c.Knows calls') id id' → f id = id' ∧ g id' = id)
include hf

/-- Where a declaration is applied to renamed arguments, both answer with ids of it. -/
theorem Runs.apply_renamed {p p' : Pending c} {name : String} {i : Fin c.size} {args : List Schema} {origin : Location}
    {r r' q q' : Resolver c} {out out' : Except Fault Schema} {s s' : Schema}
    (hrun : Runs p (.apply name i args origin) r out r') (hout : out = .ok s)
    (hpasses : ({} : Resolver c).Passes calls ⟨p, .apply name i args origin, r⟩)
    (hin : ∀ t ∈ args, t.Over (c.Common calls calls'))
    (hrun' : Runs p' (.apply name i (args.map (Schema.mapRefs f)) origin) q out' q') (hout' : out' = .ok s')
    (hpasses' : ({} : Resolver c).Passes calls' ⟨p', .apply name i (args.map (Schema.mapRefs f)) origin, q⟩) :
    ∃ id, s = .reference id ∧ s' = .reference (f id) ∧ c.Common calls calls' id ∧
      c.Knows calls' i (args.map (Schema.mapRefs f)) (f id) := by
  obtain ⟨id, rfl, -⟩ := hrun.exists_id hout
  obtain ⟨id', rfl, -⟩ := hrun'.exists_id hout'
  subst hout hout'
  have hknows : c.Knows calls i args id :=
    ⟨⟨_, name, origin, hpasses, rfl⟩, h.kept _ hpasses name i args origin id r' rfl hrun⟩
  have hknows' : c.Knows calls' i (args.map (Schema.mapRefs f)) id' :=
    ⟨⟨_, name, origin, hpasses', rfl⟩, h'.kept _ hpasses' name i _ origin id' q' rfl hrun'⟩
  -- the ids in the arguments match, and so do the ids of the declaration applied to them
  have hmatches : (c.Knows calls).Matches (c.Knows calls') id id' := by
    refine .mk f hknows hknows' fun t ht k hk => ?_
    obtain ⟨k', hmatches⟩ := (hin t ht).ids k hk
    exact (hf k k' hmatches).1 ▸ hmatches
  obtain ⟨rfl, -⟩ := hf id id' hmatches
  exact ⟨id, rfl, rfl, ⟨_, hmatches⟩, hknows'⟩

omit h h' in
/-- An id that is known after both calls is found again. -/
theorem inverse_of_common {id : String} (hid : c.Common calls calls' id) : g (f id) = id := by
  obtain ⟨id', hmatches⟩ := hid
  rw [(hf id id' hmatches).1, (hf id id' hmatches).2]

/-! ### One step

One lemma for each rule that does something: putting parts together, and expanding a declaration. The first needs that
objects are seen on both sides, and the second that the entry has the same schema on both sides. -/

/-- Renamed parts are put together to the renamed schema. -/
theorem Runs.renames_built {p p' : Pending c} {scope : Table Schema} {origin : Location} {e : TypeExpr}
    {parts : List TypeExpr} {build : Registry → List Schema → Schema} (he : e.form = .built parts build)
    {r r' q q' : Resolver c} {l l' : List Schema} (hparts : Runs p (.list scope origin parts) r (.ok l) r')
    (hpasses : ({} : Resolver c).Passes calls ⟨p, .node scope origin e, r⟩)
    (hparts' : Runs p' (.list (scope.mapValues (Schema.mapRefs f)) origin parts) q (.ok l') q')
    (hpasses' : ({} : Resolver c).Passes calls' ⟨p', .node (scope.mapValues (Schema.mapRefs f)) origin e, q⟩)
    (hl : Renames calls calls' f (.list scope origin parts) l r' l') :
    Renames calls calls' f (.node scope origin e) (build r'.registry l) r' (build q'.registry l') := by
  obtain ⟨hr', hover, hanswer⟩ := hl
  obtain rfl : l' = l.map (Schema.mapRefs f) := hanswer
  have hlength := hparts.length_eq
  have hseen (s : Schema) (hs : s ∈ l) (object : Schema) (hview : r'.registry.objectView? s = some object) :
      object.Over (c.Common calls calls') :=
    hr'.objectView? (hover s hs) hview
  have hsees (hlooks : e.Looks) : r'.registry.SeesRenamed q'.registry f l :=
    Runs.seesRenamed h h' he hlooks hparts hpasses hr' hparts' hpasses'
  refine ⟨hr', List.forall_mem_singleton.mpr (TypeExpr.over_build he hlength hr'.tidy hover fun _ => hseen), ?_⟩
  exact congrArg (fun s => [s])
    (TypeExpr.build_mapRefs he hlength (fun _ => inverse_of_common hf) hover (fun _ => hseen) hsees)

/-- A declaration that is expanded brings its entry along. The others have resolved its body at some time, and what follows
that run is followed here. -/
theorem Runs.renames_expanded {p p' : Pending c} {name : String} {i : Fin c.size} {args : List Schema} {origin : Location}
    {r r' q q' : Resolver c} {body s : Schema} {out' : Except Fault Schema} {s' : Schema}
    (hp : p.id? (c.identity i args) = none) (hk : r.id? (c.identity i args) = none)
    (hd : ¬(args ≠ [] ∧ maxGenericDepth ≤ p.depth))
    (hbody : Runs (p.push (c.identity i args) (r.expansionId i args)) (.ofBody i args) (r.opened i args) (.ok body) r')
    (hout : referenceTo (r'.registry.fill (r.expansionId i args) body (c.get i).location).1 = .ok s)
    (hpasses : ({} : Resolver c).Passes calls ⟨p, .apply name i args origin, r⟩)
    (hin : ∀ t ∈ args, t.Over (c.Common calls calls'))
    (hrun' : Runs p' (.apply name i (args.map (Schema.mapRefs f)) origin) q out' q') (hout' : out' = .ok s')
    (hpasses' : ({} : Resolver c).Passes calls' ⟨p', .apply name i (args.map (Schema.mapRefs f)) origin, q⟩)
    (hfollows : ∀ {p' : Pending c} {q q' : Resolver c} {t : Schema},
      Runs p' ((Task.ofBody i args).mapRefs f) q (.ok t) q' →
      ({} : Resolver c).Passes calls' ⟨p', (Task.ofBody i args).mapRefs f, q⟩ →
      Renames calls calls' f (.ofBody i args) body r' t) :
    Renames calls calls' f (.apply name i args origin) s
      (r'.filled (c.identity i args) (r.expansionId i args) body (c.get i).location) s' := by
  obtain ⟨id, rfl, rfl, hid, hknows'⟩ :=
    Runs.apply_renamed h h' hf (.expanded hp hk hd hbody) hout hpasses hin hrun' hout' hpasses'
  obtain ⟨t, hexpands, hget⟩ := h'.own i _ _ hknows'
  obtain ⟨_, _, _, hpassesBody', hbody'⟩ := hexpands.exists_run
  obtain ⟨hr', hover, hanswer⟩ := hfollows hbody' hpassesBody'
  obtain rfl : t = body.mapRefs f := (List.cons.inj hanswer).1
  have hpassesBody := hpasses.starts (.body hp hk hd)
  have hsound := (h.succeeds.onCourse recorded_empty hpassesBody).recorded.sound.moves hbody.moves
  obtain ⟨final, hfinal, heq⟩ := referenceTo_eq_ok.mp hout
  obtain rfl := Schema.reference_inj heq
  exact .reference (hr'.filled hsound hfinal hid (hover _ List.mem_cons_self) hget) hid

/-! ### A whole run

The induction is on the first run, and it only hands the cases to the lemmas above. -/

/-- The task with renamed ids has the renamed answer, and what is registered meanwhile is registered there as well. Both runs
go the same way, but where a declaration is new to the one and known or pending to the other. -/
theorem Runs.renamed {p : Pending c} {t : Task c} {r r' : Resolver c} {out : Except Fault t.Answer}
    (hrun : Runs p t r out r') {answer : t.Answer} (hout : out = .ok answer)
    (hpasses : ({} : Resolver c).Passes calls ⟨p, t, r⟩) (hr : c.Carries calls calls' f r.registry)
    (hin : ∀ s ∈ t.inputs, s.Over (c.Common calls calls'))
    {p' : Pending c} {q q' : Resolver c} {out' : Except Fault (t.mapRefs f).Answer}
    (hrun' : Runs p' (t.mapRefs f) q out' q') {answer' : (t.mapRefs f).Answer} (hout' : out' = .ok answer')
    (hpasses' : ({} : Resolver c).Passes calls' ⟨p', t.mapRefs f, q⟩) : Renames calls calls' f t answer r' answer' := by
  -- the first run decides the rule; the other one has the same form, but is in a state of its own
  induction hrun generalizing p' q q' with
  | nil =>
    cases hout
    cases hrun' with
    | nil =>
      cases hout'
      exact ⟨hr, nofun, rfl⟩
  | cons hhead htail ihHead ihTail =>
    cases hout
    cases hrun' with
    | cons hhead' htail' =>
      cases hout'
      have hs := ihHead rfl (hpasses.starts .head) hr hin hhead' rfl (hpasses'.starts .head)
      exact hs.cons (ihTail rfl (hpasses.starts (.tail hhead)) hs.carries hin htail' rfl
        (hpasses'.starts (.tail hhead')))
    | consHead | consTail => cases hout'
  | @built p scope origin e parts build r l r' he hparts ih =>
    cases hout
    obtain ⟨l', hparts', rfl⟩ := hrun'.of_built hout' he
    exact Runs.renames_built h h' hf he hparts hpasses hparts' hpasses'
      (ih rfl (hpasses.starts (.parts he)) hr hin hparts' rfl (hpasses'.starts (.parts he)))
  | @bound p scope origin e name r s he hs =>
    cases hout
    have hfind : Table.find? (scope.mapValues (Schema.mapRefs f)) name = some (s.mapRefs f) := by
      rw [Table.find?_mapValues, hs]
      rfl
    obtain rfl := hrun'.of_bound hout' he hfind
    exact ⟨hr, List.forall_mem_singleton.mpr (hin s (List.mem_map_of_mem (f := Prod.snd) (Table.mem_of_find? hs))), rfl⟩
  | @named p scope origin e name args i r l r' out r'' he hs hi hargs hname ihArgs ihName =>
    have hs' (hnil : args = []) : Table.find? (scope.mapValues (Schema.mapRefs f)) name = none := by
      rw [Table.find?_mapValues, hs hnil]
      rfl
    obtain ⟨l', q'', hargs', hname'⟩ := hrun'.of_named hout' he hs' hi
    obtain ⟨hr', hl, hanswer⟩ := ihArgs rfl (hpasses.starts (.args he hs hi)) hr hin hargs' rfl
      (hpasses'.starts (.args he hs' hi))
    obtain rfl : l' = l.map (Schema.mapRefs f) := hanswer
    have happly := ihName hout (hpasses.starts (.apply he hs hi hargs)) hr' hl hname' rfl
      (hpasses'.starts (.apply he hs' hi hargs'))
    exact ⟨happly.carries, happly.common, happly.renamed⟩
  -- a name that is answered at once has an entry after the other calls, whatever they do for it here
  | pending hid =>
    obtain ⟨id, rfl, rfl, hid, -⟩ := Runs.apply_renamed h h' hf (.pending hid) hout hpasses hin hrun' hout' hpasses'
    exact .reference hr hid
  | known hp hid =>
    obtain ⟨id, rfl, rfl, hid, -⟩ := Runs.apply_renamed h h' hf (.known hp hid) hout hpasses hin hrun' hout' hpasses'
    exact .reference hr hid
  | @expanded p name i args origin r body r' hp hk hd hbody ih =>
    refine Runs.renames_expanded h h' hf hp hk hd hbody hout hpasses hin hrun' hout' hpasses' fun hbody' hpassesBody' => ?_
    exact ih rfl (hpasses.starts (.body hp hk hd)) (hr.opened i args)
      (fun t ht => hin t (Declaration.mem_of_mem_scope ht)) hbody' rfl hpassesBody'
  | _ => cases hout

end Renaming

/-- Whatever is registered after the first calls is registered after the others as well, with other ids. -/
theorem Catalog.Steady.carries {calls calls' : List (TypeExpr × Location)} {f g : String → String} (h : c.Steady calls)
    (h' : c.Steady calls') (hcalls : calls ⊆ calls')
    (hf : ∀ id id', (c.Knows calls).Matches (c.Knows calls') id id' → f id = id' ∧ g id' = id) :
    c.Carries calls calls' f (({} : Resolver c).after calls).registry := by
  refine h.succeeds.invariant (P := fun r => c.Carries calls calls' f r.registry) (fun _ _ hs => by cases hs) ?_
  intro r r' e origin s hcall hr hrun hpasses
  obtain ⟨q, s', q', hpasses', hrun'⟩ := h'.succeeds.exists_run (hcalls hcall)
  exact (Runs.renamed h h' hf hrun rfl (hpasses _ .refl) hr nofun hrun' rfl hpasses').carries

/-! ## Discriminators

With all entries renamed from one order to the other, discriminators agree, since renaming a schema leaves the property
of its discriminator alone. -/

namespace Resolver

/-- The property of the discriminator of the schema of an id; `some none` for a schema without a discriminator. -/
def property? (r : Resolver c) (id : String) : Option (Option String) :=
  (r.registry.get? id).map fun s => s.keywords.discriminator.map Discriminator.propertyName

/-- Two ids that both have a schema, with discriminators for the same property or without. -/
def AgreeOn (r r' : Resolver c) (id id' : String) : Prop :=
  ∃ property, r.property? id = some property ∧ r'.property? id' = some property

/-- Whatever declaration is known to both, its schemas agree. -/
def Agree (r r' : Resolver c) : Prop :=
  ∀ i id id', r.id? ⟨i, []⟩ = some id → r'.id? ⟨i, []⟩ = some id' → r.AgreeOn r' id id'

end Resolver

/-- Discriminators do not depend on the order of discovery, as far as nothing is looked at before it is there, nothing is
taken from a declaration by sharing, and the same is shared. If calls are made again in another order, or among other
calls, a declaration that is known both times has a schema with a discriminator now if and only if it had one before, and
then for the same property. So do a declaration's instantiations, if their arguments are the same up to the ids in
them. -/
theorem discriminators_agree {calls calls' : List (TypeExpr × Location)} (hcalls : calls ⊆ calls') (h : c.Steady calls)
    (h' : c.Steady calls') (halike : (c.Knows calls).Alike (c.Knows calls')) :
    (({} : Resolver c).after calls).Agree (({} : Resolver c).after calls') ∧
    ∀ id id', (c.Knows calls).Matches (c.Knows calls') id id' →
      (({} : Resolver c).after calls).AgreeOn (({} : Resolver c).after calls') id id' := by
  obtain ⟨f, g, hf⟩ := halike.exists_renaming
  have hcarries := h.carries h' hcalls hf
  have hagree (id id' : String) (hmatches : (c.Knows calls).Matches (c.Knows calls') id id') :
      (({} : Resolver c).after calls).AgreeOn (({} : Resolver c).after calls') id id' := by
    obtain ⟨rfl, -⟩ := hf id id' hmatches
    obtain ⟨-, hknows, -, -⟩ := hmatches
    obtain ⟨s, -, hs⟩ := h.own _ _ _ hknows
    obtain ⟨-, -, hs'⟩ := hcarries id s hs
    refine ⟨s.keywords.discriminator.map Discriminator.propertyName, congrArg _ hs, (congrArg _ hs').trans ?_⟩
    rw [Option.map_some, Schema.discriminator_mapRefs, Option.map_map]
    rfl
  refine ⟨fun i id id' hid hid' => ?_, hagree⟩
  exact hagree id id' (.of_nil (h.succeeds.knows_nil hid) (h'.succeeds.knows_nil hid'))

/-! ### Steady orders

A catalog with a cycle in which both orders are steady, since what is put together lies outside of the cycle. -/

/-- In a scene there are scenes, around it there may be one, and it has a shape. Shapes are circles and squares, and on the
map there is another circle. -/
def sceneCatalog : Catalog where
  declarations := [
    { name := "Scene", location := ⟨⟨"scene.rs"⟩, 1, 0⟩,
      body := .object [("inner", ⟨.array (.reference "Scene"), true⟩),
        ("outer", ⟨.reference "Outer", true⟩), ("shape", ⟨.reference "Shape", true⟩)] false },
    { name := "Outer", location := ⟨⟨"scene.rs"⟩, 7, 0⟩, body := .union [.reference "Scene", .null] },
    { name := "Shape", location := ⟨⟨"scene.rs"⟩, 9, 0⟩, body := .union [.reference "Circle", .reference "Square"] },
    { name := "Circle", location := ⟨⟨"scene.rs"⟩, 11, 0⟩,
      body := .object [("kind", ⟨.literal (.string "circle"), true⟩)] false },
    { name := "Square", location := ⟨⟨"scene.rs"⟩, 15, 0⟩,
      body := .object [("kind", ⟨.literal (.string "square"), true⟩)] false },
    { name := "Circle", location := ⟨⟨"map.rs"⟩, 1, 0⟩, body := .object [("radius", ⟨.primitive .f64, true⟩)] false }]

def sceneCalls : List (TypeExpr × Location) :=
  [(.reference "Scene", ⟨⟨"scene.rs"⟩, 20, 0⟩), (.reference "Circle", ⟨⟨"map.rs"⟩, 20, 0⟩)]

/-- A shape is built as a union of circles and squares. -/
theorem sceneCatalog_form_shape : (TypeExpr.union [.reference "Circle", .reference "Square"]).form =
    .built [.reference "Circle", .reference "Square"] Registry.oneOf := by
  simp [TypeExpr.form, TypeExpr.proper, TypeExpr.flatten, TypeExpr.isNullLike, TypeExpr.commonLiterals?,
    TypeExpr.literals?, TypeExpr.orNullOf]

/-- Several parts are put together for a shape only: around a scene there is one variant besides null. -/
theorem sceneCatalog_looks {k : Fin sceneCatalog.size} {x : TypeExpr} (hx : x.Inside (sceneCatalog.get k).body)
    (hlooks : x.Looks) : k = ⟨2, by decide⟩ ∧ x = .union [.reference "Circle", .reference "Square"] := by
  have hname {name : String} (hx : x.Inside (.reference name)) : False := by
    rcases hx.of_named rfl with rfl | ⟨_, ha, -⟩
    · exact hlooks
    · cases ha
  have hvalue {e : TypeExpr} {build : Registry → List Schema → Schema} (he : e.form = .built [] build) (hnot : ¬e.Looks)
      (hx : x.Inside e) : False := by
    rcases hx.of_built he with rfl | ⟨_, ha, -⟩
    · exact hnot hlooks
    · cases ha
  obtain ⟨n, hn⟩ := k
  match n, hn with
  | 0, _ =>
    rcases hx.of_built rfl with rfl | ⟨a, ha, hx⟩
    · exact hlooks.elim
    simp only [Table.values, List.map_cons, List.map_nil, List.mem_cons, List.not_mem_nil, or_false] at ha
    rcases ha with rfl | rfl | rfl
    · rcases hx.of_built rfl with rfl | ⟨_, ha, hx⟩
      · exact hlooks.elim
      · exact (hname (List.mem_singleton.mp ha ▸ hx)).elim
    · exact (hname hx).elim
    · exact (hname hx).elim
  | 1, _ =>
    have hproper : TypeExpr.proper [.reference "Scene", .null] = [.reference "Scene"] := by
      simp [TypeExpr.proper, TypeExpr.flatten, TypeExpr.isNullLike, TypeExpr.null]
    have hform : (TypeExpr.union [.reference "Scene", .null]).form = .built [.reference "Scene"] fun registry schemas =>
        TypeExpr.orNullOf [.reference "Scene", .null] (registry.oneOf schemas) := by
      simp [TypeExpr.form, hproper, TypeExpr.commonLiterals?, TypeExpr.literals?]
    have hnot : ¬(TypeExpr.union [.reference "Scene", .null]).Looks := by simp [TypeExpr.Looks, hproper]
    rcases hx.of_built hform with rfl | ⟨_, ha, hx⟩
    · exact absurd hlooks hnot
    · exact (hname (List.mem_singleton.mp ha ▸ hx)).elim
  | 2, _ =>
    rcases hx.of_built sceneCatalog_form_shape with rfl | ⟨_, ha, hx⟩
    · exact ⟨rfl, rfl⟩
    · rcases List.mem_pair.mp ha with rfl | rfl <;> exact (hname hx).elim
  | 3, _ | 4, _ | 5, _ =>
    rcases hx.of_built rfl with rfl | ⟨_, ha, hx⟩
    · exact hlooks.elim
    · exact (hvalue rfl id (List.mem_singleton.mp ha ▸ hx)).elim

/-- Scenes lead to themselves, but circles and squares do not. -/
theorem sceneCatalog_looksOutside : sceneCatalog.LooksOutside := by
  intro k x y name args j hx hlooks hy hform hj hself
  obtain ⟨rfl, rfl⟩ := sceneCatalog_looks hx hlooks
  have hmeans : ∀ name ∈ ["Circle", "Square"], ∀ j, sceneCatalog.lookup? name ⟨"scene.rs"⟩ = some j →
      j = ⟨3, by decide⟩ ∨ j = ⟨4, by decide⟩ := by
    decide +kernel
  have hname : name ∈ ["Circle", "Square"] := by
    rcases hy.of_built sceneCatalog_form_shape with rfl | ⟨a, ha, hy⟩
    · rw [sceneCatalog_form_shape] at hform
      cases hform
    · obtain ⟨own, rfl, hown⟩ : ∃ own, a = .reference own ∧ own ∈ ["Circle", "Square"] := by
        rcases List.mem_pair.mp ha with rfl | rfl
        · exact ⟨_, rfl, List.mem_cons_self⟩
        · exact ⟨_, rfl, by simp⟩
      rcases hy.of_named rfl with rfl | ⟨_, ha, -⟩
      · cases hform
        exact hown
      · cases ha
  -- a circle and a square mention nothing
  have hnothing {kind : String} {i : Fin sceneCatalog.size}
      (hbody : (sceneCatalog.get i).body = .object [("kind", ⟨.literal (.string kind), true⟩)] false) :
      ¬sceneCatalog.Leads i i := by
    intro hleads
    obtain ⟨_, ⟨z, _, _, hz, hform, -⟩, -⟩ := Relation.TransGen.head'_iff.mp hleads
    rw [hbody] at hz
    rcases hz.of_built rfl with rfl | ⟨_, ha, hz⟩
    · cases hform
    · obtain rfl := List.mem_singleton.mp ha
      rcases hz.of_built rfl with rfl | ⟨_, ha, -⟩
      · cases hform
      · cases ha
  rcases hmeans name hname j hj with rfl | rfl
  · exact hnothing rfl hself
  · exact hnothing rfl hself

/-- Both orders are steady although scenes lead to themselves, and the union of shapes has a discriminator after each. Its
circle is called otherwise when the other one comes first. -/
theorem discriminators_agree_shape :
    sceneCatalog.Leads ⟨0, by decide⟩ ⟨0, by decide⟩ ∧ sceneCalls ⊆ sceneCalls.reverse ∧
      sceneCatalog.Steady sceneCalls ∧ sceneCatalog.Steady sceneCalls.reverse ∧
      (sceneCatalog.Knows sceneCalls).Alike (sceneCatalog.Knows sceneCalls.reverse) ∧
      (({} : Resolver sceneCatalog).after sceneCalls).id? ⟨⟨3, by decide⟩, []⟩ = some "Circle" ∧
      (({} : Resolver sceneCatalog).after sceneCalls.reverse).id? ⟨⟨3, by decide⟩, []⟩ = some "Circle2" ∧
      (({} : Resolver sceneCatalog).after sceneCalls).property? "Shape" = some (some "kind") ∧
      (({} : Resolver sceneCatalog).after sceneCalls).Agree (({} : Resolver sceneCatalog).after sceneCalls.reverse) := by
  have hplain (i : Fin sceneCatalog.size) : (sceneCatalog.get i).typeParams = [] := by
    revert i
    decide
  have hcalls : ({} : Resolver sceneCatalog).Succeeds sceneCalls ∧
      ((({} : Resolver sceneCatalog).after sceneCalls).known.map Prod.snd).Nodup ∧
      (({} : Resolver sceneCatalog).after sceneCalls).id? ⟨⟨3, by decide⟩, []⟩ = some "Circle" ∧
      (({} : Resolver sceneCatalog).after sceneCalls).property? "Shape" = some (some "kind") := by
    simp only [sceneCalls, Resolver.Succeeds, Resolver.after, resolve_eq_within]
    decide +kernel
  have hreverse : ({} : Resolver sceneCatalog).Succeeds sceneCalls.reverse ∧
      ((({} : Resolver sceneCatalog).after sceneCalls.reverse).known.map Prod.snd).Nodup ∧
      (({} : Resolver sceneCatalog).after sceneCalls.reverse).id? ⟨⟨3, by decide⟩, []⟩ = some "Circle2" := by
    simp only [sceneCalls, List.reverse_cons, List.reverse_nil, List.nil_append, List.cons_append, Resolver.Succeeds,
      Resolver.after, resolve_eq_within]
    decide +kernel
  obtain ⟨hsucceeds, hnodup, hcircle, hshape⟩ := hcalls
  obtain ⟨hsucceeds', hnodup', hcircle'⟩ := hreverse
  have hdistinct := hsucceeds.distinct hplain hnodup
  have hdistinct' := hsucceeds'.distinct hplain hnodup'
  have h := hsucceeds.steady_of_distinct (fun _ => hsucceeds.anchored hplain sceneCatalog_looksOutside) hdistinct
  have h' := hsucceeds'.steady_of_distinct (fun _ => hsucceeds'.anchored hplain sceneCatalog_looksOutside) hdistinct'
  have hsubset : sceneCalls ⊆ sceneCalls.reverse := fun _ hcall => List.mem_reverse.mpr hcall
  have halike := hdistinct.alike hdistinct'
  have hself : sceneCatalog.Leads ⟨0, by decide⟩ ⟨0, by decide⟩ := by
    refine .single ⟨.reference "Scene", "Scene", [], ?_, rfl, by decide +kernel⟩
    exact .part rfl List.mem_cons_self (.part rfl List.mem_cons_self .self)
  exact ⟨hself, hsubset, h, h', halike, hcircle, hcircle', hshape, (discriminators_agree hsubset h h' halike).1⟩

/-! ### Orders that are not steady

Three catalogs, one for each condition of the theorem above. -/

/-- Some calls succeed in two orders, but leave different discriminators, although no declaration insists on an id. -/
def Catalog.Differs (c : Catalog) (calls : List (TypeExpr × Location)) : Prop :=
  (∀ i, (c.get i).externalId = none) ∧ ({} : Resolver c).Succeeds calls ∧ ({} : Resolver c).Succeeds calls.reverse ∧
    ¬(({} : Resolver c).after calls).Agree (({} : Resolver c).after calls.reverse)

/-- To see that two orders differ it is enough to look at one id that both have filled. -/
theorem Catalog.Differs.of_property {calls : List (TypeExpr × Location)} (i : Fin c.size) (id : String)
    (h : (∀ i, (c.get i).externalId = none) ∧ ({} : Resolver c).Succeeds calls ∧
      ({} : Resolver c).Succeeds calls.reverse ∧ (({} : Resolver c).after calls).id? ⟨i, []⟩ = some id ∧
      (({} : Resolver c).after calls.reverse).id? ⟨i, []⟩ = some id ∧
      (({} : Resolver c).after calls).property? id ≠ (({} : Resolver c).after calls.reverse).property? id) :
    c.Differs calls := by
  obtain ⟨hminted, hsucceeds, hreverse, hid, hid', hne⟩ := h
  refine ⟨hminted, hsucceeds, hreverse, fun hagree => ?_⟩
  obtain ⟨property, hproperty, hproperty'⟩ := hagree i id id hid hid'
  exact hne (hproperty.trans hproperty'.symm)

/-- A step is a leaf, or a branch to another step. -/
def stepCatalog : Catalog where
  declarations := [
    { name := "Step", location := ⟨⟨"step.rs"⟩, 1, 0⟩, body := .union [.reference "Branch", .reference "Leaf"] },
    { name := "Branch", location := ⟨⟨"step.rs"⟩, 5, 0⟩,
      body := .object [("kind", ⟨.literal (.string "branch"), true⟩), ("next", ⟨.reference "Step", true⟩)] false },
    { name := "Leaf", location := ⟨⟨"step.rs"⟩, 9, 0⟩,
      body := .object [("kind", ⟨.literal (.string "leaf"), true⟩)] false }]

def stepCalls : List (TypeExpr × Location) :=
  [(.reference "Step", ⟨⟨"step.rs"⟩, 20, 0⟩), (.reference "Branch", ⟨⟨"step.rs"⟩, 21, 0⟩)]

/-- Two hands, told apart by their side and by their name, and a copy of one with its properties in another order. -/
def handCatalog : Catalog where
  declarations := [
    { name := "Hand", location := ⟨⟨"hand.rs"⟩, 1, 0⟩, body := .union [.reference "Left", .reference "Right"] },
    { name := "Left", location := ⟨⟨"hand.rs"⟩, 5, 0⟩,
      body := .object [("side", ⟨.literal (.string "left"), true⟩), ("name", ⟨.literal (.string "l"), true⟩)] false },
    { name := "Right", location := ⟨⟨"hand.rs"⟩, 9, 0⟩,
      body := .object [("side", ⟨.literal (.string "right"), true⟩), ("name", ⟨.literal (.string "r"), true⟩)] false },
    { name := "Copy", location := ⟨⟨"hand.rs"⟩, 13, 0⟩,
      body := .object [("name", ⟨.literal (.string "l"), true⟩), ("side", ⟨.literal (.string "left"), true⟩)] false }]

def handCalls : List (TypeExpr × Location) :=
  [(.reference "Hand", ⟨⟨"hand.rs"⟩, 20, 0⟩), (.reference "Copy", ⟨⟨"hand.rs"⟩, 21, 0⟩)]

/-- Twins are alike, and each of them knows both. -/
def personCatalog : Catalog where
  declarations := [
    { name := "Person", location := ⟨⟨"person.rs"⟩, 1, 0⟩,
      body := .union [.reference "Older", .reference "Younger", .reference "Friend"] },
    { name := "Twins", location := ⟨⟨"person.rs"⟩, 5, 0⟩,
      body := .object [("older", ⟨.reference "Older", true⟩), ("younger", ⟨.reference "Younger", true⟩)] false },
    { name := "Older", location := ⟨⟨"person.rs"⟩, 9, 0⟩,
      body := .object [("kind", ⟨.literal (.string "twin"), true⟩), ("twins", ⟨.reference "Twins", true⟩)] false },
    { name := "Younger", location := ⟨⟨"person.rs"⟩, 13, 0⟩,
      body := .object [("kind", ⟨.literal (.string "twin"), true⟩), ("twins", ⟨.reference "Twins", true⟩)] false },
    { name := "Friend", location := ⟨⟨"person.rs"⟩, 17, 0⟩,
      body := .object [("kind", ⟨.literal (.string "friend"), true⟩)] false }]

def personCalls : List (TypeExpr × Location) :=
  [(.reference "Person", ⟨⟨"person.rs"⟩, 20, 0⟩), (.reference "Twins", ⟨⟨"person.rs"⟩, 21, 0⟩)]

/-- Otherwise discriminators can depend on the order. If the branch comes first, the steps are put together while it is
still being resolved, and have none. If the copy comes first, its schema stands for the left hand, and the hands are told
apart by their name. If the twins come first, they share a schema, and only then persons can be told apart. -/
theorem discriminators_differ :
    stepCatalog.Differs stepCalls ∧ handCatalog.Differs handCalls ∧ personCatalog.Differs personCalls := by
  refine ⟨.of_property ⟨0, by decide⟩ "Step" ?_, .of_property ⟨0, by decide⟩ "Hand" ?_,
    .of_property ⟨0, by decide⟩ "Person" ?_⟩
  · simp only [stepCalls, List.reverse_cons, List.reverse_nil, List.nil_append, List.cons_append, Resolver.Succeeds,
      Resolver.after, resolve_eq_within]
    decide +kernel
  · simp only [handCalls, List.reverse_cons, List.reverse_nil, List.nil_append, List.cons_append, Resolver.Succeeds,
      Resolver.after, resolve_eq_within]
    decide +kernel
  · simp only [personCalls, List.reverse_cons, List.reverse_nil, List.nil_append, List.cons_append, Resolver.Succeeds,
      Resolver.after, resolve_eq_within]
    decide +kernel

end RouteManifest
