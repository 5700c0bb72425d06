import RouteManifest.Proofs.Resolution.Corruption
import RouteManifest.Proofs.Resolution.Course

/-!
# Resolving once more

A call that fails leaves what it had found out before it failed, and gives back the ids of the expansions it was in the
middle of. So when it is made again it finds known whatever succeeded the first time (`Runs.again_within`), begins the
same expansions under the same ids, comes to where it failed, and fails there with the same fault (`Runs.fails_again`).

There are two conditions. The ids that are given back have to be free again: nobody else may have asked for them in the
meantime (`Moment.Clear`), or the second time other ids are made up, what is applied to them is not known yet, and is
expanded where it may be too deep. And the fault must not come from the registry: a schema that is refused leaves its
declaration known (`Runs.exists_refused`), so that it is not looked at again. Neither can go wrong if an id that is
insisted on belongs to one declaration alone.
-/

namespace RouteManifest

variable {c : Catalog}

/-! ## What is seen later

Unions and intersections look at objects in the registry, and more is registered when a call is made again. So it has to
be said of the parts that what is seen in them is the same at both times. -/

/-- What is seen in a schema is there for good, or is not there later either. -/
def Registry.Shows (r q : Registry) (s : Schema) : Prop :=
  ∀ id, s.refId? = some id → (∃ t, r.get? id = some t) ∨ q.get? id = none

namespace Registry.Shows

variable {r r' q : Registry} {s : Schema}

/-- A reference shows what its target is, now or later. -/
theorem reference {id : String} (h : (∃ t, r.get? id = some t) ∨ q.get? id = none) : r.Shows q (.reference id) := by
  intro other hother
  cases hother
  exact h

/-- A schema shows no less when more is registered now. -/
theorem mono (h : r.Shows q s) (hregistered : ∀ id t, r.get? id = some t → r'.get? id = some t) : r'.Shows q s :=
  fun id hid => (h id hid).imp_left fun ⟨t, ht⟩ => ⟨t, hregistered id t ht⟩

/-- An expansion that begins registers nothing. -/
theorem opened {r q : Resolver c} (h : r.registry.Shows q.registry s) (i : Fin c.size) (args : List Schema) :
    (r.opened i args).registry.Shows (q.opened i args).registry s := by
  intro id hid
  rw [Resolver.get?_opened, Resolver.get?_opened]
  exact h id hid

/-- In a schema that shows the same, the same object is seen later as is seen now. -/
theorem objectView?_eq (h : r.Shows q s) (hregistered : ∀ id t, r.get? id = some t → q.get? id = some t) :
    q.objectView? s = r.objectView? s := by
  rw [objectView?, objectView?]
  rcases hid : s.refId? with _ | id
  · rfl
  · rcases h id hid with ⟨t, ht⟩ | hnone
    · simp only [ht, hregistered id t ht]
    · have hr : r.get? id = none := by
        rcases hget : r.get? id with _ | t
        · rfl
        · rw [hregistered id t hget] at hnone
          cases hnone
      simp only [hr, hnone]

/-- What is built from schemas that show the same shows the same: if it is a bare reference, it is one of them. -/
theorem build {e : TypeExpr} {parts : List TypeExpr} {build : Registry → List Schema → Schema}
    (he : e.form = .built parts build) {l : List Schema} (hl : ∀ s ∈ l, r.Shows q s) : r.Shows q (build r l) := by
  intro id hid
  obtain ⟨s, hs, hid⟩ := TypeExpr.refId?_build he hid
  exact hl s hs id hid

end Registry.Shows

/-! ## What has succeeded

A task that has succeeded left its declarations known. Made again it takes the known ids, and comes to the same answer
with less to do. -/

/-- What is pending of the declarations that a task mentions is pending under the same ids in `p'`, and what is seen of
it is the same later. -/
def Pending.Resumes (p p' : Pending c) (t : Task c) (r q : Registry) : Prop :=
  ∀ j, t.Mentions j → ∀ args, p'.id? (c.identity j args) = p.id? (c.identity j args) ∧
    ∀ id, p.id? (c.identity j args) = some id → r.Shows q (.reference id)

/-- What is pending for a task is pending for one that mentions less, later in the run. -/
theorem Pending.Resumes.imp {p p' : Pending c} {t t' : Task c} {r r' q : Registry} (h : p.Resumes p' t r q)
    (hmentions : ∀ j, t'.Mentions j → t.Mentions j) (hregistered : ∀ id s, r.get? id = some s → r'.get? id = some s) :
    p.Resumes p' t' r' q :=
  fun j hj args => (h j (hmentions j hj) args).imp_right fun hshows id hid => (hshows id hid).mono hregistered

section Again

variable {p : Pending c} {t : Task c} {r r' q : Resolver c} {out : Except Fault t.Answer}

/-- A task that has succeeded somewhere succeeds again wherever no less is known, with the same answer, and without
changing anything. -/
theorem Runs.again_within (h : Runs p t r out r') {answer : t.Answer} (hout : out = .ok answer) (hr : Recorded p r)
    (hbacked : r.Backed) (hlasts : r'.LastsIn q) {p' : Pending c} (hp : p.Resumes p' t r.registry q.registry)
    (hinputs : ∀ s ∈ t.inputs, r.registry.Shows q.registry s) :
    Runs p' t q (.ok answer) q ∧ ∀ s ∈ t.outputs answer, r'.registry.Shows q.registry s := by
  induction h with
  | nil =>
    cases hout
    exact ⟨.nil, nofun⟩
  | cons hhead htail ihHead ihTail =>
    cases hout
    have hlasts' := htail.lasts (hhead.recorded hr)
    have hregistered := (hhead.lasts hr).registered
    obtain ⟨hrunHead, hs⟩ := ihHead rfl hr hbacked (hlasts'.trans hlasts)
      (hp.imp (fun _ => Task.Mentions.of_head) fun _ _ hs => hs) hinputs
    obtain ⟨hrunTail, hl⟩ := ihTail rfl (hhead.recorded hr) (hhead.backed rfl hr.sound hbacked) hlasts
      (hp.imp (fun _ => Task.Mentions.of_tail) hregistered) fun s hs => (hinputs s hs).mono hregistered
    exact ⟨.cons hrunHead hrunTail, List.forall_mem_cons.mpr ⟨(hs _ List.mem_cons_self).mono hlasts'.registered, hl⟩⟩
  | @built _ _ _ _ _ build _ l r' he _ ih =>
    cases hout
    obtain ⟨hrun, hl⟩ := ih rfl hr hbacked hlasts
      (hp.imp (fun _ => Task.Mentions.of_list fun _ ha _ hx => .part he ha hx) fun _ _ hs => hs) hinputs
    have hbuild : build q.registry l = build r'.registry l :=
      TypeExpr.build_congr he fun s hs => (hl s hs).objectView?_eq hlasts.registered
    refine ⟨?_, List.forall_mem_singleton.mpr (.build he hl)⟩
    rw [← hbuild]
    exact .built he hrun
  | bound he hs =>
    cases hout
    refine ⟨.bound he hs, List.forall_mem_singleton.mpr (hinputs _ ?_)⟩
    exact List.mem_map_of_mem (Table.mem_of_find? hs)
  | named he hs hi hargs hname ihArgs ihName =>
    have hregistered := (hargs.lasts hr).registered
    obtain ⟨hrunArgs, hl⟩ := ihArgs rfl hr hbacked ((hname.lasts (hargs.recorded hr)).trans hlasts)
      (hp.imp (fun _ => Task.Mentions.of_list fun _ ha _ hx => .arg he ha hx) fun _ _ hs => hs) hinputs
    obtain ⟨hrunName, hs'⟩ := ihName hout (hargs.recorded hr) (hargs.backed rfl hr.sound hbacked) hlasts
      (hp.imp (fun _ => Task.Mentions.of_apply he (Catalog.applied_eq_ok.mp hi).1) hregistered) hl
    exact ⟨.named he hs hi hrunArgs hrunName, hs'⟩
  | @pending _ _ i args _ _ id hid =>
    cases hout
    obtain ⟨heq, hshows⟩ := hp i rfl args
    exact ⟨.pending (heq.trans hid), List.forall_mem_singleton.mpr (hshows id hid)⟩
  | @known _ _ i args _ _ id hpending hid =>
    cases hout
    refine ⟨.known ((hp i rfl args).1.trans hpending) (hlasts.known _ _ hid), List.forall_mem_singleton.mpr ?_⟩
    exact .reference (Or.inl (hbacked _ _ hid))
  | @expanded _ _ i args _ r body r' hpending hknown hd hbody _ =>
    -- the body is not resolved again: the name is known by now
    have hbacked' := (Runs.expanded hpending hknown hd hbody).backed hout hr.sound hbacked
    obtain ⟨id, hfill, rfl⟩ := referenceTo_eq_ok.mp hout
    have hid : (r'.filled (c.identity i args) (r.expansionId i args) body (c.get i).location).id? (c.identity i args) =
        some id := by
      rw [Resolver.id?_filled_self, hfill]
      rfl
    refine ⟨.known ((hp i rfl args).1.trans hpending) (hlasts.known _ _ hid), List.forall_mem_singleton.mpr ?_⟩
    exact .reference (Or.inl (hbacked' _ _ hid))
  | _ => cases hout

end Again

/-! ## What has failed

The second run takes another course than the first up to the fault, since it finds known what the first had to expand.
`Moment.Retries` is what both have in common wherever the first one starts a task: the lemmas in its namespace go down
to the parts, to the arguments, to the body, and on to the rest of a list. `Runs.fails_again` assembles them. -/

/-- If a declaration is going to be expanded under an id, the id is not reserved for something else. -/
def Moment.Spares (m : Moment c) (id : String) : Prop :=
  ∀ name i args origin, m.task = .apply name i args origin → m.pending.id? (c.identity i args) = none →
    m.resolver.id? (c.identity i args) = none → m.resolver.expansionId i args = id →
    ∀ explicit order, m.resolver.registry.slots.find? id ≠ some (.reserved explicit order)

/-- What is going to be expanded does not take the id from anything that is waiting to be filled. -/
def Moment.Clear (m : Moment c) : Prop := ∀ id, m.Spares id

/-- The registry has refused a schema. -/
def Fault.isRefusal : Fault → Bool
  | .schemaConflict _ _ _ | .registryCorruption _ => true
  | _ => false

/-- Whatever the registry answers but an id is a refusal. -/
theorem Registry.isRefusal_of_fill {r : Registry} {id : String} {schema : Schema} {owner : Location} {fault : Fault}
    (h : (r.fill id schema owner).1 = .error fault) : fault.isRefusal = true := by
  rw [fill] at h
  split at h
  · cases h
    rfl
  · split at h
    · cases h
    · split at h <;> cases h <;> rfl
  · simp only at h
    split at h <;> cases h

/-- Two resolvers know the same, and hand out the same ids. -/
structure Resolver.Same (q r : Resolver c) : Prop where
  known : ∀ identity, q.id? identity = r.id? identity
  registered : ∀ id, q.registry.get? id = r.registry.get? id
  names : ∀ id, id ∈ q.registry.slots.names ↔ id ∈ r.registry.slots.names

/-- A resolver knows the same as itself. -/
theorem Resolver.Same.refl (r : Resolver c) : r.Same r := ⟨fun _ => rfl, fun _ => rfl, fun _ => Iff.rfl⟩

/-- Where two know the same, the one knows no less than the other. -/
theorem Resolver.Same.lastsIn {q r : Resolver c} (h : q.Same r) : r.LastsIn q :=
  ⟨fun identity _ hid => (h.known identity).trans hid, fun id _ hs => (h.registered id).trans hs⟩

/-- Two resolvers that know the same do so when both give an id back. -/
theorem Resolver.Same.released {q r : Resolver c} (h : q.Same r) (hq : q.registry.Sound) (hr : r.registry.Sound)
    (id : String) : (q.released id).Same (r.released id) where
  known := h.known
  registered := by
    intro other
    rw [Resolver.released, Resolver.released, Registry.get?_release hq.names_nodup, Registry.get?_release hr.names_nodup]
    exact h.registered other
  names := by
    intro other
    rw [Resolver.released, Resolver.released, Registry.mem_names_release hq.names_nodup,
      Registry.mem_names_release hr.names_nodup, h.names, h.registered]

section Clear

variable {p : Pending c} {t : Task c} {r r' : Resolver c} {out : Except Fault t.Answer}

/-! ### What is reserved

An id that is reserved when a task starts belongs to an expansion that has begun. It stays reserved as long as nobody
else asks for it, in runs that fail as well as in runs that succeed. -/

/-- What is reserved when a run begins is still reserved when it ends, if nobody else asks for it. -/
theorem Runs.reserved_lasts (h : Runs p t r out r') {id : String}
    (hspares : ∀ m, Moment.Within ⟨p, t, r⟩ m → m.Spares id) {explicit : Bool} {order : Nat}
    (hslot : r.registry.slots.find? id = some (.reserved explicit order)) :
    r'.registry.slots.find? id = some (.reserved explicit order) := by
  induction h with
  | cons hhead _ ihHead ihTail | consTail hhead _ ihHead ihTail =>
    exact ihTail (Moment.Starts.within (.tail hhead) hspares) (ihHead (Moment.Starts.within .head hspares) hslot)
  | consHead _ ih => exact ih (Moment.Starts.within .head hspares) hslot
  | built he _ ih | builtFault he _ ih => exact ih (Moment.Starts.within (.parts he) hspares) hslot
  | named he hs hi hargs _ ihArgs ihName =>
    have hslot' := ihArgs (Moment.Starts.within (.args he hs hi) hspares) hslot
    exact ihName (Moment.Starts.within (.apply he hs hi hargs) hspares) hslot'
  | namedFault he hs hi _ ih => exact ih (Moment.Starts.within (.args he hs hi) hspares) hslot
  | @expanded p name i args origin r body r' hp hk hd _ ih =>
    have hne : r.expansionId i args ≠ id := fun heq =>
      hspares _ .refl name i args origin rfl hp hk heq explicit order hslot
    exact (Registry.find?_fill_of_ne _ _ _ hne).trans
      (ih (Moment.Starts.within (.body hp hk hd) hspares) (Registry.find?_reserve_of_find? hslot))
  | @expandedFault p name i args origin r fault r' hp hk hd _ ih =>
    have hne : r.expansionId i args ≠ id := fun heq =>
      hspares _ .refl name i args origin rfl hp hk heq explicit order hslot
    exact (Registry.find?_release_of_ne _ hne).trans
      (ih (Moment.Starts.within (.body hp hk hd) hspares) (Registry.find?_reserve_of_find? hslot))
  | _ => exact hslot

/-- Ids that have a slot when a run begins have one when it ends. -/
theorem Runs.names_last (h : Runs p t r out r') (hclear : ∀ m, Moment.Within ⟨p, t, r⟩ m → m.Clear) {id : String}
    (hid : id ∈ r.registry.slots.names) : id ∈ r'.registry.slots.names := by
  rcases hget : r.registry.get? id with _ | s
  · obtain ⟨explicit, order, hslot⟩ := Registry.exists_reserved_iff.mpr ⟨hid, hget⟩
    exact List.mem_map_of_mem (Table.mem_of_find? (h.reserved_lasts (fun m hm => hclear m hm id) hslot))
  · obtain ⟨explicit, order, owner, hslot⟩ := Registry.get?_eq_some_iff.mp (Registry.get?_of_moves h.moves hget)
    exact List.mem_map_of_mem (Table.mem_of_find? hslot)

end Clear

/-! ### Beginning once more

An expansion that has failed has given its id back. When it begins once more the id is free, so it is handed out again,
and whoever looks at what is registered under it sees nothing, as the first time. -/

section Expansion

variable {p : Pending c} {r r' q : Resolver c} {i : Fin c.size} {args : List Schema}

/-- A declaration asks for the same id if more ids are taken, but not that one. -/
theorem Resolver.expansionId_eq (hnames : r.registry.slots.names ⊆ q.registry.slots.names)
    (hfree : r.registry.slots.find? (r.expansionId i args) = none → r.expansionId i args ∉ q.registry.slots.names) :
    q.expansionId i args = r.expansionId i args := by
  rw [expansionId, expansionId, Registry.reserve, Registry.reserve] at *
  simp only at *
  split
  · rfl
  next hexplicit =>
    rw [if_neg hexplicit] at hfree
    exact Text.fresh_of_subset hnames (hfree (Table.find?_eq_none_iff.mpr (Text.fresh_not_mem _ _)))

/-- An expansion that has failed begins once more like the first time. -/
theorem Resolver.Same.opened (h : q.Same (r'.released (r.expansionId i args))) (hr' : r'.registry.Sound)
    (hid : r.expansionId i args ∈ r'.registry.slots.names) (heq : q.expansionId i args = r.expansionId i args) :
    (q.opened i args).Same r' where
  known := h.known
  registered := by
    intro id
    rw [Resolver.get?_opened, h.registered]
    exact Registry.get?_release hr'.names_nodup _
  names := by
    intro id
    rw [Resolver.opened, Registry.mem_names_reserve, h.names, Resolver.released,
      Registry.mem_names_release hr'.names_nodup]
    show _ ∨ id = q.expansionId i args ↔ _
    rw [heq]
    by_cases hown : id = r.expansionId i args
    · simp [hown, hid]
    · simp [hown]

/-- The id that a failed expansion has given back is asked for once more. -/
theorem Runs.expansionId_again {out : Except Fault Schema}
    (hbody : Runs (p.push (c.identity i args) (r.expansionId i args)) (.ofBody i args) (r.opened i args) out r')
    (hr : r.registry.Sound)
    (hclear : ∀ m, Moment.Within ⟨p.push (c.identity i args) (r.expansionId i args), .ofBody i args, r.opened i args⟩ m →
      m.Clear)
    (hown : ∀ explicit order, r.registry.slots.find? (r.expansionId i args) ≠ some (.reserved explicit order))
    (h : q.Same (r'.released (r.expansionId i args))) : q.expansionId i args = r.expansionId i args := by
  have hr' := (hr.opened i args).moves hbody.moves
  refine Resolver.expansionId_eq (fun id hid => ?_) fun hnew hmem => ?_
  · rw [h.names, Resolver.released, Registry.mem_names_release hr'.names_nodup]
    refine ⟨hbody.names_last hclear (Registry.mem_names_reserve.mpr (Or.inl hid)), ?_⟩
    rintro rfl hget
    have hnone : r.registry.get? (r.expansionId i args) = none := by
      rcases hget' : r.registry.get? (r.expansionId i args) with _ | s
      · rfl
      · rw [Registry.get?_of_moves hbody.moves ((Resolver.get?_opened _ _ _ _).trans hget')] at hget
        cases hget
    obtain ⟨explicit, order, hslot⟩ := Registry.exists_reserved_iff.mpr ⟨hid, hnone⟩
    exact hown explicit order hslot
  · rw [h.names, Resolver.released, Registry.mem_names_release hr'.names_nodup] at hmem
    exact hmem.2 rfl (Registry.get?_of_reserved (hbody.reserved_lasts (fun m hm => hclear m hm _) (find?_opened hnew)))

/-- The id of an expansion that has failed has no schema when it begins once more, unless it had one before. -/
theorem Runs.shows_own {out : Except Fault Schema}
    (hbody : Runs (p.push (c.identity i args) (r.expansionId i args)) (.ofBody i args) (r.opened i args) out r')
    (hclear : ∀ m, Moment.Within ⟨p.push (c.identity i args) (r.expansionId i args), .ofBody i args, r.opened i args⟩ m →
      m.Clear)
    (hown : ∀ explicit order, r.registry.slots.find? (r.expansionId i args) ≠ some (.reserved explicit order))
    (h : q.Same r') : (r.opened i args).registry.Shows q.registry (.reference (r.expansionId i args)) := by
  refine .reference ?_
  rcases hslot : r.registry.slots.find? (r.expansionId i args) with _ | (⟨explicit, order⟩ | ⟨explicit, order, s, owner⟩)
  · have hslot' := hbody.reserved_lasts (fun m hm => hclear m hm _) (find?_opened hslot)
    exact Or.inr ((h.registered _).trans (Registry.get?_of_reserved hslot'))
  · exact absurd hslot (hown explicit order)
  · exact Or.inl ⟨s, (Resolver.get?_opened _ _ _ _).trans (Registry.get?_eq_some_iff.mpr ⟨explicit, order, owner, hslot⟩)⟩

end Expansion

/-- A task can start in `q` as it did at a moment: what is pending and what it is given shows the same there, and nothing on
its way takes an id from what is waiting to be filled. -/
structure Moment.Retries (m : Moment c) (q : Resolver c) : Prop where
  clear : ∀ m', m.Within m' → m'.Clear
  recorded : Recorded m.pending m.resolver
  backed : m.resolver.Backed
  sound : q.registry.Sound
  pending : ∀ identity id, m.pending.id? identity = some id → m.resolver.registry.Shows q.registry (.reference id)
  inputs : ∀ s ∈ m.task.inputs, m.resolver.registry.Shows q.registry s

/-! ### Where a task starts again

From the moment of a task to the moments of the tasks it starts, on the way to the fault. What lies before the fault has
succeeded, so it is not followed but repeated at once. -/

namespace Moment.Retries

variable {p : Pending c} {scope : Table Schema} {origin : Location} {e : TypeExpr} {es : List TypeExpr}
  {r r' q : Resolver c}

/-- The first of several expressions starts again like all of them. -/
theorem head (h : Retries ⟨p, .list scope origin (e :: es), r⟩ q) : Retries ⟨p, .node scope origin e, r⟩ q :=
  ⟨Starts.within .head h.clear, h.recorded, h.backed, h.sound, h.pending, h.inputs⟩

/-- The parts of an expression start again like the expression. -/
theorem parts (h : Retries ⟨p, .node scope origin e, r⟩ q) {build : Registry → List Schema → Schema}
    (he : e.form = .built es build) : Retries ⟨p, .list scope origin es, r⟩ q :=
  ⟨Starts.within (.parts he) h.clear, h.recorded, h.backed, h.sound, h.pending, h.inputs⟩

section Named

variable {name : String} {i : Fin c.size} (he : e.form = .named name es) (hs : es = [] → scope.find? name = none)
  (hi : c.applied name es.length origin = .ok i)
include he hs hi

/-- The arguments of a name start again like the name. -/
theorem args (h : Retries ⟨p, .node scope origin e, r⟩ q) : Retries ⟨p, .list scope origin es, r⟩ q :=
  ⟨Starts.within (.args he hs hi) h.clear, h.recorded, h.backed, h.sound, h.pending, h.inputs⟩

/-- A declaration starts again where its arguments have ended, since these have succeeded and show the same. -/
theorem apply (h : Retries ⟨p, .node scope origin e, r⟩ q) {l : List Schema}
    (hargs : Runs p (.list scope origin es) r (.ok l) r') (hl : ∀ s ∈ l, r'.registry.Shows q.registry s) :
    Retries ⟨p, .apply name i l origin, r'⟩ q where
  clear := Starts.within (.apply he hs hi hargs) h.clear
  recorded := hargs.recorded h.recorded
  backed := hargs.backed rfl h.recorded.sound h.backed
  sound := h.sound
  pending := fun identity id hid => (h.pending identity id hid).mono (hargs.lasts h.recorded).registered
  inputs := hl

end Named

/-- The rest of several expressions starts again where the first one has ended. -/
theorem tail (h : Retries ⟨p, .list scope origin (e :: es), r⟩ q) {s : Schema}
    (hhead : Runs p (.node scope origin e) r (.ok s) r') : Retries ⟨p, .list scope origin es, r'⟩ q where
  clear := Starts.within (.tail hhead) h.clear
  recorded := hhead.recorded h.recorded
  backed := hhead.backed rfl h.recorded.sound h.backed
  sound := h.sound
  pending := fun identity id hid => (h.pending identity id hid).mono (hhead.lasts h.recorded).registered
  inputs := fun s hs => (h.inputs s hs).mono (hhead.lasts h.recorded).registered

/-- What succeeded the first time succeeds once more, where no less is known than after it. -/
theorem again {t : Task c} (h : Retries ⟨p, t, r⟩ q) {answer : t.Answer} (hrun : Runs p t r (.ok answer) r')
    (hlasts : r'.LastsIn q) : Runs p t q (.ok answer) q ∧ ∀ s ∈ t.outputs answer, r'.registry.Shows q.registry s :=
  hrun.again_within rfl h.recorded h.backed hlasts (fun _ _ _ => ⟨rfl, h.pending _⟩) h.inputs

/-- An expansion whose body has failed begins once more, under the id that was given back and so is handed out again. -/
theorem body {name : String} {i : Fin c.size} {args : List Schema} (h : Retries ⟨p, .apply name i args origin, r⟩ q)
    (hp : p.id? (c.identity i args) = none) (hk : r.id? (c.identity i args) = none)
    (hd : ¬(args ≠ [] ∧ maxGenericDepth ≤ p.depth)) {out : Except Fault Schema}
    (hbody : Runs (p.push (c.identity i args) (r.expansionId i args)) (.ofBody i args) (r.opened i args) out r')
    (hsame : q.Same (r'.released (r.expansionId i args))) :
    Retries ⟨p.push (c.identity i args) (r.expansionId i args), .ofBody i args, r.opened i args⟩ (q.opened i args) ∧
      (q.opened i args).Same r' ∧ q.expansionId i args = r.expansionId i args := by
  have hclear := Starts.within (.body hp hk hd) h.clear
  have hown := h.clear _ .refl _ name i args origin rfl hp hk rfl
  have hid := hbody.expansionId_again h.recorded.sound hclear hown hsame
  have hopened := hsame.opened ((h.recorded.sound.opened i args).moves hbody.moves)
    (hbody.names_last hclear (Registry.mem_names_reserve.mpr (Or.inr rfl))) hid
  refine ⟨⟨hclear, h.recorded.opened i args hk, h.backed.opened i args, h.sound.opened i args, ?_, ?_⟩, hopened, hid⟩
  · intro identity id hidentity
    by_cases hself : identity = c.identity i args
    · rw [hself, Pending.id?_push_self] at hidentity
      cases hidentity
      exact hbody.shows_own hclear hown hopened
    · exact (h.pending identity id ((Pending.id?_push_of_ne hself).symm.trans hidentity)).opened i args
  · exact fun s hs => (h.inputs s (Declaration.mem_of_mem_scope hs)).opened i args

end Moment.Retries

/-! ### The same fault

The induction over the run that has failed, and what follows for calls. -/

section Fails

variable {p : Pending c} {r r' q : Resolver c} {fault : Fault}

/-- An expansion fails again if its body does. -/
theorem Runs.fails_again_body {name : String} {i : Fin c.size} {args : List Schema} {origin : Location}
    (hstart : Moment.Retries ⟨p, .apply name i args origin, r⟩ q)
    (hp : p.id? (c.identity i args) = none) (hk : r.id? (c.identity i args) = none)
    (hd : ¬(args ≠ [] ∧ maxGenericDepth ≤ p.depth))
    (hbody : Runs (p.push (c.identity i args) (r.expansionId i args)) (.ofBody i args) (r.opened i args) (.error fault) r')
    (hsame : q.Same (r'.released (r.expansionId i args)))
    (hfails : ∃ q', Runs (p.push (c.identity i args) (r.expansionId i args)) (.ofBody i args) (q.opened i args)
      (.error fault) q' ∧ q'.Same r') :
    ∃ q', Runs p (.apply name i args origin) q (.error fault) q' ∧ q'.Same (r'.released (r.expansionId i args)) := by
  obtain ⟨-, -, hid⟩ := hstart.body hp hk hd hbody hsame
  have hk' : q.id? (c.identity i args) = none :=
    (hsame.known _).trans (hbody.unknown (by rw [Pending.id?_push_self]; rfl) hk)
  obtain ⟨q', hrun, hsame'⟩ := hfails
  have hreleased := hsame'.released ((hstart.sound.opened i args).moves hrun.moves)
    ((hstart.recorded.sound.opened i args).moves hbody.moves) (r.expansionId i args)
  rw [← hid] at hrun
  exact ⟨q'.released (q.expansionId i args), .expandedFault hp hk' hd hrun, by rwa [hid]⟩

/-- A task that has failed fails again where the same is known, and leaves what it has left the first time. What came before
the fault has succeeded and is repeated; the induction leads to where the fault is. -/
theorem Runs.fails_again {t : Task c} {out : Except Fault t.Answer} (h : Runs p t r out r') (hout : out = .error fault)
    (hrefusal : fault.isRefusal = false) (hstart : Moment.Retries ⟨p, t, r⟩ q) (hsame : q.Same r') :
    ∃ q', Runs p t q (.error fault) q' ∧ q'.Same r' := by
  induction h generalizing q with
  | consHead _ ih =>
    cases hout
    obtain ⟨q', hrun, hsame'⟩ := ih rfl hstart.head hsame
    exact ⟨q', .consHead hrun, hsame'⟩
  | consTail hhead htail _ ihTail =>
    cases hout
    have hlasts := (htail.lasts (hhead.recorded hstart.recorded)).trans hsame.lastsIn
    obtain ⟨hrunHead, -⟩ := hstart.head.again hhead hlasts
    obtain ⟨q', hrunTail, hsame'⟩ := ihTail rfl (hstart.tail hhead) hsame
    exact ⟨q', .consTail hrunHead hrunTail, hsame'⟩
  | builtFault he _ ih =>
    cases hout
    obtain ⟨q', hrun, hsame'⟩ := ih rfl (hstart.parts he) hsame
    exact ⟨q', .builtFault he hrun, hsame'⟩
  | named he hs hi hargs hname _ ihName =>
    have hlasts := (hname.lasts (hargs.recorded hstart.recorded)).trans hsame.lastsIn
    obtain ⟨hrunArgs, hl⟩ := (hstart.args he hs hi).again hargs hlasts
    obtain ⟨q', hrunName, hsame'⟩ := ihName hout (hstart.apply he hs hi hargs hl) hsame
    exact ⟨q', .named he hs hi hrunArgs hrunName, hsame'⟩
  | namedFault he hs hi _ ih =>
    cases hout
    obtain ⟨q', hrun, hsame'⟩ := ih rfl (hstart.args he hs hi) hsame
    exact ⟨q', .namedFault he hs hi hrun, hsame'⟩
  | misapplied he hs hi =>
    cases hout
    exact ⟨q, .misapplied he hs hi, hsame⟩
  | unbound he hs =>
    cases hout
    exact ⟨q, .unbound he hs, hsame⟩
  | callable he =>
    cases hout
    exact ⟨q, .callable he, hsame⟩
  | deep hp hk hd =>
    cases hout
    exact ⟨q, .deep hp ((hsame.known _).trans hk) hd, hsame⟩
  | expanded =>
    -- a body that has a schema can only fail by being refused
    rw [Registry.isRefusal_of_fill (referenceTo_eq_error.mp hout)] at hrefusal
    cases hrefusal
  | expandedFault hp hk hd hbody ih =>
    cases hout
    obtain ⟨hretries, hopened, -⟩ := hstart.body hp hk hd hbody hsame
    exact Runs.fails_again_body hstart hp hk hd hbody hsame (ih rfl hretries hopened)
  | _ => cases hout

end Fails

/-- A call fails with a fault however often it is made, and leaves everything as it is. -/
def Resolver.FailsForEver (r : Resolver c) (e : TypeExpr) (origin : Location) (fault : Fault) : Prop :=
  ∀ n, ∃ q, (resolve e origin).run (r.after (List.replicate n (e, origin))) = (.error fault, q) ∧ q.Same r

/-- A call that fails once more leaves what it left before, so it fails ever after. -/
theorem Runs.failsForEver {e : TypeExpr} {origin : Location} {r r' : Resolver c} {fault : Fault}
    (h : Runs {} (.node [] origin e) r (.error fault) r') (hrefusal : fault.isRefusal = false)
    (hclear : ∀ m, (Moment.call e origin r).Within m → m.Clear) (hr : Recorded {} r) (hbacked : r.Backed) :
    r'.FailsForEver e origin fault := by
  have hagain {q : Resolver c} (hq : q.registry.Sound) (hsame : q.Same r') :
      ∃ q', Runs {} (.node [] origin e) q (.error fault) q' ∧ q'.Same r' :=
    h.fails_again rfl hrefusal ⟨hclear, hr, hbacked, hq, nofun, nofun⟩ hsame
  -- every call reserves numbers anew, so the state is only the same in what is known and registered
  have hrepeat (n : Nat) : ∀ q : Resolver c, q.registry.Sound → q.Same r' →
      ∃ q', (resolve e origin).run (q.after (List.replicate n (e, origin))) = (.error fault, q') ∧ q'.Same r' := by
    induction n with
    | zero =>
      intro q hq hsame
      obtain ⟨q', hrun, hsame'⟩ := hagain hq hsame
      exact ⟨q', hrun.eq, hsame'⟩
    | succ n ih =>
      intro q hq hsame
      obtain ⟨q', hrun, hsame'⟩ := hagain hq hsame
      have heq : (resolve e origin).run q = (.error fault, q') := hrun.eq
      rw [List.replicate_succ, Resolver.after, heq]
      exact ih q' (hq.moves hrun.moves) hsame'
  exact fun n => hrepeat n r' (h.recorded hr).sound (.refl r')

/-! ## What is refused

A refusal is the one fault that leaves a trace: the declaration is known by the id it was refused, though there is no
schema of it under that id. -/

/-- The registry refuses the schema of a declaration that has been expanded. -/
inductive Moment.Refused : Moment c → Fin c.size → List Schema → Fault → Prop where
  | mk {p name i args origin r body r' fault} :
      p.id? (c.identity i args) = none → r.id? (c.identity i args) = none → ¬(args ≠ [] ∧ maxGenericDepth ≤ p.depth) →
      Runs (p.push (c.identity i args) (r.expansionId i args)) (.ofBody i args) (r.opened i args) (.ok body) r' →
      (r'.registry.fill (r.expansionId i args) body (c.get i).location).1 = .error fault →
      Refused ⟨p, .apply name i args origin, r⟩ i args fault

/-- A name that cannot be applied is no refusal of the registry. -/
theorem Catalog.isRefusal_of_applied {name : String} {count : Nat} {origin : Location} {fault : Fault}
    (h : c.applied name count origin = .error fault) : fault.isRefusal = false := by
  rw [applied] at h
  split at h
  · cases h
    rfl
  · simp only at h
    split at h
    · cases h
    · split at h <;> cases h <;> rfl

/-- A declaration whose schema has been refused is known after that by the id it was refused for. -/
theorem Runs.exists_refused {p : Pending c} {t : Task c} {r r' : Resolver c} {out : Except Fault t.Answer}
    (h : Runs p t r out r') {fault : Fault} (hout : out = .error fault) (hrefusal : fault.isRefusal = true) :
    ∃ m : Moment c, Moment.Within ⟨p, t, r⟩ m ∧ ∃ i args, m.Refused i args fault ∧
      r'.id? (c.identity i args) = some (m.resolver.expansionId i args) := by
  have later {m m' : Moment c} {r' : Resolver c} (hstarts : m.Starts m')
      (h : ∃ m'' : Moment c, m'.Within m'' ∧ ∃ i args, m''.Refused i args fault ∧
        r'.id? (c.identity i args) = some (m''.resolver.expansionId i args)) :
      ∃ m'' : Moment c, m.Within m'' ∧ ∃ i args, m''.Refused i args fault ∧
        r'.id? (c.identity i args) = some (m''.resolver.expansionId i args) := by
    obtain ⟨m'', hwithin, hrefused⟩ := h
    exact ⟨m'', .head hstarts hwithin, hrefused⟩
  induction h with
  | consHead _ ih =>
    cases hout
    exact later .head (ih rfl)
  | consTail hhead _ _ ihTail =>
    cases hout
    exact later (.tail hhead) (ihTail rfl)
  | builtFault he _ ih =>
    cases hout
    exact later (.parts he) (ih rfl)
  | named he hs hi hargs _ _ ihName => exact later (.apply he hs hi hargs) (ihName hout)
  | namedFault he hs hi _ ih =>
    cases hout
    exact later (.args he hs hi) (ih rfl)
  | misapplied _ _ hi =>
    cases hout
    rw [Catalog.isRefusal_of_applied hi] at hrefusal
    cases hrefusal
  -- the only fault that is raised here comes from filling
  | expanded hp hk hd hbody =>
    have hfill := referenceTo_eq_error.mp hout
    refine ⟨_, .refl, _, _, .mk hp hk hd hbody hfill, ?_⟩
    rw [Resolver.id?_filled_self, hfill]
    rfl
  | expandedFault hp hk hd _ ih =>
    cases hout
    exact later (.body hp hk hd) (ih rfl)
  | unbound | callable | deep =>
    cases hout
    cases hrefusal
  | _ => cases hout

/-! ## Ids that are not shared

Here is when both conditions hold: if an id that is insisted on belongs to one declaration, then what is reserved is
never asked for by others and nothing is refused. -/

/-- An id that is insisted on belongs to one declaration alone. -/
def Catalog.Unshared (c : Catalog) : Prop := ∀ i j id, (c.get i).InsistsOn id → (c.get j).CanHave id → j = i

/-- Where ids are not shared, no two declarations clash over one. -/
theorem Catalog.Unshared.not_clash (hc : c.Unshared) (id : String) : ¬c.Clash id := by
  rintro ⟨i, j, hne, hinsists, hmade | ⟨hother, -⟩⟩
  · exact hne (hc i j id hinsists (Or.inr hmade)).symm
  · exact hne (hc i j id hinsists (Or.inl hother)).symm

/-- What is reserved at a moment is pending, and every slot is accounted for. -/
structure Moment.Tracked (m : Moment c) : Prop where
  bounded : m.Bounded
  owns : m.pending.Owns m.resolver.registry
  settled : ∀ id, Settled id m.resolver
  waiting : ∀ id, Waiting id m.pending m.resolver

namespace Moment.Tracked

variable {m m' : Moment c}

/-- What is tracked at a moment is tracked at the moments of the tasks that it starts. -/
theorem starts (hc : c.Unshared) (h : m.Tracked) (hstarts : m.Starts m') : m'.Tracked := by
  have hbounded := h.bounded.starts hstarts
  obtain ⟨⟨happlied, -⟩, howns, hsettled, hwaiting⟩ := h
  cases hstarts with
  | head | parts | args => exact ⟨hbounded, howns, hsettled, hwaiting⟩
  | tail hrun | apply _ _ _ hrun =>
    have hkept (id : String) := hrun.settled (hc.not_clash id) trivial (hsettled id) (hwaiting id)
    exact ⟨hbounded, hrun.owns (hsettled "").sound howns, fun id => (hkept id).1, fun id => (hkept id).2.2 _ rfl⟩
  | body _ hknown =>
    exact ⟨hbounded, howns.opened _ _, fun id => (hsettled id).opened happlied,
      fun id => (hwaiting id).opened hknown happlied⟩

/-- Nobody asks for the id of an expansion that has begun: it would have to be the same declaration. -/
theorem clear (hc : c.Unshared) (h : m.Tracked) : m.Clear := by
  obtain ⟨p, t, r⟩ := m
  rintro _ name i args origin rfl hpending - rfl explicit order hslot
  rcases expansionId_cases r h.bounded.1 with ⟨hinsists, -⟩ | ⟨-, -, hnew⟩
  · obtain ⟨entry, hentry, hid⟩ := List.mem_map.mp (h.owns _ _ _ hslot)
    have hcan : (c.get entry.1.declaration).CanHave (r.expansionId i args) :=
      ((h.waiting _).held entry hentry hid).imp And.left And.left
    have hidentity : c.identity i args = entry.1 :=
      identity_eq (hc _ _ _ hinsists hcan) (h.bounded.2.arity entry hentry) h.bounded.1 hinsists
    simpa [hidentity] using List.lookup_eq_none_iff.mp hpending entry hentry
  · rw [show r.registry.slots.find? _ = none from hnew] at hslot
    cases hslot

/-- What is pending has no schema yet. -/
theorem get?_pending (hc : c.Unshared) (h : m.Tracked) {identity : Identity c} {id : String}
    (hid : m.pending.id? identity = some id) : m.resolver.registry.get? id = none := by
  have hentry := Pending.mem_of_id? hid
  rcases (h.waiting id).held _ hentry rfl with ⟨hinsists, slot, hslot⟩ | ⟨-, explicit, order, hslot⟩
  · have hexplicit := (h.settled id).isExplicit (hc.not_clash id) hinsists hslot
    rcases slot with ⟨explicit, order⟩ | ⟨explicit, order, s, owner⟩
    · exact Registry.get?_of_reserved hslot
    · -- whoever filled it insists on it and is known, so it would be the pending declaration itself
      cases hexplicit
      obtain ⟨j, hother, -, hknown⟩ := (h.settled id).owned order s owner hslot
      obtain rfl := hc _ _ _ hinsists (Or.inl hother)
      have hargs : identity.args = [] := by
        have harity := h.bounded.2.arity _ hentry
        rwa [hinsists.2, List.length_nil, List.length_eq_zero_iff] at harity
      have hunknown := (h.waiting id).unknown _ hentry
      rw [show (⟨identity.declaration, []⟩ : Identity c) = identity by rw [← hargs], hunknown] at hknown
      cases hknown
  · exact Registry.get?_of_reserved hslot

/-- A declaration that is not known has a new id. -/
theorem find?_expansionId (hc : c.Unshared) {p : Pending c} {name : String} {i : Fin c.size} {args : List Schema}
    {origin : Location} {r : Resolver c} (h : Tracked ⟨p, .apply name i args origin, r⟩)
    (hp : p.id? (c.identity i args) = none) (hk : r.id? (c.identity i args) = none) :
    r.registry.slots.find? (r.expansionId i args) = none := by
  have happlied : args.length = (c.get i).typeParams.length := h.bounded.1
  rcases expansionId_cases r happlied with ⟨hinsists, -⟩ | ⟨-, -, hnew⟩
  · rcases hslot : r.registry.slots.find? (r.expansionId i args) with _ | slot
    · rfl
    have hexplicit := (h.settled _).isExplicit (hc.not_clash _) hinsists hslot
    rcases slot with ⟨explicit, order⟩ | ⟨explicit, order, s, owner⟩
    · exact absurd hslot (h.clear hc _ name i args origin rfl hp hk rfl explicit order)
    · -- whoever filled it would be known
      cases hexplicit
      obtain ⟨j, hother, -, hknown⟩ := (h.settled _).owned order s owner hslot
      obtain rfl := hc _ _ _ hinsists (Or.inl hother)
      obtain rfl := hinsists.args_eq_nil happlied
      rw [show (⟨j, []⟩ : Identity c) = c.identity j [] from rfl, hk] at hknown
      cases hknown
  · exact hnew

/-- Where ids are not shared nothing is refused: a new id has no schema that could be in the way. -/
theorem not_refused (hc : c.Unshared) (h : m.Tracked) {i : Fin c.size} {args : List Schema} {fault : Fault} :
    ¬m.Refused i args fault := by
  rintro ⟨hp, hk, hd, hbody, hfill⟩
  have hbodyClear : ∀ m', Moment.Within _ m' → m'.Clear := fun m' hm =>
    (hm.invariant (starts hc) (h.starts hc (.body hp hk hd))).clear hc
  have hslot := hbody.reserved_lasts (fun m hm => hbodyClear m hm _) (find?_opened (h.find?_expansionId hc hp hk))
  rcases Registry.fill_cases _ _ _ _ with ⟨_, hf, hno⟩ | ⟨_, -, -, hf⟩ | ⟨_, _, -, -, -, -, hf⟩ | ⟨_, _, -, hf⟩
  · exact hno ⟨_, _, hslot⟩
  all_goals
    rw [hf] at hfill
    cases hfill

end Moment.Tracked

/-- A call starts with nothing pending, so all is tracked. -/
theorem Moment.tracked_call (hc : c.Unshared) {r : Resolver c} (hr : r.Called fun _ _ _ => True) (e : TypeExpr)
    (origin : Location) : (Moment.call e origin r).Tracked := by
  have hsettled (id : String) : Settled id r := hr.invariant (settled_empty id) fun hs hrun _ =>
    (hrun.settled (hc.not_clash id) trivial hs (waiting_empty id _)).1
  have howns : ({} : Pending c).Owns r.registry := by
    have hinvariant := hr.invariant (P := fun r => r.registry.Sound ∧ ({} : Pending c).Owns r.registry)
      ⟨Registry.sound_empty, fun _ _ _ hslot => (by cases hslot)⟩
      fun ⟨hsound, howns⟩ hrun _ => ⟨hsound.moves hrun.moves, hrun.owns hsound howns⟩
    exact hinvariant.2
  exact ⟨⟨trivial, Pending.bounded_empty⟩, howns, hsettled, fun id => waiting_empty id r⟩

/-! ## Calls that fail

The two parts are put together for a call after any calls before it. -/

/-- What is known after any calls is registered under the id that it is known by. -/
theorem Resolver.Called.recorded {allowed : TypeExpr → Location → Except Fault Schema → Prop} {r : Resolver c}
    (h : r.Called allowed) : Recorded {} r := h.invariant recorded_empty fun hr hrun _ => hrun.recorded hr

/-- After calls that have not corrupted the registry, registered schemas point at registered ids. -/
theorem Resolver.Called.backed {r : Resolver c} (h : r.Called Intact) : r.Backed := by
  obtain ⟨q, hcoherent, -⟩ : Adrift (fun _ : Fin c.size => True) r :=
    h.invariant adrift_empty fun h hrun hout => h.call hrun hout.survives
  exact fun identity id hid => hcoherent.known identity id (mem_of_id? hid)

/-- Where ids are not shared, no call corrupts the registry. -/
theorem Resolver.Called.intact (hc : c.Unshared) {r : Resolver c} (h : r.Called fun _ _ _ => True) :
    r.Called Intact := by
  induction h with
  | fresh => exact .fresh
  | call hr hrun _ ih =>
    refine .call ih hrun fun id heq => ?_
    rw [heq] at hrun
    obtain ⟨other, -, hclash⟩ := clash_of_fatal hr hrun rfl
    exact hc.not_clash other hclash

/-- A failed resolution stays failed. After any calls that have not corrupted the registry, a call that fails

* fails with the same fault however often it is made again, and leaves what is known and registered as it is, if the
  fault is not a refusal of the registry, and nothing that is expanded on the way asks for an id that is reserved for
  something else;
* leaves the declaration whose schema was refused known by the id it was refused for, if the fault is a refusal.

The first is the only case if an id that is insisted on belongs to one declaration alone. -/
theorem failures_stay :
    (∀ r : Resolver c, r.Called Intact → ∀ e origin fault r', (resolve e origin).run r = (.error fault, r') →
      (fault.isRefusal = false → (∀ m, (Moment.call e origin r).Within m → m.Clear) →
        r'.FailsForEver e origin fault) ∧
      (fault.isRefusal = true → ∃ m, (Moment.call e origin r).Within m ∧ ∃ i args, m.Refused i args fault ∧
        r'.id? (c.identity i args) = some (m.resolver.expansionId i args))) ∧
    (c.Unshared → ∀ r : Resolver c, (r.Called fun _ _ _ => True) → ∀ e origin fault r',
      (resolve e origin).run r = (.error fault, r') → r'.FailsForEver e origin fault) := by
  have hstays {r : Resolver c} (hr : r.Called Intact) {e : TypeExpr} {origin : Location} {fault : Fault}
      {r' : Resolver c} (h : (resolve e origin).run r = (.error fault, r')) (hrefusal : fault.isRefusal = false)
      (hclear : ∀ m, (Moment.call e origin r).Within m → m.Clear) : r'.FailsForEver e origin fault :=
    Runs.failsForEver (runs_iff.mpr h) hrefusal hclear hr.recorded hr.backed
  refine ⟨fun r hr e origin fault r' h => ⟨hstays hr h, fun hrefusal => ?_⟩, fun hc r hr e origin fault r' h => ?_⟩
  · have hrun : Runs {} (.node [] origin e) r (.error fault) r' := runs_iff.mpr h
    exact hrun.exists_refused rfl hrefusal
  · have htracked (m : Moment c) (hm : (Moment.call e origin r).Within m) : m.Tracked :=
      hm.invariant (Moment.Tracked.starts hc) (Moment.tracked_call hc hr e origin)
    have hrefusal : fault.isRefusal = false := by
      rw [← Bool.not_eq_true]
      intro hrefusal
      have hrun : Runs {} (.node [] origin e) r (.error fault) r' := runs_iff.mpr h
      obtain ⟨m, hm, i, args, hrefused, -⟩ := hrun.exists_refused rfl hrefusal
      exact (htracked m hm).not_refused hc hrefused
    exact hstays (hr.intact hc) h hrefusal fun m hm => (htracked m hm).clear hc

/-- Nobody insists on an id for a cup, a saucer or a pot. -/
theorem cupCatalog_unshared : cupCatalog.Unshared := by
  intro i j id hinsists
  have hnone : ∀ i, (cupCatalog.get i).externalId = none := by decide
  rw [Declaration.InsistsOn, hnone i] at hinsists
  cases hinsists.1

/-- A lid and a cover insist on one id. -/
def lidCatalog : Catalog where
  declarations := [
    { name := "Lid", externalId := some "Lid", body := .object [("width", ⟨.primitive .f64, true⟩)] false,
      location := ⟨⟨"lid.rs"⟩, 1, 0⟩ },
    { name := "Cover", externalId := some "Lid", body := .object [("wooden", ⟨.primitive .bool, true⟩)] false,
      location := ⟨⟨"lid.rs"⟩, 5, 0⟩ }]

/-- A pot has a function and fails, the second and the third time as well. A cover is refused beside a lid, and is known
then by the id of the lid. -/
theorem failures_stay_pot :
    (∃ (fault : Fault) (r q : Resolver cupCatalog),
      (resolve (.reference "Pot") ⟨⟨"cup.rs"⟩, 20, 0⟩).run {} = (.error fault, r) ∧ fault.isRefusal = false ∧
      r.FailsForEver (.reference "Pot") ⟨⟨"cup.rs"⟩, 20, 0⟩ fault ∧
      (resolve (.reference "Pot") ⟨⟨"cup.rs"⟩, 20, 0⟩).run r = (.error fault, q)) ∧
    ∃ (fault : Fault) (r r' : Resolver lidCatalog) (i : Fin lidCatalog.size) (args : List Schema) (id : String),
      r.Called Intact ∧ (resolve (.reference "Cover") ⟨⟨"lid.rs"⟩, 9, 0⟩).run r = (.error fault, r') ∧
      fault.isRefusal = true ∧ r'.id? (lidCatalog.identity i args) = some id ∧
      ((resolve (.reference "Cover") ⟨⟨"lid.rs"⟩, 9, 0⟩).run r').1 = .ok (.reference "Lid") := by
  constructor
  · -- the function in the pot is what fails, and no declaration of the catalog insists on an id
    have hpot : (match ((resolve (.reference "Pot") ⟨⟨"cup.rs"⟩, 20, 0⟩).run ({} : Resolver cupCatalog)).1 with
        | .error fault => !fault.isRefusal
        | .ok _ => false) = true := by
      rw [resolve_eq_within]
      decide +kernel
    rcases h : (resolve (.reference "Pot") ⟨⟨"cup.rs"⟩, 20, 0⟩).run ({} : Resolver cupCatalog) with ⟨fault | s, r⟩
    · rw [h] at hpot
      have hrefusal : fault.isRefusal = false := by simpa using hpot
      have hclear (m : Moment cupCatalog)
          (hm : (Moment.call (.reference "Pot") ⟨⟨"cup.rs"⟩, 20, 0⟩ ({} : Resolver cupCatalog)).Within m) : m.Clear :=
        (hm.invariant (Moment.Tracked.starts cupCatalog_unshared)
          (Moment.tracked_call cupCatalog_unshared .fresh _ _)).clear cupCatalog_unshared
      have hstays := (failures_stay.1 {} .fresh _ _ fault r h).1 hrefusal hclear
      obtain ⟨q, hq, -⟩ := failures_stay.2 cupCatalog_unshared {} .fresh _ _ fault r h 0
      exact ⟨fault, r, q, rfl, hrefusal, hstays, hq⟩
    · rw [h] at hpot
      cases hpot
  · -- the lid holds the id when the cover asks for it, and the next call finds the cover known by that id
    have hcover : (match ((resolve (.reference "Cover") ⟨⟨"lid.rs"⟩, 9, 0⟩).run
        ((resolve (.reference "Lid") ⟨⟨"lid.rs"⟩, 8, 0⟩).run ({} : Resolver lidCatalog)).2).1 with
        | .error fault => fault.isRefusal
        | .ok _ => false) = true := by
      rw [resolve_eq_within, resolve_eq_within]
      decide +kernel
    have hagain : ((resolve (.reference "Cover") ⟨⟨"lid.rs"⟩, 9, 0⟩).run
        ((resolve (.reference "Cover") ⟨⟨"lid.rs"⟩, 9, 0⟩).run
          ((resolve (.reference "Lid") ⟨⟨"lid.rs"⟩, 8, 0⟩).run ({} : Resolver lidCatalog)).2).2).1.toOption.bind
            Schema.refId? = some "Lid" := by
      rw [resolve_eq_within, resolve_eq_within]
      decide +kernel
    have hlid : ((resolve (.reference "Lid") ⟨⟨"lid.rs"⟩, 8, 0⟩).run ({} : Resolver lidCatalog)).1.isOk = true := by
      rw [resolve_eq_within]
      decide +kernel
    rcases hl : (resolve (.reference "Lid") ⟨⟨"lid.rs"⟩, 8, 0⟩).run ({} : Resolver lidCatalog) with ⟨fault | s, r⟩
    · rw [hl] at hlid
      cases hlid
    rw [hl] at hcover hagain
    rcases h : (resolve (.reference "Cover") ⟨⟨"lid.rs"⟩, 9, 0⟩).run r with ⟨fault | t, r'⟩
    · rw [h] at hcover hagain
      have hr : r.Called Intact := .call .fresh hl nofun
      obtain ⟨m, -, i, args, -, hid⟩ := (failures_stay.1 r hr _ _ fault r' h).2 hcover
      refine ⟨fault, r, r', i, args, _, hr, h, hcover, hid, ?_⟩
      rcases hout : ((resolve (.reference "Cover") ⟨⟨"lid.rs"⟩, 9, 0⟩).run r').1 with fault | s
      · rw [hout] at hagain
        cases hagain
      · rw [hout] at hagain
        exact congrArg _ (Schema.eq_reference_of_refId? hagain)
    · rw [h] at hcover
      cases hcover

end RouteManifest
