import RouteManifest.Proofs.Resolution.Failure
import RouteManifest.Proofs.Resolution.InPlace
import RouteManifest.Proofs.Resolution.Tidy

/-!
# Between two calls

A call that ends, with a schema or a fault, leaves nothing half done: whatever is reserved belongs to an expansion that
has begun and not ended (`Pending.Owns`), and there is none between two calls.

What a call has found out remains so. Ids are known for good, and schemas are registered for good, however many other
calls come and fail (`Resolver.LastsIn`). So a call that has succeeded can be made again: its names are known, and its
parts are put together once more. The schema of a union or an intersection depends on the objects that are registered
then, and more of them may be registered now; but it depends only on those that its parts point at, and outside all
declarations these are registered as soon as the parts are resolved (`Registry.Anchors`).

A call that has failed is another matter, since what it was in the middle of is not known. `Repeated` is about these.
-/

namespace RouteManifest

variable {c : Catalog}

/-! ## Reservations

An expansion reserves its id when it begins. When it ends the id is filled or given up, and when it fails it is given
back, so the reservation is gone in any case. -/

/-- Everything that is reserved is pending. -/
def Pending.Owns (p : Pending c) (r : Registry) : Prop :=
  ∀ id explicit order, r.slots.find? id = some (.reserved explicit order) → id ∈ p.identities.map Prod.snd

section Reservations

variable {p : Pending c} {r : Resolver c}

/-- The new reservation belongs to the expansion that begins. -/
theorem Pending.Owns.opened (h : p.Owns r.registry) (i : Fin c.size) (args : List Schema) :
    (p.push (c.identity i args) (r.expansionId i args)).Owns (r.opened i args).registry := by
  intro id explicit order hslot
  rcases Registry.find?_of_reserve hslot with hslot | ⟨-, rfl, -⟩
  · exact List.mem_cons_of_mem _ (h id explicit order hslot)
  · exact List.mem_cons_self

/-- After the end of an expansion its id is not reserved, whether the schema was taken or not. -/
theorem Pending.Owns.filled {identity : Identity c} {id : String} (h : (p.push identity id).Owns r.registry)
    (hr : r.registry.Sound) (body : Schema) (owner : Location) :
    p.Owns (r.filled identity id body owner).registry := by
  intro other explicit order hslot
  have hne : id ≠ other := by
    rintro rfl
    exact Registry.find?_fill_ne_reserved hr.names_nodup body owner order hslot
  have hslot := (Registry.find?_fill_of_ne r.registry body owner hne).symm.trans hslot
  exact (List.mem_cons.mp (h other explicit order hslot)).resolve_left hne.symm

/-- A failed expansion has its id taken away. -/
theorem Pending.Owns.released {identity : Identity c} {id : String} (h : (p.push identity id).Owns r.registry)
    (hr : r.registry.Sound) : p.Owns (r.released id).registry := by
  intro other explicit order hslot
  have hold := Registry.find?_of_release hr.names_nodup hslot
  refine (List.mem_cons.mp (h other explicit order hold)).resolve_left ?_
  rintro rfl
  rw [Resolver.released, Registry.release, hold] at hslot
  simp only [Table.find?_erase_self hr.names_nodup] at hslot
  cases hslot

end Reservations

/-- An expansion that ends, or fails, leaves no reservation. -/
theorem Runs.owns {p : Pending c} {t : Task c} {r r' : Resolver c} {out : Except Fault t.Answer}
    (h : Runs p t r out r') (hr : r.registry.Sound) (hp : p.Owns r.registry) : p.Owns r'.registry := by
  have hinvariant : r'.registry.Sound ∧ p.Owns r'.registry := by
    refine h.invariant (P := fun p r => r.registry.Sound ∧ p.Owns r.registry) (fun i args _ _ ⟨hr, hp⟩ => ?_)
      (fun _ _ _ body _ ⟨hr, hp⟩ => ?_) (fun _ _ _ ⟨hr, hp⟩ => ?_) ⟨hr, hp⟩
    · exact ⟨hr.opened i args, hp.opened i args⟩
    · exact ⟨hr.filled _ _ _ _, hp.filled hr body _⟩
    · exact ⟨hr.released _, hp.released hr⟩
  exact hinvariant.2

/-! ## What lasts

Nothing is ever forgotten: an identity is entered once, and a filled slot stays as it is. -/

/-- What one resolver knows and has registered, the other one does as well. -/
structure Resolver.LastsIn (r r' : Resolver c) : Prop where
  known : ∀ identity id, r.id? identity = some id → r'.id? identity = some id
  registered : ∀ id s, r.registry.get? id = some s → r'.registry.get? id = some s

/-- What is known now is known now. -/
theorem Resolver.LastsIn.refl (r : Resolver c) : r.LastsIn r := ⟨fun _ _ h => h, fun _ _ h => h⟩

/-- What lasts for a while, and then for another, lasts. -/
theorem Resolver.LastsIn.trans {r r' r'' : Resolver c} (h : r.LastsIn r') (h' : r'.LastsIn r'') : r.LastsIn r'' :=
  ⟨fun identity id hid => h'.known identity id (h.known identity id hid),
    fun id s hs => h'.registered id s (h.registered id s hs)⟩

/-- An identity that is pushed is pending. -/
theorem Pending.ne_of_push {p : Pending c} {identity other : Identity c} {id : String}
    (h : (p.push identity id).id? other = none) : other ≠ identity := by
  rintro rfl
  rw [id?_push_self] at h
  cases h

/-- An identity that is known, and not pending, stays known by its id: it is not expanded again. -/
theorem Runs.id?_lasts {p : Pending c} {t : Task c} {r r' : Resolver c} {out : Except Fault t.Answer}
    (h : Runs p t r out r') {identity : Identity c} {id : String} (hp : p.id? identity = none)
    (hid : r.id? identity = some id) : r'.id? identity = some id := by
  have hinvariant : p.id? identity = none ∧ r'.id? identity = some id := by
    refine h.invariant (P := fun p r => p.id? identity = none ∧ r.id? identity = some id)
      (fun i args _ hk ⟨hp, hid⟩ => ?_) (fun i args own _ hp ⟨hpush, hid⟩ => ?_) (fun i args own ⟨hpush, hid⟩ => ?_)
      ⟨hp, hid⟩
    · have hne : identity ≠ c.identity i args := by
        rintro rfl
        rw [hk] at hid
        cases hid
      exact ⟨(Pending.id?_push_of_ne hne).trans hp, hid⟩
    · have hne := Pending.ne_of_push hpush
      exact ⟨(Pending.id?_push_of_ne hne).symm.trans hpush, (Resolver.id?_filled_of_ne hne).trans hid⟩
    · exact ⟨(Pending.id?_push_of_ne (Pending.ne_of_push hpush)).symm.trans hpush, hid⟩
  exact hinvariant.2

/-- What is known before a call is known after it. -/
theorem Runs.lastsIn {t : Task c} {r r' : Resolver c} {out : Except Fault t.Answer} (h : Runs {} t r out r') :
    r.LastsIn r' :=
  ⟨fun _ _ hid => h.id?_lasts rfl hid, fun _ _ hs => Registry.get?_of_moves h.moves hs⟩

/-- What is known before some calls is known after them. -/
theorem Resolver.lastsIn_after (r : Resolver c) (calls : List (TypeExpr × Location)) : r.LastsIn (r.after calls) := by
  induction calls generalizing r with
  | nil => exact .refl r
  | cons call calls ih => exact (Task.runs {} (.node [] call.2 call.1) r).lastsIn.trans (ih _)

/-! ## What is seen in the parts

The registry is asked for one thing while a schema is built: which object is seen in a part. If that is the same in two
registries, they build the same. -/

/-- A schema that is nothing but a `$ref` points at a registered one. -/
def Registry.Anchors (r : Registry) (s : Schema) : Prop := ∀ id, s.refId? = some id → ∃ t, r.get? id = some t

/-- A reference to a registered id is anchored. -/
theorem Registry.Anchors.reference {r : Registry} {id : String} {t : Schema} (h : r.get? id = some t) :
    r.Anchors (.reference id) := by
  intro other hother
  cases hother
  exact ⟨t, h⟩

section Views

variable {r r' : Registry} (hregistered : ∀ id t, r.get? id = some t → r'.get? id = some t)
include hregistered

/-- What is anchored stays so. -/
theorem Registry.Anchors.mono {s : Schema} (h : r.Anchors s) : r'.Anchors s := by
  intro id hid
  obtain ⟨t, ht⟩ := h id hid
  exact ⟨t, hregistered id t ht⟩

/-- What is seen in an anchored schema stays the same. -/
theorem Registry.Anchors.objectView?_eq {s : Schema} (h : r.Anchors s) : r'.objectView? s = r.objectView? s := by
  rw [objectView?, objectView?]
  rcases hid : s.refId? with _ | id
  · rfl
  · obtain ⟨t, ht⟩ := h id hid
    simp only [ht, hregistered id t ht]

end Views

namespace Registry

variable {r r' : Registry}

/-- The discriminator of a union depends on the objects that are seen in its alternatives, and on nothing else. -/
theorem discriminator?_congr {alternatives : List Schema}
    (h : ∀ s ∈ alternatives, r'.objectView? s = r.objectView? s) :
    r'.discriminator? alternatives = r.discriminator? alternatives := by
  have hviews {l : List Schema} (hl : ∀ s ∈ l, r'.objectView? s = r.objectView? s) :
      l.mapM r'.objectView? = l.mapM r.objectView? := by
    induction l with
    | nil => rfl
    | cons s rest ih =>
      obtain ⟨hs, hrest⟩ := List.forall_mem_cons.mp hl
      rw [List.mapM_cons, List.mapM_cons, hs, ih hrest]
  rw [discriminator?, discriminator?, hviews h]

theorem oneOf_congr {alternatives : List Schema} (h : ∀ s ∈ alternatives, r'.objectView? s = r.objectView? s) :
    r'.oneOf alternatives = r.oneOf alternatives := by
  unfold oneOf
  split
  · rfl
  · rw [discriminator?_congr fun s hs => h s (mem_of_mem_distinctShapes hs)]

/-- Merging depends on the objects that are seen in the parts, and on nothing else. -/
theorem mergeParts_congr {parts : List Schema} (h : ∀ s ∈ parts, r'.objectView? s = r.objectView? s)
    (properties : Table Schema) (required : List String) :
    r'.mergeParts properties required parts = r.mergeParts properties required parts := by
  induction parts generalizing properties required with
  | nil => rfl
  | cons part rest ih =>
    obtain ⟨hpart, hrest⟩ := List.forall_mem_cons.mp h
    simp only [mergeParts, hpart, ih hrest]

theorem allOf_congr {parts : List Schema} (h : ∀ s ∈ parts, r'.objectView? s = r.objectView? s) :
    r'.allOf parts = r.allOf parts := by
  unfold allOf
  split
  · rfl
  · rw [mergeParts_congr h]

end Registry

namespace TypeExpr

variable {e : TypeExpr} {parts : List TypeExpr} {build : Registry → List Schema → Schema} {l : List Schema}

/-- What is built depends on the registry as far as it is seen in the parts. -/
theorem build_congr (h : e.form = .built parts build) {r r' : Registry}
    (hl : ∀ s ∈ l, r'.objectView? s = r.objectView? s) : build r' l = build r l := by
  cases e with
  | union variants =>
    cases unionForm h with
    | null | literals => rfl
    | alternatives => exact congrArg (orNullOf variants) (Registry.oneOf_congr hl)
  | intersection members =>
    cases h
    exact Registry.allOf_congr hl
  | _ =>
    cases h
    try rfl

/-- A `$ref` that is built is one of the parts. -/
theorem refId?_build (h : e.form = .built parts build) {r : Registry} {id : String}
    (hid : (build r l).refId? = some id) : ∃ s ∈ l, s.refId? = some id := by
  have hnone {s : Schema} (hs : s.refId? = none) (heq : build r l = s) : ∃ s ∈ l, s.refId? = some id := by
    rw [heq, hs] at hid
    cases hid
  -- a `$ref` comes out only where a single part is left
  by_cases he : ∃ members, e = .intersection members
  · obtain ⟨members, rfl⟩ := he
    cases h
    rcases r.allOf_cases l with ⟨s, rfl, heq⟩ | ⟨properties, required, -, heq⟩ | ⟨-, heq⟩
    · exact ⟨s, List.mem_cons_self, heq ▸ hid⟩
    · exact hnone rfl heq
    · exact hnone rfl heq
  · rcases build_cases (fun members heq => he ⟨members, heq⟩) h r l with ⟨variants, s, -, -, -, hs, rfl⟩ | ⟨hs, -⟩
    · rw [Registry.oneOf_single hs] at hid
      exact ⟨s, mem_of_mem_distinctShapes (by rw [hs]; exact List.mem_cons_self), hid⟩
    · exact hnone hs rfl

/-- What is built of anchored schemas is anchored. -/
theorem anchors_build (h : e.form = .built parts build) {r : Registry} (hl : ∀ s ∈ l, r.Anchors s) :
    r.Anchors (build r l) := by
  intro id hid
  obtain ⟨s, hs, hid⟩ := refId?_build h hid
  exact hl s hs id hid

end TypeExpr

/-! ## Again

Outside all declarations nothing is pending, so every reference in an answer points at a registered schema, and what is
seen there stays in sight. -/

/-- A task outside all declarations: there are no type parameters. -/
def Task.Outer : Task c → Prop
  | .node scope _ _ => scope = []
  | .list scope _ _ => scope = []
  | .apply _ _ _ _ => False

section Outer

variable {t : Task c} {r r' : Resolver c} {q : Pending c}

/-- A task outside all declarations can start in any coherent state and leaves one. -/
theorem Runs.coherent_of_outer {answer : t.Answer} (h : Runs {} t r (.ok answer) r') (ht : t.Outer)
    (hr : Coherent q r) : Coherent q r' ∧ ∀ s ∈ t.outputs answer, s.Closed (q.Live r'.registry) := by
  cases t with
  | node scope origin e =>
    obtain rfl := ht
    exact (h.coherent (.outside trivial hr nofun)).ok answer rfl
  | list scope origin es =>
    obtain rfl := ht
    exact (h.coherent (.outside trivial hr nofun)).ok answer rfl
  | apply => exact ht.elim

/-- A name stands for what is pending or known of its declaration. -/
theorem Runs.exists_id {p : Pending c} {name : String} {i : Fin c.size} {args : List Schema} {origin : Location}
    {out : Except Fault Schema} (h : Runs p (.apply name i args origin) r out r') {s : Schema} (hout : out = .ok s) :
    ∃ id, s = .reference id ∧ (p.id? (c.identity i args) = some id ∨ r'.id? (c.identity i args) = some id) := by
  cases h with
  | pending hid =>
    cases hout
    exact ⟨_, rfl, Or.inl hid⟩
  | known _ hid =>
    cases hout
    exact ⟨_, rfl, Or.inr hid⟩
  | deep => cases hout
  | expanded =>
    obtain ⟨id, hfill, rfl⟩ := referenceTo_eq_ok.mp hout
    refine ⟨id, rfl, Or.inr ?_⟩
    rw [Resolver.id?_filled_self, hfill]
    rfl
  | expandedFault => cases hout

/-- What a task has answered is anchored, and wherever no less is known the task answers the same and changes
nothing. -/
theorem Runs.again {p : Pending c} {out : Except Fault t.Answer} (h : Runs p t r out r') (hp : p = {}) (ht : t.Outer)
    (hr : Coherent q r) {answer : t.Answer} (hout : out = .ok answer) :
    (∀ s ∈ t.outputs answer, r'.registry.Anchors s) ∧ ∀ r'', r'.LastsIn r'' → Runs p t r'' (.ok answer) r'' := by
  induction h with
  | nil =>
    cases hout
    exact ⟨nofun, fun _ _ => .nil⟩
  | cons hhead htail ihHead ihTail =>
    subst hp
    cases hout
    obtain ⟨hs, hagainHead⟩ := ihHead rfl ht hr rfl
    obtain ⟨hl, hagainTail⟩ := ihTail rfl ht (hhead.coherent_of_outer ht hr).1 rfl
    refine ⟨List.forall_mem_cons.mpr ⟨?_, hl⟩, fun r'' hlasts => ?_⟩
    · exact (hs _ List.mem_cons_self).mono htail.lastsIn.registered
    · exact .cons (hagainHead r'' (htail.lastsIn.trans hlasts)) (hagainTail r'' hlasts)
  | @built p scope origin e parts build r l r' he _ ih =>
    cases hout
    obtain ⟨hl, hagain⟩ := ih hp ht hr rfl
    refine ⟨List.forall_mem_singleton.mpr (TypeExpr.anchors_build he hl), fun r'' hlasts => ?_⟩
    -- more may be registered by now, but nothing that is seen in the parts
    have hbuild : build r''.registry l = build r'.registry l :=
      TypeExpr.build_congr he fun s hs => (hl s hs).objectView?_eq hlasts.registered
    rw [← hbuild]
    exact .built he (hagain r'' hlasts)
  | bound _ hs =>
    rw [show _ = [] from ht] at hs
    cases hs
  | named he hs hi hargs hname ihArgs _ =>
    subst hp
    obtain ⟨-, hagain⟩ := ihArgs rfl ht hr rfl
    obtain ⟨hr', hl⟩ := hargs.coherent_of_outer ht hr
    have happlied := hargs.length_eq.trans (Catalog.applied_eq_ok.mp hi).2.symm
    have hr'' := ((hname.coherent (.outside happlied hr' hl)).ok answer hout).1
    obtain ⟨id, rfl, hpending | hid⟩ := hname.exists_id hout
    · cases hpending
    -- the body is not resolved again: the name is known, whatever it took to find out
    obtain ⟨entry, hentry⟩ := hr''.known _ _ (Resolver.mem_of_id? hid)
    refine ⟨List.forall_mem_singleton.mpr (.reference hentry), fun r'' hlasts => ?_⟩
    exact .named he hs hi (hagain r'' (hname.lastsIn.trans hlasts)) (.known rfl (hlasts.known _ _ hid))
  | pending => exact ht.elim
  | known => exact ht.elim
  | expanded => exact ht.elim
  | _ => cases hout

end Outer

/-! ## Calls

Calls that corrupt the registry are left out: it can be an id without a slot that corrupts it, and then a declaration is
known by an id that has no schema. -/

/-- A call that does not corrupt the registry. -/
def Intact (_ : TypeExpr) (_ : Location) (out : Except Fault Schema) : Prop :=
  ∀ id, out ≠ .error (.registryCorruption id)

/-- A call that does not corrupt the registry survives, whatever it may lose when it fails. -/
theorem Intact.survives {e : TypeExpr} {origin : Location} {out : Except Fault Schema} (h : Intact e origin out) :
    Survives (fun _ : Fin c.size => True) e origin out := by
  rintro fault rfl
  refine ⟨?_, fun _ _ _ => trivial⟩
  cases fault with
  | registryCorruption id => exact absurd rfl (h id)
  | _ => rfl

/-- Ids are stable. After any calls that have not corrupted the registry, and any further one,

* nothing is left reserved;
* a resolver in place that has the same to begin with has answered the same, with no scope left on its stack and no
  instantiation counted;
* if the call has succeeded, it can be repeated after whatever calls come next: it has the same answer, and leaves
  everything as it is. -/
theorem ids_stable {r r' : Resolver c} (hr : r.Called Intact) {e : TypeExpr} {origin : Location}
    {out : Except Fault Schema} (h : (resolve e origin).run r = (out, r')) :
    (∀ id explicit order, r'.registry.slots.find? id ≠ some (.reserved explicit order)) ∧
    (Works (.node origin e) r.idle out r'.idle ∧
      ∀ answer w, Works (.node origin e) r.idle answer w → answer = out ∧ w = r'.idle ∧ w.scopes = [] ∧ w.depth = 0) ∧
    ∀ s, out = .ok s → ∀ calls, (resolve e origin).run (r'.after calls) = (.ok s, r'.after calls) := by
  have hrun : Runs {} (.node [] origin e) r out r' := runs_iff.mpr h
  refine ⟨fun id explicit order hslot => ?_, ⟨?_, fun answer w hw => ?_⟩, fun s hs calls => ?_⟩
  · obtain ⟨hsound, howns⟩ := hr.invariant (P := fun r => r.registry.Sound ∧ ({} : Pending c).Owns r.registry)
      ⟨Registry.sound_empty, fun _ _ _ hslot => (by cases hslot)⟩
      fun ⟨hsound, howns⟩ hrun _ => ⟨hsound.moves hrun.moves, hrun.owns hsound howns⟩
    cases hrun.owns hsound howns id explicit order hslot
  · exact resolve_works_iff.mpr ⟨by rw [h], by rw [h]⟩
  · obtain ⟨hanswer, hw⟩ := resolve_works_iff.mp hw
    rw [h] at hanswer hw
    exact ⟨hanswer, hw, by rw [hw]; rfl, by rw [hw]; rfl⟩
  · obtain ⟨q, hcoherent, -⟩ : Adrift (fun _ : Fin c.size => True) r :=
      hr.invariant adrift_empty fun h hrun hout => h.call hrun hout.survives
    exact ((hrun.again rfl rfl hcoherent hs).2 _ (Resolver.lastsIn_after r' calls)).eq

/-- A cup has a saucer. A pot has one as well, and a function. -/
def cupCatalog : Catalog where
  declarations := [
    { name := "Cup", location := ⟨⟨"cup.rs"⟩, 1, 0⟩,
      body := .object [("saucer", ⟨.reference "Saucer", true⟩)] false },
    { name := "Saucer", location := ⟨⟨"cup.rs"⟩, 5, 0⟩, body := .object [("size", ⟨.primitive .f64, true⟩)] false },
    { name := "Pot", location := ⟨⟨"cup.rs"⟩, 9, 0⟩,
      body := .object [("saucer", ⟨.reference "Saucer", true⟩), ("pour", ⟨.callable, true⟩)] false }]

/-- Both at once are one object, before and after a pot has failed once more. -/
theorem ids_stable_cup : ∃ (fault : Fault) (r : Resolver cupCatalog) (s : Schema) (r' : Resolver cupCatalog),
    (resolve (.reference "Pot") ⟨⟨"cup.rs"⟩, 20, 0⟩).run {} = (.error fault, r) ∧
    (resolve (.intersection [.reference "Cup", .reference "Saucer"]) ⟨⟨"cup.rs"⟩, 21, 0⟩).run r = (.ok s, r') ∧
    (∀ id explicit order, r'.registry.slots.find? id ≠ some (.reserved explicit order)) ∧
    (resolve (.intersection [.reference "Cup", .reference "Saucer"]) ⟨⟨"cup.rs"⟩, 21, 0⟩).run
        (r'.after [(.reference "Pot", ⟨⟨"cup.rs"⟩, 22, 0⟩)]) =
      (.ok s, r'.after [(.reference "Pot", ⟨⟨"cup.rs"⟩, 22, 0⟩)]) := by
  have hpot : (match ((resolve (.reference "Pot") ⟨⟨"cup.rs"⟩, 20, 0⟩).run ({} : Resolver cupCatalog)).1 with
      | .error fault => !fault.isFatal
      | .ok _ => false) = true := by
    rw [resolve_eq_within]
    decide +kernel
  have hboth : ((resolve (.intersection [.reference "Cup", .reference "Saucer"]) ⟨⟨"cup.rs"⟩, 21, 0⟩).run
      ((resolve (.reference "Pot") ⟨⟨"cup.rs"⟩, 20, 0⟩).run ({} : Resolver cupCatalog)).2).1.isOk = true := by
    rw [resolve_eq_within, resolve_eq_within]
    decide +kernel
  rcases h : (resolve (.reference "Pot") ⟨⟨"cup.rs"⟩, 20, 0⟩).run ({} : Resolver cupCatalog) with ⟨fault | s, r⟩
  · rw [h] at hpot hboth
    have hr : r.Called Intact := by
      refine .call .fresh h ?_
      rintro id ⟨⟩
      cases hpot
    rcases h' : (resolve (.intersection [.reference "Cup", .reference "Saucer"]) ⟨⟨"cup.rs"⟩, 21, 0⟩).run r
      with ⟨fault | s, r'⟩
    · rw [h'] at hboth
      cases hboth
    · obtain ⟨hreserved, -, hagain⟩ := ids_stable hr h'
      exact ⟨fault, r, s, r', rfl, h', hreserved, hagain s rfl _⟩
  · rw [h] at hpot
    cases hpot

end RouteManifest
