import RouteManifest.Proofs.Registry
import RouteManifest.Proofs.Resolution.Ownership
import RouteManifest.Proofs.Resolution.Parts
import RouteManifest.Proofs.Schema.References

/-!
# Resolution leaves no reference open

An id is handed out before its schema exists, and may be given up afterwards in favour of an equal schema.
In the middle of a run a schema can thus point at an id that has no schema yet, but only at the id of an
expansion that has begun and not ended (`Pending.Live`). `Coherent` says so of all registered schemas, and
the main lemma `Runs.coherent` of a task's answer.

The interesting step is the end of an expansion whose id is given up. The registry asks whether a registered
schema holds a `$ref` to the id. It does not look at schemas that are still being built, at the arguments of
pending expansions or at the targets of mappings; it need not, since all of those were made before the id
was handed out, or are the schema itself, or point nowhere without a `$ref`.

A task that fails releases the ids of the expansions it had begun, and what was registered inside them can still
point there. So `Runs.coherent` keeps a list of the ids that may be pointed at, apart from the pending expansions. Only
a declaration that comes back to itself gets on the list, since only the body of such a one can ask for it while it is
pending; a task that succeeds leaves the list alone, and one that fails adds what it can lose (`Task.CanLose`).

What a task needs to start is a structure (`Pending.Admits`), and so is what it leaves when it ends (`Pending.Ends`).
There is one lemma for every way in which a task starts another one, and one for every way in which it ends; the
induction in `Runs.coherent` puts them together, rule by rule.
-/

namespace RouteManifest

/-! ## Putting schemas together

The ways of putting schemas together keep schemas closed, provided that the objects which are seen in them are closed,
too. -/

namespace Schema

variable {P : String → Prop}

/-- Allowing null points nowhere. -/
theorem closed_orNull {s : Schema} (hs : s.Closed P) : s.orNull.Closed P := by
  obtain ⟨k⟩ := s
  rw [orNull]
  split
  · refine closed_of_children rfl fun t ht => ?_
    obtain rfl := List.mem_singleton.mp ht
    exact hs
  · refine .mk (fun t ht => hs.of_mem_children ht) fun id hid => ?_
    obtain ⟨-, own⟩ := hs
    refine ⟨(own id hid).1, ?_⟩
    rw [references_mk]
    exact references_mk.mp (own id hid).2

/-- Literals point nowhere. -/
theorem closed_ofLiterals (literals : List Literal) : (ofLiterals literals).Closed P :=
  closed_of_children rfl fun _ hs => by cases hs

end Schema

namespace Registry

variable {P : String → Prop} {r : Registry}

/-- All registered schemas are closed. -/
def Closed (P : String → Prop) (r : Registry) : Prop := ∀ id s, r.get? id = some s → s.Closed P

/-- A union points where its alternatives do: the targets of its mapping are references among them. -/
theorem closed_oneOf {alternatives : List Schema} (h : ∀ s ∈ alternatives, s.Closed P) :
    (r.oneOf alternatives).Closed P := by
  have hdistinct : ∀ s ∈ distinctShapes [] alternatives, s.Closed P :=
    fun s hs => h s (mem_of_mem_distinctShapes hs)
  rcases r.oneOf_cases alternatives with ⟨s, hs, h⟩ | h
  · rw [h]
    exact hdistinct s (by rw [hs]; exact List.mem_cons_self)
  · rw [h]
    refine .mk (fun s hs => hdistinct s (by simpa [Keywords.children] using hs)) fun id hid => ?_
    -- what the node points at itself are the targets of its mapping
    have hmapping : ∃ s ∈ distinctShapes [] alternatives, s.keywords.ref = some id := by
      rcases hd : r.discriminator? (distinctShapes [] alternatives) with _ | d
      · rw [hd] at hid
        cases hid
      · rcases hm : d.mapping with _ | mapping
        · simp [Keywords.ownRefs, hd, hm] at hid
        · exact discriminator?_mapping hd hm (by simpa [Keywords.ownRefs, hd, hm] using hid)
    obtain ⟨⟨k⟩, hs, href⟩ := hmapping
    have hk : Schema.references id (.mk k) = true := Schema.references_mk.mpr (Or.inl href)
    refine ⟨((hdistinct _ hs).refIds id (Schema.mem_refIds_of_ref href)).1, Schema.references_of_mem_children ?_ hk⟩
    simpa [Keywords.children] using hs

/-- An object that is seen in a closed schema is the schema itself or registered, so it is closed in either case. -/
theorem closed_objectView? (hr : r.Closed P) {s object : Schema} (hs : s.Closed P)
    (h : r.objectView? s = some object) : object.Closed P := by
  obtain ⟨-, ⟨-, rfl⟩ | ⟨id, -, hget⟩⟩ := objectView?_eq_some.mp h
  · exact hs
  · exact hr id object hget

/-- An object that is seen stays in sight. -/
theorem objectView?_of_moves {r' : Registry} (h : Moves r r') {s object : Schema}
    (hview : r.objectView? s = some object) : r'.objectView? s = some object := by
  obtain ⟨hobject, hview⟩ := objectView?_eq_some.mp hview
  refine objectView?_eq_some.mpr ⟨hobject, hview.imp_right ?_⟩
  exact fun ⟨id, hid, hget⟩ => ⟨id, hid, get?_of_moves h hget⟩

end Registry

/-- What is built from closed schemas is closed, if what is seen in them is. -/
theorem TypeExpr.closed_build {P : String → Prop} {r : Registry} {e : TypeExpr}
    {parts : List TypeExpr} {build : Registry → List Schema → Schema} (h : e.form = .built parts build)
    {l : List Schema} (hl : ∀ s ∈ l, s.Closed P)
    (hseen : ∀ s ∈ l, ∀ object, r.objectView? s = some object → object.Closed P) : (build r l).Closed P := by
  refine PassedOn.build (Q := Schema.Closed P) ?_ h
  constructor
  case parts => exact hl
  case seen =>
    intro s hs object hview t ht
    obtain ⟨⟨n, v⟩, hv, rfl⟩ := List.mem_map.mp ht
    exact (hseen s hs object hview).properties hv
  case node =>
    intro k _ _ hdiscriminator href hchildren
    exact Schema.closed_of_children (by rw [Keywords.ownRefs, hdiscriminator, href]; rfl) hchildren
  case object => exact fun _ required closed h => Schema.closed_object h required closed
  case ofLiterals => exact Schema.closed_ofLiterals
  case orNull => exact fun _ => Schema.closed_orNull
  case oneOf => exact Registry.closed_oneOf hl

/-! ## Running

The state has two parts that can point somewhere, the registry and the arguments of known identities. Both are made of
schemas that were answered before. -/

variable {c : Catalog}

/-- The registry of a run changes by moves. -/
theorem Runs.moves {p : Pending c} {t : Task c} {r r' : Resolver c} {out : Except Fault t.Answer}
    (h : Runs p t r out r') : Registry.Moves r.registry r'.registry := by
  refine h.invariant (P := fun _ r' => Registry.Moves r.registry r'.registry) (fun _ _ _ _ hmoves => ?_)
    (fun _ _ _ _ _ hmoves => ?_) (fun _ _ _ hmoves => ?_) .refl
  · exact hmoves.trans (Resolver.opened_moves _ _ _)
  · exact hmoves.trans (Resolver.filled_moves _ _ _ _ _)
  · exact hmoves.trans (Resolver.released_moves _ _)

namespace Task

/-- The schemas that a task is given. -/
def inputs : Task c → List Schema
  | .node scope _ _ => scope.values
  | .list scope _ _ => scope.values
  | .apply _ _ args _ => args

/-- The schemas of an answer. -/
def outputs : (t : Task c) → t.Answer → List Schema
  | .node _ _ _, s => [s]
  | .list _ _ _, l => l
  | .apply _ _ _ _, s => [s]

end Task

/-- An id that has a schema, or will have one when a pending expansion ends. -/
def Pending.Live (p : Pending c) (r : Registry) (id : String) : Prop :=
  (∃ s, r.get? id = some s) ∨ id ∈ p.identities.map Prod.snd

/-- A live id stays live: what is registered stays so, and what is pending is pending still. -/
theorem Pending.Live.moves {p : Pending c} {r r' : Registry} (h : Registry.Moves r r') {id : String}
    (hid : p.Live r id) : p.Live r' id :=
  hid.imp_left fun ⟨s, hs⟩ => ⟨s, Registry.get?_of_moves h hs⟩

/-- A live id stays live if more is pending. -/
theorem Pending.Live.mono {p q : Pending c} {r : Registry} {id : String} (h : p.Live r id)
    (hids : p.identities.map Prod.snd ⊆ q.identities.map Prod.snd) : q.Live r id :=
  h.imp_right fun hmem => hids hmem

/-- The state between two steps of a run: what is registered points at live ids only, and what identities
are known by is registered. -/
structure Coherent (p : Pending c) (r : Resolver c) : Prop where
  sound : r.registry.Sound
  closed : r.registry.Closed (p.Live r.registry)
  known : ∀ identity id, (identity, id) ∈ r.known → ∃ s, r.registry.get? id = some s

/-- In the beginning nothing is registered that could point anywhere. -/
theorem coherent_empty : Coherent ({} : Pending c) {} :=
  ⟨Registry.sound_empty, fun _ _ h => (by cases h), fun _ _ h => (by cases h)⟩

/-- With more pending, registered schemas may point at more ids. -/
theorem Coherent.mono {p q : Pending c} {r : Resolver c} (h : Coherent p r)
    (hids : p.identities.map Prod.snd ⊆ q.identities.map Prod.snd) : Coherent q r :=
  ⟨h.sound, fun id s hget => (h.closed id s hget).mono fun _ hlive _ => hlive.mono hids, h.known⟩

/-- The beginning of an expansion. -/
theorem Coherent.reserved {p : Pending c} {r : Resolver c} (h : Coherent p r) (i : Fin c.size) (args : List Schema) :
    Coherent p (r.opened i args) where
  sound := h.sound.opened i args
  closed := by
    intro id s hget
    rw [Resolver.get?_opened] at hget
    exact (h.closed id s hget).mono fun other hlive _ => hlive.moves (Resolver.opened_moves _ _ _)
  known := by
    intro identity id hmem
    rw [Resolver.get?_opened]
    exact h.known identity id hmem

/-- At the end of an expansion an id stays live unless it is the expansion's own and was given up. -/
theorem Pending.Live.pop {p : Pending c} {r r' : Registry} (hmoves : Registry.Moves r r') {identity : Identity c}
    {id other : String} (h : (p.push identity id).Live r other)
    (hid : other = id → ∃ s, r'.get? id = some s) : p.Live r' other := by
  rcases h with ⟨s, hs⟩ | h
  · exact Or.inl ⟨s, Registry.get?_of_moves hmoves hs⟩
  · rcases List.mem_cons.mp h with rfl | h
    · exact Or.inl (hid rfl)
    · exact Or.inr h

/-- The end of an expansion: nothing that is kept points at an id that was given up. -/
theorem Coherent.filled {p : Pending c} {r : Resolver c} {identity : Identity c} {id final : String}
    {body : Schema} {owner : Location} (h : Coherent (p.push identity id) r)
    (hbody : body.Closed ((p.push identity id).Live r.registry))
    (hfill : (r.registry.fill id body owner).1 = .ok final) :
    Coherent p (r.filled identity id body owner) ∧
      ∃ s, (r.filled identity id body owner).registry.get? final = some s := by
  have hmoves := r.registry.fill_moves id body owner
  have hregistry : (r.registry.fill id body owner).2.Closed (p.Live (r.registry.fill id body owner).2) ∧
      ∃ s, (r.registry.fill id body owner).2.get? final = some s := by
    rcases Registry.fill_cases r.registry id body owner with
      ⟨_, hf, -⟩ | ⟨existing, hget, -, hf⟩ | ⟨order, shared, held, hshared, href, hisref, hf⟩ | ⟨explicit, order, -, hf⟩
    · rw [hf] at hfill
      cases hfill
    · rw [hf] at hfill hmoves ⊢
      obtain rfl := Except.ok.inj hfill
      refine ⟨fun other s hs => (h.closed other s hs).mono fun x hx _ => ?_, existing, hget⟩
      exact hx.pop hmoves fun _ => ⟨existing, hget⟩
    · rw [hf] at hfill hmoves ⊢
      obtain rfl := Except.ok.inj hfill
      simp only at hmoves ⊢
      obtain ⟨s, hs, -⟩ := h.sound.index_filled _ _ hshared
      refine ⟨fun other s hs => ?_, s, Registry.get?_of_moves hmoves hs⟩
      rw [Registry.get?_drop h.sound.names_nodup held] at hs
      -- an id is given up only if nothing that is registered points at it
      refine (h.closed other s hs).mono fun x hx hxs => hx.pop hmoves ?_
      rintro rfl
      rw [Registry.isReferenced_of_get? hs hxs] at hisref
      cases hisref
    · rw [hf] at hfill hmoves ⊢
      obtain rfl := Except.ok.inj hfill
      have hstored : (r.registry.store id explicit order body owner).get? id = some body := by
        rw [Registry.get?_store, if_pos rfl]
      refine ⟨fun other s hs => ?_, body, hstored⟩
      have hs' : s.Closed ((p.push identity id).Live r.registry) := by
        rw [Registry.get?_store] at hs
        split at hs
        · obtain rfl := Option.some.inj hs
          exact hbody
        · exact h.closed other s hs
      exact hs'.mono fun x hx _ => hx.pop hmoves fun _ => ⟨body, hstored⟩
  refine ⟨⟨h.sound.moves hmoves, hregistry.1, fun other known hmem => ?_⟩, hregistry.2⟩
  rcases List.mem_cons.mp hmem with heq | hmem
  · rw [hfill] at heq
    cases heq
    exact hregistry.2
  · obtain ⟨s, hs⟩ := h.known other known hmem
    exact ⟨s, Registry.get?_of_moves hmoves hs⟩

/-! ## Failing

A failure gives ids back one after another, from the inside out. What was registered in between is not taken back. -/

section Failing

variable {q : Pending c} {r : Resolver c}

/-- Giving a reservation back registers nothing and takes nothing registered away. -/
theorem Coherent.released (h : Coherent q r) (id : String) : Coherent q (r.released id) where
  sound := h.sound.released _
  closed := fun other s hget => (h.closed other s (Registry.get?_of_release h.sound.names_nodup hget)).mono
    fun _ hlive _ => hlive.moves (Resolver.released_moves _ _)
  known := by
    intro identity other hmem
    obtain ⟨s, hs⟩ := h.known identity other hmem
    exact ⟨s, Registry.get?_of_moves (Resolver.released_moves _ _) hs⟩

/-- An identity whose schema was refused is known by an id that is filled. -/
theorem Coherent.refused (h : Coherent q r) {identity : Identity c} {id : String} {schema : Schema} {owner : Location}
    {fault : Fault} (hfill : (r.registry.fill id schema owner).1 = .error fault)
    (hfault : fault ≠ .registryCorruption id) :
    Coherent q (r.filled identity id schema owner) := by
  obtain ⟨hsame, hcorrupt | hget⟩ := Registry.fill_eq_error hfill
  · exact absurd hcorrupt hfault
  · have hfilled : r.filled identity id schema owner = { r with known := (identity, id) :: r.known } := by
      rw [Resolver.filled, hsame, hfill]
      rfl
    rw [hfilled]
    refine ⟨h.sound, h.closed, fun other known hmem => ?_⟩
    rcases List.mem_cons.mp hmem with heq | hmem
    · obtain ⟨-, rfl⟩ := Prod.mk.inj heq
      exact hget
    · exact h.known other known hmem

end Failing

/-! ## What a task comes to

The declarations that can be met below a task, followed through their bodies. Only these can leave an id pointed at when
the task fails. -/

/-- A task comes to a declaration that it mentions, or that is used by one that it comes to. -/
def Task.ComesTo (t : Task c) (j : Fin c.size) : Prop := ∃ i, t.Mentions i ∧ Relation.ReflTransGen c.Uses i j

/-- A task comes to all that one comes to which mentions less. -/
theorem Task.ComesTo.imp {t t' : Task c} {j : Fin c.size} (h : t.ComesTo j)
    (hmentions : ∀ i, t.Mentions i → t'.Mentions i) : t'.ComesTo j := by
  obtain ⟨i, hi, huses⟩ := h
  exact ⟨i, hmentions i hi, huses⟩

/-- A declaration comes to what its body comes to. -/
theorem Task.ComesTo.of_body {i j : Fin c.size} {args : List Schema}
    (h : (Task.node ((c.get i).scope args) (c.get i).location (c.get i).body : Task c).ComesTo j) (name : String)
    (origin : Location) : (Task.apply name i args origin).ComesTo j := by
  obtain ⟨k, hk, huses⟩ := h
  exact ⟨i, rfl, .head hk.uses huses⟩

/-- An id that a declaration asks for, insisting on it or having it made up. -/
def Declaration.CanHave (d : Declaration) (id : String) : Prop := d.InsistsOn id ∨ d.MakesUp id

/-- An expansion that a failed task can leave pointed at. -/
def Task.CanLose (t : Task c) (entry : Identity c × String) : Prop :=
  t.ComesTo entry.1.declaration ∧ c.Leads entry.1.declaration entry.1.declaration ∧
    (c.get entry.1.declaration).CanHave entry.2

/-! ## The ids that may be pointed at

The list is a `Pending` of its own, in general longer than what is pending, and it only grows. -/

/-- Every pending expansion that can be pointed at is on a list. -/
def Pending.Lists (q p : Pending c) : Prop :=
  ∀ entry ∈ p.identities, c.Leads entry.1.declaration entry.1.declaration → entry.2 ∈ q.identities.map Prod.snd

/-- After a task has failed, ids on the list and those that the task can lose may be pointed at. -/
def Pending.Leaves (q : Pending c) (t : Task c) (r : Resolver c) : Prop :=
  ∃ q' : Pending c, Coherent q' r ∧ ∀ entry ∈ q'.identities, entry ∈ q.identities ∨ t.CanLose entry

/-- A task can lose all that one can lose which mentions less. -/
theorem Pending.Leaves.imp {q : Pending c} {t t' : Task c} {r : Resolver c} (h : q.Leaves t r)
    (hmentions : ∀ i, t.Mentions i → t'.Mentions i) : q.Leaves t' r := by
  obtain ⟨q', hr, hq'⟩ := h
  exact ⟨q', hr, fun entry hentry => (hq' entry hentry).imp_right fun ⟨hcomes, hlost⟩ => ⟨hcomes.imp hmentions, hlost⟩⟩

/-- A state that is coherent as it is needs nothing more on the list. -/
theorem Coherent.leaves {q : Pending c} {r : Resolver c} (h : Coherent q r) (t : Task c) : q.Leaves t r :=
  ⟨q, h, fun _ hentry => Or.inl hentry⟩

/-- The list for the inside of an expansion: its id is on it if its declaration can be pointed at. -/
theorem Pending.Lists.push {q p : Pending c} (h : q.Lists p) (identity : Identity c) (id : String) :
    ∃ q' : Pending c, q'.Lists (p.push identity id) ∧ q.identities.map Prod.snd ⊆ q'.identities.map Prod.snd ∧
      q'.identities.map Prod.snd ⊆ (q.push identity id).identities.map Prod.snd ∧
      ∀ entry ∈ q'.identities, entry ∈ q.identities ∨
        entry = (identity, id) ∧ c.Leads identity.declaration identity.declaration := by
  by_cases hrec : c.Leads identity.declaration identity.declaration
  · refine ⟨q.push identity id, fun entry hentry hrec => ?_, List.subset_cons_self _ _, List.Subset.refl _,
      fun entry hentry => ?_⟩
    · rcases List.mem_cons.mp hentry with rfl | hentry
      · exact List.mem_cons_self
      · exact List.mem_cons_of_mem _ (h entry hentry hrec)
    · rcases List.mem_cons.mp hentry with rfl | hentry
      · exact Or.inr ⟨rfl, hrec⟩
      · exact Or.inl hentry
  · refine ⟨q, fun entry hentry hrec' => ?_, List.Subset.refl _, List.subset_cons_self _ _,
      fun _ hentry => Or.inl hentry⟩
    rcases List.mem_cons.mp hentry with rfl | hentry
    · exact absurd hrec' hrec
    · exact h entry hentry hrec'

/-- An expansion of a declaration that comes back to itself can be left pointed at. -/
theorem canLose_self {name : String} {i : Fin c.size} {args : List Schema} {origin : Location} {r : Resolver c}
    (hargs : args.length = (c.get i).typeParams.length) {entry : Identity c × String}
    (h : entry = (c.identity i args, r.expansionId i args) ∧ c.Leads i i) :
    (Task.apply name i args origin).CanLose entry := by
  obtain ⟨rfl, hrec⟩ := h
  exact ⟨⟨i, rfl, .refl⟩, hrec, (expansionId_asks r hargs).insistsOn_or_makesUp⟩

/-- An expansion that is refused leaves its own id pointed at, if its declaration comes back to itself. -/
theorem Coherent.leaves_refused {q q' : Pending c} {name : String} {i : Fin c.size} {args : List Schema}
    {origin : Location} {r r' : Resolver c} (h : Coherent q' r') (hargs : args.length = (c.get i).typeParams.length)
    (hentries : ∀ entry ∈ q'.identities, entry ∈ q.identities ∨
      entry = (c.identity i args, r.expansionId i args) ∧ c.Leads i i)
    {body : Schema} {owner : Location} {fault : Fault}
    (hfill : (r'.registry.fill (r.expansionId i args) body owner).1 = .error fault)
    (hfault : ∀ id, fault ≠ .registryCorruption id) :
    q.Leaves (.apply name i args origin) (r'.filled (c.identity i args) (r.expansionId i args) body owner) :=
  ⟨q', h.refused hfill (hfault _), fun entry hentry => (hentries entry hentry).imp_right (canLose_self hargs)⟩

/-- An expansion that fails leaves what its body has left, and its own id, if its declaration comes back to itself. -/
theorem Pending.Leaves.released {q q' : Pending c} {i : Fin c.size} {args : List Schema} {r r' : Resolver c}
    (h : q'.Leaves (.node ((c.get i).scope args) (c.get i).location (c.get i).body) r') (name : String)
    (origin : Location) (hargs : args.length = (c.get i).typeParams.length)
    (hentries : ∀ entry ∈ q'.identities, entry ∈ q.identities ∨
      entry = (c.identity i args, r.expansionId i args) ∧ c.Leads i i) :
    q.Leaves (.apply name i args origin) (r'.released (r.expansionId i args)) := by
  obtain ⟨q'', hr', hentries'⟩ := h
  refine ⟨q'', hr'.released _, fun entry hentry => ?_⟩
  rcases hentries' entry hentry with hentry | ⟨hcomes, hlost⟩
  · exact (hentries entry hentry).imp_right (canLose_self hargs)
  · exact Or.inr ⟨hcomes.of_body name origin, hlost⟩

/-- The type parameters of a declaration stand for closed schemas. -/
theorem closed_scope {q q' : Pending c} {r : Resolver c} {i : Fin c.size} {args : List Schema}
    (hids : q.identities.map Prod.snd ⊆ q'.identities.map Prod.snd)
    (hargs : ∀ s ∈ args, s.Closed (q.Live r.registry)) :
    ∀ s ∈ ((c.get i).scope args).values, s.Closed (q'.Live (r.opened i args).registry) := by
  intro s hs
  exact (hargs s (Declaration.mem_of_mem_scope hs)).mono fun id hlive _ =>
    (hlive.moves (Resolver.opened_moves _ _ _)).mono hids

/-! ## How a task starts, and how it ends

The lemmas are named after the rules of `Runs`, those of `Admits` for the tasks that a task starts and those of `Ends`
for the ways in which it ends. -/

/-- A task can start while the ids on a list may be pointed at: what has begun leads to it, and what is registered or given
to it points at ids that are live, given the list. -/
structure Pending.Admits (q p : Pending c) (t : Task c) (r : Resolver c) : Prop where
  applied : t.Applied
  lead : p.LeadTo t
  lists : q.Lists p
  coherent : Coherent q r
  inputs : ∀ s ∈ t.inputs, s.Closed (q.Live r.registry)

/-- A task ends while the ids on a list may be pointed at. If it succeeds the list is as it was, and the answers point at
live ids too; if it fails there are ids of declarations that come back to themselves besides. -/
structure Pending.Ends (q : Pending c) (t : Task c) (out : Except Fault t.Answer) (r : Resolver c) : Prop where
  ok : ∀ answer, out = .ok answer → Coherent q r ∧ ∀ s ∈ t.outputs answer, s.Closed (q.Live r.registry)
  error : ∀ fault, out = .error fault → (∀ id, fault ≠ .registryCorruption id) → q.Leaves t r

section Steps

variable {p q : Pending c} {scope : Table Schema} {origin : Location} {e : TypeExpr} {es : List TypeExpr}
  {name : String} {i : Fin c.size} {args : List Schema} {r r' r'' : Resolver c}

/-- Closed schemas stay closed while the registry moves on. -/
theorem Schema.closed_of_moves {l : List Schema} (h : ∀ s ∈ l, s.Closed (q.Live r.registry))
    (hmoves : Registry.Moves r.registry r'.registry) : ∀ s ∈ l, s.Closed (q.Live r'.registry) :=
  fun s hs => (h s hs).mono fun _ hid _ => hid.moves hmoves

namespace Pending.Admits

/-- Outside of any expansion whatever is coherent will do. -/
theorem outside {t : Task c} (happlied : t.Applied) (hr : Coherent q r)
    (hin : ∀ s ∈ t.inputs, s.Closed (q.Live r.registry)) : q.Admits {} t r :=
  ⟨happlied, Pending.leadTo_empty _, nofun, hr, hin⟩

/-- The first of several expressions starts like all of them. -/
theorem head (h : q.Admits p (.list scope origin (e :: es)) r) : q.Admits p (.node scope origin e) r :=
  ⟨trivial, h.lead.head, h.lists, h.coherent, h.inputs⟩

/-- The others start where the first one has ended. -/
theorem tail (h : q.Admits p (.list scope origin (e :: es)) r) (hr' : Coherent q r')
    (hmoves : Registry.Moves r.registry r'.registry) : q.Admits p (.list scope origin es) r' :=
  ⟨trivial, h.lead.tail, h.lists, hr', Schema.closed_of_moves h.inputs hmoves⟩

/-- The parts of an expression, or the arguments of a name, start like the expression: all they mention, it mentions. -/
theorem list (h : q.Admits p (.node scope origin e) r) (hes : ∀ a ∈ es, ∀ x : TypeExpr, x.Inside a → x.Inside e) :
    q.Admits p (.list scope origin es) r :=
  ⟨trivial, h.lead.list hes, h.lists, h.coherent, h.inputs⟩

/-- A declaration is applied where the arguments have ended, to their schemas. -/
theorem apply (h : q.Admits p (.node scope origin e) r) {names : List TypeExpr} (he : e.form = .named name names)
    (hi : c.applied name names.length origin = .ok i) {l : List Schema} (hlength : l.length = names.length)
    (hr' : Coherent q r') (hl : ∀ s ∈ l, s.Closed (q.Live r'.registry)) : q.Admits p (.apply name i l origin) r' := by
  obtain ⟨hlookup, hcount⟩ := Catalog.applied_eq_ok.mp hi
  exact ⟨hlength.trans hcount.symm, h.lead.apply he hlookup l, h.lists, hr', hl⟩

/-- Inside an expansion its own id is on the list too, if its declaration comes back to itself. -/
theorem body (h : q.Admits p (.apply name i args origin) r) : ∃ q' : Pending c,
    q'.Admits (p.push (c.identity i args) (r.expansionId i args))
        (.node ((c.get i).scope args) (c.get i).location (c.get i).body) (r.opened i args) ∧
      q'.identities.map Prod.snd ⊆ (q.push (c.identity i args) (r.expansionId i args)).identities.map Prod.snd ∧
      ∀ entry ∈ q'.identities, entry ∈ q.identities ∨
        entry = (c.identity i args, r.expansionId i args) ∧ c.Leads i i := by
  obtain ⟨q', hlists, hsub, hsub', hentries⟩ := h.lists.push (c.identity i args) (r.expansionId i args)
  exact ⟨q', ⟨trivial, h.lead.push _, hlists, (h.coherent.reserved i args).mono hsub, closed_scope hsub h.inputs⟩,
    hsub', hentries⟩

end Pending.Admits

/-! ### The ways to end

First the general forms, for a success, for a failure and for passing one on; then one lemma for each rule that does
more. -/

namespace Pending.Ends

/-- A success is shown by what is registered and what is answered. -/
theorem of_ok {t : Task c} {answer : t.Answer} (hr : Coherent q r)
    (hs : ∀ s ∈ t.outputs answer, s.Closed (q.Live r.registry)) : q.Ends t (.ok answer) r where
  ok := by
    rintro _ ⟨⟩
    exact ⟨hr, hs⟩
  error := nofun

/-- A failure is shown by what it leaves, and nothing is asked of a failure that corrupts the registry. -/
theorem of_error {t : Task c} {fault : Fault} (h : (∀ id, fault ≠ .registryCorruption id) → q.Leaves t r) :
    q.Ends t (.error fault) r where
  ok := nofun
  error := by
    rintro _ ⟨⟩
    exact h

/-- A task that fails before it changes anything leaves things as they were. -/
theorem unchanged (h : Coherent q r) (t : Task c) {fault : Fault} : q.Ends t (.error fault) r :=
  of_error fun _ => h.leaves t

/-- After a success the state is coherent. -/
theorem coherent {t : Task c} {answer : t.Answer} (h : q.Ends t (.ok answer) r) : Coherent q r := (h.ok answer rfl).1

/-- What a success answers points at live ids. -/
theorem outputs {t : Task c} {answer : t.Answer} (h : q.Ends t (.ok answer) r) :
    ∀ s ∈ t.outputs answer, s.Closed (q.Live r.registry) := (h.ok answer rfl).2

/-- A failure is passed on to the task that was waiting. -/
theorem fail {t t' : Task c} {fault : Fault} (h : q.Ends t (.error fault) r)
    (hmentions : ∀ j, t.Mentions j → t'.Mentions j) : q.Ends t' (.error fault) r :=
  of_error fun hfault => (h.error fault rfl hfault).imp hmentions

/-- Expressions that succeed have closed schemas together; the first one's stay closed while the others run. -/
theorem cons {s : Schema} {l : List Schema} (hhead : q.Ends (.node scope origin e) (.ok s) r')
    (htail : q.Ends (.list scope origin es) (.ok l) r'') (hmoves : Registry.Moves r'.registry r''.registry) :
    q.Ends (.list scope origin (e :: es)) (.ok (s :: l)) r'' := by
  have hs := Schema.closed_of_moves hhead.outputs hmoves
  exact of_ok htail.coherent (List.forall_mem_cons.mpr ⟨hs s List.mem_cons_self, htail.outputs⟩)

/-- What is built from closed parts is closed, and what is seen in them is registered and so closed, too. -/
theorem built {parts : List TypeExpr} {build : Registry → List Schema → Schema} (he : e.form = .built parts build)
    {l : List Schema} (h : q.Ends (.list scope origin parts) (.ok l) r') :
    q.Ends (.node scope origin e) (.ok (build r'.registry l)) r' := by
  refine of_ok h.coherent (List.forall_mem_singleton.mpr (TypeExpr.closed_build he h.outputs fun s hs _ => ?_))
  exact Registry.closed_objectView? h.coherent.closed (h.outputs s hs)

/-- A name is resolved by applying its declaration. -/
theorem named {names : List TypeExpr} (he : e.form = .named name names)
    (hi : c.applied name names.length origin = .ok i) {l : List Schema} {out : Except Fault Schema}
    (h : q.Ends (.apply name i l origin) out r') : q.Ends (.node scope origin e) out r' where
  ok := h.ok
  error := fun fault hout hfault =>
    (h.error fault hout hfault).imp fun _ hj => hj.of_apply he (Catalog.applied_eq_ok.mp hi).1

/-- A pending id is on the list: its declaration leads to the task that asks for it, and this is itself. -/
theorem pending (h : q.Admits p (.apply name i args origin) r) {id : String}
    (hid : p.id? (c.identity i args) = some id) : q.Ends (.apply name i args origin) (.ok (.reference id)) r := by
  have hmem := Pending.mem_of_id? hid
  have hlisted := h.lists _ hmem (h.lead.mentions _ hmem i rfl)
  exact of_ok h.coherent (List.forall_mem_singleton.mpr (Schema.closed_reference (Or.inr hlisted)))

/-- An identity that is known is known by an id with a schema. -/
theorem known (h : q.Admits p (.apply name i args origin) r) {id : String}
    (hid : r.id? (c.identity i args) = some id) : q.Ends (.apply name i args origin) (.ok (.reference id)) r := by
  have hregistered := h.coherent.known _ id (Resolver.mem_of_id? hid)
  exact of_ok h.coherent (List.forall_mem_singleton.mpr (Schema.closed_reference (Or.inl hregistered)))

/-- When an expansion ends its id is taken off the list again, whatever becomes of it. -/
theorem expanded (h : q.Admits p (.apply name i args origin) r) {q' : Pending c}
    (hsub : q'.identities.map Prod.snd ⊆ (q.push (c.identity i args) (r.expansionId i args)).identities.map Prod.snd)
    (hentries : ∀ entry ∈ q'.identities, entry ∈ q.identities ∨
      entry = (c.identity i args, r.expansionId i args) ∧ c.Leads i i) {body : Schema}
    (hbody : q'.Ends (.node ((c.get i).scope args) (c.get i).location (c.get i).body) (.ok body) r') :
    q.Ends (.apply name i args origin)
      (referenceTo (r'.registry.fill (r.expansionId i args) body (c.get i).location).1)
      (r'.filled (c.identity i args) (r.expansionId i args) body (c.get i).location) where
  ok := by
    intro answer hout
    obtain ⟨final, hfill, rfl⟩ := referenceTo_eq_ok.mp hout
    have hclosed := (hbody.outputs body List.mem_cons_self).mono fun id hlive _ => hlive.mono hsub
    obtain ⟨hfilled, hfinal⟩ := (hbody.coherent.mono hsub).filled hclosed hfill
    exact ⟨hfilled, List.forall_mem_singleton.mpr (Schema.closed_reference (Or.inl hfinal))⟩
  error := fun _ hout hfault =>
    hbody.coherent.leaves_refused h.applied hentries (referenceTo_eq_error.mp hout) hfault

end Pending.Ends

end Steps

/-- A task that can start ends well: by one lemma for each way that it can go. Inside an expansion the list is a longer one,
so the induction is for all lists. -/
theorem Runs.coherent {p q : Pending c} {t : Task c} {r r' : Resolver c} {out : Except Fault t.Answer}
    (h : Runs p t r out r') (hstart : q.Admits p t r) : q.Ends t out r' := by
  -- the list grows inside an expansion, so it is not fixed in the induction
  induction h generalizing q with
  | nil => exact .of_ok hstart.coherent nofun
  | cons hhead htail ihHead ihTail =>
    have hs := ihHead hstart.head
    exact hs.cons (ihTail (hstart.tail hs.coherent hhead.moves)) htail.moves
  | consHead _ ih => exact (ih hstart.head).fail fun _ => .of_head
  | consTail hhead _ ihHead ihTail =>
    exact (ihTail (hstart.tail (ihHead hstart.head).coherent hhead.moves)).fail fun _ => .of_tail
  | built he _ ih => exact .built he (ih (hstart.list fun _ ha _ hx => .part he ha hx))
  | @builtFault p scope origin e parts build r fault r' he _ ih =>
    have hes : ∀ a ∈ parts, ∀ x : TypeExpr, x.Inside a → x.Inside e := fun _ ha _ hx => .part he ha hx
    exact (ih (hstart.list hes)).fail fun _ => .of_list hes
  | bound _ hs =>
    have hmem := List.mem_map_of_mem (f := Prod.snd) (Table.mem_of_find? hs)
    exact .of_ok hstart.coherent (List.forall_mem_singleton.mpr (hstart.inputs _ hmem))
  | named he _ hi hargs _ ihArgs ihName =>
    have hl := ihArgs (hstart.list fun _ ha _ hx => .arg he ha hx)
    exact .named he hi (ihName (hstart.apply he hi hargs.length_eq hl.coherent hl.outputs))
  | @namedFault p scope origin e name args i r fault r' he _ _ _ ih =>
    have hes : ∀ a ∈ args, ∀ x : TypeExpr, x.Inside a → x.Inside e := fun _ ha _ hx => .arg he ha hx
    exact (ih (hstart.list hes)).fail fun _ => .of_list hes
  | pending hid => exact .pending hstart hid
  | known _ hid => exact .known hstart hid
  | expanded _ _ _ _ ih =>
    obtain ⟨q', hbody, hsub, hentries⟩ := hstart.body
    exact .expanded hstart hsub hentries (ih hbody)
  | @expandedFault p name i args origin r fault r' _ _ _ _ ih =>
    obtain ⟨q', hbody, -, hentries⟩ := hstart.body
    exact .of_error fun hfault => ((ih hbody).error fault rfl hfault).released name origin hstart.applied hentries
  | misapplied | unbound | callable | deep => exact .unchanged hstart.coherent _

end RouteManifest
