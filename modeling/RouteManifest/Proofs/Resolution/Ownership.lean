import Mathlib.Logic.Relation
import RouteManifest.Proofs.Registry
import RouteManifest.Proofs.Resolution.Runs

/-!
# Who an id belongs to

While a declaration is being expanded its id has a slot and no schema. An id that was made up is new when it is
handed out. An id that a declaration insists on is handed out as it is, and then the slot can already be there:
it may hold the schema of another declaration, or be the reservation of an expansion that has begun.

For a declaration that comes back to itself this matters, since its id is in use before its schema is there.
`Catalog.Separate` says of a catalog that it does no harm: an id that is insisted on is not made up as well, and where
several declarations insist on it nobody looks at what it stands for while one of them is being expanded. `Owned` is
what this comes to in the state.

Such a condition on the catalog can only be used by a task that knows where it comes from. So a run carries along what it
was begun for (`Pending.LeadTo`): every pending declaration leads to all that the task has still to look up.
-/

namespace RouteManifest

/-! ## Catalogs

What leads where is read off the expressions alone, without resolving anything. `Uses` takes every expression inside a
body into account, also one that turns out not to be resolved. -/

/-- An expression is met when another one is resolved. -/
inductive TypeExpr.Inside (x : TypeExpr) : TypeExpr → Prop where
  | self : Inside x x
  | part {e parts build a} : e.form = .built parts build → a ∈ parts → Inside x a → Inside x e
  | arg {e name args a} : e.form = .named name args → a ∈ args → Inside x a → Inside x e

namespace TypeExpr.Inside

variable {x e : TypeExpr}

/-- What is met in an expression that is built is the expression, or met in one of its parts. -/
theorem of_built {parts : List TypeExpr} {build : Registry → List Schema → Schema} (h : x.Inside e)
    (he : e.form = .built parts build) : x = e ∨ ∃ a ∈ parts, x.Inside a := by
  cases h with
  | self => exact Or.inl rfl
  | part he' ha hx =>
    rw [he] at he'
    cases he'
    exact Or.inr ⟨_, ha, hx⟩
  | arg he' =>
    rw [he] at he'
    cases he'

/-- What is met in a name is the name, or met in one of its arguments. -/
theorem of_named {name : String} {args : List TypeExpr} (h : x.Inside e) (he : e.form = .named name args) :
    x = e ∨ ∃ a ∈ args, x.Inside a := by
  cases h with
  | self => exact Or.inl rfl
  | part he' =>
    rw [he] at he'
    cases he'
  | arg he' ha hx =>
    rw [he] at he'
    cases he'
    exact Or.inr ⟨_, ha, hx⟩

end TypeExpr.Inside

namespace Declaration

/-- A declaration without parameters insists on the id it is given. -/
def InsistsOn (d : Declaration) (id : String) : Prop := d.externalId = some id ∧ d.typeParams = []

/-- Any other id of a declaration is made up: from its name and its arguments, and a number if that is taken. -/
def MakesUp (d : Declaration) (id : String) : Prop :=
  ∃ (args : List Schema) (k : Nat), args.length = d.typeParams.length ∧ ¬(d.externalId.isSome = true ∧ args = []) ∧
    id = Text.numbered (d.instanceName args) k

/-- A declaration that insists on an id has no others: it has no parameters, so it is applied in one way only. -/
theorem InsistsOn.not_makesUp {d : Declaration} {id other : String} (h : d.InsistsOn id) : ¬d.MakesUp other := by
  rintro ⟨args, -, hlength, hnot, -⟩
  rw [h.2] at hlength
  exact hnot ⟨by rw [h.1]; rfl, List.length_eq_zero_iff.mp hlength⟩

end Declaration

namespace Catalog

/-- The body of a declaration mentions another one. -/
def Uses (c : Catalog) (i j : Fin c.size) : Prop :=
  ∃ (e : TypeExpr) (name : String) (args : List TypeExpr), e.Inside (c.get i).body ∧ e.form = .named name args ∧
    c.lookup? name (c.get i).location.unit = some j

/-- A declaration leads to those it uses, and on to those that they lead to. -/
def Leads (c : Catalog) : Fin c.size → Fin c.size → Prop := Relation.TransGen c.Uses

/-- The ids of declarations that lead to themselves are not mixed up with others. -/
structure Separate (c : Catalog) : Prop where
  /-- what is insisted on inside is not made up outside -/
  outside : ∀ i j id, c.Leads i j → c.Leads i i ∨ c.Leads j j → (c.get j).InsistsOn id → ¬(c.get i).MakesUp id
  /-- if others can have what is insisted on, there are no intersections inside -/
  shared : ∀ i j id, c.Leads i i → (c.get i).InsistsOn id → (c.get j).InsistsOn id ∨ (c.get j).MakesUp id → j ≠ i →
    ∀ k members, c.Leads i k → ¬(TypeExpr.intersection members).Inside (c.get k).body

/-- Nothing is mixed up when no declaration leads to itself. -/
theorem separate_of_not_leads {c : Catalog} (h : ∀ i, ¬c.Leads i i) : c.Separate where
  outside := fun i j _ _ hrec => absurd hrec (not_or.mpr ⟨h i, h j⟩)
  shared := fun i _ _ hrec => absurd hrec (h i)

/-- Nothing is mixed up when an id that is insisted on belongs to one declaration alone. -/
theorem separate_of_alone {c : Catalog} (h : ∀ i j id, (c.get i).InsistsOn id →
    (c.get j).InsistsOn id ∨ (c.get j).MakesUp id → j = i) : c.Separate where
  outside := by
    intro i j id _ _ hinsists hmade
    obtain rfl := h j i id hinsists (Or.inr hmade)
    exact hinsists.not_makesUp hmade
  shared := fun i j id _ hinsists hother hne => absurd (h i j id hinsists hother) hne

end Catalog

variable {c : Catalog}

/-! ## Where a task comes from

Each rule of `Runs` that starts a task starts one that mentions no more than the task itself, so what has begun still
leads to it. -/

/-- An expression is met in a task. -/
def Task.Meets : Task c → TypeExpr → Path → Prop
  | .node _ origin e, x, unit => x.Inside e ∧ unit = origin.unit
  | .list _ origin es, x, unit => (∃ e ∈ es, x.Inside e) ∧ unit = origin.unit
  | .apply _ _ _ _, _, _ => False

/-- A task has to look up a declaration. -/
def Task.Mentions (t : Task c) (j : Fin c.size) : Prop :=
  match t with
  | .apply _ i _ _ => j = i
  | t => ∃ (e : TypeExpr) (name : String) (args : List TypeExpr) (unit : Path),
      t.Meets e unit ∧ e.form = .named name args ∧ c.lookup? name unit = some j

namespace Task.Mentions

variable {scope : Table Schema} {origin : Location} {j : Fin c.size}

/-- What the first of several expressions mentions, all of them do. -/
theorem of_head {e : TypeExpr} {es : List TypeExpr} (h : (Task.node scope origin e : Task c).Mentions j) :
    (Task.list scope origin (e :: es) : Task c).Mentions j := by
  obtain ⟨x, name, args, unit, ⟨hx, hunit⟩, hform, hj⟩ := h
  exact ⟨x, name, args, unit, ⟨⟨e, List.mem_cons_self, hx⟩, hunit⟩, hform, hj⟩

/-- What the others of several expressions mention, all of them do. -/
theorem of_tail {e : TypeExpr} {es : List TypeExpr} (h : (Task.list scope origin es : Task c).Mentions j) :
    (Task.list scope origin (e :: es) : Task c).Mentions j := by
  obtain ⟨x, name, args, unit, ⟨⟨a, ha, hx⟩, hunit⟩, hform, hj⟩ := h
  exact ⟨x, name, args, unit, ⟨⟨a, List.mem_cons_of_mem _ ha, hx⟩, hunit⟩, hform, hj⟩

/-- What parts or arguments mention, the expression does. -/
theorem of_list {e : TypeExpr} {es : List TypeExpr} (hes : ∀ a ∈ es, ∀ x : TypeExpr, x.Inside a → x.Inside e)
    (h : (Task.list scope origin es : Task c).Mentions j) : (Task.node scope origin e : Task c).Mentions j := by
  obtain ⟨x, name, args, unit, ⟨⟨a, ha, hx⟩, hunit⟩, hform, hj⟩ := h
  exact ⟨x, name, args, unit, ⟨hes a ha x hx, hunit⟩, hform, hj⟩

/-- A name mentions the declaration that it is applied to. -/
theorem of_apply {e : TypeExpr} {name : String} {args : List TypeExpr} (hform : e.form = .named name args)
    {i : Fin c.size}
    (hi : c.lookup? name origin.unit = some i) {l : List Schema} (h : (Task.apply name i l origin).Mentions j) :
    (Task.node scope origin e : Task c).Mentions j :=
  ⟨e, name, args, origin.unit, ⟨.self, rfl⟩, hform, h ▸ hi⟩

/-- A declaration uses what its body mentions. -/
theorem uses {i : Fin c.size} (h : (Task.node scope (c.get i).location (c.get i).body : Task c).Mentions j) :
    c.Uses i j := by
  obtain ⟨x, name, args, unit, ⟨hx, rfl⟩, hform, hj⟩ := h
  exact ⟨x, name, args, hx, hform, hj⟩

end Task.Mentions

/-- What has begun leads to what the task mentions, and to where the task's expressions are written. -/
structure Pending.LeadTo (p : Pending c) (t : Task c) : Prop where
  mentions : ∀ entry ∈ p.identities, ∀ j, t.Mentions j → c.Leads entry.1.declaration j
  meets : ∀ entry ∈ p.identities, c.Leads entry.1.declaration entry.1.declaration → ∀ e unit, t.Meets e unit →
    ∃ k, c.Leads entry.1.declaration k ∧ e.Inside (c.get k).body ∧ unit = (c.get k).location.unit

/-- Where nothing has begun there is nothing to lead anywhere. -/
theorem Pending.leadTo_empty (t : Task c) : ({} : Pending c).LeadTo t := ⟨nofun, nofun⟩

namespace Pending.LeadTo

variable {p : Pending c} {scope : Table Schema} {origin : Location}

/-- What has begun leads to the first of several expressions if it leads to all of them. -/
theorem head {e : TypeExpr} {es : List TypeExpr} (h : p.LeadTo (.list scope origin (e :: es))) :
    p.LeadTo (.node scope origin e) where
  mentions := fun entry hentry j hj => h.mentions entry hentry j hj.of_head
  meets := fun entry hentry hrec x unit ⟨hx, hunit⟩ =>
    h.meets entry hentry hrec x unit ⟨⟨e, List.mem_cons_self, hx⟩, hunit⟩

/-- What has begun leads to the others of several expressions if it leads to all of them. -/
theorem tail {e : TypeExpr} {es : List TypeExpr} (h : p.LeadTo (.list scope origin (e :: es))) :
    p.LeadTo (.list scope origin es) where
  mentions := fun entry hentry j hj => h.mentions entry hentry j hj.of_tail
  meets := fun entry hentry hrec x unit ⟨⟨a, ha, hx⟩, hunit⟩ =>
    h.meets entry hentry hrec x unit ⟨⟨a, List.mem_cons_of_mem _ ha, hx⟩, hunit⟩

/-- What has begun leads to the parts of an expression, and to the arguments of a name. -/
theorem list {e : TypeExpr} {es : List TypeExpr} (h : p.LeadTo (.node scope origin e))
    (hes : ∀ a ∈ es, ∀ x : TypeExpr, x.Inside a → x.Inside e) : p.LeadTo (.list scope origin es) where
  mentions := fun entry hentry j hj => h.mentions entry hentry j (hj.of_list hes)
  meets := fun entry hentry hrec x unit ⟨⟨a, ha, hx⟩, hunit⟩ =>
    h.meets entry hentry hrec x unit ⟨hes a ha x hx, hunit⟩

/-- What has begun leads to the declaration that a name stands for. -/
theorem apply {e : TypeExpr} {name : String} {args : List TypeExpr} (h : p.LeadTo (.node scope origin e))
    (hform : e.form = .named name args) {i : Fin c.size} (hi : c.lookup? name origin.unit = some i)
    (l : List Schema) : p.LeadTo (.apply name i l origin) where
  mentions := fun entry hentry j hj => h.mentions entry hentry j (hj.of_apply hform hi)
  meets := fun _ _ _ _ _ hmeets => hmeets.elim

/-- An expansion leads to what its body mentions. -/
theorem push {name : String} {i : Fin c.size} {args : List Schema} (h : p.LeadTo (.apply name i args origin))
    (id : String) :
    (p.push (c.identity i args) id).LeadTo (.node ((c.get i).scope args) (c.get i).location (c.get i).body) where
  mentions := by
    intro entry hentry j hj
    rcases List.mem_cons.mp hentry with rfl | hentry
    · exact .single hj.uses
    · exact .tail (h.mentions entry hentry i rfl) hj.uses
  meets := by
    rintro entry hentry hrec x unit ⟨hx, hunit⟩
    refine ⟨i, ?_, hx, hunit⟩
    rcases List.mem_cons.mp hentry with rfl | hentry
    · exact hrec
    · exact h.mentions entry hentry i rfl

end Pending.LeadTo

/-- A name can be applied if it is found from where it is written and has as many parameters as there are arguments. -/
theorem Catalog.applied_eq_ok {name : String} {count : Nat} {origin : Location} {i : Fin c.size} :
    c.applied name count origin = .ok i ↔
      c.lookup? name origin.unit = some i ∧ (c.get i).typeParams.length = count := by
  rw [Catalog.applied]
  constructor
  · intro h
    split at h
    · cases h
    next j hj =>
      simp only at h
      split at h
      next hcount =>
        obtain rfl := Except.ok.inj h
        exact ⟨hj, hcount⟩
      · split at h <;> cases h
  · rintro ⟨hi, hcount⟩
    rw [hi]
    exact if_pos hcount

/-- A declaration is applied to as many arguments as it has parameters. -/
def Task.Applied : Task c → Prop
  | .apply _ i args _ => args.length = (c.get i).typeParams.length
  | _ => True

/-! ## Owned ids

A slot tells by its flag whether its id was insisted on. `Owned` says of each pending declaration that leads to itself
how it has its id, and of the other slots which declaration can have asked for them. -/

/-- A slot can have come from an expansion of a declaration: its id is insisted on, or made up. -/
def Declaration.Asks (d : Declaration) (id : String) (explicit : Bool) : Prop :=
  if explicit then d.InsistsOn id else d.MakesUp id

/-- Whichever way an id was asked for, the declaration can have it. -/
theorem Declaration.Asks.insistsOn_or_makesUp {d : Declaration} {id : String} {explicit : Bool}
    (h : d.Asks id explicit) : d.InsistsOn id ∨ d.MakesUp id := by
  cases explicit with
  | true => exact Or.inl h
  | false => exact Or.inr h

/-- How a declaration that leads to itself has its id while it is expanded: the id is reserved for it, or it insists
on an id that others can have as well, and that is there to stay. -/
inductive Holds (c : Catalog) (r : Registry) (i : Fin c.size) (id : String) : Prop where
  | alone {explicit order} : r.slots.find? id = some (.reserved explicit order) → (c.get i).Asks id explicit →
      Holds c r i id
  | together {slot j explicit} : r.slots.find? id = some slot → slot.isFirm = true → (c.get i).InsistsOn id →
      (c.get j).Asks id explicit → j ≠ i → Holds c r i id

/-- The slot of an id that is insisted on is there to stay. -/
theorem Holds.isFirm {r : Registry} {i : Fin c.size} {id : String} (h : Holds c r i id)
    (hinsists : (c.get i).InsistsOn id) : ∃ slot, r.slots.find? id = some slot ∧ slot.isFirm = true := by
  rcases h with @⟨explicit, order, hslot, hasks⟩ | ⟨hslot, hfirm, -⟩
  · cases explicit with
    | true => exact ⟨_, hslot, rfl⟩
    | false => exact absurd hasks hinsists.not_makesUp
  · exact ⟨_, hslot, hfirm⟩

/-- The state between two steps of a run, as far as it concerns who has which id. -/
structure Owned (p : Pending c) (r : Resolver c) : Prop where
  /-- identities have as many arguments as their declaration has parameters -/
  arity : ∀ entry ∈ p.identities ++ r.known,
    entry.1.args.length = (c.get entry.1.declaration).typeParams.length
  holds : ∀ entry ∈ p.identities, c.Leads entry.1.declaration entry.1.declaration →
    Holds c r.registry entry.1.declaration entry.2
  /-- for every slot there is an identity that it can have come from -/
  asked : ∀ id slot, r.registry.slots.find? id = some slot →
    ∃ entry ∈ p.identities ++ r.known, (c.get entry.1.declaration).Asks id slot.isExplicit
  /-- what is reserved is pending -/
  reserved : ∀ id explicit order, r.registry.slots.find? id = some (.reserved explicit order) →
    ∃ entry ∈ p.identities, entry.2 = id ∧ (c.get entry.1.declaration).Asks id explicit

/-- In the beginning nothing is pending and no id has a slot. -/
theorem owned_empty : Owned ({} : Pending c) {} where
  arity := fun _ h => by cases h
  holds := fun _ h => by cases h
  asked := fun _ _ h => by cases h
  reserved := fun _ _ _ h => by cases h

/-! ### Beginning and ending

An expansion that begins takes an id, which is new or insisted on, and one that ends fills it. The three changes of the
state are moves of the registry, and `Owned` is kept by each. -/

section Expansion

variable {p : Pending c} {r : Resolver c} {i : Fin c.size} {args : List Schema}

/-- The id for an expansion is insisted on, or new. -/
theorem expansionId_cases (r : Resolver c) (hargs : args.length = (c.get i).typeParams.length) :
    (c.get i).InsistsOn (r.expansionId i args) ∧ ((c.get i).externalId.isSome && args.isEmpty) = true ∨
      (c.get i).MakesUp (r.expansionId i args) ∧ ((c.get i).externalId.isSome && args.isEmpty) = false ∧
        r.registry.slots.find? (r.expansionId i args) = none := by
  have hinsists (hexplicit : ((c.get i).externalId.isSome && args.isEmpty) = true)
      (hid : r.expansionId i args = (c.get i).instanceName args) :
      (c.get i).InsistsOn (r.expansionId i args) ∧ ((c.get i).externalId.isSome && args.isEmpty) = true := by
    refine ⟨?_, hexplicit⟩
    rw [Bool.and_eq_true, List.isEmpty_iff] at hexplicit
    obtain ⟨hsome, rfl⟩ := hexplicit
    obtain ⟨id, hexternal⟩ := Option.isSome_iff_exists.mp hsome
    refine ⟨?_, List.length_eq_zero_iff.mp hargs.symm⟩
    rw [hid, Declaration.instanceName, Declaration.schemaName, hexternal]
    simp
  rcases r.registry.reserve_cases ((c.get i).instanceName args) ((c.get i).externalId.isSome && args.isEmpty) with
    ⟨-, hexplicit, hid, -⟩ | ⟨hnew, ⟨hexplicit, hid⟩ | ⟨hexplicit, k, hid⟩, -⟩
  · exact Or.inl (hinsists hexplicit hid)
  · exact Or.inl (hinsists hexplicit hid)
  · refine Or.inr ⟨⟨args, k, hargs, ?_, hid⟩, hexplicit, hnew⟩
    rintro ⟨hsome, rfl⟩
    rw [hsome] at hexplicit
    cases hexplicit

/-- The flag of the slot tells how the id was asked for. -/
theorem expansionId_asks (r : Resolver c) (hargs : args.length = (c.get i).typeParams.length) :
    (c.get i).Asks (r.expansionId i args) ((c.get i).externalId.isSome && args.isEmpty) := by
  rcases expansionId_cases r hargs with ⟨hinsists, hexplicit⟩ | ⟨hmade, hexplicit, -⟩
  · rw [Declaration.Asks, if_pos hexplicit]
    exact hinsists
  · rw [hexplicit]
    exact hmade

/-- An expansion that begins registers nothing. -/
theorem Resolver.get?_opened (r : Resolver c) (i : Fin c.size) (args : List Schema) (id : String) :
    (r.opened i args).registry.get? id = r.registry.get? id :=
  Registry.get?_reserve _ _ _ _

/-- An expansion begins with a move of the registry. -/
theorem Resolver.opened_moves (r : Resolver c) (i : Fin c.size) (args : List Schema) :
    Registry.Moves r.registry (r.opened i args).registry :=
  .single (Registry.reserve_move _ _ _)

theorem Resolver.filled_moves (r : Resolver c) (identity : Identity c) (id : String) (schema : Schema)
    (owner : Location) : Registry.Moves r.registry (r.filled identity id schema owner).registry :=
  Registry.fill_moves _ _ _ _

theorem Resolver.released_moves (r : Resolver c) (id : String) : Registry.Moves r.registry (r.released id).registry :=
  Registry.release_moves _ _

/-- The beginning of an expansion keeps the registry sound. -/
theorem Registry.Sound.opened (h : r.registry.Sound) (i : Fin c.size) (args : List Schema) :
    (r.opened i args).registry.Sound :=
  h.moves (r.opened_moves i args)

theorem Registry.Sound.filled (h : r.registry.Sound) (identity : Identity c) (id : String) (schema : Schema)
    (owner : Location) : (r.filled identity id schema owner).registry.Sound :=
  h.moves (r.filled_moves identity id schema owner)

theorem Registry.Sound.released (h : r.registry.Sound) (id : String) : (r.released id).registry.Sound :=
  h.moves (r.released_moves id)

/-- A new id is reserved when the expansion begins, with the flag that tells how it was asked for. -/
theorem find?_opened (hnew : r.registry.slots.find? (r.expansionId i args) = none) :
    (r.opened i args).registry.slots.find? (r.expansionId i args) =
      some (.reserved ((c.get i).externalId.isSome && args.isEmpty) r.registry.nextOrder) :=
  Registry.find?_reserve_self hnew

/-- Two applications of a declaration without parameters are one identity. -/
theorem identity_eq {identity : Identity c} (hdeclaration : identity.declaration = i)
    (harity : identity.args.length = (c.get identity.declaration).typeParams.length)
    (hargs : args.length = (c.get i).typeParams.length) {id : String} (hinsists : (c.get i).InsistsOn id) :
    c.identity i args = identity := by
  obtain ⟨j, fingerprints⟩ := identity
  obtain rfl := hdeclaration
  rw [hinsists.2] at harity hargs
  obtain rfl : fingerprints = [] := List.length_eq_zero_iff.mp harity
  obtain rfl : args = [] := List.length_eq_zero_iff.mp hargs
  rfl

/-- What is being expanded and leads to itself shares its id with an expansion inside at most if both insist on it. -/
def Apart (p : Pending c) (i : Fin c.size) (id : String) : Prop :=
  ∀ entry ∈ p.identities, c.Leads entry.1.declaration entry.1.declaration → entry.2 = id →
    (c.get entry.1.declaration).InsistsOn id ∧ (c.get i).InsistsOn id ∧ i ≠ entry.1.declaration

namespace Owned

/-- A declaration that leads to itself has its id for itself or with others that can have it. -/
theorem holds_opened (h : Owned p r) (hc : c.Separate) {name : String} {origin : Location}
    (hlead : p.LeadTo (.apply name i args origin)) (hpending : p.id? (c.identity i args) = none)
    (hknown : r.id? (c.identity i args) = none) (hargs : args.length = (c.get i).typeParams.length)
    (hrec : c.Leads i i) : Holds c (r.opened i args).registry i (r.expansionId i args) := by
  rcases hslot : r.registry.slots.find? (r.expansionId i args) with _ | slot
  · exact .alone (find?_opened hslot) (expansionId_asks r hargs)
  rcases expansionId_cases r hargs with ⟨hinsists, -⟩ | ⟨-, -, hnew⟩
  · have hfirm : slot.isFirm = true := by
      rcases slot with ⟨_ | _, order⟩ | _
      · -- an expansion that has begun would have made up the id
        obtain ⟨entry, hentry, -, hmade⟩ := h.reserved _ _ _ hslot
        exact absurd hmade (hc.outside _ i _ (hlead.mentions entry hentry i rfl) (Or.inr hrec) hinsists)
      · rfl
      · rfl
    obtain ⟨entry, hentry, hasks⟩ := h.asked _ slot hslot
    refine .together (Registry.find?_reserve_of_find? hslot) hfirm hinsists hasks fun heq => ?_
    have hidentity := identity_eq heq (h.arity entry hentry) hargs hinsists
    rcases List.mem_append.mp hentry with hentry | hentry
    · exact absurd hidentity (by simpa using List.lookup_eq_none_iff.mp hpending entry hentry)
    · exact absurd hidentity (by simpa using List.lookup_eq_none_iff.mp hknown entry hentry)
  · rw [hnew] at hslot
    cases hslot

/-- An expansion that leads to itself shares its id only where that does no harm. -/
theorem apart (h : Owned p r) (hc : c.Separate) {name : String} {origin : Location}
    (hlead : p.LeadTo (.apply name i args origin)) (hpending : p.id? (c.identity i args) = none)
    (hargs : args.length = (c.get i).typeParams.length) : Apart p i (r.expansionId i args) := by
  intro entry hentry hrec heq
  have hholds := h.holds entry hentry hrec
  rw [heq] at hholds
  rcases expansionId_cases r hargs with ⟨hinsists, -⟩ | ⟨-, -, hnew⟩
  · have hentryInsists : (c.get entry.1.declaration).InsistsOn (r.expansionId i args) := by
      rcases hholds with @⟨explicit, -, -, hasks⟩ | ⟨-, -, hentryInsists, -, -⟩
      · cases explicit with
        | true => exact hasks
        | false => exact absurd hasks (hc.outside _ i _ (hlead.mentions entry hentry i rfl) (Or.inl hrec) hinsists)
      · exact hentryInsists
    refine ⟨hentryInsists, hinsists, fun hdeclaration => ?_⟩
    have hidentity := identity_eq hdeclaration.symm (h.arity entry (List.mem_append_left _ hentry)) hargs hinsists
    exact absurd hidentity (by simpa using List.lookup_eq_none_iff.mp hpending entry hentry)
  · rcases hholds with ⟨hslot, -⟩ | ⟨hslot, -⟩
    · rw [hnew] at hslot
      cases hslot
    · rw [hnew] at hslot
      cases hslot

/-- The beginning of an expansion. -/
theorem opened (h : Owned p r) (hc : c.Separate) {name : String} {origin : Location}
    (hlead : p.LeadTo (.apply name i args origin)) (hpending : p.id? (c.identity i args) = none)
    (hknown : r.id? (c.identity i args) = none) (hargs : args.length = (c.get i).typeParams.length) :
    Owned (p.push (c.identity i args) (r.expansionId i args)) (r.opened i args) where
  arity := by
    intro entry hentry
    rcases List.mem_cons.mp hentry with rfl | hentry
    · exact (List.length_map _).trans hargs
    · exact h.arity entry hentry
  holds := by
    intro entry hentry hrec
    rcases List.mem_cons.mp hentry with rfl | hentry
    · exact h.holds_opened hc hlead hpending hknown hargs hrec
    · rcases h.holds entry hentry hrec with ⟨hslot, hasks⟩ | ⟨hslot, hfirm, hinsists, hother, hne⟩
      · exact .alone (Registry.find?_reserve_of_find? hslot) hasks
      · exact .together (Registry.find?_reserve_of_find? hslot) hfirm hinsists hother hne
  asked := by
    intro id slot hslot
    rcases Registry.find?_of_reserve hslot with hslot | ⟨-, rfl, rfl⟩
    · obtain ⟨entry, hentry, hasks⟩ := h.asked id slot hslot
      exact ⟨entry, List.mem_cons_of_mem _ hentry, hasks⟩
    · exact ⟨_, List.mem_cons_self, expansionId_asks r hargs⟩
  reserved := by
    intro id explicit order hslot
    rcases Registry.find?_of_reserve hslot with hslot | ⟨-, rfl, heq⟩
    · obtain ⟨entry, hentry, hid, hasks⟩ := h.reserved id explicit order hslot
      exact ⟨entry, List.mem_cons_of_mem _ hentry, hid, hasks⟩
    · cases heq
      exact ⟨_, List.mem_cons_self, rfl, expansionId_asks r hargs⟩

/-- The end of an expansion. -/
theorem filled {id : String} (h : Owned (p.push (c.identity i args) id) r) (hsound : r.registry.Sound)
    (hapart : Apart p i id) (body : Schema) (owner : Location) :
    Owned p (r.filled (c.identity i args) id body owner) where
  arity := by
    intro entry hentry
    -- the entry has moved from what is pending to what is known
    rcases List.mem_append.mp hentry with hentry | hentry
    · exact h.arity entry (List.mem_append_left _ (List.mem_cons_of_mem _ hentry))
    rcases List.mem_cons.mp hentry with rfl | hentry
    · exact h.arity (c.identity i args, id) (List.mem_append_left _ List.mem_cons_self)
    · exact h.arity entry (List.mem_append_right _ hentry)
  holds := by
    intro entry hentry hrec
    have hholds := h.holds entry (List.mem_cons_of_mem _ hentry) hrec
    by_cases hid : entry.2 = id
    · obtain ⟨hinsists, hother, hne⟩ := hapart entry hentry hrec hid
      rw [hid] at hholds ⊢
      obtain ⟨slot, hslot, hfirm⟩ := hholds.isFirm hinsists
      obtain ⟨slot', hslot', hfirm'⟩ := Registry.find?_fill_firm hslot hfirm body owner
      have hasks : (c.get i).Asks id true := hother
      exact .together hslot' hfirm' hinsists hasks hne
    · have hkept := Registry.find?_fill_of_ne r.registry body owner (Ne.symm hid)
      rcases hholds with ⟨hslot, hasks⟩ | ⟨hslot, hfirm, hinsists, hother, hne⟩
      · exact .alone (hkept.trans hslot) hasks
      · exact .together (hkept.trans hslot) hfirm hinsists hother hne
  asked := by
    intro other slot hslot
    obtain ⟨slot', hslot', hexplicit⟩ := Registry.find?_of_fill hsound.names_nodup hslot
    obtain ⟨entry, hentry, hasks⟩ := h.asked other slot' hslot'
    rw [hexplicit] at hasks
    rcases List.mem_append.mp hentry with hentry | hentry
    · rcases List.mem_cons.mp hentry with rfl | hentry
      · exact ⟨_, List.mem_append_right _ List.mem_cons_self, hasks⟩
      · exact ⟨entry, List.mem_append_left _ hentry, hasks⟩
    · exact ⟨entry, List.mem_append_right _ (List.mem_cons_of_mem _ hentry), hasks⟩
  reserved := by
    intro other explicit order hslot
    have hne : id ≠ other := by
      rintro rfl
      exact Registry.find?_fill_ne_reserved hsound.names_nodup body owner order hslot
    have hslot := (Registry.find?_fill_of_ne r.registry body owner hne).symm.trans hslot
    obtain ⟨entry, hentry, hid, hasks⟩ := h.reserved other explicit order hslot
    rcases List.mem_cons.mp hentry with rfl | hentry
    · exact absurd hid hne
    · exact ⟨entry, hentry, hid, hasks⟩

end Owned

end Expansion

end RouteManifest
