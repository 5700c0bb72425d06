import Mathlib.Data.List.Forall2
import RouteManifest.Proofs.Meaning.Compiled
import RouteManifest.Proofs.Resolution.Ownership

/-!
# Runs compile

What a run answers is compiled from what it was given to resolve (`Runs.compiled`). The keys are the ids that the
resolver has handed out. They are not recorded in it: which arguments still count for an id, and that a declaration
which leads to itself is known by its id before its schema is there, shows in proofs only. `Keyed` is the invariant
that ties them to the resolver.

A later state can know less than an earlier one, when an id was given up. It has all that matters to schemas which
do not point at that id, and those are the ones that were made before (`Extends`).

What a task needs to start is said by `Task.Ready`, and what it has come to when it succeeds by `Task.Answered`. There is
one lemma for every way in which a task starts another one, and one for every way in which it succeeds. The hard one is
the end of an expansion (`Task.Answered.expanded`), which is prepared in the section on expansions: the id keeps its
schema (`Expanded.stored`), or gives way to that of an equal one (`GivesWay`).
-/

namespace RouteManifest

variable {c : Catalog}

/-! ## Keys of identities

An identity has the arguments as they were when the declaration was first applied to them. Its key has the same
arguments but for those that point at an id which was given up since: about these nothing is known any more. -/

/-- The ids of keys. -/
def Ids (keys : Key c → Prop) (id : String) : Prop := ∃ key, keys key ∧ key.id = id

namespace Key

/-- The declaration comes back to itself. -/
def Recursive (key : Key c) : Prop := c.Leads key.declaration key.declaration

/-- A key is for an identity that is known by the id. -/
structure Stands (key : Key c) (identity : Identity c) (id : String) : Prop where
  declaration : key.declaration = identity.declaration
  id_eq : key.id = id
  args : List.Forall₂ (fun a fingerprint => ∀ s, a = some s → s.Tidy ∧ s.fingerprint = fingerprint)
    key.args identity.args

/-- A key with the arguments of an identity stands for it. -/
theorem stands_self {i : Fin c.size} {args : List Schema} (htidy : ∀ s ∈ args, s.Tidy) (id : String) :
    (⟨i, args.map some, id⟩ : Key c).Stands (c.identity i args) id where
  declaration := rfl
  id_eq := rfl
  args := by
    rw [Catalog.identity, List.forall₂_map_left_iff, List.forall₂_map_right_iff, List.forall₂_same]
    intro s hs t ht
    obtain rfl := Option.some.inj ht
    exact ⟨htidy s hs, rfl⟩

/-- A key stands for the same identity when it forgets some of its arguments. -/
theorem Stands.forget {key : Key c} {identity : Identity c} {id : String} (h : key.Stands identity id)
    (other : String) : (key.forget other).Stands identity id where
  declaration := h.declaration
  id_eq := h.id_eq
  args := by
    rw [Key.forget, List.forall₂_map_left_iff]
    refine h.args.imp fun a fingerprint ha s hs => ?_
    obtain ⟨t, rfl, ht⟩ := Option.bind_eq_some_iff.mp hs
    split at ht
    · cases ht
    · exact ha s (congrArg some (Option.some.inj ht))

/-- An argument of a key has the shape of the argument that it stands for. -/
theorem Stands.exists_shape {key : Key c} {i : Fin c.size} {args : List Schema} {id : String}
    (h : key.Stands (c.identity i args) id) (htidy : ∀ s ∈ args, s.Tidy) {s : Schema} {a : Closure}
    {closures : List Closure}
    (hs : (some s, a) ∈ key.args.zip closures) : ∃ t, (t, a) ∈ args.zip closures ∧ t.canonical = s.canonical := by
  have hargs := h.args
  rw [Catalog.identity, List.forall₂_map_right_iff] at hargs
  clear h
  generalize key.args = known at hargs hs
  induction hargs generalizing closures with
  | nil => cases hs
  | @cons o t os ts hhead _ ih =>
    cases closures with
    | nil => cases hs
    | cons b closures =>
      rcases List.mem_cons.mp hs with heq | hs
      · obtain ⟨rfl, rfl⟩ := Prod.mk.inj heq
        obtain ⟨hs, hfingerprint⟩ := hhead s rfl
        exact ⟨t, List.mem_cons_self,
          Schema.canonical_eq_of_fingerprint (htidy t List.mem_cons_self).spelled hs.spelled hfingerprint.symm⟩
      · obtain ⟨u, hu, hshape⟩ := ih (fun s hs => htidy s (List.mem_cons_of_mem _ hs)) hs
        exact ⟨u, List.mem_cons_of_mem _ hu, hshape⟩

/-- A key whose arguments do not point at an id stays as it is. -/
theorem forget_of_not_references {key : Key c} {id : String}
    (h : ∀ s, some s ∈ key.args → s.references id = false) : key.forget id = key := by
  obtain ⟨i, args, keyId⟩ := key
  have hargs : args.map (fun a => a.bind fun s => if s.references id then none else some s) = args := by
    refine (List.map_congr_left fun a ha => ?_).trans (List.map_id _)
    cases a with
    | none => rfl
    | some s => exact if_neg (by rw [h s ha]; exact Bool.false_ne_true)
  rw [forget]
  simp only [hargs]

end Key

/-- A reference is compiled from every application of a declaration that the key stands for. -/
theorem Compiles.of_stands {r : Registry} {keys : Key c → Prop} {given : Schema → Closure → Prop} {key : Key c}
    {i : Fin c.size} {args : List Schema} {id : String} (hkey : keys key) (hstands : key.Stands (c.identity i args) id)
    (htidy : ∀ s ∈ args, s.Tidy) {cl : Closure} {closures : List Closure} (hlength : closures.length = args.length)
    (hargs : ∀ p ∈ args.zip closures, Compiles r keys given p.1 p.2)
    (htarget : cl.target? c = some (c.applied? i closures)) :
    Compiles r keys given (.reference id) cl := by
  obtain rfl := hstands.id_eq
  have hdeclaration : key.declaration = i := hstands.declaration
  obtain rfl := hdeclaration
  refine .key hkey htarget ?_ fun s a hs => ?_
  · rw [hlength, hstands.args.length_eq, Catalog.identity, List.length_map]
  · obtain ⟨t, ht, hshape⟩ := hstands.exists_shape htidy hs
    exact .shape (hargs _ ht) hshape

/-! ## The invariant

What is known of the keys is either that they are good, their entry is compiled from their declaration, or that they are
being expanded and come back to themselves. Everything that is registered points at ids of keys. -/

/-- A schema was compiled from some type. -/
def Rooted (r : Registry) (keys : Key c → Prop) (s : Schema) : Prop := ∃ cl, Compiled r keys s cl

/-- A schema of a type stays one while the registry moves on and keys are added. -/
theorem Rooted.of_moves {r r' : Registry} (h : Registry.Moves r r') {keys keys' : Key c → Prop}
    (hkeys : ∀ key, keys key → keys' key) {s : Schema} (hs : Rooted r keys s) : Rooted r' keys' s :=
  hs.imp fun _ hcompiles => hcompiles.mono (fun _ _ => Registry.objectView?_of_moves h) hkeys

/-- The state between two steps of a run. `running` are the keys of the expansions that have
begun, of declarations that lead to themselves. -/
structure Keyed (p : Pending c) (running keys : Key c → Prop) (r : Resolver c) : Prop where
  owned : Owned p r
  sound : r.registry.Sound
  tidy : r.registry.Tidy
  closed : r.registry.Closed (Ids keys)
  /-- what is registered is registered for a key -/
  held : ∀ id s, r.registry.get? id = some s → Ids keys id
  /-- what a key knows of its arguments are schemas of types -/
  rooted : ∀ key, keys key → ∀ s, some s ∈ key.args → Rooted r.registry keys s
  begun : ∀ key, running key → keys key ∧ (∀ s, some s ∈ key.args → s.Closed (Ids keys)) ∧
    ∃ entry ∈ p.identities, c.Leads entry.1.declaration entry.1.declaration ∧ key.id = entry.2
  pending : ∀ entry ∈ p.identities, c.Leads entry.1.declaration entry.1.declaration →
    ∃ key, running key ∧ key.Stands entry.1 entry.2
  known : ∀ entry ∈ r.known, (∃ s, r.registry.get? entry.2 = some s) ∧ ∃ key, keys key ∧ key.Stands entry.1 entry.2
  good : ∀ key, keys key → running key ∨ key.Good r.registry keys

/-- In the beginning there are no keys. -/
theorem keyed_empty : Keyed ({} : Pending c) (fun _ => False) (fun _ => False) {} where
  owned := owned_empty
  sound := Registry.sound_empty
  tidy := Registry.tidy_empty
  closed := fun _ _ h => by cases h
  held := fun _ _ h => by cases h
  rooted := fun _ h => h.elim
  begun := fun _ h => h.elim
  pending := fun _ h => by cases h
  known := fun _ h => by cases h
  good := fun _ h => h.elim

/-- What is compiled stays compiled, unless it points at what is not known any more. -/
structure Extends (r : Registry) (keys : Key c → Prop) (r' : Registry) (keys' : Key c → Prop) : Prop where
  ids : ∀ id, Ids keys id → Ids keys' id
  carry : ∀ given s cl, s.Closed (Ids keys) → Compiles r keys given s cl → Compiles r' keys' given s cl

namespace Extends

variable {r r' r'' : Registry} {keys keys' keys'' : Key c → Prop}

/-- What is known now is known now. -/
theorem refl : Extends r keys r keys := ⟨fun _ h => h, fun _ _ _ _ h => h⟩

/-- Schemas that point at keys do so later. -/
theorem closed (h : Extends r keys r' keys') {s : Schema} (hs : s.Closed (Ids keys)) : s.Closed (Ids keys') :=
  hs.mono fun id hid _ => h.ids id hid

/-- Schemas of types that point at keys are schemas of types later. -/
theorem rooted (h : Extends r keys r' keys') {s : Schema} (hclosed : s.Closed (Ids keys)) (hs : Rooted r keys s) :
    Rooted r' keys' s :=
  hs.imp fun cl hcompiles => h.carry _ s cl hclosed hcompiles

/-- What is carried on twice is carried on. -/
theorem trans (h : Extends r keys r' keys') (h' : Extends r' keys' r'' keys'') : Extends r keys r'' keys'' :=
  ⟨fun id hid => h'.ids id (h.ids id hid), fun given s cl hs hcompiles =>
    h'.carry given s cl (h.closed hs) (h.carry given s cl hs hcompiles)⟩

end Extends

/-- Moves of the registry and further keys carry everything on. -/
theorem extends_of_moves {r r' : Registry} (h : Registry.Moves r r') {keys keys' : Key c → Prop}
    (hkeys : ∀ key, keys key → keys' key) : Extends r keys r' keys' where
  ids := fun _ ⟨key, hkey, hid⟩ => ⟨key, hkeys key hkey, hid⟩
  carry := fun _ _ _ _ hcompiles => hcompiles.mono (fun _ _ => Registry.objectView?_of_moves h) hkeys

/-- A key that has its schema keeps it through them. -/
theorem Key.Good.of_moves {r r' : Registry} (h : Registry.Moves r r') {keys keys' : Key c → Prop}
    (hkeys : ∀ key, keys key → keys' key) {key : Key c} (hgood : key.Good r keys) : key.Good r' keys' := by
  obtain ⟨entry, hget, hbody⟩ := hgood
  exact ⟨entry, Registry.get?_of_moves h hget, fun args hargs =>
    (hbody args hargs).mono (fun _ _ => Registry.objectView?_of_moves h) hkeys⟩

namespace Keyed

variable {p : Pending c} {running keys : Key c → Prop} {r : Resolver c}

/-- What is registered for a key is compiled from its declaration, unless others insisted on its id as well. -/
theorem good_of_get? (h : Keyed p running keys r) {key : Key c} {entry : Schema} (hkey : keys key)
    (hget : r.registry.get? key.id = some entry) : key.Good r.registry keys ∨ ∃ pending ∈ p.identities,
      c.Leads pending.1.declaration pending.1.declaration ∧ ∃ id j, (c.get pending.1.declaration).InsistsOn id ∧
        ((c.get j).InsistsOn id ∨ (c.get j).MakesUp id) ∧ j ≠ pending.1.declaration := by
  refine (h.good key hkey).symm.imp_right fun hrunning => ?_
  obtain ⟨-, -, pending, hmem, hrec, hid⟩ := h.begun key hrunning
  rcases h.owned.holds pending hmem hrec with ⟨hslot, -⟩ | ⟨-, -, hinsists, hother, hne⟩
  · rw [hid, Registry.get?_of_reserved hslot] at hget
    cases hget
  · exact ⟨pending, hmem, hrec, _, _, hinsists, hother.insistsOn_or_makesUp, hne⟩

/-- Where nothing is being expanded every key has its schema. -/
theorem all_good (h : Keyed p (fun _ => False) keys r) : ∀ key, keys key → key.Good r.registry keys :=
  fun key hkey => (h.good key hkey).resolve_left not_false

/-- A key's id has a slot. -/
theorem mem_slots (h : Keyed p running keys r) {key : Key c} (hkey : keys key) :
    ∃ slot, r.registry.slots.find? key.id = some slot := by
  rcases h.good key hkey with hrunning | ⟨entry, hget, -⟩
  · obtain ⟨-, -, pending, hmem, hrec, hid⟩ := h.begun key hrunning
    rw [hid]
    rcases h.owned.holds pending hmem hrec with ⟨hslot, -⟩ | ⟨hslot, -⟩
    · exact ⟨_, hslot⟩
    · exact ⟨_, hslot⟩
  · obtain ⟨explicit, order, owner, hheld⟩ := Registry.get?_eq_some_iff.mp hget
    exact ⟨_, hheld⟩

end Keyed

/-! ## Expansions

When an expansion begins, its key is added if its declaration comes back to itself, since then the body can meet it.
When the expansion ends, the key is good under its own id, or it takes the id of an equal entry and the old id is
forgotten everywhere. -/

/-- The keys with the one of an expansion, if its declaration comes back to itself. -/
def adding (keys : Key c → Prop) (key : Key c) (k : Key c) : Prop := keys k ∨ key.Recursive ∧ k = key

/-- The keys when an id has been given up. -/
def forgetting (keys : Key c → Prop) (id : String) (k : Key c) : Prop :=
  ∃ key, keys key ∧ key.id ≠ id ∧ key.forget id = k

/-- The key of an expansion. -/
def Resolver.key (r : Resolver c) (i : Fin c.size) (args : List Schema) : Key c :=
  ⟨i, args.map some, r.expansionId i args⟩

section Expansion

variable {p : Pending c} {running keys : Key c → Prop} {r : Resolver c} {i : Fin c.size} {args : List Schema}

/-- An expansion that begins carries everything on. -/
theorem extends_opened (r : Resolver c) (i : Fin c.size) (args : List Schema) :
    Extends r.registry keys (r.opened i args).registry (adding keys (r.key i args)) :=
  extends_of_moves (Resolver.opened_moves _ _ _) fun _ => Or.inl

/-- The beginning of an expansion. -/
theorem Keyed.opened (h : Keyed p running keys r) (hc : c.Separate) {name : String} {origin : Location}
    (hlead : p.LeadTo (.apply name i args origin)) (hpending : p.id? (c.identity i args) = none)
    (hknown : r.id? (c.identity i args) = none) (hargs : args.length = (c.get i).typeParams.length)
    (hclosed : ∀ s ∈ args, s.Closed (Ids keys)) (htidy : ∀ s ∈ args, s.Tidy)
    (hrooted : ∀ s ∈ args, Rooted r.registry keys s) :
    Keyed (p.push (c.identity i args) (r.expansionId i args)) (adding running (r.key i args))
      (adding keys (r.key i args))
      (r.opened i args) where
  owned := h.owned.opened hc hlead hpending hknown hargs
  sound := h.sound.opened i args
  tidy := h.tidy.opened i args
  closed := by
    intro id s hget
    rw [Resolver.get?_opened] at hget
    exact (extends_opened r i args).closed (h.closed id s hget)
  held := by
    intro id s hget
    rw [Resolver.get?_opened] at hget
    exact (extends_opened r i args).ids id (h.held id s hget)
  rooted := by
    have hmoves : Registry.Moves r.registry (r.opened i args).registry := r.opened_moves i args
    -- the arguments of the new key have been resolved, so they are schemas of types
    rintro key (hkey | ⟨-, rfl⟩) s hs
    · exact (h.rooted key hkey s hs).of_moves hmoves fun _ => Or.inl
    · obtain ⟨t, ht, heq⟩ := List.mem_map.mp hs
      rw [← Option.some.inj heq]
      exact (hrooted t ht).of_moves hmoves fun _ => Or.inl
  begun := by
    rintro key (hrunning | ⟨hrec, rfl⟩)
    · obtain ⟨hkey, hargs, entry, hentry, hrec, hid⟩ := h.begun key hrunning
      exact ⟨Or.inl hkey, fun s hs => (extends_opened r i args).closed (hargs s hs),
        entry, List.mem_cons_of_mem _ hentry, hrec, hid⟩
    · refine ⟨Or.inr ⟨hrec, rfl⟩, fun s hs => ?_, _, List.mem_cons_self, hrec, rfl⟩
      obtain ⟨t, ht, heq⟩ := List.mem_map.mp hs
      rw [← Option.some.inj heq]
      exact (extends_opened r i args).closed (hclosed t ht)
  pending := by
    intro entry hentry hrec
    rcases List.mem_cons.mp hentry with rfl | hentry
    · exact ⟨r.key i args, Or.inr ⟨hrec, rfl⟩, Key.stands_self htidy _⟩
    · obtain ⟨key, hrunning, hstands⟩ := h.pending entry hentry hrec
      exact ⟨key, Or.inl hrunning, hstands⟩
  known := by
    intro entry hentry
    obtain ⟨⟨s, hs⟩, key, hkey, hstands⟩ := h.known entry hentry
    exact ⟨⟨s, by rw [Resolver.get?_opened]; exact hs⟩, key, Or.inl hkey, hstands⟩
  good := by
    rintro key (hkey | ⟨hrec, rfl⟩)
    · exact (h.good key hkey).imp Or.inl fun hgood => hgood.of_moves (Resolver.opened_moves _ _ _)
        fun _ => Or.inl
    · exact Or.inl (Or.inr ⟨hrec, rfl⟩)

/-! ### The end of an expansion

What holds when the body has been resolved is collected in `Expanded`: the state before, the state now, and the schema
of the body with what is known of it. The schema may then be stored under the id that was handed out, or be refused, or
give way. -/

/-- What an expansion has come to when it ends. -/
structure Expanded (p : Pending c) (running keys : Key c → Prop) (r : Resolver c) (i : Fin c.size) (args : List Schema)
    (keys' : Key c → Prop) (r' : Resolver c) (body : Schema) : Prop where
  before : Keyed p running keys r
  after : Keyed (p.push (c.identity i args) (r.expansionId i args)) (adding running (r.key i args)) keys' r'
  grown : Extends r.registry keys r'.registry keys'
  apart : Apart p i (r.expansionId i args)
  fresh : (c.get i).InsistsOn (r.expansionId i args) ∨ r.registry.slots.find? (r.expansionId i args) = none
  args_tidy : ∀ s ∈ args, s.Tidy
  args_closed : ∀ s ∈ args, s.Closed (Ids keys)
  args_rooted : ∀ s ∈ args, Rooted r.registry keys s
  body_tidy : body.Tidy
  body_closed : body.Closed (Ids keys')
  body_compiled : ∀ closures, closures.length = args.length →
    Compiles r'.registry keys' ((r.key i args).Given closures) body (c.applied? i closures)

namespace Expanded

variable {keys' : Key c → Prop} {r' : Resolver c} {body : Schema} {owner : Location}

/-- What was running before is running still, and was not touched. -/
theorem begun (h : Expanded p running keys r i args keys' r' body) {key : Key c} (hrunning : running key) :
    keys' key ∧ (∀ s, some s ∈ key.args → s.Closed (Ids keys)) ∧
      ∃ entry ∈ p.identities, c.Leads entry.1.declaration entry.1.declaration ∧ key.id = entry.2 :=
  ⟨(h.after.begun key (Or.inl hrunning)).1, (h.before.begun key hrunning).2⟩

/-- What the key of the expansion knows of its arguments are schemas of types still. -/
theorem rooted_key (h : Expanded p running keys r i args keys' r' body) {registry : Registry} {keys'' : Key c → Prop}
    (hextends : Extends r.registry keys registry keys'') {s : Schema} (hs : some s ∈ (r.key i args).args) :
    Rooted registry keys'' s := by
  obtain ⟨t, ht, heq⟩ := List.mem_map.mp hs
  obtain rfl := Option.some.inj heq
  exact hextends.rooted (h.args_closed t ht) (h.args_rooted t ht)

/-- The end of an expansion, with a schema under the id that was handed out. -/
theorem stored (h : Expanded p running keys r i args keys' r' body) {entry : Schema}
    (hfill : (r'.registry.fill (r.expansionId i args) body owner).1 = .ok (r.expansionId i args))
    (hget : (r'.registry.fill (r.expansionId i args) body owner).2.get? (r.expansionId i args) = some entry)
    (hentry : entry.canonical = body.canonical) :
    ∃ keys'', Keyed p running keys'' (r'.filled (c.identity i args) (r.expansionId i args) body owner) ∧
      Extends r'.registry keys' (r'.registry.fill (r.expansionId i args) body owner).2 keys'' ∧
        keys'' (r.key i args) := by
  have hmoves := Registry.fill_moves r'.registry (r.expansionId i args) body owner
  have hextends : Extends r'.registry keys' (r'.registry.fill (r.expansionId i args) body owner).2
      fun key => keys' key ∨ key = r.key i args := extends_of_moves hmoves fun _ => Or.inl
  -- every entry is an old one or the new one, and both have been taken care of
  have hread {id : String} {s : Schema} (hs : (r'.registry.fill (r.expansionId i args) body owner).2.get? id = some s) :
      r'.registry.get? id = some s ∨ s = body :=
    (Registry.get?_fill h.after.sound.names_nodup hs).imp_right fun hnew => hnew.2.1
  have hgood : (r.key i args).Good (r'.registry.fill (r.expansionId i args) body owner).2
      fun key => keys' key ∨ key = r.key i args := by
    refine ⟨entry, hget, fun closures hlength => .shape ?_ hentry.symm⟩
    rw [Resolver.key, List.length_map] at hlength
    exact (h.body_compiled closures hlength).mono (fun _ _ => Registry.objectView?_of_moves hmoves) fun _ => Or.inl
  refine ⟨_, ?_, hextends, Or.inr rfl⟩
  constructor
  case owned => exact h.after.owned.filled h.after.sound h.apart body owner
  case sound => exact h.after.sound.moves hmoves
  case tidy => exact fun id s hs => (hread hs).elim (h.after.tidy id s) fun heq => heq ▸ h.body_tidy
  case closed =>
    intro id s hs
    rcases hread hs with hs | rfl
    · exact hextends.closed (h.after.closed id s hs)
    · exact hextends.closed h.body_closed
  case held =>
    intro id s hs
    rcases Registry.get?_fill h.after.sound.names_nodup hs with hs | ⟨rfl, -⟩
    · exact hextends.ids id (h.after.held id s hs)
    · exact ⟨r.key i args, Or.inr rfl, rfl⟩
  case rooted =>
    rintro key (hkey | rfl) s hs
    · exact (h.after.rooted key hkey s hs).of_moves hmoves fun _ => Or.inl
    · exact h.rooted_key (h.grown.trans hextends) hs
  case begun =>
    intro key hrunning
    obtain ⟨hkey, hclosed, hpending⟩ := h.begun hrunning
    exact ⟨Or.inl hkey, fun s hs => hextends.closed (h.grown.closed (hclosed s hs)), hpending⟩
  case pending => exact h.before.pending
  case known =>
    intro known hknown
    rcases List.mem_cons.mp hknown with rfl | hknown
    · rw [hfill]
      exact ⟨⟨entry, hget⟩, r.key i args, Or.inr rfl, Key.stands_self h.args_tidy _⟩
    · obtain ⟨⟨s, hs⟩, key, hkey, hstands⟩ := h.after.known known hknown
      exact ⟨⟨s, Registry.get?_of_moves hmoves hs⟩, key, Or.inl hkey, hstands⟩
  case good =>
    rintro key (hkey | rfl)
    · -- of the keys that were running inside only this one has ended
      rcases h.after.good key hkey with (hrunning | ⟨-, rfl⟩) | hold
      · exact Or.inl hrunning
      · exact Or.inr hgood
      · exact Or.inr (hold.of_moves hmoves fun _ => Or.inl)
    · exact Or.inr hgood

end Expanded

/-! ### Giving way

Where the registry finds an equal schema, the new id disappears. Keys with that id are replaced by one with the id that
stays, and all other keys forget the arguments which pointed at it. Nothing else points there, since the registry has
looked for references in the entries, and all that was made before the id existed cannot point at it. -/

/-- The keys when the id of an expansion has been given up: those with other ids, which do not know the schemas that
point at it any more, and the one of the expansion, with the id that its own gave way to. -/
def sharing (keys : Key c → Prop) (key : Key c) (shared : String) (k : Key c) : Prop :=
  forgetting keys key.id k ∨ k = { key with id := shared }

/-- An expansion whose id gives way to that of an equal schema. -/
structure GivesWay (p : Pending c) (running keys : Key c → Prop) (r : Resolver c) (i : Fin c.size) (args : List Schema)
    (keys' : Key c → Prop) (r' : Resolver c) (body : Schema) (owner : Location) (order : Nat) (shared : String)
    (entry : Schema) : Prop extends Expanded p running keys r i args keys' r' body where
  held : r'.registry.slots.find? (r.expansionId i args) = some (.reserved false order)
  entry_shared : r'.registry.get? shared = some entry
  shape : entry.canonical = body.canonical
  body_apart : body.references (r.expansionId i args) = false
  unreferenced : r'.registry.isReferenced (r.expansionId i args) = false
  fill_eq : r'.registry.fill (r.expansionId i args) body owner =
    (.ok shared, { r'.registry with slots := r'.registry.slots.erase (r.expansionId i args) })

namespace GivesWay

variable {keys' : Key c → Prop} {r' : Resolver c} {body : Schema} {owner : Location} {order : Nat} {shared : String}
  {entry : Schema}

/-- An id that is given up was not insisted on, so nothing that is running has it. -/
theorem id_ne_of_running (h : GivesWay p running keys r i args keys' r' body owner order shared entry) {key : Key c}
    (hrunning : running key) : key.id ≠ r.expansionId i args := by
  obtain ⟨-, -, pending, hpending, hrec, hid⟩ := h.before.begun key hrunning
  rw [hid]
  intro heq
  obtain ⟨hinsists, -, -⟩ := h.apart pending hpending hrec heq
  have hholds := h.after.owned.holds pending (List.mem_cons_of_mem _ hpending) hrec
  rw [heq] at hholds
  obtain ⟨slot, hslot, hfirm⟩ := hholds.isFirm hinsists
  obtain rfl := Option.some.inj (h.held.symm.trans hslot)
  cases hfirm

/-- No schema from before points at an id that is given up. -/
theorem not_ids (h : GivesWay p running keys r i args keys' r' body owner order shared entry) :
    ¬Ids keys (r.expansionId i args) := by
  intro hid
  obtain ⟨key, hkey, hkeyId⟩ := h.grown.ids _ hid
  rcases h.after.good key hkey with (hrunning | ⟨hrec, rfl⟩) | ⟨existing, hexisting, -⟩
  · exact h.id_ne_of_running hrunning hkeyId
  · rcases h.fresh with hinsists | hnew
    · obtain ⟨slot, hslot, hfirm⟩ := (h.after.owned.holds _ List.mem_cons_self hrec).isFirm hinsists
      obtain rfl := Option.some.inj (h.held.symm.trans hslot)
      cases hfirm
    · obtain ⟨old, hold, heq⟩ := hid
      obtain ⟨slot, hslot⟩ := h.before.mem_slots hold
      rw [heq, hnew] at hslot
      cases hslot
  · rw [hkeyId, Registry.get?_of_reserved h.held] at hexisting
    cases hexisting

/-- The key of an expansion that was running before does not know the new id. -/
theorem forget_of_running (h : GivesWay p running keys r i args keys' r' body owner order shared entry) {key : Key c}
    (hrunning : running key) : key.forget (r.expansionId i args) = key := by
  refine Key.forget_of_not_references fun s hs => ?_
  by_contra href
  obtain ⟨-, hclosed, -⟩ := h.before.begun key hrunning
  exact h.not_ids ((hclosed s hs).of_references (by simpa using href))

/-- No schema was registered under the id, so none is lost. -/
theorem get?_eq (h : GivesWay p running keys r i args keys' r' body owner order shared entry) (id : String) :
    (r'.registry.fill (r.expansionId i args) body owner).2.get? id = r'.registry.get? id := by
  rw [h.fill_eq]
  exact Registry.get?_drop h.after.sound.names_nodup h.held id

/-- No registered schema points at the id that is given up: that is what the registry has made sure of. -/
theorem not_references (h : GivesWay p running keys r i args keys' r' body owner order shared entry) {id : String}
    {s : Schema} (hs : r'.registry.get? id = some s) : s.references (r.expansionId i args) = false := by
  by_contra href
  have := h.unreferenced
  rw [Registry.isReferenced_of_get? hs (by simpa using href)] at this
  cases this

/-- A key of another id is still there, without what it knew of schemas that point at the id. -/
theorem sharing_of_ne {key : Key c} (hkey : keys' key) (hne : key.id ≠ r.expansionId i args) (shared : String) :
    sharing keys' (r.key i args) shared (key.forget (r.expansionId i args)) :=
  Or.inl ⟨key, hkey, hne, rfl⟩

/-- The id of a key is that of a key still, unless it is the one that was given up. -/
theorem ids_sharing {id : String} (hid : Ids keys' id) (hne : id ≠ r.expansionId i args) (shared : String) :
    Ids (sharing keys' (r.key i args) shared) id := by
  obtain ⟨key, hkey, rfl⟩ := hid
  exact ⟨_, sharing_of_ne hkey hne shared, rfl⟩

/-- A schema that does not point at the id is compiled as before. -/
theorem compiles (h : GivesWay p running keys r i args keys' r' body owner order shared entry)
    {given given' : Schema → Closure → Prop} {s : Schema} {cl : Closure}
    (hs : s.references (r.expansionId i args) = false)
    (hgiven : ∀ s cl, given s cl → s.references (r.expansionId i args) = false → given' s cl)
    (hcompiles : Compiles r'.registry keys' given s cl) :
    Compiles (r'.registry.fill (r.expansionId i args) body owner).2 (sharing keys' (r.key i args) shared) given' s cl :=
  have hmoves := Registry.fill_moves r'.registry (r.expansionId i args) body owner
  (hcompiles.forget (Registry.get?_of_reserved h.held) (fun _ _ => Registry.objectView?_of_moves hmoves)
    (fun _ hkey hne => sharing_of_ne hkey hne shared) hgiven).resolve_left (by simp [hs])

/-- A key that had its schema has it still. -/
theorem good (h : GivesWay p running keys r i args keys' r' body owner order shared entry) {key : Key c}
    (hgood : key.Good r'.registry keys') : (key.forget (r.expansionId i args)).Good
      (r'.registry.fill (r.expansionId i args) body owner).2 (sharing keys' (r.key i args) shared) := by
  obtain ⟨schema, hget, hschema⟩ := hgood
  refine ⟨schema, (h.get?_eq _).trans hget, fun closures hlength => ?_⟩
  rw [Key.forget, List.length_map] at hlength
  exact h.compiles (h.not_references hget) (fun s a hs href => Key.mem_forget.mpr ⟨hs, href⟩)
    (hschema closures hlength)

/-- The key of the expansion has the schema of the id that its own gave way to. -/
theorem good_key (h : GivesWay p running keys r i args keys' r' body owner order shared entry) :
    Key.Good (r'.registry.fill (r.expansionId i args) body owner).2 (sharing keys' (r.key i args) shared)
      { r.key i args with id := shared } := by
  refine ⟨entry, (h.get?_eq _).trans h.entry_shared, fun closures hlength => .shape ?_ h.shape.symm⟩
  rw [Resolver.key, List.length_map] at hlength
  exact h.compiles h.body_apart (fun _ _ hgiven _ => hgiven) (h.body_compiled closures hlength)

/-- What is closed from before does not point at the id, so it is carried on. -/
theorem extends_sharing (h : GivesWay p running keys r i args keys' r' body owner order shared entry) :
    Extends r.registry keys (r'.registry.fill (r.expansionId i args) body owner).2
      (sharing keys' (r.key i args) shared) where
  ids := fun id hid => ids_sharing (h.grown.ids id hid) (fun heq => h.not_ids (heq ▸ hid)) shared
  carry := by
    intro given s cl hs hcompiles
    refine h.compiles ?_ (fun _ _ hgiven _ => hgiven) (h.grown.carry given s cl hs hcompiles)
    -- what is closed under the old keys does not point at the id that is given up
    by_contra href
    exact h.not_ids (hs.of_references (by simpa using href))

/-- The state after an id was given up is in order, piece by piece from what has been shown above. -/
theorem keyed (h : GivesWay p running keys r i args keys' r' body owner order shared entry) :
    Keyed p running (sharing keys' (r.key i args) shared)
      (r'.filled (c.identity i args) (r.expansionId i args) body owner) where
  owned := h.after.owned.filled h.after.sound h.apart body owner
  sound := h.after.sound.filled _ _ _ _
  tidy := fun id s hs => h.after.tidy id s ((h.get?_eq id).symm.trans hs)
  closed := by
    intro id s hs
    have hs : r'.registry.get? id = some s := (h.get?_eq id).symm.trans hs
    refine (h.after.closed id s hs).mono fun other hid href => ids_sharing hid ?_ shared
    -- a registered schema does not point at the id, so no key is lost that it needs
    rintro rfl
    rw [h.not_references hs] at href
    cases href
  held := by
    intro id s hs
    have hs : r'.registry.get? id = some s := (h.get?_eq id).symm.trans hs
    refine ids_sharing (h.after.held id s hs) ?_ shared
    rintro rfl
    rw [Registry.get?_of_reserved h.held] at hs
    cases hs
  rooted := by
    rintro _ (⟨key, hkey, -, rfl⟩ | rfl) s hs
    · obtain ⟨hs, href⟩ := Key.mem_args_forget.mp hs
      exact (h.after.rooted key hkey s hs).imp fun _ => h.compiles href fun _ _ hgiven _ => hgiven
    · exact h.rooted_key h.extends_sharing hs
  begun := by
    intro key hrunning
    obtain ⟨hkey, hclosed, hpending⟩ := h.toExpanded.begun hrunning
    refine ⟨?_, fun s hs => h.extends_sharing.closed (hclosed s hs), hpending⟩
    rw [← h.forget_of_running hrunning]
    exact sharing_of_ne hkey (h.id_ne_of_running hrunning) shared
  pending := h.before.pending
  known := by
    intro known hknown
    rcases List.mem_cons.mp hknown with rfl | hknown
    · rw [show (r'.registry.fill (r.expansionId i args) body owner).1 = .ok shared by rw [h.fill_eq]]
      exact ⟨⟨entry, (h.get?_eq _).trans h.entry_shared⟩, _, Or.inr rfl, Key.stands_self h.args_tidy _⟩
    · obtain ⟨⟨s, hs⟩, key, hkey, hstands⟩ := h.after.known known hknown
      refine ⟨⟨s, (h.get?_eq _).trans hs⟩, _, sharing_of_ne hkey ?_ shared, hstands.forget _⟩
      rw [hstands.id_eq]
      intro heq
      rw [heq, Registry.get?_of_reserved h.held] at hs
      cases hs
  good := by
    rintro _ (⟨key, hkey, hne, rfl⟩ | rfl)
    · -- a key that is running was there before the id was handed out and does not know it
      rcases h.after.good key hkey with (hrunning | ⟨-, rfl⟩) | hold
      · have hsame : key.forget (r.key i args).id = key := h.forget_of_running hrunning
        rw [hsame]
        exact Or.inl hrunning
      · exact absurd rfl hne
      · exact Or.inr (h.good hold)
    · exact Or.inr h.good_key

end GivesWay

namespace Expanded

variable {keys' : Key c → Prop} {r' : Resolver c} {body : Schema} {owner : Location}

/-- The end of an expansion. -/
theorem filled (h : Expanded p running keys r i args keys' r' body) {final : String}
    (hfill : (r'.registry.fill (r.expansionId i args) body owner).1 = .ok final) :
    ∃ keys'', Keyed p running keys'' (r'.filled (c.identity i args) (r.expansionId i args) body owner) ∧
      Extends r.registry keys (r'.registry.fill (r.expansionId i args) body owner).2 keys'' ∧
      ∃ key, keys'' key ∧ key.Stands (c.identity i args) final := by
  -- the schema is refused, or there already, or given up for an equal one, or stored
  rcases Registry.fill_cases r'.registry (r.expansionId i args) body owner with
    ⟨_, hf, -⟩ | ⟨existing, hget, hfp, hf⟩ | ⟨order, shared, hheld, hshared, hbody, hentries, hf⟩ |
    ⟨explicit, order, -, hf⟩
  · rw [hf] at hfill
    cases hfill
  · obtain rfl : r.expansionId i args = final := by
      rw [hf] at hfill
      exact Except.ok.inj hfill
    have hshape := Schema.canonical_eq_of_fingerprint (h.after.tidy _ _ hget).spelled h.body_tidy.spelled hfp
    obtain ⟨keys'', hkeyed, hextends, hkey⟩ := h.stored hfill (by rw [hf]; exact hget) hshape
    exact ⟨keys'', hkeyed, h.grown.trans hextends, _, hkey, Key.stands_self h.args_tidy _⟩
  · obtain rfl : shared = final := by
      rw [hf] at hfill
      exact Except.ok.inj hfill
    obtain ⟨entry, hget, hfp⟩ := h.after.sound.index_filled _ _ hshared
    have hshape := Schema.canonical_eq_of_fingerprint (h.after.tidy _ _ hget).spelled h.body_tidy.spelled hfp
    have hgives : GivesWay p running keys r i args keys' r' body owner order shared entry :=
      { h with
        held := hheld
        entry_shared := hget
        shape := hshape
        body_apart := hbody
        unreferenced := hentries
        fill_eq := hf }
    exact ⟨_, hgives.keyed, hgives.extends_sharing, _, Or.inr rfl, Key.stands_self h.args_tidy _⟩
  · obtain rfl : r.expansionId i args = final := by
      rw [hf] at hfill
      exact Except.ok.inj hfill
    obtain ⟨keys'', hkeyed, hextends, hkey⟩ := h.stored hfill (by rw [hf, Registry.get?_store, if_pos rfl]) rfl
    exact ⟨keys'', hkeyed, h.grown.trans hextends, _, hkey, Key.stands_self h.args_tidy _⟩

end Expanded

end Expansion

/-! ## Runs

A task is compiled in every scope of closures that its scope of schemas was compiled from. There is always one, but it
is not unique, since equal schemas can come from different types. -/

/-- What names stand for in the scope of schemas is compiled from what they stand for in the scope of closures. -/
def Scoped (r : Registry) (keys : Key c → Prop) (given : Schema → Closure → Prop) (scope : Table Schema)
    (closures : List (String × Closure)) : Prop :=
  ∀ name, (scope.find? name = none → Table.find? closures name = none) ∧
    ∀ s, scope.find? name = some s → ∃ cl, Table.find? closures name = some cl ∧ Compiles r keys given s cl

/-- What names stand for is compiled later, too. -/
theorem Scoped.extends {r r' : Registry} {keys keys' : Key c → Prop} (h : Extends r keys r' keys')
    {given : Schema → Closure → Prop} {scope : Table Schema} (hclosed : ∀ s ∈ scope.values, s.Closed (Ids keys))
    {closures : List (String × Closure)} (hscoped : Scoped r keys given scope closures) :
    Scoped r' keys' given scope closures := by
  refine fun name => ⟨(hscoped name).1, fun s hs => ?_⟩
  obtain ⟨cl, hcl, hcompiles⟩ := (hscoped name).2 s hs
  exact ⟨cl, hcl, h.carry given s cl (hclosed s (List.mem_map_of_mem (f := Prod.snd) (Table.mem_of_find? hs)))
    hcompiles⟩

/-- What names stand for in a scope of schemas of types is compiled from what they stand for in some scope of
closures. -/
theorem exists_scoped {r : Registry} {keys : Key c → Prop} {scope : Table Schema}
    (h : ∀ s ∈ scope.values, Rooted r keys s) : ∃ closures, Scoped r keys (fun _ _ => False) scope closures := by
  induction scope with
  | nil => exact ⟨[], fun _ => ⟨fun _ => rfl, fun _ hs => by cases hs⟩⟩
  | cons entry rest ih =>
    obtain ⟨name, s⟩ := entry
    obtain ⟨cl, hcl⟩ := h s List.mem_cons_self
    obtain ⟨closures, hclosures⟩ := ih fun t ht => h t (List.mem_cons_of_mem _ ht)
    refine ⟨(name, cl) :: closures, fun other => ?_⟩
    rw [Table.find?, Table.find?]
    split
    · exact ⟨fun hnone => (by cases hnone), fun t ht => ⟨cl, rfl, Option.some.inj ht ▸ hcl⟩⟩
    · exact hclosures other

/-- Inside a declaration the type parameters stand for the arguments. -/
theorem scoped_given (r : Registry) (keys : Key c → Prop) (key : Key c) {args : List Schema}
    (hargs : key.args = args.map some) {closures : List Closure} (hlength : closures.length = args.length) :
    Scoped r keys (key.Given closures) ((c.get key.declaration).scope args)
      (Table.ofEntries ((c.get key.declaration).typeParams.zip closures)) := by
  -- both scopes are images of the one with pairs of a schema and a closure
  have hfst : args = (args.zip closures).map Prod.fst := (List.map_fst_zip (by omega)).symm
  have hsnd : closures = (args.zip closures).map Prod.snd := (List.map_snd_zip (by omega)).symm
  have hmap {α : Type} (f : Schema × Closure → α) (params : List String) (l : List (Schema × Closure)) :
      params.zip (l.map f) = Table.mapValues f (params.zip l) := by
    rw [List.zip_map_right]
    rfl
  intro name
  have hschema : ((c.get key.declaration).scope args).find? name = (Table.find? (Table.ofEntries
      ((c.get key.declaration).typeParams.zip (args.zip closures))) name).map Prod.fst := by
    rw [Declaration.scope, ← Table.find?_ofEntries_mapValues, ← hmap, ← hfst]
  have hclosure : Table.find? (Table.ofEntries ((c.get key.declaration).typeParams.zip closures)) name =
      (Table.find? (Table.ofEntries ((c.get key.declaration).typeParams.zip (args.zip closures))) name).map
        Prod.snd := by
    rw [← Table.find?_ofEntries_mapValues, ← hmap, ← hsnd]
  rw [hschema, hclosure]
  rcases hfound : Table.find? (Table.ofEntries ((c.get key.declaration).typeParams.zip (args.zip closures))) name
    with _ | ⟨s, cl⟩
  · exact ⟨fun _ => rfl, fun _ hs => by cases hs⟩
  · refine ⟨fun hnone => (by cases hnone), fun t ht => ?_⟩
    obtain rfl := Option.some.inj ht
    refine ⟨cl, rfl, .given ?_⟩
    rw [Key.Given, hargs, List.zip_map_left, List.mem_map]
    exact ⟨(s, cl), (List.of_mem_zip (Table.mem_of_mem_ofEntries (Table.mem_of_find? hfound))).2, rfl⟩

namespace Task

/-- The answer is compiled from the task, in every place that its inputs are compiled for. -/
def Compiled (r : Registry) (keys : Key c → Prop) (r' : Registry) (keys' : Key c → Prop) :
    (t : Task c) → t.Answer → Prop
  | .node scope origin e, s => ∀ given closures, Scoped r keys given scope closures →
    Compiles r' keys' given s (.mk e closures origin.unit)
  | .list scope origin es, l => l.length = es.length ∧ ∀ given closures, Scoped r keys given scope closures →
    ∀ p ∈ l.zip es, Compiles r' keys' given p.1 (.mk p.2 closures origin.unit)
  | .apply _ i args _, s => ∀ given closures cl, closures.length = args.length →
    (∀ p ∈ args.zip closures, Compiles r keys given p.1 p.2) → cl.target? c = some (c.applied? i closures) →
    Compiles r' keys' given s cl

end Task

/-! ## How a task starts, and how it ends

`Ready` is what a rule of `Runs` is entered with and `Answered` what it is left with. The lemmas have the names of the
rules. -/

namespace Task

/-- A task can start: the state is in order, what has begun leads to the task, and what the task is given are schemas of
types that point at keys. -/
structure Ready (t : Task c) (p : Pending c) (running keys : Key c → Prop) (r : Resolver c) : Prop where
  keyed : Keyed p running keys r
  lead : p.LeadTo t
  applied : t.Applied
  closed : ∀ s ∈ t.inputs, s.Closed (Ids keys)
  tidy : ∀ s ∈ t.inputs, s.Tidy
  rooted : ∀ s ∈ t.inputs, Rooted r.registry keys s

/-- A task has ended: the state is in order, the keys have been extended, and the answer is compiled from the task. -/
structure Answered (t : Task c) (p : Pending c) (running keys : Key c → Prop) (r : Resolver c) (answer : t.Answer)
    (keys' : Key c → Prop) (r' : Resolver c) : Prop where
  keyed : Keyed p running keys' r'
  grown : Extends r.registry keys r'.registry keys'
  closed : ∀ s ∈ t.outputs answer, s.Closed (Ids keys')
  compiled : t.Compiled r.registry keys r'.registry keys' answer

end Task

section Steps

variable {p : Pending c} {running keys keys' keys'' : Key c → Prop} {scope : Table Schema} {origin : Location}
  {e : TypeExpr} {es : List TypeExpr} {name : String} {i : Fin c.size} {args : List Schema} {r r' r'' : Resolver c}

namespace Task.Ready

/-- The first of several expressions can start if all of them can. -/
theorem head (h : Ready (.list scope origin (e :: es)) p running keys r) : Ready (.node scope origin e) p running keys r :=
  ⟨h.keyed, h.lead.head, trivial, h.closed, h.tidy, h.rooted⟩

/-- The parts of an expression can start if it can, and so can the arguments of a name. -/
theorem list (h : Ready (.node scope origin e) p running keys r)
    (hes : ∀ a ∈ es, ∀ x : TypeExpr, x.Inside a → x.Inside e) : Ready (.list scope origin es) p running keys r :=
  ⟨h.keyed, h.lead.list hes, trivial, h.closed, h.tidy, h.rooted⟩

/-- The others of several expressions are resolved with the keys that the first one has left. -/
theorem tail (h : Ready (.list scope origin (e :: es)) p running keys r) {s : Schema}
    (hhead : Answered (.node scope origin e) p running keys r s keys' r') :
    Ready (.list scope origin es) p running keys' r' where
  keyed := hhead.keyed
  lead := h.lead.tail
  applied := trivial
  closed := fun s hs => hhead.grown.closed (h.closed s hs)
  tidy := h.tidy
  rooted := fun s hs => hhead.grown.rooted (h.closed s hs) (h.rooted s hs)

/-- A declaration is applied to what its arguments have been compiled to. -/
theorem apply (h : Ready (.node scope origin e) p running keys r) (he : e.form = .named name es)
    (hi : c.applied name es.length origin = .ok i) {l : List Schema} (hrun : Runs p (.list scope origin es) r (.ok l) r')
    (hl : Answered (.list scope origin es) p running keys r l keys' r') :
    Ready (.apply name i l origin) p running keys' r' := by
  obtain ⟨hlookup, hcount⟩ := Catalog.applied_eq_ok.mp hi
  obtain ⟨hlength, hcompiled⟩ := hl.compiled
  obtain ⟨-, htidy⟩ := hrun.tidy rfl h.keyed.sound h.keyed.tidy h.tidy
  refine ⟨hl.keyed, h.lead.apply he hlookup l, hlength.trans hcount.symm, hl.closed, htidy, fun s hs => ?_⟩
  obtain ⟨closures, hscoped⟩ := exists_scoped h.rooted
  obtain ⟨a, ha⟩ := exists_mem_zip_left hlength.symm hs
  exact ⟨_, hcompiled _ closures hscoped _ ha⟩

/-- The body of a declaration is resolved with the key of the expansion among the others. -/
theorem body (hc : c.Separate) (h : Ready (.apply name i args origin) p running keys r)
    (hpending : p.id? (c.identity i args) = none) (hknown : r.id? (c.identity i args) = none) :
    Ready (.node ((c.get i).scope args) (c.get i).location (c.get i).body)
      (p.push (c.identity i args) (r.expansionId i args)) (adding running (r.key i args)) (adding keys (r.key i args))
      (r.opened i args) := by
  have hscope : ∀ s ∈ ((c.get i).scope args).values, s ∈ args := fun s hs => Declaration.mem_of_mem_scope hs
  have hext : Extends r.registry keys (r.opened i args).registry (adding keys (r.key i args)) := extends_opened r i args
  exact {
    keyed := h.keyed.opened hc h.lead hpending hknown h.applied h.closed h.tidy h.rooted
    lead := h.lead.push _
    applied := trivial
    closed := fun s hs => hext.closed (h.closed s (hscope s hs))
    tidy := fun s hs => h.tidy s (hscope s hs)
    rooted := fun s hs => hext.rooted (h.closed s (hscope s hs)) (h.rooted s (hscope s hs)) }

end Task.Ready

/-! ### The ways to end

One lemma for each rule that succeeds. Each takes what its premises have ended with, and has to say with which keys the
task ends. -/

namespace Task.Answered

/-- Expressions that have been compiled one after the other are compiled together; the first answer is carried on. -/
theorem cons (hstart : Ready (.list scope origin (e :: es)) p running keys r) {s : Schema} {l : List Schema}
    (hhead : Answered (.node scope origin e) p running keys r s keys' r')
    (htail : Answered (.list scope origin es) p running keys' r' l keys'' r'') :
    Answered (.list scope origin (e :: es)) p running keys r (s :: l) keys'' r'' := by
  have hs : s.Closed (Ids keys') := hhead.closed s List.mem_cons_self
  obtain ⟨hlength, hcompiled⟩ := htail.compiled
  refine ⟨htail.keyed, hhead.grown.trans htail.grown,
    List.forall_mem_cons.mpr ⟨htail.grown.closed hs, htail.closed⟩, congrArg Nat.succ hlength, ?_⟩
  intro given closures hscoped q hq
  rcases List.mem_cons.mp hq with rfl | hq
  · exact htail.grown.carry _ _ _ hs (hhead.compiled given closures hscoped)
  · exact hcompiled given closures (hscoped.extends hhead.grown hstart.closed) q hq

/-- What is put together of compiled parts is compiled. Objects are merged as they are registered, so where an intersection is
met every key has to be good, and it is: where ids are shared there are no intersections. -/
theorem built (hc : c.Separate) (hstart : Ready (.node scope origin e) p running keys r) {parts : List TypeExpr}
    {build : Registry → List Schema → Schema} (he : e.form = .built parts build) {l : List Schema}
    (hrun : Runs p (.list scope origin parts) r (.ok l) r')
    (hl : Answered (.list scope origin parts) p running keys r l keys' r') :
    Answered (.node scope origin e) p running keys r (build r'.registry l) keys' r' := by
  obtain ⟨hr', hext, hclosed, hlength, hcompiled⟩ := hl
  obtain ⟨-, htidy⟩ := hrun.tidy rfl hstart.keyed.sound hstart.keyed.tidy hstart.tidy
  refine ⟨hr', hext, List.forall_mem_singleton.mpr ?_, fun given closures hscoped => ?_⟩
  · exact TypeExpr.closed_build he hclosed fun s hs _ => Registry.closed_objectView? hr'.closed (hclosed s hs)
  have hparts := hcompiled given closures hscoped
  by_cases hnode : ∃ members, e = .intersection members
  · obtain ⟨members, rfl⟩ := hnode
    cases he
    refine .allOf (fun key entry hkey hget => ?_) hr'.tidy rfl hlength htidy hparts
    refine (hr'.good_of_get? hkey hget).resolve_right ?_
    rintro ⟨pending, hmem, hrec, id, j, hinsists, hother, hne⟩
    obtain ⟨k, hk, hinside, -⟩ := hstart.lead.meets pending hmem hrec _ _ ⟨.self, rfl⟩
    exact hc.shared _ _ _ hrec hinsists hother hne k _ hk hinside
  · exact .built r'.registry he (fun members heq => hnode ⟨members, heq⟩) hlength htidy hparts

/-- A type parameter is compiled to what it stands for. -/
theorem bound (hstart : Ready (.node scope origin e) p running keys r)
    (he : e.form = .named name [] ∨ e.form = .parameter name) {s : Schema} (hs : scope.find? name = some s) :
    Answered (.node scope origin e) p running keys r s keys r := by
  have hmem : s ∈ scope.values := List.mem_map_of_mem (f := Prod.snd) (Table.mem_of_find? hs)
  refine ⟨hstart.keyed, .refl, List.forall_mem_singleton.mpr (hstart.closed s hmem), fun given closures hscoped => ?_⟩
  obtain ⟨cl, hcl, hcompiled⟩ := (hscoped name).2 s hs
  exact .target (Closure.target?_bound he hcl) hcompiled

/-- A name is compiled to what its declaration is compiled to, applied to the compiled arguments. -/
theorem named (he : e.form = .named name es) (hs : es = [] → scope.find? name = none)
    (hi : c.applied name es.length origin = .ok i) {l : List Schema} {s : Schema}
    (hl : Answered (.list scope origin es) p running keys r l keys' r')
    (happly : Answered (.apply name i l origin) p running keys' r' s keys'' r'') :
    Answered (.node scope origin e) p running keys r s keys'' r'' := by
  obtain ⟨hlookup, hcount⟩ := Catalog.applied_eq_ok.mp hi
  obtain ⟨hlength, hcompiled⟩ := hl.compiled
  refine ⟨happly.keyed, hl.grown.trans happly.grown, happly.closed, fun given closures hscoped => ?_⟩
  refine happly.compiled given (es.map fun a => .mk a closures origin.unit) _ ?_ (fun q hq => ?_) ?_
  · rw [List.length_map, hlength]
  · rw [List.zip_map_right, List.mem_map] at hq
    obtain ⟨q, hq, rfl⟩ := hq
    exact hcompiled given closures hscoped q hq
  · exact Closure.target?_named he (fun hnil => (hscoped name).1 (hs hnil)) hlookup hcount

/-- An application is answered by the id of a key that it stands for. -/
theorem reference (hstart : Ready (.apply name i args origin) p running keys r) (hr' : Keyed p running keys' r')
    (hext : Extends r.registry keys r'.registry keys') {key : Key c} (hkey : keys' key) {id : String}
    (hstands : key.Stands (c.identity i args) id) :
    Answered (.apply name i args origin) p running keys r (.reference id) keys' r' where
  keyed := hr'
  grown := hext
  closed := List.forall_mem_singleton.mpr (Schema.closed_reference ⟨key, hkey, hstands.id_eq⟩)
  compiled := by
    intro given closures cl hlength hargs htarget
    refine .of_stands hkey hstands hstart.tidy hlength (fun q hq => ?_) htarget
    exact hext.carry _ _ _ (hstart.closed _ (List.of_mem_zip hq).1) (hargs q hq)

/-- A pending declaration has a key: it comes back to itself, since it leads to the task that asks for it. -/
theorem pending (hstart : Ready (.apply name i args origin) p running keys r) {id : String}
    (hid : p.id? (c.identity i args) = some id) :
    Answered (.apply name i args origin) p running keys r (.reference id) keys r := by
  have hmem := Pending.mem_of_id? hid
  obtain ⟨key, hrunning, hstands⟩ := hstart.keyed.pending _ hmem (hstart.lead.mentions _ hmem i rfl)
  obtain ⟨hkey, -, -⟩ := hstart.keyed.begun key hrunning
  exact .reference hstart hstart.keyed .refl hkey hstands

/-- A known identity has a key. -/
theorem known (hstart : Ready (.apply name i args origin) p running keys r) {id : String}
    (hid : r.id? (c.identity i args) = some id) :
    Answered (.apply name i args origin) p running keys r (.reference id) keys r := by
  obtain ⟨-, key, hkey, hstands⟩ := hstart.keyed.known _ (Resolver.mem_of_id? hid)
  exact .reference hstart hstart.keyed .refl hkey hstands

/-- An expansion ends with the key that its schema is filed under, be it its own or that of an equal schema. -/
theorem expanded (hc : c.Separate) (hstart : Ready (.apply name i args origin) p running keys r)
    (hpending : p.id? (c.identity i args) = none) (hknown : r.id? (c.identity i args) = none) {body answer : Schema}
    (hrun : Runs (p.push (c.identity i args) (r.expansionId i args))
      (.node ((c.get i).scope args) (c.get i).location (c.get i).body) (r.opened i args) (.ok body) r')
    (hbody : Answered (.node ((c.get i).scope args) (c.get i).location (c.get i).body)
      (p.push (c.identity i args) (r.expansionId i args)) (adding running (r.key i args)) (adding keys (r.key i args))
      (r.opened i args) body keys' r')
    (hout : referenceTo (r'.registry.fill (r.expansionId i args) body (c.get i).location).1 = .ok answer) :
    ∃ keys'', Answered (.apply name i args origin) p running keys r answer keys''
      (r'.filled (c.identity i args) (r.expansionId i args) body (c.get i).location) := by
  obtain ⟨final, hfill, rfl⟩ := referenceTo_eq_ok.mp hout
  have hopened := hstart.body hc hpending hknown
  obtain ⟨-, hbodyTidy⟩ := hrun.tidy rfl hopened.keyed.sound hopened.keyed.tidy hopened.tidy
  have hexpanded : Expanded p running keys r i args keys' r' body := {
    before := hstart.keyed
    after := hbody.keyed
    grown := (extends_opened r i args).trans hbody.grown
    apart := hstart.keyed.owned.apart hc hstart.lead hpending hstart.applied
    fresh := (expansionId_cases r hstart.applied).imp And.left fun h => h.2.2
    args_tidy := hstart.tidy
    args_closed := hstart.closed
    args_rooted := hstart.rooted
    body_tidy := hbodyTidy _ List.mem_cons_self
    body_closed := hbody.closed _ List.mem_cons_self
    body_compiled := fun closures hlength => hbody.compiled _ _ (scoped_given _ _ (r.key i args) rfl hlength) }
  obtain ⟨keys'', hr'', hext, key, hkey, hstands⟩ := hexpanded.filled hfill
  exact ⟨keys'', .reference hstart hr'' hext hkey hstands⟩

end Task.Answered

end Steps

/-- What a run answers is compiled from what it was asked to resolve: by one lemma for each way that a task can go. The keys
inside an expansion are others, so the induction is for all keys. -/
theorem Runs.compiled {p : Pending c} {t : Task c} {r r' : Resolver c} {out : Except Fault t.Answer}
    (hc : c.Separate) (h : Runs p t r out r') {answer : t.Answer} (hout : out = .ok answer)
    {running keys : Key c → Prop} (hstart : t.Ready p running keys r) :
    ∃ keys', t.Answered p running keys r answer keys' r' := by
  -- the keys are handed from one task to the next, so they are found along with the answer
  induction h generalizing running keys with
  | nil =>
    cases hout
    exact ⟨keys, hstart.keyed, .refl, nofun, rfl, nofun⟩
  | cons _ _ ihHead ihTail =>
    cases hout
    obtain ⟨keys', hhead⟩ := ihHead rfl hstart.head
    obtain ⟨keys'', htail⟩ := ihTail rfl (hstart.tail hhead)
    exact ⟨keys'', hhead.cons hstart htail⟩
  | built he hrun ih =>
    cases hout
    obtain ⟨keys', hl⟩ := ih rfl (hstart.list fun _ ha _ hx => .part he ha hx)
    exact ⟨keys', hl.built hc hstart he hrun⟩
  | bound he hs =>
    cases hout
    exact ⟨keys, .bound hstart he hs⟩
  | named he hs hi hargs _ ihArgs ihName =>
    obtain ⟨keys', hl⟩ := ihArgs rfl (hstart.list fun _ ha _ hx => .arg he ha hx)
    obtain ⟨keys'', happly⟩ := ihName hout (hstart.apply he hi hargs hl)
    exact ⟨keys'', hl.named he hs hi happly⟩
  | pending hid =>
    cases hout
    exact ⟨keys, .pending hstart hid⟩
  | known _ hid =>
    cases hout
    exact ⟨keys, .known hstart hid⟩
  | expanded hpending hknown _ hrun ih =>
    obtain ⟨keys', hbody⟩ := ih rfl (hstart.body hc hpending hknown)
    exact hbody.expanded hc hstart hpending hknown hrun hout
  | _ => cases hout

end RouteManifest
