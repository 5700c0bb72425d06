import RouteManifest.Proofs.Resolution.Closed
import RouteManifest.Proofs.Resolution.Moments

/-!
# Equal schemas are shared

When a schema is filled in that is registered already, its id is given up. There are three reasons to keep the id all
the same: somebody insists on it, the schema points at it, or a registered schema does (`Registry.Keeps`). So two equal
entries tell of a moment when the later one was filled in, and when there was such a reason (`Moment.FillsBeside`).

If ids are never insisted on and no declaration refers to itself, be it through others or inside type arguments, there
never is a reason. An id is new when it is handed out, so nothing that is registered by then points at it; and whatever
is made before it is filled, the schema itself included, points at registered ids only. `Moment.Orderly` says so of
every task that starts.
-/

namespace RouteManifest

variable {c : Catalog}

/-! ## Filling

Filling looks for an entry of the same shape only if none of the three reasons holds. So a schema that is stored beside
an equal one was stored for a reason, and any other is the only one of its shape. -/

namespace Registry

/-- A reserved id that is not given up, whatever schemas are registered. -/
def Keeps (r : Registry) (id : String) (schema : Schema) : Prop :=
  ∃ explicit order, r.slots.find? id = some (.reserved explicit order) ∧
    (explicit = true ∨ schema.references id = true ∨ ∃ e ∈ r.entries, e.schema.references id = true)

section Filling

variable {r : Registry} {id : String} {schema : Schema} {owner : Location} {explicit : Bool} {order : Nat} {e : Entry}

/-- An id is referenced if some entry holds a reference to it. -/
theorem isReferenced_iff : r.isReferenced id = true ↔ ∃ e ∈ r.entries, e.schema.references id = true := by
  rw [isReferenced, List.any_eq_true]
  constructor
  · rintro ⟨e, he, href⟩
    exact ⟨e, r.entries_perm.mem_iff.mpr he, href⟩
  · rintro ⟨e, he, href⟩
    exact ⟨e, r.entries_perm.mem_iff.mp he, href⟩

/-- An id that is not given up for an equal schema is kept for a reason. -/
theorem keeps_of_shared? (hr : r.Sound) (held : r.slots.find? id = some (.reserved explicit order))
    (hshared : r.shared? id explicit schema = none) (he : e ∈ r.entries)
    (heq : e.schema.fingerprint = schema.fingerprint) : r.Keeps id schema := by
  refine ⟨explicit, order, held, ?_⟩
  rw [shared?] at hshared
  split at hshared
  next hreason =>
    rw [Bool.or_eq_true, Bool.or_eq_true, or_assoc] at hreason
    exact hreason.imp_right (Or.imp_right isReferenced_iff.mp)
  · have hindex := hr.filled_index _ _ ((get?_eq_some_iff_mem hr.names_nodup).mpr ⟨e, he, rfl, rfl⟩)
    rw [heq, Table.contains, hshared] at hindex
    cases hindex

/-- A schema that is stored under its own id has none to give way to. -/
theorem shared?_of_fill (hr : r.Sound) (held : r.slots.find? id = some (.reserved explicit order))
    (hf : r.fill id schema owner = (.ok id, r.store id explicit order schema owner)) :
    r.shared? id explicit schema = none := by
  rcases hshared : r.shared? id explicit schema with _ | other
  · rfl
  · rw [fill, held] at hf
    simp only [hshared] at hf
    have hslot := congrArg (fun answer => answer.2.slots.find? id) hf
    simp only [store, Table.find?_insert_self, Table.find?_erase_self hr.names_nodup] at hslot
    cases hslot

/-- After filling there are the entries from before, and the new one if its id was kept. -/
theorem mem_entries_of_fill (hr : r.Sound) (he : e ∈ (r.fill id schema owner).2.entries) :
    e ∈ r.entries ∨ e.id = id ∧ e.schema = schema ∧
      ∃ explicit order, r.slots.find? id = some (.reserved explicit order) ∧ r.shared? id explicit schema = none := by
  obtain ⟨flag, from', hslot⟩ := (mem_entries (hr.moves (r.fill_moves id schema owner)).names_nodup).mp he
  by_cases hid : id = e.id
  · rcases fill_cases r id schema owner with
      ⟨_, hf, -⟩ | ⟨_, -, -, hf⟩ | ⟨_, _, -, -, -, -, hf⟩ | ⟨explicit, order, held, hf⟩
    · rw [hf] at he
      exact Or.inl he
    · rw [hf] at he
      exact Or.inl he
    · rw [hf, ← hid, Table.find?_erase_self hr.names_nodup] at hslot
      cases hslot
    · refine Or.inr ⟨hid.symm, ?_, explicit, order, held, shared?_of_fill hr held hf⟩
      rw [hf, ← hid, store, Table.find?_insert_self] at hslot
      cases hslot
      rfl
  · rw [find?_fill_of_ne r schema owner hid] at hslot
    exact Or.inl ((mem_entries hr.names_nodup).mpr ⟨flag, from', hslot⟩)

/-- Of two equal entries both were there before filling, or the id of the new one was kept for a reason. -/
theorem equal_of_fill (hr : r.Sound) {a b : Entry} (ha : a ∈ (r.fill id schema owner).2.entries)
    (hb : b ∈ (r.fill id schema owner).2.entries) (hne : a.id ≠ b.id)
    (heq : a.schema.fingerprint = b.schema.fingerprint) :
    a ∈ r.entries ∧ b ∈ r.entries ∨ (a ∈ r.entries ∧ b.id = id ∧ b.schema = schema ∧ r.Keeps id schema) ∨
      b ∈ r.entries ∧ a.id = id ∧ a.schema = schema ∧ r.Keeps id schema := by
  rcases mem_entries_of_fill hr ha with ha | ⟨haid, haschema, _, _, held, hshared⟩
  · rcases mem_entries_of_fill hr hb with hb | ⟨hbid, hbschema, _, _, held, hshared⟩
    · exact Or.inl ⟨ha, hb⟩
    · rw [hbschema] at heq
      exact Or.inr (Or.inl ⟨ha, hbid, hbschema, keeps_of_shared? hr held hshared ha heq⟩)
  · rcases mem_entries_of_fill hr hb with hb | ⟨hbid, -⟩
    · rw [haschema] at heq
      exact Or.inr (Or.inr ⟨hb, haid, haschema, keeps_of_shared? hr held hshared hb heq.symm⟩)
    · exact absurd (haid.trans hbid.symm) hne

/-- Reserving adds no entries. -/
theorem mem_entries_of_reserve (hr : r.Sound) {name : String} (he : e ∈ (r.reserve name explicit).2.entries) :
    e ∈ r.entries := by
  obtain ⟨flag, owner, hslot⟩ := (mem_entries (hr.move (reserve_move _ _ _)).names_nodup).mp he
  rcases find?_of_reserve hslot with hslot | ⟨-, -, hreserved⟩
  · exact (mem_entries hr.names_nodup).mpr ⟨flag, owner, hslot⟩
  · cases hreserved

/-- Giving an id back adds no entry. -/
theorem mem_entries_of_release (hr : r.Sound) (he : e ∈ (r.release id).entries) : e ∈ r.entries := by
  obtain ⟨flag, owner, hslot⟩ := (mem_entries (hr.moves (release_moves _ _)).names_nodup).mp he
  exact (mem_entries hr.names_nodup).mpr ⟨flag, owner, find?_of_release hr.names_nodup hslot⟩

end Filling

end Registry

/-! ## Equal entries

Two entries are there for good, so if they are equal the later one was filled in while the earlier one was registered.
The moment of a run at which that happened is found by induction over the run. -/

namespace Moment

/-- A moment whose task ends by filling in a schema, with the registry as it is then. -/
inductive Fills : Moment c → String → Schema → Registry → Prop where
  | expanded {p name i args origin r body r'} :
      p.id? (c.identity i args) = none → r.id? (c.identity i args) = none →
      ¬(args ≠ [] ∧ maxGenericDepth ≤ p.depth) →
      Runs (p.push (c.identity i args) (r.expansionId i args))
        (.node ((c.get i).scope args) (c.get i).location (c.get i).body) (r.opened i args) (.ok body) r' →
      Fills ⟨p, .apply name i args origin, r⟩ (r.expansionId i args) body r'.registry

/-- The later of two entries is filled in although the earlier one is there: its id is kept for a reason. -/
def FillsBeside (m : Moment c) (earlier later : Entry) : Prop :=
  ∃ before, m.Fills later.id later.schema before ∧ earlier ∈ before.entries ∧ before.Keeps later.id later.schema

end Moment

/-- Of two equal entries both were there before, or one has been filled in beside the other. -/
theorem Runs.equal_entries {p : Pending c} {t : Task c} {r r' : Resolver c} {out : Except Fault t.Answer}
    (h : Runs p t r out r') (hr : r.registry.Sound) {a b : Entry} (ha : a ∈ r'.registry.entries)
    (hb : b ∈ r'.registry.entries) (hne : a.id ≠ b.id) (heq : a.schema.fingerprint = b.schema.fingerprint) :
    (a ∈ r.registry.entries ∧ b ∈ r.registry.entries) ∨
      ∃ m : Moment c, Moment.Within ⟨p, t, r⟩ m ∧ (m.FillsBeside a b ∨ m.FillsBeside b a) := by
  -- the entries are traced back from the end of the run, until one of them was not there yet
  have later {m m' : Moment c} (hstarts : m.Starts m')
      (h : ∃ m'' : Moment c, m'.Within m'' ∧ (m''.FillsBeside a b ∨ m''.FillsBeside b a)) :
      ∃ m'' : Moment c, m.Within m'' ∧ (m''.FillsBeside a b ∨ m''.FillsBeside b a) := by
    obtain ⟨m'', hwithin, hfills⟩ := h
    exact ⟨m'', .head hstarts hwithin, hfills⟩
  induction h with
  | cons hhead _ ihHead ihTail =>
    rcases ihTail (hr.moves hhead.moves) ha hb with ⟨ha, hb⟩ | hm
    · exact (ihHead hr ha hb).imp_right (later .head)
    · exact Or.inr (later (.tail hhead) hm)
  | consHead _ ih => exact (ih hr ha hb).imp_right (later .head)
  | consTail hhead _ ihHead ihTail =>
    rcases ihTail (hr.moves hhead.moves) ha hb with ⟨ha, hb⟩ | hm
    · exact (ihHead hr ha hb).imp_right (later .head)
    · exact Or.inr (later (.tail hhead) hm)
  | built he _ ih => exact (ih hr ha hb).imp_right (later (.parts he))
  | builtFault he _ ih => exact (ih hr ha hb).imp_right (later (.parts he))
  | named he hs hi hargs _ ihArgs ihName =>
    rcases ihName (hr.moves hargs.moves) ha hb with ⟨ha, hb⟩ | hm
    · exact (ihArgs hr ha hb).imp_right (later (.args he hs hi))
    · exact Or.inr (later (.apply he hs hi hargs) hm)
  | namedFault he hs hi _ ih => exact (ih hr ha hb).imp_right (later (.args he hs hi))
  | @expanded p name i args origin r body r' hp hk hd hbody ih =>
    have hopened := hr.opened i args
    have hfills : Moment.Fills ⟨p, .apply name i args origin, r⟩ (r.expansionId i args) body r'.registry :=
      .expanded hp hk hd hbody
    rcases Registry.equal_of_fill (hopened.moves hbody.moves) ha hb hne heq with
      ⟨ha, hb⟩ | ⟨ha, hbid, hbschema, hkeeps⟩ | ⟨hb, haid, haschema, hkeeps⟩
    · refine (ih hopened ha hb).imp (fun ⟨ha, hb⟩ => ?_) (later (.body hp hk hd))
      exact ⟨Registry.mem_entries_of_reserve hr ha, Registry.mem_entries_of_reserve hr hb⟩
    · rw [← hbid, ← hbschema] at hfills hkeeps
      exact Or.inr ⟨_, .refl, Or.inl ⟨_, hfills, ha, hkeeps⟩⟩
    · rw [← haid, ← haschema] at hfills hkeeps
      exact Or.inr ⟨_, .refl, Or.inr ⟨_, hfills, hb, hkeeps⟩⟩
  | @expandedFault p name i args origin r fault r' hp hk hd hbody ih =>
    have hopened := hr.opened i args
    have hsound := hopened.moves hbody.moves
    refine (ih hopened (Registry.mem_entries_of_release hsound ha) (Registry.mem_entries_of_release hsound hb)).imp
      (fun ⟨ha, hb⟩ => ?_) (later (.body hp hk hd))
    exact ⟨Registry.mem_entries_of_reserve hr ha, Registry.mem_entries_of_reserve hr hb⟩
  | _ => exact Or.inl ⟨ha, hb⟩

/-! ## Catalogs without cycles

A declaration refers to what its body mentions, arguments of names included. The order says that whatever is given to a
task, and whatever it answers, points at entries only: reserved ids that are not filled yet belong to what is pending,
and what is pending is not reached again. -/

namespace Catalog

/-- An expression refers to a declaration. A name without arguments that is bound means a type parameter. -/
def Mentioned (c : Catalog) (bound : List String) (unit : Path) (e : TypeExpr) (j : Fin c.size) : Prop :=
  ∃ (x : TypeExpr) (name : String) (args : List TypeExpr), x.Inside e ∧ x.form = .named name args ∧
    (args = [] → name ∉ bound) ∧ c.lookup? name unit = some j

/-- A declaration refers to another one. -/
def Refers (c : Catalog) (i j : Fin c.size) : Prop :=
  c.Mentioned (c.get i).typeParams (c.get i).location.unit (c.get i).body j

/-- A declaration reaches another one through references and type arguments. -/
def Reaches (c : Catalog) : Fin c.size → Fin c.size → Prop := Relation.TransGen c.Refers

section Mentioned

variable {bound : List String} {unit : Path} {e : TypeExpr} {j : Fin c.size}

/-- A declaration that an expression mentions is mentioned by one of its parts. -/
theorem Mentioned.of_built {parts : List TypeExpr} {build : Registry → List Schema → Schema}
    (h : c.Mentioned bound unit e j) (he : e.form = .built parts build) : ∃ a ∈ parts, c.Mentioned bound unit a j := by
  obtain ⟨x, name, args, hx, hform, hrest⟩ := h
  rcases hx.of_built he with rfl | ⟨a, ha, hx⟩
  · rw [he] at hform
    cases hform
  · exact ⟨a, ha, x, name, args, hx, hform, hrest⟩

/-- A name mentions what it stands for, and what its arguments mention. -/
theorem Mentioned.of_named {name : String} {args : List TypeExpr} (h : c.Mentioned bound unit e j)
    (he : e.form = .named name args) :
    ((args = [] → name ∉ bound) ∧ c.lookup? name unit = some j) ∨ ∃ a ∈ args, c.Mentioned bound unit a j := by
  obtain ⟨x, name, args, hx, hform, hrest⟩ := h
  rcases hx.of_named he with rfl | ⟨a, ha, hx⟩
  · rw [he] at hform
    cases hform
    exact Or.inl hrest
  · exact Or.inr ⟨a, ha, x, name, args, hx, hform, hrest⟩

/-- An expression mentions what is mentioned inside. -/
theorem Mentioned.imp {e' : TypeExpr} (h : c.Mentioned bound unit e j)
    (he : ∀ x : TypeExpr, x.Inside e → x.Inside e') : c.Mentioned bound unit e' j := by
  obtain ⟨x, name, args, hx, hrest⟩ := h
  exact ⟨x, name, args, he x hx, hrest⟩

end Mentioned

/-- A catalog whose declarations refer to later ones only has no cycles. -/
theorem not_reaches_of_lt (h : ∀ i j, c.Refers i j → i < j) (i : Fin c.size) : ¬c.Reaches i i := by
  intro hreaches
  have hlt {j : Fin c.size} (hij : c.Reaches i j) : i < j := by
    induction hij with
    | single hrefers => exact h _ _ hrefers
    | tail _ hrefers ih => exact Fin.lt_trans ih (h _ _ hrefers)
  exact Fin.lt_irrefl i (hlt hreaches)

end Catalog

/-- Inside a declaration that is applied to its arguments exactly the type parameters are bound. -/
theorem Declaration.mem_names_scope {d : Declaration} {args : List Schema} (h : args.length = d.typeParams.length)
    {name : String} : name ∈ (d.scope args).names ↔ name ∈ d.typeParams := by
  rw [Declaration.scope, Table.mem_names_ofEntries, List.map_fst_zip (Nat.le_of_eq h.symm)]

/-! ### Order

What is given to a task points at registered ids, and what is pending reaches whatever the task refers to. Both are
handed on, so when a declaration is applied it is not pending, or it would reach itself. -/

/-- The declarations that a task refers to. -/
def Task.RefersTo : Task c → Fin c.size → Prop
  | .node scope origin e, j => c.Mentioned scope.names origin.unit e j
  | .list scope origin es, j => ∃ e ∈ es, c.Mentioned scope.names origin.unit e j
  | .apply _ i _ _, j => j = i

/-- Nobody has insisted on an id, and what is registered points at what is registered. -/
structure Resolver.Orderly (r : Resolver c) : Prop where
  coherent : Coherent {} r
  minted : ∀ id slot, r.registry.slots.find? id = some slot → slot.isExplicit = false

/-- In the beginning no id has a slot. -/
theorem orderly_empty : ({} : Resolver c).Orderly := ⟨coherent_empty, fun _ _ h => (by cases h)⟩

/-- A task starts in order: what is pending reaches what the task refers to, and the task is given nothing that points
at a pending id. -/
structure Moment.Orderly (m : Moment c) : Prop where
  applied : m.task.Applied
  reaches : ∀ entry ∈ m.pending.identities, ∀ j, m.task.RefersTo j → c.Reaches entry.1.declaration j
  resolver : m.resolver.Orderly
  inputs : ∀ s ∈ m.task.inputs, s.Closed (({} : Pending c).Live m.resolver.registry)

/-- A call starts in order, since nothing is pending yet. -/
theorem Resolver.Orderly.call {r : Resolver c} (h : r.Orderly) (e : TypeExpr) (origin : Location) :
    (Moment.call e origin r).Orderly := ⟨trivial, nofun, h, nofun⟩

namespace Moment.Orderly

variable {p : Pending c} {scope : Table Schema} {origin : Location} {e : TypeExpr} {es : List TypeExpr}
  {r r' : Resolver c}

/-- The first of several expressions starts in order if they do. -/
theorem head (h : Moment.Orderly ⟨p, .list scope origin (e :: es), r⟩) : Moment.Orderly ⟨p, .node scope origin e, r⟩ :=
  ⟨trivial, fun entry hentry j hj => h.reaches entry hentry j ⟨e, List.mem_cons_self, hj⟩, h.resolver, h.inputs⟩

/-- The others do where the first one has left order behind. -/
theorem tail (h : Moment.Orderly ⟨p, .list scope origin (e :: es), r⟩) (hr' : r'.Orderly)
    (hmoves : Registry.Moves r.registry r'.registry) : Moment.Orderly ⟨p, .list scope origin es, r'⟩ where
  applied := trivial
  reaches := fun entry hentry j ⟨a, ha, hj⟩ => h.reaches entry hentry j ⟨a, List.mem_cons_of_mem _ ha, hj⟩
  resolver := hr'
  inputs := fun s hs => (h.inputs s hs).mono fun _ hid _ => hid.moves hmoves

/-- The parts of an expression start in order, and so do the arguments of a name. -/
theorem list (h : Moment.Orderly ⟨p, .node scope origin e, r⟩)
    (hes : ∀ a ∈ es, ∀ x : TypeExpr, x.Inside a → x.Inside e) : Moment.Orderly ⟨p, .list scope origin es, r⟩ :=
  ⟨trivial, fun entry hentry j ⟨a, ha, hj⟩ => h.reaches entry hentry j (hj.imp (hes a ha)), h.resolver, h.inputs⟩

/-- A declaration starts in order where its arguments have left order behind. -/
theorem apply (h : Moment.Orderly ⟨p, .node scope origin e, r⟩) {name : String} {args : List TypeExpr}
    (he : e.form = .named name args) (hs : args = [] → scope.find? name = none) {i : Fin c.size}
    (hi : c.applied name args.length origin = .ok i) {l : List Schema} (hr' : r'.Orderly)
    (hlength : l.length = args.length) (hl : ∀ s ∈ l, s.Closed (({} : Pending c).Live r'.registry)) :
    Moment.Orderly ⟨p, .apply name i l origin, r'⟩ where
  applied := hlength.trans (Catalog.applied_eq_ok.mp hi).2.symm
  reaches := by
    rintro entry hentry j rfl
    exact h.reaches entry hentry j
      ⟨e, name, args, .self, he, fun hargs => Table.find?_eq_none_iff.mp (hs hargs), (Catalog.applied_eq_ok.mp hi).1⟩
  resolver := hr'
  inputs := hl

/-- The id of an expansion is minted if no declaration insists on one. -/
theorem body (hc : ∀ i, (c.get i).externalId = none) {name : String} {i : Fin c.size} {args : List Schema}
    (h : Moment.Orderly ⟨p, .apply name i args origin, r⟩) (id : String) :
    Moment.Orderly ⟨p.push (c.identity i args) id,
      .node ((c.get i).scope args) (c.get i).location (c.get i).body, r.opened i args⟩ where
  applied := trivial
  reaches := by
    intro entry hentry j hj
    have hrefers : c.Refers i j := by
      obtain ⟨x, name, names, hx, hform, hbound, hlookup⟩ := hj
      have hfree : names = [] → name ∉ (c.get i).typeParams := fun hnil =>
        mt (Declaration.mem_names_scope h.applied).mpr (hbound hnil)
      exact ⟨x, name, names, hx, hform, hfree, hlookup⟩
    rcases List.mem_cons.mp hentry with rfl | hentry
    · exact .single hrefers
    · exact .tail (h.reaches entry hentry i rfl) hrefers
  resolver := by
    refine ⟨h.resolver.coherent.reserved i args, fun other slot hslot => ?_⟩
    rcases Registry.find?_of_reserve hslot with hslot | ⟨-, -, rfl⟩
    · exact h.resolver.minted other slot hslot
    · rw [Slot.isExplicit, hc i]
      rfl
  inputs := closed_scope (List.Subset.refl _) h.inputs

end Moment.Orderly

/-! ### In a catalog without cycles

Every moment is in order, and then none of the three reasons to keep an id is left. -/

section Acyclic

variable (hminted : ∀ i, (c.get i).externalId = none) (hacyclic : ∀ i, ¬c.Reaches i i)
include hminted hacyclic

/-- A task that starts in order and succeeds leaves order behind. No declaration is pending when it is applied, so the
answer points at registered ids. -/
theorem Runs.orderly {p : Pending c} {t : Task c} {r r' : Resolver c} {out : Except Fault t.Answer}
    (h : Runs p t r out r') (hm : Moment.Orderly ⟨p, t, r⟩) {answer : t.Answer} (hout : out = .ok answer) :
    r'.Orderly ∧ ∀ s ∈ t.outputs answer, s.Closed (({} : Pending c).Live r'.registry) := by
  induction h with
  | nil =>
    cases hout
    exact ⟨hm.resolver, nofun⟩
  | cons hhead htail ihHead ihTail =>
    cases hout
    obtain ⟨hr', hs⟩ := ihHead hm.head rfl
    obtain ⟨hr'', hl⟩ := ihTail (hm.tail hr' hhead.moves) rfl
    refine ⟨hr'', List.forall_mem_cons.mpr ⟨?_, hl⟩⟩
    exact (hs _ List.mem_cons_self).mono fun _ hid _ => hid.moves htail.moves
  | built he _ ih =>
    cases hout
    obtain ⟨hr', hl⟩ := ih (hm.list fun a ha x hx => .part he ha hx) rfl
    refine ⟨hr', List.forall_mem_singleton.mpr (TypeExpr.closed_build he hl fun s hs _ => ?_)⟩
    exact Registry.closed_objectView? hr'.coherent.closed (hl s hs)
  | bound _ hs =>
    cases hout
    refine ⟨hm.resolver, List.forall_mem_singleton.mpr (hm.inputs _ ?_)⟩
    exact List.mem_map_of_mem (f := Prod.snd) (Table.mem_of_find? hs)
  | named he hs hi hargs _ ihArgs ihName =>
    obtain ⟨hr', hl⟩ := ihArgs (hm.list fun a ha x hx => .arg he ha hx) rfl
    exact ihName (hm.apply he hs hi hr' hargs.length_eq hl) hout
  | pending hid =>
    -- the declaration would reach itself
    exact absurd (hm.reaches _ (Pending.mem_of_id? hid) _ rfl) (hacyclic _)
  | known _ hid =>
    cases hout
    have hknown := hm.resolver.coherent.known _ _ (Resolver.mem_of_id? hid)
    exact ⟨hm.resolver, List.forall_mem_singleton.mpr (Schema.closed_reference (Or.inl hknown))⟩
  | @expanded p name i args origin r body r' _ _ _ _ ih =>
    obtain ⟨final, hfill, rfl⟩ := referenceTo_eq_ok.mp hout
    obtain ⟨hr', hs⟩ := ih (hm.body hminted _) rfl
    -- nothing points at the id of the expansion, so it does not matter that it stops being pending
    have hown := List.nil_subset
      ((({} : Pending c).push (c.identity i args) (r.expansionId i args)).identities.map Prod.snd)
    obtain ⟨hfilled, hfinal⟩ := (hr'.coherent.mono hown).filled
      ((hs _ List.mem_cons_self).mono fun _ hid _ => hid.mono hown) hfill
    refine ⟨⟨hfilled, fun other slot hslot => ?_⟩,
      List.forall_mem_singleton.mpr (Schema.closed_reference (Or.inl hfinal))⟩
    obtain ⟨slot', hslot', hexplicit⟩ := Registry.find?_of_fill hr'.coherent.sound.names_nodup hslot
    exact hexplicit.symm.trans (hr'.minted other slot' hslot')
  | _ => cases hout

/-- Whatever a task starts, it starts in order. What has succeeded in between has left order behind. -/
theorem Moment.Orderly.starts {m m' : Moment c} (h : m.Orderly) (hstarts : m.Starts m') : m'.Orderly := by
  cases hstarts with
  | head => exact h.head
  | tail hhead => exact h.tail (hhead.orderly hminted hacyclic h.head rfl).1 hhead.moves
  | parts he => exact h.list fun a ha x hx => .part he ha hx
  | args he => exact h.list fun a ha x hx => .arg he ha hx
  | apply he hs hi hargs =>
    obtain ⟨hr', hl⟩ := hargs.orderly hminted hacyclic (h.list fun a ha x hx => .arg he ha hx) rfl
    exact h.apply he hs hi hr' hargs.length_eq hl
  | body => exact h.body hminted _

/-- There is no reason to keep an id. -/
theorem Moment.Orderly.not_keeps {m : Moment c} (h : m.Orderly) {id : String} {schema : Schema} {before : Registry}
    (hfills : m.Fills id schema before) : ¬before.Keeps id schema := by
  cases hfills with
  | @expanded p name i args origin r body r' _ _ _ hbody =>
    obtain ⟨hr', hs⟩ := hbody.orderly hminted hacyclic (h.body hminted _) rfl
    rintro ⟨explicit, order, held, hreason⟩
    -- the id is reserved, so it has no schema, and what points at it is not closed
    have hdangling {s : Schema} (hs : s.Closed (({} : Pending c).Live r'.registry)) :
        s.references (r.expansionId i args) ≠ true := by
      intro href
      rcases hs.of_references href with ⟨t, hget⟩ | hmem
      · rw [Registry.get?_of_reserved held] at hget
        cases hget
      · cases hmem
    rcases hreason with rfl | href | ⟨e, he, href⟩
    · cases hr'.minted _ _ held
    · exact hdangling (hs _ List.mem_cons_self) href
    · have hget := (Registry.get?_eq_some_iff_mem hr'.coherent.sound.names_nodup).mpr ⟨e, he, rfl, rfl⟩
      exact hdangling (hr'.coherent.closed _ _ hget) href

end Acyclic

/-! ## Calls, one after another

What holds at each moment of one call holds at each moment of several, with the state that one of them leaves as the
start of the next. -/

namespace Resolver

/-- All of some calls succeed. -/
def Succeeds (r : Resolver c) : List (TypeExpr × Location) → Prop
  | [] => True
  | (e, origin) :: calls => (∃ s, ((resolve e origin).run r).1 = .ok s) ∧ Succeeds ((resolve e origin).run r).2 calls

/-- A moment in the course of some calls. -/
def Passes (r : Resolver c) : List (TypeExpr × Location) → Moment c → Prop
  | [], _ => False
  | (e, origin) :: calls, m => (Moment.call e origin r).Within m ∨ Passes ((resolve e origin).run r).2 calls m

/-- Of two equal entries after several calls both were there before, or one has been filled in beside the other at a
moment of one of the calls. -/
theorem equal_entries_after {r : Resolver c} (hr : r.registry.Sound) {calls : List (TypeExpr × Location)} {a b : Entry}
    (ha : a ∈ (r.after calls).registry.entries) (hb : b ∈ (r.after calls).registry.entries) (hne : a.id ≠ b.id)
    (heq : a.schema.fingerprint = b.schema.fingerprint) :
    (a ∈ r.registry.entries ∧ b ∈ r.registry.entries) ∨
      ∃ m, r.Passes calls m ∧ (m.FillsBeside a b ∨ m.FillsBeside b a) := by
  induction calls generalizing r with
  | nil => exact Or.inl ⟨ha, hb⟩
  | cons call calls ih =>
    obtain ⟨e, origin⟩ := call
    have hrun := Task.runs {} (.node [] origin e) r
    rcases ih (hr.moves hrun.moves) ha hb with ⟨ha, hb⟩ | ⟨m, hm, hfills⟩
    · refine (hrun.equal_entries hr ha hb hne heq).imp_right fun ⟨m, hm, hfills⟩ => ?_
      exact ⟨m, Or.inl hm, hfills⟩
    · exact Or.inr ⟨m, Or.inr hm, hfills⟩

/-- After any calls the registry is sound. -/
theorem sound_after {r : Resolver c} (hr : r.registry.Sound) (calls : List (TypeExpr × Location)) :
    (r.after calls).registry.Sound := by
  induction calls generalizing r with
  | nil => exact hr
  | cons call calls ih => exact ih (hr.moves (Task.runs {} (.node [] call.2 call.1) r).moves)

/-- At every moment of calls that succeed there is order. -/
theorem Orderly.passes (hminted : ∀ i, (c.get i).externalId = none) (hacyclic : ∀ i, ¬c.Reaches i i) {r : Resolver c}
    (hr : r.Orderly) {calls : List (TypeExpr × Location)} (hsucceeds : r.Succeeds calls) {m : Moment c}
    (hm : r.Passes calls m) : m.Orderly := by
  induction calls generalizing r with
  | nil => exact hm.elim
  | cons call calls ih =>
    obtain ⟨e, origin⟩ := call
    obtain ⟨⟨s, hs⟩, hrest⟩ := hsucceeds
    rcases hm with hm | hm
    · exact hm.invariant (Moment.Orderly.starts hminted hacyclic) (hr.call e origin)
    · exact ih ((Task.runs {} (.node [] origin e) r).orderly hminted hacyclic (hr.call e origin) hs).1 hrest hm

end Resolver

/-- Equal schemas are shared as far as they can be. Without ids that are insisted on and without declarations that reach
themselves, calls that succeed leave no two entries with one fingerprint. In any catalog and after any calls, of two
entries with one fingerprint one was filled in beside the other: at that moment its id was insisted on, or pointed at
by its own schema, or by that of an entry that was there. -/
theorem equal_schemas_shared (calls : List (TypeExpr × Location)) :
    ((∀ i, (c.get i).externalId = none) → (∀ i, ¬c.Reaches i i) → ({} : Resolver c).Succeeds calls →
      ((({} : Resolver c).after calls).registry.entries.map fun e => e.schema.fingerprint).Nodup) ∧
    ∀ a ∈ (({} : Resolver c).after calls).registry.entries, ∀ b ∈ (({} : Resolver c).after calls).registry.entries,
      a ≠ b → a.schema.fingerprint = b.schema.fingerprint →
      ∃ m, ({} : Resolver c).Passes calls m ∧ (m.FillsBeside a b ∨ m.FillsBeside b a) := by
  have hsound := Resolver.sound_after (r := ({} : Resolver c)) Registry.sound_empty calls
  have hfills : ∀ a ∈ (({} : Resolver c).after calls).registry.entries,
      ∀ b ∈ (({} : Resolver c).after calls).registry.entries, a.id ≠ b.id →
      a.schema.fingerprint = b.schema.fingerprint →
      ∃ m, ({} : Resolver c).Passes calls m ∧ (m.FillsBeside a b ∨ m.FillsBeside b a) := by
    intro a ha b hb hne heq
    rcases Resolver.equal_entries_after Registry.sound_empty ha hb hne heq with ⟨hnone, -⟩ | hm
    · cases hnone
    · exact hm
  refine ⟨fun hminted hacyclic hsucceeds => ?_, fun a ha b hb hne heq => ?_⟩
  · refine List.pairwise_map.mpr ((List.pairwise_map.mp hsound.ids_nodup).imp_of_mem fun {a b} ha hb hne heq => ?_)
    -- an id is kept for a reason, and in an orderly course there is none
    obtain ⟨m, hm, ⟨before, hfills, -, hkeeps⟩ | ⟨before, hfills, -, hkeeps⟩⟩ := hfills a ha b hb hne heq
    · exact (orderly_empty.passes hminted hacyclic hsucceeds hm).not_keeps hminted hacyclic hfills hkeeps
    · exact (orderly_empty.passes hminted hacyclic hsucceeds hm).not_keeps hminted hacyclic hfills hkeeps
  · exact hfills a ha b hb (fun hid => hne (List.inj_on_of_nodup_map hsound.ids_nodup ha hb hid)) heq

/-! ### Lines and pets

One catalog in which equal schemas are shared, and one in which two declarations insist on their ids. -/

/-- A line joins two points, whose coordinates are in units that are alike. -/
def lineCatalog : Catalog where
  declarations := [
    { name := "Line", location := ⟨⟨"line.rs"⟩, 1, 0⟩,
      body := .object [("start", ⟨.generic "Point" [.reference "Metre"], true⟩),
        ("end", ⟨.generic "Point" [.reference "Inch"], true⟩)] false },
    { name := "Point", typeParams := ["T"], location := ⟨⟨"line.rs"⟩, 5, 0⟩,
      body := .object [("x", ⟨.reference "T", true⟩)] false },
    { name := "Metre", location := ⟨⟨"line.rs"⟩, 9, 0⟩, body := .object [("value", ⟨.primitive .f64, true⟩)] false },
    { name := "Inch", location := ⟨⟨"line.rs"⟩, 13, 0⟩, body := .object [("value", ⟨.primitive .f64, true⟩)] false }]

/-- Lines lead to points and points to units, and not back. -/
theorem lineCatalog_not_reaches (i : Fin lineCatalog.size) : ¬lineCatalog.Reaches i i := by
  -- each declaration mentions later ones only, type arguments included
  refine Catalog.not_reaches_of_lt (fun ⟨n, hn⟩ j h => ?_) i
  match n, hn with
  | 0, _ =>
    have hpoint {unit : String} (h : lineCatalog.Mentioned [] ⟨"line.rs"⟩ (.generic "Point" [.reference unit]) j) :
        lineCatalog.lookup? "Point" ⟨"line.rs"⟩ = some j ∨ lineCatalog.lookup? unit ⟨"line.rs"⟩ = some j := by
      rcases h.of_named rfl with ⟨-, hj⟩ | ⟨a, ha, h⟩
      · exact Or.inl hj
      · obtain rfl := List.mem_singleton.mp ha
        rcases h.of_named rfl with ⟨-, hj⟩ | ⟨_, ha, -⟩
        · exact Or.inr hj
        · cases ha
    have hlater : ∀ name ∈ ["Point", "Metre", "Inch"], ∀ j,
        lineCatalog.lookup? name ⟨"line.rs"⟩ = some j → (⟨0, by decide⟩ : Fin lineCatalog.size) < j := by decide +kernel
    obtain ⟨a, ha, h⟩ := h.of_built rfl
    rcases List.mem_pair.mp ha with rfl | rfl
    · exact (hpoint h).elim (hlater _ (by simp) j) (hlater _ (by simp) j)
    · exact (hpoint h).elim (hlater _ (by simp) j) (hlater _ (by simp) j)
  | 1, _ =>
    obtain ⟨a, ha, h⟩ := h.of_built rfl
    obtain rfl := List.mem_singleton.mp ha
    rcases h.of_named rfl with ⟨hbound, -⟩ | ⟨_, ha, -⟩
    · exact absurd List.mem_cons_self (hbound rfl)
    · cases ha
  | 2, _ =>
    obtain ⟨a, ha, h⟩ := h.of_built rfl
    obtain rfl := List.mem_singleton.mp ha
    obtain ⟨_, ha, -⟩ := h.of_built rfl
    cases ha
  | 3, _ =>
    obtain ⟨a, ha, h⟩ := h.of_built rfl
    obtain rfl := List.mem_singleton.mp ha
    obtain ⟨_, ha, -⟩ := h.of_built rfl
    cases ha

def lineCalls : List (TypeExpr × Location) :=
  [(.reference "Line", ⟨⟨"line.rs"⟩, 20, 0⟩), (.generic "Point" [.reference "Inch"], ⟨⟨"line.rs"⟩, 21, 0⟩)]

/-- Cats and dogs are alike, and keep the ids that they insist on. -/
def petCatalog : Catalog where
  declarations := [
    { name := "C", externalId := some "Cat", location := ⟨⟨"pet.rs"⟩, 1, 0⟩,
      body := .object [("name", ⟨.string, true⟩)] false },
    { name := "D", externalId := some "Dog", location := ⟨⟨"pet.rs"⟩, 5, 0⟩,
      body := .object [("name", ⟨.string, true⟩)] false }]

/-- What a cat and a dog come to. -/
def petSchema : Schema := .object [("name", .typed "string")] ["name"] false

def petCalls : List (TypeExpr × Location) :=
  [(.reference "C", ⟨⟨"pet.rs"⟩, 9, 0⟩), (.reference "D", ⟨⟨"pet.rs"⟩, 10, 0⟩)]

/-- The two kinds of points share an entry. The cat and the dog do not, and one was filled in beside the other. -/
theorem equal_schemas_shared_line :
    ((({} : Resolver lineCatalog).after lineCalls).registry.entries.map fun e => e.schema.fingerprint).Nodup ∧
    ∃ cat dog m, cat.id = "Cat" ∧ dog.id = "Dog" ∧ ({} : Resolver petCatalog).Passes petCalls m ∧
      (m.FillsBeside cat dog ∨ m.FillsBeside dog cat) := by
  constructor
  · have hsucceeds : ({} : Resolver lineCatalog).Succeeds lineCalls := by
      have hok {out : Except Fault Schema} (h : out.isOk = true) : ∃ s, out = .ok s := by
        cases out with
        | error => cases h
        | ok s => exact ⟨s, rfl⟩
      refine ⟨hok ?_, hok ?_, trivial⟩
      · rw [resolve_eq_within]
        decide +kernel
      · rw [resolve_eq_within, resolve_eq_within]
        decide +kernel
    refine (equal_schemas_shared _).1 (fun ⟨n, hn⟩ => ?_) lineCatalog_not_reaches hsucceeds
    match n, hn with
    | 0, _ | 1, _ | 2, _ | 3, _ => rfl
  · have hpets : (({} : Resolver petCatalog).after petCalls).registry.entries.map
        (fun e => (e.id, e.schema.fingerprint == petSchema.fingerprint)) = [("Cat", true), ("Dog", true)] := by
      simp only [petCalls, Resolver.after, resolve_eq_within]
      decide +kernel
    obtain ⟨cat, rest, hentries, hcat, hrest⟩ := List.map_eq_cons_iff.mp hpets
    obtain ⟨dog, rest, rfl, hdog, -⟩ := List.map_eq_cons_iff.mp hrest
    simp only [Prod.mk.injEq, beq_iff_eq] at hcat hdog
    have hne : cat ≠ dog := fun heq => by simp [heq, hdog] at hcat
    obtain ⟨m, hm, hfills⟩ := (equal_schemas_shared petCalls).2 cat (by rw [hentries]; simp) dog
      (by rw [hentries]; simp) hne (hcat.2.trans hdog.2.symm)
    exact ⟨cat, dog, m, hcat.1, hdog.1, hm, hfills⟩

end RouteManifest
