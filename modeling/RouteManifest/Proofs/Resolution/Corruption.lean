import RouteManifest.Proofs.Resolution.Closed
import RouteManifest.Proofs.Resolution.Evaluation
import RouteManifest.Proofs.Resolution.Ownership

/-!
# When the registry is corrupted

A registry refuses to fill an id that has no slot, and to fill a slot again from the place where it was filled, or
without anybody insisting on the id. Resolution reserves every id that it fills, and fills it once for each declaration.
So it comes to this only if declarations are mixed up: one insists on an id that is made up for another one, or two
that insist on it are declared at one location (`Catalog.Clash`). If several declarations at different locations
insist on an id, the worst that happens is a conflict.

The state of one id is followed through a run. `Settled` is what is true of it at all times, and `Waiting` what is true
of it while expansions are pending, unless the run has failed.
-/

namespace RouteManifest

/-- Another declaration can have the id that one insists on, and cannot be told apart by its location. -/
def Catalog.Clash (c : Catalog) (id : String) : Prop :=
  ∃ i j, i ≠ j ∧ (c.get i).InsistsOn id ∧
    ((c.get j).MakesUp id ∨ (c.get j).InsistsOn id ∧ (c.get j).location.same (c.get i).location = true)

variable {c : Catalog}

/-- Where nothing clashes, no declaration has an id made up for it that another insists on. -/
theorem Catalog.not_makesUp_of_not_clash {id : String} (h : ¬c.Clash id) {i j : Fin c.size}
    (hinsists : (c.get i).InsistsOn id) : ¬(c.get j).MakesUp id := by
  intro hmade
  refine h ⟨i, j, ?_, hinsists, Or.inl hmade⟩
  rintro rfl
  exact hinsists.not_makesUp hmade

/-- A name that cannot be applied does not corrupt the registry. -/
theorem Catalog.applied_ne_registryCorruption {name : String} {count : Nat} {origin : Location} {id : String} :
    c.applied name count origin ≠ .error (.registryCorruption id) := by
  intro h
  rw [applied] at h
  split at h
  · cases h
  · simp only at h
    split at h
    · cases h
    · split at h <;> cases h

/-- A declaration that insists on an id takes no arguments. -/
theorem Declaration.InsistsOn.args_eq_nil {d : Declaration} {id : String} (h : d.InsistsOn id) {args : List Schema}
    (hargs : args.length = d.typeParams.length) : args = [] := by
  rw [h.2] at hargs
  exact List.length_eq_zero_iff.mp hargs

/-! ## One id

The invariant speaks of one id only, the one that is to be filled. It relates the flag of its slot to the declarations
that have asked for it, and the owner of its schema to the declaration that has filled it. -/

/-- Where the slot of an id comes from. -/
structure Settled (id : String) (r : Resolver c) : Prop where
  sound : r.registry.Sound
  asked : ∀ slot, r.registry.slots.find? id = some slot → ∃ i, (c.get i).Asks id slot.isExplicit
  /-- what was filled in is known -/
  owned : ∀ order schema owner, r.registry.slots.find? id = some (.filled true order schema owner) →
    ∃ i, (c.get i).InsistsOn id ∧ owner = (c.get i).location ∧ (r.id? ⟨i, []⟩).isSome = true

theorem settled_empty (id : String) : Settled id ({} : Resolver c) where
  sound := Registry.sound_empty
  asked := fun _ h => by cases h
  owned := fun _ _ _ h => by cases h

/-- The slot of an id that expansions wait for, none of which is known yet. -/
structure Waiting (id : String) (p : Pending c) (r : Resolver c) : Prop where
  unknown : ∀ entry ∈ p.identities, r.id? entry.1 = none
  held : ∀ entry ∈ p.identities, entry.2 = id →
    (c.get entry.1.declaration).InsistsOn id ∧ (∃ slot, r.registry.slots.find? id = some slot) ∨
      (c.get entry.1.declaration).MakesUp id ∧
        ∃ explicit order, r.registry.slots.find? id = some (.reserved explicit order)

theorem waiting_empty (id : String) (r : Resolver c) : Waiting id {} r := ⟨nofun, nofun⟩

/-- A slot whose id a declaration insists on has been insisted on. -/
theorem Settled.isExplicit {id : String} {r : Resolver c} (h : Settled id r) (hid : ¬c.Clash id) {i : Fin c.size}
    (hinsists : (c.get i).InsistsOn id) {slot : Slot} (hslot : r.registry.slots.find? id = some slot) :
    slot.isExplicit = true := by
  obtain ⟨j, hasks⟩ := h.asked slot hslot
  rcases hexplicit : slot.isExplicit with _ | _
  · rw [hexplicit] at hasks
    exact absurd hasks (Catalog.not_makesUp_of_not_clash hid hinsists)
  · rfl

section Expansion

variable {id : String} {p : Pending c} {r : Resolver c} {i : Fin c.size} {args : List Schema}

/-! ## Beginning

An expansion that begins reserves its id. If this is the id in question, it is new or insisted on. -/

/-- The beginning of an expansion keeps an id settled. -/
theorem Settled.opened (h : Settled id r) (hargs : args.length = (c.get i).typeParams.length) :
    Settled id (r.opened i args) where
  sound := h.sound.opened i args
  asked := by
    intro slot hslot
    rcases Registry.find?_of_reserve hslot with hslot | ⟨-, rfl, rfl⟩
    · exact h.asked slot hslot
    · exact ⟨i, expansionId_asks r hargs⟩
  owned := by
    intro order schema owner hslot
    rcases Registry.find?_of_reserve hslot with hslot | ⟨-, -, heq⟩
    · exact h.owned order schema owner hslot
    · cases heq

/-- An expansion that begins waits for its id. -/
theorem Waiting.opened (h : Waiting id p r) (hknown : r.id? (c.identity i args) = none)
    (hargs : args.length = (c.get i).typeParams.length) :
    Waiting id (p.push (c.identity i args) (r.expansionId i args)) (r.opened i args) where
  unknown := List.forall_mem_cons.mpr ⟨hknown, h.unknown⟩
  held := by
    intro entry hentry heq
    rcases List.mem_cons.mp hentry with rfl | hentry
    · obtain rfl := heq
      rcases expansionId_cases r hargs with ⟨hinsists, -⟩ | ⟨hmade, -, hnew⟩
      · refine Or.inl ⟨hinsists, ?_⟩
        rcases hslot : r.registry.slots.find? (r.expansionId i args) with _ | slot
        · exact ⟨_, find?_opened hslot⟩
        · exact ⟨slot, Registry.find?_reserve_of_find? hslot⟩
      · exact Or.inr ⟨hmade, _, _, find?_opened hnew⟩
    · refine (h.held entry hentry heq).imp (And.imp_right ?_) (And.imp_right ?_)
      · exact fun ⟨slot, hslot⟩ => ⟨slot, Registry.find?_reserve_of_find? hslot⟩
      · exact fun ⟨explicit, order, hslot⟩ => ⟨explicit, order, Registry.find?_reserve_of_find? hslot⟩

/-- Two expansions share an id only if both insist on it. -/
theorem Waiting.insistsOn (h : Waiting id p r) (hid : ¬c.Clash id)
    (hargs : args.length = (c.get i).typeParams.length) (heq : r.expansionId i args = id)
    {entry : Identity c × String} (hentry : entry ∈ p.identities) (hentryId : entry.2 = id) :
    (c.get i).InsistsOn id ∧ (c.get entry.1.declaration).InsistsOn id := by
  rcases expansionId_cases r hargs with ⟨hinsists, -⟩ | ⟨-, -, hnew⟩
  · rw [heq] at hinsists
    refine ⟨hinsists, ?_⟩
    rcases h.held entry hentry hentryId with ⟨hentryInsists, -⟩ | ⟨hmade, -⟩
    · exact hentryInsists
    · exact absurd hmade (Catalog.not_makesUp_of_not_clash hid hinsists)
  · rw [heq] at hnew
    rcases h.held entry hentry hentryId with ⟨-, _, hslot⟩ | ⟨-, _, _, hslot⟩
    · rw [hnew] at hslot
      cases hslot
    · rw [hnew] at hslot
      cases hslot

/-! ## Ending

An expansion that ends fills its own id, which is waiting, and releases it if it fails. In both cases the other
expansions that wait for the id insist on it. -/

section Ending

variable {own : String} {body : Schema}

/-- A failure keeps an id settled. -/
theorem Settled.released (h : Settled id r) : Settled id (r.released own) where
  sound := h.sound.released _
  asked := fun slot hslot => h.asked slot (Registry.find?_of_release h.sound.names_nodup hslot)
  owned := fun order schema owner hslot =>
    h.owned order schema owner (Registry.find?_of_release h.sound.names_nodup hslot)

/-- The expansion that waits for an id insists on it, if the id was insisted on. -/
theorem Waiting.insistsOn_of_explicit (h : Waiting id (p.push (c.identity i args) id) r) (hs : Settled id r)
    (hid : ¬c.Clash id) {slot : Slot} (hslot : r.registry.slots.find? id = some slot)
    (hexplicit : slot.isExplicit = true) :
    (c.get i).InsistsOn id := by
  obtain ⟨j, hasks⟩ := hs.asked slot hslot
  rw [hexplicit] at hasks
  rcases h.held _ List.mem_cons_self rfl with ⟨hinsists, -⟩ | ⟨hmade, -⟩
  · exact hinsists
  · exact absurd hmade (Catalog.not_makesUp_of_not_clash hid hasks)

/-- The end of an expansion keeps an id settled. -/
theorem Settled.filled (h : Settled id r) (hw : Waiting id (p.push (c.identity i args) own) r) (hid : ¬c.Clash id)
    (hargs : args.length = (c.get i).typeParams.length) :
    Settled id (r.filled (c.identity i args) own body (c.get i).location) where
  sound := h.sound.filled _ _ _ _
  asked := by
    intro slot hslot
    obtain ⟨slot', hslot', hexplicit⟩ := Registry.find?_of_fill h.sound.names_nodup hslot
    rw [← hexplicit]
    exact h.asked slot' hslot'
  owned := by
    intro order schema owner hslot
    have hkept {identity : Identity c} (hknown : (r.id? identity).isSome = true) :
        ((r.filled (c.identity i args) own body (c.get i).location).id? identity).isSome = true := by
      rw [Resolver.id?, Resolver.filled, List.lookup_cons]
      split
      · rfl
      · exact hknown
    have hold (hslot : r.registry.slots.find? id = some (.filled true order schema owner)) :
        ∃ j, (c.get j).InsistsOn id ∧ owner = (c.get j).location ∧
          ((r.filled (c.identity i args) own body (c.get i).location).id? ⟨j, []⟩).isSome = true := by
      obtain ⟨j, hinsists, howner, hknown⟩ := h.owned order schema owner hslot
      exact ⟨j, hinsists, howner, hkept hknown⟩
    -- filling another id leaves the slot, and filling this one is done by the declaration that insists on it
    by_cases hown : own = id
    · subst hown
      rcases Registry.find?_filled_of_fill h.sound.names_nodup hslot with hslot | rfl
      · exact hold hslot
      · obtain ⟨slot', hslot', hexplicit⟩ := Registry.find?_of_fill h.sound.names_nodup hslot
        have hinsists := hw.insistsOn_of_explicit h hid hslot' hexplicit
        obtain rfl := hinsists.args_eq_nil hargs
        refine ⟨i, hinsists, rfl, ?_⟩
        rw [Resolver.id?, Resolver.filled, List.lookup_cons, Catalog.identity, List.map_nil, beq_self_eq_true]
        rfl
    · exact hold ((Registry.find?_fill_of_ne r.registry body _ hown).symm.trans hslot)

/-- Filling an id that an expansion waits for does not corrupt the registry. -/
theorem Settled.fill_ne_registryCorruption (h : Settled id r) (hw : Waiting id (p.push (c.identity i args) own) r)
    (hid : ¬c.Clash id) (hargs : args.length = (c.get i).typeParams.length) :
    (r.registry.fill own body (c.get i).location).1 ≠ .error (.registryCorruption id) := by
  intro hfill
  obtain ⟨rfl, hslots⟩ := Registry.fill_eq_registryCorruption hfill
  rcases hw.held _ List.mem_cons_self rfl with ⟨hinsists, slot, hslot⟩ | ⟨-, explicit, order, hslot⟩
  · obtain ⟨explicit, order, s, owner, rfl, hsame⟩ := hslots slot hslot
    obtain rfl : explicit = true := h.isExplicit hid hinsists hslot
    obtain ⟨j, hother, rfl, hknown⟩ := h.owned order s owner hslot
    refine hid ⟨i, j, ?_, hinsists, Or.inr ⟨hother, hsame rfl⟩⟩
    -- a declaration without parameters is known once it is filled in, and this one is still waited for
    rintro rfl
    have hunknown := hw.unknown _ List.mem_cons_self
    obtain rfl := hother.args_eq_nil hargs
    rw [show (⟨i, []⟩ : Identity c) = c.identity i [] from rfl, hunknown] at hknown
    cases hknown
  · obtain ⟨_, _, _, _, heq, -⟩ := hslots _ hslot
    cases heq

/-- What else waits for an id goes on waiting. -/
theorem Waiting.filled (hp : Waiting id p r) {r' : Resolver c} (h : Settled id r')
    (hw : Waiting id (p.push (c.identity i args) (r.expansionId i args)) r') (hid : ¬c.Clash id)
    (hpending : p.id? (c.identity i args) = none) (hargs : args.length = (c.get i).typeParams.length) :
    Waiting id p (r'.filled (c.identity i args) (r.expansionId i args) body (c.get i).location) where
  unknown := by
    intro entry hentry
    have hne : (entry.1 == c.identity i args) = false := by
      rw [beq_eq_false_iff_ne]
      rintro heq
      simpa [heq] using List.lookup_eq_none_iff.mp hpending entry hentry
    rw [Resolver.id?, Resolver.filled, List.lookup_cons, hne]
    exact hw.unknown entry (List.mem_cons_of_mem _ hentry)
  held := by
    intro entry hentry hentryId
    -- two that wait for one id both insist on it, so its slot is not given up
    by_cases hown : r.expansionId i args = id
    · obtain ⟨hinsists, hentryInsists⟩ := hp.insistsOn hid hargs hown hentry hentryId
      refine Or.inl ⟨hentryInsists, ?_⟩
      have hslot : ∃ slot, r'.registry.slots.find? id = some slot := by
        rcases hw.held entry (List.mem_cons_of_mem _ hentry) hentryId with ⟨-, hslot⟩ | ⟨-, _, _, hslot⟩
        · exact hslot
        · exact ⟨_, hslot⟩
      obtain ⟨slot, hslot⟩ := hslot
      have hfirm : slot.isFirm = true := by
        have hexplicit := h.isExplicit hid hinsists hslot
        cases slot with
        | reserved explicit order => exact hexplicit
        | filled => rfl
      rw [hown]
      obtain ⟨slot', hslot', -⟩ := Registry.find?_fill_firm hslot hfirm body (c.get i).location
      exact ⟨slot', hslot'⟩
    · have hkept := Registry.find?_fill_of_ne r'.registry body (c.get i).location hown
      refine (hw.held entry (List.mem_cons_of_mem _ hentry) hentryId).imp (And.imp_right ?_) (And.imp_right ?_)
      · rintro ⟨slot, hslot⟩
        exact ⟨slot, hkept.trans hslot⟩
      · rintro ⟨explicit, order, hslot⟩
        exact ⟨explicit, order, hkept.trans hslot⟩

end Ending

end Expansion

/-! ## Runs

The two halves of the invariant are kept by every rule, and at the one place where an id is filled they exclude the
fault. -/

/-- A run keeps an id settled and does not corrupt the registry with it, if no declarations clash on it. -/
theorem Runs.settled {id : String} (hid : ¬c.Clash id) {p : Pending c} {t : Task c} {r r' : Resolver c}
    {out : Except Fault t.Answer} (h : Runs p t r out r') (happlied : t.Applied) (hs : Settled id r)
    (hw : Waiting id p r) :
    Settled id r' ∧ out ≠ .error (.registryCorruption id) ∧ ∀ answer, out = .ok answer → Waiting id p r' := by
  -- a fault is passed on as it is, so only the end of an expansion has anything to show
  induction h with
  | nil => exact ⟨hs, nofun, fun _ _ => hw⟩
  | cons _ _ ihHead ihTail =>
    obtain ⟨hs', -, hw'⟩ := ihHead trivial hs hw
    obtain ⟨hs'', -, hw''⟩ := ihTail trivial hs' (hw' _ rfl)
    exact ⟨hs'', nofun, fun _ _ => hw'' _ rfl⟩
  | consHead _ ih =>
    obtain ⟨hs', hne, -⟩ := ih trivial hs hw
    exact ⟨hs', fun heq => hne (by cases heq; rfl), nofun⟩
  | consTail _ _ ihHead ihTail =>
    obtain ⟨hs', -, hw'⟩ := ihHead trivial hs hw
    obtain ⟨hs'', hne, -⟩ := ihTail trivial hs' (hw' _ rfl)
    exact ⟨hs'', fun heq => hne (by cases heq; rfl), nofun⟩
  | built _ _ ih =>
    obtain ⟨hs', -, hw'⟩ := ih trivial hs hw
    exact ⟨hs', nofun, fun _ _ => hw' _ rfl⟩
  | builtFault _ _ ih =>
    obtain ⟨hs', hne, -⟩ := ih trivial hs hw
    exact ⟨hs', fun heq => hne (by cases heq; rfl), nofun⟩
  | bound => exact ⟨hs, nofun, fun _ _ => hw⟩
  | named _ _ hi hargs _ ihArgs ihName =>
    obtain ⟨hs', -, hw'⟩ := ihArgs trivial hs hw
    exact ihName (hargs.length_eq.trans (Catalog.applied_eq_ok.mp hi).2.symm) hs' (hw' _ rfl)
  | namedFault _ _ _ _ ih =>
    obtain ⟨hs', hne, -⟩ := ih trivial hs hw
    exact ⟨hs', fun heq => hne (by cases heq; rfl), nofun⟩
  | misapplied _ _ hi =>
    refine ⟨hs, ?_, nofun⟩
    rintro ⟨⟩
    exact Catalog.applied_ne_registryCorruption hi
  | unbound => exact ⟨hs, nofun, nofun⟩
  | callable => exact ⟨hs, nofun, nofun⟩
  | pending => exact ⟨hs, nofun, fun _ _ => hw⟩
  | known => exact ⟨hs, nofun, fun _ _ => hw⟩
  | deep => exact ⟨hs, nofun, nofun⟩
  | @expanded p name i args origin r body r' hpending hknown _ _ ih =>
    obtain ⟨hs', -, hw'⟩ := ih trivial (hs.opened happlied) (hw.opened hknown happlied)
    have hw' := hw' _ rfl
    refine ⟨hs'.filled hw' hid happlied, fun heq => ?_, fun _ _ => hw.filled hs' hw' hid hpending happlied⟩
    exact hs'.fill_ne_registryCorruption hw' hid happlied (referenceTo_eq_error.mp heq)
  | expandedFault _ hknown _ _ ih =>
    obtain ⟨hs', hne, -⟩ := ih trivial (hs.opened happlied) (hw.opened hknown happlied)
    exact ⟨hs'.released, hne, nofun⟩

/-- A call is fatal only if declarations clash, whatever calls the resolver has answered before: some declaration
insists on an id, and another one has it made up or insists on it at the same location. -/
theorem clash_of_fatal {r : Resolver c} (hr : r.Called fun _ _ _ => True) {e : TypeExpr} {origin : Location}
    {fault : Fault} {r' : Resolver c} (h : (resolve e origin).run r = (.error fault, r'))
    (hfatal : fault.isFatal = true) :
    ∃ id, fault = .registryCorruption id ∧ c.Clash id := by
  obtain ⟨id, rfl⟩ : ∃ id, fault = .registryCorruption id := by
    cases fault with
    | registryCorruption id => exact ⟨id, rfl⟩
    | _ => cases hfatal
  refine ⟨id, rfl, ?_⟩
  by_contra hid
  have hs : Settled id r := hr.invariant (settled_empty id) fun hs hrun _ =>
    (hrun.settled hid trivial hs (waiting_empty id _)).1
  have hrun : Runs {} (.node [] origin e) r (.error (.registryCorruption id)) r' := runs_iff.mpr h
  exact (hrun.settled hid trivial hs (waiting_empty id _)).2.1 rfl

/-- A tag insists on the id that is made up for a label. -/
def labelCatalog : Catalog where
  declarations := [
    { name := "Label", body := .object [("text", ⟨.string, true⟩)] false, location := ⟨⟨"label.rs"⟩, 1, 0⟩ },
    { name := "Tag", externalId := some "Label", body := .object [("on", ⟨.primitive .bool, true⟩)] false,
      location := ⟨⟨"label.rs"⟩, 5, 0⟩ }]

/-- The id that is made up for a label is the one that the tag insists on, so the tag cannot be filled. -/
theorem clash_of_fatal_label : ∃ (r r' : Resolver labelCatalog) (fault : Fault),
    r.Called (fun _ _ _ => True) ∧ (resolve (.reference "Tag") ⟨⟨"label.rs"⟩, 9, 0⟩).run r = (.error fault, r') ∧
      ∃ id, fault = .registryCorruption id ∧ labelCatalog.Clash id := by
  have hfatal : (match ((resolve (.reference "Tag") ⟨⟨"label.rs"⟩, 9, 0⟩).run ((resolve (.reference "Label")
      ⟨⟨"label.rs"⟩, 9, 0⟩).run ({} : Resolver labelCatalog)).2).1 with
      | .error fault => fault.isFatal
      | .ok _ => false) = true := by
    rw [resolve_eq_within, resolve_eq_within]
    decide +kernel
  rcases hlabel : (resolve (.reference "Label") ⟨⟨"label.rs"⟩, 9, 0⟩).run ({} : Resolver labelCatalog) with ⟨out, r⟩
  have hcalled : r.Called fun _ _ _ => True := .call .fresh hlabel trivial
  rw [hlabel] at hfatal
  rcases htag : (resolve (.reference "Tag") ⟨⟨"label.rs"⟩, 9, 0⟩).run r with ⟨fault | s, r'⟩
  · rw [htag] at hfatal
    exact ⟨r, r', fault, hcalled, htag, clash_of_fatal hcalled htag hfatal⟩
  · rw [htag] at hfatal
    cases hfatal

end RouteManifest
