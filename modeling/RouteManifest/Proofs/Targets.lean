import RouteManifest.Proofs.Resolution.Sharing

/-!
# What becomes of an id that something points at

An id is handed out before its schema is known, and by the time the schema is filled in other schemas may point at the
id already. If an equal schema is registered the id is given up nevertheless, unless somebody insists on it or there is
a `$ref` to it. A `$ref` is not the only way to point at an id: the targets of a discriminator's mapping are ids too,
`Schema.refIds` lists them, and everything that follows ids or rewrites them goes by that list. Giving up ids does not.

So filling an id in is safe for whoever holds a `$ref`, and not for a mapping that names a target which is no `$ref`
anywhere (`mem_ids_fill_iff`). The schemas that are made from types have no such mapping (`Schema.Closed`), and for those
the difference is never seen.
-/

namespace RouteManifest

/-! ## Targets of mappings

An id is pointed at by a `$ref`, by the mapping of a discriminator, or by both. The first is what the registry looks
for, and all of them are what a traversal of ids visits. -/

namespace Keywords

variable {σ : Type}

/-- The targets of the mapping at this node. -/
def targets (k : Keywords σ) : List String := ((k.discriminator.bind Discriminator.mapping).map Table.values).getD []

end Keywords

namespace Schema

/-- Whether a mapping anywhere inside the schema has the id as a target. -/
def mapsTo (id : String) : Schema → Bool := fold fun k => k.targets.contains id || k.children.contains true

theorem mapsTo_mk {k : Keywords Schema} {id : String} :
    mapsTo id (.mk k) = true ↔ id ∈ k.targets ∨ ∃ s ∈ k.children, s.mapsTo id = true := by
  rw [mapsTo, fold_mk, Keywords.children_map, Bool.or_eq_true, List.contains_iff_mem, List.contains_iff_mem,
    List.mem_map]
  exact Iff.rfl

/-- There are two ways to point at an id. -/
theorem mem_refIds_iff {s : Schema} {id : String} :
    id ∈ s.refIds ↔ s.references id = true ∨ s.mapsTo id = true := by
  induction s using Schema.induction with
  | step k ih =>
    have hown : id ∈ k.ownRefs ↔ k.ref = some id ∨ id ∈ k.targets := by
      rw [Keywords.ownRefs, List.mem_append, Option.mem_toList]
      exact Iff.rfl
    have hchildren : (∃ s ∈ k.children, id ∈ s.refIds) ↔
        (∃ s ∈ k.children, s.references id = true) ∨ ∃ s ∈ k.children, s.mapsTo id = true := by
      rw [← exists_or]
      exact exists_congr fun s => (and_congr_right fun hs => ih s hs).trans and_or_left
    rw [mem_refIds_mk, references_mk, mapsTo_mk, hown, hchildren]
    exact or_or_or_comm

end Schema

namespace Registry

/-! ## Giving an id up

What filling does to the ids that are registered, for any registry that is sound. The conditions under which an id goes
are those that filling itself looks at: the slot, an equal entry, and whether anybody holds a `$ref`. -/

/-- The schema that is filled in, or one that is registered, has the property. -/
def Somewhere (r : Registry) (schema : Schema) (P : Schema → Prop) : Prop := P schema ∨ ∃ e ∈ r.entries, P e.schema

theorem somewhere_or {r : Registry} {schema : Schema} {P Q : Schema → Prop} :
    r.Somewhere schema (fun s => P s ∨ Q s) ↔ r.Somewhere schema P ∨ r.Somewhere schema Q := by
  simp only [Somewhere, and_or_left, exists_or]
  exact or_or_or_comm

/-- What it takes to give an id up when its schema is filled in. -/
structure Yields (r : Registry) (id : String) (schema : Schema) : Prop where
  /-- the id waits for its schema, and nobody insists on it -/
  reserved : ∃ order, r.slots.find? id = some (.reserved false order)
  /-- there is no `$ref` to it -/
  unreferenced : ¬r.Somewhere schema fun s => s.references id = true
  /-- an equal schema is registered -/
  equal : ∃ e ∈ r.entries, e.schema.fingerprint = schema.fingerprint

variable {r : Registry} {id : String} {schema : Schema} {owner : Location} {final : String}

theorem mem_ids_iff (hr : r.Sound) : id ∈ r.ids ↔ ∃ s, r.get? id = some s := by
  rw [ids, List.mem_map]
  constructor
  · rintro ⟨e, he, rfl⟩
    exact ⟨e.schema, (get?_eq_some_iff_mem hr.names_nodup).mpr ⟨e, he, rfl, rfl⟩⟩
  · rintro ⟨s, hs⟩
    obtain ⟨e, he, hid, -⟩ := (get?_eq_some_iff_mem hr.names_nodup).mp hs
    exact ⟨e, he, hid⟩

/-- Dropping a reservation leaves the entries. -/
theorem entries_drop {explicit : Bool} {order : Nat} (held : r.slots.find? id = some (.reserved explicit order)) :
    ({ r with slots := r.slots.erase id } : Registry).entries = r.entries := by
  have hfilled (slots : Table Slot) (held : slots.find? id = some (.reserved explicit order)) :
      ({ r with slots := slots.erase id } : Registry).filled = ({ r with slots } : Registry).filled := by
    rw [filled, filled]
    show List.filterMap _ (slots.erase id) = List.filterMap _ slots
    induction slots with
    | nil => cases held
    | cons s rest ih =>
      obtain ⟨name, slot⟩ := s
      rw [Table.find?_cons] at held
      rw [Table.erase]
      split at held
      next hname =>
        rw [Option.some.inj held, if_pos hname, List.filterMap_cons]
        rfl
      next hname => rw [if_neg hname, List.filterMap_cons, List.filterMap_cons, ih held]
  rw [entries, entries, hfilled r.slots held]

/-- Nothing but the slot of the id goes when it is given up, and the answer is the id of an equal schema. -/
theorem Yields.fill (hr : r.Sound) (h : r.Yields id schema) (owner : Location) : ∃ e ∈ r.entries,
    e.schema.fingerprint = schema.fingerprint ∧ e.id ≠ id ∧
      r.fill id schema owner = (.ok e.id, { r with slots := r.slots.erase id }) := by
  obtain ⟨order, held⟩ := h.reserved
  rcases fill_cases r id schema owner with
    ⟨_, -, hno⟩ | ⟨_, hget, -⟩ | ⟨_, shared, -, hshared, -, -, hf⟩ | ⟨explicit, _, held', hf⟩
  · exact absurd ⟨_, _, held⟩ hno
  · rw [get?_of_reserved held] at hget
    cases hget
  · obtain ⟨e, he, rfl, hfp⟩ := hr.find?_fingerprints hshared
    refine ⟨e, he, hfp, ?_, hf⟩
    rintro rfl
    obtain ⟨_, _, hfilled⟩ := (mem_entries hr.names_nodup).mp he
    rw [held] at hfilled
    cases hfilled
  · -- keeping the id takes a reason, and there is none
    obtain ⟨e, he, hfp⟩ := h.equal
    obtain ⟨_, _, hkept, hreason⟩ := keeps_of_shared? hr held' (shared?_of_fill hr held' hf) he hfp
    rw [held] at hkept
    cases hkept
    exact absurd (hreason.resolve_left Bool.false_ne_true) h.unreferenced

/-- After a filling that is accepted the id is registered, unless it was given up. -/
theorem mem_ids_fill_iff (hr : r.Sound) (h : (r.fill id schema owner).1 = .ok final) :
    id ∈ (r.fill id schema owner).2.ids ↔ ¬r.Yields id schema := by
  rw [mem_ids_iff (hr.moves (r.fill_moves id schema owner))]
  constructor
  · rintro ⟨s, hs⟩ hyields
    obtain ⟨_, -, -, -, hf⟩ := hyields.fill hr owner
    obtain ⟨_, held⟩ := hyields.reserved
    rw [hf, get?_drop hr.names_nodup held, get?_of_reserved held] at hs
    cases hs
  · intro hkept
    rcases fill_cases r id schema owner with
      ⟨_, hf, -⟩ | ⟨existing, hget, -, hf⟩ | ⟨order, _, held, hshared, href, hisref, hf⟩ | ⟨explicit, order, -, hf⟩
    · rw [hf] at h
      cases h
    · exact ⟨existing, by rw [hf]; exact hget⟩
    · -- an id that is given up is nowhere pointed at, and an equal schema is there
      refine absurd ⟨⟨order, held⟩, ?_, ?_⟩ hkept
      · rintro (hown | hother)
        · rw [href] at hown
          cases hown
        · rw [isReferenced_iff.mpr hother] at hisref
          cases hisref
      · obtain ⟨e, he, -, hfp⟩ := hr.find?_fingerprints hshared
        exact ⟨e, he, hfp⟩
    · exact ⟨schema, by rw [hf, get?_store, if_pos rfl]⟩

/-- Filling a reservation in keeps the id for every `$ref`, and for nothing else. After any history of calls on an empty
registry, when a filling is accepted

* the id is registered afterwards if there is a `$ref` to it, in the new schema or in a registered one;
* it is lost exactly if it was reserved and not insisted on, there is no `$ref` to it, and an equal schema is
  registered;
* so something that points at the id is orphaned exactly if it is lost and is a target of a mapping: then the mapping
  stays, the answer is another id, and the id that the mapping names has no slot any more. -/
theorem orphaned_iff (history : List Call) (id : String) (schema : Schema) (owner : Location) (final : String)
    (h : ((calls {} history).fill id schema owner).1 = .ok final) :
    let r := calls {} history
    let r' := (r.fill id schema owner).2
    ((r.Somewhere schema fun s => s.references id = true) → id ∈ r'.ids) ∧
    (id ∉ r'.ids ↔ r.Yields id schema) ∧
    ((r.Somewhere schema fun s => id ∈ s.refIds) ∧ id ∉ r'.ids ↔
      r.Yields id schema ∧ r.Somewhere schema fun s => s.mapsTo id = true) ∧
    (r.Yields id schema → final ≠ id ∧ r'.entries = r.entries ∧ id ∉ r'.slots.names) := by
  intro r r'
  have hr : r.Sound := sound_empty.moves (calls_moves {} history)
  have hlost : id ∉ r'.ids ↔ r.Yields id schema := not_iff_comm.mp (mem_ids_fill_iff hr h).symm
  refine ⟨fun href => ?_, hlost, ?_, fun hyields => ?_⟩
  · exact (mem_ids_fill_iff hr h).mpr fun hyields => hyields.unreferenced href
  · rw [hlost, and_comm]
    refine and_congr_right fun hyields => ?_
    simp only [Schema.mem_refIds_iff, somewhere_or]
    exact or_iff_right hyields.unreferenced
  · obtain ⟨e, -, -, hne, hf⟩ := hyields.fill hr owner
    obtain ⟨order, held⟩ := hyields.reserved
    have hfinal : e.id = final := by
      rw [hf] at h
      exact Except.ok.inj h
    have hdropped : r' = { r with slots := r.slots.erase id } := congrArg Prod.snd hf
    refine ⟨hfinal ▸ hne, ?_, ?_⟩
    · rw [hdropped, entries_drop held]
    · rw [hdropped, ← Table.find?_eq_none_iff]
      exact Table.find?_erase_self hr.names_nodup id

/-- An object. -/
def plainObject : Schema := .mk { type := some "object" }

/-- While an id waits for its schema a mapping names it, and an equal schema is registered. -/
def mappedHistory : List Call := [
  .reserve "Card" false,
  .assign "Payment" (.mk { discriminator := some ⟨"kind", some [("card", "Card")]⟩ }) false ⟨⟨"payment.rs"⟩, 1, 0⟩,
  .assign "Token" plainObject false ⟨⟨"payment.rs"⟩, 5, 0⟩]

/-- The id that the mapping names is given up, and nothing is registered by that name. -/
theorem orphaned_card :
    let r := calls {} mappedHistory
    let r' := (r.fill "Card" plainObject ⟨⟨"payment.rs"⟩, 9, 0⟩).2
    (r.fill "Card" plainObject ⟨⟨"payment.rs"⟩, 9, 0⟩).1 = .ok "Token" ∧
      (r.Somewhere plainObject fun s => "Card" ∈ s.refIds) ∧ "Card" ∉ r'.ids ∧ "Card" ∉ r'.slots.names := by
  have h : ((calls {} mappedHistory).fill "Card" plainObject ⟨⟨"payment.rs"⟩, 9, 0⟩).1 = .ok "Token" := by
    decide +kernel
  obtain ⟨-, hlost, horphaned, hgone⟩ := orphaned_iff mappedHistory "Card" plainObject ⟨⟨"payment.rs"⟩, 9, 0⟩ "Token" h
  have hyields : (calls {} mappedHistory).Yields "Card" plainObject := by
    refine hlost.mp ?_
    decide +kernel
  have hmapped : (calls {} mappedHistory).Somewhere plainObject fun s => s.mapsTo "Card" = true := by
    refine Or.inr ?_
    decide +kernel
  obtain ⟨hpointed, hid⟩ := horphaned.mpr ⟨hyields, hmapped⟩
  exact ⟨h, hpointed, hid, (hgone hyields).2.2⟩

end Registry

end RouteManifest
