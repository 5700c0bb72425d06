import Mathlib.Data.List.Perm.Subperm
import Mathlib.Logic.Relation
import RouteManifest.Proofs.Table
import RouteManifest.Registry

/-!
# The registry as an append-only store

Whatever is called on a registry, its state changes by four *moves* only (`Registry.Move`): a number is
used up, a new id gets a reserved slot, a reserved slot is filled, a reserved slot is dropped. Everything
below is shown once for moves and then holds of every sequence of calls:

* `Registry.Sound` is the invariant that couples the slots, the index of fingerprints and the counter. It is
  kept by each kind of move (`Sound.counted`, `Sound.reserved`, `Sound.stored`, `Sound.dropped`), hence by all
  (`Sound.move`);
* `find?_filled_of_move` says that a filled slot stays as it is for ever.

That calls are moves is the other half: `reserve_cases` and `fill_cases` say what reserving and filling can do,
and nothing below opens the two functions again. The last section reads both halves off a history of calls
(`Registry.calls`).

Moves say nothing of who asked for an id or what was answered. That is enough for what every history keeps; where
an answer matters, as for a call that refuses, the lemmas on slots say what one call does to one id. They come in pairs,
for the id that the call is about and for every other id.
-/

namespace RouteManifest

/-! ## Fresh names

A fresh name is the first of the candidates `name`, `name2`, … that is not taken. The search is bounded by the number
of taken names, and by the pigeonhole principle that is far enough. -/

namespace Text

/-- A number is read off its digits. -/
theorem repr_injective {m n : Nat} (h : m.repr = n.repr) : m = n := by
  have digits : Nat.toDigits 10 m = Nat.toDigits 10 n := by
    rw [← Nat.toList_repr, ← Nat.toList_repr, h]
  rw [← Nat.ofDigitChars_ten_toDigits (n := m), digits, Nat.ofDigitChars_ten_toDigits]

/-- Candidates with different numbers are different, so there are as many of them as one likes. -/
theorem numbered_injective (name : String) : Function.Injective (numbered name) := by
  intro i j h
  have shown (k : Nat) (hk : k ≠ 0) : numbered name k = name ++ (k + 1).repr := by
    rw [numbered, if_neg hk]
    rfl
  have longer (k : Nat) : name ≠ name ++ (k + 1).repr := fun e => by
    have : "" = (k + 1).repr := (String.append_right_inj name).mp (String.append_empty.trans e)
    exact Nat.repr_ne_empty this.symm
  by_cases hi : i = 0 <;> by_cases hj : j = 0
  · rw [hi, hj]
  · rw [shown j hj, numbered, if_pos hi] at h
    exact absurd h (longer j)
  · rw [shown i hi, numbered, if_pos hj] at h
    exact absurd h.symm (longer i)
  · rw [shown i hi, shown j hj, String.append_right_inj] at h
    have := repr_injective h
    omega

/-- Among one more candidates than there are taken names, one is not taken. -/
theorem fresh_found (taken : List String) (name : String) :
    ∃ k, fresh taken name = numbered name k ∧ numbered name k ∉ taken := by
  have hsome : (((List.range (taken.length + 1)).map (numbered name)).find? fun c =>
      !taken.contains c).isSome = true := by
    -- otherwise all candidates would be taken, and they are different and more than the taken names
    by_contra hnone
    rw [Bool.not_eq_true, Option.isSome_eq_false_iff, Option.isNone_iff_eq_none,
      List.find?_eq_none] at hnone
    have hsub : (List.range (taken.length + 1)).map (numbered name) ⊆ taken := fun c hc => by
      simpa using hnone c hc
    have hnodup : ((List.range (taken.length + 1)).map (numbered name)).Nodup :=
      List.nodup_range.map (numbered_injective name)
    have := (hnodup.subperm hsub).length_le
    rw [List.length_map, List.length_range] at this
    omega
  obtain ⟨c, hc⟩ := Option.isSome_iff_exists.mp hsome
  obtain ⟨k, -, rfl⟩ := List.mem_map.mp (List.mem_of_find?_eq_some hc)
  refine ⟨k, ?_, by simpa using List.find?_some hc⟩
  rw [fresh, hc]
  rfl

/-- A fresh name is not taken. -/
theorem fresh_not_mem (taken : List String) (name : String) : fresh taken name ∉ taken := by
  obtain ⟨k, h, hk⟩ := fresh_found taken name
  rw [h]
  exact hk

/-- The candidates before the fresh one are taken. -/
theorem fresh_first (taken : List String) (name : String) :
    ∃ k, fresh taken name = numbered name k ∧ ∀ j < k, numbered name j ∈ taken := by
  rw [fresh, List.find?_map]
  rcases hfound : (List.range (taken.length + 1)).find? ((fun n => !taken.contains n) ∘ numbered name) with _ | k
  · exact ⟨0, by simp [numbered], nofun⟩
  · obtain ⟨-, -, hbefore⟩ := List.find?_range_eq_some.mp hfound
    exact ⟨k, rfl, fun j hj => by simpa using hbefore j hj⟩

/-- A fresh name stays fresh as long as it is not taken itself. -/
theorem fresh_of_subset {taken taken' : List String} {name : String} (hsub : taken ⊆ taken')
    (hfree : fresh taken name ∉ taken') : fresh taken' name = fresh taken name := by
  obtain ⟨k, hk, hbefore⟩ := fresh_first taken name
  obtain ⟨k', hk', hbefore'⟩ := fresh_first taken' name
  rcases Nat.lt_trichotomy k k' with hlt | rfl | hlt
  · exact absurd (hk ▸ hbefore' k hlt) hfree
  · rw [hk, hk']
  · exact absurd (hk' ▸ hsub (hbefore k' hlt)) (fresh_not_mem taken' name)

end Text

namespace Slot

/-- The number of the reservation that a slot came from. -/
def order : Slot → Nat
  | .reserved _ order => order
  | .filled _ order _ _ => order

/-- Whether the slot was reserved for an id that was insisted on. -/
def isExplicit : Slot → Bool
  | .reserved explicit _ => explicit
  | .filled explicit _ _ _ => explicit

/-- Whether the slot is there to stay. -/
def isFirm : Slot → Bool
  | .reserved explicit _ => explicit
  | .filled _ _ _ _ => true

end Slot

namespace Registry

/-! ## Moves

The relation forgets what was asked for and by whom, and keeps what changed. `fill` can answer without a change and
refuse without one, so a call comes to one move at most. -/

/-- The registry with the schema of a reserved id filled in. -/
def store (r : Registry) (id : String) (explicit : Bool) (order : Nat) (schema : Schema)
    (owner : Location) : Registry :=
  { r with
    slots := r.slots.insert id (.filled explicit order schema owner)
    fingerprints :=
      if r.fingerprints.contains schema.fingerprint then r.fingerprints
      else r.fingerprints.insert schema.fingerprint id }

/-- The changes that a registry ever undergoes. -/
inductive Move : Registry → Registry → Prop where
  /-- an id that has a slot is reserved again -/
  | count (r : Registry) : Move r { r with nextOrder := r.nextOrder + 1 }
  /-- a new id is reserved -/
  | reserve {r : Registry} {id : String} (new : r.slots.find? id = none) (explicit : Bool) :
      Move r { r with
        slots := r.slots.insert id (.reserved explicit r.nextOrder), nextOrder := r.nextOrder + 1 }
  /-- a reservation is filled -/
  | store {r : Registry} {id : String} {explicit : Bool} {order : Nat}
      (held : r.slots.find? id = some (.reserved explicit order)) (schema : Schema) (owner : Location) :
      Move r (r.store id explicit order schema owner)
  /-- a reservation is given back -/
  | drop {r : Registry} {id : String} {explicit : Bool} {order : Nat}
      (held : r.slots.find? id = some (.reserved explicit order)) :
      Move r { r with slots := r.slots.erase id }

/-- Reserving takes the number and, unless the id has a slot, a slot. -/
theorem reserve_cases (r : Registry) (name : String) (explicit : Bool) :
    ((r.reserve name explicit).1 ∈ r.slots.names ∧ explicit = true ∧ (r.reserve name explicit).1 = name ∧
      (r.reserve name explicit).2 = { r with nextOrder := r.nextOrder + 1 }) ∨
    (r.slots.find? (r.reserve name explicit).1 = none ∧
      (explicit = true ∧ (r.reserve name explicit).1 = name ∨
        explicit = false ∧ ∃ k, (r.reserve name explicit).1 = Text.numbered name k) ∧
      (r.reserve name explicit).2 = { r with
        slots := r.slots.insert (r.reserve name explicit).1 (.reserved explicit r.nextOrder)
        nextOrder := r.nextOrder + 1 }) := by
  cases explicit with
  | true =>
    by_cases h : name ∈ r.slots.names
    · left
      refine ⟨h, rfl, rfl, ?_⟩
      simp [reserve, Table.contains_iff.mpr h]
    · right
      refine ⟨Table.find?_eq_none_iff.mpr h, Or.inl ⟨rfl, rfl⟩, ?_⟩
      have hc : r.slots.contains name = false := by simpa using mt Table.contains_iff.mp h
      simp [reserve, hc]
  | false =>
    right
    obtain ⟨k, hk, -⟩ := Text.fresh_found r.slots.names name
    have h := Text.fresh_not_mem r.slots.names name
    refine ⟨Table.find?_eq_none_iff.mpr h, Or.inr ⟨rfl, k, hk⟩, ?_⟩
    have hc : r.slots.contains (Text.fresh r.slots.names name) = false := by
      simpa using mt Table.contains_iff.mp h
    simp [reserve, hc]

/-- Reserving is one move: a number is used up, with a slot if the id is new. -/
theorem reserve_move (r : Registry) (name : String) (explicit : Bool) :
    Move r (r.reserve name explicit).2 := by
  rcases reserve_cases r name explicit with ⟨-, -, -, h⟩ | ⟨new, -, h⟩
  · rw [h]
    exact .count r
  · rw [h]
    exact .reserve new explicit

/-- Filling refuses and changes nothing, finds the id filled with an equal shape, gives the reservation up for
an id of equal shape, or stores the schema. -/
theorem fill_cases (r : Registry) (id : String) (schema : Schema) (owner : Location) :
    (∃ fault, r.fill id schema owner = (.error fault, r) ∧
      ¬∃ explicit order, r.slots.find? id = some (.reserved explicit order)) ∨
    (∃ existing, r.get? id = some existing ∧ existing.fingerprint = schema.fingerprint ∧
      r.fill id schema owner = (.ok id, r)) ∨
    (∃ order shared, r.slots.find? id = some (.reserved false order) ∧
      r.fingerprints.find? schema.fingerprint = some shared ∧ schema.references id = false ∧
      r.isReferenced id = false ∧
      r.fill id schema owner = (.ok shared, { r with slots := r.slots.erase id })) ∨
    (∃ explicit order, r.slots.find? id = some (.reserved explicit order) ∧
      r.fill id schema owner = (.ok id, r.store id explicit order schema owner)) := by
  rcases held : r.slots.find? id with _ | slot
  · exact Or.inl ⟨.registryCorruption id, by simp [fill, held], by simp⟩
  rcases slot with ⟨explicit, order⟩ | ⟨explicit, order, existing, existingOwner⟩
  · rcases hs : r.shared? id explicit schema with _ | shared
    · refine Or.inr (Or.inr (Or.inr ⟨explicit, order, rfl, ?_⟩))
      simp [fill, held, hs, store]
    · have hcond : (explicit || schema.references id || r.isReferenced id) = false := by
        by_contra hne
        rw [shared?, if_pos (by rwa [Bool.not_eq_false] at hne)] at hs
        cases hs
      rw [shared?, if_neg (by simp [hcond])] at hs
      simp only [Bool.or_eq_false_iff] at hcond
      obtain ⟨⟨rfl, href⟩, hisref⟩ := hcond
      refine Or.inr (Or.inr (Or.inl ⟨order, shared, rfl, hs, href, hisref, ?_⟩))
      have : r.shared? id false schema = some shared := by simp [shared?, href, hisref, hs]
      simp [fill, held, this]
  · by_cases hfp : existing.fingerprint = schema.fingerprint
    · refine Or.inr (Or.inl ⟨existing, by simp [get?, held, Slot.schema?], hfp, ?_⟩)
      simp [fill, held, hfp]
    · refine Or.inl ?_
      by_cases hc : (explicit && !existingOwner.same owner) = true
      · exact ⟨.schemaConflict owner id existingOwner, by simp [fill, held, hfp, hc], by simp⟩
      · exact ⟨.registryCorruption id, by simp [fill, held, hfp, hc], by simp⟩

/-- Filling is no change or one move. -/
theorem fill_move (r : Registry) (id : String) (schema : Schema) (owner : Location) :
    (r.fill id schema owner).2 = r ∨ Move r (r.fill id schema owner).2 := by
  rcases fill_cases r id schema owner with
    ⟨_, h, -⟩ | ⟨_, -, -, h⟩ | ⟨_, _, held, -, -, -, h⟩ | ⟨_, _, held, h⟩
  · exact Or.inl (by rw [h])
  · exact Or.inl (by rw [h])
  · exact Or.inr (by rw [h]; exact .drop held)
  · exact Or.inr (by rw [h]; exact .store held schema owner)

/-- Giving a reservation back drops the slot if there is one to drop. -/
theorem release_move (r : Registry) (id : String) : r.release id = r ∨ Move r (r.release id) := by
  rw [release]
  split
  next held => exact Or.inr (.drop held)
  · exact Or.inl rfl

/-! ## The invariant

A move replaces, adds or removes one slot. Numbers are handed out once, so the numbers of the slots stay
distinct; and the index changes only together with the slot that it names. -/

/-- Slots, index and counter fit together. -/
structure Sound (r : Registry) : Prop where
  /-- an id has one slot -/
  names_nodup : r.slots.names.Nodup
  /-- a number belongs to one slot -/
  orders_nodup : (r.slots.values.map Slot.order).Nodup
  /-- the counter is ahead of all slots -/
  order_lt : ∀ n ∈ r.slots.values.map Slot.order, n < r.nextOrder
  /-- what the index names is filled with that fingerprint -/
  index_filled : ∀ fingerprint id, r.fingerprints.find? fingerprint = some id →
    ∃ schema, r.get? id = some schema ∧ schema.fingerprint = fingerprint
  /-- the index knows every filled fingerprint -/
  filled_index : ∀ id schema, r.get? id = some schema →
    r.fingerprints.contains schema.fingerprint = true

/-- Nothing is wrong with an empty registry. -/
theorem sound_empty : Sound {} where
  names_nodup := List.nodup_nil
  orders_nodup := List.nodup_nil
  order_lt := fun _ h => by cases h
  index_filled := fun _ _ h => by cases h
  filled_index := fun _ _ h => by cases h

/-- An id has a schema if its slot is filled with it. -/
theorem get?_eq_some_iff {r : Registry} {id : String} {schema : Schema} :
    r.get? id = some schema ↔
      ∃ explicit order owner, r.slots.find? id = some (.filled explicit order schema owner) := by
  rw [get?, Option.bind_eq_some_iff]
  constructor
  · rintro ⟨slot, held, hs⟩
    cases slot with
    | reserved explicit order => cases hs
    | filled explicit order s owner =>
      obtain rfl := Option.some.inj hs
      exact ⟨explicit, order, owner, held⟩
  · rintro ⟨explicit, order, owner, held⟩
    exact ⟨_, held, rfl⟩

/-- A reserved id has no schema yet. -/
theorem get?_of_reserved {r : Registry} {id : String} {explicit : Bool} {order : Nat}
    (held : r.slots.find? id = some (.reserved explicit order)) : r.get? id = none := by
  rw [get?, held]
  rfl

/-- A filled slot stays as it is. -/
theorem find?_filled_of_move {r r' : Registry} (h : Move r r') {id : String} {explicit : Bool}
    {order : Nat} {schema : Schema} {owner : Location}
    (held : r.slots.find? id = some (.filled explicit order schema owner)) :
    r'.slots.find? id = some (.filled explicit order schema owner) := by
  cases h with
  | count => exact held
  | @reserve other new e =>
    have hne : other ≠ id := by
      rintro rfl
      rw [new] at held
      cases held
    rw [← held]
    exact Table.find?_insert_of_ne _ _ hne
  | @store other e n open_ s o =>
    have hne : other ≠ id := by
      rintro rfl
      rw [open_] at held
      cases held
    rw [← held]
    exact Table.find?_insert_of_ne _ _ hne
  | @drop other e n open_ =>
    have hne : other ≠ id := by
      rintro rfl
      rw [open_] at held
      cases held
    rw [← held]
    exact Table.find?_erase_of_ne _ hne

/-- A schema that is registered stays registered under its id. -/
theorem get?_of_move {r r' : Registry} (h : Move r r') {id : String} {schema : Schema}
    (hget : r.get? id = some schema) : r'.get? id = some schema := by
  obtain ⟨explicit, order, owner, held⟩ := get?_eq_some_iff.mp hget
  exact get?_eq_some_iff.mpr ⟨explicit, order, owner, find?_filled_of_move h held⟩

/-- The schemas after a reservation was filled: the new one, and those from before. -/
theorem get?_store (r : Registry) (id : String) (explicit : Bool) (order : Nat) (schema : Schema)
    (owner : Location) (other : String) :
    (r.store id explicit order schema owner).get? other =
      if id = other then some schema else r.get? other := by
  rw [get?, store, Table.find?_insert]
  split <;> rfl

/-- A new reservation has no schema, and takes none away. -/
theorem get?_reserved (r : Registry) {id : String} (new : r.slots.find? id = none) (explicit : Bool)
    (other : String) :
    ({ r with slots := r.slots.insert id (.reserved explicit r.nextOrder), nextOrder := r.nextOrder + 1 } :
      Registry).get? other = r.get? other := by
  rw [get?, get?, Table.find?_insert]
  by_cases h : id = other
  · rw [if_pos h, ← h, new]
    rfl
  · rw [if_neg h]

/-- A reservation that is dropped had no schema. -/
theorem get?_drop {r : Registry} (hr : r.slots.names.Nodup) {id : String} {explicit : Bool} {order : Nat}
    (held : r.slots.find? id = some (.reserved explicit order)) (other : String) :
    ({ r with slots := r.slots.erase id } : Registry).get? other = r.get? other := by
  by_cases h : id = other
  · rw [← h, get?_of_reserved held, get?, Table.find?_erase_self hr]
    rfl
  · rw [get?, get?, Table.find?_erase_of_ne _ h]

/-- After filling there is what there was before, and at most the new schema, for which it has kept its id. -/
theorem get?_fill {r : Registry} (hr : r.slots.names.Nodup) {id other : String} {schema s : Schema} {owner : Location}
    (h : (r.fill id schema owner).2.get? other = some s) :
    r.get? other = some s ∨ other = id ∧ s = schema ∧ (r.fill id schema owner).1 = .ok id := by
  rcases fill_cases r id schema owner with
    ⟨_, hf, -⟩ | ⟨_, -, -, hf⟩ | ⟨order, _, held, -, -, -, hf⟩ | ⟨explicit, order, -, hf⟩
  · rw [hf] at h
    exact Or.inl h
  · rw [hf] at h
    exact Or.inl h
  · rw [hf] at h
    exact Or.inl (by rwa [get?_drop hr held] at h)
  · rw [hf] at h
    simp only [get?_store] at h
    split at h
    next heq => exact Or.inr ⟨heq.symm, (Option.some.inj h).symm, by rw [hf]⟩
    · exact Or.inl h

/-- No schema comes or goes when an id is reserved. -/
theorem get?_reserve (r : Registry) (name : String) (explicit : Bool) (other : String) :
    (r.reserve name explicit).2.get? other = r.get? other := by
  rcases reserve_cases r name explicit with ⟨-, -, -, h⟩ | ⟨new, -, h⟩
  · rw [h]
    rfl
  · rw [h]
    exact get?_reserved r new explicit other

/-! ### One call, one id

What a call does to the slot of an id, stated for the id that the call is about and for all others. These are the facts
by which other files know reserving, filling and giving back. -/

section Slots

variable {r : Registry} {name id : String} {explicit : Bool} {slot : Slot}

/-- A new id is reserved with the flag that it was asked for with. -/
theorem find?_reserve_self (new : r.slots.find? (r.reserve name explicit).1 = none) :
    (r.reserve name explicit).2.slots.find? (r.reserve name explicit).1 = some (.reserved explicit r.nextOrder) := by
  rcases reserve_cases r name explicit with ⟨hmem, -, -, -⟩ | ⟨-, -, h⟩
  · exact absurd hmem (Table.find?_eq_none_iff.mp new)
  · rw [h]
    exact Table.find?_insert_self _ _ _

/-- Reserving leaves the slots that are there, also where the id has one already. -/
theorem find?_reserve_of_find? (held : r.slots.find? id = some slot) :
    (r.reserve name explicit).2.slots.find? id = some slot := by
  rcases reserve_cases r name explicit with ⟨-, -, -, h⟩ | ⟨new, -, h⟩
  · rw [h]
    exact held
  · rw [h]
    refine (Table.find?_insert_of_ne _ _ fun heq => ?_).trans held
    rw [heq, held] at new
    cases new

/-- After reserving there are the slots from before, and one for the id if it is new. -/
theorem find?_of_reserve (h : (r.reserve name explicit).2.slots.find? id = some slot) :
    r.slots.find? id = some slot ∨ r.slots.find? (r.reserve name explicit).1 = none ∧
      id = (r.reserve name explicit).1 ∧ slot = .reserved explicit r.nextOrder := by
  rcases reserve_cases r name explicit with ⟨-, -, -, heq⟩ | ⟨new, -, heq⟩
  · rw [heq] at h
    exact Or.inl h
  · rw [heq, Table.find?_insert] at h
    split at h
    next hid => exact Or.inr ⟨new, hid.symm, (Option.some.inj h).symm⟩
    · exact Or.inl h

/-- Filling concerns one slot. -/
theorem find?_fill_of_ne (r : Registry) (schema : Schema) (owner : Location) {other : String} (h : id ≠ other) :
    (r.fill id schema owner).2.slots.find? other = r.slots.find? other := by
  rcases fill_cases r id schema owner with
    ⟨_, hf, -⟩ | ⟨_, -, -, hf⟩ | ⟨_, _, -, -, -, -, hf⟩ | ⟨_, _, -, hf⟩
  · rw [hf]
  · rw [hf]
  · rw [hf]
    exact Table.find?_erase_of_ne _ h
  · rw [hf]
    exact Table.find?_insert_of_ne _ _ h

/-- Filling keeps a slot that is there to stay. -/
theorem find?_fill_firm (held : r.slots.find? id = some slot) (hslot : slot.isFirm = true) (schema : Schema)
    (owner : Location) : ∃ slot', (r.fill id schema owner).2.slots.find? id = some slot' ∧ slot'.isFirm = true := by
  rcases fill_cases r id schema owner with
    ⟨_, hf, -⟩ | ⟨_, -, -, hf⟩ | ⟨_, _, held', -, -, -, hf⟩ | ⟨_, _, -, hf⟩
  · rw [hf]
    exact ⟨slot, held, hslot⟩
  · rw [hf]
    exact ⟨slot, held, hslot⟩
  · obtain rfl := Option.some.inj (held.symm.trans held')
    cases hslot
  · rw [hf]
    exact ⟨_, Table.find?_insert_self _ _ _, rfl⟩

/-- No reservation is left where something was filled in. -/
theorem find?_fill_ne_reserved (hr : r.slots.names.Nodup) (schema : Schema) (owner : Location) (order : Nat) :
    (r.fill id schema owner).2.slots.find? id ≠ some (.reserved explicit order) := by
  intro h
  rcases fill_cases r id schema owner with
    ⟨_, hf, hno⟩ | ⟨_, hget, -, hf⟩ | ⟨_, _, -, -, -, -, hf⟩ | ⟨_, _, -, hf⟩
  · rw [hf] at h
    exact hno ⟨_, _, h⟩
  · rw [hf] at h
    rw [get?_of_reserved h] at hget
    cases hget
  · rw [hf, Table.find?_erase_self hr] at h
    cases h
  · rw [hf, store, Table.find?_insert_self] at h
    cases h

/-- After filling there are the slots from before, with their flags. -/
theorem find?_of_fill (hr : r.slots.names.Nodup) {schema : Schema} {owner : Location} {other : String}
    (h : (r.fill id schema owner).2.slots.find? other = some slot) :
    ∃ slot', r.slots.find? other = some slot' ∧ slot'.isExplicit = slot.isExplicit := by
  -- only the slot of the id changes, and its flag stays
  by_cases hid : id = other
  · rcases fill_cases r id schema owner with
      ⟨_, hf, -⟩ | ⟨_, -, -, hf⟩ | ⟨_, _, -, -, -, -, hf⟩ | ⟨_, _, held, hf⟩
    · rw [hf] at h
      exact ⟨slot, h, rfl⟩
    · rw [hf] at h
      exact ⟨slot, h, rfl⟩
    · rw [hf, ← hid, Table.find?_erase_self hr] at h
      cases h
    · rw [hf, ← hid, store, Table.find?_insert_self] at h
      obtain rfl := Option.some.inj h
      rw [← hid]
      exact ⟨_, held, rfl⟩
  · rw [find?_fill_of_ne r schema owner hid] at h
    exact ⟨slot, h, rfl⟩

/-- What is filled in somewhere was there before, or has just been filled in. -/
theorem find?_filled_of_fill (hr : r.slots.names.Nodup) {schema : Schema} {owner : Location} {order : Nat} {s : Schema}
    {other : Location} (h : (r.fill id schema owner).2.slots.find? id = some (.filled explicit order s other)) :
    r.slots.find? id = some (.filled explicit order s other) ∨ other = owner := by
  rcases fill_cases r id schema owner with
    ⟨_, hf, -⟩ | ⟨_, -, -, hf⟩ | ⟨_, _, -, -, -, -, hf⟩ | ⟨_, _, -, hf⟩
  · rw [hf] at h
    exact Or.inl h
  · rw [hf] at h
    exact Or.inl h
  · rw [hf, Table.find?_erase_self hr] at h
    cases h
  · rw [hf, store, Table.find?_insert_self] at h
    cases h
    exact Or.inr rfl

/-- A registry is corrupted by filling an id without a slot, or by filling a slot again that nobody insisted on or that
is filled from the same place. -/
theorem fill_eq_registryCorruption {schema : Schema} {owner : Location} {other : String}
    (h : (r.fill id schema owner).1 = .error (.registryCorruption other)) :
    other = id ∧ ∀ slot, r.slots.find? id = some slot → ∃ explicit order s owner',
      slot = .filled explicit order s owner' ∧ (explicit = true → owner'.same owner = true) := by
  rw [fill] at h
  rcases hheld : r.slots.find? id with _ | (⟨explicit, order⟩ | ⟨explicit, order, s, owner'⟩)
  · rw [hheld] at h
    cases h
    exact ⟨rfl, nofun⟩
  · rw [hheld] at h
    simp only at h
    split at h <;> cases h
  · rw [hheld] at h
    simp only at h
    split at h
    · cases h
    · split at h
      · cases h
      next hnot =>
        cases h
        refine ⟨rfl, fun slot hslot => ⟨explicit, order, s, owner', (Option.some.inj hslot).symm, ?_⟩⟩
        rintro rfl
        simpa using hnot

/-- Giving a reservation back leaves the other slots. -/
theorem find?_of_release (hr : r.slots.names.Nodup) {other : String}
    (h : (r.release other).slots.find? id = some slot) :
    r.slots.find? id = some slot := by
  rw [release] at h
  split at h
  · by_cases hid : other = id
    · rw [hid, Table.find?_erase_self hr] at h
      cases h
    · rwa [Table.find?_erase_of_ne _ hid] at h
  · exact h

/-- Filling that fails changes nothing, and either the registry is corrupted or the id is filled already. -/
theorem fill_eq_error {schema : Schema} {owner : Location} {fault : Fault}
    (h : (r.fill id schema owner).1 = .error fault) :
    (r.fill id schema owner).2 = r ∧ (fault = .registryCorruption id ∨ ∃ s, r.get? id = some s) := by
  rcases fill_cases r id schema owner with
    ⟨_, hf, hno⟩ | ⟨_, -, -, hf⟩ | ⟨_, _, -, -, -, -, hf⟩ | ⟨_, _, -, hf⟩
  · refine ⟨by rw [hf], ?_⟩
    rcases hheld : r.slots.find? id with _ | (⟨explicit, order⟩ | ⟨explicit, order, s, owner'⟩)
    · rw [fill, hheld] at h
      exact Or.inl (Except.error.inj h).symm
    · exact absurd ⟨explicit, order, hheld⟩ hno
    · exact Or.inr ⟨s, get?_eq_some_iff.mpr ⟨explicit, order, owner', hheld⟩⟩
  · rw [hf] at h
    cases h
  · rw [hf] at h
    cases h
  · rw [hf] at h
    cases h

/-- What is registered after a reservation was given back was registered before. -/
theorem get?_of_release (hr : r.slots.names.Nodup) {other : String} {s : Schema}
    (h : (r.release other).get? id = some s) :
    r.get? id = some s := by
  obtain ⟨explicit, order, owner, hheld⟩ := get?_eq_some_iff.mp h
  exact get?_eq_some_iff.mpr ⟨explicit, order, owner, find?_of_release hr hheld⟩

/-- Giving a reservation back concerns one slot. -/
theorem find?_release_of_ne (r : Registry) {other : String} (h : other ≠ id) :
    (r.release other).slots.find? id = r.slots.find? id := by
  rw [release]
  split
  · exact Table.find?_erase_of_ne _ h
  · rfl

/-- No schema comes or goes when a reservation is given back. -/
theorem get?_release (hr : r.slots.names.Nodup) (other : String) : (r.release other).get? id = r.get? id := by
  rw [release]
  split
  next held => exact get?_drop hr held id
  · rfl

/-- The answer of a filling is registered. -/
theorem exists_get?_of_fill (hr : r.Sound) {schema : Schema} {owner : Location} {final : String}
    (h : (r.fill id schema owner).1 = .ok final) : ∃ s, (r.fill id schema owner).2.get? final = some s := by
  rcases fill_cases r id schema owner with
    ⟨_, hf, -⟩ | ⟨existing, hget, -, hf⟩ | ⟨_, shared, held, hshared, -, -, hf⟩ | ⟨explicit, order, -, hf⟩
  · rw [hf] at h
    cases h
  · rw [hf] at h ⊢
    cases h
    exact ⟨existing, hget⟩
  · rw [hf] at h ⊢
    cases h
    obtain ⟨s, hs, -⟩ := hr.index_filled _ _ hshared
    exact ⟨s, (get?_drop hr.names_nodup held _).trans hs⟩
  · rw [hf] at h ⊢
    cases h
    exact ⟨schema, by rw [get?_store, if_pos rfl]⟩

/-! ### The ids that have a slot

A slot is taken by reserving and given up by filling with an equal schema or by giving back, and by nothing else. -/

/-- An id is reserved if it has a slot and no schema. -/
theorem exists_reserved_iff :
    (∃ explicit order, r.slots.find? id = some (.reserved explicit order)) ↔ id ∈ r.slots.names ∧ r.get? id = none := by
  constructor
  · rintro ⟨explicit, order, held⟩
    exact ⟨List.mem_map_of_mem (Table.mem_of_find? held), get?_of_reserved held⟩
  · rintro ⟨hmem, hget⟩
    rcases held : r.slots.find? id with _ | (⟨explicit, order⟩ | ⟨explicit, order, s, owner⟩)
    · exact absurd hmem (Table.find?_eq_none_iff.mp held)
    · exact ⟨explicit, order, rfl⟩
    · rw [get?_eq_some_iff.mpr ⟨explicit, order, owner, held⟩] at hget
      cases hget

/-- Reserving adds the id to those that have a slot. -/
theorem mem_names_reserve : id ∈ (r.reserve name explicit).2.slots.names ↔
    id ∈ r.slots.names ∨ id = (r.reserve name explicit).1 := by
  rcases reserve_cases r name explicit with ⟨hmem, -, -, h⟩ | ⟨-, -, h⟩
  · rw [h]
    exact ⟨Or.inl, fun hid => hid.elim (fun hmem => hmem) fun heq => heq ▸ hmem⟩
  · rw [h, Table.mem_names_insert]
    exact or_comm

/-- Giving an id back takes away its slot, unless it is filled. -/
theorem mem_names_release (hr : r.slots.names.Nodup) {other : String} : id ∈ (r.release other).slots.names ↔
    id ∈ r.slots.names ∧ (id = other → r.get? id ≠ none) := by
  by_cases hid : id = other
  · subst hid
    rw [release]
    split
    next held =>
      rw [← not_iff_not, ← Table.find?_eq_none_iff, Table.find?_erase_self hr, get?_of_reserved held]
      simp
    next hnot =>
      refine ⟨fun hmem => ⟨hmem, fun _ hget => ?_⟩, And.left⟩
      obtain ⟨explicit, order, held⟩ := exists_reserved_iff.mpr ⟨hmem, hget⟩
      exact hnot explicit order held
  · rw [← not_iff_not, ← Table.find?_eq_none_iff, find?_release_of_ne r (Ne.symm hid), Table.find?_eq_none_iff]
    simp [hid]

end Slots

/-- Replacing the value of a name does not change what a function sees that cannot tell the two apart. -/
theorem map_values_insert {α β : Type} (f : α → β) {t : Table α} {name : String} {v w : α}
    (held : t.find? name = some v) (h : f w = f v) :
    (t.insert name w).values.map f = t.values.map f := by
  induction t with
  | nil => cases held
  | cons e rest ih =>
    obtain ⟨n, u⟩ := e
    rw [Table.find?_cons] at held
    rw [Table.insert]
    by_cases hn : n = name
    · rw [if_pos hn] at held
      obtain rfl := Option.some.inj held
      rw [if_pos hn]
      exact congrArg (· :: (Table.values rest).map f) h
    · rw [if_neg hn] at held
      rw [if_neg hn]
      exact congrArg (f u :: ·) (ih held)

/-! ### What a move does to the invariant

One lemma for each kind of move, stated with what the kind of move is known to satisfy and not with the call that made
it. -/

section Sound

variable {r : Registry} {id : String} {explicit : Bool} {order : Nat}

/-- A number that is used up leaves the counter ahead. -/
theorem Sound.counted (hr : r.Sound) : Sound { r with nextOrder := r.nextOrder + 1 } where
  names_nodup := hr.names_nodup
  orders_nodup := hr.orders_nodup
  order_lt := fun n hn => Nat.lt_succ_of_lt (hr.order_lt n hn)
  index_filled := hr.index_filled
  filled_index := hr.filled_index

/-- A new slot brings the number of the counter along. -/
theorem orders_reserved (new : r.slots.find? id = none) (explicit : Bool) :
    (Table.values (r.slots.insert id (.reserved explicit r.nextOrder))).map Slot.order =
      r.slots.values.map Slot.order ++ [r.nextOrder] := by
  rw [Table.insert_of_not_mem (Table.find?_eq_none_iff.mp new), Table.values, List.map_append, List.map_append]
  rfl

/-- A new slot takes the counter's number, which no slot had, and the index does not speak of it. -/
theorem Sound.reserved (hr : r.Sound) (new : r.slots.find? id = none) (explicit : Bool) :
    Sound { r with
      slots := r.slots.insert id (.reserved explicit r.nextOrder), nextOrder := r.nextOrder + 1 } where
  names_nodup := Table.nodup_insert hr.names_nodup _ _
  orders_nodup := by
    rw [orders_reserved new]
    refine hr.orders_nodup.append (List.nodup_singleton _) ?_
    rw [List.disjoint_singleton]
    -- all numbers are behind the counter, so its number is a new one
    exact fun hm => Nat.lt_irrefl _ (hr.order_lt _ hm)
  order_lt := by
    intro n hn
    rw [orders_reserved new, List.mem_append, List.mem_singleton] at hn
    rcases hn with hn | rfl
    · exact Nat.lt_succ_of_lt (hr.order_lt n hn)
    · exact Nat.lt_succ_self _
  index_filled := by
    intro fingerprint other h
    rw [get?_reserved r new explicit]
    exact hr.index_filled fingerprint other h
  filled_index := by
    intro other schema h
    rw [get?_reserved r new explicit] at h
    exact hr.filled_index other schema h

/-- A filled slot keeps the number of its reservation. -/
theorem orders_store (held : r.slots.find? id = some (.reserved explicit order)) (schema : Schema)
    (owner : Location) :
    (r.store id explicit order schema owner).slots.values.map Slot.order = r.slots.values.map Slot.order :=
  map_values_insert Slot.order held rfl

/-- What the index names after a reservation was filled: the new id under the new fingerprint, or what it named
before. -/
theorem fingerprints_store (r : Registry) (id : String) (explicit : Bool) (order : Nat) (schema : Schema)
    (owner : Location) {fingerprint other : String}
    (h : (r.store id explicit order schema owner).fingerprints.find? fingerprint = some other) :
    fingerprint = schema.fingerprint ∧ other = id ∨ r.fingerprints.find? fingerprint = some other := by
  rw [store] at h
  split at h
  · exact Or.inr h
  · rw [Table.find?_insert] at h
    split at h
    next heq => exact Or.inl ⟨heq.symm, (Option.some.inj h).symm⟩
    · exact Or.inr h

/-- The index learns the new fingerprint and forgets none. -/
theorem contains_fingerprints_store (r : Registry) (id : String) (explicit : Bool) (order : Nat) (schema : Schema)
    (owner : Location) {fingerprint : String} :
    (r.store id explicit order schema owner).fingerprints.contains fingerprint = true ↔
      fingerprint = schema.fingerprint ∨ r.fingerprints.contains fingerprint = true := by
  rw [store]
  split
  next known => exact ⟨Or.inr, fun h => h.elim (fun heq => heq ▸ known) fun h => h⟩
  · rw [Table.contains_iff, Table.contains_iff, Table.mem_names_insert]

/-- Filling enters a fingerprint that is new under the id that has just got it, and leaves the index alone otherwise. -/
theorem Sound.stored (hr : r.Sound) (held : r.slots.find? id = some (.reserved explicit order)) (schema : Schema)
    (owner : Location) : Sound (r.store id explicit order schema owner) where
  names_nodup := Table.nodup_insert hr.names_nodup _ _
  orders_nodup := by
    rw [orders_store held]
    exact hr.orders_nodup
  order_lt := by
    rw [orders_store held]
    exact hr.order_lt
  index_filled := by
    intro fingerprint other h
    rcases fingerprints_store r id explicit order schema owner h with ⟨rfl, rfl⟩ | h
    · exact ⟨schema, by rw [get?_store, if_pos rfl], rfl⟩
    · obtain ⟨s, hs, hfp⟩ := hr.index_filled fingerprint other h
      exact ⟨s, get?_of_move (.store held schema owner) hs, hfp⟩
  filled_index := by
    intro other s h
    rw [contains_fingerprints_store]
    rw [get?_store] at h
    split at h
    · exact Or.inl (congrArg Schema.fingerprint (Option.some.inj h).symm)
    · exact Or.inr (hr.filled_index other s h)

/-- Only a slot without a schema is dropped, and the index names none of those. -/
theorem Sound.dropped (hr : r.Sound) (held : r.slots.find? id = some (.reserved explicit order)) :
    Sound { r with slots := r.slots.erase id } where
  names_nodup := Table.nodup_erase hr.names_nodup _
  orders_nodup := hr.orders_nodup.sublist (((Table.erase_sublist _ _).map _).map _)
  order_lt := fun n hn => hr.order_lt n ((((Table.erase_sublist _ _).map _).map _).subset hn)
  index_filled := by
    intro fingerprint other h
    rw [get?_drop hr.names_nodup held]
    exact hr.index_filled fingerprint other h
  filled_index := by
    intro other schema h
    rw [get?_drop hr.names_nodup held] at h
    exact hr.filled_index other schema h

end Sound

/-- Every move keeps the invariant. -/
theorem Sound.move {r r' : Registry} (hr : r.Sound) (h : Move r r') : r'.Sound := by
  cases h with
  | count => exact hr.counted
  | reserve new explicit => exact hr.reserved new explicit
  | store held schema owner => exact hr.stored held schema owner
  | drop held => exact hr.dropped held

/-! ## Entries

The entries are the filled slots, sorted by their numbers. -/

end Registry

namespace Entry

/-- Putting an entry in its place adds that entry only. -/
theorem insertByOrder_perm (e : Entry) (l : List Entry) : (e.insertByOrder l).Perm (e :: l) := by
  induction l with
  | nil => exact .refl _
  | cons f rest ih =>
    rw [insertByOrder]
    split
    · exact (ih.cons f).trans (.swap e f rest)
    · exact .refl _

/-- The place is behind all entries with smaller numbers. -/
theorem insertByOrder_sorted (e : Entry) {l : List Entry} (hl : l.Pairwise (·.order ≤ ·.order)) :
    (e.insertByOrder l).Pairwise (·.order ≤ ·.order) := by
  induction l with
  | nil => exact List.pairwise_singleton _ _
  | cons f rest ih =>
    obtain ⟨hf, hrest⟩ := List.pairwise_cons.mp hl
    rw [insertByOrder]
    split
    next hlt =>
      refine List.pairwise_cons.mpr ⟨fun g hg => ?_, ih hrest⟩
      rcases List.mem_cons.mp ((e.insertByOrder_perm rest).subset hg) with rfl | hg
      · exact Nat.le_of_lt hlt
      · exact hf g hg
    next hle =>
      have hle := Nat.le_of_not_lt hle
      refine List.pairwise_cons.mpr ⟨fun g hg => ?_, hl⟩
      rcases List.mem_cons.mp hg with rfl | hg
      · exact hle
      · exact Nat.le_trans hle (hf g hg)

end Entry

namespace Registry

/-- Sorting loses none of the filled slots. -/
theorem entries_perm (r : Registry) : r.entries.Perm r.filled := by
  rw [entries]
  induction r.filled with
  | nil => exact .refl _
  | cons e rest ih => exact (e.insertByOrder_perm _).trans (ih.cons e)

/-- Entries come in the order in which their ids were reserved. -/
theorem entries_sorted (r : Registry) : r.entries.Pairwise (·.order ≤ ·.order) := by
  rw [entries]
  induction r.filled with
  | nil => exact .nil
  | cons e rest ih => exact e.insertByOrder_sorted ih

/-- The size counts the entries. -/
theorem size_eq_length_entries (r : Registry) : r.size = r.entries.length := r.entries_perm.length_eq.symm

/-- Every entry stands in the slot of its id. -/
theorem mem_entries {r : Registry} (hr : r.slots.names.Nodup) {e : Entry} :
    e ∈ r.entries ↔
      ∃ explicit owner, r.slots.find? e.id = some (.filled explicit e.order e.schema owner) := by
  rw [r.entries_perm.mem_iff, filled, List.mem_filterMap]
  constructor
  · rintro ⟨⟨id, slot⟩, hmem, he⟩
    cases slot with
    | reserved explicit order => cases he
    | filled explicit order schema owner =>
      obtain rfl := Option.some.inj he
      exact ⟨explicit, owner, (Table.find?_eq_some_iff hr).mpr hmem⟩
  · rintro ⟨explicit, owner, held⟩
    exact ⟨_, Table.mem_of_find? held, rfl⟩

/-- The entries are what can be looked up. -/
theorem get?_eq_some_iff_mem {r : Registry} (hr : r.slots.names.Nodup) {id : String} {schema : Schema} :
    r.get? id = some schema ↔ ∃ e ∈ r.entries, e.id = id ∧ e.schema = schema := by
  rw [get?_eq_some_iff]
  constructor
  · rintro ⟨explicit, order, owner, held⟩
    exact ⟨⟨id, schema, order⟩, (mem_entries hr).mpr ⟨explicit, owner, held⟩, rfl, rfl⟩
  · rintro ⟨e, he, rfl, rfl⟩
    obtain ⟨explicit, owner, held⟩ := (mem_entries hr).mp he
    exact ⟨explicit, e.order, owner, held⟩

/-- What a registered schema holds a `$ref` to is referenced. -/
theorem isReferenced_of_get? {r : Registry} {id other : String} {schema : Schema}
    (hget : r.get? id = some schema) (h : schema.references other = true) : r.isReferenced other = true := by
  obtain ⟨explicit, order, owner, held⟩ := get?_eq_some_iff.mp hget
  rw [isReferenced, List.any_eq_true]
  exact ⟨⟨id, schema, order⟩, List.mem_filterMap.mpr ⟨_, Table.mem_of_find? held, rfl⟩, h⟩

/-- The ids of the entries are names of slots, in the order of the slots. -/
theorem ids_filled_sublist (slots : Table Slot) :
    ((slots.filterMap fun (id, slot) => slot.entry? id).map Entry.id).Sublist slots.names := by
  induction slots with
  | nil => exact .slnil
  | cons s rest ih =>
    obtain ⟨id, slot⟩ := s
    cases slot with
    | reserved explicit order => exact ih.cons id
    | filled explicit order schema owner => exact ih.cons_cons id

theorem orders_filled_sublist (slots : Table Slot) :
    ((slots.filterMap fun (id, slot) => slot.entry? id).map Entry.order).Sublist
      (slots.values.map Slot.order) := by
  induction slots with
  | nil => exact .slnil
  | cons s rest ih =>
    obtain ⟨id, slot⟩ := s
    cases slot with
    | reserved explicit order => exact ih.cons order
    | filled explicit order schema owner => exact ih.cons_cons order

/-- No two entries have the same id. -/
theorem Sound.ids_nodup {r : Registry} (hr : r.Sound) : r.ids.Nodup :=
  (r.entries_perm.map _).nodup_iff.mpr (hr.names_nodup.sublist (ids_filled_sublist r.slots))

/-- No two entries come from one reservation, so their order is strict. -/
theorem Sound.entries_strict {r : Registry} (hr : r.Sound) : r.entries.Pairwise (·.order < ·.order) := by
  have hnodup : (r.entries.map Entry.order).Nodup :=
    (r.entries_perm.map _).nodup_iff.mpr (hr.orders_nodup.sublist (orders_filled_sublist r.slots))
  refine r.entries_sorted.imp₂ ?_ (List.pairwise_map.mp hnodup)
  exact fun a b hle hne => Nat.lt_of_le_of_ne hle hne

/-! ## Histories

A history is any list of calls with any arguments. Each call is at most two moves (`assign` reserves and
fills), and one that refuses has moved the counter at most. -/

/-- A call on a registry. -/
inductive Call where
  | reserve (name : String) (explicit : Bool)
  | fill (id : String) (schema : Schema) (owner : Location)
  | assign (name : String) (schema : Schema) (explicit : Bool) (owner : Location)
  | release (id : String)

/-- The answer to a call, an id where the call has one, and the registry afterwards. -/
def call (r : Registry) : Call → Except Fault (Option String) × Registry
  | .reserve name explicit => let (id, r') := r.reserve name explicit; (.ok id, r')
  | .fill id schema owner => let (answer, r') := r.fill id schema owner; (answer.map some, r')
  | .assign name schema explicit owner =>
    let (answer, r') := r.assign name schema explicit owner
    (answer.map some, r')
  | .release id => (.ok none, r.release id)

theorem call_fill (r : Registry) (id : String) (schema : Schema) (owner : Location) :
    r.call (.fill id schema owner) =
      ((r.fill id schema owner).1.map some, (r.fill id schema owner).2) := rfl

/-- Assigning is reserving and filling, one after the other. -/
theorem call_assign (r : Registry) (name : String) (schema : Schema) (explicit : Bool)
    (owner : Location) :
    r.call (.assign name schema explicit owner) =
      (r.reserve name explicit).2.call (.fill (r.reserve name explicit).1 schema owner) := rfl

/-- A registry after some calls. -/
def calls (r : Registry) (history : List Call) : Registry := history.foldl (fun r c => (r.call c).2) r

/-- A sequence of moves. -/
abbrev Moves : Registry → Registry → Prop := Relation.ReflTransGen Move

/-- Filling is a sequence of moves, of length one at most. -/
theorem fill_moves (r : Registry) (id : String) (schema : Schema) (owner : Location) :
    Moves r (r.fill id schema owner).2 := by
  rcases r.fill_move id schema owner with h | h
  · rw [h]
  · exact .single h

theorem release_moves (r : Registry) (id : String) : Moves r (r.release id) := by
  rcases r.release_move id with h | h
  · rw [h]
  · exact .single h

/-- Whatever is called changes the registry by moves. -/
theorem call_moves (r : Registry) (c : Call) : Moves r (r.call c).2 := by
  cases c with
  | reserve name explicit => exact .single (r.reserve_move name explicit)
  | fill id schema owner => exact r.fill_moves id schema owner
  | assign name schema explicit owner =>
    exact (Relation.ReflTransGen.single (r.reserve_move name explicit)).trans (fill_moves _ _ schema owner)
  | release id => exact r.release_moves id

/-- A history of calls changes the registry by moves, from its first call to its last. -/
theorem calls_moves (r : Registry) (history : List Call) : Moves r (r.calls history) := by
  induction history generalizing r with
  | nil => exact .refl
  | cons c rest ih => exact (r.call_moves c).trans (ih (r.call c).2)

/-- The invariant holds after any moves. -/
theorem Sound.moves {r r' : Registry} (hr : r.Sound) (h : Moves r r') : r'.Sound := by
  induction h with
  | refl => exact hr
  | tail _ h ih => exact ih.move h

/-- A schema stays registered after any moves. -/
theorem get?_of_moves {r r' : Registry} (h : Moves r r') {id : String} {schema : Schema}
    (hget : r.get? id = some schema) : r'.get? id = some schema := by
  induction h with
  | refl => exact hget
  | tail _ h ih => exact get?_of_move h ih

/-- A filled slot stays the same after any moves: its schema, its number, its flag and its owner. -/
theorem find?_filled_of_moves {r r' : Registry} (h : Moves r r') {id : String} {explicit : Bool}
    {order : Nat} {schema : Schema} {owner : Location}
    (held : r.slots.find? id = some (.filled explicit order schema owner)) :
    r'.slots.find? id = some (.filled explicit order schema owner) := by
  induction h with
  | refl => exact held
  | tail _ h ih => exact find?_filled_of_move h ih

/-- What is registered stays registered. -/
theorem entries_of_moves {r r' : Registry} (hr : r.Sound) (h : Moves r r') {e : Entry}
    (he : e ∈ r.entries) : e ∈ r'.entries := by
  obtain ⟨explicit, owner, held⟩ := (mem_entries hr.names_nodup).mp he
  exact (mem_entries (hr.moves h).names_nodup).mpr ⟨explicit, owner, find?_filled_of_moves h held⟩

/-- The index holds the fingerprints of the entries, and no others. -/
theorem Sound.mem_fingerprints {r : Registry} (hr : r.Sound) {fingerprint : String} :
    fingerprint ∈ r.fingerprints.names ↔ ∃ e ∈ r.entries, e.schema.fingerprint = fingerprint := by
  constructor
  · intro h
    obtain ⟨id, hid⟩ := Option.isSome_iff_exists.mp (Table.contains_iff.mpr h)
    obtain ⟨schema, hget, hfp⟩ := hr.index_filled fingerprint id hid
    obtain ⟨e, he, -, rfl⟩ := (get?_eq_some_iff_mem hr.names_nodup).mp hget
    exact ⟨e, he, hfp⟩
  · rintro ⟨e, he, rfl⟩
    have hget := (get?_eq_some_iff_mem hr.names_nodup).mpr ⟨e, he, rfl, rfl⟩
    exact Table.contains_iff.mp (hr.filled_index e.id e.schema hget)

/-- What the index names is an entry with the fingerprint that it is named for. -/
theorem Sound.find?_fingerprints {r : Registry} (hr : r.Sound) {fingerprint id : String}
    (h : r.fingerprints.find? fingerprint = some id) :
    ∃ e ∈ r.entries, e.id = id ∧ e.schema.fingerprint = fingerprint := by
  obtain ⟨schema, hget, hfp⟩ := hr.index_filled fingerprint id h
  obtain ⟨e, he, hid, rfl⟩ := (get?_eq_some_iff_mem hr.names_nodup).mp hget
  exact ⟨e, he, hid, hfp⟩

/-- Filling that refuses changes nothing, and the id was not reserved. -/
theorem call_fill_error {r : Registry} {id : String} {schema : Schema} {owner : Location} {fault : Fault}
    (h : (r.call (.fill id schema owner)).1 = .error fault) :
    (r.call (.fill id schema owner)).2 = r ∧
      ¬∃ explicit order, r.slots.find? id = some (.reserved explicit order) := by
  rw [call_fill] at h ⊢
  rcases fill_cases r id schema owner with
    ⟨_, hf, hno⟩ | ⟨_, -, -, hf⟩ | ⟨_, _, -, -, -, -, hf⟩ | ⟨_, _, -, hf⟩
  · exact ⟨by rw [hf], hno⟩
  all_goals
    rw [hf] at h
    cases h

/-- A call that refuses leaves slots and index alone. -/
theorem call_error {r : Registry} {c : Call} {fault : Fault} (h : (r.call c).1 = .error fault) :
    (r.call c).2.slots = r.slots ∧ (r.call c).2.fingerprints = r.fingerprints := by
  cases c with
  | reserve name explicit => cases h
  | fill id schema owner =>
    rw [(call_fill_error h).1]
    exact ⟨rfl, rfl⟩
  | assign name schema explicit owner =>
    rw [call_assign] at h ⊢
    obtain ⟨kept, hno⟩ := call_fill_error h
    rw [kept]
    rcases reserve_cases r name explicit with ⟨-, -, -, hr⟩ | ⟨-, -, hr⟩
    · rw [hr]
      exact ⟨rfl, rfl⟩
    · -- a new id is reserved now, so filling it does not refuse
      refine absurd ⟨explicit, r.nextOrder, ?_⟩ hno
      rw [hr]
      exact Table.find?_insert_self _ _ _
  | release id => cases h

/-- The registry is a sound append-only store. After any history of calls on an empty registry

* an entry is still there, with its schema and number, after any further calls;
* the entries have different ids and rising numbers, and are what `get?` and `size` tell;
* the index holds exactly the fingerprints of the entries, each with the id of an entry that has it;
* an id that is reserved and not insisted on had no slot;
* a call that refuses leaves slots and index alone. -/
theorem append_only_store (history : List Call) :
    let r := calls {} history
    (∀ more e, e ∈ r.entries → e ∈ (r.calls more).entries) ∧
    (r.ids.Nodup ∧ r.entries.Pairwise (·.order < ·.order) ∧ r.size = r.entries.length ∧
      ∀ id schema, r.get? id = some schema ↔ ∃ e ∈ r.entries, e.id = id ∧ e.schema = schema) ∧
    ((∀ fingerprint, fingerprint ∈ r.fingerprints.names ↔
        ∃ e ∈ r.entries, e.schema.fingerprint = fingerprint) ∧
      ∀ fingerprint id, r.fingerprints.find? fingerprint = some id →
        ∃ e ∈ r.entries, e.id = id ∧ e.schema.fingerprint = fingerprint) ∧
    (∀ name, (r.reserve name false).1 ∉ r.slots.names) ∧
    (∀ c fault, (r.call c).1 = .error fault →
      (r.call c).2.slots = r.slots ∧ (r.call c).2.fingerprints = r.fingerprints) := by
  intro r
  have hr : r.Sound := sound_empty.moves (calls_moves {} history)
  refine ⟨fun more e he => ?_, ⟨?_, ?_, ?_, fun id schema => ?_⟩, ⟨fun fingerprint => ?_, ?_⟩,
    fun name => ?_, fun c fault h => ?_⟩
  · exact entries_of_moves hr (r.calls_moves more) he
  · exact hr.ids_nodup
  · exact hr.entries_strict
  · exact r.size_eq_length_entries
  · exact get?_eq_some_iff_mem hr.names_nodup
  · exact hr.mem_fingerprints
  · exact fun fingerprint id h => hr.find?_fingerprints h
  · exact Text.fresh_not_mem r.slots.names name
  · exact call_error h

end Registry

end RouteManifest
