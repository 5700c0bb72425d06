import RouteManifest.Proofs.Catalog
import RouteManifest.Proofs.Resolution.Repeated

/-!
# Beside a run

A declaration that nothing in a task leads to may be waiting for its schema while the task runs, or not: the task does
not look at it, so the two runs go side by side (`Runs.beside`). They can only come apart by the id that is waiting, if
somebody else asks for it meanwhile (`Moment.Avoids`). It does not matter either at which place a task is written, as
long as names mean the same there (`Runs.moved_node`).
-/

namespace RouteManifest

variable {c : Catalog}

/-! ## Two places

Where an expression is written decides which declaration a name means, and which location a fault has. If names mean the
same at two places, only faults can differ, and they are faults at both. -/

/-- A name can be applied at both places or at neither. -/
theorem Catalog.toOption_applied_eq {u v : Location} (hc : ∀ name, c.lookup? name u.unit = c.lookup? name v.unit)
    (name : String) (count : Nat) : (c.applied name count u).toOption = (c.applied name count v).toOption := by
  rw [applied, applied, hc]
  rcases c.lookup? name v.unit with _ | i
  · rfl
  · simp only
    split
    · rfl
    · split <;> rfl

section Moved

variable {p : Pending c} {scope : Table Schema} {origin origin' : Location}

/-- Tasks that differ in where they are written have one answer, or fail both, and leave the same. -/
theorem Runs.moved_apply {name : String} {i : Fin c.size} {args : List Schema} {r r' : Resolver c}
    {out : Except Fault Schema}
    (h : Runs p (.apply name i args origin) r out r') (origin' : Location) :
    ∃ out' : Except Fault Schema, Runs p (.apply name i args origin') r out' r' ∧ out'.toOption = out.toOption := by
  -- the location shows in faults only
  cases h with
  | pending hp => exact ⟨_, .pending hp, rfl⟩
  | known hp hk => exact ⟨_, .known hp hk, rfl⟩
  | deep hp hk hd => exact ⟨_, .deep hp hk hd, rfl⟩
  | expanded hp hk hd hbody => exact ⟨_, .expanded hp hk hd hbody, rfl⟩
  | expandedFault hp hk hd hbody => exact ⟨_, .expandedFault hp hk hd hbody, rfl⟩

/-- Several expressions can be moved if each of them can. -/
theorem Runs.moved_list {es : List TypeExpr} (origin' : Location)
    (hes : ∀ e ∈ es, ∀ (r : Resolver c) (out : Except Fault Schema) r', Runs p (.node scope origin e) r out r' →
      ∃ out' : Except Fault Schema, Runs p (.node scope origin' e) r out' r' ∧ out'.toOption = out.toOption)
    {r r' : Resolver c} {out : Except Fault (List Schema)} (h : Runs p (.list scope origin es) r out r') :
    ∃ out' : Except Fault (List Schema), Runs p (.list scope origin' es) r out' r' ∧ out'.toOption = out.toOption := by
  induction es generalizing r r' out with
  | nil =>
    cases h
    exact ⟨_, .nil, rfl⟩
  | cons e rest ih =>
    have hrest := fun e he => hes e (List.mem_cons_of_mem _ he)
    cases h with
    | cons hhead htail =>
      obtain ⟨fault | s, hhead', hs⟩ := hes e List.mem_cons_self _ _ _ hhead
      · cases hs
      · obtain ⟨fault | l, htail', hl⟩ := ih hrest htail
        · cases hl
        · cases hs
          cases hl
          exact ⟨_, .cons hhead' htail', rfl⟩
    | consHead hhead =>
      obtain ⟨fault | s, hhead', hs⟩ := hes e List.mem_cons_self _ _ _ hhead
      · exact ⟨_, .consHead hhead', rfl⟩
      · cases hs
    | consTail hhead htail =>
      obtain ⟨fault | s, hhead', hs⟩ := hes e List.mem_cons_self _ _ _ hhead
      · cases hs
      · obtain ⟨fault | l, htail', hl⟩ := ih hrest htail
        · exact ⟨_, .consTail hhead' htail', rfl⟩
        · cases hl

/-- An expression can be moved to a place where names mean the same. By recursion on the expression, since its parts and
arguments are moved along. -/
theorem Runs.moved_node (hc : ∀ name, c.lookup? name origin.unit = c.lookup? name origin'.unit) {e : TypeExpr}
    {r r' : Resolver c} {out : Except Fault Schema} (h : Runs p (.node scope origin e) r out r') :
    ∃ out' : Except Fault Schema, Runs p (.node scope origin' e) r out' r' ∧ out'.toOption = out.toOption := by
  have happlied {name : String} {count : Nat} {i : Fin c.size} (hi : c.applied name count origin = .ok i) :
      c.applied name count origin' = .ok i := by
    obtain ⟨hlookup, hcount⟩ := Catalog.applied_eq_ok.mp hi
    exact Catalog.applied_eq_ok.mpr ⟨hc name ▸ hlookup, hcount⟩
  -- the body of a declaration is resolved where it was before, so the recursion is on the expression and not on the run
  cases h with
  | @built _ _ _ _ _ build _ _ _ he hparts =>
    obtain ⟨fault | l, hparts', hl⟩ := Runs.moved_list origin' (fun v hv r out r' h => Runs.moved_node hc h) hparts
    · cases hl
    · cases hl
      exact ⟨_, .built he hparts', rfl⟩
  | builtFault he hparts =>
    obtain ⟨fault | l, hparts', hl⟩ := Runs.moved_list origin' (fun v hv r out r' h => Runs.moved_node hc h) hparts
    · exact ⟨_, .builtFault he hparts', rfl⟩
    · cases hl
  | bound he hs => exact ⟨_, .bound he hs, rfl⟩
  | named he hs hi hargs hname =>
    obtain ⟨fault | l, hargs', hl⟩ := Runs.moved_list origin' (fun v hv r out r' h => Runs.moved_node hc h) hargs
    · cases hl
    · cases hl
      obtain ⟨out', hname', hout⟩ := hname.moved_apply origin'
      exact ⟨out', .named he hs (happlied hi) hargs' hname', hout⟩
  | namedFault he hs hi hargs =>
    obtain ⟨fault | l, hargs', hl⟩ := Runs.moved_list origin' (fun v hv r out r' h => Runs.moved_node hc h) hargs
    · exact ⟨_, .namedFault he hs (happlied hi) hargs', rfl⟩
    · cases hl
  | @misapplied _ _ _ _ name args _ _ he hs hi =>
    have heq := Catalog.toOption_applied_eq hc name args.length
    rw [hi] at heq
    rcases hi' : c.applied name args.length origin' with fault' | i
    · exact ⟨_, .misapplied he hs hi', rfl⟩
    · rw [hi'] at heq
      cases heq
  | unbound he hs => exact ⟨_, .unbound he hs, rfl⟩
  | callable he => exact ⟨_, .callable he, rfl⟩
termination_by sizeOf e
decreasing_by
  all_goals first
    | exact TypeExpr.sizeOf_lt_of_mem_parts he hv
    | exact TypeExpr.sizeOf_lt_of_mem_args he hv

end Moved

/-! ## One reservation more

Two registries, one of which has a reservation that the other has not. Numbers of reservations differ from then on, so
slots are compared without them. All that a run asks of a registry is answered alike by both, as long as nobody asks for
the id in question. -/

/-- What a slot says apart from its number. -/
def Slot.content : Slot → Bool × Option (Schema × Location)
  | .reserved explicit _ => (explicit, none)
  | .filled explicit _ schema owner => (explicit, some (schema, owner))

/-- A slot that says what a reservation says is one, with some number. -/
theorem Slot.map_content_reserved {o : Option Slot} {explicit : Bool} :
    o.map content = some (explicit, none) ↔ ∃ order, o = some (.reserved explicit order) := by
  rcases o with _ | (_ | _) <;> simp [content]

/-- A slot that says what a filled one says is filled, with some number. -/
theorem Slot.map_content_filled {o : Option Slot} {explicit : Bool} {schema : Schema} {owner : Location} :
    o.map content = some (explicit, some (schema, owner)) ↔ ∃ order, o = some (.filled explicit order schema owner) := by
  rcases o with _ | (_ | _) <;> simp [content]

namespace Registry

/-- An id is referenced if a registered schema holds a reference to it. -/
theorem isReferenced_iff_get? {r : Registry} (hr : r.slots.names.Nodup) {id : String} :
    r.isReferenced id = true ↔ ∃ other s, r.get? other = some s ∧ s.references id = true := by
  rw [isReferenced_iff]
  constructor
  · rintro ⟨e, he, href⟩
    exact ⟨e.id, e.schema, (get?_eq_some_iff_mem hr).mpr ⟨e, he, rfl, rfl⟩, href⟩
  · rintro ⟨other, s, hget, href⟩
    obtain ⟨e, he, -, rfl⟩ := (get?_eq_some_iff_mem hr).mp hget
    exact ⟨e, he, href⟩

/-- Of two registries the first has a reservation for an id that is free in the second, and the rest is the same but for
the numbers of the reservations. -/
structure Beside (x : String) (q r : Registry) : Prop where
  slots : ∀ id, id ≠ x → (q.slots.find? id).map Slot.content = (r.slots.find? id).map Slot.content
  fingerprints : q.fingerprints = r.fingerprints
  reserved : ∃ order, q.slots.find? x = some (.reserved false order)
  free : r.slots.find? x = none

namespace Beside

variable {x : String} {q r : Registry}

/-- Both have slots for the same other ids. -/
theorem isSome_find? (h : Beside x q r) {id : String} (hid : id ≠ x) :
    (q.slots.find? id).isSome = (r.slots.find? id).isSome := by
  rw [← Option.isSome_map (f := Slot.content), h.slots id hid, Option.isSome_map]

/-- Both have the same schemas: a reservation has none. -/
theorem get?_eq (h : Beside x q r) (id : String) : q.get? id = r.get? id := by
  have hcontent (r : Registry) : r.get? id = ((r.slots.find? id).map Slot.content).bind fun content =>
      content.2.map Prod.fst := by
    rw [get?]
    rcases r.slots.find? id with _ | (_ | _) <;> rfl
  by_cases hid : id = x
  · obtain ⟨order, hq⟩ := h.reserved
    rw [hid, get?_of_reserved hq, get?, h.free]
    rfl
  · rw [hcontent q, hcontent r, h.slots id hid]

/-- Whatever has a slot without the reservation has one with it. -/
theorem names_subset (h : Beside x q r) : r.slots.names ⊆ q.slots.names := by
  intro id hid
  have hne : id ≠ x := by
    rintro rfl
    exact Table.find?_eq_none_iff.mp h.free hid
  rw [← Table.contains_iff, Table.contains, h.isSome_find? hne]
  exact Table.contains_iff.mpr hid

/-- Another id that is free in one is free in the other. -/
theorem find?_eq_none (h : Beside x q r) {id : String} (hid : id ≠ x) (hr : r.slots.find? id = none) :
    q.slots.find? id = none := by
  rw [← Option.isNone_iff_eq_none, ← Option.not_isSome, h.isSome_find? hid, hr]
  rfl

/-- Both hand out one id, unless it is the one that makes the difference. -/
theorem reserve (h : Beside x q r) {name : String} {explicit : Bool} (hne : (r.reserve name explicit).1 ≠ x) :
    (q.reserve name explicit).1 = (r.reserve name explicit).1 ∧
      Beside x (q.reserve name explicit).2 (r.reserve name explicit).2 := by
  have hid : (q.reserve name explicit).1 = (r.reserve name explicit).1 := by
    cases explicit with
    | true => rfl
    | false =>
      -- a name that is free in the second is free in the first as well, since it is not the id that makes the
      -- difference
      have hfree := Text.fresh_not_mem r.slots.names name
      refine Text.fresh_of_subset h.names_subset fun hmem => ?_
      exact Table.find?_eq_none_iff.mp (h.find?_eq_none hne (Table.find?_eq_none_iff.mpr hfree)) hmem
  refine ⟨hid, fun id hx => ?_, h.fingerprints, ?_, ?_⟩
  · have hcontains : q.slots.contains (r.reserve name explicit).1 = r.slots.contains (r.reserve name explicit).1 :=
      h.isSome_find? hne
    generalize hown : (r.reserve name explicit).1 = own at hid hcontains hne
    have hslots (r : Registry) (hown : (r.reserve name explicit).1 = own) : (r.reserve name explicit).2.slots =
        if r.slots.contains own then r.slots else r.slots.insert own (.reserved explicit r.nextOrder) := by
      rw [← hown]
      rfl
    rw [hslots q hid, hslots r hown, hcontains]
    split
    · exact h.slots id hx
    · rw [Table.find?_insert, Table.find?_insert]
      split
      · rfl
      · exact h.slots id hx
  · obtain ⟨order, hq⟩ := h.reserved
    exact ⟨order, find?_reserve_of_find? hq⟩
  · rw [Table.find?_eq_none_iff, mem_names_reserve, not_or]
    exact ⟨Table.find?_eq_none_iff.mp h.free, Ne.symm hne⟩

/-! ### Filling and giving back

Of other ids than the one that makes the difference. -/

/-- Both take a schema alike, unless it is for the id that makes the difference. -/
theorem fill (h : Beside x q r) (hq : q.slots.names.Nodup) (hr : r.slots.names.Nodup) {id : String} (hne : id ≠ x)
    (schema : Schema) (owner : Location) : (q.fill id schema owner).1 = (r.fill id schema owner).1 ∧
      Beside x (q.fill id schema owner).2 (r.fill id schema owner).2 := by
  have hreserved {q' : Registry} (hkept : q'.slots.find? x = q.slots.find? x) :
      ∃ order, q'.slots.find? x = some (.reserved false order) := by
    obtain ⟨order, hslot⟩ := h.reserved
    exact ⟨order, hkept.trans hslot⟩
  have hslot := h.slots id hne
  rw [Registry.fill, Registry.fill]
  -- the slot of the id is the same on both sides, but for the number of its reservation
  rcases hheld : r.slots.find? id with _ | (⟨explicit, order⟩ | ⟨explicit, order, existing, existingOwner⟩)
  · rw [h.find?_eq_none hne hheld]
    exact ⟨rfl, h⟩
  · rw [hheld] at hslot
    obtain ⟨order', hheld'⟩ := Slot.map_content_reserved.mp hslot
    have hshared : q.shared? id explicit schema = r.shared? id explicit schema := by
      -- the two registries have the same entries, so they agree on what is referenced
      have hreferenced : q.isReferenced id = r.isReferenced id := by
        rw [Bool.eq_iff_iff, isReferenced_iff_get? hq, isReferenced_iff_get? hr]
        simp only [h.get?_eq]
      rw [shared?, shared?, hreferenced, h.fingerprints]
    rw [hheld']
    simp only [hshared]
    rcases r.shared? id explicit schema with _ | shared
    · refine ⟨rfl, fun other hx => ?_, ?_, hreserved (Table.find?_insert_of_ne _ _ hne), ?_⟩
      · simp only [Table.find?_insert]
        split
        · rfl
        · exact h.slots other hx
      · simp only [h.fingerprints]
      · exact (Table.find?_insert_of_ne _ _ hne).trans h.free
    · refine ⟨rfl, fun other hx => ?_, h.fingerprints, hreserved (Table.find?_erase_of_ne _ hne), ?_⟩
      · by_cases heq : id = other
        · simp only [← heq, Table.find?_erase_self hq, Table.find?_erase_self hr]
        · simp only [Table.find?_erase_of_ne _ heq]
          exact h.slots other hx
      · exact (Table.find?_erase_of_ne _ hne).trans h.free
  · rw [hheld] at hslot
    obtain ⟨order', hheld'⟩ := Slot.map_content_filled.mp hslot
    rw [hheld']
    simp only
    split
    · exact ⟨rfl, h⟩
    · split <;> exact ⟨rfl, h⟩

/-- Giving back another id leaves the difference. -/
theorem release (h : Beside x q r) (hq : q.slots.names.Nodup) (hr : r.slots.names.Nodup) {id : String} (hne : id ≠ x) :
    Beside x (q.release id) (r.release id) := by
  have hslot := h.slots id hne
  refine ⟨fun other hx => ?_, ?_, ?_, (find?_release_of_ne r hne).trans h.free⟩
  · by_cases heq : id = other
    · rw [heq] at hslot ⊢
      rw [Registry.release, Registry.release]
      rcases hheld : r.slots.find? other with _ | (⟨explicit, order⟩ | ⟨explicit, order, existing, owner⟩)
      · rw [h.find?_eq_none hx hheld]
        simp only [hheld, h.find?_eq_none hx hheld]
      · rw [hheld] at hslot
        obtain ⟨order', hheld'⟩ := Slot.map_content_reserved.mp hslot
        simp only [hheld', Table.find?_erase_self hq, Table.find?_erase_self hr]
      · rw [hheld] at hslot
        obtain ⟨order', hheld'⟩ := Slot.map_content_filled.mp hslot
        simp only [hheld', hheld]
        rfl
    · rw [find?_release_of_ne q heq, find?_release_of_ne r heq]
      exact h.slots other hx
  · have hkept (r : Registry) : (r.release id).fingerprints = r.fingerprints := by
      rw [Registry.release]
      split <;> rfl
    rw [hkept, hkept, h.fingerprints]
  · obtain ⟨order, hslot⟩ := h.reserved
    exact ⟨order, (find?_release_of_ne q hne).trans hslot⟩

end Beside

end Registry

/-! ## Side by side

The run beside the other is built rule by rule. The task must not come to the waiting declaration, since it would be
answered by a reference there and be expanded here, and it must not ask for the waiting id. -/

/-- If a declaration is going to be expanded, it is not under that id. -/
def Moment.Avoids (m : Moment c) (id : String) : Prop :=
  ∀ name i args origin, m.task = .apply name i args origin → m.pending.id? (c.identity i args) = none →
    m.resolver.id? (c.identity i args) = none → m.resolver.expansionId i args ≠ id

/-- Of the two resolvers the first is waiting for the schema of a declaration, under an id that is free in the second. -/
structure Resolver.Beside (i : Fin c.size) (x : String) (q r : Resolver c) : Prop where
  registry : q.registry.Beside x r.registry
  sound : q.registry.Sound
  sound' : r.registry.Sound
  known : ∀ identity, identity.declaration ≠ i → q.id? identity = r.id? identity

/-- The same is pending of all declarations but one. -/
structure Pending.Beside (i : Fin c.size) (p' p : Pending c) : Prop where
  depth : p'.depth = p.depth
  id? : ∀ identity, identity.declaration ≠ i → p'.id? identity = p.id? identity

/-- What begins on both sides is pending on both. -/
theorem Pending.Beside.push {i : Fin c.size} {p' p : Pending c} (h : p'.Beside i p) (identity : Identity c)
    (id : String) : (p'.push identity id).Beside i (p.push identity id) where
  depth := by rw [Pending.push, Pending.push, h.depth]
  id? := by
    intro other hother
    by_cases heq : other = identity
    · rw [heq, Pending.id?_push_self, Pending.id?_push_self]
    · rw [Pending.id?_push_of_ne heq, Pending.id?_push_of_ne heq]
      exact h.id? other hother

/-- What has begun beside something else. -/
theorem Pending.beside_push (i : Fin c.size) (p : Pending c) (id : String) :
    (p.push (c.identity i []) id).Beside i p where
  depth := rfl
  id? := by
    intro other hother
    refine Pending.id?_push_of_ne ?_
    rintro rfl
    exact hother rfl

namespace Resolver.Beside

variable {i : Fin c.size} {x : String} {q r : Resolver c}

/-- Another expansion begins under one id on both sides. -/
theorem opened (h : q.Beside i x r) {j : Fin c.size} {args : List Schema} (hne : r.expansionId j args ≠ x) :
    q.expansionId j args = r.expansionId j args ∧ (q.opened j args).Beside i x (r.opened j args) := by
  obtain ⟨hid, hregistry⟩ := h.registry.reserve hne
  exact ⟨hid, hregistry, h.sound.opened j args, h.sound'.opened j args, h.known⟩

theorem filled (h : q.Beside i x r) {id : String} (hne : id ≠ x) (identity : Identity c) (schema : Schema)
    (owner : Location) : (q.registry.fill id schema owner).1 = (r.registry.fill id schema owner).1 ∧
      (q.filled identity id schema owner).Beside i x (r.filled identity id schema owner) := by
  obtain ⟨hout, hregistry⟩ := h.registry.fill h.sound.names_nodup h.sound'.names_nodup hne schema owner
  refine ⟨hout, hregistry, h.sound.filled _ _ _ _, h.sound'.filled _ _ _ _,
    fun other hother => ?_⟩
  by_cases heq : other = identity
  · rw [heq, Resolver.id?_filled_self, Resolver.id?_filled_self, hout]
  · rw [Resolver.id?_filled_of_ne heq, Resolver.id?_filled_of_ne heq]
    exact h.known other hother

theorem released (h : q.Beside i x r) {id : String} (hne : id ≠ x) : (q.released id).Beside i x (r.released id) :=
  ⟨h.registry.release h.sound.names_nodup h.sound'.names_nodup hne, h.sound.released _,
    h.sound'.released _, h.known⟩

/-- The same is seen of a schema on both sides. -/
theorem objectView?_eq (h : q.Beside i x r) (s : Schema) : q.registry.objectView? s = r.registry.objectView? s := by
  rw [Registry.objectView?, Registry.objectView?]
  simp only [h.registry.get?_eq]

end Resolver.Beside

/-- What a moment comes to, those come to as well that it is within. -/
theorem Moment.comesTo_of_within {m m' : Moment c} (h : m.Within m') {j : Fin c.size} (hj : m'.task.ComesTo j) :
    m.task.ComesTo j := by
  refine h.invariant (P := fun m' => ∀ j, m'.task.ComesTo j → m.task.ComesTo j) (fun hm hstarts j hj => hm j ?_)
    (fun _ hj => hj) j hj
  cases hstarts with
  | head => exact hj.imp fun _ => .of_head
  | tail => exact hj.imp fun _ => .of_tail
  | parts he => exact hj.imp fun _ => .of_list fun _ ha _ hx => .part he ha hx
  | args he => exact hj.imp fun _ => .of_list fun _ ha _ hx => .arg he ha hx
  | apply he _ hi => exact hj.imp fun _ => .of_apply he (Catalog.applied_eq_ok.mp hi).1
  | body => exact hj.of_body _ _

/-- A task that does not come to a declaration is not about to apply it. -/
theorem Task.ne_of_not_comesTo {name : String} {i j : Fin c.size} {args : List Schema} {origin : Location}
    (h : ¬(Task.apply name j args origin).ComesTo i) : j ≠ i := fun heq => h ⟨j, rfl, heq ▸ .refl⟩

/-- A task that does not come to a declaration goes on in the same way while that is waiting for its schema. -/
theorem Runs.beside {p : Pending c} {t : Task c} {r r' : Resolver c} {out : Except Fault t.Answer}
    (h : Runs p t r out r') {i : Fin c.size} {x : String}
    (hwithin : ∀ m, Moment.Within ⟨p, t, r⟩ m → ¬m.task.ComesTo i ∧ m.Avoids x) {p' : Pending c} (hp : p'.Beside i p)
    {q : Resolver c} (hq : q.Beside i x r) : ∃ q', Runs p' t q out q' ∧ q'.Beside i x r' := by
  -- no task inside comes to the declaration or takes its id, which `Moment.Starts.within` hands on
  induction h generalizing p' q with
  | nil => exact ⟨q, .nil, hq⟩
  | cons hhead _ ihHead ihTail =>
    obtain ⟨q₁, hhead', hq₁⟩ := ihHead (Moment.Starts.within .head hwithin) hp hq
    obtain ⟨q₂, htail', hq₂⟩ := ihTail (Moment.Starts.within (.tail hhead) hwithin) hp hq₁
    exact ⟨q₂, .cons hhead' htail', hq₂⟩
  | consHead _ ih =>
    obtain ⟨q₁, hhead', hq₁⟩ := ih (Moment.Starts.within .head hwithin) hp hq
    exact ⟨q₁, .consHead hhead', hq₁⟩
  | consTail hhead _ ihHead ihTail =>
    obtain ⟨q₁, hhead', hq₁⟩ := ihHead (Moment.Starts.within .head hwithin) hp hq
    obtain ⟨q₂, htail', hq₂⟩ := ihTail (Moment.Starts.within (.tail hhead) hwithin) hp hq₁
    exact ⟨q₂, .consTail hhead' htail', hq₂⟩
  | @built p scope origin e parts build r l r' he _ ih =>
    obtain ⟨q₁, hrun, hq₁⟩ := ih (Moment.Starts.within (.parts he) hwithin) hp hq
    have hbuild : build q₁.registry l = build r'.registry l := TypeExpr.build_congr he fun s _ => hq₁.objectView?_eq s
    rw [← hbuild]
    exact ⟨q₁, .built he hrun, hq₁⟩
  | @builtFault p scope origin e parts build r fault r' he _ ih =>
    obtain ⟨q₁, hrun, hq₁⟩ := ih (Moment.Starts.within (.parts he) hwithin) hp hq
    exact ⟨q₁, .builtFault he hrun, hq₁⟩
  | bound he hs => exact ⟨q, .bound he hs, hq⟩
  | @named p scope origin e name args j r l r' out r'' he hs hj hargs _ ihArgs ihName =>
    obtain ⟨q₁, hargs', hq₁⟩ := ihArgs (Moment.Starts.within (.args he hs hj) hwithin) hp hq
    obtain ⟨q₂, hname', hq₂⟩ := ihName (Moment.Starts.within (.apply he hs hj hargs) hwithin) hp hq₁
    exact ⟨q₂, .named he hs hj hargs' hname', hq₂⟩
  | @namedFault p scope origin e name args j r fault r' he hs hj _ ih =>
    obtain ⟨q₁, hargs', hq₁⟩ := ih (Moment.Starts.within (.args he hs hj) hwithin) hp hq
    exact ⟨q₁, .namedFault he hs hj hargs', hq₁⟩
  | misapplied he hs hj => exact ⟨q, .misapplied he hs hj, hq⟩
  | unbound he hs => exact ⟨q, .unbound he hs, hq⟩
  | callable he => exact ⟨q, .callable he, hq⟩
  | @pending p name j args origin r id hid =>
    have hne := Task.ne_of_not_comesTo (hwithin _ .refl).1
    exact ⟨q, .pending ((hp.id? (c.identity j args) hne).trans hid), hq⟩
  | @known p name j args origin r id hpending hid =>
    have hne := Task.ne_of_not_comesTo (hwithin _ .refl).1
    exact ⟨q, .known ((hp.id? (c.identity j args) hne).trans hpending)
      ((hq.known (c.identity j args) hne).trans hid), hq⟩
  | @deep p name j args origin r hpending hknown hd =>
    have hne := Task.ne_of_not_comesTo (hwithin _ .refl).1
    exact ⟨q, .deep ((hp.id? (c.identity j args) hne).trans hpending) ((hq.known (c.identity j args) hne).trans hknown)
      (hp.depth ▸ hd), hq⟩
  | @expanded p name j args origin r body r' hpending hknown hd _ ih =>
    have hne := Task.ne_of_not_comesTo (hwithin _ .refl).1
    have hid := (hwithin _ .refl).2 name j args origin rfl hpending hknown
    obtain ⟨heq, hopened⟩ := hq.opened hid
    obtain ⟨q₁, hbody, hq₁⟩ := ih (Moment.Starts.within (.body hpending hknown hd) hwithin)
      (hp.push (c.identity j args) (r.expansionId j args)) hopened
    obtain ⟨hout, hfilled⟩ := hq₁.filled hid (c.identity j args) body (c.get j).location
    refine ⟨_, ?_, hfilled⟩
    rw [← heq] at hbody hout ⊢
    rw [← hout]
    exact .expanded ((hp.id? (c.identity j args) hne).trans hpending)
      ((hq.known (c.identity j args) hne).trans hknown) (hp.depth ▸ hd) hbody
  | @expandedFault p name j args origin r fault r' hpending hknown hd _ ih =>
    have hne := Task.ne_of_not_comesTo (hwithin _ .refl).1
    have hid := (hwithin _ .refl).2 name j args origin rfl hpending hknown
    obtain ⟨heq, hopened⟩ := hq.opened hid
    obtain ⟨q₁, hbody, hq₁⟩ := ih (Moment.Starts.within (.body hpending hknown hd) hwithin)
      (hp.push (c.identity j args) (r.expansionId j args)) hopened
    refine ⟨_, ?_, hq₁.released hid⟩
    rw [← heq] at hbody ⊢
    exact .expandedFault ((hp.id? (c.identity j args) hne).trans hpending)
      ((hq.known (c.identity j args) hne).trans hknown) (hp.depth ▸ hd) hbody

end RouteManifest
