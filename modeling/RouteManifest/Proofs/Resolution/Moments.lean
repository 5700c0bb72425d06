import RouteManifest.Proofs.Resolution.Evaluation
import RouteManifest.Proofs.Resolution.Ownership

/-!
# Moments of a resolution

A task that is resolved starts other tasks, and waits for them. `Moment` is a task together with what it finds when it
starts, and `Moment.Starts` leads from a moment to those that it is waiting for; so the moments within a call
(`Moment.Within`) are all the tasks that ever start in its course.

The nesting of moments comes to an end (`Moment.wellFounded_starts`): a task starts smaller ones, until it comes to a
declaration; and that is expanded only if the measure of what is pending goes down. What is pending at a moment is what
is being expanded then, so whatever is to hold at any time in the course of a call is shown for moments.
-/

namespace RouteManifest

variable {c : Catalog}

/-- A task that starts. -/
structure Moment (c : Catalog) where
  /-- the expansions that have begun and not ended -/
  pending : Pending c
  task : Task c
  /-- the resolver that the task finds -/
  resolver : Resolver c

namespace Moment

/-- A call of the resolver. -/
def call (e : TypeExpr) (origin : Location) (r : Resolver c) : Moment c := ⟨{}, .node [] origin e, r⟩

/-- A moment waits for another one, which starts when those that come before it have succeeded. -/
inductive Starts : Moment c → Moment c → Prop where
  | head {p scope origin e es r} :
      Starts ⟨p, .list scope origin (e :: es), r⟩ ⟨p, .node scope origin e, r⟩
  | tail {p scope origin e es r s r'} :
      Runs p (.node scope origin e) r (.ok s) r' →
      Starts ⟨p, .list scope origin (e :: es), r⟩ ⟨p, .list scope origin es, r'⟩
  | parts {p scope origin e parts build r} :
      e.form = .built parts build →
      Starts ⟨p, .node scope origin e, r⟩ ⟨p, .list scope origin parts, r⟩
  | args {p scope origin e name args i r} :
      e.form = .named name args → (args = [] → scope.find? name = none) →
      c.applied name args.length origin = .ok i →
      Starts ⟨p, .node scope origin e, r⟩ ⟨p, .list scope origin args, r⟩
  | apply {p scope origin e name args i r l r'} :
      e.form = .named name args → (args = [] → scope.find? name = none) →
      c.applied name args.length origin = .ok i → Runs p (.list scope origin args) r (.ok l) r' →
      Starts ⟨p, .node scope origin e, r⟩ ⟨p, .apply name i l origin, r'⟩
  /-- the body of a declaration that is expanded -/
  | body {p name i args origin r} :
      p.id? (c.identity i args) = none → r.id? (c.identity i args) = none →
      ¬(args ≠ [] ∧ maxGenericDepth ≤ p.depth) →
      Starts ⟨p, .apply name i args origin, r⟩
        ⟨p.push (c.identity i args) (r.expansionId i args),
          .node ((c.get i).scope args) (c.get i).location (c.get i).body, r.opened i args⟩

/-- A moment in the course of another one. -/
abbrev Within : Moment c → Moment c → Prop := Relation.ReflTransGen Starts

/-- What every moment passes on to those that it starts, holds in its whole course. -/
theorem Within.invariant {P : Moment c → Prop} (kept : ∀ {m m' : Moment c}, P m → m.Starts m' → P m')
    {m m' : Moment c} (h : m.Within m') (hm : P m) : P m' := by
  induction h with
  | refl => exact hm
  | tail _ hstarts ih => exact kept ih hstarts

/-- What holds in the whole course of a moment, holds in that of every moment that it starts. -/
theorem Starts.within {P : Moment c → Prop} {m m' : Moment c} (h : m.Starts m') (hm : ∀ m'', m.Within m'' → P m'') :
    ∀ m'', m'.Within m'' → P m'' := fun m'' hm' => hm m'' (.head h hm')

/-! ## The nesting ends

Accessibility is shown for the moments of a task from that of the tasks it starts: by the size of an expression within
one body, and by the measure of what is pending where a declaration is applied. -/

section Accessible

variable {p : Pending c}

/-- The nesting inside several expressions ends if it does inside each. -/
theorem acc_list {scope : Table Schema} {origin : Location} {es : List TypeExpr}
    (h : ∀ e ∈ es, ∀ r : Resolver c, Acc (fun m' m => Starts m m') ⟨p, .node scope origin e, r⟩) (r : Resolver c) :
    Acc (fun m' m => Starts m m') ⟨p, .list scope origin es, r⟩ := by
  induction es generalizing r with
  | nil => exact .intro _ fun _ hstarts => by cases hstarts
  | cons e rest ih =>
    refine .intro _ fun _ hstarts => ?_
    cases hstarts with
    | head => exact h e List.mem_cons_self r
    | tail => exact ih (fun e he => h e (List.mem_cons_of_mem _ he)) _

/-- The nesting inside an expression ends if it does where declarations are applied. -/
theorem acc_node
    (h : ∀ name i args origin (r : Resolver c), Acc (fun m' m => Starts m m') ⟨p, .apply name i args origin, r⟩)
    (scope : Table Schema) (origin : Location) (e : TypeExpr) (r : Resolver c) :
    Acc (fun m' m => Starts m m') ⟨p, .node scope origin e, r⟩ := by
  refine .intro _ fun _ hstarts => ?_
  cases hstarts with
  | parts he => exact acc_list (fun v hv => acc_node h scope origin v) r
  | args he => exact acc_list (fun v hv => acc_node h scope origin v) r
  | apply => exact h _ _ _ _ _
termination_by sizeOf e
decreasing_by
  · exact TypeExpr.sizeOf_lt_of_mem_parts he hv
  · exact TypeExpr.sizeOf_lt_of_mem_args he hv

/-- The nesting inside a declaration ends, by induction on the measure of what is pending. -/
theorem acc_apply (p : Pending c) (name : String) (i : Fin c.size) (args : List Schema) (origin : Location)
    (r : Resolver c) : Acc (fun m' m => Starts m m') ⟨p, .apply name i args origin, r⟩ := by
  refine .intro _ fun _ hstarts => ?_
  cases hstarts with
  | body hpending hknown hdepth => exact acc_node (acc_apply _) _ _ _ _
termination_by p.measure
decreasing_by exact Pending.measure_push_lt p _ _ _ hpending (by simpa using hdepth)

end Accessible

/-- Moments are not nested for ever. -/
theorem wellFounded_starts : WellFounded fun m' m : Moment c => m.Starts m' := by
  refine ⟨fun ⟨p, t, r⟩ => ?_⟩
  cases t with
  | node scope origin e => exact acc_node (acc_apply p) scope origin e r
  | list scope origin es => exact acc_list (fun e _ => acc_node (acc_apply p) scope origin e) r
  | apply name i args origin => exact acc_apply p name i args origin r

end Moment

/-- The end of several expressions is a moment too. -/
theorem Runs.within_end {p : Pending c} {scope : Table Schema} {origin : Location} {es : List TypeExpr}
    {r r' : Resolver c} {l : List Schema} (h : Runs p (.list scope origin es) r (.ok l) r') :
    Moment.Within ⟨p, .list scope origin es, r⟩ ⟨p, .list scope origin [], r'⟩ := by
  induction es generalizing r l with
  | nil =>
    cases h
    exact .refl
  | cons e rest ih =>
    cases h with
    | cons hhead htail => exact .head (.tail hhead) (ih htail)

/-! ## What is being expanded

Two bounds on what is pending. Generic declarations are limited in number by the limit on depth, and any other
declaration has one instantiation, which is not begun again while it is pending. -/

namespace Pending

/-- The expansions of generic declarations that have begun. -/
def generic (p : Pending c) : List (Identity c × String) :=
  p.identities.filter fun entry => !(c.get entry.1.declaration).typeParams.isEmpty

/-- The expansions of a declaration that have begun. -/
def expansionsOf (p : Pending c) (i : Fin c.size) : List (Identity c × String) :=
  p.identities.filter fun entry => entry.1.declaration = i

/-- What is pending is within the limits. -/
structure Bounded (p : Pending c) : Prop where
  /-- identities have as many arguments as their declaration has parameters -/
  arity : ∀ entry ∈ p.identities, entry.1.args.length = (c.get entry.1.declaration).typeParams.length
  /-- nothing is expanded inside itself -/
  distinct : (p.identities.map Prod.fst).Nodup
  depth_eq : p.generic.length = p.depth
  depth_le : p.depth ≤ maxGenericDepth

theorem bounded_empty : ({} : Pending c).Bounded := ⟨nofun, List.nodup_nil, rfl, Nat.zero_le _⟩

/-- The beginning of an expansion. -/
theorem Bounded.push {p : Pending c} (h : p.Bounded) {i : Fin c.size} {args : List Schema}
    (hargs : args.length = (c.get i).typeParams.length) (hpending : p.id? (c.identity i args) = none)
    (hdepth : ¬(args ≠ [] ∧ maxGenericDepth ≤ p.depth)) (id : String) : (p.push (c.identity i args) id).Bounded := by
  have hgeneric : (c.get i).typeParams.isEmpty = (c.identity i args).args.isEmpty := by
    rw [Bool.eq_iff_iff, List.isEmpty_iff, List.isEmpty_iff, ← List.length_eq_zero_iff, ← List.length_eq_zero_iff,
      Catalog.identity, List.length_map, hargs]
  refine ⟨List.forall_mem_cons.mpr ⟨(List.length_map _).trans hargs, h.arity⟩,
    List.nodup_cons.mpr ⟨fun hmem => ?_, h.distinct⟩, ?_, ?_⟩
  · obtain ⟨entry, hentry, heq⟩ := List.mem_map.mp hmem
    simpa [heq] using List.lookup_eq_none_iff.mp hpending entry hentry
  · -- the counter goes up for arguments, the list for type parameters: there are as many of both
    rw [generic, Pending.push, List.filter_cons]
    show (if !(c.get i).typeParams.isEmpty then _ else _ : List _).length = _
    rw [hgeneric]
    have := h.depth_eq
    cases (c.identity i args).args.isEmpty with
    | true => exact this
    | false => exact congrArg Nat.succ this
  · have := h.depth_le
    rw [Pending.push]
    cases args with
    | nil => exact this
    | cons a rest =>
      show p.depth + 1 ≤ maxGenericDepth
      have : ¬maxGenericDepth ≤ p.depth := fun hle => hdepth ⟨List.cons_ne_nil a rest, hle⟩
      omega

/-- A declaration without parameters is expanded once at a time. -/
theorem Bounded.length_expansionsOf_le {p : Pending c} (h : p.Bounded) {i : Fin c.size}
    (hi : (c.get i).typeParams = []) : (p.expansionsOf i).length ≤ 1 := by
  have hself : ∀ k ∈ (p.expansionsOf i).map Prod.fst, k = ⟨i, []⟩ := by
    intro k hk
    obtain ⟨entry, hentry, rfl⟩ := List.mem_map.mp hk
    obtain ⟨hmem, hdeclaration⟩ := List.mem_filter.mp hentry
    have hdeclaration : entry.1.declaration = i := by simpa using hdeclaration
    have hlength := h.arity entry hmem
    rw [hdeclaration, hi, List.length_nil, List.length_eq_zero_iff] at hlength
    rw [← hdeclaration, ← hlength]
  have hnodup : ((p.expansionsOf i).map Prod.fst).Nodup := h.distinct.sublist (List.filter_sublist.map _)
  rw [List.eq_replicate_of_mem hself, List.nodup_replicate, List.length_map] at hnodup
  exact hnodup

end Pending

namespace Moment

/-- What is pending when a task starts is within the limits, and so is what the task can begin. -/
def Bounded (m : Moment c) : Prop := m.task.Applied ∧ m.pending.Bounded

/-- The limits are passed on to the tasks that a moment starts. -/
theorem Bounded.starts {m m' : Moment c} (h : m.Bounded) (hstarts : m.Starts m') : m'.Bounded := by
  obtain ⟨happlied, hbounded⟩ := h
  cases hstarts with
  | head => exact ⟨trivial, hbounded⟩
  | tail => exact ⟨trivial, hbounded⟩
  | parts => exact ⟨trivial, hbounded⟩
  | args => exact ⟨trivial, hbounded⟩
  | apply _ _ hi hargs => exact ⟨hargs.length_eq.trans (Catalog.applied_eq_ok.mp hi).2.symm, hbounded⟩
  | body hpending _ hdepth => exact ⟨trivial, hbounded.push happlied hpending hdepth _⟩

/-- The limits are kept in the whole course of a call. -/
theorem bounded_of_within {e : TypeExpr} {origin : Location} {r : Resolver c} {m : Moment c}
    (h : (call e origin r).Within m) : m.Bounded :=
  h.invariant Bounded.starts ⟨trivial, Pending.bounded_empty⟩

end Moment

/-! ## The limit

The fault that tells of the limit is raised in one place. Faults are passed on as they are, so from a call that fails
with it a moment can be found at which the limit was met. -/

/-- A name that cannot be applied is refused for another reason than the limit. -/
theorem Catalog.applied_ne_recursionLimit {name : String} {count : Nat} {origin location : Location} {base : String}
    {limit : Nat} : c.applied name count origin ≠ .error (.recursionLimit location base limit) := by
  intro h
  rw [applied] at h
  split at h
  · cases h
  · simp only at h
    split at h
    · cases h
    · split at h <;> cases h

/-- The registry knows nothing of the limit. -/
theorem Registry.fill_ne_recursionLimit {r : Registry} {id : String} {schema : Schema} {owner location : Location}
    {base : String} {limit : Nat} : (r.fill id schema owner).1 ≠ .error (.recursionLimit location base limit) := by
  intro h
  rw [fill] at h
  split at h
  · cases h
  · split at h
    · cases h
    · split at h <;> cases h
  · simp only at h
    split at h <;> cases h

/-- An instantiation that is refused, since too many have begun. -/
structure Moment.Refuses (m : Moment c) (location : Location) (base : String) : Prop where
  apply : ∃ i args, args ≠ [] ∧ m.task = .apply base i args location ∧
    (expand m.pending base i args location).run m.resolver =
      (.error (.recursionLimit location base maxGenericDepth), m.resolver)
  depth : maxGenericDepth ≤ m.pending.depth

/-- The fault that tells of the limit comes from a moment when it was met. -/
theorem Runs.exists_refuses {p : Pending c} {t : Task c} {r r' : Resolver c} {out : Except Fault t.Answer}
    (h : Runs p t r out r') {location : Location} {base : String} {limit : Nat}
    (hout : out = .error (.recursionLimit location base limit)) :
    limit = maxGenericDepth ∧ ∃ m : Moment c, Moment.Within ⟨p, t, r⟩ m ∧ m.Refuses location base := by
  -- a fault is handed up unchanged, so the moment is found in the task that has failed
  have later {m m' : Moment c} (hstarts : m.Starts m')
      (h : limit = maxGenericDepth ∧ ∃ m'' : Moment c, m'.Within m'' ∧ m''.Refuses location base) :
      limit = maxGenericDepth ∧ ∃ m'' : Moment c, m.Within m'' ∧ m''.Refuses location base := by
    obtain ⟨hlimit, m'', hwithin, hrefuses⟩ := h
    exact ⟨hlimit, m'', .head hstarts hwithin, hrefuses⟩
  induction h with
  | nil => cases hout
  | cons => cases hout
  | consHead _ ih =>
    cases hout
    exact later .head (ih rfl)
  | consTail hhead _ _ ihTail =>
    cases hout
    exact later (.tail hhead) (ihTail rfl)
  | built => cases hout
  | builtFault he _ ih =>
    cases hout
    exact later (.parts he) (ih rfl)
  | bound => cases hout
  | named he hs hi hargs _ _ ihName => exact later (.apply he hs hi hargs) (ihName hout)
  | namedFault he hs hi _ ih =>
    cases hout
    exact later (.args he hs hi) (ih rfl)
  | misapplied _ _ hi =>
    cases hout
    exact absurd hi Catalog.applied_ne_recursionLimit
  | unbound => cases hout
  | callable => cases hout
  | pending => cases hout
  | known => cases hout
  | deep hp hk hd =>
    cases hout
    exact ⟨rfl, _, .refl, ⟨_, _, hd.1, rfl, (Runs.deep hp hk hd).eq⟩, hd.2⟩
  | expanded => exact absurd (referenceTo_eq_error.mp hout) Registry.fill_ne_recursionLimit
  | expandedFault hp hk hd _ ih =>
    cases hout
    exact later (.body hp hk hd) (ih rfl)

/-- Resolution terminates, whatever the catalog, the type and the resolver. Its tasks are not nested for ever, and a
call has an answer, a schema or a fault. At any moment in its course at most `maxGenericDepth` generic declarations are
being expanded, and every other declaration at most once; and the fault that tells of a limit was met by an
instantiation while exactly so many were being expanded. -/
theorem resolve_terminates :
    (WellFounded fun m' m : Moment c => m.Starts m') ∧ ∀ (e : TypeExpr) (origin : Location) (r : Resolver c),
      (∃ out r', Runs {} (.node [] origin e) r out r' ∧ (resolve e origin).run r = (out, r')) ∧
      (∀ m, (Moment.call e origin r).Within m → m.pending.generic.length ≤ maxGenericDepth ∧
        ∀ i, (c.get i).typeParams = [] → (m.pending.expansionsOf i).length ≤ 1) ∧
      ∀ location base limit r', (resolve e origin).run r = (.error (.recursionLimit location base limit), r') →
        limit = maxGenericDepth ∧ ∃ m, (Moment.call e origin r).Within m ∧ m.Refuses location base ∧
          m.pending.generic.length = maxGenericDepth := by
  refine ⟨Moment.wellFounded_starts, fun e origin r => ⟨?_, fun m hm => ?_, fun location base limit r' h => ?_⟩⟩
  · exact ⟨_, _, (Task.node [] origin e).runs {} r, rfl⟩
  · obtain ⟨-, hbounded⟩ := Moment.bounded_of_within hm
    exact ⟨hbounded.depth_eq.le.trans hbounded.depth_le, fun i hi => hbounded.length_expansionsOf_le hi⟩
  · have hrun : Runs {} (.node [] origin e) r (.error (.recursionLimit location base limit)) r' := runs_iff.mpr h
    obtain ⟨hlimit, m, hm, hrefuses⟩ := hrun.exists_refuses rfl
    obtain ⟨-, hbounded⟩ := Moment.bounded_of_within hm
    exact ⟨hlimit, m, hm, hrefuses, hbounded.depth_eq.trans (hbounded.depth_le.antisymm hrefuses.depth)⟩

/-! ### A tower

The limit is met by a chain of generic declarations, each of which uses the next. -/

/-- A tower of generic floors, each standing on the next one, with one floor too many. -/
def towerCatalog : Catalog where
  declarations := (List.range (maxGenericDepth + 1)).map fun n => {
    name := "Floor" ++ toString n
    typeParams := ["T"]
    body := .object [("below", ⟨.generic ("Floor" ++ toString (n + 1)) [.typeParameter "T"], true⟩)] false
    location := ⟨⟨"tower.rs"⟩, n, 0⟩ }

/-- A tower is given up when as many floors are being expanded as may be. -/
theorem resolve_terminates_tower : ∃ (location : Location) (base : String) (limit : Nat) (r' : Resolver towerCatalog),
    (resolve (.generic "Floor0" [.string]) ⟨⟨"tower.rs"⟩, 9, 0⟩).run {} =
        (.error (.recursionLimit location base limit), r') ∧
      ∃ m, (Moment.call (.generic "Floor0" [.string]) ⟨⟨"tower.rs"⟩, 9, 0⟩ ({} : Resolver towerCatalog)).Within m ∧
        m.Refuses location base ∧ m.pending.generic.length = maxGenericDepth ∧
        m.pending.generic.length ≤ maxGenericDepth := by
  have hlimit : (match ((resolve (.generic "Floor0" [.string]) ⟨⟨"tower.rs"⟩, 9, 0⟩).run
      ({} : Resolver towerCatalog)).1 with
      | .error (.recursionLimit _ _ _) => true
      | _ => false) = true := by
    rw [resolve_eq_within]
    decide +kernel
  rcases h : (resolve (.generic "Floor0" [.string]) ⟨⟨"tower.rs"⟩, 9, 0⟩).run ({} : Resolver towerCatalog)
    with ⟨fault | s, r'⟩
  · rw [h] at hlimit
    cases fault with
    | recursionLimit location base limit =>
      obtain ⟨-, hmoments, hfault⟩ :=
        resolve_terminates.2 (.generic "Floor0" [.string]) ⟨⟨"tower.rs"⟩, 9, 0⟩ ({} : Resolver towerCatalog)
      obtain ⟨-, m, hm, hrefuses, hlength⟩ := hfault location base limit r' h
      exact ⟨location, base, limit, r', rfl, m, hm, hrefuses, hlength, (hmoments m hm).1⟩
    | _ => cases hlimit
  · rw [h] at hlimit
    cases hlimit

end RouteManifest
