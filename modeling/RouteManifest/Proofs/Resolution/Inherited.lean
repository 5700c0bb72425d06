import RouteManifest.Proofs.Resolution.Closed
import RouteManifest.Proofs.Resolution.Moments

/-!
# What schemas have from their parts, at all times

Every schema that resolution ever has in hand is a `$ref` or was built from others. So whatever is true of references,
is passed on by building, and is not lost when the registry moves on (`Inherited`), is true of all schemas at all times:
of those that are registered, of those that a task is given and of those that it answers, in calls that fail as well as
in those that succeed.

There is one induction over runs for all such properties (`Runs.inherits`). To show a new property, what has to be given is
the structure `Inherited`, whose fields do not mention runs.
-/

namespace RouteManifest

/-- What schemas have from the schemas they are built from, in view of what is registered. -/
structure Inherited (P : Registry → Schema → Prop) : Prop where
  moves {r r' : Registry} {s : Schema} : Registry.Moves r r' → P r s → P r' s
  reference {r : Registry} {id : String} : P r (.reference id)
  build {r : Registry} {e : TypeExpr} {parts : List TypeExpr} {build : Registry → List Schema → Schema}
    {l : List Schema} : (∀ id s, r.get? id = some s → P r s) → e.form = .built parts build → (∀ s ∈ l, P r s) →
    P r (build r l)

variable {c : Catalog} {P : Registry → Schema → Prop}

/-- All registered schemas have a property. -/
structure Resolver.All (P : Registry → Schema → Prop) (r : Resolver c) : Prop where
  sound : r.registry.Sound
  registered : ∀ id s, r.registry.get? id = some s → P r.registry s

/-- In the beginning nothing is registered. -/
theorem Resolver.all_fresh (P : Registry → Schema → Prop) : ({} : Resolver c).All P :=
  ⟨Registry.sound_empty, fun _ _ h => by cases h⟩

namespace Inherited

/-- The beginning of an expansion registers nothing. -/
theorem opened (hP : Inherited P) {r : Resolver c} (hr : r.All P) (i : Fin c.size) (args : List Schema) :
    (r.opened i args).All P where
  sound := hr.sound.opened i args
  registered := by
    intro id s hs
    rw [Resolver.get?_opened] at hs
    exact hP.moves (Resolver.opened_moves _ _ _) (hr.registered id s hs)

theorem filled (hP : Inherited P) {r : Resolver c} (hr : r.All P) {body : Schema} (hbody : P r.registry body)
    (identity : Identity c) (id : String) (owner : Location) : (r.filled identity id body owner).All P := by
  have hmoves := r.registry.fill_moves id body owner
  refine ⟨hr.sound.moves hmoves, fun other s hs => ?_⟩
  rcases Registry.get?_fill hr.sound.names_nodup hs with hs | ⟨-, rfl, -⟩
  · exact hP.moves hmoves (hr.registered other s hs)
  · exact hP.moves hmoves hbody

theorem released (hP : Inherited P) {r : Resolver c} (hr : r.All P) (id : String) : (r.released id).All P := by
  have hmoves := r.registry.release_moves id
  refine ⟨hr.sound.moves hmoves, fun other s hs => hP.moves hmoves (hr.registered other s ?_)⟩
  exact Registry.get?_of_release hr.sound.names_nodup hs

end Inherited

/-- A task keeps what is inherited, and if it succeeds its answer has it. -/
theorem Runs.inherits (hP : Inherited P) {p : Pending c} {t : Task c} {r r' : Resolver c} {out : Except Fault t.Answer}
    (h : Runs p t r out r') (hr : r.All P) (hin : ∀ s ∈ t.inputs, P r.registry s) :
    r'.All P ∧ ∀ answer, out = .ok answer → ∀ s ∈ t.outputs answer, P r'.registry s := by
  have fails {r' : Resolver c} {t : Task c} {fault : Fault} (hr' : r'.All P) :
      r'.All P ∧ ∀ answer : t.Answer, Except.error fault = .ok answer → ∀ s ∈ t.outputs answer, P r'.registry s :=
    ⟨hr', fun _ h => by cases h⟩
  have refers {r' : Resolver c} {name : String} {i : Fin c.size} {args : List Schema} {origin : Location} {id : String}
      (hr' : r'.All P) : r'.All P ∧ ∀ answer, Except.ok (ε := Fault) (Schema.reference id) = .ok answer →
        ∀ s ∈ (Task.apply name i args origin).outputs answer, P r'.registry s := by
    refine ⟨hr', fun answer h s hs => ?_⟩
    cases h
    obtain rfl := List.mem_singleton.mp hs
    exact hP.reference
  -- what has been answered keeps what is inherited while the registry moves on
  induction h with
  | nil =>
    refine ⟨hr, fun answer h s hs => ?_⟩
    cases h
    cases hs
  | cons hhead htail ihHead ihTail =>
    obtain ⟨hr', hs⟩ := ihHead hr hin
    obtain ⟨hr'', hl⟩ := ihTail hr' fun s hs => hP.moves hhead.moves (hin s hs)
    refine ⟨hr'', fun answer h t ht => ?_⟩
    cases h
    rcases List.mem_cons.mp ht with rfl | ht
    · exact hP.moves htail.moves (hs t rfl t List.mem_cons_self)
    · exact hl _ rfl t ht
  | consHead _ ih => exact fails (ih hr hin).1
  | consTail hhead _ ihHead ihTail =>
    obtain ⟨hr', -⟩ := ihHead hr hin
    exact fails (ihTail hr' fun s hs => hP.moves hhead.moves (hin s hs)).1
  | built he _ ih =>
    obtain ⟨hr', hl⟩ := ih hr hin
    refine ⟨hr', fun answer h s hs => ?_⟩
    cases h
    obtain rfl := List.mem_singleton.mp hs
    exact hP.build hr'.registered he (hl _ rfl)
  | builtFault _ _ ih => exact fails (ih hr hin).1
  | bound _ hs =>
    refine ⟨hr, fun answer h s hmem => ?_⟩
    cases h
    obtain rfl := List.mem_singleton.mp hmem
    exact hin s (List.mem_map_of_mem (f := Prod.snd) (Table.mem_of_find? hs))
  | named _ _ _ _ _ ihArgs ihName =>
    obtain ⟨hr', hl⟩ := ihArgs hr hin
    exact ihName hr' (hl _ rfl)
  | namedFault _ _ _ _ ih => exact fails (ih hr hin).1
  | misapplied => exact fails hr
  | unbound => exact fails hr
  | callable => exact fails hr
  | pending => exact refers hr
  | known => exact refers hr
  | deep => exact fails hr
  | @expanded p name i args origin r body r' _ _ _ hrun ih =>
    obtain ⟨hr', hbody⟩ := ih (hP.opened hr i args) fun s hs =>
      hP.moves (Resolver.opened_moves _ _ _) (hin s (Declaration.mem_of_mem_scope hs))
    refine ⟨hP.filled hr' (hbody _ rfl _ List.mem_cons_self) _ _ _, fun answer h s hs => ?_⟩
    obtain ⟨id, -, rfl⟩ := referenceTo_eq_ok.mp h
    obtain rfl := List.mem_singleton.mp hs
    exact hP.reference
  | @expandedFault p name i args origin r fault r' _ _ _ hrun ih =>
    obtain ⟨hr', -⟩ := ih (hP.opened hr i args) fun s hs =>
      hP.moves (Resolver.opened_moves _ _ _) (hin s (Declaration.mem_of_mem_scope hs))
    exact fails (hP.released hr' _)

/-! ## At all times

The same said of moments, for what has to be known in the middle of a call. -/

/-- What is inherited is true of all that is registered at a moment, and of what the task is given. -/
structure Moment.All (P : Registry → Schema → Prop) (m : Moment c) : Prop where
  resolver : m.resolver.All P
  inputs : ∀ s ∈ m.task.inputs, P m.resolver.registry s

namespace Inherited

/-- A moment passes what is inherited on to the tasks that it starts. -/
theorem starts (hP : Inherited P) {m m' : Moment c} (hm : m.All P) (h : m.Starts m') : m'.All P := by
  obtain ⟨hr, hin⟩ := hm
  cases h with
  | head => exact ⟨hr, hin⟩
  | tail hhead => exact ⟨(hhead.inherits hP hr hin).1, fun s hs => hP.moves hhead.moves (hin s hs)⟩
  | parts => exact ⟨hr, hin⟩
  | args => exact ⟨hr, hin⟩
  | apply _ _ _ hargs =>
    obtain ⟨hr', hl⟩ := hargs.inherits hP hr hin
    exact ⟨hr', hl _ rfl⟩
  | @body p name i args origin r =>
    refine ⟨hP.opened hr i args, fun s hs => ?_⟩
    exact hP.moves (Resolver.opened_moves _ _ _) (hin s (Declaration.mem_of_mem_scope hs))

/-- After any calls all registered schemas have what is inherited. -/
theorem called (hP : Inherited P) {allowed : TypeExpr → Location → Except Fault Schema → Prop} {r : Resolver c}
    (hr : r.Called allowed) : r.All P :=
  hr.invariant (Resolver.all_fresh P) fun hr hrun _ => (hrun.inherits hP hr fun _ hs => by cases hs).1

/-- At every moment in the course of a call all schemas have what is inherited. -/
theorem within (hP : Inherited P) {allowed : TypeExpr → Location → Except Fault Schema → Prop} {r : Resolver c}
    (hr : r.Called allowed) {e : TypeExpr} {origin : Location} {m : Moment c} (hm : (Moment.call e origin r).Within m) :
    m.All P :=
  hm.invariant (fun hm hstarts => hP.starts hm hstarts) ⟨hP.called hr, fun _ hs => by cases hs⟩

end Inherited

end RouteManifest
