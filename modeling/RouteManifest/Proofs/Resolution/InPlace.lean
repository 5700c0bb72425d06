import Mathlib.Logic.Function.Basic
import RouteManifest.Proofs.Resolution.Runs

/-!
# Resolving in place

`resolve` is told on the way down what it needs to know: what the type parameters stand for, which expansions have
begun, and how deep they are nested. A resolver can as well have one state for everything: a table of ids where an
expansion is entered when it begins, a stack of scopes, and a counter of nested instantiations. Then it has to put back
what it changed at the end of an expansion, also when that has failed. `Works` is the resolver in place.

Both answer the same and leave the same behind (`resolve_works_iff`). In particular what is pushed is popped: between
two calls there is no scope on the stack, and the counter is zero.

The two are compared at every moment of a run. `Workbench.during` is what the resolver in place has got when some
expansions have begun, and each rule of `Runs` is matched by one of `Works` (`Runs.inPlace`). The other direction needs
no second induction: the resolver in place is determined (`Works.unique`), so it can do nothing else.
-/

namespace RouteManifest

variable {c : Catalog}

/-! ## The workbench

Everything that `resolve` hands down is kept in one place here and changed there. The table of ids holds the expansions
that have begun along with those that have ended, since an id is all that is asked of it. -/

/-- All that a resolver in place has. -/
structure Workbench (c : Catalog) where
  registry : Registry
  /-- the ids of the expansions that have begun, whether they have ended or not -/
  ids : Identity c → Option String
  /-- what type parameters stand for in the declarations that are being expanded, innermost first -/
  scopes : List (Table Schema)
  /-- how many instantiations of generic declarations are being expanded -/
  depth : Nat

namespace Workbench

/-- What a name stands for in the innermost scope. -/
def bound? (w : Workbench c) (name : String) : Option Schema := w.scopes.head?.bind fun scope => scope.find? name

/-- The id for the expansion of a declaration. -/
def expansionId (w : Workbench c) (i : Fin c.size) (args : List Schema) : String :=
  (w.registry.reserve ((c.get i).instanceName args) ((c.get i).externalId.isSome && args.isEmpty)).1

/-- Begins an expansion. -/
def begun (w : Workbench c) (i : Fin c.size) (args : List Schema) : Workbench c where
  registry :=
    (w.registry.reserve ((c.get i).instanceName args) ((c.get i).externalId.isSome && args.isEmpty)).2
  ids := Function.update w.ids (c.identity i args) (some (w.expansionId i args))
  scopes := (c.get i).scope args :: w.scopes
  depth := if args.isEmpty then w.depth else w.depth + 1

/-- Ends an expansion with these arguments. -/
def ended (w : Workbench c) (args : List Schema) : Workbench c :=
  { w with scopes := w.scopes.tail, depth := if args.isEmpty then w.depth else w.depth - 1 }

/-- Fills in the schema of an identity. -/
def filled (w : Workbench c) (identity : Identity c) (id : String) (schema : Schema) (owner : Location) : Workbench c :=
  { w with
    registry := (w.registry.fill id schema owner).2
    ids := Function.update w.ids identity (some ((w.registry.fill id schema owner).1.toOption.getD id)) }

/-- Gives up an expansion that has failed. -/
def released (w : Workbench c) (identity : Identity c) (id : String) : Workbench c :=
  { w with registry := w.registry.release id, ids := Function.update w.ids identity none }

end Workbench

/-! ## Working

What is to be done next is found out first, as a `Turn`, and then done by a rule of `Works`. -/

/-- What comes next for an expression. -/
inductive Turn (c : Catalog) where
  /-- to resolve the parts and put their schemas together -/
  | build (parts : List TypeExpr) (build : Registry → List Schema → Schema)
  /-- to apply a declaration, once the arguments are resolved -/
  | apply (name : String) (i : Fin c.size) (args : List TypeExpr)
  /-- nothing: this is the answer -/
  | answer (out : Except Fault Schema)

/-- What comes next for an expression that is written at a location. -/
def Workbench.turn (w : Workbench c) (origin : Location) (e : TypeExpr) : Turn c :=
  match e.form with
  | .built parts build => .build parts build
  | .named name args =>
    match if args.isEmpty then w.bound? name else none with
    | some s => .answer (.ok s)
    | none =>
      match c.applied name args.length origin with
      | .ok i => .apply name i args
      | .error fault => .answer (.error fault)
  | .parameter name =>
    match w.bound? name with
    | some s => .answer (.ok s)
    | none => .answer (.error (.unboundTypeParameter origin name))
  | .callable => .answer (.error (.unsupportedType origin .functionType))

/-- Something to resolve in place. -/
inductive Job (c : Catalog) where
  | node (origin : Location) (e : TypeExpr)
  | list (origin : Location) (es : List TypeExpr)
  | apply (name : String) (i : Fin c.size) (args : List Schema) (origin : Location)

/-- What a job answers. -/
abbrev Job.Answer : Job c → Type
  | .node _ _ => Schema
  | .list _ _ => List Schema
  | .apply _ _ _ _ => Schema

/-- How jobs are done in place. -/
inductive Works : (j : Job c) → Workbench c → Except Fault j.Answer → Workbench c → Prop where
  | nil {origin w} : Works (.list origin []) w (.ok []) w
  | cons {origin e es w s w' out w''} :
      Works (.node origin e) w (.ok s) w' → Works (.list origin es) w' out w'' →
      Works (.list origin (e :: es)) w (out.map fun l => s :: l) w''
  | consFault {origin e es w fault w'} :
      Works (.node origin e) w (.error fault) w' → Works (.list origin (e :: es)) w (.error fault) w'
  | answered {origin e w out} : w.turn origin e = .answer out → Works (.node origin e) w out w
  | built {origin e parts build w out w'} :
      w.turn origin e = .build parts build → Works (.list origin parts) w out w' →
      Works (.node origin e) w (out.map (build w'.registry)) w'
  | named {origin e name i args w l w' out w''} :
      w.turn origin e = .apply name i args → Works (.list origin args) w (.ok l) w' →
      Works (.apply name i l origin) w' out w'' → Works (.node origin e) w out w''
  | namedFault {origin e name i args w fault w'} :
      w.turn origin e = .apply name i args → Works (.list origin args) w (.error fault) w' →
      Works (.node origin e) w (.error fault) w'
  /-- an expansion that has begun, and may have ended -/
  | known {name i args origin w id} :
      w.ids (c.identity i args) = some id → Works (.apply name i args origin) w (.ok (.reference id)) w
  | deep {name i args origin w} :
      w.ids (c.identity i args) = none → args ≠ [] ∧ maxGenericDepth ≤ w.depth →
      Works (.apply name i args origin) w (.error (.recursionLimit origin name maxGenericDepth)) w
  | expanded {name i args origin w body w'} :
      w.ids (c.identity i args) = none → ¬(args ≠ [] ∧ maxGenericDepth ≤ w.depth) →
      Works (.node (c.get i).location (c.get i).body) (w.begun i args) (.ok body) w' →
      Works (.apply name i args origin) w
        (referenceTo (w'.registry.fill (w.expansionId i args) body (c.get i).location).1)
        ((w'.ended args).filled (c.identity i args) (w.expansionId i args) body (c.get i).location)
  | expandedFault {name i args origin w fault w'} :
      w.ids (c.identity i args) = none → ¬(args ≠ [] ∧ maxGenericDepth ≤ w.depth) →
      Works (.node (c.get i).location (c.get i).body) (w.begun i args) (.error fault) w' →
      Works (.apply name i args origin) w (.error fault)
        ((w'.ended args).released (c.identity i args) (w.expansionId i args))

/-! ### One turn at a time

The task and the workbench decide the turn, so two runs of the resolver in place from one state are one run. -/

section Inversion

variable {w w' : Workbench c} {origin : Location} {e : TypeExpr} {name : String} {i : Fin c.size} {args : List Schema}

/-- An expression that is answered at once has that answer, and nothing changes. -/
theorem Works.of_answer {out out' : Except Fault Schema} (hturn : w.turn origin e = .answer out)
    (h : Works (.node origin e) w out' w') : out' = out ∧ w' = w := by
  cases h with
  | answered hturn' =>
    cases hturn.symm.trans hturn'
    exact ⟨rfl, rfl⟩
  | built hturn' => cases hturn.symm.trans hturn'
  | named hturn' => cases hturn.symm.trans hturn'
  | namedFault hturn' => cases hturn.symm.trans hturn'

/-- An expression with parts is answered when they are. -/
theorem Works.of_build {parts : List TypeExpr} {build : Registry → List Schema → Schema} {out' : Except Fault Schema}
    (hturn : w.turn origin e = .build parts build) (h : Works (.node origin e) w out' w') :
    ∃ out, Works (.list origin parts) w out w' ∧ out' = out.map (build w'.registry) := by
  cases h with
  | answered hturn' => cases hturn.symm.trans hturn'
  | built hturn' hparts =>
    cases hturn.symm.trans hturn'
    exact ⟨_, hparts, rfl⟩
  | named hturn' => cases hturn.symm.trans hturn'
  | namedFault hturn' => cases hturn.symm.trans hturn'

/-- A name is applied when its arguments are there, and fails if they do. -/
theorem Works.of_apply {exprs : List TypeExpr} {out' : Except Fault Schema}
    (hturn : w.turn origin e = .apply name i exprs) (h : Works (.node origin e) w out' w') :
    (∃ l middle, Works (.list origin exprs) w (.ok l) middle ∧ Works (.apply name i l origin) middle out' w') ∨
      ∃ fault, Works (.list origin exprs) w (.error fault) w' ∧ out' = .error fault := by
  cases h with
  | answered hturn' => cases hturn.symm.trans hturn'
  | built hturn' => cases hturn.symm.trans hturn'
  | named hturn' hargs hname =>
    cases hturn.symm.trans hturn'
    exact Or.inl ⟨_, _, hargs, hname⟩
  | namedFault hturn' hargs =>
    cases hturn.symm.trans hturn'
    exact Or.inr ⟨_, hargs, rfl⟩

/-- An identity with an id is answered by it, be it pending or known. -/
theorem Works.of_known {id : String} {out' : Except Fault Schema} (hid : w.ids (c.identity i args) = some id)
    (h : Works (.apply name i args origin) w out' w') : out' = .ok (.reference id) ∧ w' = w := by
  cases h with
  | known hid' =>
    cases hid.symm.trans hid'
    exact ⟨rfl, rfl⟩
  | deep hid' => cases hid.symm.trans hid'
  | expanded hid' => cases hid.symm.trans hid'
  | expandedFault hid' => cases hid.symm.trans hid'

/-- One instantiation too many is refused. -/
theorem Works.of_deep {out' : Except Fault Schema} (hid : w.ids (c.identity i args) = none)
    (hdepth : args ≠ [] ∧ maxGenericDepth ≤ w.depth) (h : Works (.apply name i args origin) w out' w') :
    out' = .error (.recursionLimit origin name maxGenericDepth) ∧ w' = w := by
  cases h with
  | known hid' => cases hid.symm.trans hid'
  | deep => exact ⟨rfl, rfl⟩
  | expanded _ hdepth' => exact absurd hdepth hdepth'
  | expandedFault _ hdepth' => exact absurd hdepth hdepth'

/-- Anything else is expanded, and ends or fails as its body does. -/
theorem Works.of_expands {out' : Except Fault Schema} (hid : w.ids (c.identity i args) = none)
    (hdepth : ¬(args ≠ [] ∧ maxGenericDepth ≤ w.depth)) (h : Works (.apply name i args origin) w out' w') :
    (∃ body middle, Works (.node (c.get i).location (c.get i).body) (w.begun i args) (.ok body) middle ∧
      out' = referenceTo (middle.registry.fill (w.expansionId i args) body (c.get i).location).1 ∧
      w' = (middle.ended args).filled (c.identity i args) (w.expansionId i args) body (c.get i).location) ∨
    ∃ fault middle, Works (.node (c.get i).location (c.get i).body) (w.begun i args) (.error fault) middle ∧
      out' = .error fault ∧ w' = (middle.ended args).released (c.identity i args) (w.expansionId i args) := by
  cases h with
  | known hid' => cases hid.symm.trans hid'
  | deep _ hdepth' => exact absurd hdepth' hdepth
  | expanded _ _ hbody => exact Or.inl ⟨_, _, hbody, rfl, rfl⟩
  | expandedFault _ _ hbody => exact Or.inr ⟨_, _, hbody, rfl, rfl⟩

end Inversion

/-- The answer and the state afterwards are determined. -/
theorem Works.unique {j : Job c} {w w₁ w₂ : Workbench c} {out₁ out₂ : Except Fault j.Answer}
    (h₁ : Works j w out₁ w₁) (h₂ : Works j w out₂ w₂) : out₁ = out₂ ∧ w₁ = w₂ := by
  -- the second takes the same turn as the first, and what it does in it is determined part by part
  induction h₁ generalizing w₂ with
  | nil =>
    cases h₂
    exact ⟨rfl, rfl⟩
  | cons _ _ ihHead ihTail =>
    cases h₂ with
    | cons hhead htail =>
      obtain ⟨hs, rfl⟩ := ihHead hhead
      cases hs
      obtain ⟨rfl, rfl⟩ := ihTail htail
      exact ⟨rfl, rfl⟩
    | consFault hhead => cases (ihHead hhead).1
  | consFault _ ih =>
    cases h₂ with
    | cons hhead => cases (ih hhead).1
    | consFault hhead =>
      obtain ⟨hfault, rfl⟩ := ih hhead
      cases hfault
      exact ⟨rfl, rfl⟩
  | answered hturn =>
    obtain ⟨rfl, rfl⟩ := h₂.of_answer hturn
    exact ⟨rfl, rfl⟩
  | built hturn _ ih =>
    obtain ⟨out, hparts, rfl⟩ := h₂.of_build hturn
    obtain ⟨rfl, rfl⟩ := ih hparts
    exact ⟨rfl, rfl⟩
  | named hturn _ _ ihArgs ihName =>
    rcases h₂.of_apply hturn with ⟨l, middle, hargs, hname⟩ | ⟨fault, hargs, -⟩
    · obtain ⟨hl, rfl⟩ := ihArgs hargs
      cases hl
      exact ihName hname
    · cases (ihArgs hargs).1
  | namedFault hturn _ ih =>
    rcases h₂.of_apply hturn with ⟨l, middle, hargs, -⟩ | ⟨fault, hargs, rfl⟩
    · cases (ih hargs).1
    · obtain ⟨hfault, rfl⟩ := ih hargs
      cases hfault
      exact ⟨rfl, rfl⟩
  | known hid =>
    obtain ⟨rfl, rfl⟩ := h₂.of_known hid
    exact ⟨rfl, rfl⟩
  | deep hid hdepth =>
    obtain ⟨rfl, rfl⟩ := h₂.of_deep hid hdepth
    exact ⟨rfl, rfl⟩
  | expanded hid hdepth _ ih =>
    rcases h₂.of_expands hid hdepth with ⟨body, middle, hbody, rfl, rfl⟩ | ⟨fault, middle, hbody, -, -⟩
    · obtain ⟨hs, rfl⟩ := ih hbody
      cases hs
      exact ⟨rfl, rfl⟩
    · cases (ih hbody).1
  | expandedFault hid hdepth _ ih =>
    rcases h₂.of_expands hid hdepth with ⟨body, middle, hbody, -, -⟩ | ⟨fault, middle, hbody, rfl, rfl⟩
    · cases (ih hbody).1
    · obtain ⟨hfault, rfl⟩ := ih hbody
      cases hfault
      exact ⟨rfl, rfl⟩

/-! ## The two resolvers

What is pending and what is known are two lists on the one side and one table on the other. As long as an expansion has
not ended its identity is on one of the lists only, so the table can be restored from them. -/

/-- What a resolver in place has in the middle of a run. -/
def Workbench.during (p : Pending c) (scopes : List (Table Schema)) (r : Resolver c) : Workbench c where
  registry := r.registry
  ids := fun identity => (p.id? identity).or (r.id? identity)
  scopes := scopes
  depth := p.depth

/-- What a resolver in place has between two calls. -/
def Resolver.idle (r : Resolver c) : Workbench c where
  registry := r.registry
  ids := r.id?
  scopes := []
  depth := 0

/-- A task is done in place. -/
def Task.InPlace : (t : Task c) → Workbench c → Except Fault t.Answer → Workbench c → Prop
  | .node _ origin e => Works (.node origin e)
  | .list _ origin es => Works (.list origin es)
  | .apply name i args origin => Works (.apply name i args origin)

/-- The scope of a task is on top of the stack. -/
def Task.OnStack (scopes : List (Table Schema)) : Task c → Prop
  | .node scope _ _ => scopes.headD [] = scope
  | .list scope _ _ => scopes.headD [] = scope
  | .apply _ _ _ _ => True

/-- As long as an expansion has not ended its identity is not known. -/
theorem Runs.unknown {p : Pending c} {t : Task c} {r r' : Resolver c} {out : Except Fault t.Answer}
    (h : Runs p t r out r') {identity : Identity c} (hpending : (p.id? identity).isSome = true)
    (hr : r.id? identity = none) : r'.id? identity = none := by
  refine h.invariant (P := fun p r => (p.id? identity).isSome = true → r.id? identity = none)
    (fun i args _ hk ih hpending => ?_) (fun i args _ _ hp ih hpending => ?_) (fun i args _ ih hpending => ?_)
    (fun _ => hr) hpending
  · by_cases heq : identity = c.identity i args
    · rw [heq]
      exact hk
    · rw [Pending.id?_push_of_ne heq] at hpending
      exact ih hpending
  · have hne : identity ≠ c.identity i args := by
      rintro rfl
      rw [hp] at hpending
      cases hpending
    rw [Resolver.id?_filled_of_ne hne]
    exact ih (by rwa [Pending.id?_push_of_ne hne])
  · refine ih ?_
    by_cases heq : identity = c.identity i args
    · rw [heq, Pending.id?_push_self]
      rfl
    · rwa [Pending.id?_push_of_ne heq]

namespace Workbench

section Turn

variable {w : Workbench c} {origin : Location} {e : TypeExpr} {name : String}

/-! ### Matching the rules

For every rule of `Runs` there is the turn that the resolver in place takes at the same moment. -/

/-- A name that is bound is answered at once. -/
theorem turn_bound {s : Schema} (he : e.form = .named name [] ∨ e.form = .parameter name)
    (hs : w.bound? name = some s) : w.turn origin e = .answer (.ok s) := by
  rcases he with he | he
  · simp [turn, he, hs]
  · simp [turn, he, hs]

/-- Any other name is looked up first. -/
theorem turn_named {args : List TypeExpr} (he : e.form = .named name args) (hs : args = [] → w.bound? name = none) :
    w.turn origin e =
      match c.applied name args.length origin with
      | .ok i => .apply name i args
      | .error fault => .answer (.error fault) := by
  have hbound : (if args.isEmpty then w.bound? name else none) = none := by
    split
    next hempty => exact hs (List.isEmpty_iff.mp hempty)
    · rfl
  simp only [turn, he, hbound]

/-- If a name can be applied, its arguments are next. -/
theorem turn_apply {args : List TypeExpr} (he : e.form = .named name args) (hs : args = [] → w.bound? name = none)
    {i : Fin c.size} (hi : c.applied name args.length origin = .ok i) : w.turn origin e = .apply name i args := by
  rw [turn_named he hs, hi]

theorem turn_fault {args : List TypeExpr} (he : e.form = .named name args) (hs : args = [] → w.bound? name = none)
    {fault : Fault} (hi : c.applied name args.length origin = .error fault) :
    w.turn origin e = .answer (.error fault) := by
  rw [turn_named he hs, hi]

end Turn

variable {p : Pending c} {scopes : List (Table Schema)} {r : Resolver c}

/-! ### The workbench during a run

What is on the workbench when some expansions have begun is a function of what is pending, the scopes around the task,
and the resolver. Here it is followed through the beginning and the end of an expansion. -/

/-- What a name stands for is looked up on top of the stack. -/
theorem bound?_during {scope : Table Schema} (h : scopes.headD [] = scope) (name : String) :
    (during p scopes r).bound? name = scope.find? name := by
  subst h
  cases scopes <;> rfl

theorem unbound_during {scope : Table Schema} {args : List TypeExpr} {name : String} (h : scopes.headD [] = scope)
    (hs : args = [] → scope.find? name = none) : args = [] → (during p scopes r).bound? name = none :=
  fun hargs => (bound?_during h name).trans (hs hargs)

/-- An id is looked up among those that are pending first. -/
theorem ids_during (identity : Identity c) :
    (during p scopes r).ids identity = (p.id? identity).or (r.id? identity) := rfl

section Expansion

variable {i : Fin c.size} {args : List Schema} {id : String}

/-- Entering an id in the table is putting its identity on the list of what is pending. -/
theorem ids_push (identity : Identity c) (id : String) (known : Identity c → Option String) :
    (fun other => ((p.push identity id).id? other).or (known other)) =
      Function.update (fun other => (p.id? other).or (known other)) identity (some id) := by
  funext other
  rw [Function.update_apply]
  by_cases h : other = identity
  · rw [if_pos h, h, Pending.id?_push_self]
    rfl
  · rw [if_neg h, Pending.id?_push_of_ne h]

/-- Only an instantiation with arguments is counted. -/
theorem depth_push : (p.push (c.identity i args) id).depth = if args.isEmpty then p.depth else p.depth + 1 := by
  simp [Pending.push, Catalog.identity]

/-- An expansion begins on both sides alike. -/
theorem during_begun (i : Fin c.size) (args : List Schema) :
    (during p scopes r).begun i args =
      during (p.push (c.identity i args) (r.expansionId i args)) ((c.get i).scope args :: scopes)
        (r.opened i args) := by
  rw [during, during, ids_push, depth_push]
  rfl

/-- When an expansion ends the stack and the counter are as they were. -/
theorem during_ended (scope : Table Schema) :
    (during (p.push (c.identity i args) id) (scope :: scopes) r).ended args =
      { during p scopes r with ids := Function.update (during p scopes r).ids (c.identity i args) (some id) } := by
  rw [ended, during, ids_push, depth_push]
  cases args <;> rfl

/-- An expansion that ends is not pending any more, and known. -/
theorem during_filled (hp : p.id? (c.identity i args) = none) (scope : Table Schema) (body : Schema)
    (owner : Location) :
    ((during (p.push (c.identity i args) id) (scope :: scopes) r).ended args).filled (c.identity i args) id body owner =
      during p scopes (r.filled (c.identity i args) id body owner) := by
  have hids : Function.update (during p scopes r).ids (c.identity i args)
      (some ((r.registry.fill id body owner).1.toOption.getD id)) =
        (during p scopes (r.filled (c.identity i args) id body owner)).ids := by
    funext other
    rw [Function.update_apply, ids_during, ids_during]
    by_cases h : other = c.identity i args
    · rw [if_pos h, h, hp, Resolver.id?_filled_self]
      rfl
    · rw [if_neg h, Resolver.id?_filled_of_ne h]
  rw [during_ended, filled]
  simp only [Function.update_idem]
  exact congrArg (fun ids => (⟨_, ids, scopes, p.depth⟩ : Workbench c)) hids

/-- An expansion that fails is not pending any more, and not known. -/
theorem during_released (hp : p.id? (c.identity i args) = none) (hr : r.id? (c.identity i args) = none)
    (scope : Table Schema) :
    ((during (p.push (c.identity i args) id) (scope :: scopes) r).ended args).released (c.identity i args) id =
      during p scopes (r.released id) := by
  rw [during_ended, released]
  simp only [Function.update_idem]
  have hids : Function.update (during p scopes r).ids (c.identity i args) none = (during p scopes r).ids := by
    rw [Function.update_eq_self_iff, ids_during, hp, hr]
    rfl
  rw [hids]
  rfl

end Expansion

end Workbench

/-! ### Rule by rule

With this each rule of `Runs` turns into one of `Works`, and whatever was changed is put back. -/

/-- What a task does is what is done in place, and the stack and the counter are put back. -/
theorem Runs.inPlace {p : Pending c} {t : Task c} {r r' : Resolver c} {out : Except Fault t.Answer}
    (h : Runs p t r out r') {scopes : List (Table Schema)} (hscoped : t.OnStack scopes) :
    t.InPlace (.during p scopes r) out (.during p scopes r') := by
  induction h generalizing scopes with
  | nil => exact .nil
  | cons _ _ ihHead ihTail => exact .cons (ihHead hscoped) (ihTail hscoped)
  | consHead _ ih => exact .consFault (ih hscoped)
  | consTail _ _ ihHead ihTail => exact .cons (ihHead hscoped) (ihTail hscoped)
  | built he _ ih => exact .built (by rw [Workbench.turn, he]) (ih hscoped)
  | builtFault he _ ih => exact .built (by rw [Workbench.turn, he]) (ih hscoped)
  | bound he hs => exact .answered (Workbench.turn_bound he ((Workbench.bound?_during hscoped _).trans hs))
  | named he hs hi _ _ ihArgs ihName =>
    exact .named (Workbench.turn_apply he (Workbench.unbound_during hscoped hs) hi) (ihArgs hscoped) (ihName trivial)
  | namedFault he hs hi _ ih =>
    exact .namedFault (Workbench.turn_apply he (Workbench.unbound_during hscoped hs) hi) (ih hscoped)
  | misapplied he hs hi => exact .answered (Workbench.turn_fault he (Workbench.unbound_during hscoped hs) hi)
  | unbound he hs =>
    exact .answered (by simp only [Workbench.turn, he, Workbench.bound?_during hscoped, hs])
  | callable he => exact .answered (by rw [Workbench.turn, he])
  | pending hid => exact .known (by rw [Workbench.ids_during, hid]; rfl)
  | known hp hid => exact .known (by rw [Workbench.ids_during, hp, hid]; rfl)
  | deep hp hk hd => exact .deep (by rw [Workbench.ids_during, hp, hk]; rfl) hd
  | @expanded p name i args origin r body r' hp hk hd _ ih =>
    -- the body is resolved with its own scope on top, and what it has pushed is gone at its end
    have hbody := @ih ((c.get i).scope args :: scopes) rfl
    rw [← Workbench.during_begun] at hbody
    have hworks : Works (.apply name i args origin) (.during p scopes r) _ _ :=
      .expanded (by rw [Workbench.ids_during, hp, hk]; rfl) hd hbody
    exact Workbench.during_filled hp _ body _ ▸ hworks
  | @expandedFault p name i args origin r fault r' hp hk hd hfails ih =>
    have hbody := @ih ((c.get i).scope args :: scopes) rfl
    rw [← Workbench.during_begun] at hbody
    have hworks : Works (.apply name i args origin) (.during p scopes r) _ _ :=
      .expandedFault (by rw [Workbench.ids_during, hp, hk]; rfl) hd hbody
    have hunknown : r'.id? (c.identity i args) = none :=
      hfails.unknown (by rw [Pending.id?_push_self]; rfl) hk
    exact Workbench.during_released hp hunknown _ ▸ hworks

/-- A call is answered in place as it is by `resolve` and by nothing else, with nothing left on the stack or counted. -/
theorem resolve_works_iff {e : TypeExpr} {origin : Location} {r : Resolver c} {out : Except Fault Schema}
    {w : Workbench c} : Works (.node origin e) r.idle out w ↔
      out = ((resolve e origin).run r).1 ∧ w = ((resolve e origin).run r).2.idle := by
  have hscoped : (Task.node [] origin e : Task c).OnStack [] := rfl
  have hworks : Works (.node origin e) r.idle ((resolve e origin).run r).1 ((resolve e origin).run r).2.idle :=
    (Task.runs {} (.node [] origin e) r).inPlace hscoped
  constructor
  · intro h
    exact h.unique hworks
  · rintro ⟨rfl, rfl⟩
    exact hworks

end RouteManifest
