import RouteManifest.Proofs.Table
import RouteManifest.Resolution.Basic

/-!
# Runs of the resolution

`resolveNode` and `expand` say how a schema is computed; `Runs` says the same as a relation between a task,
the resolver before, the answer and the resolver after. There is one rule for every way that a task can go,
so what holds of all resolutions is shown by one induction over the rules, with the whole state at hand at
every step.

Expressions come in few *forms*: one that is built from its parts, and one that stands for something
declared elsewhere. The rules speak of forms, and `TypeExpr.form` is the only place that looks at the kind
of an expression. What becomes of the state is said by the rules for expansions alone: it changes when an
expansion begins (`Resolver.opened`), ends (`Resolver.filled`) or fails (`Resolver.released`), and whatever
those three keep is kept by every run (`Runs.invariant`).

`Runs.eq` and `Task.runs` together say that the relation is the graph of the functions. That every task
runs is where termination comes in: parts are smaller than the expression, and an expansion within another
comes nearer to the limit on depth or takes one of the finitely many declarations.
-/

namespace RouteManifest

/-! ## Forms

All kinds of expressions come to four forms: built from parts, a type parameter, a name with arguments, or a function
type. A union is the one whose parts are not its own subexpressions, since unions inside it are flattened first. -/

/-- What there is to do for an expression. -/
inductive Form where
  /-- resolve the parts and put their schemas together -/
  | built (parts : List TypeExpr) (build : Registry → List Schema → Schema)
  /-- find out what a name stands for -/
  | named (name : String) (args : List TypeExpr)
  /-- find out what a type parameter stands for -/
  | parameter (name : String)
  /-- there is no schema -/
  | callable

namespace TypeExpr

/-- The names of the properties that an object must have. -/
def requiredNames (properties : Table (Member TypeExpr)) : List String :=
  properties.filterMap fun (name, member) => if member.required then some name else none

/-- The variants of a union, those of unions among them included. Variants that mean null are left out. -/
def proper (variants : List TypeExpr) : List TypeExpr := (flatten variants).filter fun v => !v.isNullLike

/-- The schema of a union, given the schema of its proper variants. -/
def orNullOf (variants : List TypeExpr) (schema : Schema) : Schema :=
  if (flatten variants).any isNullLike then schema.orNull else schema

/-- What there is to do for the expression. -/
def form : TypeExpr → Form
  | .primitive kind => .built [] fun _ _ => .ofPrimitive kind
  | .object properties closed =>
    .built ((Table.values properties).map Member.node) fun _ schemas =>
      .object ((Table.names properties).zip schemas) (requiredNames properties) closed
  | .map value =>
    .built [value] fun _ schemas =>
      .mk { type := some "object", additional := some (.schema (schemas.headD default)) }
  | .array element => .built [element] fun _ schemas => .array (schemas.headD default)
  | .tuple elements =>
    .built elements fun _ schemas => .mk {
      type := some "array"
      prefixItems := some schemas
      minItems := some schemas.length
      maxItems := some schemas.length }
  | .union variants =>
    if (proper variants).isEmpty then .built [] fun _ _ => .typed "null"
    else
      match commonLiterals? (proper variants) with
      | some literals => .built [] fun _ _ => orNullOf variants (.ofLiterals literals)
      | none => .built (proper variants) fun registry schemas => orNullOf variants (registry.oneOf schemas)
  | .intersection members => .built members fun registry schemas => registry.allOf schemas
  | .enumeration literals => .built [] fun _ _ => .ofLiterals literals
  | .literal value => .built [] fun _ _ => .ofLiterals [value]
  | .reference name => .named name []
  | .generic base args => .named base args
  | .typeParameter name => .parameter name
  | .callable => .callable

end TypeExpr

namespace TypeExpr

/-- A union is built, in one way or another; it never stands for a declaration. -/
theorem form_union (variants : List TypeExpr) :
    ∃ parts build, (TypeExpr.union variants).form = .built parts build := by
  rw [form]
  split
  · exact ⟨_, _, rfl⟩
  · split <;> exact ⟨_, _, rfl⟩

/-- The three ways to build the schema of a union. -/
inductive UnionForm (variants : List TypeExpr) : List TypeExpr → (Registry → List Schema → Schema) → Prop where
  /-- null is all there is -/
  | null : proper variants = [] → UnionForm variants [] fun _ _ => .typed "null"
  /-- the variants are values -/
  | literals {values : List Literal} : proper variants ≠ [] → commonLiterals? (proper variants) = some values →
      UnionForm variants [] fun _ _ => orNullOf variants (.ofLiterals values)
  | alternatives : proper variants ≠ [] → commonLiterals? (proper variants) = none →
      UnionForm variants (proper variants) fun registry schemas => orNullOf variants (registry.oneOf schemas)

/-- A union is built in one of the three ways. -/
theorem unionForm {variants parts : List TypeExpr} {build : Registry → List Schema → Schema}
    (h : (TypeExpr.union variants).form = .built parts build) : UnionForm variants parts build := by
  rw [form] at h
  split at h
  next hempty =>
    cases h
    exact .null (List.isEmpty_iff.mp hempty)
  next hne =>
    have hne : proper variants ≠ [] := by simpa using hne
    split at h
    next hliterals =>
      cases h
      exact .literals hne hliterals
    next hnone =>
      cases h
      exact .alternatives hne hnone

/-- Names stand alone or with arguments, and no other expression is one. -/
theorem form_eq_named {e : TypeExpr} {name : String} {args : List TypeExpr} (h : e.form = .named name args) :
    e = .generic name args ∨ e = .reference name ∧ args = [] := by
  cases e with
  | reference n => cases h; exact Or.inr ⟨rfl, rfl⟩
  | generic base as => cases h; exact Or.inl rfl
  | union variants =>
    obtain ⟨_, _, hu⟩ := form_union variants
    rw [hu] at h
    cases h
  | _ => cases h

/-- Nothing but a type parameter is treated as one. -/
theorem form_eq_parameter {e : TypeExpr} {name : String} (h : e.form = .parameter name) :
    e = .typeParameter name := by
  cases e with
  | typeParameter n => cases h; rfl
  | union variants =>
    obtain ⟨_, _, hu⟩ := form_union variants
    rw [hu] at h
    cases h
  | _ => cases h

/-- Nothing but a function type is refused as one. -/
theorem form_eq_callable {e : TypeExpr} (h : e.form = .callable) : e = .callable := by
  cases e with
  | callable => rfl
  | union variants =>
    obtain ⟨_, _, hu⟩ := form_union variants
    rw [hu] at h
    cases h
  | _ => cases h

/-- Variants of which none is a union are flat. -/
theorem flatten_eq_self {variants : List TypeExpr} (h : ∀ v ∈ variants, ∀ inner, v ≠ .union inner) :
    flatten variants = variants := by
  induction variants with
  | nil => rw [flatten]
  | cons v rest ih =>
    obtain ⟨hv, hrest⟩ := List.forall_mem_cons.mp h
    rw [flatten, ih hrest]
    exact hv

/-! ### Flattened variants

Flattening is defined by recursion on the size of a union. These are its laws, of which the last one says how to argue
about a variant without following how deep it was nested. -/

/-- Flattening leaves the variants that are no unions, and what it leaves of those that are. -/
theorem mem_flatten_iff {v : TypeExpr} {variants : List TypeExpr} :
    v ∈ flatten variants ↔
      (v ∈ variants ∧ ∀ inner, v ≠ .union inner) ∨ ∃ inner, .union inner ∈ variants ∧ v ∈ flatten inner := by
  induction variants using flatten.induct with
  | case1 => simp [flatten]
  | case2 inner rest _ ih =>
    rw [flatten, List.mem_append, ih]
    constructor
    · rintro (h | ⟨hmem, hnot⟩ | ⟨other, hmem, h⟩)
      · exact Or.inr ⟨inner, List.mem_cons_self, h⟩
      · exact Or.inl ⟨List.mem_cons_of_mem _ hmem, hnot⟩
      · exact Or.inr ⟨other, List.mem_cons_of_mem _ hmem, h⟩
    · rintro (⟨hmem, hnot⟩ | ⟨other, hmem, h⟩)
      · exact Or.inr (Or.inl ⟨(List.mem_cons.mp hmem).resolve_left (hnot inner), hnot⟩)
      · rcases List.mem_cons.mp hmem with heq | hmem
        · cases heq
          exact Or.inl h
        · exact Or.inr (Or.inr ⟨other, hmem, h⟩)
  | case3 variant rest hvariant ih =>
    rw [flatten, List.mem_cons, ih]
    · constructor
      · rintro (rfl | ⟨hmem, hnot⟩ | ⟨other, hmem, h⟩)
        · exact Or.inl ⟨List.mem_cons_self, hvariant⟩
        · exact Or.inl ⟨List.mem_cons_of_mem _ hmem, hnot⟩
        · exact Or.inr ⟨other, List.mem_cons_of_mem _ hmem, h⟩
      · rintro (⟨hmem, hnot⟩ | ⟨other, hmem, h⟩)
        · exact (List.mem_cons.mp hmem).imp_right fun hmem => Or.inl ⟨hmem, hnot⟩
        · have hmem := (List.mem_cons.mp hmem).resolve_left fun heq => hvariant other heq.symm
          exact Or.inr (Or.inr ⟨other, hmem, h⟩)
    · exact hvariant

/-- What holds where a variant is written, and is handed on to a union from those among its variants, holds wherever
flattening leaves the variant. -/
theorem flatten_induction {v : TypeExpr} {P : List TypeExpr → Prop}
    (here : ∀ variants, v ∈ variants → (∀ inner, v ≠ .union inner) → P variants)
    (inside : ∀ variants inner, .union inner ∈ variants → P inner → P variants) {variants : List TypeExpr}
    (h : v ∈ flatten variants) : P variants := by
  rcases mem_flatten_iff.mp h with ⟨hmem, hnot⟩ | ⟨inner, hmem, h⟩
  · exact here variants hmem hnot
  · exact inside variants inner hmem (flatten_induction here inside h)
termination_by sizeOf variants
decreasing_by
  have := List.sizeOf_lt_of_mem hmem
  rw [union.sizeOf_spec] at this
  omega

/-- Flattening goes inwards only, so what it leaves is smaller than the union. -/
theorem sizeOf_lt_of_mem_flatten {v : TypeExpr} {variants : List TypeExpr} (h : v ∈ flatten variants) :
    sizeOf v < sizeOf variants := by
  refine flatten_induction (fun variants hmem _ => List.sizeOf_lt_of_mem hmem) (fun variants inner hmem ih => ?_) h
  have := List.sizeOf_lt_of_mem hmem
  rw [union.sizeOf_spec] at this
  omega

/-- The parts of an expression are smaller than the expression. -/
theorem sizeOf_lt_of_mem_parts {e v : TypeExpr} {parts : List TypeExpr}
    {build : Registry → List Schema → Schema} (h : e.form = .built parts build) (hv : v ∈ parts) :
    sizeOf v < sizeOf e := by
  cases e with
  | object properties closed =>
    cases h
    obtain ⟨m, hm, rfl⟩ := List.mem_map.mp hv
    obtain ⟨⟨n, node, required⟩, hentry, rfl⟩ := List.mem_map.mp hm
    have := List.sizeOf_lt_of_mem hentry
    simp only [Prod.mk.sizeOf_spec, Member.mk.sizeOf_spec] at this ⊢
    rw [object.sizeOf_spec]
    omega
  | map | array =>
    cases h
    obtain rfl := List.mem_singleton.mp hv
    simp
  | tuple | intersection =>
    cases h
    have := List.sizeOf_lt_of_mem hv
    simp
    omega
  -- the parts of a union are leaves of it, which lie further inside than its variants
  | union variants =>
    cases unionForm h with
    | null | literals => cases hv
    | alternatives =>
      have := sizeOf_lt_of_mem_flatten ((List.mem_filter.mp hv).1)
      rw [union.sizeOf_spec]
      omega
  | primitive | enumeration | literal =>
    cases h
    cases hv
  | _ => cases h

/-- Arguments are smaller than the type that they are given to. -/
theorem sizeOf_lt_of_mem_args {e v : TypeExpr} {name : String} {args : List TypeExpr}
    (h : e.form = .named name args) (hv : v ∈ args) : sizeOf v < sizeOf e := by
  rcases form_eq_named h with rfl | ⟨rfl, rfl⟩
  · have := List.sizeOf_lt_of_mem hv
    rw [generic.sizeOf_spec]
    omega
  · cases hv

end TypeExpr

/-! ## Computations

What each operation of the monad does to the resolver, as an equation of its `run`. A fault does not undo anything, so
the resolver of a failing computation is the one at the point where it failed. -/

namespace Resolving

variable {c : Catalog} {α β : Type}

/-- Looking at the resolver changes nothing. -/
theorem run_get (r : Resolver c) : (get : Resolving c (Resolver c)).run r = (.ok r, r) := rfl

/-- What is computed without the resolver leaves it alone. -/
theorem run_lift (e : Except Fault α) (r : Resolver c) : (liftM e : Resolving c α).run r = (e, r) := by
  cases e <;> rfl

/-- The second computation starts from the resolver that the first one leaves, and not at all if that fails. -/
theorem run_bind (m : Resolving c α) (f : α → Resolving c β) (r : Resolver c) :
    (m >>= f).run r =
      match m.run r with
      | (.ok a, r') => (f a).run r'
      | (.error fault, r') => (.error fault, r') := by
  rw [ExceptT.run_bind]
  show StateT.bind m.run _ r = _
  rw [StateT.bind]
  rcases m.run r with ⟨_ | _, _⟩ <;> rfl

/-- What is done to the answer is not done to the resolver. -/
theorem run_map (f : α → β) (m : Resolving c α) (r : Resolver c) :
    (f <$> m).run r = ((m.run r).1.map f, (m.run r).2) := by
  rw [map_eq_pure_bind, run_bind]
  rcases m.run r with ⟨_ | _, _⟩ <;> rfl

/-- Catching a fault does not take back what was done before it. -/
theorem run_tryCatch (m : Resolving c α) (f : Fault → Resolving c α) (r : Resolver c) :
    (tryCatch m f).run r =
      match m.run r with
      | (.ok a, r') => (.ok a, r')
      | (.error fault, r') => (f fault).run r' := by
  show (ExceptT.tryCatch m f).run r = _
  rw [ExceptT.tryCatch, ExceptT.run_mk]
  show StateT.bind m.run _ r = _
  rw [StateT.bind]
  rcases m.run r with ⟨_ | _, _⟩ <;> rfl

/-- Reserving an id is done to the registry, and cannot fail. -/
theorem run_reserve (name : String) (explicit : Bool) (r : Resolver c) :
    (reserve name explicit : Resolving c String).run r =
      (.ok (r.registry.reserve name explicit).1, { r with registry := (r.registry.reserve name explicit).2 }) :=
  rfl

theorem run_release (id : String) (r : Resolver c) :
    (release id : Resolving c Unit).run r = (.ok (), { r with registry := r.registry.release id }) := rfl

/-- Filling an id is done to the registry, and the identity is remembered even if it is refused. -/
theorem run_fill (identity : Identity c) (id : String) (schema : Schema) (owner : Location) (r : Resolver c) :
    (fill identity id schema owner).run r =
      ((r.registry.fill id schema owner).1,
        { registry := (r.registry.fill id schema owner).2
          known := (identity, ((r.registry.fill id schema owner).1.toOption.getD id)) :: r.known }) := by
  rcases h : r.registry.fill id schema owner with ⟨_ | _, _⟩
  · simp only [fill, run_bind, run_get, h]
    rfl
  · simp only [fill, run_bind, run_get, h]
    rfl
end Resolving

/-! ## Tasks and runs

There are three things to resolve: one expression, several of them, and a declaration that is applied to schemas. The
resolver after a task belongs to the relation whether the task succeeds or fails. -/

/-- Something to resolve. -/
inductive Task (c : Catalog) where
  /-- an expression at a location, with what the type parameters stand for -/
  | node (scope : Table Schema) (origin : Location) (e : TypeExpr)
  /-- expressions, one after another -/
  | list (scope : Table Schema) (origin : Location) (es : List TypeExpr)
  /-- a declaration with resolved arguments, under a name that is written at a location -/
  | apply (name : String) (i : Fin c.size) (args : List Schema) (origin : Location)

namespace Task

variable {c : Catalog}

/-- What a task answers. -/
abbrev Answer : Task c → Type
  | .node _ _ _ => Schema
  | .list _ _ _ => List Schema
  | .apply _ _ _ _ => Schema

/-- The computation of a task while some expansions have begun. -/
def compute (p : Pending c) : (t : Task c) → Resolving c t.Answer
  | .node scope origin e => resolveNode (expand p) scope origin e
  | .list scope origin es => resolveList (expand p) scope origin es
  | .apply name i args origin => expand p name i args origin

end Task

/-- The identity of a declaration with resolved arguments. -/
def Catalog.identity (c : Catalog) (i : Fin c.size) (args : List Schema) : Identity c :=
  ⟨i, args.map Schema.fingerprint⟩

/-- The answer when an id is asked for that may be refused. -/
abbrev referenceTo (outcome : Except Fault String) : Except Fault Schema := outcome.map Schema.reference

/-- The answer is a reference if an id was granted. -/
theorem referenceTo_eq_ok {outcome : Except Fault String} {s : Schema} :
    referenceTo outcome = .ok s ↔ ∃ id, outcome = .ok id ∧ s = .reference id := by
  cases outcome with
  | error fault =>
    constructor
    · intro h
      cases h
    · rintro ⟨_, h, -⟩
      cases h
  | ok id =>
    constructor
    · intro h
      exact ⟨id, rfl, (Except.ok.inj h).symm⟩
    · rintro ⟨other, h, rfl⟩
      rw [Except.ok.inj h]
      rfl

/-- The answer is a fault if that was. -/
theorem referenceTo_eq_error {outcome : Except Fault String} {fault : Fault} :
    referenceTo outcome = .error fault ↔ outcome = .error fault := by
  cases outcome with
  | error other => exact ⟨fun h => congrArg _ (Except.error.inj h), fun h => congrArg _ (Except.error.inj h)⟩
  | ok id => exact ⟨nofun, nofun⟩

/-- What is looked up in a list of pairs is in it. -/
theorem mem_of_lookup {α β : Type} [DecidableEq α] {l : List (α × β)} {a : α} {b : β}
    (h : l.lookup a = some b) : (a, b) ∈ l := by
  obtain ⟨before, after, rfl, -⟩ := List.lookup_eq_some_iff.mp h
  exact List.mem_append_right _ List.mem_cons_self

/-- An expansion that has an id has begun. -/
theorem Pending.mem_of_id? {c : Catalog} {p : Pending c} {identity : Identity c} {id : String}
    (h : p.id? identity = some id) : (identity, id) ∈ p.identities := mem_of_lookup h

/-- What a type parameter stands for is one of the arguments. -/
theorem Declaration.mem_of_mem_scope {d : Declaration} {args : List Schema} {s : Schema}
    (h : s ∈ (d.scope args).values) : s ∈ args := by
  obtain ⟨⟨name, s⟩, hmem, rfl⟩ := List.mem_map.mp h
  exact (List.of_mem_zip (Table.mem_of_mem_ofEntries hmem)).2

namespace Resolver

variable {c : Catalog}

/-- An identity that has an id was expanded at some time. -/
theorem mem_of_id? {r : Resolver c} {identity : Identity c} {id : String} (h : r.id? identity = some id) :
    (identity, id) ∈ r.known := mem_of_lookup h

/-- The id for the expansion of a declaration. -/
def expansionId (r : Resolver c) (i : Fin c.size) (args : List Schema) : String :=
  (r.registry.reserve ((c.get i).instanceName args) ((c.get i).externalId.isSome && args.isEmpty)).1

/-- The resolver when the expansion of a declaration begins. -/
def opened (r : Resolver c) (i : Fin c.size) (args : List Schema) : Resolver c :=
  { r with registry :=
      (r.registry.reserve ((c.get i).instanceName args) ((c.get i).externalId.isSome && args.isEmpty)).2 }

/-- The resolver after a schema was filled in for an identity, or refused. -/
def filled (r : Resolver c) (identity : Identity c) (id : String) (schema : Schema) (owner : Location) :
    Resolver c where
  registry := (r.registry.fill id schema owner).2
  known := (identity, (r.registry.fill id schema owner).1.toOption.getD id) :: r.known

/-- The resolver after an expansion failed. -/
def released (r : Resolver c) (id : String) : Resolver c :=
  { r with registry := r.registry.release id }

/-- An expansion that has ended has the id that was granted, and the one it had asked for if none was. -/
theorem id?_filled_self (r : Resolver c) (identity : Identity c) (id : String) (schema : Schema) (owner : Location) :
    (r.filled identity id schema owner).id? identity = some ((r.registry.fill id schema owner).1.toOption.getD id) := by
  rw [id?, filled, List.lookup_cons, beq_self_eq_true]

/-- The end of an expansion does not change the ids of others. -/
theorem id?_filled_of_ne {r : Resolver c} {identity other : Identity c} {id : String} {schema : Schema}
    {owner : Location} (h : other ≠ identity) : (r.filled identity id schema owner).id? other = r.id? other := by
  rw [id?, filled, List.lookup_cons, beq_false_of_ne h, id?]

end Resolver

/-- An expansion that begins has the id it begins under. -/
theorem Pending.id?_push_self (p : Pending c) (identity : Identity c) (id : String) :
    (p.push identity id).id? identity = some id := by
  rw [id?, push, List.lookup_cons, beq_self_eq_true]

/-- The beginning of an expansion does not change the ids of others. -/
theorem Pending.id?_push_of_ne {p : Pending c} {identity other : Identity c} {id : String} (h : other ≠ identity) :
    (p.push identity id).id? other = p.id? other := by
  rw [id?, push, List.lookup_cons, beq_false_of_ne h, id?]

/-! ### The rules

Each rule is named after what becomes of the task. Those that fail have the name of the premise that fails, or of the
reason. -/

/-- How tasks run while some expansions have begun. -/
inductive Runs {c : Catalog} : Pending c → (t : Task c) → Resolver c → Except Fault t.Answer → Resolver c → Prop where
  /-- no expressions -/
  | nil {p scope origin r} : Runs p (.list scope origin []) r (.ok []) r
  /-- all of several expressions succeed -/
  | cons {p scope origin e es r s r' l r''} :
      Runs p (.node scope origin e) r (.ok s) r' → Runs p (.list scope origin es) r' (.ok l) r'' →
      Runs p (.list scope origin (e :: es)) r (.ok (s :: l)) r''
  /-- the first of several expressions fails -/
  | consHead {p scope origin e es r fault r'} :
      Runs p (.node scope origin e) r (.error fault) r' →
      Runs p (.list scope origin (e :: es)) r (.error fault) r'
  /-- one of the others fails -/
  | consTail {p scope origin e es r s r' fault r''} :
      Runs p (.node scope origin e) r (.ok s) r' → Runs p (.list scope origin es) r' (.error fault) r'' →
      Runs p (.list scope origin (e :: es)) r (.error fault) r''
  /-- the schema is built when those of the parts are there -/
  | built {p scope origin e parts build r l r'} :
      e.form = .built parts build → Runs p (.list scope origin parts) r (.ok l) r' →
      Runs p (.node scope origin e) r (.ok (build r'.registry l)) r'
  /-- a part fails -/
  | builtFault {p scope origin e parts build r fault r'} :
      e.form = .built parts build → Runs p (.list scope origin parts) r (.error fault) r' →
      Runs p (.node scope origin e) r (.error fault) r'
  /-- a name without arguments that is a type parameter -/
  | bound {p scope origin e name r s} :
      e.form = .named name [] ∨ e.form = .parameter name → scope.find? name = some s →
      Runs p (.node scope origin e) r (.ok s) r
  /-- a name that stands for a declaration, applied to its arguments -/
  | named {p scope origin e name args i r l r' out r''} :
      e.form = .named name args → (args = [] → scope.find? name = none) →
      c.applied name args.length origin = .ok i → Runs p (.list scope origin args) r (.ok l) r' →
      Runs p (.apply name i l origin) r' out r'' → Runs p (.node scope origin e) r out r''
  /-- an argument fails -/
  | namedFault {p scope origin e name args i r fault r'} :
      e.form = .named name args → (args = [] → scope.find? name = none) →
      c.applied name args.length origin = .ok i → Runs p (.list scope origin args) r (.error fault) r' →
      Runs p (.node scope origin e) r (.error fault) r'
  /-- a name that cannot be applied -/
  | misapplied {p scope origin e name args fault r} :
      e.form = .named name args → (args = [] → scope.find? name = none) →
      c.applied name args.length origin = .error fault →
      Runs p (.node scope origin e) r (.error fault) r
  /-- a type parameter that is not in scope -/
  | unbound {p scope origin e name r} :
      e.form = .parameter name → scope.find? name = none →
      Runs p (.node scope origin e) r (.error (.unboundTypeParameter origin name)) r
  /-- a function type -/
  | callable {p scope origin e r} :
      e.form = .callable →
      Runs p (.node scope origin e) r (.error (.unsupportedType origin .functionType)) r
  /-- an expansion that has begun -/
  | pending {p name i args origin r id} :
      p.id? (c.identity i args) = some id →
      Runs p (.apply name i args origin) r (.ok (.reference id)) r
  /-- an expansion that has ended -/
  | known {p name i args origin r id} :
      p.id? (c.identity i args) = none → r.id? (c.identity i args) = some id →
      Runs p (.apply name i args origin) r (.ok (.reference id)) r
  /-- one expansion of a generic too many within others -/
  | deep {p name i args origin r} :
      p.id? (c.identity i args) = none → r.id? (c.identity i args) = none →
      args ≠ [] ∧ maxGenericDepth ≤ p.depth →
      Runs p (.apply name i args origin) r (.error (.recursionLimit origin name maxGenericDepth)) r
  /-- an expansion whose body is resolved; the id may still be refused -/
  | expanded {p name i args origin r body r'} :
      p.id? (c.identity i args) = none → r.id? (c.identity i args) = none →
      ¬(args ≠ [] ∧ maxGenericDepth ≤ p.depth) →
      Runs (p.push (c.identity i args) (r.expansionId i args))
        (.node ((c.get i).scope args) (c.get i).location (c.get i).body) (r.opened i args) (.ok body) r' →
      Runs p (.apply name i args origin) r
        (referenceTo (r'.registry.fill (r.expansionId i args) body (c.get i).location).1)
        (r'.filled (c.identity i args) (r.expansionId i args) body (c.get i).location)
  /-- an expansion whose body fails gives its id back -/
  | expandedFault {p name i args origin r fault r'} :
      p.id? (c.identity i args) = none → r.id? (c.identity i args) = none →
      ¬(args ≠ [] ∧ maxGenericDepth ≤ p.depth) →
      Runs (p.push (c.identity i args) (r.expansionId i args))
        (.node ((c.get i).scope args) (c.get i).location (c.get i).body) (r.opened i args) (.error fault) r' →
      Runs p (.apply name i args origin) r (.error fault) (r'.released (r.expansionId i args))

/-! ## Runs read backwards

From a run and the form of its expression to the run of what it consists of. The remaining inversions are left to
`cases`, since their rules are told apart by the task alone. -/

section Backwards

variable {c : Catalog} {p : Pending c} {scope : Table Schema} {origin : Location} {e : TypeExpr} {r r' : Resolver c}
  {out : Except Fault Schema} {s : Schema}

/-- What is built comes from the schemas of the parts. -/
theorem Runs.of_built (h : Runs p (.node scope origin e) r out r') (hout : out = .ok s) {parts : List TypeExpr}
    {build : Registry → List Schema → Schema} (he : e.form = .built parts build) :
    ∃ l, Runs p (.list scope origin parts) r (.ok l) r' ∧ s = build r'.registry l := by
  cases h with
  | built he' hparts =>
    rw [he] at he'
    cases he'
    cases hout
    exact ⟨_, hparts, rfl⟩
  | bound he' =>
    rw [he] at he'
    rcases he' with he' | he' <;> cases he'
  | named he' =>
    rw [he] at he'
    cases he'
  | _ => cases hout

/-- A type parameter stands for what it is bound to. -/
theorem Runs.of_bound (h : Runs p (.node scope origin e) r out r') (hout : out = .ok s) {name : String} {bound : Schema}
    (he : e.form = .named name [] ∨ e.form = .parameter name) (hs : scope.find? name = some bound) : s = bound := by
  cases h with
  | built he' =>
    rw [he'] at he
    rcases he with he | he <;> cases he
  | @bound _ _ _ _ name' _ _ he' hs' =>
    obtain rfl : name = name' := by
      rcases he with he | he <;> rcases he' with he' | he' <;> rw [he] at he' <;> cases he' <;> rfl
    cases hout
    exact Option.some.inj (hs'.symm.trans hs)
  | named he' hs' =>
    rw [he'] at he
    rcases he with he | he <;> cases he
    rw [hs' rfl] at hs
    cases hs
  | _ => cases hout

/-- A name that is not bound is applied to the schemas of its arguments. -/
theorem Runs.of_named (h : Runs p (.node scope origin e) r out r') (hout : out = .ok s) {name : String}
    {args : List TypeExpr} {i : Fin c.size} (he : e.form = .named name args) (hs : args = [] → scope.find? name = none)
    (hi : c.applied name args.length origin = .ok i) :
    ∃ l q, Runs p (.list scope origin args) r (.ok l) q ∧ Runs p (.apply name i l origin) q (.ok s) r' := by
  cases h with
  | built he' =>
    rw [he] at he'
    cases he'
  | bound he' hs' =>
    rw [he] at he'
    rcases he' with he' | he' <;> cases he'
    rw [hs rfl] at hs'
    cases hs'
  | named he' _ hi' hargs hname =>
    rw [he] at he'
    cases he'
    rw [hi] at hi'
    cases hi'
    cases hout
    exact ⟨_, _, hargs, hname⟩
  | _ => cases hout

end Backwards

/-! ## The graph of the functions

First expressions, then names, then the two directions. -/

section Node

variable {c : Catalog} (names : Names c) (scope : Table Schema) (origin : Location)

/-- Expressions are resolved from the left to the right, however they are grouped. -/
theorem resolveList_append (a b : List TypeExpr) :
    resolveList names scope origin (a ++ b) = (do
      let l ← resolveList names scope origin a
      let m ← resolveList names scope origin b
      return l ++ m) := by
  induction a with
  | nil => simp [resolveList]
  | cons e rest ih => simp [resolveList, ih]

/-- The properties of an object are resolved as a list and get their names back. -/
theorem resolveMembers_eq (properties : Table (Member TypeExpr)) :
    resolveMembers names scope origin properties =
      (Table.names properties).zip <$>
        resolveList names scope origin ((Table.values properties).map Member.node) := by
  induction properties with
  | nil => simp [resolveMembers, resolveList, Table.names, Table.values]
  | cons entry rest ih =>
    obtain ⟨name, node, required⟩ := entry
    simp [resolveMembers, resolveList, Table.names, Table.values] at ih ⊢
    simp [ih]

/-- Resolving the variants of a union amounts to resolving the proper ones. -/
theorem resolveVariants_eq (variants : List TypeExpr) :
    resolveVariants names scope origin variants =
      resolveList names scope origin (TypeExpr.proper variants) := by
  induction variants using TypeExpr.flatten.induct with
  | case1 => simp [resolveVariants, TypeExpr.proper, TypeExpr.flatten, resolveList]
  | case2 inner rest ihInner ihRest =>
    have hp : TypeExpr.proper (.union inner :: rest) = TypeExpr.proper inner ++ TypeExpr.proper rest := by
      rw [TypeExpr.proper, TypeExpr.flatten, List.filter_append]
      rfl
    rw [hp, resolveList_append, resolveVariants, ihInner, ihRest]
  | case3 variant rest hnot ih =>
    have hv : resolveVariants names scope origin (variant :: rest) =
        if variant.isNullLike then resolveVariants names scope origin rest
        else (do
          let schema ← resolveNode names scope origin variant
          return schema :: (← resolveVariants names scope origin rest)) := by
      rw [resolveVariants]
      exact hnot
    have hf : TypeExpr.flatten (variant :: rest) = variant :: TypeExpr.flatten rest := by
      rw [TypeExpr.flatten]
      exact hnot
    rw [hv, TypeExpr.proper, hf, List.filter_cons]
    by_cases hnull : variant.isNullLike = true
    · rw [if_pos hnull, if_neg (by simp [hnull]), ih]
      rfl
    · rw [if_neg hnull, if_pos (by simpa using hnull), ih, resolveList]
      rfl

/-- How a union is resolved, with its variants flattened once and for all. -/
theorem resolveNode_union (variants : List TypeExpr) :
    resolveNode names scope origin (.union variants) =
      if (TypeExpr.proper variants).isEmpty then pure (.typed "null")
      else
        match TypeExpr.commonLiterals? (TypeExpr.proper variants) with
        | some literals => pure (TypeExpr.orNullOf variants (.ofLiterals literals))
        | none => do
          let alternatives ← resolveList names scope origin (TypeExpr.proper variants)
          return TypeExpr.orNullOf variants ((← get).registry.oneOf alternatives) := by
  rw [resolveNode, resolveVariants_eq]
  rfl

/-- Whatever is built from parts runs in the same way: first the parts, then the building, which sees the registry that
the parts have left. -/
theorem run_resolveNode_built {e : TypeExpr} {parts : List TypeExpr}
    {build : Registry → List Schema → Schema} (h : e.form = .built parts build) (r : Resolver c) :
    (resolveNode names scope origin e).run r =
      match (resolveList names scope origin parts).run r with
      | (.ok l, r') => (.ok (build r'.registry l), r')
      | (.error fault, r') => (.error fault, r') := by
  -- the function has a branch for each kind of expression, and all that are built do the same in the end
  cases e with
  | reference | generic | typeParameter | callable => cases h
  | primitive | enumeration | literal =>
    cases h
    rfl
  | object properties closed =>
    cases h
    rw [resolveNode, resolveMembers_eq, Resolving.run_bind, Resolving.run_map]
    rcases (resolveList names scope origin _).run r with ⟨_ | _, _⟩ <;> rfl
  | tuple | intersection =>
    cases h
    rw [resolveNode, Resolving.run_bind]
    rcases (resolveList names scope origin _).run r with ⟨_ | _, _⟩ <;> rfl
  | map part | array part =>
    cases h
    rw [resolveNode, resolveList, resolveList, Resolving.run_bind, Resolving.run_bind]
    rcases (resolveNode names scope origin part).run r with ⟨_ | _, _⟩ <;> rfl
  | union variants =>
    rw [resolveNode_union]
    cases TypeExpr.unionForm h with
    | null hempty =>
      rw [if_pos (List.isEmpty_iff.mpr hempty)]
      rfl
    | literals hne hliterals =>
      rw [if_neg (by simpa using hne), hliterals]
      rfl
    | alternatives hne hnone =>
      rw [if_neg (by simpa using hne), hnone]
      simp only
      rw [Resolving.run_bind]
      rcases (resolveList names scope origin _).run r with ⟨_ | _, _⟩ <;> rfl

/-! ### Names

A name is looked up in the scope first, and only if it has no arguments. The declaration is applied after the arguments
are resolved, but whether it can be applied is asked before. -/

/-- A name without arguments, or a type parameter, that is in scope. -/
theorem resolveNode_bound {e : TypeExpr} {name : String} {s : Schema}
    (h : e.form = .named name [] ∨ e.form = .parameter name) (hs : scope.find? name = some s) :
    resolveNode names scope origin e = pure s := by
  rcases h with h | h
  · rcases TypeExpr.form_eq_named h with rfl | ⟨rfl, -⟩
    · rw [resolveNode, hs]
    · rw [resolveNode, hs]
  · obtain rfl := TypeExpr.form_eq_parameter h
    rw [resolveNode, hs]

/-- A name that is not bound is looked up before its arguments are resolved. -/
theorem resolveNode_named {e : TypeExpr} {name : String} {args : List TypeExpr}
    (h : e.form = .named name args) (hs : args = [] → scope.find? name = none) :
    resolveNode names scope origin e = (do
      let i ← (c.applied name args.length origin : Except Fault _)
      let l ← resolveList names scope origin args
      names name i l origin) := by
  rcases TypeExpr.form_eq_named h with rfl | ⟨rfl, rfl⟩
  · cases args with
    | nil =>
      rw [resolveNode, hs rfl, resolveList]
      rfl
    | cons a rest => rw [resolveNode]; simp
  · rw [resolveNode, hs rfl, resolveList]
    rfl

end Node
section Expand

variable {c : Catalog} {p : Pending c} {i : Fin c.size} {args : List Schema}

/-- An expansion that has begun is not begun again: it answers with a reference to itself. -/
theorem expand_pending {id : String} (h : p.id? (c.identity i args) = some id) (name : String)
    (origin : Location) : expand p name i args origin = pure (.reference id) := by
  rw [expand]
  split
  next other h' =>
    rw [Catalog.identity, h'] at h
    rw [Option.some.inj h]
  next h' =>
    rw [Catalog.identity, h'] at h
    cases h

/-- What happens to a name whose expansion has not begun. -/
theorem run_expand (h : p.id? (c.identity i args) = none) (name : String) (origin : Location)
    (r : Resolver c) :
    (expand p name i args origin).run r =
      match r.id? (c.identity i args) with
      | some id => (.ok (.reference id), r)
      | none =>
        if args ≠ [] ∧ maxGenericDepth ≤ p.depth then
          (.error (.recursionLimit origin name maxGenericDepth), r)
        else
          match (resolveNode (expand (p.push (c.identity i args) (r.expansionId i args)))
            ((c.get i).scope args) (c.get i).location (c.get i).body).run (r.opened i args) with
          | (.ok body, r') =>
            (referenceTo (r'.registry.fill (r.expansionId i args) body (c.get i).location).1,
              r'.filled (c.identity i args) (r.expansionId i args) body (c.get i).location)
          | (.error fault, r') => (.error fault, r'.released (r.expansionId i args)) := by
  rw [expand]
  split
  next other h' =>
    rw [Catalog.identity, h'] at h
    cases h
  next =>
    rw [Resolving.run_bind, Resolving.run_get, ← Catalog.identity]
    simp only
    rcases r.id? (c.identity i args) with _ | id
    · simp only
      -- the recursion of `expand` takes a proof that the limit is not reached
      by_cases hd : args ≠ [] ∧ maxGenericDepth ≤ p.depth
      · rw [dif_pos (by simpa using hd), if_pos hd]
        rfl
      · rw [dif_neg (by simpa using hd), if_neg hd, Resolving.run_bind, Resolving.run_reserve]
        simp only
        rw [Resolving.run_bind, Resolving.run_tryCatch]
        rcases hb : (resolveNode (expand (p.push (c.identity i args) (r.expansionId i args)))
          ((c.get i).scope args) (c.get i).location (c.get i).body).run (r.opened i args) with ⟨_ | body, r'⟩
        · rw [Resolver.expansionId, Resolver.opened] at hb
          rw [hb]
          simp only
          rw [Resolving.run_bind, Resolving.run_release]
          rfl
        · rw [Resolver.expansionId, Resolver.opened] at hb
          rw [hb]
          simp only
          rw [Resolving.run_bind, Resolving.run_fill]
          show _ = (referenceTo (r'.registry.fill _ body (c.get i).location).1, _)
          rw [Resolver.filled, Resolver.expansionId]
          rcases (r'.registry.fill _ body (c.get i).location).1 with _ | _ <;> rfl
    · rfl

end Expand

/-! ### Both directions

From a run to the computation by induction on the run; from the computation to a run by the recursion of the functions,
which is on the size of expressions within one body and on the measure of what is pending between bodies. -/

/-- A run is what the functions compute. -/
theorem Runs.eq {c : Catalog} {p : Pending c} {t : Task c} {r r' : Resolver c} {out : Except Fault t.Answer}
    (h : Runs p t r out r') : (t.compute p).run r = (out, r') := by
  -- each rule is one path through the functions, and the hypotheses are the computations on that path
  induction h with
  | nil => rfl
  | cons _ _ ihHead ihTail =>
    simp only [Task.compute] at ihHead ihTail ⊢
    rw [resolveList, Resolving.run_bind, ihHead]
    simp only
    rw [Resolving.run_bind, ihTail]
    rfl
  | consHead _ ih =>
    simp only [Task.compute] at ih ⊢
    rw [resolveList, Resolving.run_bind, ih]
  | consTail _ _ ihHead ihTail =>
    simp only [Task.compute] at ihHead ihTail ⊢
    rw [resolveList, Resolving.run_bind, ihHead]
    simp only
    rw [Resolving.run_bind, ihTail]
  | built h _ ih =>
    simp only [Task.compute] at ih ⊢
    rw [run_resolveNode_built _ _ _ h, ih]
  | builtFault h _ ih =>
    simp only [Task.compute] at ih ⊢
    rw [run_resolveNode_built _ _ _ h, ih]
  | bound h hs =>
    rw [Task.compute, resolveNode_bound _ _ _ h hs]
    rfl
  | named h hs hi _ _ ihArgs ihName =>
    simp only [Task.compute] at ihArgs ihName ⊢
    rw [resolveNode_named _ _ _ h hs, hi, Resolving.run_bind, Resolving.run_lift]
    simp only
    rw [Resolving.run_bind, ihArgs]
    exact ihName
  | namedFault h hs hi _ ihArgs =>
    simp only [Task.compute] at ihArgs ⊢
    rw [resolveNode_named _ _ _ h hs, hi, Resolving.run_bind, Resolving.run_lift]
    simp only
    rw [Resolving.run_bind, ihArgs]
  | misapplied h hs hi =>
    rw [Task.compute, resolveNode_named _ _ _ h hs, hi, Resolving.run_bind, Resolving.run_lift]
  | unbound h hs =>
    obtain rfl := TypeExpr.form_eq_parameter h
    rw [Task.compute, resolveNode, hs]
    rfl
  | callable h =>
    obtain rfl := TypeExpr.form_eq_callable h
    rw [Task.compute, resolveNode]
    rfl
  -- what follows is the definition of `expand`, one test after another
  | pending h =>
    rw [Task.compute, expand_pending h]
    rfl
  | known h hk => rw [Task.compute, run_expand h, hk]
  | deep h hk hd =>
    rw [Task.compute, run_expand h, hk]
    simp only
    rw [if_pos hd]
  | expanded h hk hd _ ih =>
    simp only [Task.compute] at ih ⊢
    rw [run_expand h, hk]
    simp only
    rw [if_neg hd, ih]
  | expandedFault h hk hd _ ih =>
    simp only [Task.compute] at ih ⊢
    rw [run_expand h, hk]
    simp only
    rw [if_neg hd, ih]

section Total

variable {c : Catalog} {p : Pending c}

/-- If each of several expressions runs, they run together. -/
theorem Runs.exists_list {scope : Table Schema} {origin : Location} {es : List TypeExpr}
    (h : ∀ e ∈ es, ∀ r, ∃ out r', Runs p (.node scope origin e) r out r') (r : Resolver c) :
    ∃ out r', Runs p (.list scope origin es) r out r' := by
  induction es generalizing r with
  | nil => exact ⟨_, _, .nil⟩
  | cons e rest ih =>
    obtain ⟨fault | s, r', hhead⟩ := h e List.mem_cons_self r
    · exact ⟨_, _, .consHead hhead⟩
    · obtain ⟨fault | l, r'', htail⟩ := ih (fun e he => h e (List.mem_cons_of_mem _ he)) r'
      · exact ⟨_, _, .consTail hhead htail⟩
      · exact ⟨_, _, .cons hhead htail⟩

/-- If names run, expressions do. -/
theorem Runs.exists_node (h : ∀ name i args origin r, ∃ out r', Runs p (.apply name i args origin) r out r')
    (scope : Table Schema) (origin : Location) (e : TypeExpr) (r : Resolver c) :
    ∃ out r', Runs p (.node scope origin e) r out r' := by
  rcases he : e.form with ⟨parts, build⟩ | ⟨name, args⟩ | name | _
  · obtain ⟨fault | l, r', hl⟩ := Runs.exists_list (fun v hv => Runs.exists_node h scope origin v) r
    · exact ⟨_, _, .builtFault he hl⟩
    · exact ⟨_, _, .built he hl⟩
  · by_cases hs : args = [] → scope.find? name = none
    · rcases hi : c.applied name args.length origin with fault | i
      · exact ⟨_, _, .misapplied he hs hi⟩
      · obtain ⟨fault | l, r', hl⟩ := Runs.exists_list (fun v hv => Runs.exists_node h scope origin v) r
        · exact ⟨_, _, .namedFault he hs hi hl⟩
        · obtain ⟨out, r'', hn⟩ := h name i l origin r'
          exact ⟨_, _, .named he hs hi hl hn⟩
    · rw [Classical.not_imp] at hs
      obtain ⟨rfl, hs⟩ := hs
      obtain ⟨s, hs⟩ := Option.ne_none_iff_exists'.mp hs
      exact ⟨_, _, .bound (Or.inl he) hs⟩
  · rcases hs : scope.find? name with _ | s
    · exact ⟨_, _, .unbound he hs⟩
    · exact ⟨_, _, .bound (Or.inr he) hs⟩
  · exact ⟨_, _, .callable he⟩
termination_by sizeOf e
decreasing_by
  · exact TypeExpr.sizeOf_lt_of_mem_parts he hv
  · exact TypeExpr.sizeOf_lt_of_mem_args he hv

/-- Every name runs. An expansion within others is nearer to the limit on depth, or has no arguments and one declaration
fewer to choose from. -/
theorem Runs.exists_apply (p : Pending c) (name : String) (i : Fin c.size) (args : List Schema)
    (origin : Location) (r : Resolver c) : ∃ out r', Runs p (.apply name i args origin) r out r' := by
  rcases hp : p.id? (c.identity i args) with _ | id
  · rcases hk : r.id? (c.identity i args) with _ | id
    · by_cases hd : args ≠ [] ∧ maxGenericDepth ≤ p.depth
      · exact ⟨_, _, .deep hp hk hd⟩
      · obtain ⟨fault | body, r', hbody⟩ := Runs.exists_node
          (Runs.exists_apply (p.push (c.identity i args) (r.expansionId i args)))
          ((c.get i).scope args) (c.get i).location (c.get i).body (r.opened i args)
        · exact ⟨_, _, .expandedFault hp hk hd hbody⟩
        · exact ⟨_, _, .expanded hp hk hd hbody⟩
    · exact ⟨_, _, .known hp hk⟩
  · exact ⟨_, _, .pending hp⟩
termination_by p.measure
decreasing_by exact Pending.measure_push_lt p _ _ _ hp (by simpa using hd)

/-- What the functions compute is a run. -/
theorem Task.runs (p : Pending c) (t : Task c) (r : Resolver c) :
    Runs p t r ((t.compute p).run r).1 ((t.compute p).run r).2 := by
  have total : ∃ out r', Runs p t r out r' := by
    cases t with
    | node scope origin e => exact Runs.exists_node (Runs.exists_apply p) scope origin e r
    | list scope origin es =>
      exact Runs.exists_list (fun e _ => Runs.exists_node (Runs.exists_apply p) scope origin e) r
    | apply name i args origin => exact Runs.exists_apply p name i args origin r
  obtain ⟨out, r', h⟩ := total
  rw [h.eq]
  exact h

/-- The relation is the graph of the functions. -/
theorem runs_iff {t : Task c} {r r' : Resolver c} {out : Except Fault t.Answer} :
    Runs p t r out r' ↔ (t.compute p).run r = (out, r') := by
  refine ⟨Runs.eq, fun h => ?_⟩
  have := t.runs p r
  rw [h] at this
  exact this

end Total

section Calls

variable {c : Catalog}

/-- Several expressions have as many schemas. -/
theorem Runs.length_eq {p : Pending c} {scope : Table Schema} {origin : Location} {es : List TypeExpr}
    {r r' : Resolver c}
    {l : List Schema} (h : Runs p (.list scope origin es) r (.ok l) r') : l.length = es.length := by
  induction es generalizing l r with
  | nil =>
    cases h
    rfl
  | cons e rest ih =>
    cases h with
    | cons _ htail => exact congrArg Nat.succ (ih htail)

/-- What every expansion keeps when it begins, and when it ends or fails, is kept by a run. -/
theorem Runs.invariant {P : Pending c → Resolver c → Prop}
    (opened : ∀ {p : Pending c} {r : Resolver c} (i : Fin c.size) (args : List Schema),
      p.id? (c.identity i args) = none → r.id? (c.identity i args) = none → P p r →
      P (p.push (c.identity i args) (r.expansionId i args)) (r.opened i args))
    (filled : ∀ {p : Pending c} {r : Resolver c} (i : Fin c.size) (args : List Schema) (id : String) (body : Schema),
      p.id? (c.identity i args) = none → P (p.push (c.identity i args) id) r →
      P p (r.filled (c.identity i args) id body (c.get i).location))
    (released : ∀ {p : Pending c} {r : Resolver c} (i : Fin c.size) (args : List Schema) (id : String),
      P (p.push (c.identity i args) id) r → P p (r.released id))
    {p : Pending c} {t : Task c} {r r' : Resolver c} {out : Except Fault t.Answer} (h : Runs p t r out r')
    (hr : P p r) : P p r' := by
  induction h with
  | cons _ _ ihHead ihTail => exact ihTail (ihHead hr)
  | consHead _ ih => exact ih hr
  | consTail _ _ ihHead ihTail => exact ihTail (ihHead hr)
  | built _ _ ih => exact ih hr
  | builtFault _ _ ih => exact ih hr
  | named _ _ _ _ _ ihArgs ihName => exact ihName (ihArgs hr)
  | namedFault _ _ _ _ ih => exact ih hr
  | expanded hp hk _ _ ih => exact filled _ _ _ _ hp (ih (opened _ _ hp hk hr))
  | expandedFault hp hk _ _ ih => exact released _ _ _ (ih (opened _ _ hp hk hr))
  | _ => exact hr

/-! ## Faults

A route can be blamed for its parameters and the command line for its arguments, but resolving a type can only fail with
a fault about a type or about the registry. -/

/-- A fault of the resolution: it is about a type, or about the registry. -/
def Fault.IsOfType : Fault → Prop
  | .unsupportedType _ _ | .unboundTypeParameter _ _ | .unresolvedReference _ _ | .recursionLimit _ _ _
  | .schemaConflict _ _ _ | .registryCorruption _ => True
  | .invalidRoute _ _ | .unreachable _ | .unparsable _ | .config _ => False

/-- A name that cannot be applied is a fault of the resolution. -/
theorem Catalog.isOfType_of_applied {name : String} {count : Nat} {origin : Location} {fault : Fault}
    (h : c.applied name count origin = .error fault) : fault.IsOfType := by
  rw [applied] at h
  split at h
  · cases h
    trivial
  · simp only at h
    split at h
    · cases h
    · split at h <;> cases h <;> trivial

/-- An id that is refused is a fault of the resolution, too. -/
theorem Registry.isOfType_of_fill {r : Registry} {id : String} {schema : Schema} {owner : Location} {fault : Fault}
    (h : (r.fill id schema owner).1 = .error fault) : fault.IsOfType := by
  rw [fill] at h
  split at h
  · cases h
    trivial
  · split at h
    · cases h
    · split at h <;> cases h <;> trivial
  · simp only at h
    split at h <;> cases h

/-- A run fails with faults of the resolution only, never with one of a route or of the command line. -/
theorem Runs.isOfType {p : Pending c} {t : Task c} {r r' : Resolver c} {out : Except Fault t.Answer}
    (h : Runs p t r out r') {fault : Fault} (hout : out = .error fault) : fault.IsOfType := by
  -- a fault is handed up unchanged, or it is one of the moment
  induction h with
  | consHead _ ih | builtFault _ _ ih | namedFault _ _ _ _ ih | expandedFault _ _ _ _ ih =>
    cases hout
    exact ih rfl
  | consTail _ _ _ ih =>
    cases hout
    exact ih rfl
  | named _ _ _ _ _ _ ihName => exact ihName hout
  | misapplied _ _ hi =>
    cases hout
    exact Catalog.isOfType_of_applied hi
  | expanded => exact Registry.isOfType_of_fill (referenceTo_eq_error.mp hout)
  | nil | cons | built | bound | pending | known => cases hout
  | unbound | callable | deep =>
    cases hout
    trivial

/-! ## Calls

A call resolves one expression outside of everything, with nothing pending and nothing in scope. A resolver that was
*called* is one after finitely many calls; which answers these may have had is a parameter, so the same closure serves
calls that succeed and calls that may fail. -/

/-- A resolver after any calls whose answers are allowed. -/
inductive Resolver.Called (allowed : TypeExpr → Location → Except Fault Schema → Prop) : Resolver c → Prop where
  | fresh : Called allowed {}
  | call {r : Resolver c} {e : TypeExpr} {origin : Location} {out : Except Fault Schema} {r' : Resolver c} :
      Called allowed r → (resolve e origin).run r = (out, r') → allowed e origin out → Called allowed r'

/-- What is true of a fresh resolver and kept by every call is always true. -/
theorem Resolver.Called.invariant {allowed : TypeExpr → Location → Except Fault Schema → Prop} {P : Resolver c → Prop}
    (fresh : P {}) (kept : ∀ {r r' : Resolver c} {e : TypeExpr} {origin : Location} {out : Except Fault Schema},
      P r → Runs {} (.node [] origin e) r out r' → allowed e origin out → P r')
    {r : Resolver c} (h : r.Called allowed) : P r := by
  induction h with
  | fresh => exact fresh
  | call _ hrun hallowed ih => exact kept ih (runs_iff.mpr hrun) hallowed

/-- The resolver after some calls, one after another, whatever they answer. -/
def Resolver.after (r : Resolver c) : List (TypeExpr × Location) → Resolver c
  | [] => r
  | (e, origin) :: calls => Resolver.after ((resolve e origin).run r).2 calls

end Calls

end RouteManifest
