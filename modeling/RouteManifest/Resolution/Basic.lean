import RouteManifest.Resolution.Combining
import RouteManifest.TypeExpr.Catalog

/-!
# Resolving type expressions

Resolution turns a type expression into a schema. A declared type is registered once, under an id, and
from then on every use of it is a `$ref`; an instantiation of a generic declaration is registered once for
each list of arguments that have the same fingerprints. The id is reserved before the body is resolved,
so that a body that comes back to its own declaration finds the id instead of going round for ever.

The work is split in two. `resolveNode` is a recursion over one expression; what a name stands for is given
to it. `expand` is what a name stands for: it registers a declaration, and resolves its body by
`resolveNode` with itself for the names inside.

**Why it ends.** `Pending` is what is being expanded right now. Every further expansion of a generic
declaration makes it one deeper, and depth has a limit; every further expansion of a plain declaration
opens one that was not open, and there are finitely many. `Pending.measure` is this pair.

A failed resolution leaves the registry without the reservation it made, so the state is kept beside the
outcome, not inside it.
-/

namespace RouteManifest

/-- What is registered once: a declaration with the fingerprints of its type arguments. -/
structure Identity (c : Catalog) where
  declaration : Fin c.size
  args : List String := []
deriving DecidableEq

/-- The registered schemas, and the id of every identity that has one. -/
structure Resolver (c : Catalog) where
  registry : Registry := {}
  known : List (Identity c × String) := []

/-- A computation that can fail and keeps the registry either way. -/
abbrev Resolving (c : Catalog) (α : Type) := ExceptT Fault (StateM (Resolver c)) α

/-- How deep instantiations of generic declarations may nest. -/
def maxGenericDepth : Nat := 32

/-- The expansions that have begun and not ended. -/
structure Pending (c : Catalog) where
  /-- how many of them are of generic declarations -/
  depth : Nat := 0
  /-- innermost first, with the ids they will be filled under -/
  identities : List (Identity c × String) := []

namespace Pending

variable {c : Catalog}

/-- The id of an expansion that has begun. -/
def id? (p : Pending c) (identity : Identity c) : Option String := p.identities.lookup identity

/-- Begins an expansion. -/
def push (p : Pending c) (identity : Identity c) (id : String) : Pending c where
  depth := if identity.args.isEmpty then p.depth else p.depth + 1
  identities := (identity, id) :: p.identities

/-- Whether a plain declaration is not being expanded. -/
def isClosed (p : Pending c) (i : Fin c.size) : Bool := (p.id? ⟨i, []⟩).isNone

/-- How many generic expansions and how many plain ones may still begin inside. -/
def measure (p : Pending c) : Nat × Nat :=
  (maxGenericDepth - p.depth, (List.finRange c.size).countP p.isClosed)

/-- An expansion that has not begun, and is not too deep, makes the measure smaller when it begins. -/
theorem measure_push_lt (p : Pending c) (i : Fin c.size) (args : List String) (id : String)
    (fresh : p.id? ⟨i, args⟩ = none) (shallow : ¬(args ≠ [] ∧ maxGenericDepth ≤ p.depth)) :
    Prod.Lex (· < ·) (· < ·) (p.push ⟨i, args⟩ id).measure p.measure := by
  cases args with
  | nil =>
    have hd : (p.push ⟨i, []⟩ id).depth = p.depth := by simp [push]
    rw [measure, measure, hd]
    apply Prod.Lex.right
    refine Catalog.countP_lt_countP (a := i) (fun j => ?_) (List.mem_finRange i) ?_ ?_
    · simp only [isClosed, id?, push, List.lookup_cons]
      split <;> simp
    · simpa [isClosed] using fresh
    · simp [isClosed, id?, push]
  | cons a rest =>
    have hd : (p.push ⟨i, a :: rest⟩ id).depth = p.depth + 1 := by simp [push]
    rw [measure, measure, hd]
    apply Prod.Lex.left
    have : p.depth < maxGenericDepth := by simpa using shallow
    omega

end Pending

namespace Resolver

variable {c : Catalog}

/-- The id of an identity that has been registered. -/
def id? (r : Resolver c) (identity : Identity c) : Option String := r.known.lookup identity

end Resolver

namespace Resolving

variable {c : Catalog}

/-- Reserves an id. -/
def reserve (name : String) (explicit : Bool) : Resolving c String := do
  let r ← get
  let (id, registry) := r.registry.reserve name explicit
  set { r with registry }
  return id

/-- Gives a reservation back. -/
def release (id : String) : Resolving c Unit :=
  modify fun r => { r with registry := r.registry.release id }

/-- Fills a reservation and records what the identity is known by from now on: the id to point at, also
when the schema was refused. -/
def fill (identity : Identity c) (id : String) (schema : Schema) (owner : Location) :
    Resolving c String := do
  let r ← get
  let (outcome, registry) := r.registry.fill id schema owner
  match outcome with
  | .ok final =>
    set ({ registry, known := (identity, final) :: r.known } : Resolver c)
    return final
  | .error fault =>
    set ({ registry, known := (identity, id) :: r.known } : Resolver c)
    throw fault

end Resolving

/-! ## One expression -/

/-- What a declared name with resolved arguments stands for when it is written somewhere. -/
abbrev Names (c : Catalog) := String → Fin c.size → List Schema → Location → Resolving c Schema

/-- The declaration that a name with so many arguments means at a location. -/
def Catalog.applied (c : Catalog) (name : String) (count : Nat) (origin : Location) :
    Except Fault (Fin c.size) :=
  match c.lookup? name origin.unit with
  | none => .error (.unresolvedReference origin name)
  | some i =>
    let params := (c.get i).typeParams
    if params.length = count then .ok i
    else
      match params, count with
      | first :: _, 0 => .error (.unboundTypeParameter origin first)
      | _, _ => .error (.unsupportedType origin (.argumentCount name params.length count))

section Node

variable {c : Catalog} (names : Names c) (scope : Table Schema) (origin : Location)

mutual
/-- The schema of an expression written at `origin`, inside a declaration whose type parameters stand for
the schemas in `scope`. -/
def resolveNode : TypeExpr → Resolving c Schema
  | .primitive kind => return .ofPrimitive kind
  | .object properties closed => do
    let schemas ← resolveMembers properties
    let required := properties.filterMap fun (name, member) => if member.required then some name else none
    return .object schemas required closed
  | .map value => do
    let value ← resolveNode value
    return .mk { type := some "object", additional := some (.schema value) }
  | .array element => return .array (← resolveNode element)
  | .tuple elements => do
    let schemas ← resolveList elements
    return .mk {
      type := some "array"
      prefixItems := some schemas
      minItems := some schemas.length
      maxItems := some schemas.length }
  | .union variants => do
    let flat := TypeExpr.flatten variants
    let rest := flat.filter fun v => !v.isNullLike
    if rest.isEmpty then return .typed "null"
    let schema ←
      match TypeExpr.commonLiterals? rest with
      | some literals => pure (Schema.ofLiterals literals)
      | none => do
        let alternatives ← resolveVariants variants
        pure ((← get).registry.oneOf alternatives)
    return if flat.any TypeExpr.isNullLike then schema.orNull else schema
  | .intersection members => do
    let parts ← resolveList members
    return (← get).registry.allOf parts
  | .enumeration literals => return .ofLiterals literals
  | .literal value => return .ofLiterals [value]
  | .reference name =>
    match scope.find? name with
    | some schema => return schema
    | none => do
      let i ← (c.applied name 0 origin : Except Fault _)
      names name i [] origin
  | .generic base [] =>
    match scope.find? base with
    | some schema => return schema
    | none => do
      let i ← (c.applied base 0 origin : Except Fault _)
      names base i [] origin
  | .generic base args => do
    let i ← (c.applied base args.length origin : Except Fault _)
    let schemas ← resolveList args
    names base i schemas origin
  | .typeParameter name =>
    match scope.find? name with
    | some schema => return schema
    | none => throw (.unboundTypeParameter origin name)
  | .callable => throw (.unsupportedType origin .functionType)

/-- The schemas of a list, in order. -/
def resolveList : List TypeExpr → Resolving c (List Schema)
  | [] => return []
  | e :: rest => do
    let schema ← resolveNode e
    return schema :: (← resolveList rest)

/-- The schemas of properties, in order. -/
def resolveMembers : Table (Member TypeExpr) → Resolving c (Table Schema)
  | [] => return []
  | (name, ⟨node, _⟩) :: rest => do
    let schema ← resolveNode node
    return (name, schema) :: (← resolveMembers rest)

/-- The schemas of the variants of a union that do not mean null, unions among them flattened. -/
def resolveVariants : List TypeExpr → Resolving c (List Schema)
  | [] => return []
  | .union inner :: rest => do
    let schemas ← resolveVariants inner
    return schemas ++ (← resolveVariants rest)
  | variant :: rest =>
    if variant.isNullLike then resolveVariants rest
    else do
      let schema ← resolveNode variant
      return schema :: (← resolveVariants rest)
end

end Node

/-! ## Declarations -/

/-- The id that a declaration asks for when it is applied to arguments. -/
def Declaration.instanceName (d : Declaration) (args : List Schema) : String :=
  d.schemaName ++ String.join (args.map fun a => "_" ++ a.displayName)

/-- Type parameters with what they stand for; of parameters of one name the last counts. -/
def Declaration.scope (d : Declaration) (args : List Schema) : Table Schema :=
  Table.ofEntries (d.typeParams.zip args)

/-- What a declared name stands for while `pending` expansions have begun: a `$ref` to its declaration, which
is registered first if it is not yet. -/
def expand {c : Catalog} (pending : Pending c) (name : String) (i : Fin c.size) (args : List Schema)
    (origin : Location) : Resolving c Schema :=
  let fingerprints := args.map Schema.fingerprint
  match _fresh : pending.id? ⟨i, fingerprints⟩ with
  | some id => return .reference id
  | none => do
    match (← get).id? ⟨i, fingerprints⟩ with
    | some id => return .reference id
    | none =>
      if _shallow : fingerprints ≠ [] ∧ maxGenericDepth ≤ pending.depth then
        throw (.recursionLimit origin name maxGenericDepth)
      else
        let d := c.get i
        let id ← Resolving.reserve (d.instanceName args) (d.externalId.isSome && args.isEmpty)
        let inner := fun name j args origin => expand (pending.push ⟨i, fingerprints⟩ id) name j args origin
        let body ← tryCatch (resolveNode inner (d.scope args) d.location d.body) fun fault => do
          Resolving.release id
          throw fault
        return .reference (← Resolving.fill ⟨i, fingerprints⟩ id body d.location)
termination_by pending.measure
decreasing_by exact Pending.measure_push_lt pending i _ id _fresh _shallow

/-- The schema of an expression written at a location outside any declaration. -/
def resolve {c : Catalog} (e : TypeExpr) (origin : Location) : Resolving c Schema :=
  resolveNode (expand {}) [] origin e

end RouteManifest
