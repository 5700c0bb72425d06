import RouteManifest.Fault
import RouteManifest.Schema.Canonical
import RouteManifest.Schema.References
import RouteManifest.Text.Fresh

/-!
# The schema registry

The registry gives every named schema of a run an id. An id is *reserved* before its schema is known, so
that a schema can point at itself, and *filled* when it is.

* **Names.** A reserved name that is taken gets a number behind it. An explicit name is never changed: two
  declarations that insist on it share one slot, and must agree when it is filled.
* **Sharing.** A filled schema whose fingerprint is already registered takes over the earlier id and gives
  its own reservation back, unless the id was insisted on or something already points at it.
* **Order.** Entries are listed in the order of their reservations.
-/

namespace RouteManifest

/-- What the registry knows of an id. -/
inductive Slot where
  /-- handed out, its schema not yet known -/
  | reserved (explicit : Bool) (order : Nat)
  | filled (explicit : Bool) (order : Nat) (schema : Schema) (owner : Location)

/-- A registered schema. -/
structure Entry where
  id : String
  schema : Schema
  /-- the number of its reservation -/
  order : Nat

/-- Ids with their slots, and the fingerprints of the filled ones. -/
structure Registry where
  slots : Table Slot := []
  /-- from a fingerprint to the id that was first filled with it -/
  fingerprints : Table String := []
  /-- the number of the next reservation -/
  nextOrder : Nat := 0

namespace Slot

/-- The schema of a filled slot. -/
def schema? : Slot → Option Schema
  | .reserved _ _ => none
  | .filled _ _ schema _ => some schema

/-- The entry of a filled slot. -/
def entry? (id : String) : Slot → Option Entry
  | .reserved _ _ => none
  | .filled _ order schema _ => some ⟨id, schema, order⟩

end Slot

namespace Entry

/-- Inserts an entry in front of the first entry that is not of a smaller order. -/
def insertByOrder (e : Entry) : List Entry → List Entry
  | [] => [e]
  | f :: rest => if f.order < e.order then f :: insertByOrder e rest else e :: f :: rest

/-- The entry as it is written out. -/
def toJson (e : Entry) : Json :=
  .object [("id", .string e.id), ("schema", e.schema.toJson), ("firstDiscoveryOrder", .int e.order)]

end Entry

namespace Registry

/-! ## Reading -/

/-- The schema of a filled id; `none` while it is reserved. -/
def get? (r : Registry) (id : String) : Option Schema := (r.slots.find? id).bind Slot.schema?

/-- The filled entries in the order of their slots. -/
def filled (r : Registry) : List Entry := r.slots.filterMap fun (id, slot) => slot.entry? id

/-- The filled entries in the order of their reservations. -/
def entries (r : Registry) : List Entry := r.filled.foldr Entry.insertByOrder []

/-- The ids of the entries. -/
def ids (r : Registry) : List String := r.entries.map Entry.id

/-- How many ids are filled. -/
def size (r : Registry) : Nat := r.filled.length

/-- Whether a filled schema holds a `$ref` to the id. -/
def isReferenced (r : Registry) (id : String) : Bool := r.filled.any fun e => e.schema.references id

/-! ## Writing -/

/-- Hands out an id for a schema that is about to be resolved. -/
def reserve (r : Registry) (name : String) (explicit : Bool) : String × Registry :=
  let id := if explicit then name else Text.fresh r.slots.names name
  let slots := if r.slots.contains id then r.slots else r.slots.insert id (.reserved explicit r.nextOrder)
  (id, { r with slots, nextOrder := r.nextOrder + 1 })

/-- The id of an equal schema that a reservation gives way to: the id is not insisted on, and neither its own
schema nor a filled one points at it. -/
def shared? (r : Registry) (id : String) (explicit : Bool) (schema : Schema) : Option String :=
  if explicit || schema.references id || r.isReferenced id then none
  else r.fingerprints.find? schema.fingerprint

/-- Stores the schema of a reserved id, and answers with the id to point at from now on. Filling an id again
needs the same fingerprint. -/
def fill (r : Registry) (id : String) (schema : Schema) (owner : Location) : Except Fault String × Registry :=
  match r.slots.find? id with
  | none => (.error (.registryCorruption id), r)
  | some (.filled explicit _ existing existingOwner) =>
    if existing.fingerprint = schema.fingerprint then (.ok id, r)
    else if explicit && !existingOwner.same owner then (.error (.schemaConflict owner id existingOwner), r)
    else (.error (.registryCorruption id), r)
  | some (.reserved explicit order) =>
    match r.shared? id explicit schema with
    | some existing => (.ok existing, { r with slots := r.slots.erase id })
    | none =>
      let fingerprint := schema.fingerprint
      (.ok id,
        { r with
          slots := r.slots.insert id (.filled explicit order schema owner)
          fingerprints :=
            if r.fingerprints.contains fingerprint then r.fingerprints
            else r.fingerprints.insert fingerprint id })

/-- Reserves and fills in one step. -/
def assign (r : Registry) (name : String) (schema : Schema) (explicit : Bool) (owner : Location) :
    Except Fault String × Registry :=
  let (id, r) := r.reserve name explicit
  r.fill id schema owner

/-- Gives a reservation back. A filled id stays. -/
def release (r : Registry) (id : String) : Registry :=
  match r.slots.find? id with
  | some (.reserved _ _) => { r with slots := r.slots.erase id }
  | _ => r

end Registry

end RouteManifest
