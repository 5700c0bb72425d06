import RouteManifest.Decimal.Binary64
import RouteManifest.Table

/-!
# JSON values

A JSON value keeps its object members in the order they were written, because several answers show that
order. Whole numbers and numbers with a fraction are different values: `1` is not `1.0`.

Two notions of equality stand side by side. `=` (decidable, through `Json.beq`) compares the written
order; `Json.same` is the equality of JSON itself, where the order of the members of an object does not
count.
-/

namespace RouteManifest

/-- A JSON value. -/
inductive Json where
  | null
  | bool (value : Bool)
  /-- a number written without fraction and exponent -/
  | int (value : Int)
  /-- any other number -/
  | float (value : Binary64)
  | string (text : String)
  | array (items : List Json)
  /-- members in written order -/
  | object (members : List (String × Json))
deriving Repr, Inhabited

namespace Json

/-! ## Equality of written values -/

mutual
/-- Equality in the order as written. -/
def beq : Json → Json → Bool
  | .null, .null => true
  | .bool a, .bool b => a == b
  | .int a, .int b => a == b
  | .float a, .float b => a == b
  | .string a, .string b => a == b
  | .array a, .array b => beqItems a b
  | .object a, .object b => beqMembers a b
  | _, _ => false

/-- Equality of lists of items. -/
def beqItems : List Json → List Json → Bool
  | [], [] => true
  | a :: as, b :: bs => beq a b && beqItems as bs
  | _, _ => false

/-- Equality of lists of members. -/
def beqMembers : Table Json → Table Json → Bool
  | [], [] => true
  | (k, a) :: as, (l, b) :: bs => k == l && beq a b && beqMembers as bs
  | _, _ => false
end

mutual
theorem beq_iff : (a b : Json) → (beq a b = true ↔ a = b)
  | .null, b => by cases b <;> simp [beq]
  | .bool _, b => by cases b <;> simp [beq]
  | .int _, b => by cases b <;> simp [beq]
  | .float _, b => by cases b <;> simp [beq]
  | .string _, b => by cases b <;> simp [beq]
  | .array as, b => by cases b <;> simp [beq, beqItems_iff as]
  | .object as, b => by cases b <;> simp [beq, beqMembers_iff as]

theorem beqItems_iff : (a b : List Json) → (beqItems a b = true ↔ a = b)
  | [], b => by cases b <;> simp [beqItems]
  | a :: as, b => by cases b <;> simp [beqItems, beq_iff a, beqItems_iff as]

theorem beqMembers_iff : (a b : Table Json) → (beqMembers a b = true ↔ a = b)
  | [], b => by cases b <;> simp [beqMembers]
  | (k, a) :: as, b => by
    rcases b with _ | ⟨⟨l, c⟩, bs⟩ <;> simp [beqMembers, beq_iff a, beqMembers_iff as, and_assoc]
end

/-- Values compare by `Json.beq`, which reduces in the kernel. -/
instance : DecidableEq Json := fun a b => decidable_of_iff _ (beq_iff a b)

/-! ## Members -/

/-- The member of an object; `none` for a value of another kind. -/
def get? (name : String) : Json → Option Json
  | .object members => Table.find? members name
  | _ => none

/-! ## Equality of JSON values -/

mutual
/-- The value with the members of every object sorted by name and no negative zero. -/
def sorted : Json → Json
  | .float x => .float x.unsignedZero
  | .array items => .array (sortedItems items)
  | .object members => .object (Table.sortByName (sortedMembers members))
  | other => other

/-- Sorts within every item. -/
def sortedItems : List Json → List Json
  | [] => []
  | item :: rest => sorted item :: sortedItems rest

/-- Sorts within every member. -/
def sortedMembers : Table Json → Table Json
  | [] => []
  | (name, value) :: rest => (name, sorted value) :: sortedMembers rest
end

/-- Equality of JSON values: the order of object members does not count, the order of items does. -/
def same (a b : Json) : Bool := decide (a.sorted = b.sorted)

end Json

end RouteManifest
