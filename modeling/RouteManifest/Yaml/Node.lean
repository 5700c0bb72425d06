import RouteManifest.Table
import RouteManifest.Yaml.Layout

/-!
# Documents as nodes

A document is a scalar, a sequence or a mapping of nodes. What a scalar means is for its reader to say, so the
text is kept together with what a meaning can depend on: whether it is plain, and its tag.

A node that is named by an anchor can be used again further on, and then stands there in full.
-/

namespace RouteManifest

namespace Yaml

/-- A part of a document. -/
inductive Node where
  | scalar (tag : Option String) (plain : Bool) (text : String)
  | sequence (items : List Node)
  | mapping (entries : List (Node × Node))
deriving Repr, Inhabited

namespace Node

/-- What stands where nothing is written. -/
def missing : Node := .scalar none true ""

/-- The text of a scalar. -/
def text? : Node → Option String
  | .scalar _ _ text => some text
  | _ => none

end Node

/-- What is left of a document, and what has been named in it. -/
structure Remainder where
  tokens : List Token
  /-- short forms for the front parts of tags -/
  shorthands : Table String := []
  anchors : Table Node := []

/-- Reads a part of a document. -/
abbrev NodeReader (α : Type) := StateT Remainder Option α

namespace NodeReader

/-- The next token, which stays. -/
def peek : NodeReader (Option Token) := return (← get).tokens.head?

/-- Drops the next token. -/
def skip : NodeReader Unit := modify fun r => { r with tokens := r.tokens.tail }

/-- Drops the next token if it is the given one. -/
def skipIf (t : Token) : NodeReader Bool := do
  if (← peek) == some t then
    skip
    return true
  else return false

/-- Drops the given token, which has to be next. -/
def demand (t : Token) : NodeReader Unit := do
  if !(← skipIf t) then failure

/-- Whether the next token is one of some. -/
def isNext (ts : List Token) : NodeReader Bool := return (← peek).any (ts.contains ·)

/-! ## Properties -/

/-- The tag that a handle and the rest of a tag denote. -/
def expand (handle rest : String) : NodeReader String := do
  if handle.isEmpty then return rest
  match (← get).shorthands.find? handle, handle with
  | some front, _ => return front ++ rest
  | none, "!" => return "!" ++ rest
  | none, "!!" => return "tag:yaml.org,2002:" ++ rest
  | none, _ => failure

/-- The anchor of a node, if it has one. -/
def anchor? : NodeReader (Option String) := do
  match ← peek with
  | some (.anchor name) => do
    skip
    return some name
  | _ => return none

/-- The tag of a node, if it has one. -/
def tag? : NodeReader (Option String) := do
  match ← peek with
  | some (.tag handle rest) => do
    skip
    return some (← expand handle rest)
  | _ => return none

/-- The anchor and the tag of a node, in either order. -/
def properties : NodeReader (Option String × Option String) := do
  match ← anchor? with
  | some name => return (some name, ← tag?)
  | none => do
    let tag ← tag?
    return (← anchor?, tag)

/-! ## Nodes -/

/-- What a value or a key can be followed by in a block. -/
def blockEnds : List Token := [.key, .value, .blockEnd]

mutual
/-- Reads a node. Blocks are read only where one may stand, and items without a block of their own only below
a key. -/
def node : (bound : Nat) → (block items : Bool) → NodeReader Node
  | 0, _, _ => failure
  | bound + 1, block, items => do
    if let some (.recall name) ← peek then
      skip
      match (← get).anchors.find? name with
      | some n => return n
      | none => failure
    let (anchor, tag) ← properties
    let next ← peek
    let n ← match next with
      | some (.scalar plain text) => do
        skip
        pure (.scalar tag plain text)
      | some .sequenceStart => do
        skip
        pure (.sequence (← bracketItems bound true))
      | some .mappingStart => do
        skip
        pure (.mapping (← bracketEntries bound true))
      | other =>
        if items && other == some .item then .sequence <$> looseItems bound
        else if block && other == some .blockSequence then do
          skip
          .sequence <$> blockItems bound
        else if block && other == some .blockMapping then do
          skip
          .mapping <$> blockEntries bound
        else if anchor.isSome || tag.isSome then pure (.scalar tag true "")
        else failure
    if let some name := anchor then
      modify fun r => { r with anchors := r.anchors.insert name n }
    return n

/-- Reads the items of a block up to its end. -/
def blockItems : (bound : Nat) → NodeReader (List Node)
  | 0 => failure
  | bound + 1 => do
    if ← skipIf .blockEnd then return []
    demand .item
    let n ← if ← isNext [.item, .blockEnd] then pure .missing else node bound true false
    return n :: (← blockItems bound)

/-- Reads items that have no block of their own. -/
def looseItems : (bound : Nat) → NodeReader (List Node)
  | 0 => failure
  | bound + 1 => do
    if !(← skipIf .item) then return []
    let n ← if ← isNext (.item :: blockEnds) then pure .missing else node bound true false
    return n :: (← looseItems bound)

/-- Reads the entries of a block up to its end. A key or a value can be missing. -/
def blockEntries : (bound : Nat) → NodeReader (List (Node × Node))
  | 0 => failure
  | bound + 1 => do
    if ← skipIf .blockEnd then return []
    let k ← if ← skipIf .key then
        if ← isNext blockEnds then pure .missing else node bound true true
      else if ← isNext [.value] then pure .missing
      else failure
    let v ← if ← skipIf .value then
        if ← isNext blockEnds then pure .missing else node bound true true
      else pure .missing
    return (k, v) :: (← blockEntries bound)

/-- Reads the items of a sequence between brackets. An item with a colon is a mapping of one entry. -/
def bracketItems : (bound : Nat) → (first : Bool) → NodeReader (List Node)
  | 0, _ => failure
  | bound + 1, first => do
    if ← skipIf .sequenceEnd then return []
    if !first then demand .comma
    if ← skipIf .sequenceEnd then return []
    let n ← if ← skipIf .key then do
        let k ← if ← isNext [.value, .comma, .sequenceEnd] then do
            skip
            pure .missing
          else node bound false false
        let v ← bracketValue bound .sequenceEnd
        pure (.mapping [(k, v)])
      else node bound false false
    return n :: (← bracketItems bound false)

/-- Reads the entries of a mapping between brackets. A key or a value can be missing. -/
def bracketEntries : (bound : Nat) → (first : Bool) → NodeReader (List (Node × Node))
  | 0, _ => failure
  | bound + 1, first => do
    if ← skipIf .mappingEnd then return []
    if !first then demand .comma
    if ← skipIf .mappingEnd then return []
    let (k, v) ← if ← skipIf .key then do
        let k ← if ← isNext [.value, .comma, .mappingEnd] then pure .missing else node bound false false
        pure (k, ← bracketValue bound .mappingEnd)
      else do
        let k ← node bound false false
        pure (k, .missing)
    return (k, v) :: (← bracketEntries bound false)

/-- Reads the value of an entry between brackets, if there is one. -/
def bracketValue : (bound : Nat) → (closing : Token) → NodeReader Node
  | 0, _ => failure
  | bound + 1, closing => do
    if ← skipIf .value then
      if ← isNext [.comma, closing] then return .missing else node bound false false
    else return .missing
end

/-! ## Documents -/

/-- Reads the directives in front of a document: one version at most, which is 1.1 or 1.2, and short forms for
tags, each once. -/
def directives : List Token → (versioned : Bool) → NodeReader Unit
  | .version major minor :: rest, versioned => do
    let minorNumber := natOf? 10 minor
    if versioned || natOf? 10 major != some 1 || (minorNumber != some 1 && minorNumber != some 2) then failure
    skip
    directives rest true
  | .shorthand handle front :: rest, versioned => do
    if (← get).shorthands.contains handle then failure
    modify fun r => { r with shorthands := r.shorthands.insert handle front }
    skip
    directives rest versioned
  | _, _ => return

/-- Whether a token can only stand in front of a document. -/
def isPreamble : Token → Bool
  | .version _ _ | .shorthand _ _ | .documentStart => true
  | _ => false

/-- Reads the only document there is. -/
def document : NodeReader Node := do
  let tokens := (← get).tokens
  let bound := 2 * tokens.length + 2
  let n ← match tokens with
    | [] => pure .missing
    | first :: _ =>
      if isPreamble first then do
        directives tokens false
        demand .documentStart
        let next ← peek
        if next.all fun t => isPreamble t || t == .documentEnd then pure .missing else node bound true false
      else node bound true false
  if (← get).tokens.all (· == .documentEnd) then return n else failure

end NodeReader

/-- The document that a text holds, if it holds just one. -/
def read? (text : String) : Option Node := do
  let tokens ← tokens? text
  let (n, _) ← NodeReader.document.run { tokens }
  return n

end Yaml

end RouteManifest
