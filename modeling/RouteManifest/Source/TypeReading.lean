import RouteManifest.Source.Expression

/-!
# Reading types

The grammar of types. `typeStep` reads one type and takes the reader of the types inside it as an argument;
`typeTerm` ties the knot with a bound on the depth, which suffices because a type inside another stands behind
at least one token of it.

Where a `+` would be ambiguous, as behind `&`, a type is read without bounds behind a `+`.
-/

namespace RouteManifest

namespace Source

namespace Reading

section

variable (type : TypeReader)

/-- A function pointer behind the lifetimes it holds for. -/
def functionPointer : Reading TypeTerm := do
  let _ ← maybeWord "unsafe"
  if ← maybeWord "extern" then
    let _ ← whenAhead (fun trees => match trees with
      | .leaf _ (.literal (.text _)) :: _ => true
      | _ => false) (drop 1)
  word "fn"
  let _ ← inside .round (commaList do
    passAttributes
    let dots ← maybeMarks "..."
    if !dots then
      if ← ahead fun trees => atWord "mut" trees && atWord "self" (trees.drop 1) then drop 1
      let named ← whenAhead (fun trees =>
        (atName trees || atOneOf ["_", "self"] trees) && atMarks ":" (trees.drop 1)
          && !atMarks "::" (trees.drop 1)) (drop 2)
      let dots ← if named then maybeMarks "..." else pure false
      if !dots then
        let _ ← type true)
  let _ ← returnType type false
  return .function

/-- Bounds behind the first, which is already read. -/
def moreBounds (first : Bound) : Reading TypeTerm := do
  marks "+"
  let rest ← listWhile "+" (fun trees => !atBound trees) (bound type)
  return .anyType ((first :: rest).filterMap Bound.trait?)

/-- What stands in parentheses: a tuple, or one type. -/
def roundType : Reading TypeTerm := do
  if ← ahead List.isEmpty then return .tuple []
  else if ← ahead atLifetime then return .parenthesized (.anyType (← traitBounds type true))
  else if ← ahead (atMarks "?") then return .anyType (← traitBounds type true)
  else
    let first ← type true
    if ← maybeMarks "," then return .tuple (first :: (← commaList (type true)))
    else return .parenthesized first

/-- A type that begins with a name. -/
def pathType (lifetimes plus : Bool) : Reading TypeTerm := do
  let p ← path type false
  let p ← if p.last.args.isNone && (← ahead atRoundArguments) then
      roundArguments type
      pure (p.withArgs [])
    else pure p
  if p.isPlain && (← ahead fun trees => atMarks "!" trees && !atMarks "!=" trees) then
    marks "!"
    anyGroup
    return .other
  else if plus && (← ahead (atMarks "+")) then moreBounds type (.trait p.last.name)
  else if lifetimes then return .anyType [p.last.name]
  else return p.toTypeTerm

/-- The single trait that a type can stand for as a bound. -/
def boundOf? : TypeTerm → Option Bound
  | .parenthesized (.path _ _ name _) => some (.trait name)
  | .parenthesized (.anyType [name]) => some (.trait name)
  | _ => none

/-- One type, its parts read by the reader of types. -/
def typeStep (plus : Bool) : Reading TypeTerm := do
  let lifetimes ← whenAhead (atWord "for") forLifetimes
  if lifetimes then
    check fun trees => (atPathWord trees || atOneOf ["fn", "unsafe", "extern"] trees)
  if ← ahead (atGroup .round) then
    let t ← inside .round (roundType type)
    match boundOf? t with
    | some b => if plus && (← ahead (atMarks "+")) then moreBounds type b else return t
    | none => return t
  else if ← ahead (atOneOf ["fn", "unsafe", "extern"]) then functionPointer type
  else if ← ahead (atMarks "<") then
    projection type false
    return .other
  else if ← ahead fun trees => atPathWord trees || atMarks "::" trees then pathType type lifetimes plus
  else if ← maybeWord "dyn" then
    let star ← maybeMarks "*"
    let traits ← traitBounds type plus
    return if star then .other else .anyType traits
  else if ← ahead (atGroup .square) then
    inside .square do
      let element ← type true
      if ← maybeMarks ";" then
        expression type
        return .array element
      else return .slice element
  else if ← maybeMarks "*" then
    if !(← maybeWord "const") then word "mut"
    let _ ← type false
    return .other
  else if ← maybeMarks "&" then
    let _ ← whenAhead atLifetime lifetime
    let _ ← maybeWord "mut"
    return .reference (← type false)
  else if ← ahead fun trees => atMarks "!" trees && !atMarks "=" trees then
    marks "!"
    return .other
  else if ← maybeWord "impl" then return .someType (← traitBounds type plus)
  else if ← maybeWord "_" then return .other
  else if ← ahead atLifetime then return .anyType (← traitBounds type plus)
  else failure

end

/-- A type nested to a depth at most. -/
def typeWithin : Nat → TypeReader
  | 0 => fun _ => failure
  | depth + 1 => typeStep (typeWithin depth)

/-- A type. -/
def typeTerm (plus : Bool) : Reading TypeTerm := bounded fun depth => typeWithin depth plus

end Reading

end Source

end RouteManifest
