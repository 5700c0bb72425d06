import RouteManifest.Source.Reading
import RouteManifest.Source.TypeTerm

/-!
# Reading paths

The grammar of paths, of their arguments and of bounds. Types are nested in all of them, so every part takes
the reader of types as an argument.
-/

namespace RouteManifest

namespace Source

namespace Reading

/-- Reads a type, with or without bounds behind a `+`. -/
abbrev TypeReader := Bool → Reading TypeTerm

/-- One name of a path, with its type arguments if it has arguments. -/
structure Segment where
  name : String
  args : Option (List TypeTerm) := none

/-- A path that is no projection. -/
structure PathTerm where
  rooted : Bool
  segments : List Segment

namespace PathTerm

/-- Whether no name of the path has arguments. -/
def isPlain (p : PathTerm) : Bool := p.segments.all fun s => s.args.isNone

/-- The last name with its arguments. -/
def last (p : PathTerm) : Segment := p.segments.getLast?.getD ⟨"", none⟩

/-- The path as a type. -/
def toTypeTerm (p : PathTerm) : TypeTerm :=
  .path p.rooted (p.segments.dropLast.map Segment.name) p.last.name (p.last.args.getD [])

/-- The path with arguments of its last name. -/
def withArgs (p : PathTerm) (args : List TypeTerm) : PathTerm :=
  { p with segments := p.segments.dropLast ++ [⟨p.last.name, some args⟩] }

end PathTerm

/-- What a type must have. -/
inductive Bound where
  | trait (name : String)
  | lifetime
  /-- what a type captures, or a trait that counts in constants only -/
  | other
deriving DecidableEq

namespace Bound

/-- The name of a trait. -/
def trait? : Bound → Option String
  | .trait name => some name
  | _ => none

end Bound

/-! ## Attributes, passed over -/

/-- Passes over attributes in front of something. -/
def passAttributes : Reading Unit := do
  let _ ← manyWhile (atMarks "#") do
    marks "#"
    group .square

section

variable (type : TypeReader)

/-! ## Arguments -/

/-- A constant as an argument. -/
def constantArgument : Reading Unit := do
  if ← ahead atLiteral then literal
  else if ← ahead atName then drop 1
  else group .curly

/-- The type behind an arrow, if there is one. -/
def returnType (plus : Bool) : Reading (Option TypeTerm) := do
  if ← maybeMarks "->" then some <$> type plus else return none

/-- Whether arguments in parentheses follow a path. -/
def atRoundArguments (trees : List TokenTree) : Bool :=
  atGroup .round trees || (atMarks "::" trees && atGroup .round (trees.drop 2))

/-- Arguments in parentheses with the type of the result. They are no type arguments. -/
def roundArguments : Reading Unit := do
  let _ ← maybeMarks "::"
  let _ ← inside .round (commaList (type true))
  let _ ← returnType type false

/-- Lifetimes that a lifetime must outlive. -/
def lifetimeBounds (stop : List TokenTree → Bool) : Reading Unit := do
  if ← maybeMarks ":" then
    let _ ← listWhile "+" stop lifetime

/-- The lifetimes that something holds for. -/
def forLifetimes : Reading Unit := do
  word "for"
  marks "<"
  let _ ← listUntil (atMarks ">") (marks ",") do
    passAttributes
    lifetime
    lifetimeBounds fun trees => atMarks "," trees || atMarks ">" trees
  marks ">"

/-- The bound ahead, given a reader of type arguments in angle brackets. -/
def boundWith (path : Reading PathTerm) : Reading Bound := do
  let trait : Reading Bound := do
    if ← ahead (atWord "for") then forLifetimes
    let constant ← whenAhead (atMarks "~") do
      marks "~"
      word "const"
    let relaxed ← maybeMarks "?"
    if relaxed && (← ahead (atWord "for")) then forLifetimes
    let p ← path
    if p.last.args.isNone && (← ahead atRoundArguments) then roundArguments type
    return if constant then .other else .trait p.last.name
  if ← ahead atLifetime then
    lifetime
    return .lifetime
  else if ← ahead (atWord "use") then
    word "use"
    marks "<"
    let _ ← listUntil (atMarks ">") (marks ",") do
      if ← ahead atLifetime then lifetime
      else
        let _ ← anyWord
    marks ">"
    return .other
  else if ← ahead (atGroup .round) then inside .round trait
  else trait

/-- An argument in angle brackets; `none` for one that is no type. -/
def genericArgument (bound : Reading Bound) : Reading (Option TypeTerm) := do
  if ← ahead fun trees => atLifetime trees && !atMarks "+" (trees.drop 1) then
    lifetime
    return none
  else if ← ahead fun trees => atLiteral trees || atGroup .curly trees then
    constantArgument
    return none
  else
    let t ← type true
    match t with
    | .path false [] _ _ =>
      if ← maybeMarks "=" then
        if ← ahead fun trees => atLiteral trees || atGroup .curly trees then constantArgument
        else
          let _ ← type true
        return none
      else if ← maybeMarks ":" then
        let _ ← listWhile "+" (fun trees => atMarks "," trees || atMarks ">" trees) bound
        return none
      else return some t
    | _ => return some t

/-! ## Paths -/

/-- A name of a path. In an expression arguments need `::` in front of them. -/
def segmentWith (argument : Reading (Option TypeTerm)) (expression : Bool) : Reading Segment := do
  if ← ahead (atOneOf ["super", "self", "crate", "try"]) then return ⟨← anyWord, none⟩
  else
    let n ← if ← ahead (atWord "Self") then anyWord else name
    if ← ahead fun trees =>
        (!expression && atMarks "<" trees && !atMarks "<=" trees && !atMarks "<<=" trees)
          || (atMarks "::" trees && atMarks "<" (trees.drop 2)) then
      let _ ← maybeMarks "::"
      marks "<"
      let args ← listUntil (atMarks ">") (marks ",") argument
      marks ">"
      return ⟨n, some (args.filterMap id)⟩
    else return ⟨n, none⟩

/-- Names joined by `::`. -/
def pathWith (segment : Reading Segment) : Reading PathTerm := do
  let rooted ← maybeMarks "::"
  let first ← segment
  let rest ← manyWhile (fun trees => atMarks "::" trees && !atGroup .round (trees.drop 2)) do
    marks "::"
    segment
  return ⟨rooted, first :: rest⟩

end

/-- A name of a path, given the reader of types and a depth for the bounds in its arguments. -/
def segmentWithin (type : TypeReader) (expression : Bool) : Nat → Reading Segment
  | 0 => failure
  | depth + 1 =>
    let bound := boundWith type (pathWith (segmentWithin type false depth))
    segmentWith (genericArgument type bound) expression

section

variable (type : TypeReader)

/-- A path. -/
def path (expression : Bool) : Reading PathTerm :=
  bounded fun depth => pathWith (segmentWithin type expression depth)

/-- A bound. -/
def bound : Reading Bound := boundWith type (path type false)

/-- Whether a bound can follow a `+`. -/
def atBound (trees : List TokenTree) : Bool :=
  atAnyWord trees || atMarks "::" trees || atMarks "?" trees || atMarks "~" trees || atLifetime trees
    || atGroup .round trees

/-- Bounds joined by `+`. -/
def bounds (plus : Bool) : Reading (List Bound) := do
  let first ← bound type
  if plus && (← maybeMarks "+") then
    return first :: (← listWhile "+" (fun trees => !atBound trees) (bound type))
  else return [first]

/-- Bounds of which at least one is no lifetime. -/
def traitBounds (plus : Bool) : Reading (List String) := do
  let all ← bounds type plus
  if all.all (· == .lifetime) then failure
  return all.filterMap Bound.trait?

/-- A type behind a projection of another: `<T as Trait>::Name`. -/
def projection (expression : Bool) : Reading Unit := do
  marks "<"
  let _ ← type true
  if ← maybeWord "as" then
    let _ ← path type false
  marks ">"
  marks "::"
  let p ← path type expression
  if p.rooted then failure
  if p.last.args.isNone && !expression && (← ahead atRoundArguments) then roundArguments type

end

end Reading

end Source

end RouteManifest
