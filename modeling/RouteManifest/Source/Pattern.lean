import RouteManifest.Source.TypeReading

/-!
# Patterns of parameters

A parameter is declared by a pattern. What counts is the name it binds: a name by itself, behind `&`, or as the
only thing in a wrapper such as `Path(id)`.
-/

namespace RouteManifest

namespace Source

/-- A pattern. -/
inductive Pattern where
  | name (text : String)
  /-- a path with patterns in parentheses -/
  | wrapper (elements : List Pattern)
  | reference (target : Pattern)
  | other
deriving Repr

namespace Reading

/-- Whether a pattern ahead begins with a path. -/
def atPathPattern (trees : List TokenTree) : Bool :=
  let next := trees.drop 1
  (atName trees && (atMarks "::" next || atMarks "!" next || atGroup .curly next || atGroup .round next
      || atMarks ".." next))
    || (atWord "self" trees && atMarks "::" next) || atMarks "::" trees || atMarks "<" trees
    || atOneOf ["Self", "super", "crate"] trees

/-- Whether no bound of a range follows. -/
def atRangeEnd (trees : List TokenTree) : Bool :=
  trees.isEmpty || atMarks "|" trees || atMarks "=" trees || (atMarks ":" trees && !atMarks "::" trees)
    || atMarks "," trees || atMarks ";" trees || atWord "if" trees

/-- A path in a pattern; tells whether it is one that can name a macro. -/
def patternPath : Reading Bool := do
  if ← ahead (atMarks "<") then
    projection typeTerm true
    return false
  else return (← path typeTerm true).isPlain

/-- A bound of a range. -/
def rangeBound : Reading Unit := do
  if ← ahead atLiteral then literal
  else if ← maybeWord "const" then group .curly
  else
    let _ ← patternPath

/-- The rest of a range behind its lower bound, if it is one. -/
def rangeRest : Reading Unit := do
  if ← operator rangeOperators then
    if !(← ahead atRangeEnd) then rangeBound

section

variable (pattern : Reading Pattern)

/-- Patterns of which one has to match. -/
def alternatives : Reading Pattern := do
  let led ← maybeMarks "|"
  let first ← pattern
  let others ← manyWhile (fun trees => atMarks "|" trees && !atMarks "||" trees && !atMarks "|=" trees) do
    marks "|"
    pattern
  return if led || !others.isEmpty then .other else first

/-- A field of a struct in a pattern. -/
def fieldPattern : Reading Unit := do
  passAttributes
  if ← maybeMarks ".." then check List.isEmpty
  else
    let boxed ← maybeWord "box"
    let byReference ← maybeWord "ref"
    let changing ← maybeWord "mut"
    if boxed || byReference || changing then
      let _ ← name
    else
      let numbered ← ahead fun trees => atLiteral trees && !atAnyWord trees
      if numbered then literal
      else
        let _ ← name
      if numbered || (← ahead (atMarks ":")) then
        marks ":"
        let _ ← alternatives pattern

/-- A pattern that begins with a path. -/
def pathPattern : Reading Pattern := do
  let plain ← patternPath
  if plain && (← ahead fun trees => atMarks "!" trees && !atMarks "!=" trees) then
    marks "!"
    anyGroup
    return .other
  else if ← ahead (atGroup .curly) then
    let _ ← inside .curly (commaList (fieldPattern pattern))
    return .other
  else if ← ahead (atGroup .round) then
    return .wrapper (← inside .round (commaList (alternatives pattern)))
  else
    rangeRest
    return .other

/-- One pattern, its parts read by the reader of patterns. -/
def patternStep : Reading Pattern := do
  if ← ahead atPathPattern then pathPattern pattern
  else if ← maybeWord "_" then return .other
  else if ← maybeWord "box" then
    let _ ← pattern
    return .other
  else if ← ahead fun trees => atLiteral trees || atMarks "-" trees || atWord "const" trees then
    rangeBound
    rangeRest
    return .other
  else if ← ahead fun trees => atName trees || atOneOf ["ref", "mut", "self"] trees then
    let _ ← maybeWord "ref"
    let _ ← maybeWord "mut"
    let n ← if ← ahead (atWord "self") then anyWord else name
    if ← maybeMarks "@" then
      let _ ← pattern
    return .name n
  else if ← maybeMarks "&" then
    let _ ← maybeWord "mut"
    return .reference (← pattern)
  else if ← ahead (atGroup .round) then
    let _ ← inside .round (commaList (alternatives pattern))
    return .other
  else if ← ahead (atGroup .square) then
    let _ ← inside .square (commaList (alternatives pattern))
    return .other
  else if ← ahead fun trees => atMarks ".." trees && !atMarks "..." trees then
    rangeRest
    return .other
  else failure

end

/-- A pattern nested to a depth at most. -/
def patternWithin : Nat → Reading Pattern
  | 0 => failure
  | depth + 1 => patternStep (patternWithin depth)

/-- A pattern. -/
def parameterPattern : Reading Pattern := bounded patternWithin

end Reading

end Source

end RouteManifest
