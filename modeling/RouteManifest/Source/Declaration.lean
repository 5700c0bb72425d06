import RouteManifest.Source.Item

/-!
# Reading what items are made of

Attributes, visibility, generic parameters, fields, variants and signatures of functions.

The body of a function is a group in braces, of which only the attributes at its beginning are read. What an interface
shows never comes from its statements, and they are not parsed: `fn get() { let x = ; }` is read like any other function,
though it is no function of the language.
-/

namespace RouteManifest

namespace Source

namespace Reading

/-! ## Attributes -/

/-- A path of plain words: whether it begins with `::`, and the words. -/
def plainPath : Reading (Bool × List String) := do
  let rooted ← maybeMarks "::"
  let step : Reading String := do
    check atPathWord
    anyWord
  let first ← step
  let rest ← manyWhile (atMarks "::") do
    marks "::"
    step
  return (rooted, first :: rest)

/-- The text ahead, if nothing else is. -/
def onlyText? : List TokenTree → Option String
  | [.leaf _ (.literal (.text value))] => some value
  | _ => none

/-- What stands between the brackets of an attribute. -/
def attributeContent : Reading Attribute := do
  let name ← if ← maybeWord "unsafe" then pure (some "unsafe") else do
    match ← plainPath with
    | (false, [word]) => pure (some word)
    | _ => pure none
  match ← get with
  | .group _ _ trees :: _ =>
    drop 1
    return ⟨name, .list trees⟩
  | _ =>
    if ← maybeMarks "=" then
      let text := onlyText? (← get)
      expression typeTerm
      return ⟨name, .value text⟩
    else return ⟨name, .nothing⟩

/-- The attributes of what follows. -/
def attributes : Reading (List Attribute) :=
  manyWhile (atMarks "#") do
    marks "#"
    inside .square attributeContent

/-- The attributes of what they stand in. -/
def innerAttributes : Reading (List Attribute) :=
  manyWhile (fun trees => atMarks "#" trees && atMarks "!" (trees.drop 1)) do
    marks "#"
    marks "!"
    inside .square attributeContent

/-! ## Visibility -/

/-- Who can see an item. -/
inductive Visibility where
  | inherited | restricted | everyone
deriving DecidableEq

/-- Who can see what follows. Parentheses that do not restrict the visibility belong to what follows. -/
def visibility : Reading Visibility := do
  if ← maybeWord "pub" then
    match ← get with
    | .group _ .round inner :: _ =>
      if atOneOf ["crate", "self", "super"] inner then
        if inner.length = 1 then
          drop 1
          return .restricted
        else return .everyone
      else if atWord "in" inner then
        inside .round do
          word "in"
          let _ ← plainPath
        return .restricted
      else return .everyone
    | _ => return .everyone
  else return .inherited

/-! ## Generic parameters -/

/-- A bound of a type or a trait. -/
def traitBound : Reading Bound := bound typeTerm

/-- A generic parameter; its name if it stands for a type. -/
def genericParam : Reading (Option String) := do
  let _ ← attributes
  if ← ahead atLifetime then
    lifetime
    lifetimeBounds fun trees => atMarks "," trees || atMarks ">" trees
    return none
  else if ← ahead atName then
    let n ← name
    if ← maybeMarks ":" then
      let _ ← listWhile "+" (fun trees => atMarks "," trees || atMarks ">" trees || atMarks "=" trees) traitBound
    if ← maybeMarks "=" then
      let _ ← typeTerm true
    return some n
  else if ← maybeWord "const" then
    let _ ← name
    marks ":"
    let _ ← typeTerm true
    if ← maybeMarks "=" then constantArgument
    return none
  else
    word "_"
    return some "_"

/-- The generic parameters that stand for types. -/
def generics : Reading (List String) := do
  if ← ahead (atMarks "<") then
    marks "<"
    let params ← listUntil (atMarks ">") (marks ",") genericParam
    marks ">"
    return params.filterMap id
  else return []

/-- Where a list of conditions ends, or the bounds of one. -/
def atConditionEnd (trees : List TokenTree) : Bool :=
  trees.isEmpty || atGroup .curly trees || atMarks "," trees || atMarks ";" trees
    || (atMarks ":" trees && !atMarks "::" trees) || atMarks "=" trees

/-- A condition on generic parameters. -/
def condition : Reading Unit := do
  if ← ahead fun trees => atLifetime trees && atMarks ":" (trees.drop 1) then
    lifetime
    marks ":"
    let _ ← listWhile "+" atConditionEnd lifetime
  else
    if ← ahead (atWord "for") then forLifetimes
    let _ ← typeTerm true
    marks ":"
    let _ ← listWhile "+" atConditionEnd traitBound

/-- Conditions on generic parameters, if there are any; tells whether there are. -/
def conditions : Reading Bool := do
  if ← maybeWord "where" then
    let _ ← listWhile "," atConditionEnd condition
    return true
  else return false

/-! ## Fields and variants -/

/-- A field with its name. -/
def namedField : Reading (String × Field) := do
  let attrs ← attributes
  let _ ← visibility
  let unnamed ← ahead (atWord "_")
  let n ← if unnamed then anyWord else name
  marks ":"
  if unnamed && (← ahead fun trees =>
      atWord "struct" trees || (atWord "union" trees && atGroup .curly (trees.drop 1))) then
    drop 1
    group .curly
    return (n, ⟨attrs, .other⟩)
  else return (n, ⟨attrs, ← typeTerm true⟩)

/-- A field without name. -/
def positionalField : Reading Field := do
  let attrs ← attributes
  let _ ← visibility
  return ⟨attrs, ← typeTerm true⟩

/-- Fields in braces. -/
def namedFields : Reading Fields := do return .named (← inside .curly (commaList namedField))

/-- Fields in parentheses. -/
def positionalFields : Reading Fields := do return .positional (← inside .round (commaList positionalField))

/-- The fields of a struct behind its generic parameters. -/
def structFields : Reading Fields := do
  if ← conditions then
    if ← maybeMarks ";" then return .unit else namedFields
  else if ← ahead (atGroup .round) then
    let fields ← positionalFields
    let _ ← conditions
    marks ";"
    return fields
  else if ← maybeMarks ";" then return .unit
  else namedFields

/-- A variant of an enum. -/
def variant : Reading Variant := do
  let attrs ← attributes
  let _ ← visibility
  let n ← name
  let fields ←
    if ← ahead (atGroup .curly) then namedFields
    else if ← ahead (atGroup .round) then positionalFields
    else pure .unit
  if ← maybeMarks "=" then expression typeTerm
  return ⟨n, attrs, fields⟩

/-! ## Functions -/

/-- Whether the signature of a function is ahead. -/
def atSignature (trees : List TokenTree) : Bool :=
  let behind (word : String) (trees : List TokenTree) := if atWord word trees then trees.drop 1 else trees
  let trees := behind "unsafe" (behind "async" (behind "const" trees))
  atWord "fn" (match trees with
    | .leaf _ (.word "extern") :: .leaf _ (.literal (.text _)) :: rest => rest
    | .leaf _ (.word "extern") :: rest => rest
    | _ => trees)

/-- A parameter that receives the object of a method. -/
def receiver : Reading FunctionParam := do
  let byReference ← maybeMarks "&"
  if byReference then
    let _ ← whenAhead atLifetime lifetime
  let _ ← maybeWord "mut"
  word "self"
  if !byReference && (← maybeMarks ":") then
    let _ ← typeTerm true
  return .receiver

/-- A parameter with a pattern, or with nothing but a type; `none` if any number of arguments follows. -/
def typedParam : Reading (Option FunctionParam) := do
  let p ← place
  if ← ahead fun trees => atName trees && atMarks "<" (trees.drop 1) then
    return some (.typed .other p (← typeTerm true))
  else
    let pattern ← parameterPattern
    marks ":"
    if ← maybeMarks "..." then return none
    else return some (.typed pattern p (← typeTerm true))

/-- A parameter of a function. -/
def functionParam : Reading (Option FunctionParam) := do
  let _ ← attributes
  if ← maybeMarks "..." then return none
  else some <$> receiver <|> typedParam

/-- Whether only the first parameter is a receiver, and only the last stands for any number. -/
def paramsInOrder (params : List (Option FunctionParam)) : Bool :=
  params.tail.all (fun
    | some .receiver => false
    | _ => true) && params.dropLast.all Option.isSome

/-- The parameters of a function. -/
def functionParams : Reading (List FunctionParam) := do
  let params ← inside .round (commaList functionParam)
  if paramsInOrder params then return params.filterMap id else failure

/-- A function up to its body, its visibility and attributes left to be filled in. -/
def signature : Reading Function := do
  let _ ← maybeWord "const"
  let _ ← maybeWord "async"
  let _ ← maybeWord "unsafe"
  if ← maybeWord "extern" then
    let _ ← whenAhead (fun trees => match trees with
      | .leaf _ (.literal (.text _)) :: _ => true
      | _ => false) (drop 1)
  word "fn"
  let p ← place
  let n ← name
  let typeParams ← generics
  let params ← functionParams
  let output ← returnType typeTerm true
  let _ ← conditions
  return { isPublic := false, name := n, place := p, attributes := [], typeParams, params, output }

/-- A body, of which only the attributes at its beginning are looked at. Any statements will do, well formed or not. -/
def body : Reading (List Attribute) := fun trees =>
  match trees with
  | .group _ .curly inner :: rest => (innerAttributes inner).map fun (attrs, _) => (attrs, rest)
  | _ => none

end Reading

end Source

end RouteManifest
