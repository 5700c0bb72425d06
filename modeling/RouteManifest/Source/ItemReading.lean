import RouteManifest.Source.Declaration

/-!
# Reading a source file

The grammar of items. Modules are the only items whose items count; those of traits and implementations are
read to see that they are well formed, and dropped.

Neither the statements of a function's body nor what stands in brackets inside an expression is parsed. A file is refused
for a token that there is not, for brackets that do not match and for the shape of its items, and for nothing inside those.
So `SourceFile.parse?` reads more than the language has: `fn get() { let x = ; }` is a file with a function `get`.
-/

namespace RouteManifest

namespace Source

namespace Reading

/-! ## Items of which nothing is kept -/

/-- A name after `as`, if there is one. -/
def rename : Reading Unit := do
  if ← maybeWord "as" then
    if !(← maybeWord "_") then
      let _ ← name

/-- What a `use` names, nested to a depth at most. -/
def useTree : Nat → Bool → Reading Unit
  | 0, _ => failure
  | depth + 1, rooted => do
    if ← ahead fun trees => atName trees || atOneOf ["self", "super", "crate", "try"] trees then
      drop 1
      if ← maybeMarks "::" then useTree depth false else rename
    else if ← maybeMarks "*" then return
    else
      let _ ← inside .curly (commaList do
        let begun ← if rooted then maybeMarks "::" else pure false
        useTree depth (rooted && !begun))

/-- A `use` behind its word. -/
def useItem : Reading Unit := do
  let rooted ← maybeMarks "::"
  bounded fun depth => useTree depth (!rooted)
  marks ";"

/-- A constant behind its word. -/
def constantItem : Reading Unit := do
  if !(← maybeWord "_") then
    let _ ← name
  let _ ← generics
  marks ":"
  let _ ← typeTerm true
  if ← maybeMarks "=" then expression typeTerm
  let _ ← conditions
  marks ";"

/-- A variable of the program behind its word. -/
def staticItem : Reading Unit := do
  let _ ← maybeWord "mut"
  let _ ← name
  if ← maybeMarks ":" then
    let _ ← typeTerm true
  if ← maybeMarks "=" then expression typeTerm
  marks ";"

/-- A use of a macro as an item. -/
def macroItem : Reading Unit := do
  let _ ← plainPath
  marks "!"
  let _ ← whenAhead (fun trees => atName trees || atWord "try" trees) (drop 1)
  if ← ahead (atGroup .curly) then drop 1
  else
    anyGroup
    marks ";"

/-- Whether a use of a macro is ahead. -/
def atMacroItem (trees : List TokenTree) : Bool :=
  atName trees || atOneOf ["self", "super", "crate"] trees || atMarks "::" trees

/-- The bounds of a type that is declared: whether there are any. -/
def declaredBounds : Reading Bool := do
  if ← maybeMarks ":" then
    let _ ← listWhile "+" (fun trees => atWord "where" trees || atMarks "=" trees || atMarks ";" trees) traitBound
    return true
  else return false

/-- A type of a trait or an implementation behind its word. -/
def associatedType : Reading Unit := do
  let _ ← name
  let _ ← generics
  let _ ← declaredBounds
  if ← maybeMarks "=" then
    let _ ← typeTerm true
  let _ ← conditions
  marks ";"

/-- An item of a trait or an implementation. -/
def associatedItem : Reading Unit := do
  let _ ← attributes
  let v ← visibility
  let preset ← whenAhead (fun trees => atWord "default" trees && !atMarks "!" (trees.drop 1)) (drop 1)
  if ← ahead atSignature then
    let _ ← signature
    if !(← maybeMarks ";") then
      let _ ← body
  else if ← maybeWord "const" then constantItem
  else if ← maybeWord "type" then associatedType
  else if v = .inherited && !preset && (← ahead atMacroItem) then macroItem
  else failure

/-- Associated items in braces. -/
def associatedItems : Reading Unit := do
  let _ ← inside .curly do
    let _ ← innerAttributes
    toEnd associatedItem

/-- An item that is defined elsewhere. -/
def foreignItem : Reading Unit := do
  let _ ← attributes
  let v ← visibility
  let _ ← whenAhead (fun trees => atWord "safe" trees && (atSignature (trees.drop 1)
    || atWord "static" (trees.drop 1))) (drop 1)
  if ← ahead atSignature then
    let _ ← signature
    if !(← maybeMarks ";") then
      let _ ← body
  else
    let _ ← whenAhead (fun trees => atWord "unsafe" trees && atWord "static" (trees.drop 1)) (drop 1)
    if ← maybeWord "static" then staticItem
    else if ← maybeWord "type" then associatedType
    else if v = .inherited && (← ahead atMacroItem) then macroItem
    else failure

/-- Foreign items in braces. -/
def foreignItems : Reading Unit := do
  let _ ← inside .curly do
    let _ ← innerAttributes
    toEnd foreignItem

/-- What follows `extern` in an item. -/
def externItem : Reading Unit := do
  if ← maybeWord "crate" then
    if !(← maybeWord "self") then
      let _ ← name
    rename
    marks ";"
  else
    let _ ← whenAhead (fun trees => match trees with
      | .leaf _ (.literal (.text _)) :: _ => true
      | _ => false) (drop 1)
    foreignItems

/-- A trait behind its word. -/
def traitItem : Reading Unit := do
  let _ ← name
  let _ ← generics
  if ← maybeMarks "=" then
    let _ ← listWhile "+" (fun trees => atWord "where" trees || atMarks ";" trees) traitBound
    let _ ← conditions
    marks ";"
  else
    if ← maybeMarks ":" then
      let _ ← listWhile "+" (fun trees => atWord "where" trees || atGroup .curly trees) traitBound
    let _ ← conditions
    associatedItems

/-- Whether generic parameters are ahead, and not a projection. -/
def atGenerics (trees : List TokenTree) : Bool :=
  let second := trees.drop 1
  let third := trees.drop 2
  atMarks "<" trees && (atMarks ">" second || atMarks "#" second || atWord "const" second
    || ((atLifetime second || atName second) && (atMarks ">" third || atMarks "," third
      || (atMarks ":" third && !atMarks "::" third) || atMarks "=" third)))

/-- An implementation behind its word. -/
def implementation : Reading Unit := do
  if ← ahead atGenerics then
    let _ ← generics
  if ← ahead fun trees => atMarks "?" trees && atWord "const" (trees.drop 1) then drop 1
  let _ ← maybeWord "const"
  if ← ahead fun trees => atMarks "!" trees && !atGroup .curly (trees.drop 1) then drop 1
  let _ ← typeTerm true
  if ← maybeWord "for" then
    let _ ← typeTerm true
  let _ ← conditions
  associatedItems

/-- A macro of the second kind behind its word. -/
def macroDefinition : Reading Unit := do
  let _ ← name
  let _ ← whenAhead (atGroup .round) (drop 1)
  group .curly

/-! ## Items -/

/-- The name of a declared type and its generic parameters, behind its word. -/
def typeHead (attrs : List Attribute) : Reading TypeHead := do
  let p ← place
  let n ← name
  return ⟨n, p, attrs, ← generics⟩

/-- A synonym behind its word; without a type, or with bounds on it, it stands for nothing. -/
def synonymItem (attrs : List Attribute) : Reading Item := do
  let head ← typeHead attrs
  let bounded ← declaredBounds
  let _ ← conditions
  let target ← if ← maybeMarks "=" then some <$> typeTerm true else pure none
  marks ";"
  match target with
  | some t => return if bounded then .other else .synonym head t
  | none => return .other

/-- A function with its attributes; without a body it does not count. -/
def functionItem (attrs : List Attribute) (v : Visibility) : Reading Item := do
  let f ← signature
  if ← maybeMarks ";" then return .other
  else
    let inner ← body
    return .function { f with isPublic := v = .everyone, attributes := attrs ++ inner }

/-- An enum behind its word. -/
def enumItem (attrs : List Attribute) : Reading Item := do
  let head ← typeHead attrs
  let _ ← conditions
  return .enumItem head (← inside .curly (commaList variant))

/-- A module behind its word. -/
def moduleItem (item : Reading Item) : Reading Item := do
  if !(← maybeWord "try") then
    let _ ← name
  if ← maybeMarks ";" then return .other
  else
    inside .curly do
      let _ ← innerAttributes
      return .module (← toEnd item)

/-- Something of which nothing is kept. -/
def dropped (reading : Reading Unit) : Reading Item := do
  reading
  return .other

/-- One item, the items inside it read by the reader of items. -/
def itemStep (item : Reading Item) : Reading Item := do
  let attrs ← attributes
  let v ← visibility
  if ← ahead atSignature then functionItem attrs v
  else if ← maybeWord "extern" then dropped externItem
  else if ← maybeWord "use" then dropped useItem
  else if ← maybeWord "static" then dropped staticItem
  else if ← maybeWord "const" then dropped constantItem
  else if ← maybeWord "unsafe" then
    if ← maybeWord "trait" then dropped traitItem
    else if ← ahead fun trees => atWord "auto" trees && atWord "trait" (trees.drop 1) then
      drop 2
      dropped traitItem
    else if ← maybeWord "impl" then dropped implementation
    else if ← ahead (atWord "extern") then
      drop 1
      let _ ← whenAhead (fun trees => match trees with
        | .leaf _ (.literal (.text _)) :: _ => true
        | _ => false) (drop 1)
      dropped foreignItems
    else
      word "mod"
      moduleItem item
  else if ← maybeWord "mod" then moduleItem item
  else if ← maybeWord "type" then synonymItem attrs
  else if ← maybeWord "struct" then
    let head ← typeHead attrs
    return .structItem head (← structFields)
  else if ← maybeWord "enum" then enumItem attrs
  else if ← ahead fun trees => atWord "union" trees && atName (trees.drop 1) then
    drop 1
    let _ ← typeHead attrs
    let _ ← conditions
    let _ ← namedFields
    return .other
  else if ← maybeWord "trait" then dropped traitItem
  else if ← ahead fun trees => atWord "auto" trees && atWord "trait" (trees.drop 1) then
    drop 2
    dropped traitItem
  else if ← maybeWord "impl" then dropped implementation
  else if ← ahead fun trees => atWord "default" trees && !atMarks "!" (trees.drop 1) then
    drop 1
    let _ ← maybeWord "unsafe"
    word "impl"
    dropped implementation
  else if ← maybeWord "macro" then dropped macroDefinition
  else if v = .inherited && (← ahead atMacroItem) then dropped macroItem
  else failure

/-- An item nested to a depth at most. -/
def itemWithin : Nat → Reading Item
  | 0 => failure
  | depth + 1 => itemStep (itemWithin depth)

/-- The items of a file. -/
def fileItems : Reading (List Item) := bounded fun depth => do
  let _ ← innerAttributes
  toEnd (itemWithin depth)

end Reading

/-- The items of a source text; `none` if its tokens, its brackets or its items are not well formed. -/
def items? (text : String) : Option (List Item) := do
  let trees ← trees? text
  let (items, _) ← Reading.fileItems trees
  return items

end Source

namespace SourceFile

/-- The source file with a text, shown under a path. -/
def parse? (path : Path) (text : String) : Option SourceFile :=
  (Source.items? text).map fun items => ⟨path, items⟩

end SourceFile

end RouteManifest
