import RouteManifest.Source.PathReading

/-!
# Passing over expressions

Where an expression ends has to be known, what it says does not. An expression is operands with operators
between them. What stands in a group is not looked at, so brackets with anything in them are an operand: `(1 +)` is one,
though the language has no such expression.

In front of a block, as in the condition of an `if`, a name with braces behind it is no operand but a name and
the block, so there a struct cannot be written as an operand.
-/

namespace RouteManifest

namespace Source

namespace Reading

/-- Operators between two operands, the longest first. -/
def binaryOperators : List String := [
  "<<=", ">>=", "&&", "||", "<<", ">>", "+=", "-=", "*=", "/=", "%=", "^=", "&=", "|=", "==", "!=", "<=", ">=",
  "=", "<", ">", "+", "-", "*", "/", "%", "^", "&", "|"]

/-- The operators of a range. -/
def rangeOperators : List String := ["...", "..=", ".."]

/-- Takes the first of some operators that is ahead. -/
def operator (operators : List String) : Reading Bool := do
  let trees ← get
  match operators.find? fun o => atMarks o trees with
  | some o =>
    marks o
    return true
  | none => return false

/-- Whether an operand can begin here. -/
def atOperand (trees : List TokenTree) : Bool :=
  match trees with
  | [] => false
  | .leaf _ (.mark c _) :: _ => "<&*!-|.:#".toList.contains c
  | .leaf _ (.word text) :: _ => text != "as" && text != "else" && text != "in"
  | _ => true

section

variable (type : TypeReader)

/-- What can follow an operand: calls, indices, fields, methods, and the mark that passes a failure on. -/
def postfixPart : Reading Unit := do
  if ← maybeMarks "?" then return
  else if ← ahead fun trees => atGroup .round trees || atGroup .square trees then drop 1
  else
    marks "."
    if ← ahead fun trees => atLiteral trees && !atAnyWord trees then literal
    else if ← maybeWord "await" then return
    else
      let _ ← name
      if ← ahead fun trees => atMarks "::" trees && atMarks "<" (trees.drop 2) then
        marks "::"
        marks "<"
        let _ ← listUntil (atMarks ">") (marks ",") (genericArgument type (bound type))
        marks ">"

/-- Whether something can follow an operand that belongs to it. -/
def atPostfix (trees : List TokenTree) : Bool :=
  atMarks "?" trees || atGroup .round trees || atGroup .square trees
    || (atMarks "." trees && !atMarks ".." trees)

/-- A closure behind its words. -/
def closure (whole : Bool → Reading Unit) (structs : Bool) : Reading Unit := do
  marks "|"
  let _ ← manyWhile (fun trees => !trees.isEmpty && !atMarks "|" trees) (drop 1)
  marks "|"
  match ← returnType type false with
  | some _ => group .curly
  | none => whole structs

/-- A name, a call of a macro, or a struct. -/
def namedOperand (structs : Bool) : Reading Unit := do
  if ← ahead (atMarks "<") then projection type true
  else
    let _ ← path type true
  if ← ahead fun trees => atMarks "!" trees && !atMarks "!=" trees then
    marks "!"
    anyGroup
  else if structs && (← ahead (atGroup .curly)) then group .curly

/-- One operand without what follows it, given readers of whole expressions and of operands. -/
def operandStep (whole operand : Bool → Reading Unit) (structs : Bool) : Reading Unit := do
  passAttributes
  if ← operator ["&", "*", "!", "-"] then
    let _ ← maybeWord "mut"
    operand structs
  else if ← operator rangeOperators then
    if ← ahead fun trees => atOperand trees && (structs || !atGroup .curly trees) then operand structs
  else if ← ahead (atMarks "|") then closure type whole structs
  else if ← ahead fun trees => atLifetime trees then
    lifetime
    marks ":"
    operand structs
  else if ← ahead atLiteral then literal
  else if ← ahead fun trees => atGroup .round trees || atGroup .square trees || atGroup .curly trees then drop 1
  else if ← maybeWord "if" then
    whole false
    group .curly
    if ← maybeWord "else" then
      if ← ahead (atWord "if") then operand structs else group .curly
  else if ← operatorWord ["match", "while"] then
    whole false
    group .curly
  else if ← maybeWord "for" then
    let _ ← manyWhile (fun trees => !trees.isEmpty && !atWord "in" trees) (drop 1)
    word "in"
    whole false
    group .curly
  else if ← maybeWord "let" then
    let _ ← manyWhile (fun trees => !trees.isEmpty && !atMarks "=" trees) (drop 1)
    marks "="
    operand false
  else if ← operatorWord ["return", "break", "continue", "yield"] then
    let _ ← whenAhead atLifetime lifetime
    if ← ahead fun trees => atOperand trees && (structs || !atGroup .curly trees) then whole structs
  else if ← operatorWord ["loop", "unsafe", "try"] then group .curly
  else if ← operatorWord ["async", "const", "static", "move"] then
    let _ ← maybeWord "async"
    let _ ← maybeWord "move"
    if ← ahead (atMarks "|") then closure type whole structs else group .curly
  else namedOperand type structs
where
  /-- Takes one of some words. -/
  operatorWord (words : List String) : Reading Bool := whenAhead (atOneOf words) (drop 1)

/-- An expression with parts nested to a depth at most. -/
def expressionWithin : Nat → Bool → Reading Unit
  | 0, _ => failure
  | depth + 1, structs => do
    operandWithin depth structs
    let _ ← manyWhile (fun trees => atWord "as" trees || (binaryOperators ++ rangeOperators).any (atMarks · trees)) do
      if ← maybeWord "as" then
        let _ ← type false
      else if ← operator rangeOperators then
        if ← ahead fun trees => atOperand trees && (structs || !atGroup .curly trees) then
          operandWithin depth structs
      else
        let _ ← operator binaryOperators
        operandWithin depth structs
where
  /-- An operand with what follows it. -/
  operandWithin : Nat → Bool → Reading Unit
    | 0, _ => failure
    | depth + 1, structs => do
      operandStep type (expressionWithin depth) (operandWithin depth) structs
      let _ ← manyWhile atPostfix (postfixPart type)

/-- Passes over an expression. -/
def expression : Reading Unit := bounded fun depth => expressionWithin type (2 * depth) true

end

end Reading

end Source

end RouteManifest
