import RouteManifest.Json.Basic

/-!
# JSON text

Two layouts of one value. `Json.compact` has no blank at all; `Json.pretty` puts each item and member on a
line of its own, indented by two blanks a level, and writes empty containers as `[]` and `{}`.

In strings only the quote, the backslash and the control characters below U+0020 are escaped, the last in
their short form where they have one.
-/

namespace RouteManifest

namespace Json

/-- A digit of base sixteen in lower case. -/
def hexDigit (n : Nat) : Char := Nat.digitChar (n % 16)

/-- A character inside a string. -/
def escape (c : Char) : List Char :=
  match c with
  | '"' => ['\\', '"']
  | '\\' => ['\\', '\\']
  | '\n' => ['\\', 'n']
  | '\r' => ['\\', 'r']
  | '\t' => ['\\', 't']
  | '\x08' => ['\\', 'b']
  | '\x0c' => ['\\', 'f']
  | c => if c.toNat < 0x20 then ['\\', 'u', '0', '0', hexDigit (c.toNat / 16), hexDigit c.toNat] else [c]

/-- A string with its quotes. -/
def quoted (s : String) : List Char := '"' :: (s.toList.flatMap escape ++ ['"'])

/-- A value that is neither an array nor an object. -/
def scalarChars : Json → List Char
  | .null => ['n', 'u', 'l', 'l']
  | .bool true => ['t', 'r', 'u', 'e']
  | .bool false => ['f', 'a', 'l', 's', 'e']
  | .int n => (toString n).toList
  | .float x => x.text.toList
  | .string s => quoted s
  | .array _ | .object _ => []

/-! ## Compact layout -/

mutual
/-- The characters of the compact text. -/
def compactChars : Json → List Char
  | .array [] => ['[', ']']
  | .array (item :: rest) => '[' :: (compactChars item ++ compactItems rest)
  | .object [] => ['{', '}']
  | .object ((name, value) :: rest) =>
    '{' :: (quoted name ++ ':' :: (compactChars value ++ compactMembers rest))
  | other => scalarChars other

/-- The items after the first, with their commas and the closing bracket. -/
def compactItems : List Json → List Char
  | [] => [']']
  | item :: rest => ',' :: (compactChars item ++ compactItems rest)

/-- The members after the first, with their commas and the closing brace. -/
def compactMembers : Table Json → List Char
  | [] => ['}']
  | (name, value) :: rest => ',' :: (quoted name ++ ':' :: (compactChars value ++ compactMembers rest))
end

/-- The text without any blank. -/
def compact (value : Json) : String := String.ofList value.compactChars

/-! ## Pretty layout -/

/-- A line break and the indentation of a level. -/
def newline (level : Nat) : List Char := '\n' :: List.replicate (2 * level) ' '

mutual
/-- The characters of the indented text of a value at the given level. -/
def prettyChars (level : Nat) : Json → List Char
  | .array [] => ['[', ']']
  | .array (item :: rest) =>
    '[' :: (newline (level + 1) ++ prettyChars (level + 1) item ++ prettyItems level rest)
  | .object [] => ['{', '}']
  | .object ((name, value) :: rest) =>
    '{' :: (newline (level + 1) ++ quoted name ++ ':' :: ' ' :: (prettyChars (level + 1) value
      ++ prettyMembers level rest))
  | other => scalarChars other

/-- The items after the first and the closing bracket of an array at the given level. -/
def prettyItems (level : Nat) : List Json → List Char
  | [] => newline level ++ [']']
  | item :: rest =>
    ',' :: (newline (level + 1) ++ prettyChars (level + 1) item ++ prettyItems level rest)

/-- The members after the first and the closing brace of an object at the given level. -/
def prettyMembers (level : Nat) : Table Json → List Char
  | [] => newline level ++ ['}']
  | (name, value) :: rest =>
    ',' :: (newline (level + 1) ++ quoted name ++ ':' :: ' ' :: (prettyChars (level + 1) value
      ++ prettyMembers level rest))
end

/-- The indented text, without a line break at its end. -/
def pretty (value : Json) : String := String.ofList (value.prettyChars 0)

end Json

end RouteManifest
