import RouteManifest.Text.Segments

/-!
# Words of a name

A name is cut into words wherever its writer can be taken to have meant one: at every character that is
neither an ASCII letter nor an ASCII digit, in front of a capital behind a small letter (`userId`), and in
front of the last capital of a run of capitals (`HTTPServer`). Digits belong to the word they follow. The
separating characters themselves are dropped.

The case rules below put the words together again.
-/

namespace RouteManifest

namespace Text

/-- What the letters of the current word have been so far. -/
inductive Run where
  | start | lower | upper
deriving DecidableEq, Repr

/-- Cuts a run of letters and digits into words. `word` holds the current word in reverse. -/
def cutWords (run : Run) (word : List Char) : List Char → List (List Char)
  | [] => if word.isEmpty then [] else [word.reverse]
  | [c] => [(c :: word).reverse]
  | c :: next :: rest =>
    let following := if c.isLower then .lower else if c.isUpper then .upper else run
    if following = .lower ∧ next.isUpper then (c :: word).reverse :: cutWords .start [] (next :: rest)
    else if run = .upper ∧ c.isUpper ∧ next.isLower then word.reverse :: cutWords .start [c] (next :: rest)
    else cutWords following (c :: word) (next :: rest)

/-- The runs of ASCII letters and digits. -/
def alphanumericRuns : List Char → List (List Char)
  | [] => [[]]
  | c :: cs =>
    if c.isAlphanum then
      match alphanumericRuns cs with
      | [] => [[c]]
      | first :: rest => (c :: first) :: rest
    else [] :: alphanumericRuns cs

/-- The words of a name. -/
def words (name : String) : List (List Char) := (alphanumericRuns name.toList).flatMap (cutWords .start [])

/-- A word in small letters. -/
def small (word : List Char) : List Char := word.map Char.toLower

/-- A word in capitals. -/
def capitals (word : List Char) : List Char := word.map Char.toUpper

/-- A word in small letters behind a capital. -/
def capitalized : List Char → List Char
  | [] => []
  | c :: cs => c.toUpper :: small cs

/-- Words with a separator between each two. -/
def separated (separator : Char) (words : List (List Char)) : String :=
  String.ofList (joinSegments separator words)

/-- `UserId` -/
def upperCamel (name : String) : String := String.ofList ((words name).map capitalized).flatten

/-- `userId` -/
def lowerCamel (name : String) : String :=
  match words name with
  | [] => ""
  | first :: rest => String.ofList (small first :: rest.map capitalized).flatten

/-- `user_id` -/
def snake (name : String) : String := separated '_' ((words name).map small)

/-- `USER_ID` -/
def shoutySnake (name : String) : String := separated '_' ((words name).map capitals)

/-- `user-id` -/
def kebab (name : String) : String := separated '-' ((words name).map small)

/-- `USER-ID` -/
def shoutyKebab (name : String) : String := separated '-' ((words name).map capitals)

end Text

end RouteManifest
