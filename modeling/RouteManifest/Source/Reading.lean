import RouteManifest.Source.TokenTree

/-!
# Reading trees of tokens

A reader takes trees off the front of a list or fails; a reader that fails takes nothing, so another can be
tried in its place. What stands ahead is asked of the list itself (`atWord`, `atMarks`, …), and a question
about the second or third tree is a question about the list without the trees in front of it.

Words of the language are no names. Repetition ends by itself: an item and the separator behind it take at
least one tree, or the repetition fails.
-/

namespace RouteManifest

namespace Source

/-- Takes trees off the front. -/
abbrev Reading := StateT (List TokenTree) Option

/-! ## What stands ahead -/

/-- Words of the language, which cannot name anything. -/
def reservedWords : List String := [
  "_", "abstract", "as", "async", "await", "become", "box", "break", "const", "continue", "crate", "do", "dyn",
  "else", "enum", "extern", "false", "final", "fn", "for", "if", "impl", "in", "let", "loop", "macro", "match",
  "mod", "move", "mut", "override", "priv", "pub", "ref", "return", "Self", "self", "static", "struct", "super",
  "trait", "true", "try", "type", "typeof", "unsafe", "unsized", "use", "virtual", "where", "while", "yield"]

/-- The word ahead. -/
def wordAhead? (trees : List TokenTree) : Option String := trees.head?.bind TokenTree.word?

/-- Whether a word is ahead. -/
def atAnyWord (trees : List TokenTree) : Bool := (wordAhead? trees).isSome

/-- Whether a certain word is ahead. -/
def atWord (text : String) (trees : List TokenTree) : Bool := wordAhead? trees == some text

/-- Whether one of certain words is ahead. -/
def atOneOf (texts : List String) (trees : List TokenTree) : Bool := texts.any fun text => atWord text trees

/-- Whether a name is ahead. -/
def atName (trees : List TokenTree) : Bool :=
  match wordAhead? trees with
  | some text => !reservedWords.contains text
  | none => false

/-- Whether certain marks are ahead, each joint with the next. -/
def atMarkList : List Char → List TokenTree → Bool
  | [c], .leaf _ (.mark d _) :: _ => c == d
  | c :: cs, .leaf _ (.mark d joint) :: rest => c == d && joint && atMarkList cs rest
  | _, _ => false

/-- Whether certain marks are ahead, each joint with the next. -/
def atMarks (marks : String) (trees : List TokenTree) : Bool := atMarkList marks.toList trees

/-- Whether a group is ahead. -/
def atGroup (d : Delimiter) : List TokenTree → Bool
  | .group _ e _ :: _ => d == e
  | _ => false

/-- Whether a lifetime is ahead. -/
def atLifetime : List TokenTree → Bool
  | .leaf _ .lifetime :: _ => true
  | _ => false

/-- Whether a literal is ahead; the two truth values are, and a number with its sign. -/
def atLiteral : List TokenTree → Bool
  | .leaf _ (.literal _) :: _ => true
  | .leaf _ (.word text) :: _ => text == "true" || text == "false"
  | .leaf _ (.mark '-' _) :: .leaf _ (.literal .number) :: _ => true
  | _ => false

/-- Whether a word is ahead that a path can begin with. -/
def atPathWord (trees : List TokenTree) : Bool := atName trees || atOneOf ["super", "self", "Self", "crate"] trees

/-! ## Taking what stands ahead -/

namespace Reading

variable {α : Type}

/-- Asks what stands ahead. -/
def ahead (question : List TokenTree → Bool) : Reading Bool := question <$> get

/-- Goes on only if the answer is yes. -/
def check (question : List TokenTree → Bool) : Reading Unit := do
  if ← ahead question then return else failure

/-- Drops a number of trees. -/
def drop (n : Nat) : Reading Unit := modify (List.drop n)

/-- Takes any word. -/
def anyWord : Reading String := do
  match wordAhead? (← get) with
  | some text =>
    drop 1
    return text
  | none => failure

/-- Takes a certain word. -/
def word (text : String) : Reading Unit := do
  check (atWord text)
  drop 1

/-- Takes a name. -/
def name : Reading String := do
  check atName
  anyWord

/-- Where the next tree is. -/
def place : Reading Position := do return ((← get).head?.map TokenTree.place).getD default

/-- Takes certain marks. -/
def marks (text : String) : Reading Unit := do
  check (atMarks text)
  drop text.length

/-- Takes a lifetime. -/
def lifetime : Reading Unit := do
  check atLifetime
  drop 1

/-- Takes a literal. -/
def literal : Reading Unit := do
  check atLiteral
  drop (if ← ahead (atMarks "-") then 2 else 1)

/-- Takes something if the answer is yes, and tells whether it did. -/
def whenAhead (question : List TokenTree → Bool) (taken : Reading α) : Reading Bool := do
  if ← ahead question then
    let _ ← taken
    return true
  else
    return false

/-- Takes a certain word if it is ahead. -/
def maybeWord (text : String) : Reading Bool := whenAhead (atWord text) (drop 1)

/-- Takes certain marks if they are ahead. -/
def maybeMarks (text : String) : Reading Bool := whenAhead (atMarks text) (marks text)

/-- Takes a group all of which the reader takes. -/
def inside (d : Delimiter) (content : Reading α) : Reading α := fun trees =>
  match trees with
  | .group _ e inner :: rest =>
    if d = e then
      match content inner with
      | some (a, []) => some (a, rest)
      | _ => none
    else none
  | _ => none

/-- Takes a group whatever it holds. -/
def anyGroup : Reading Unit := do
  check fun trees => atGroup .round trees || atGroup .square trees || atGroup .curly trees
  drop 1

/-- Takes a group of one kind whatever it holds. -/
def group (d : Delimiter) : Reading Unit := do
  check (atGroup d)
  drop 1

/-- Takes items with separators between them, and perhaps one at the end, up to the place where to stop. -/
def listUntil (stop : List TokenTree → Bool) (separator : Reading Unit) (item : Reading α) :
    Reading (List α) := fun trees =>
  if stop trees then some ([], trees)
  else
    match item trees with
    | none => none
    | some (a, rest) =>
      if stop rest then some ([a], rest)
      else
        match separator rest with
        | none => none
        | some (_, rest) =>
          if _shorter : rest.length < trees.length then
            (listUntil stop separator item rest).map fun (more, rest) => (a :: more, rest)
          else none
termination_by trees => trees.length

/-- Takes items with marks between them as long as the marks follow; marks at the end are taken where the list
stops. -/
def listWhile (mark : String) (stop : List TokenTree → Bool) (item : Reading α) : Reading (List α) := fun trees =>
  if stop trees then some ([], trees)
  else
    match item trees with
    | none => none
    | some (a, rest) =>
      match marks mark rest with
      | none => some ([a], rest)
      | some (_, rest) =>
        if _shorter : rest.length < trees.length then
          (listWhile mark stop item rest).map fun (more, rest) => (a :: more, rest)
        else none
termination_by trees => trees.length

/-- Takes items as long as the answer is yes. -/
def manyWhile (more : List TokenTree → Bool) (item : Reading α) : Reading (List α) := fun trees =>
  if more trees then
    match item trees with
    | none => none
    | some (a, rest) =>
      if _shorter : rest.length < trees.length then
        (manyWhile more item rest).map fun (others, rest) => (a :: others, rest)
      else none
  else some ([], trees)
termination_by trees => trees.length

/-- Takes items separated by commas up to the end of the group. -/
def commaList (item : Reading α) : Reading (List α) := listUntil List.isEmpty (marks ",") item

/-- Takes items up to the end of the group. -/
def toEnd (item : Reading α) : Reading (List α) := manyWhile (fun trees => !trees.isEmpty) item

/-- Reads a list as a whole; whatever is nested in it, a reader that needs a bound on its depth gets one that
suffices. -/
def bounded (reader : Nat → Reading α) : Reading α := fun trees => reader (TokenTree.countAll trees + 1) trees

end Reading

end Source

end RouteManifest
