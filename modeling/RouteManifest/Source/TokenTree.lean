import RouteManifest.Source.Lexer

/-!
# Trees of tokens

Delimiters come in pairs, so the pieces of a text are trees: a token is a leaf, and a group holds what stands
between two delimiters of one kind. `Source.trees?` is the way from a text to its trees.
-/

namespace RouteManifest

namespace Source

/-- A token, or a group between delimiters. -/
inductive TokenTree where
  | leaf (place : Position) (token : Token)
  | group (place : Position) (delimiter : Delimiter) (trees : List TokenTree)
deriving Repr

namespace TokenTree

/-- Where the tree begins. -/
def place : TokenTree → Position
  | .leaf p _ => p
  | .group p _ _ => p

/-- The word that the tree is. -/
def word? : TokenTree → Option String
  | .leaf _ (.word text) => some text
  | _ => none

mutual
/-- The tokens of a tree, a group counting as one more. -/
def count : TokenTree → Nat
  | .leaf _ _ => 1
  | .group _ _ trees => 1 + countAll trees

/-- The tokens of several trees. -/
def countAll : List TokenTree → Nat
  | [] => 0
  | t :: rest => count t + countAll rest
end

end TokenTree

/-- A group that has been opened: where, by what, and what stands in front of it, last first. -/
structure OpenGroup where
  place : Position
  delimiter : Delimiter
  before : List TokenTree

/-- Pairs the delimiters of pieces, while some groups are open, the innermost first, and `inside` stands in the
innermost, last first. -/
def nest : List OpenGroup → List TokenTree → List (Position × Piece) → Option (List TokenTree)
  | [], inside, [] => some inside.reverse
  | _ :: _, _, [] => none
  | groups, inside, (p, .token t) :: rest => nest groups (.leaf p t :: inside) rest
  | groups, inside, (p, .opening d) :: rest => nest (⟨p, d, inside⟩ :: groups) [] rest
  | [], _, (_, .closing _) :: _ => none
  | g :: groups, inside, (_, .closing d) :: rest =>
    if d = g.delimiter then nest groups (.group g.place d inside.reverse :: g.before) rest else none

/-- The mark that a text can begin with to tell its encoding. -/
def encodingMark : Char := '\ufeff'

/-- A text without the first line if that line names a program to run the file with: `#!` and no attribute. The
end of the line stays, so that lines keep their numbers. -/
def withoutProgramLine (cs : List Char) : List Char :=
  match cs with
  | '#' :: '!' :: rest =>
    if (skipBlanks rest).head? = some '[' then cs else cs.dropWhile (· != '\n')
  | _ => cs
where
  /-- The text behind white space and comments. -/
  skipBlanks : List Char → List Char
    | [] => []
    | c :: rest =>
      match skipped? (c :: rest) with
      | some n => skipBlanks (rest.drop (n - 1))
      | none => c :: rest
  termination_by cs => cs.length
  decreasing_by simp only [List.length_cons, List.length_drop]; omega

/-- The trees of a source text; `none` if it is no sequence of tokens with paired delimiters. -/
def trees? (text : String) : Option (List TokenTree) := do
  let cs := match text.toList with
    | c :: rest => if c = encodingMark then rest else c :: rest
    | [] => []
  let pieces ← match withoutProgramLine cs with
    | c :: rest =>
      if c = encodingMark then piecesFrom (Position.start.after c) rest
      else piecesFrom .start (c :: rest)
    | [] => some []
  nest [] [] pieces

end Source

end RouteManifest
