import RouteManifest.Text.Segments
import RouteManifest.Yaml.Characters
import RouteManifest.Yaml.Scalar

/-!
# Reading scalars

The three ways in which a text stands in a document: in quotes, plain, or as a block of lines. Each function
here takes the characters behind what introduces the scalar, and answers the text with the characters that are
left over, or `none` where there is no such scalar.

Outside of blocks lines are folded: blanks around a line break do not count, one break is a blank, and of more
breaks all but the first are kept. What stands between two words is read as a `Gap`.
-/

namespace RouteManifest

namespace Yaml

/-! ## Gaps -/

/-- A break as it counts: the two separators of Unicode stay what they are. -/
def foldedBreak (c : Char) : Char := if c.toNat = 0x2028 ∨ c.toNat = 0x2029 then c else '\n'

/-- What stands between two words. -/
structure Gap where
  /-- the blanks in front of the first break -/
  blanks : List Char := []
  breaks : List Char := []
  /-- how many blanks follow the last break, or all of them where there is none -/
  column : Nat := 0
deriving DecidableEq, Repr

namespace Gap

/-- The gap with a break in front. -/
def behindBreak (c : Char) (g : Gap) : Gap := { g with blanks := [], breaks := foldedBreak c :: g.breaks }

/-- The gap with a blank in front. -/
def behindBlank (c : Char) (g : Gap) : Gap := { g with blanks := c :: g.blanks }

/-- What a gap means. -/
def text (g : Gap) : List Char :=
  match g.breaks with
  | [] => g.blanks
  | ['\n'] => [' ']
  | '\n' :: more => more
  | breaks => breaks

/-- Whether the word behind the gap starts a line. -/
def isAtLineStart (g : Gap) : Bool := !g.breaks.isEmpty && g.column == 0

end Gap

/-- Reads a gap. Behind a break no tab may stand where indentation is due. -/
def gapFrom (indentation : Nat) : (broken : Bool) → (column : Nat) → List Char → Option (Gap × List Char)
  | _, _, '\r' :: '\n' :: rest =>
    (gapFrom indentation true 0 rest).map fun (g, rest) => (g.behindBreak '\n', rest)
  | broken, column, c :: rest =>
    if isBlank c then
      if broken && c == '\t' && column < indentation then none
      else (gapFrom indentation broken (column + 1) rest).map fun (g, rest) => (g.behindBlank c, rest)
    else if isBreak c then
      (gapFrom indentation true 0 rest).map fun (g, rest) => (g.behindBreak c, rest)
    else some ({ column }, c :: rest)
  | _, column, [] => some ({ column }, [])

/-- Reads a gap on a line. -/
def gap (indentation : Nat) (cs : List Char) : Option (Gap × List Char) := gapFrom indentation false 0 cs

/-- Whether a line starts with the mark that begins or ends a document. -/
def isDocumentMark : List Char → Bool
  | '-' :: '-' :: '-' :: rest => endsWord rest
  | '.' :: '.' :: '.' :: rest => endsWord rest
  | _ => false

/-! ## Quoted scalars -/

/-- Escapes of one letter. -/
def letterEscape? : Char → Option Char
  | '0' => some '\x00'
  | 'a' => some '\x07'
  | 'b' => some '\x08'
  | 't' | '\t' => some '\t'
  | 'n' => some '\n'
  | 'v' => some '\x0b'
  | 'f' => some '\x0c'
  | 'r' => some '\r'
  | 'e' => some '\x1b'
  | ' ' => some ' '
  | '"' => some '"'
  | '/' => some '/'
  | '\\' => some '\\'
  | 'N' => some (Char.ofNat 0x85)
  | '_' => some (Char.ofNat 0xA0)
  | 'L' => some (Char.ofNat 0x2028)
  | 'P' => some (Char.ofNat 0x2029)
  | _ => none

/-- How many hexadecimal digits an escape has. -/
def codeLength? : Char → Option Nat
  | 'x' => some 2
  | 'u' => some 4
  | 'U' => some 8
  | _ => none

/-- The character that an escape means, behind the backslash. -/
def escape? : List Char → Option (Char × List Char)
  | [] => none
  | c :: rest =>
    match codeLength? c with
    | none => (letterEscape? c).map (·, rest)
    | some length => do
      let code ← if (rest.take length).length = length then natOf? 16 (rest.take length) else none
      if code.isValidChar then some (Char.ofNat code, rest.drop length) else none

/-- A break at the front, and what is behind it. -/
def behindBreak? : List Char → Option (Char × List Char)
  | '\r' :: '\n' :: rest => some ('\n', rest)
  | c :: rest => if isBreak c then some (foldedBreak c, rest) else none
  | [] => none

/-- Reads up to the closing quote, in at most so many steps. In single quotes a quote is written twice; in
double quotes a backslash escapes, a line break too. -/
def quotedWithin (double : Bool) : (bound : Nat) → (atLineStart : Bool) → List Char →
    Option (List Char × List Char)
  | 0, _, _ => none
  | _, _, [] => none
  | bound + 1, atLineStart, c :: rest =>
    let before (text : List Char) (atLineStart : Bool) (rest : List Char) : Option (List Char × List Char) :=
      (quotedWithin double bound atLineStart rest).map fun (more, rest) => (text ++ more, rest)
    if atLineStart && isDocumentMark (c :: rest) then none
    else if !double && c == '\'' then
      match rest with
      | '\'' :: rest => before ['\''] false rest
      | rest => some ([], rest)
    else if double && c == '"' then some ([], rest)
    else if double && c == '\\' then
      match behindBreak? rest with
      | some (_, rest) => do
        let (g, rest) ← gapFrom 0 true 0 rest
        before g.breaks (g.column == 0) rest
      | none => do
        let (c, rest) ← escape? rest
        before [c] false rest
    else if isBlank c || isBreak c then do
      let (g, rest) ← gap 0 (c :: rest)
      before g.text g.isAtLineStart rest
    else before [c] false rest

/-- Reads up to the closing quote. -/
def quoted? (double : Bool) (cs : List Char) : Option (List Char × List Char) :=
  quotedWithin double (cs.length + 1) false cs

/-! ## Plain scalars -/

/-- A word of a plain scalar, which can be empty. A colon ends it in front of a separator; between brackets
commas and brackets end it too, and must not follow a colon. -/
def plainWord? (inBrackets : Bool) : List Char → Option (List Char × List Char)
  | [] => some ([], [])
  | c :: rest =>
    if isSeparator c then some ([], c :: rest)
    else if inBrackets && c == ':' && rest.head?.any (",?[]\x7b\x7d".toList.contains ·) then none
    else if c == ':' && endsWord rest then some ([], c :: rest)
    else if inBrackets && ",[]\x7b\x7d".toList.contains c then some ([], c :: rest)
    else (plainWord? inBrackets rest).map fun (word, rest) => (c :: word, rest)

/-- What a plain scalar was found to be. -/
structure PlainScalar where
  text : List Char
  /-- whether a line break follows -/
  broken : Bool
  rest : List Char

/-- Reads words and the gaps in front of them, in at most so many steps. A scalar ends in front of a comment,
of the mark of a document and, outside of brackets, of a line that is not indented. -/
def plainWithin (inBrackets : Bool) (indentation : Nat) : (bound : Nat) → Gap → List Char →
    Option PlainScalar
  | 0, _, _ => none
  | bound + 1, before, cs => do
    let broken := !before.breaks.isEmpty
    let (word, rest) ←
      if (before.isAtLineStart && isDocumentMark cs) || cs.head? == some '#' then some ([], cs)
      else plainWord? inBrackets cs
    if word.isEmpty then return ⟨[], broken, cs⟩
    if !rest.head?.any (fun c => isBlank c || isBreak c) then return ⟨before.text ++ word, false, rest⟩
    let (between, rest) ← gap indentation rest
    if !inBrackets && !between.breaks.isEmpty && between.column < indentation then
      return ⟨before.text ++ word, true, rest⟩
    let more ← plainWithin inBrackets indentation bound between rest
    return { more with text := before.text ++ word ++ more.text }

/-- Reads a plain scalar. -/
def plain? (inBrackets : Bool) (indentation : Nat) (cs : List Char) : Option PlainScalar :=
  plainWithin inBrackets indentation (cs.length + 1) {} cs

/-! ## Blocks of lines -/

/-- What becomes of the breaks at the end of a block. -/
inductive Chomping where
  /-- one is kept -/
  | clip
  | strip
  | keep
deriving DecidableEq, Repr

/-- Reads a sign at the end of a block. -/
def chomping? : List Char → Option (Chomping × List Char)
  | '+' :: rest => some (.keep, rest)
  | '-' :: rest => some (.strip, rest)
  | _ => none

/-- Reads how far a block is indented; zero is refused. -/
def indentation? : List Char → Option (Option Nat × List Char)
  | c :: rest =>
    if c == '0' then none
    else if c.isDigit then some (some (c.toNat - '0'.toNat), rest)
    else some (none, c :: rest)
  | [] => some (none, [])

/-- Reads what stands behind the mark of a block on its line: a sign and a digit in either order, blanks and a
comment. -/
def blockHeader? (cs : List Char) : Option (Chomping × Option Nat × List Char) := do
  let (chomping, indentation, rest) ← match chomping? cs with
    | some (chomping, rest) => do
      let (indentation, rest) ← indentation? rest
      pure (chomping, indentation, rest)
    | none => do
      let (indentation, rest) ← indentation? cs
      match indentation, chomping? rest with
      | some _, some (chomping, rest) => pure (chomping, indentation, rest)
      | _, _ => pure (.clip, indentation, rest)
  let rest := rest.dropWhile isBlank
  let rest := if rest.head? == some '#' then rest.dropWhile fun c => !isBreak c else rest
  match rest with
  | [] => some (chomping, indentation, [])
  | rest => (behindBreak? rest).map fun (_, rest) => (chomping, indentation, rest)

/-- The empty lines in front of a line of a block, and where that line starts. -/
structure Margin where
  breaks : List Char := []
  column : Nat
  /-- the greatest number of blanks on one of the lines -/
  widest : Nat
deriving DecidableEq, Repr

/-- Reads empty lines and the indentation of the line behind them, which is no wider than what is given. Where
nothing is given all blanks count. No tab may stand among them. -/
def marginFrom (indentation : Option Nat) : (column widest : Nat) → List Char → Option (Margin × List Char)
  | column, widest, '\r' :: '\n' :: rest =>
    (marginFrom indentation 0 (max widest column) rest).map fun (m, rest) =>
      ({ m with breaks := '\n' :: m.breaks }, rest)
  | column, widest, c :: rest =>
    let inside := indentation.all (column < ·)
    if c == ' ' && inside then marginFrom indentation (column + 1) widest rest
    else if c == '\t' && inside then none
    else if isBreak c then
      (marginFrom indentation 0 (max widest column) rest).map fun (m, rest) =>
        ({ m with breaks := foldedBreak c :: m.breaks }, rest)
    else some ({ column, widest := max widest column }, c :: rest)
  | column, widest, [] => some ({ column, widest := max widest column }, [])

/-- Reads the lines of a block, in at most so many steps. In a folded block the break between two lines counts
as a blank, unless one of them starts with a blank or more breaks follow. The answer ends with the last break
and the empty lines, which may be chomped. -/
def blockLines (literal : Bool) (indentation : Nat) (chomping : Chomping) : (bound : Nat) →
    (lastBreak : List Char) → (blankBefore : Bool) → Margin → List Char → Option (List Char × List Char)
  | 0, _, _, _, _ => none
  | bound + 1, lastBreak, blankBefore, margin, cs => do
    if cs.isEmpty || margin.column != indentation then
      let trail := match chomping with
        | .strip => []
        | .clip => lastBreak
        | .keep => lastBreak ++ margin.breaks
      return (trail, cs)
    let blank := cs.head?.any isBlank
    let between :=
      if !literal && lastBreak == ['\n'] && !blankBefore && !blank then
        if margin.breaks.isEmpty then [' '] else []
      else lastBreak
    let line := cs.takeWhile fun c => !isBreak c
    let (nextBreak, rest) := match behindBreak? (cs.drop line.length) with
      | some (c, rest) => ([c], rest)
      | none => ([], [])
    let (next, rest) ← marginFrom (some indentation) 0 0 rest
    let (more, rest) ← blockLines literal indentation chomping bound nextBreak blank next rest
    return (between ++ margin.breaks ++ line ++ more, rest)

/-- Reads a block of lines inside something that is indented by `outer`, one more than its column. -/
def block? (literal : Bool) (outer : Nat) (cs : List Char) : Option (List Char × List Char) := do
  let (chomping, hint, rest) ← blockHeader? cs
  let given := hint.map fun n => (outer - 1) + n
  let (margin, rest) ← marginFrom given 0 0 rest
  let indentation := given.getD (max (max margin.widest outer) 1)
  blockLines literal indentation chomping (rest.length + 1) [] false margin rest

end Yaml

end RouteManifest
