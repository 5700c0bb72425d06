import RouteManifest.Yaml.ScalarReading

/-!
# Tokens of a document

A document as a list of tokens in which its layout is made explicit: where a column opens a sequence or a
mapping there is a token that says so, and another where the block ends.

A key is known to be one only at the colon behind it. So at everything that could start a key its position is
kept (`Candidate`), and at the colon the tokens for the mapping and its key are put in there. A candidate
expires at the end of its line; one that stands where the mapping of the block demands a key must not expire.
-/

namespace RouteManifest

namespace Yaml

/-- A token. -/
inductive Token where
  /-- the version of YAML that a document claims -/
  | version (major minor : List Char)
  /-- a short form for the front part of tags -/
  | shorthand (handle front : String)
  | documentStart | documentEnd
  | blockSequence | blockMapping | blockEnd
  /-- the hyphen of an item -/
  | item
  | key | value
  | sequenceStart | sequenceEnd | mappingStart | mappingEnd
  /-- the comma between brackets -/
  | comma
  | recall (anchor : String)
  | anchor (name : String)
  /-- a tag by its handle, which is empty where the tag is written in full, and the rest of it -/
  | tag (handle rest : String)
  | scalar (plain : Bool) (text : String)
deriving DecidableEq, Repr

/-- Where a reader is. -/
structure Cursor where
  rest : List Char
  line : Nat := 0
  column : Nat := 0
  /-- how many characters have been read -/
  offset : Nat := 0

namespace Cursor

/-- Reads a character. A carriage return in front of a newline does not end the line by itself. -/
def step (c : Cursor) : Cursor :=
  match c.rest with
  | [] => c
  | x :: rest =>
    if isBreak x && !(x == '\r' && rest.head? == some '\n') then
      ⟨rest, c.line + 1, 0, c.offset + 1⟩
    else ⟨rest, c.line, c.column + 1, c.offset + 1⟩

/-- Reads some characters. -/
def advance : Nat → Cursor → Cursor
  | 0, c => c
  | n + 1, c => advance n c.step

/-- Reads up to a rest. -/
def upTo (c : Cursor) (rest : List Char) : Cursor := c.advance (c.rest.length - rest.length)

end Cursor

/-- Where a key may have started. -/
structure Candidate where
  /-- the number of tokens in front of it -/
  position : Nat
  /-- whether the block demands a key there -/
  required : Bool
  start : Cursor

/-- What has been read of a document. -/
structure Layout where
  cursor : Cursor
  /-- the tokens read, the last one first -/
  tokens : List Token := []
  /-- the columns of the open blocks, the innermost first -/
  blocks : List Nat := []
  /-- the candidates inside the open brackets, the innermost first, and the one outside of them -/
  candidates : List (Option Candidate) := [none]
  /-- whether a key or an item may start here -/
  mayStart : Bool := true

namespace Layout

variable (l : Layout)

/-- Whether some bracket is open. -/
def inBrackets : Bool := l.candidates.length > 1

/-- The first column that belongs to the innermost block. -/
def indentation : Nat := (l.blocks.head?.map (· + 1)).getD 0

/-- Adds a token. -/
def emit (t : Token) : Layout := { l with tokens := t :: l.tokens }

/-- Puts a token in behind the first tokens, so many of them. -/
def insert (position : Nat) (t : Token) : Layout :=
  { l with tokens := l.tokens.insertIdx (l.tokens.length - position) t }

/-- Reads up to a rest. -/
def upTo (rest : List Char) : Layout := { l with cursor := l.cursor.upTo rest }

/-- Reads some characters. -/
def advance (n : Nat) : Layout := { l with cursor := l.cursor.advance n }

/-- Sets whether a key or an item may start. -/
def allowing (mayStart : Bool) : Layout := { l with mayStart }

/-! ## Blocks -/

/-- Opens a block at a column, if that lies to the right of the innermost block, with a token at a
position. -/
def openBlock (column position : Nat) (t : Token) : Layout :=
  if l.inBrackets || column < l.indentation then l
  else { l.insert position t with blocks := column :: l.blocks }

/-- The blocks that a column leaves open, and the tokens that end the others. -/
def closed (column : Option Nat) : List Nat → List Token → List Nat × List Token
  | [], tokens => ([], tokens)
  | block :: outer, tokens =>
    if column.all (· < block) then closed column outer (.blockEnd :: tokens) else (block :: outer, tokens)

/-- Ends the blocks that lie to the right of a column, or all of them. -/
def closeBlocks (column : Option Nat) : Layout :=
  if l.inBrackets then l
  else
    let (blocks, tokens) := closed column l.blocks l.tokens
    { l with blocks, tokens }

/-! ## Candidates -/

/-- The innermost candidate. -/
def candidate? : Option Candidate := l.candidates.head?.join

/-- Replaces the innermost candidate. -/
def withCandidate (candidate : Option Candidate) : Layout :=
  { l with candidates := candidate :: l.candidates.tail }

/-- Gives the innermost candidate up. -/
def dropCandidate : Option Layout :=
  if l.candidate?.any Candidate.required then none else some (l.withCandidate none)

/-- Keeps the cursor as a candidate, where a key may start. -/
def keepCandidate : Option Layout :=
  if l.mayStart then do
    let required := !l.inBrackets && l.blocks.head? == some l.cursor.column
    let l ← l.dropCandidate
    return l.withCandidate (some ⟨l.tokens.length, required, l.cursor⟩)
  else some l

/-- How many characters a key may have. -/
def keyLimit : Nat := 1024

/-- Whether a candidate can no longer be a key. -/
def hasExpired (c : Candidate) : Bool :=
  c.start.line < l.cursor.line || c.start.offset + keyLimit < l.cursor.offset

/-- Gives the expired candidates up. -/
def dropExpired : Option Layout := do
  let candidates ← l.candidates.mapM fun candidate =>
    match candidate with
    | some c => if l.hasExpired c then (if c.required then none else some none) else some (some c)
    | none => some none
  return { l with candidates }

/-! ## Between tokens -/

/-- What is left behind blanks, comments and breaks, and whether a key may start there. Where one may start,
outside of brackets, a tab is not passed over. -/
def idle (inBrackets : Bool) : (mayStart inComment : Bool) → List Char → Bool × List Char
  | mayStart, _, [] => (mayStart, [])
  | mayStart, inComment, c :: rest =>
    if isBreak c then idle inBrackets (mayStart || !inBrackets) false rest
    else if inComment || c == '#' then idle inBrackets mayStart true rest
    else if c == ' ' || (c == '\t' && (inBrackets || !mayStart)) then idle inBrackets mayStart false rest
    else (mayStart, c :: rest)

/-- Goes on to the next token, past a byte order mark at the very start. -/
def toToken : Layout :=
  let l := if l.cursor.offset == 0 && l.cursor.rest.head?.any (·.toNat == 0xFEFF) then l.advance 1 else l
  let (mayStart, rest) := idle l.inBrackets l.mayStart false l.cursor.rest
  (l.upTo rest).allowing mayStart

/-! ## Marks -/

/-- Reads the mark of a document, or ends it. -/
def endBlocks : Option Layout := do return (← (l.closeBlocks none).dropCandidate).allowing false

/-- Reads an opening bracket. -/
def openBracket (t : Token) : Option Layout := do
  let l ← l.keepCandidate
  return (({ l with candidates := none :: l.candidates }.allowing true).emit t).advance 1

/-- Reads a closing bracket. -/
def closeBracket (t : Token) : Option Layout := do
  let l ← l.dropCandidate
  let l := if l.inBrackets then { l with candidates := l.candidates.tail } else l
  return ((l.allowing false).emit t).advance 1

/-- Reads a comma. -/
def readComma : Option Layout := do
  return (((← l.dropCandidate).allowing true).emit .comma).advance 1

/-- Reads the hyphen of an item. -/
def readItem : Option Layout := do
  if !l.inBrackets && !l.mayStart then none
  let l ← (l.openBlock l.cursor.column l.tokens.length .blockSequence).dropCandidate
  return ((l.allowing true).emit .item).advance 1

/-- Reads the question mark in front of a key. -/
def readKey : Option Layout := do
  if !l.inBrackets && !l.mayStart then none
  let l ← (l.openBlock l.cursor.column l.tokens.length .blockMapping).dropCandidate
  return ((l.allowing (!l.inBrackets)).emit .key).advance 1

/-- Reads the colon in front of a value. What stands before it becomes a key, if it can be one. -/
def readValue : Option Layout := do
  match l.candidate? with
  | some c =>
    let l := (l.insert c.position .key).openBlock c.start.column c.position .blockMapping
    return (((l.withCandidate none).allowing false).emit .value).advance 1
  | none =>
    if !l.inBrackets && !l.mayStart then none
    let l := l.openBlock l.cursor.column l.tokens.length .blockMapping
    return ((l.allowing (!l.inBrackets)).emit .value).advance 1

/-! ## Directives, anchors and tags -/

/-- Reads the version of YAML behind blanks: two numbers with a point between them. -/
def version? (cs : List Char) : Option (Token × List Char) :=
  let major := cs.takeWhile Char.isDigit
  match cs.drop major.length with
  | '.' :: rest =>
    let minor := rest.takeWhile Char.isDigit
    if major.isEmpty || minor.isEmpty || major.length > 9 || minor.length > 9 then none
    else some (.version major minor, rest.drop minor.length)
  | _ => none

/-- Reads the handle of a tag: an exclamation mark, or a name between two of them. Behind a single mark the
name is not part of the handle. -/
def handle? : List Char → Option (List Char × List Char)
  | '!' :: rest =>
    let name := rest.takeWhile isNamePart
    match rest.drop name.length with
    | '!' :: rest => some ('!' :: name ++ ['!'], rest)
    | _ => some (['!'], rest)
  | _ => none

/-- Whether a character can stand in a tag. -/
def isTagPart (c : Char) : Bool := isNamePart c || ";/?:@&=+$.!~*'()%".toList.contains c

/-- Whether a character can stand in a tag that is written in full. -/
def isFullTagPart (c : Char) : Bool := isTagPart c || ",[]".toList.contains c

/-- Reads a short form for tags behind blanks. -/
def shorthand? (cs : List Char) : Option (Token × List Char) := do
  let (handle, rest) ← handle? cs
  if !rest.head?.any isBlank then none
  let rest := rest.dropWhile isBlank
  let front := rest.takeWhile isFullTagPart
  if front.isEmpty || !endsWord (rest.drop front.length) then none
  return (.shorthand (String.ofList handle) (String.ofList front), rest.drop front.length)

/-- Reads a line that starts with a percent sign. -/
def readDirective : Option Layout := do
  let l ← l.endBlocks
  let cs := l.cursor.rest.drop 1
  let name := cs.takeWhile isNamePart
  let behind := cs.drop name.length
  if !endsWord behind then none
  let cs := behind.dropWhile isBlank
  let (t, rest) ← match String.ofList name with
    | "YAML" => version? cs
    | "TAG" => shorthand? cs
    | _ => none
  let rest := rest.dropWhile isBlank
  let rest := if rest.head? == some '#' then rest.dropWhile fun c => !isBreak c else rest
  if rest.head?.all isBreak then return (l.emit t).upTo rest else none

/-- Reads the name of an anchor. -/
def anchorName? (cs : List Char) : Option (String × List Char) :=
  let name := cs.takeWhile isNamePart
  let rest := cs.drop name.length
  if name.isEmpty || !(endsWord rest || rest.head?.any ("?:,]\x7d%@`".toList.contains ·)) then none
  else some (String.ofList name, rest)

/-- Reads a tag behind its exclamation mark. -/
def tag? (cs : List Char) : Option (Token × List Char) :=
  match cs with
  | '<' :: full =>
    let name := full.takeWhile isFullTagPart
    match full.drop name.length with
    | '>' :: rest => if name.isEmpty then none else some (.tag "" (String.ofList name), rest)
    | _ => none
  | _ => do
    let (handle, rest) ← handle? ('!' :: cs)
    let name := rest.takeWhile isTagPart
    let rest := rest.drop name.length
    if handle.length > 1 && name.isEmpty then none
    else if handle.length == 1 && name.isEmpty then return (.tag "" "!", rest)
    else return (.tag (String.ofList handle) (String.ofList name), rest)

/-- Reads something that can stand in front of a node, or for one. -/
def readProperty (t : Token) (rest : List Char) : Option Layout := do
  return (((← l.keepCandidate).allowing false).emit t).upTo rest

/-- Reads a tag. Between brackets a comma may follow at once. -/
def readTag (cs : List Char) : Option Layout := do
  let (t, rest) ← tag? cs
  if endsWord rest || (l.inBrackets && rest.head? == some ',') then l.readProperty t rest else none

/-! ## Scalars -/

/-- Reads a scalar in quotes. -/
def readQuoted (double : Bool) (cs : List Char) : Option Layout := do
  let (text, rest) ← quoted? double cs
  l.readProperty (.scalar false (String.ofList text)) rest

/-- Reads a plain scalar. Behind it a key may start if it ended with its line. -/
def readPlain : Option Layout := do
  let s ← plain? l.inBrackets l.indentation l.cursor.rest
  let l ← l.readProperty (.scalar true (String.ofList s.text)) s.rest
  return if s.broken then l.allowing true else l

/-- Reads a block of lines. -/
def readBlock (literal : Bool) (cs : List Char) : Option Layout := do
  let l ← l.dropCandidate
  let (text, rest) ← block? literal l.indentation cs
  return ((l.allowing true).emit (.scalar false (String.ofList text))).upTo rest

/-- Whether a plain scalar can start with a character in front of a rest. -/
def startsPlain (c : Char) (rest : List Char) : Bool :=
  !(isSeparator c || "-?:,[]\x7b\x7d#&*!|>'\"%@`".toList.contains c)
    || (c == '-' && !rest.head?.any isBlank)
    || (!l.inBrackets && (c == '?' || c == ':') && !endsWord rest)

/-! ## Reading a document -/

/-- Reads the token that starts with a character in front of a rest. -/
def readToken (c : Char) (rest : List Char) : Option Layout :=
  let atLineStart := l.cursor.column == 0
  if atLineStart && c == '%' then l.readDirective
  else if atLineStart && isDocumentMark (c :: rest) then do
    let t := if c == '-' then Token.documentStart else .documentEnd
    return ((← l.endBlocks).emit t).advance 3
  else
    match c with
    | '[' => l.openBracket .sequenceStart
    | '{' => l.openBracket .mappingStart
    | ']' => l.closeBracket .sequenceEnd
    | '}' => l.closeBracket .mappingEnd
    | ',' => l.readComma
    | _ =>
      if c == '-' && endsWord rest then l.readItem
      else if c == '?' && (l.inBrackets || endsWord rest) then l.readKey
      else if c == ':' && (l.inBrackets || endsWord rest) then l.readValue
      else
        match c with
        | '*' => do
          let (name, rest) ← anchorName? rest
          l.readProperty (.recall name) rest
        | '&' => do
          let (name, rest) ← anchorName? rest
          l.readProperty (.anchor name) rest
        | '!' => l.readTag rest
        | '\'' => l.readQuoted false rest
        | '"' => l.readQuoted true rest
        | _ =>
          if c == '|' && !l.inBrackets then l.readBlock true rest
          else if c == '>' && !l.inBrackets then l.readBlock false rest
          else if l.startsPlain c rest then l.readPlain
          else none

/-- Reads the rest of a document, at most so many tokens of it. -/
def readWithin : Nat → Layout → Option (List Token)
  | 0, _ => none
  | bound + 1, l => do
    let l ← l.toToken.dropExpired
    let l := l.closeBlocks (some l.cursor.column)
    match l.cursor.rest with
    | [] => return (← l.endBlocks).tokens.reverse
    | c :: rest => readWithin bound (← l.readToken c rest)

end Layout

/-- The tokens of a document. -/
def tokens? (text : String) : Option (List Token) :=
  let cs := text.toList
  if cs.all isReadable then Layout.readWithin (cs.length + 1) { cursor := { rest := cs } } else none

end Yaml

end RouteManifest
