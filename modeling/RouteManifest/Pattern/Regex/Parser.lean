import RouteManifest.Pattern.Regex.Basic

/-!
# Reading regular expressions

The usual notation: `.`, classes in brackets with ranges, negation, nesting and `&&`, `--`, `~~`, the
classes `\d \s \w` and `[:alpha:]`, the anchors `^ $ \b \B \A \z`, groups with and without names, flags, and
the repetitions `* + ?` and `{m,n}`, lazy with `?` behind them.

Refused are: parentheses and brackets that do not pair up, a repetition with nothing before it, a count
without an end or with its bounds the wrong way round, ranges the wrong way round, look-around,
references back to a group, a name used for two groups, and unknown escapes.
-/

namespace RouteManifest

namespace Regex

namespace Parser

/-- What the flags in force say. -/
structure Flags where
  anyCase : Bool := false
  /-- `^` and `$` also match at line breaks -/
  multiLine : Bool := false
  /-- `.` also matches a line break -/
  dotAll : Bool := false
  /-- repetitions are lazy unless followed by `?` -/
  swapGreed : Bool := false
  /-- blanks and comments do not count -/
  verbose : Bool := false

/-- One element of a set or a sequence behind a backslash. -/
inductive Escaped where
  | char (c : Char)
  | set (s : CharSet)
  | anchor (a : Anchor)

/-- A set under the flags in force. -/
def Flags.close (f : Flags) (s : CharSet) : CharSet := if f.anyCase then .anyCase s else s

/-! ## Escapes -/

/-- The value of a digit of base sixteen. -/
def hexValue? (c : Char) : Option Nat :=
  if '0' ≤ c ∧ c ≤ '9' then some (c.toNat - '0'.toNat)
  else if 'a' ≤ c ∧ c ≤ 'f' then some (c.toNat - 'a'.toNat + 10)
  else if 'A' ≤ c ∧ c ≤ 'F' then some (c.toNat - 'A'.toNat + 10)
  else none

/-- The value of digits of base sixteen, if there is at least one. -/
def hexNumber? : List Char → Option Nat
  | [] => none
  | digits => digits.foldl (fun n c => do return (← n) * 16 + (← hexValue? c)) (some 0)

/-- The character of a code point that has one. -/
def charOf? (n : Nat) : Option Char := if n.isValidChar then some (Char.ofNat n) else none

/-- A code point of `count` digits, or of any number in braces. -/
def hexChar? (count : Nat) : List Char → Option (Char × List Char)
  | '\x7b' :: rest =>
    match rest.span (· != '\x7d') with
    | (digits, _ :: rest) => ((hexNumber? digits).bind charOf?).map fun c => (c, rest)
    | _ => none
  | rest =>
    if (rest.take count).length < count then none
    else ((hexNumber? (rest.take count)).bind charOf?).map fun c => (c, rest.drop count)

/-- Whether a character may stand for itself behind a backslash. -/
def isEscapable (c : Char) : Bool := c.toNat < 0x80 && !c.isAlphanum && c != '<' && c != '>'

/-- What stands behind a backslash. -/
def escape? : List Char → Option (Escaped × List Char)
  | [] => none
  | 'd' :: rest => some (.set .decimal, rest)
  | 'D' :: rest => some (.set (.compl .decimal), rest)
  | 's' :: rest => some (.set .blank, rest)
  | 'S' :: rest => some (.set (.compl .blank), rest)
  | 'w' :: rest => some (.set .wordPart, rest)
  | 'W' :: rest => some (.set (.compl .wordPart), rest)
  | 'A' :: rest => some (.anchor .textStart, rest)
  | 'z' :: rest => some (.anchor .textEnd, rest)
  | 'b' :: rest => some (.anchor .wordBoundary, rest)
  | 'B' :: rest => some (.anchor .notWordBoundary, rest)
  | '<' :: rest => some (.anchor .wordStart, rest)
  | '>' :: rest => some (.anchor .wordEnd, rest)
  | 'a' :: rest => some (.char '\x07', rest)
  | 'f' :: rest => some (.char '\x0c', rest)
  | 'n' :: rest => some (.char '\n', rest)
  | 'r' :: rest => some (.char '\r', rest)
  | 't' :: rest => some (.char '\t', rest)
  | 'v' :: rest => some (.char '\x0b', rest)
  | 'x' :: rest => (hexChar? 2 rest).map fun (c, rest) => (.char c, rest)
  | 'u' :: rest => (hexChar? 4 rest).map fun (c, rest) => (.char c, rest)
  | 'U' :: rest => (hexChar? 8 rest).map fun (c, rest) => (.char c, rest)
  | c :: rest => if isEscapable c then some (.char c, rest) else none

/-! ## Classes -/

/-- A class with a name, from its opening bracket on. -/
def namedClass? (cs : List Char) : Option (CharSet × List Char) :=
  match cs with
  | '[' :: ':' :: rest =>
    let (negated, rest) : Bool × List Char :=
      match rest with
      | '^' :: rest => (true, rest)
      | rest => (false, rest)
    match rest.span (· != ':') with
    | (name, ':' :: ']' :: rest) =>
      (CharSet.named? (String.ofList name)).map fun s => (if negated then .compl s else s, rest)
    | _ => none
  | _ => none

/-- One element of a class. -/
def classItem? : List Char → Option (Escaped × List Char)
  | '\\' :: rest => escape? rest
  | c :: rest => some (.char c, rest)
  | [] => none

/-- An element of a class, or a range of two. -/
def classRange? (cs : List Char) : Option (CharSet × List Char) :=
  (classItem? cs).bind fun (first, rest) =>
    let alone : Option (CharSet × List Char) :=
      match first with
      | .char c => some (.single c, rest)
      | .set s => some (s, rest)
      | .anchor _ => none
    match rest with
    | '-' :: ']' :: _ | '-' :: '-' :: _ => alone
    | '-' :: rest =>
      (classItem? rest).bind fun (last, rest) =>
        match first, last with
        | .char low, .char high => if low ≤ high then some (.range low high, rest) else none
        | _, _ => none
    | _ => alone

/-- An operation between two classes. -/
inductive ClassOp where
  | inter | difference | symmetric

/-- Applies a pending operation. -/
def ClassOp.apply (op : Option (ClassOp × CharSet)) (s : CharSet) : CharSet :=
  match op with
  | none => s
  | some (.inter, t) => .inter t s
  | some (.difference, t) => .inter t (.compl s)
  | some (.symmetric, t) => .union (.inter t (.compl s)) (.inter s (.compl t))

/-- The hyphens at the beginning of a class stand for themselves. -/
def leadingHyphens (set : CharSet) : List Char → CharSet × Bool × List Char
  | '-' :: rest =>
    let (set, _, rest) := leadingHyphens (.union set (.single '-')) rest
    (set, true, rest)
  | rest => (set, false, rest)

mutual
/-- A class, from behind its opening bracket on, up to its closing one. -/
def classBody? (fuel : Nat) (f : Flags) (cs : List Char) : Option (CharSet × List Char) :=
  match fuel with
  | 0 => none
  | fuel + 1 =>
    let (negated, cs) : Bool × List Char :=
      match cs with
      | '^' :: rest => (true, rest)
      | cs => (false, cs)
    let (set, hyphens, cs) := leadingHyphens .none cs
    let (set, cs) : CharSet × List Char :=
      match cs with
      | ']' :: rest => if hyphens then (set, cs) else (.single ']', rest)
      | cs => (set, cs)
    (classItems? fuel f none set cs).map fun (s, rest) =>
      let s := f.close s
      (if negated then .compl s else s, rest)

/-- The elements of a class behind those already read. -/
def classItems? (fuel : Nat) (f : Flags) (pending : Option (ClassOp × CharSet)) (set : CharSet)
    (cs : List Char) : Option (CharSet × List Char) :=
  match fuel with
  | 0 => none
  | fuel + 1 =>
    match cs with
    | [] => none
    | ']' :: rest => some (ClassOp.apply pending set, rest)
    | '&' :: '&' :: rest => classItems? fuel f (some (.inter, ClassOp.apply pending set)) .none rest
    | '-' :: '-' :: rest => classItems? fuel f (some (.difference, ClassOp.apply pending set)) .none rest
    | '~' :: '~' :: rest => classItems? fuel f (some (.symmetric, ClassOp.apply pending set)) .none rest
    | '[' :: rest =>
      match namedClass? cs with
      | some (s, rest) => classItems? fuel f pending (.union set s) rest
      | none =>
        (classBody? fuel f rest).bind fun (s, rest) => classItems? fuel f pending (.union set s) rest
    | cs => (classRange? cs).bind fun (s, rest) => classItems? fuel f pending (.union set s) rest
end

/-! ## Repetitions -/

/-- A decimal number with blanks around it. -/
def decimal? (cs : List Char) : Option (Nat × List Char) :=
  let (digits, rest) := (cs.dropWhile Text.isBlank).span Char.isDigit
  if digits.isEmpty then none
  else
    let n := digits.foldl (fun n c => n * 10 + (c.toNat - '0'.toNat)) 0
    if n < Nat.pow 2 32 then some (n, rest.dropWhile Text.isBlank) else none

/-- The bounds of a count, from behind its opening brace on: the least number, and how many more there may
be. -/
def counts? (cs : List Char) : Option ((Nat × Option Nat) × List Char) :=
  (decimal? cs).bind fun (low, rest) =>
    match rest with
    | '\x7d' :: rest => some ((low, some 0), rest)
    | ',' :: '\x7d' :: rest => some ((low, none), rest)
    | ',' :: rest =>
      (decimal? rest).bind fun (high, rest) =>
        match rest with
        | '\x7d' :: rest => if low ≤ high then some ((low, some (high - low)), rest) else none
        | _ => none
    | _ => none

/-- Repeats the last of the elements read so far. Flags cannot be repeated, nor can nothing. -/
def repeatLast? (f : Flags) (done : List (Option Regex)) (bounds : Nat × Option Nat) (cs : List Char) :
    Option (List (Option Regex) × List Char) :=
  match done with
  | some r :: before =>
    let (lazy, rest) : Bool × List Char :=
      match cs with
      | '?' :: rest => (true, rest)
      | rest => (false, rest)
    some (some (.repetition r bounds.1 bounds.2 (lazy == f.swapGreed)) :: before, rest)
  | _ => none

/-! ## Groups -/

/-- Sets or clears one flag. -/
def Flags.set? (f : Flags) (value : Bool) : Char → Option Flags
  | 'i' => some { f with anyCase := value }
  | 'm' => some { f with multiLine := value }
  | 's' => some { f with dotAll := value }
  | 'U' => some { f with swapGreed := value }
  | 'x' => some { f with verbose := value }
  | 'u' => some f
  | 'R' => some f
  | _ => none

/-- The flags of a group up to the colon or parenthesis behind them. No flag may be given twice, and a minus
needs a flag behind it. -/
def flags? (f : Flags) (given : List Char) (negated : Bool) : List Char → Option (Flags × List Char)
  | ':' :: rest => if given.head? = some '-' then none else some (f, ':' :: rest)
  | ')' :: rest => if given.head? = some '-' then none else some (f, ')' :: rest)
  | '-' :: rest => if negated then none else flags? f ('-' :: given) true rest
  | c :: rest =>
    if given.contains c then none
    else (f.set? (!negated) c).bind fun f => flags? f (c :: given) negated rest
  | [] => none

/-- The name of a group, from behind `<` to behind `>`. -/
def groupName? (cs : List Char) : Option (String × List Char) :=
  match cs.span (· != '>') with
  | (first :: others, _ :: rest) =>
    let isFirst := first == '_' || Text.isLetter first
    let isOther (c : Char) : Bool :=
      c == '_' || c == '.' || c == '[' || c == ']' || Text.isLetter c || Text.isDecimal c
    if isFirst && others.all isOther then some (String.ofList (first :: others), rest) else none
  | _ => none

/-- The elements of a sequence put together. -/
def sequence (done : List (Option Regex)) : Regex :=
  match (done.filterMap id).reverse with
  | [] => .empty
  | first :: rest => rest.foldl .concat first

/-- The elements that stand for one character or place. -/
def Flags.primitive (f : Flags) : Escaped → Regex
  | .char c => .chars (f.close (.single c))
  | .set s => .chars (f.close s)
  | .anchor a => .anchor a

mutual
/-- Alternatives up to a closing parenthesis or the end of the text, with the names of groups so far. -/
def alternatives? (fuel : Nat) (f : Flags) (names : List String) (cs : List Char) :
    Option (Regex × List String × List Char) :=
  match fuel with
  | 0 => none
  | fuel + 1 =>
    (elements? fuel f names [] cs).bind fun (f, names, r, rest) =>
      match rest with
      | '|' :: rest =>
        (alternatives? fuel f names rest).map fun (s, names, rest) => (.alternative r s, names, rest)
      | rest => some (r, names, rest)

/-- The elements of a sequence behind those already read, with the flags in force behind them. -/
def elements? (fuel : Nat) (f : Flags) (names : List String) (done : List (Option Regex)) (cs : List Char) :
    Option (Flags × List String × Regex × List Char) :=
  match fuel with
  | 0 => none
  | fuel + 1 =>
    let push (r : Regex) (rest : List Char) := elements? fuel f names (some r :: done) rest
    let again (bounds : Nat × Option Nat) (rest : List Char) :=
      (repeatLast? f done bounds rest).bind fun (done, rest) => elements? fuel f names done rest
    match cs with
    | [] => some (f, names, sequence done, [])
    | '|' :: _ | ')' :: _ => some (f, names, sequence done, cs)
    | '*' :: rest => again (0, none) rest
    | '+' :: rest => again (1, none) rest
    | '?' :: rest => again (0, some 1) rest
    | '\x7b' :: rest => (counts? rest).bind fun (bounds, rest) => again bounds rest
    | '.' :: rest => push (.chars (if f.dotAll then .compl .none else .compl (.single '\n'))) rest
    | '^' :: rest => push (.anchor (if f.multiLine then .lineStart else .textStart)) rest
    | '$' :: rest => push (.anchor (if f.multiLine then .lineEnd else .textEnd)) rest
    | '\\' :: rest => (escape? rest).bind fun (e, rest) => push (f.primitive e) rest
    | '[' :: rest => (classBody? fuel f rest).bind fun (s, rest) => push (.chars s) rest
    | '(' :: '?' :: 'P' :: '<' :: rest | '(' :: '?' :: '<' :: rest =>
      (groupName? rest).bind fun (name, rest) =>
        if names.contains name then none
        else
          (group? fuel f (name :: names) rest).bind fun (r, names, rest) =>
            elements? fuel f names (some r :: done) rest
    | '(' :: '?' :: rest =>
      (flags? f [] false rest).bind fun (inner, after) =>
        match after with
        | ':' :: after =>
          (group? fuel inner names after).bind fun (r, names, rest) =>
            elements? fuel f names (some r :: done) rest
        | _ :: after =>
          if rest.head? = some ')' then none else elements? fuel inner names (none :: done) after
        | [] => none
    | '(' :: rest =>
      (group? fuel f names rest).bind fun (r, names, rest) => elements? fuel f names (some r :: done) rest
    | c :: rest =>
      if f.verbose && Text.isBlank c then elements? fuel f names done rest
      else if f.verbose && c == '#' then elements? fuel f names done (rest.dropWhile (· != '\n'))
      else push (f.primitive (.char c)) rest

/-- The alternatives of a group and its closing parenthesis. -/
def group? (fuel : Nat) (f : Flags) (names : List String) (cs : List Char) :
    Option (Regex × List String × List Char) :=
  match fuel with
  | 0 => none
  | fuel + 1 =>
    (alternatives? fuel f names cs).bind fun (r, names, rest) =>
      match rest with
      | ')' :: rest => some (r, names, rest)
      | _ => none
end

end Parser

/-- The expression that a text denotes. -/
def parse? (text : String) : Option Regex :=
  let cs := text.toList
  (Parser.alternatives? (4 * cs.length + 4) {} [] cs).bind fun (r, _, rest) =>
    if rest.isEmpty then some r else none

end Regex

end RouteManifest
