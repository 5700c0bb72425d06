import RouteManifest.Text.CaseTable
import RouteManifest.Text.Letters

/-!
# Small letters and capitals

Case mapping of whole texts in all scripts. Most letters have one counterpart; a capital can take several
characters (`ß` becomes `SS`), and so can one small letter (`İ`). A capital sigma at the end of a word
becomes `ς`, elsewhere `σ`.
-/

namespace RouteManifest

namespace Text

/-- How far a code point is from its counterpart. -/
def shift? (table : List (Nat × Nat × Nat × Int)) (n : Nat) : Option Int :=
  table.findSome? fun (low, high, step, shift) =>
    if low ≤ n ∧ n ≤ high ∧ (n - low) % step = 0 then some shift else none

/-- The counterpart of a character in a table; itself if it has none. -/
def counterpart (table : List (Nat × Nat × Nat × Int)) (c : Char) : Char :=
  match shift? table c.toNat with
  | some shift => Char.ofNat (c.toNat + shift).toNat
  | none => c

/-- The small form of a character by itself. -/
def smallForm (c : Char) : List Char :=
  if c.toNat < 0x80 then [c.toLower]
  else if c = 'İ' then ['i', Char.ofNat 0x307]
  else [counterpart toSmall c]

/-- The capital form of a character. -/
def capitalForm (c : Char) : List Char :=
  if c.toNat < 0x80 then [c.toUpper]
  else
    match toCapitals.lookup c.toNat with
    | some forms => forms.map Char.ofNat
    | none => [counterpart toCapital c]

/-- Whether the first character that counts is cased. -/
def reachesCased : List Char → Bool
  | [] => false
  | c :: rest => if inRanges caselessRanges c.toNat then reachesCased rest else inRanges casedRanges c.toNat

/-- Whether a character between the given ones is the last of a word: a cased character comes before it and
none after. -/
def endsWord (before after : List Char) : Bool := reachesCased before && !reachesCased after

/-- The small form of a text whose earlier characters are given in reverse. -/
def smallCharsAfter (before : List Char) : List Char → List Char
  | [] => []
  | c :: rest =>
    (if c = 'Σ' then [if endsWord before rest then 'ς' else 'σ'] else smallForm c)
      ++ smallCharsAfter (c :: before) rest

/-- The text in small letters. -/
def toSmallText (text : String) : String := String.ofList (smallCharsAfter [] text.toList)

/-- The text in capitals. -/
def toCapitalText (text : String) : String := String.ofList (text.toList.flatMap capitalForm)

end Text

end RouteManifest
