/-!
# Segments of a text

Cutting a text at a separator and joining the pieces again. `n` separators make `n + 1` segments, so empty
segments at the ends and between two separators are kept; `join_segments` says that joining undoes cutting.
-/

namespace RouteManifest

namespace Text

/-- The runs of characters between separators. -/
def segmentsOf (separator : Char) : List Char → List (List Char)
  | [] => [[]]
  | c :: cs =>
    if c = separator then [] :: segmentsOf separator cs
    else
      match segmentsOf separator cs with
      | [] => [[c]]
      | first :: rest => (c :: first) :: rest

/-- Runs of characters with a separator between each two. -/
def joinSegments (separator : Char) : List (List Char) → List Char
  | [] => []
  | [s] => s
  | s :: t :: rest => s ++ separator :: joinSegments separator (t :: rest)

theorem segmentsOf_ne_nil (separator : Char) (cs : List Char) : segmentsOf separator cs ≠ [] := by
  cases cs with
  | nil => simp [segmentsOf]
  | cons c cs =>
    rw [segmentsOf]
    split
    · simp
    · split <;> simp

theorem join_segments (separator : Char) (cs : List Char) :
    joinSegments separator (segmentsOf separator cs) = cs := by
  induction cs with
  | nil => rfl
  | cons c cs ih =>
    rw [segmentsOf]
    cases h : segmentsOf separator cs with
    | nil => exact absurd h (segmentsOf_ne_nil separator cs)
    | cons first rest =>
      rw [h] at ih
      by_cases hc : c = separator
      · simp [hc, joinSegments, ih]
      · cases rest with
        | nil => simpa [hc, joinSegments] using ih
        | cons second rest => simpa [hc, joinSegments] using ih

/-- The segments of a text. -/
def split (separator : Char) (text : String) : List String :=
  (segmentsOf separator text.toList).map String.ofList

/-- Texts with a separator between each two. -/
def join (separator : String) : List String → String
  | [] => ""
  | [s] => s
  | s :: t :: rest => s ++ separator ++ join separator (t :: rest)

/-- The rest of a list behind a leading part. -/
def dropLeading? {α : Type} [DecidableEq α] : List α → List α → Option (List α)
  | [], rest => some rest
  | c :: cs, d :: ds => if c = d then dropLeading? cs ds else none
  | _ :: _, [] => none

/-- The text behind a leading part. -/
def dropLeadingText? (lead text : String) : Option String :=
  (dropLeading? lead.toList text.toList).map String.ofList

/-- The text in front of a closing part. -/
def dropTrailingText? (trail text : String) : Option String :=
  (dropLeading? trail.toList.reverse text.toList.reverse).map fun cs => String.ofList cs.reverse

end Text

end RouteManifest
