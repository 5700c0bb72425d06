import RouteManifest.Path

/-!
# References to provider functions

A configuration says where a provider is found as `path/to/file.rs::function`. A reference without a
function means the function `provide` of the file.
-/

namespace RouteManifest

/-- A function in a file. -/
structure ProviderReference where
  path : Path
  function : String
deriving DecidableEq, Repr

namespace ProviderReference

/-- The function that is meant when none is named. -/
def defaultFunction : String := "provide"

/-- Cuts reversed characters at their first double colon: what comes before it, and what comes after. -/
def cutReversed : List Char → Option (List Char × List Char)
  | ':' :: ':' :: rest => some ([], rest)
  | c :: rest => (cutReversed rest).map fun (before, after) => (c :: before, after)
  | [] => none

/-- Drops all double colons from the end of reversed characters. -/
def dropColons : List Char → List Char
  | ':' :: ':' :: rest => dropColons rest
  | rest => rest

/-- The reference that a text denotes. -/
def parse (text : String) : ProviderReference :=
  let reversed := text.toList.reverse
  match cutReversed reversed with
  | some (c :: function, path) =>
    ⟨⟨String.ofList path.reverse⟩, String.ofList (c :: function).reverse⟩
  | _ => ⟨⟨String.ofList (dropColons reversed).reverse⟩, defaultFunction⟩

/-- The reference as it is written out. -/
def text (r : ProviderReference) : String := r.path.text ++ "::" ++ r.function

end ProviderReference

end RouteManifest
