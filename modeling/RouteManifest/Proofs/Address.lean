import RouteManifest.OpenApi
import Mathlib.Data.List.Basic

/-!
# The words of an address

The name of a controller and the URL of its unit are made of the same segments. The brackets, colons and slashes that
tell a URL from a name, and the braces of a path in a document, are all characters that separate words, so what the
segments spell is kept: a URL and its path in a document have the words of the segments (`words_url`, `words_pathOf`),
and the controller's name is made of nothing else (`controllerName_eq_of_pathOf`).
-/

namespace RouteManifest

namespace Text

/-! ## Words of joined texts

A separator belongs to no word, so the words of a text are those of what stands before it and those of what stands
behind. -/

/-- The words of characters. -/
def wordsOf (cs : List Char) : List (List Char) := (alphanumericRuns cs).flatMap (cutWords .start [])

/-- There is always a run, though it may be empty. -/
theorem alphanumericRuns_ne_nil (cs : List Char) : alphanumericRuns cs ≠ [] := by
  cases cs with
  | nil => exact List.cons_ne_nil _ _
  | cons c cs =>
    rw [alphanumericRuns]
    split
    · split <;> exact List.cons_ne_nil _ _
    · exact List.cons_ne_nil _ _

/-- A character that is neither letter nor digit ends a run. -/
theorem alphanumericRuns_append {c : Char} (hc : c.isAlphanum = false) (a b : List Char) :
    alphanumericRuns (a ++ c :: b) = alphanumericRuns a ++ alphanumericRuns b := by
  induction a with
  | nil => simp [alphanumericRuns, hc]
  | cons d a ih =>
    rw [List.cons_append, alphanumericRuns, ih, alphanumericRuns]
    cases hruns : alphanumericRuns a with
    | nil => exact absurd hruns (alphanumericRuns_ne_nil a)
    | cons first rest => split <;> rfl

/-- A separator ends a word and begins none. -/
theorem wordsOf_append {c : Char} (hc : c.isAlphanum = false) (a b : List Char) :
    wordsOf (a ++ c :: b) = wordsOf a ++ wordsOf b := by
  rw [wordsOf, alphanumericRuns_append hc, List.flatMap_append, wordsOf, wordsOf]

/-- A separator in front of a text adds no word to it. -/
theorem wordsOf_cons {c : Char} (hc : c.isAlphanum = false) (cs : List Char) : wordsOf (c :: cs) = wordsOf cs :=
  wordsOf_append hc [] cs

theorem wordsOf_concat {c : Char} (hc : c.isAlphanum = false) (cs : List Char) : wordsOf (cs ++ [c]) = wordsOf cs :=
  (wordsOf_append hc cs []).trans (List.append_nil _)

/-- The words of joined segments are those of the segments. -/
theorem wordsOf_joinSegments {separator : Char} (h : separator.isAlphanum = false) (segments : List (List Char)) :
    wordsOf (joinSegments separator segments) = segments.flatMap wordsOf := by
  induction segments with
  | nil => rfl
  | cons s rest ih =>
    cases rest with
    | nil => exact (List.append_nil _).symm
    | cons t rest => rw [joinSegments, wordsOf_append h, ih, List.flatMap_cons (x := s)]

/-- The words of a text are those of its segments. -/
theorem flatMap_words_split {separator : Char} (h : separator.isAlphanum = false) (text : String) :
    (split separator text).flatMap words = words text := by
  have hsegments : (split separator text).flatMap words = (segmentsOf separator text.toList).flatMap wordsOf := by
    rw [split, List.flatMap_map]
    exact List.flatMap_congr fun s _ => by rw [words, String.toList_ofList, wordsOf]
  rw [hsegments, ← wordsOf_joinSegments h, join_segments, words, wordsOf]

/-- Joining texts is joining their characters. -/
theorem toList_join_slash (l : List String) : (join "/" l).toList = joinSegments '/' (l.map String.toList) := by
  induction l with
  | nil => rfl
  | cons s rest ih =>
    cases rest with
    | nil => rfl
    | cons t rest =>
      rw [join, String.toList_append, String.toList_append, ih, List.append_assoc]
      rfl

/-- A path has the words of its segments. -/
theorem words_join_slash (l : List String) : words (join "/" l) = l.flatMap words := by
  rw [words, toList_join_slash]
  show wordsOf _ = _
  rw [wordsOf_joinSegments (by decide), List.flatMap_map]
  rfl

/-! ## Words of marked segments

Brackets, colons and braces are taken off one end and put on the other, and all of them are separators. -/

/-- What is dropped from the front stood there. -/
theorem dropLeading?_eq_some {α : Type} [DecidableEq α] {lead l rest : List α} (h : dropLeading? lead l = some rest) :
    l = lead ++ rest := by
  induction lead generalizing l with
  | nil => exact Option.some.inj h
  | cons c lead ih =>
    cases l with
    | nil => cases h
    | cons d l =>
      rw [dropLeading?] at h
      split at h
      next heq => rw [heq, ih h, List.cons_append]
      · cases h

/-- A separator that is dropped from the front takes no word along. -/
theorem words_of_dropLeadingText? {c : Char} (hc : c.isAlphanum = false) {text rest : String}
    (h : dropLeadingText? (String.ofList [c]) text = some rest) : words rest = words text := by
  obtain ⟨cs, hcs, rfl⟩ := Option.map_eq_some_iff.mp h
  have htext := dropLeading?_eq_some hcs
  rw [String.toList_ofList] at htext
  show wordsOf _ = wordsOf _
  rw [String.toList_ofList, htext]
  exact (wordsOf_cons hc cs).symm

theorem words_of_dropTrailingText? {c : Char} (hc : c.isAlphanum = false) {text rest : String}
    (h : dropTrailingText? (String.ofList [c]) text = some rest) : words rest = words text := by
  obtain ⟨cs, hcs, rfl⟩ := Option.map_eq_some_iff.mp h
  have htext := congrArg List.reverse (dropLeading?_eq_some hcs)
  rw [String.toList_ofList, List.reverse_reverse, List.reverse_append, List.reverse_reverse] at htext
  show wordsOf _ = wordsOf _
  rw [String.toList_ofList, htext]
  exact (wordsOf_concat hc cs.reverse).symm

/-- A separator that is put in front adds no word. -/
theorem words_append_of_separator {lead rest : String} {c : Char} (hlead : lead = String.ofList [c])
    (hc : c.isAlphanum = false) : words (lead ++ rest) = words rest := by
  show wordsOf _ = wordsOf _
  rw [hlead, String.toList_append, String.toList_ofList]
  exact wordsOf_cons hc _

theorem words_append_separator {lead rest : String} {c : Char} (hrest : rest = String.ofList [c])
    (hc : c.isAlphanum = false) : words (lead ++ rest) = words lead := by
  show wordsOf _ = wordsOf _
  rw [hrest, String.toList_append, String.toList_ofList]
  exact wordsOf_concat hc _

end Text

open Text

namespace UrlRules

/-- A segment of a URL has the words of the segment of the path. -/
theorem words_urlSegment (segment : String) : words (urlSegment segment) = words segment := by
  rw [urlSegment]
  split
  next name h =>
    obtain ⟨rest, hlead, htrail⟩ := Option.bind_eq_some_iff.mp h
    rw [words_append_of_separator rfl (by decide), words_of_dropTrailingText? (by decide) htrail,
      words_of_dropLeadingText? (by decide) hlead]
  · rfl

/-- The words of a URL are those of its segments. -/
theorem words_url (rules : UrlRules) (unit : Path) : words (rules.url unit) = (rules.segments unit).flatMap words := by
  rw [url, words_append_of_separator rfl (by decide), words_join_slash, List.flatMap_map]
  exact List.flatMap_congr fun s _ => words_urlSegment s

end UrlRules

namespace OpenApi

/-- A segment of a document's path has the words of the segment of the URL. -/
theorem words_pathSegment (segment : String) : words (pathSegment segment) = words segment := by
  rw [pathSegment]
  split
  next name h =>
    rw [String.append_assoc, words_append_of_separator rfl (by decide), words_append_separator rfl (by decide),
      words_of_dropLeadingText? (by decide) h]
  · rfl

/-- A path in a document has the words of its URL, so these can be read off it. -/
theorem words_pathOf (url : String) : words (pathOf url) = words url := by
  rw [pathOf, words_join_slash, List.flatMap_map, ← flatMap_words_split (by decide : '/'.isAlphanum = false) url]
  exact List.flatMap_congr fun s _ => words_pathSegment s

end OpenApi

namespace UrlRules

/-- Segments written together are their words written together. -/
theorem join_upperCamel (segments : List String) :
    String.join (segments.map upperCamel) =
      String.ofList ((segments.flatMap words).map capitalized).flatten := by
  rw [← String.toList_inj, String.toList_join, String.toList_ofList, List.flatMap_map, List.map_flatMap]
  induction segments with
  | nil => rfl
  | cons s rest ih =>
    rw [List.flatMap_cons, ih, List.flatMap_cons, List.flatten_append, upperCamel, String.toList_ofList]

/-- Units with one path in a document have controllers of one name. -/
theorem controllerName_eq_of_pathOf {rules : UrlRules} {unit other : Path}
    (h : OpenApi.pathOf (rules.url unit) = OpenApi.pathOf (rules.url other)) :
    rules.controllerName unit = rules.controllerName other := by
  have hwords := congrArg words h
  rw [OpenApi.words_pathOf, OpenApi.words_pathOf, words_url, words_url] at hwords
  rw [controllerName, controllerName, join_upperCamel, join_upperCamel, hwords]

end UrlRules

end RouteManifest
