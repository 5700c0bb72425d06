import Mathlib
import RouteManifest.Interface.WireOptions
import RouteManifest.Proofs.Address

/-!
# Names under a rule

A rule for names has a meaning of its own on the wire, which goes by characters: a field's name has an underscore wherever
its writer put one, and a variant's name gets one in front of every capital (`wireForm`). Names are put under a rule by
their words, and words are cut by another measure: capitals in a row are one word, and underscores at an end or in a row
are none.

Where the two agree can be said for each rule (`Fits`), and `nameOf_eq_iff` says that they agree nowhere else. The words
of a name and its segments on the wire spell the same letters, so a rule that joins pieces makes the same of both just if
the pieces are the same: with a separator between them because the separator is found again (`joinSegments_eq_iff`), and
without one because pieces of one length are compared one by one (`flatten_map_eq_iff`). What is left for each rule is to
say what it does to the letters.

What is used of capitals and small letters are the lemmas on the case of ASCII characters, such as
`Char.toLower_eq_of_not_isUpper`. They come with the whole of Mathlib and with no module of it, hence the import.
-/

namespace RouteManifest

namespace Text

/-! ## Cutting words

A word is cut where a small letter is followed by a capital, and in front of the last of several capitals that a small
letter follows. Nothing below needs the exact places, only that cutting loses nothing and that a word begins with a
capital or where the segment begins. -/

/-- Cutting loses nothing, makes no empty words, and cuts in front of capitals only. -/
theorem exists_cutWords (run : Run) (word cs : List Char) (hrun : word = [] → run = .start)
    (hne : word ≠ [] ∨ cs ≠ []) :
    ∃ first rest, cutWords run word cs = first :: rest ∧ first ≠ [] ∧ first ++ rest.flatten = word.reverse ++ cs ∧
      ∀ w ∈ rest, ∃ c tail, w = c :: tail ∧ c.isUpper = true := by
  -- the word so far is in reverse, and empty only at the start
  fun_induction cutWords run word cs with
  | case1 run word h => exact absurd (List.isEmpty_iff.mp h) (by simpa using hne)
  | case2 run word h => exact ⟨word.reverse, [], rfl, by simpa using h, by simp, by simp⟩
  | case3 run word c => exact ⟨(c :: word).reverse, [], rfl, by simp, by simp, by simp⟩
  | case4 run word c next rest following h ih =>
    obtain ⟨first, more, heq, hfirst, hflat, hcapital⟩ := ih (fun _ => rfl) (Or.inr (by simp))
    refine ⟨_, _, rfl, by simp, ?_, ?_⟩
    · rw [heq, List.flatten_cons, hflat]
      simp
    · rw [heq]
      refine List.forall_mem_cons.mpr ⟨?_, hcapital⟩
      obtain ⟨d, tail, rfl⟩ := List.exists_cons_of_ne_nil hfirst
      have hd : d = next := by simpa using congrArg List.head? hflat
      exact ⟨d, tail, rfl, hd ▸ h.2⟩
  | case5 run word c next rest following h h' ih =>
    obtain ⟨first, more, heq, hfirst, hflat, hcapital⟩ := ih (by simp) (Or.inl (by simp))
    have hword : word ≠ [] := by
      rintro rfl
      rw [hrun rfl] at h'
      exact absurd h'.1 (by decide)
    refine ⟨_, _, rfl, by simpa using hword, ?_, ?_⟩
    · rw [heq, List.flatten_cons, hflat]
      simp
    · rw [heq]
      refine List.forall_mem_cons.mpr ⟨?_, hcapital⟩
      obtain ⟨d, tail, rfl⟩ := List.exists_cons_of_ne_nil hfirst
      have hd : d = c := by simpa using congrArg List.head? hflat
      exact ⟨d, tail, rfl, hd ▸ h'.2.1⟩
  | case6 run word c next rest following h h' ih =>
    obtain ⟨first, more, heq, hfirst, hflat, hcapital⟩ := ih (by simp) (Or.inl (by simp))
    exact ⟨first, more, heq, hfirst, by simpa using hflat, hcapital⟩

/-- The characters of an ASCII identifier. -/
def IsPlain (cs : List Char) : Prop := ∀ c ∈ cs, c.isAlphanum = true ∨ c = '_'

instance (cs : List Char) : Decidable (IsPlain cs) := List.decidableBAll (fun c : Char => c.isAlphanum = true ∨ c = '_') cs

variable {cs : List Char}

/-- The one character of an identifier that is neither a letter nor a digit is the underscore, so its runs are its
segments. -/
theorem alphanumericRuns_of_isPlain (h : IsPlain cs) : alphanumericRuns cs = segmentsOf '_' cs := by
  induction cs with
  | nil => rfl
  | cons c cs ih =>
    obtain ⟨hc, hcs⟩ := List.forall_mem_cons.mp h
    rw [alphanumericRuns, segmentsOf, ih hcs]
    rcases hc with hc | rfl
    · have hne : c ≠ '_' := by
        rintro rfl
        exact absurd hc (by decide)
      exact (if_pos hc).trans (if_neg hne).symm
    · rfl

/-- All that cutting takes away are the separators. -/
theorem flatten_segmentsOf (separator : Char) (cs : List Char) :
    (segmentsOf separator cs).flatten = cs.filter (· ≠ separator) := by
  induction cs with
  | nil => rfl
  | cons c cs ih =>
    rw [segmentsOf]
    by_cases hc : c = separator
    · simp [hc, ih]
    · rw [if_neg hc, List.filter_cons_of_pos (by simpa using hc), ← ih]
      cases h : segmentsOf separator cs with
      | nil => exact absurd h (segmentsOf_ne_nil separator cs)
      | cons first rest => rfl

/-- A text without the separator is one segment. -/
theorem segmentsOf_of_not_mem {separator : Char} (h : separator ∉ cs) : segmentsOf separator cs = [cs] := by
  induction cs with
  | nil => rfl
  | cons c cs ih =>
    obtain ⟨hc, hcs⟩ := not_or.mp (mt List.mem_cons.mpr h)
    simp [segmentsOf, ih hcs, Ne.symm hc]

/-- What stands in front of the first separator is the first segment. -/
theorem segmentsOf_append {separator : Char} {s : List Char} (h : separator ∉ s) (cs : List Char) :
    segmentsOf separator (s ++ separator :: cs) = s :: segmentsOf separator cs := by
  induction s with
  | nil => simp [segmentsOf]
  | cons c s ih =>
    obtain ⟨hc, hs⟩ := not_or.mp (mt List.mem_cons.mpr h)
    simp [segmentsOf, ih hs, Ne.symm hc]

/-- Cutting undoes joining, if nothing that is joined holds the separator. -/
theorem segments_join {separator : Char} {l : List (List Char)} (hne : l ≠ []) (h : ∀ s ∈ l, separator ∉ s) :
    segmentsOf separator (joinSegments separator l) = l := by
  induction l with
  | nil => exact absurd rfl hne
  | cons s rest ih =>
    obtain ⟨hs, hrest⟩ := List.forall_mem_cons.mp h
    cases rest with
    | nil => exact segmentsOf_of_not_mem hs
    | cons t rest => rw [joinSegments, segmentsOf_append hs, ih (by simp) hrest]

/-- A change of letters can be made before the segments are joined, if it is made of the separator too. -/
theorem map_joinSegments (f : Char → Char) (separator : Char) (l : List (List Char)) :
    (joinSegments separator l).map f = joinSegments (f separator) (l.map (List.map f)) := by
  induction l with
  | nil => rfl
  | cons s rest ih =>
    cases rest with
    | nil => rfl
    | cons t rest => simp only [joinSegments, List.map_append, List.map_cons, ih]

/-- The words that are cut out of a segment spell the segment. -/
theorem flatten_cutWords (s : List Char) : (cutWords .start [] s).flatten = s := by
  cases s with
  | nil => rfl
  | cons c s =>
    obtain ⟨first, rest, heq, -, hflat, -⟩ := exists_cutWords .start [] (c :: s) (fun _ => rfl) (Or.inr (by simp))
    rw [heq, List.flatten_cons, hflat, List.reverse_nil, List.nil_append]

/-- The words of a name are what is left of it without underscores. -/
theorem flatten_wordsOf (h : IsPlain cs) : (wordsOf cs).flatten = cs.filter (· ≠ '_') := by
  rw [wordsOf, alphanumericRuns_of_isPlain h, ← flatten_segmentsOf]
  induction segmentsOf '_' cs with
  | nil => rfl
  | cons s rest ih => rw [List.flatMap_cons, List.flatten_append, flatten_cutWords, ih, List.flatten_cons]

/-- No word is empty, unlike a segment: underscores in a row or at an end leave none behind. -/
theorem ne_nil_of_mem_wordsOf {w : List Char} (hw : w ∈ wordsOf cs) : w ≠ [] := by
  obtain ⟨s, -, hw⟩ := List.mem_flatMap.mp hw
  cases s with
  | nil => cases hw
  | cons c s =>
    obtain ⟨first, rest, heq, hfirst, -, hcapital⟩ :=
      exists_cutWords .start [] (c :: s) (fun _ => rfl) (Or.inr (by simp))
    rw [heq] at hw
    rcases List.mem_cons.mp hw with rfl | hw
    · exact hfirst
    · obtain ⟨d, tail, rfl, -⟩ := hcapital w hw
      exact List.cons_ne_nil d tail

/-! ## Letters

Names are put under a rule by functions for all of Unicode, and the meaning of a rule is given by ASCII letters. On
identifiers of ASCII letters, digits and underscores both do the same. -/

/-- Letters and digits, as they are told here, are ASCII. -/
theorem toNat_lt_of_isAlphanum {c : Char} (h : c.isAlphanum = true) : c.toNat < 0x80 := by
  simp [Char.isAlphanum, Char.isAlpha, Char.isUpper, Char.isLower, Char.isDigit, UInt32.le_iff_toNat_le] at h
  omega

/-- The characters of an identifier are ASCII, and what is special about other alphabets does not arise. -/
theorem toNat_lt_of_isPlain (h : IsPlain cs) {c : Char} (hc : c ∈ cs) : c.toNat < 0x80 := by
  rcases h c hc with hc | rfl
  · exact toNat_lt_of_isAlphanum hc
  · decide

/-- No ASCII letter is made small in a way that depends on what stands around it. -/
theorem smallCharsAfter_of_ascii (before : List Char) (h : ∀ c ∈ cs, c.toNat < 0x80) :
    smallCharsAfter before cs = small cs := by
  induction cs generalizing before with
  | nil => rfl
  | cons c cs ih =>
    obtain ⟨hc, hcs⟩ := List.forall_mem_cons.mp h
    have hne : c ≠ 'Σ' := by
      rintro rfl
      exact absurd hc (by decide)
    rw [smallCharsAfter, if_neg hne, smallForm, if_pos hc, ih _ hcs]
    rfl

/-- Every ASCII character has one character for a capital. -/
theorem flatMap_capitalForm_of_ascii (h : ∀ c ∈ cs, c.toNat < 0x80) : cs.flatMap capitalForm = capitals cs := by
  induction cs with
  | nil => rfl
  | cons c cs ih =>
    obtain ⟨hc, hcs⟩ := List.forall_mem_cons.mp h
    rw [List.flatMap_cons, capitalForm, if_pos hc, ih hcs]
    rfl

/-- Small letters are kept by making letters small. -/
theorem small_eq_self_iff : small cs = cs ↔ ∀ c ∈ cs, c.isUpper = false := by
  induction cs with
  | nil => simp [small]
  | cons c cs ih =>
    have hc : c.toLower = c ↔ c.isUpper = false := by
      constructor
      · intro h
        rw [← h, Char.isUpper_toLower_eq_false]
      · exact fun h => Char.toLower_eq_of_not_isUpper (Bool.eq_false_iff.mp h)
    rw [List.forall_mem_cons, ← ih, ← hc]
    exact List.cons_eq_cons

/-! ## Joined words

Two ways to cut the same letters into pieces are the same if the joined texts are, because separators can be found
again: no piece holds one. -/

/-- Lists of words that spell the same, joined under a change of letters, are the same if they are joined to the same. -/
theorem map_map_eq_iff {f : Char → Char} {l l' : List (List Char)} (h : l.flatten = l'.flatten) :
    l.map (List.map f) = l'.map (List.map f) ↔ l = l' := by
  refine ⟨fun heq => List.eq_iff_flatten_eq.mpr ⟨h, ?_⟩, fun heq => heq ▸ rfl⟩
  have := congrArg (List.map List.length) heq
  simpa [Function.comp_def] using this

/-- Words that spell the same as the segments of a text, and are joined to the same under a change of letters, are the
segments. -/
theorem joinSegments_eq_iff {f : Char → Char} {separator : Char} {l l' : List (List Char)} (hne : l' ≠ [])
    (hne' : l' ≠ [[]]) (h : l.flatten = l'.flatten) (hf : ∀ c ∈ l'.flatten, f c ≠ separator) :
    joinSegments separator (l.map (List.map f)) = joinSegments separator (l'.map (List.map f)) ↔ l = l' := by
  have hfree {l : List (List Char)} (hl : l.flatten = l'.flatten) : ∀ s ∈ l.map (List.map f), separator ∉ s := by
    intro s hs hmem
    obtain ⟨w, hw, rfl⟩ := List.mem_map.mp hs
    obtain ⟨c, hc, heq⟩ := List.mem_map.mp hmem
    exact hf c (hl ▸ List.mem_flatten.mpr ⟨w, hw, hc⟩) heq
  refine ⟨fun heq => ?_, fun heq => heq ▸ rfl⟩
  have hcut := congrArg (segmentsOf separator) heq
  rw [segments_join (by simpa using hne) (hfree rfl)] at hcut
  rcases l with _ | ⟨w, l⟩
  · -- nothing is joined to the empty text, which has one segment
    obtain ⟨s, rfl, hs⟩ := List.map_eq_singleton_iff.mp hcut.symm
    exact absurd (by rw [List.map_eq_nil_iff.mp hs]) hne'
  · rw [segments_join (by simp) (hfree h)] at hcut
    exact (map_map_eq_iff h).mp hcut

/-- A text that is not empty has more for segments than an empty one. -/
theorem segmentsOf_ne_empty {separator : Char} (h : cs ≠ []) : segmentsOf separator cs ≠ [[]] := by
  intro heq
  have := join_segments separator cs
  rw [heq] at this
  exact h this.symm

/-! ## What the rules mean

The rules as the wire has them, character by character. These are definitions of what is meant, and what is computed is
compared with them below. -/

/-- What is put under a rule. -/
inductive NameKind where
  | field | variant
deriving DecidableEq, Repr

/-- The rules for names. -/
inductive NameRule where
  | lower | upper | pascal | camel | snake | shoutySnake | kebab | shoutyKebab
deriving DecidableEq, Repr

/-- What a rule is called. -/
def NameRule.text : NameRule → String
  | .lower => "lowercase"
  | .upper => "UPPERCASE"
  | .pascal => "PascalCase"
  | .camel => "camelCase"
  | .snake => "snake_case"
  | .shoutySnake => "SCREAMING_SNAKE_CASE"
  | .kebab => "kebab-case"
  | .shoutyKebab => "SCREAMING-KEBAB-CASE"

/-- A name with a small letter in front. -/
def smallFirst : List Char → List Char
  | [] => []
  | c :: cs => c.toLower :: cs

/-- A name with a capital in front. -/
def capitalFirst : List Char → List Char
  | [] => []
  | c :: cs => c.toUpper :: cs

/-- A name with an underscore in front of every capital but the first character. -/
def underscored : List Char → List Char
  | [] => []
  | c :: cs => c :: cs.flatMap fun d => if d.isUpper then ['_', d] else [d]

/-- A name with dashes for underscores. -/
def dashed (cs : List Char) : List Char := cs.map fun c => if c = '_' then '-' else c

/-- A name without underscores, with a capital behind each of them, and in front if asked for. -/
def camelCased (capital : Bool) : List Char → List Char
  | [] => []
  | c :: cs => if c = '_' then camelCased true cs else (if capital then c.toUpper else c) :: camelCased false cs

/-- A name on the wire. -/
def wireForm : NameKind → NameRule → List Char → List Char
  | .variant, .pascal, cs => cs
  | .variant, .camel, cs => smallFirst cs
  | .variant, .lower, cs => small cs
  | .variant, .upper, cs => capitals cs
  | .variant, .snake, cs => small (underscored cs)
  | .variant, .shoutySnake, cs => capitals (small (underscored cs))
  | .variant, .kebab, cs => dashed (small (underscored cs))
  | .variant, .shoutyKebab, cs => dashed (capitals (small (underscored cs)))
  | .field, .lower, cs | .field, .snake, cs => cs
  | .field, .upper, cs | .field, .shoutySnake, cs => capitals cs
  | .field, .pascal, cs => camelCased true cs
  | .field, .camel, cs => smallFirst (camelCased true cs)
  | .field, .kebab, cs => dashed cs
  | .field, .shoutyKebab, cs => dashed (capitals cs)

/-! ## Where words agree with it

For every rule and both kinds of name there is a condition on the name alone, which can be decided. -/

/-- The words of a name as they are cut on the wire: at the underscores, and those of a variant in front of its capitals
too. -/
def wireWords : NameKind → List Char → List (List Char)
  | .field, cs => segmentsOf '_' cs
  | .variant, cs => segmentsOf '_' (underscored cs)

/-- No letter is a capital. -/
def HasNoCapitals (cs : List Char) : Prop := ∀ c ∈ cs, c.isUpper = false

instance (cs : List Char) : Decidable (HasNoCapitals cs) := List.decidableBAll (fun c : Char => c.isUpper = false) cs

/-- Every capital begins a word. -/
def CapitalsBegin (cs : List Char) : Prop := ∀ w ∈ wordsOf cs, HasNoCapitals w.tail

instance (cs : List Char) : Decidable (CapitalsBegin cs) :=
  List.decidableBAll (fun w : List Char => HasNoCapitals w.tail) (wordsOf cs)

/-- What a name has to be like for a rule to make of its words what is on the wire. -/
def Fits : NameKind → NameRule → List Char → Prop
  | _, .upper, _ | .variant, .lower, _ => True
  | .field, .lower, cs => HasNoCapitals cs
  | .variant, .pascal, cs => '_' ∉ cs ∧ CapitalsBegin cs ∧ capitalFirst cs = cs
  | .variant, .camel, cs => '_' ∉ cs ∧ CapitalsBegin cs
  | .field, .pascal, cs | .field, .camel, cs => CapitalsBegin cs
  | .field, .snake, cs | .field, .kebab, cs => wordsOf cs = wireWords .field cs ∧ HasNoCapitals cs
  | .field, .shoutySnake, cs | .field, .shoutyKebab, cs => wordsOf cs = wireWords .field cs
  | .variant, .snake, cs | .variant, .shoutySnake, cs | .variant, .kebab, cs | .variant, .shoutyKebab, cs =>
    wordsOf cs = wireWords .variant cs

instance : (kind : NameKind) → (rule : NameRule) → (cs : List Char) → Decidable (Fits kind rule cs)
  | .field, .upper, _ | .variant, .upper, _ | .variant, .lower, _ => inferInstanceAs (Decidable True)
  | .field, .lower, cs => inferInstanceAs (Decidable (HasNoCapitals cs))
  | .variant, .pascal, cs =>
    inferInstanceAs (Decidable ('_' ∉ cs ∧ CapitalsBegin cs ∧ capitalFirst cs = cs))
  | .variant, .camel, cs => inferInstanceAs (Decidable ('_' ∉ cs ∧ CapitalsBegin cs))
  | .field, .pascal, cs | .field, .camel, cs => inferInstanceAs (Decidable (CapitalsBegin cs))
  | .field, .snake, cs | .field, .kebab, cs =>
    inferInstanceAs (Decidable (wordsOf cs = wireWords .field cs ∧ HasNoCapitals cs))
  | .field, .shoutySnake, cs | .field, .shoutyKebab, cs =>
    inferInstanceAs (Decidable (wordsOf cs = wireWords .field cs))
  | .variant, .snake, cs | .variant, .shoutySnake, cs | .variant, .kebab, cs | .variant, .shoutyKebab, cs =>
    inferInstanceAs (Decidable (wordsOf cs = wireWords .variant cs))

/-! ### Words with separators

The rules with underscores and dashes: the words that are computed and the words of the wire are put between the same
separators, so the texts agree just if the words do. -/

/-- Letters and digits stay so when they are made small. -/
theorem isAlphanum_toLower {c : Char} (h : c.isAlphanum = true) : c.toLower.isAlphanum = true := by
  by_cases hc : c.isAlpha = true
  · simp [Char.isAlphanum, hc]
  · have hupper : ¬c.isUpper = true := fun hu => hc (by simp [Char.isAlpha, hu])
    rwa [Char.toLower_eq_of_not_isUpper hupper]

/-- Letters and digits stay so when they are made capitals. -/
theorem isAlphanum_toUpper {c : Char} (h : c.isAlphanum = true) : c.toUpper.isAlphanum = true := by
  by_cases hc : c.isAlpha = true
  · simp [Char.isAlphanum, hc]
  · have hlower : ¬c.isLower = true := fun hl => hc (by simp [Char.isAlpha, hl])
    rwa [Char.toUpper_eq_of_not_isLower hlower]

/-- A letter or a digit is not a separator. -/
theorem ne_of_isAlphanum {c d : Char} (h : c.isAlphanum = true) (hd : d.isAlphanum = false) : c ≠ d := by
  rintro rfl
  rw [h] at hd
  cases hd

/-- Where there is no underscore, there is nothing to make a dash of. -/
theorem dashed_eq_self {w : List Char} (h : '_' ∉ w) : dashed w = w := by
  refine (List.map_congr_left fun c hc => if_neg ?_).trans (List.map_id' w)
  rintro rfl
  exact h hc

/-- Words joined with underscores turn into words joined with dashes. -/
theorem dashed_joinSegments {l : List (List Char)} (h : ∀ w ∈ l, '_' ∉ w) :
    dashed (joinSegments '_' l) = joinSegments '-' l := by
  have hwords : l.map dashed = l := (List.map_congr_left fun w hw => dashed_eq_self (h w hw)).trans (List.map_id' l)
  calc
    dashed (joinSegments '_' l) = joinSegments '-' (l.map dashed) := map_joinSegments _ _ _
    _ = joinSegments '-' l := by rw [hwords]

/-- A change of letters that makes no separators. -/
structure IsCase (f : Char → Char) : Prop where
  underscore : f '_' = '_'
  isAlphanum {c : Char} : c.isAlphanum = true → (f c).isAlphanum = true

/-- Making letters small makes no separators. -/
theorem isCase_toLower : IsCase Char.toLower := ⟨by decide, isAlphanum_toLower⟩

/-- Making capitals makes no separators. -/
theorem isCase_toUpper : IsCase Char.toUpper := ⟨by decide, isAlphanum_toUpper⟩

section Separated

variable {f : Char → Char} (hf : IsCase f) {m : List Char} (hm : IsPlain m) (hne : m ≠ [])
  (hwords : (wordsOf cs).flatten = m.filter (· ≠ '_'))
include hf hm hne hwords

/-- Words and segments of the same letters, joined with the same separator, make the same text just if they are the
same. The letters may be changed on the way, since no letter becomes a separator. -/
theorem joinSegments_wordsOf_eq_iff {separator : Char} (hseparator : separator.isAlphanum = false) :
    joinSegments separator ((wordsOf cs).map (List.map f)) =
      joinSegments separator ((segmentsOf '_' m).map (List.map f)) ↔ wordsOf cs = segmentsOf '_' m := by
  refine joinSegments_eq_iff (segmentsOf_ne_nil _ _) (segmentsOf_ne_empty hne)
    (hwords.trans (flatten_segmentsOf _ _).symm) fun c hc => ?_
  rw [flatten_segmentsOf] at hc
  obtain ⟨hc, hother⟩ := List.mem_filter.mp hc
  exact ne_of_isAlphanum (hf.isAlphanum ((hm c hc).resolve_right (by simpa using hother))) hseparator

/-- Words with underscores between them make up a text if it has the words for segments. -/
theorem underscores_eq_iff :
    joinSegments '_' ((wordsOf cs).map (List.map f)) = m.map f ↔ wordsOf cs = segmentsOf '_' m := by
  have hmap := map_joinSegments f '_' (segmentsOf '_' m)
  rw [join_segments, hf.underscore] at hmap
  rw [hmap]
  exact joinSegments_wordsOf_eq_iff hf hm hne hwords (by decide)

/-- Words with dashes between them make up a text with dashes for underscores if it has the words for segments. -/
theorem dashes_eq_iff :
    joinSegments '-' ((wordsOf cs).map (List.map f)) = dashed (m.map f) ↔ wordsOf cs = segmentsOf '_' m := by
  have hmap := map_joinSegments f '_' (segmentsOf '_' m)
  rw [join_segments, hf.underscore] at hmap
  rw [hmap, dashed_joinSegments]
  · exact joinSegments_wordsOf_eq_iff hf hm hne hwords (by decide)
  · intro w hw hmem
    obtain ⟨s, hs, rfl⟩ := List.mem_map.mp hw
    obtain ⟨c, hc, heq⟩ := List.mem_map.mp hmem
    have hc' : c ∈ m.filter (· ≠ '_') := flatten_segmentsOf '_' m ▸ List.mem_flatten.mpr ⟨s, hs, hc⟩
    obtain ⟨hc', hother⟩ := List.mem_filter.mp hc'
    refine ne_of_isAlphanum (hf.isAlphanum ((hm c hc').resolve_right (by simpa using hother))) ?_ heq
    decide

end Separated

/-- The underscores in front of its capitals leave an identifier an identifier. -/
theorem isPlain_underscored (h : IsPlain cs) : IsPlain (underscored cs) := by
  cases cs with
  | nil => exact h
  | cons c cs =>
    obtain ⟨hc, hcs⟩ := List.forall_mem_cons.mp h
    refine List.forall_mem_cons.mpr ⟨hc, fun d hd => ?_⟩
    obtain ⟨e, he, hd⟩ := List.mem_flatMap.mp hd
    split at hd
    · rcases List.mem_cons.mp hd with rfl | hd
      · exact Or.inr rfl
      · exact List.mem_singleton.mp hd ▸ hcs e he
    · exact List.mem_singleton.mp hd ▸ hcs e he

/-- A name that is not empty is not empty with underscores, either. -/
theorem underscored_ne_nil (h : cs ≠ []) : underscored cs ≠ [] := by
  cases cs with
  | nil => exact absurd rfl h
  | cons c cs => exact List.cons_ne_nil _ _

/-- Underscores are all that is added, so the letters are those of the name. -/
theorem filter_underscored (cs : List Char) : (underscored cs).filter (· ≠ '_') = cs.filter (· ≠ '_') := by
  cases cs with
  | nil => rfl
  | cons c cs =>
    have h : (cs.flatMap fun d => if d.isUpper then ['_', d] else [d]).filter (· ≠ '_') = cs.filter (· ≠ '_') := by
      induction cs with
      | nil => rfl
      | cons d cs ih =>
        rw [List.flatMap_cons, List.filter_append, ih, ← List.singleton_append (l := cs), List.filter_append]
        split <;> simp
    rw [underscored, List.filter_cons, List.filter_cons, h]

/-! ### Words without separators

The rules in camel case leave no separator to find the words by. But both sides spell the same letters, so that pieces
of one length can be compared one by one. -/

/-- Pieces of the same lengths make up the same text if they are the same. -/
theorem flatten_map_eq_iff {l : List (List Char)} {f g : List Char → List Char}
    (h : ∀ w ∈ l, (f w).length = (g w).length) :
    (l.map f).flatten = (l.map g).flatten ↔ ∀ w ∈ l, f w = g w := by
  rw [← List.map_inj_left, List.eq_iff_flatten_eq, and_iff_left]
  rw [List.map_map, List.map_map]
  exact List.map_congr_left h

/-- A word is made small behind its first letter, which changes nothing if it has no capital there. -/
theorem capitalized_eq (w : List Char) : capitalized w = capitalFirst w ↔ HasNoCapitals w.tail := by
  cases w with
  | nil => simp [capitalized, capitalFirst, HasNoCapitals]
  | cons c w => simp [capitalized, capitalFirst, small_eq_self_iff, HasNoCapitals]

/-- A word keeps its length under capitals. -/
theorem length_capitalized (w : List Char) : (capitalized w).length = w.length := by
  cases w <;> simp [capitalized, small]

/-- A piece keeps its length when it gets a capital in front. -/
theorem length_capitalFirst (w : List Char) : (capitalFirst w).length = w.length := by
  cases w <;> simp [capitalFirst]

/-- Pieces that keep their lengths make up a text of the same length. -/
theorem length_flatten_map {l : List (List Char)} {f : List Char → List Char} (h : ∀ w, (f w).length = w.length) :
    (l.map f).flatten.length = l.flatten.length := by
  simp [List.length_flatten, Function.comp_def, h]

/-- The words of a segment, each with a capital, are the segment with a capital if the others begin with its capitals. -/
theorem flatten_capitalized_iff (s : List Char) :
    ((cutWords .start [] s).map capitalized).flatten = capitalFirst s ↔
      ∀ w ∈ cutWords .start [] s, HasNoCapitals w.tail := by
  cases s with
  | nil => simp [cutWords, capitalFirst]
  | cons c s =>
    obtain ⟨first, rest, heq, hfirst, hflat, hcapital⟩ :=
      exists_cutWords .start [] (c :: s) (fun _ => rfl) (Or.inr (by simp))
    have hrest : rest.map capitalFirst = rest := by
      refine (List.map_congr_left fun w hw => ?_).trans (List.map_id' rest)
      obtain ⟨d, tail, rfl, hd⟩ := hcapital w hw
      have hlower : ¬d.isLower = true := by
        simp [Char.isUpper, Char.isLower, UInt32.le_iff_toNat_le] at hd ⊢
        omega
      rw [capitalFirst, Char.toUpper_eq_of_not_isLower hlower]
    have hcapitals : capitalFirst (c :: s) = ((first :: rest).map capitalFirst).flatten := by
      rw [List.reverse_nil, List.nil_append] at hflat
      rw [← hflat, List.map_cons, List.flatten_cons, hrest]
      obtain ⟨d, tail, rfl⟩ := List.exists_cons_of_ne_nil hfirst
      rfl
    rw [heq, hcapitals, flatten_map_eq_iff fun w _ => (length_capitalized w).trans (length_capitalFirst w).symm]
    exact forall₂_congr fun w _ => capitalized_eq w

/-- The wire puts a capital behind every underscore: that is a capital in front of every segment, but for the first if
none is asked for. -/
theorem camelCased_eq (cs : List Char) :
    ∃ first rest, segmentsOf '_' cs = first :: rest ∧
      camelCased true cs = capitalFirst first ++ (rest.map capitalFirst).flatten ∧
      camelCased false cs = first ++ (rest.map capitalFirst).flatten := by
  induction cs with
  | nil => exact ⟨[], [], rfl, rfl, rfl⟩
  | cons c cs ih =>
    obtain ⟨first, rest, heq, htrue, hfalse⟩ := ih
    by_cases hc : c = '_'
    · refine ⟨[], first :: rest, by rw [segmentsOf, if_pos hc, heq], ?_, ?_⟩ <;>
        simp [camelCased, hc, htrue, capitalFirst]
    · refine ⟨c :: first, rest, by rw [segmentsOf, if_neg hc, heq], ?_, ?_⟩ <;>
        simp [camelCased, hc, hfalse, capitalFirst]

/-- The words of a name, each with a capital, are the name with a capital for every underscore if they begin with its
capitals. -/
theorem capitalized_wordsOf_eq_iff (h : IsPlain cs) :
    ((wordsOf cs).map capitalized).flatten = camelCased true cs ↔ CapitalsBegin cs := by
  have hcamel : camelCased true cs = ((segmentsOf '_' cs).map capitalFirst).flatten := by
    obtain ⟨first, rest, heq, htrue, -⟩ := camelCased_eq cs
    rw [htrue, heq, List.map_cons, List.flatten_cons]
  have hwords : ((wordsOf cs).map capitalized).flatten =
      ((segmentsOf '_' cs).map fun s => ((cutWords .start [] s).map capitalized).flatten).flatten := by
    rw [wordsOf, alphanumericRuns_of_isPlain h, List.map_flatMap, List.flatMap_def, List.flatten_flatten, List.map_map]
    rfl
  have hlength (s : List Char) :
      ((cutWords .start [] s).map capitalized).flatten.length = (capitalFirst s).length := by
    rw [length_flatten_map length_capitalized, flatten_cutWords, length_capitalFirst]
  rw [hcamel, hwords, flatten_map_eq_iff fun s _ => hlength s, CapitalsBegin, wordsOf, alphanumericRuns_of_isPlain h]
  simp only [flatten_capitalized_iff, List.mem_flatMap]
  constructor
  · rintro h w ⟨s, hs, hw⟩
    exact h s hs w hw
  · exact fun h s hs w hw => h w ⟨s, hs, hw⟩

/-- A small letter in front is undone by a capital. -/
theorem capitalFirst_smallFirst (cs : List Char) : capitalFirst (smallFirst cs) = capitalFirst cs := by
  cases cs with
  | nil => rfl
  | cons c cs => simp [smallFirst, capitalFirst]

/-- A capital in front is undone by a small letter. -/
theorem smallFirst_capitalFirst (cs : List Char) : smallFirst (capitalFirst cs) = smallFirst cs := by
  cases cs with
  | nil => rfl
  | cons c cs => simp [smallFirst, capitalFirst]

/-- Names with a capital in front are told apart without it. -/
theorem smallFirst_inj {a b : List Char} (ha : capitalFirst a = a) (hb : capitalFirst b = b) :
    smallFirst a = smallFirst b ↔ a = b := by
  refine ⟨fun h => ?_, fun h => h ▸ rfl⟩
  rw [← ha, ← hb, ← capitalFirst_smallFirst a, h, capitalFirst_smallFirst]

/-- A name in camel case with a capital has it in front. -/
theorem capitalFirst_camelCased (cs : List Char) : capitalFirst (camelCased true cs) = camelCased true cs := by
  induction cs with
  | nil => rfl
  | cons c cs ih =>
    rw [camelCased]
    split
    · exact ih
    · simp [capitalFirst]

/-- A row of capitalized words has a capital in front. -/
theorem capitalFirst_capitalized {l : List (List Char)} (h : ∀ w ∈ l, w ≠ []) :
    capitalFirst (l.map capitalized).flatten = (l.map capitalized).flatten := by
  rcases l with _ | ⟨w, l⟩
  · rfl
  · obtain ⟨c, w, rfl⟩ := List.exists_cons_of_ne_nil (h w List.mem_cons_self)
    simp [capitalized, capitalFirst]

/-- Lower camel case is upper camel case with a small letter in front. -/
theorem lowerCamel_eq (name : String) :
    lowerCamel name = String.ofList (smallFirst ((words name).map capitalized).flatten) := by
  rw [lowerCamel]
  have hne : ∀ w ∈ words name, w ≠ [] := fun w hw => ne_nil_of_mem_wordsOf hw
  rcases h : words name with _ | ⟨w, rest⟩
  · rfl
  · obtain ⟨c, w, rfl⟩ := List.exists_cons_of_ne_nil (hne w (h ▸ List.mem_cons_self))
    simp [capitalized, smallFirst, small]

/-- Capitalized words leave out the underscores of a name and nothing else. -/
theorem length_capitalized_wordsOf (h : IsPlain cs) :
    ((wordsOf cs).map capitalized).flatten.length = (cs.filter (· ≠ '_')).length := by
  rw [length_flatten_map length_capitalized, flatten_wordsOf h]

/-- A name that is no longer than it was without them had no underscores. -/
theorem not_mem_of_length_filter (h : (cs.filter (· ≠ '_')).length = cs.length) : '_' ∉ cs := by
  intro hmem
  have := List.length_filter_eq_length_iff.mp h '_' hmem
  simp at this

/-- Without underscores, camel case has one capital to set. -/
theorem camelCased_of_not_mem (h : '_' ∉ cs) : camelCased true cs = capitalFirst cs := by
  obtain ⟨first, rest, heq, htrue, -⟩ := camelCased_eq cs
  rw [segmentsOf_of_not_mem h] at heq
  cases heq
  simpa using htrue

/-! ## Names under a rule

Each rule is now reduced to one of the two comparisons above. -/

/-- Dashes for underscores make no capitals. -/
theorem hasNoCapitals_dashed : HasNoCapitals (dashed cs) ↔ HasNoCapitals cs := by
  rw [HasNoCapitals, dashed, List.forall_mem_map]
  refine forall₂_congr fun c _ => ?_
  by_cases hc : c = '_'
  · simp [hc]
  · rw [if_neg hc]

/-- Small words between separators are small as a whole. -/
theorem small_joinSegments {separator : Char} (h : separator.isAlphanum = false) (l : List (List Char)) :
    small (joinSegments separator (l.map small)) = joinSegments separator (l.map small) := by
  have hupper : ¬separator.isUpper = true := fun hu => by simp [Char.isAlphanum, Char.isAlpha, hu] at h
  have hsmall : (l.map small).map (List.map Char.toLower) = l.map small := by
    rw [List.map_map]
    exact List.map_congr_left fun w _ => by simp [small]
  rw [small, map_joinSegments, Char.toLower_eq_of_not_isUpper hupper, hsmall]

/-- What is in small letters is a text if it is the text in small letters, and that has no others. -/
theorem eq_iff_of_small {a b : List Char} (ha : small a = a) : a = b ↔ a = small b ∧ HasNoCapitals b := by
  constructor
  · rintro rfl
    exact ⟨ha.symm, small_eq_self_iff.mp ha⟩
  · rintro ⟨h, hb⟩
    exact h.trans (small_eq_self_iff.mpr hb)

/-- Letters can be made small before dashes are set or after that. -/
theorem small_dashed (cs : List Char) : small (dashed cs) = dashed (small cs) := by
  rw [small, small, dashed, dashed, List.map_map, List.map_map]
  refine List.map_congr_left fun c _ => ?_
  by_cases hc : c = '_'
  · rw [hc]
    decide
  · have hlower : c.toLower ≠ '_' := by
      intro h
      by_cases hupper : c.isUpper = true
      · have := Char.isLower_toLower_eq_isAlpha c
        rw [h, Char.isAlpha, hupper] at this
        cases this
      · exact hc ((Char.toLower_eq_of_not_isUpper hupper).symm.trans h)
    simp [hc, hlower]

section Name

variable {name : String} (hplain : IsPlain name.toList) (hne : name.toList ≠ [])
include hplain

/-- An identifier is made small character by character. -/
theorem toSmallText_of_isPlain : toSmallText name = String.ofList (small name.toList) := by
  rw [toSmallText, smallCharsAfter_of_ascii _ fun _ hc => toNat_lt_of_isPlain hplain hc]

/-- An identifier is made capitals character by character. -/
theorem toCapitalText_of_isPlain : toCapitalText name = String.ofList (capitals name.toList) := by
  rw [toCapitalText, flatMap_capitalForm_of_ascii fun _ hc => toNat_lt_of_isPlain hplain hc]

/-- Upper camel case is the wire's if capitals begin words and do nothing else. -/
theorem upperCamel_eq_iff :
    upperCamel name = String.ofList (camelCased true name.toList) ↔ CapitalsBegin name.toList := by
  rw [upperCamel, String.ofList_inj]
  exact capitalized_wordsOf_eq_iff hplain

/-- Lower camel case is the wire's under the same condition: the first letter is small in both. -/
theorem lowerCamel_eq_iff :
    lowerCamel name = String.ofList (smallFirst (camelCased true name.toList)) ↔ CapitalsBegin name.toList := by
  rw [lowerCamel_eq, String.ofList_inj]
  refine (smallFirst_inj ?_ (capitalFirst_camelCased _)).trans (capitalized_wordsOf_eq_iff hplain)
  exact capitalFirst_capitalized fun w hw => ne_nil_of_mem_wordsOf hw

/-- A name that is itself in capitals at the beginning of its words. -/
theorem upperCamel_eq_self_iff : upperCamel name = name ↔
    '_' ∉ name.toList ∧ CapitalsBegin name.toList ∧ capitalFirst name.toList = name.toList := by
  have hself : upperCamel name = name ↔ ((words name).map capitalized).flatten = name.toList := by
    rw [upperCamel, ← String.toList_inj, String.toList_ofList]
  rw [hself]
  constructor
  · intro h
    -- the words leave nothing out but underscores
    have hunderscore : '_' ∉ name.toList :=
      not_mem_of_length_filter ((length_capitalized_wordsOf hplain).symm.trans (congrArg List.length h))
    have hfirst : capitalFirst name.toList = name.toList := by
      rw [← h]
      exact capitalFirst_capitalized fun w hw => ne_nil_of_mem_wordsOf hw
    refine ⟨hunderscore, (capitalized_wordsOf_eq_iff hplain).mp ?_, hfirst⟩
    rw [camelCased_of_not_mem hunderscore, hfirst]
    exact h
  · rintro ⟨hunderscore, hbegin, hfirst⟩
    refine ((capitalized_wordsOf_eq_iff hplain).mpr hbegin).trans ?_
    rw [camelCased_of_not_mem hunderscore, hfirst]

/-- A variant keeps its capitals on the wire, so its name has to have them where its words begin, and no underscores. -/
theorem lowerCamel_eq_smallFirst_iff : lowerCamel name = String.ofList (smallFirst name.toList) ↔
    '_' ∉ name.toList ∧ CapitalsBegin name.toList := by
  have hlength (cs : List Char) : (smallFirst cs).length = cs.length := by cases cs <;> rfl
  have hcamel (h : '_' ∉ name.toList) : smallFirst name.toList = smallFirst (camelCased true name.toList) := by
    rw [camelCased_of_not_mem h, smallFirst_capitalFirst]
  constructor
  · intro h
    have hchars := congrArg List.length (String.ofList_inj.mp ((lowerCamel_eq name).symm.trans h))
    rw [hlength, hlength] at hchars
    have hunderscore : '_' ∉ name.toList :=
      not_mem_of_length_filter ((length_capitalized_wordsOf hplain).symm.trans hchars)
    exact ⟨hunderscore, (lowerCamel_eq_iff hplain).mp (hcamel hunderscore ▸ h)⟩
  · rintro ⟨hunderscore, hbegin⟩
    exact (hcamel hunderscore).symm ▸ (lowerCamel_eq_iff hplain).mpr hbegin

include hne

/-- Names under a rule, if they are put there by their words. -/
theorem underRule_eq_iff (kind : NameKind) (rule : NameRule) :
    WireOptions.underRule rule.text name = String.ofList (wireForm kind rule name.toList) ↔
      Fits kind rule name.toList := by
  have hfield : (wordsOf name.toList).flatten = name.toList.filter (· ≠ '_') := flatten_wordsOf hplain
  have hvariant : (wordsOf name.toList).flatten = (underscored name.toList).filter (· ≠ '_') :=
    hfield.trans (filter_underscored _).symm
  have hmarked := isPlain_underscored hplain
  have hmarked' := underscored_ne_nil hne
  -- on the wire a variant's capitals are made small first
  have hcapitals (cs : List Char) : capitals (small cs) = cs.map Char.toUpper := by simp [capitals, small]
  cases rule with
  | lower =>
    show toSmallText name = _ ↔ _
    rw [toSmallText_of_isPlain hplain, String.ofList_inj]
    cases kind with
    | field => exact small_eq_self_iff
    | variant => exact iff_of_true rfl trivial
  | upper =>
    show toCapitalText name = _ ↔ _
    rw [toCapitalText_of_isPlain hplain, String.ofList_inj]
    cases kind with
    | field => exact iff_of_true rfl trivial
    | variant => exact iff_of_true rfl trivial
  | pascal =>
    cases kind with
    | field => exact upperCamel_eq_iff hplain
    | variant => exact (String.ofList_toList (s := name)).symm ▸ upperCamel_eq_self_iff hplain
  | camel =>
    cases kind with
    | field => exact lowerCamel_eq_iff hplain
    | variant => exact lowerCamel_eq_smallFirst_iff hplain
  | snake =>
    show String.ofList (joinSegments '_' ((wordsOf name.toList).map small)) = _ ↔ _
    rw [String.ofList_inj]
    cases kind with
    | field =>
      exact (eq_iff_of_small (small_joinSegments (by decide) _)).trans
        (and_congr_left' (underscores_eq_iff isCase_toLower hplain hne hfield))
    | variant => exact underscores_eq_iff isCase_toLower hmarked hmarked' hvariant
  | shoutySnake =>
    show String.ofList (joinSegments '_' ((wordsOf name.toList).map capitals)) = _ ↔ _
    rw [String.ofList_inj]
    cases kind with
    | field => exact underscores_eq_iff isCase_toUpper hplain hne hfield
    | variant =>
      rw [wireForm, hcapitals]
      exact underscores_eq_iff isCase_toUpper hmarked hmarked' hvariant
  | kebab =>
    show String.ofList (joinSegments '-' ((wordsOf name.toList).map small)) = _ ↔ _
    rw [String.ofList_inj]
    cases kind with
    | field =>
      refine (eq_iff_of_small (small_joinSegments (by decide) _)).trans (and_congr ?_ hasNoCapitals_dashed)
      rw [show small (wireForm .field .kebab name.toList) = _ from small_dashed name.toList]
      exact dashes_eq_iff isCase_toLower hplain hne hfield
    | variant => exact dashes_eq_iff isCase_toLower hmarked hmarked' hvariant
  | shoutyKebab =>
    show String.ofList (joinSegments '-' ((wordsOf name.toList).map capitals)) = _ ↔ _
    rw [String.ofList_inj]
    cases kind with
    | field => exact dashes_eq_iff isCase_toUpper hplain hne hfield
    | variant =>
      rw [wireForm, hcapitals]
      exact dashes_eq_iff isCase_toUpper hmarked hmarked' hvariant

end Name

/-! ## Names by convention

Names that are written as the language's style asks are put under every rule as the wire does. -/

/-- A field's name in small letters, with single underscores between its words, fits every rule. -/
theorem fits_of_hasNoCapitals (hplain : IsPlain cs) (hcapitals : HasNoCapitals cs) (hgaps : [] ∉ segmentsOf '_' cs)
    (rule : NameRule) : Fits .field rule cs := by
  have hletters {s : List Char} (hs : s ∈ segmentsOf '_' cs) {c : Char} (hc : c ∈ s) : c.isUpper = false := by
    have hmem : c ∈ cs.filter (· ≠ '_') := flatten_segmentsOf '_' cs ▸ List.mem_flatten.mpr ⟨s, hs, hc⟩
    exact hcapitals c (List.mem_filter.mp hmem).1
  -- without capitals no segment is cut
  have hcut : ∀ s ∈ segmentsOf '_' cs, cutWords .start [] s = [s] := by
    intro s hs
    have hne : s ≠ [] := fun h => hgaps (h ▸ hs)
    obtain ⟨first, rest, heq, -, hflat, hrest⟩ := exists_cutWords .start [] s (fun _ => rfl) (Or.inr hne)
    rw [List.reverse_nil, List.nil_append] at hflat
    cases rest with
    | nil => rw [heq, ← hflat, List.flatten_nil, List.append_nil]
    | cons w rest =>
      obtain ⟨c, tail, rfl, hc⟩ := hrest w List.mem_cons_self
      have hmem : c ∈ s := hflat ▸ List.mem_append_right first (by simp)
      rw [hletters hs hmem] at hc
      cases hc
  have hwords : wordsOf cs = wireWords .field cs := by
    rw [wordsOf, alphanumericRuns_of_isPlain hplain, wireWords, List.flatMap_congr hcut, List.flatMap_singleton']
  have hbegin : CapitalsBegin cs := by
    intro w hw c hc
    rw [hwords] at hw
    exact hletters hw (List.mem_of_mem_tail hc)
  cases rule with
  | upper => exact trivial
  | lower => exact hcapitals
  | pascal | camel => exact hbegin
  | snake | kebab => exact ⟨hwords, hcapitals⟩
  | shoutySnake | shoutyKebab => exact hwords

/-- Joined text begins with the first piece, and every other has a separator in front. -/
theorem joinSegments_cons (separator : Char) (first : List Char) (rest : List (List Char)) :
    joinSegments separator (first :: rest) = first ++ rest.flatMap (separator :: ·) := by
  induction rest generalizing first with
  | nil => simp [joinSegments]
  | cons s rest ih => rw [joinSegments, ih, List.flatMap_cons, List.cons_append]

/-- A variant's name without underscores, in which capitals begin the words and nothing else does, fits every rule. -/
theorem fits_of_capitalsBegin (hplain : IsPlain cs) (hne : cs ≠ []) (hunderscore : '_' ∉ cs)
    (hfirst : capitalFirst cs = cs) (hbegin : CapitalsBegin cs) (rule : NameRule) : Fits .variant rule cs := by
  have hcut : wordsOf cs = cutWords .start [] cs := by
    rw [wordsOf, alphanumericRuns_of_isPlain hplain, segmentsOf_of_not_mem hunderscore, List.flatMap_singleton]
  obtain ⟨first, rest, heq, hnonempty, hflat, hrest⟩ := exists_cutWords .start [] cs (fun _ => rfl) (Or.inr hne)
  rw [List.reverse_nil, List.nil_append] at hflat
  rw [← hcut] at heq
  have hmarks {tail : List Char} (h : HasNoCapitals tail) :
      (tail.flatMap fun d => if d.isUpper then ['_', d] else [d]) = tail := by
    rw [List.flatMap_congr fun d hd => if_neg (Bool.eq_false_iff.mp (h d hd)), List.flatMap_singleton']
  have hwords : wordsOf cs = wireWords .variant cs := by
    obtain ⟨c, tail, rfl⟩ := List.exists_cons_of_ne_nil hnonempty
    have htail : HasNoCapitals tail := hbegin (c :: tail) (heq ▸ List.mem_cons_self)
    -- every word but the first begins with a capital, and gets its mark there
    have hwordMarks : ∀ w ∈ rest, (w.flatMap fun d => if d.isUpper then ['_', d] else [d]) = '_' :: w := by
      intro w hw
      obtain ⟨d, u, rfl, hd⟩ := hrest w hw
      have hu : HasNoCapitals u := hbegin (d :: u) (heq ▸ List.mem_cons_of_mem _ hw)
      rw [List.flatMap_cons, if_pos hd, hmarks hu]
      rfl
    have hmarked : underscored cs = joinSegments '_' ((c :: tail) :: rest) := by
      rw [← hflat, joinSegments_cons]
      show c :: (tail ++ rest.flatten).flatMap _ = _
      rw [List.flatMap_append, hmarks htail, List.flatten_eq_flatMap, List.flatMap_assoc, List.cons_append]
      simp only [id_eq]
      rw [List.flatMap_congr hwordMarks]
    rw [wireWords, hmarked, segments_join (by simp), heq]
    rintro w hw hmem
    have := List.mem_flatten.mpr ⟨w, heq ▸ hw, hmem⟩
    rw [flatten_wordsOf hplain] at this
    simp at this
  cases rule with
  | upper | lower => exact trivial
  | pascal => exact ⟨hunderscore, hbegin, hfirst⟩
  | camel => exact ⟨hunderscore, hbegin⟩
  | snake | kebab | shoutySnake | shoutyKebab => exact hwords

end Text

namespace WireOptions

open Text

/-- A raw identifier is plain without its mark. -/
theorem plainIdentifier_raw (name : String) : plainIdentifier ("r#" ++ name) = name := by
  have hdrop : dropLeadingText? "r#" ("r#" ++ name) = some name := by
    simp [dropLeadingText?, dropLeading?]
  rw [plainIdentifier, hdrop]

/-- An identifier without the mark is its own plain form. -/
theorem plainIdentifier_of_isPlain {name : String} (h : IsPlain name.toList) : plainIdentifier name = name := by
  rcases hdrop : dropLeadingText? "r#" name with _ | rest
  · rw [plainIdentifier, hdrop]
  · obtain ⟨cs, hcs, -⟩ := Option.map_eq_some_iff.mp hdrop
    have hmem : '#' ∈ name.toList := by
      rw [dropLeading?_eq_some hcs]
      simp
    exact absurd (h _ hmem) (by decide)

/-- **Names under a rule.** A field or a variant with an ASCII identifier, raw or not, and no name of its own gets the name
that the rule asks for just if it fits the rule. Every name fits `UPPERCASE`, and every variant `lowercase`; where words
are joined, the name has to have the words that it is cut into on the wire; and where they are not, its capitals have to
begin words. -/
theorem nameOf_eq_iff (kind : NameKind) (rule : NameRule) {o : WireOptions} (ho : o.rename = none) {name : String}
    (hplain : IsPlain name.toList) (hne : name ≠ "") {identifier : String}
    (hidentifier : identifier = name ∨ identifier = "r#" ++ name) :
    o.nameOf (some rule.text) identifier = String.ofList (wireForm kind rule name.toList) ↔
      Fits kind rule name.toList := by
  have hname : plainIdentifier identifier = name := by
    rcases hidentifier with rfl | rfl
    · exact plainIdentifier_of_isPlain hplain
    · exact plainIdentifier_raw name
  rw [nameOf, ho, hname]
  exact underRule_eq_iff hplain (by simpa using hne) kind rule

/-- A raw field with one word after another, and a variant with capitals in a row, which the wire has apart. -/
theorem nameOf_tidy_and_acronym :
    ({} : WireOptions).nameOf (some "camelCase") "r#user_id" = "userId" ∧
      ({} : WireOptions).nameOf (some "snake_case") "HTTPServer" ≠ "h_t_t_p_server" := by
  constructor
  · have hplain : IsPlain "user_id".toList := by decide +kernel
    exact (nameOf_eq_iff .field .camel rfl hplain (by decide) (Or.inr rfl)).mpr (by decide +kernel)
  · have hplain : IsPlain "HTTPServer".toList := by decide +kernel
    exact mt (nameOf_eq_iff .variant .snake rfl hplain (by decide) (Or.inl rfl)).mp (by decide +kernel)

end WireOptions

end RouteManifest
