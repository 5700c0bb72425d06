import Mathlib.Data.List.Perm.Basic
import Mathlib.Data.List.Nodup
import RouteManifest.Interface.WireOptions
import RouteManifest.Proofs.Source.Reading

/-!
# Entries in any order

What the attributes of a declaration ask for is what their entries ask for, each for its own (`ofAttributes_eq`), so it does
not matter in which order they stand and which attribute each is written in (`ofAttributes_congr`).

There is one exception. An entry for a name that has halves in parentheses, and none of them for writing, ends its
attribute: whatever stands behind it there is lost.
-/

namespace RouteManifest

namespace WireOptions

open Source Reading

/-! ## Entries

An entry as it is meant, apart from how it is written: what it is about, what it has to have for that, and what it asks
for. The keys fall into four groups, which are read differently. -/

/-- What a name is for that stands in parentheses. -/
inductive Half where
  | serialize | deserialize
deriving DecidableEq, Repr

/-- What a half is called. -/
def Half.word : Half → String
  | .serialize => "serialize"
  | .deserialize => "deserialize"

/-- A name for writing. -/
def Half.writing? : Half × String → Option String
  | (.serialize, name) => some name
  | (.deserialize, _) => none

/-- An entry of an attribute: a key alone, with a text, or with names for writing and for reading. -/
inductive Entry where
  | word (key : String)
  | text (key value : String)
  | halves (key : String) (names : List (Half × String))
deriving DecidableEq, Repr

/-- The keys of names. -/
def nameKeys : List String := ["rename", "rename_all"]

/-- The keys of other texts. -/
def textKeys : List String := ["tag", "content"]

/-- The keys that stand alone. -/
def flagKeys : List String := ["skip", "flatten", "untagged", "transparent", "deny_unknown_fields"]

/-- The options with what a key asks for, the text being what is read behind it. -/
def ask (o : WireOptions) (key : String) (text : Option String) : WireOptions :=
  match key with
  | "rename" => { o with rename := text.or o.rename }
  | "rename_all" => { o with renameAll := text.or o.renameAll }
  | "tag" => { o with tag := text.or o.tag }
  | "content" => { o with content := text.or o.content }
  | "skip" => { o with isSkipped := true }
  | "flatten" => { o with isFlattened := true }
  | "untagged" => { o with isUntagged := true }
  | "transparent" => { o with isTransparent := true }
  | "deny_unknown_fields" => { o with deniesUnknown := true }
  | "default" => { o with isDefaulted := true }
  | _ => o

namespace Entry

/-- What the entry is about. -/
def key : Entry → String
  | .word key => key
  | .text key _ => key
  | .halves key _ => key

/-- The entry has what its key needs, and nothing that its key cannot have. -/
def IsWellFormed : Entry → Prop
  | .word key => key ∉ nameKeys ++ textKeys
  | .text key _ => key ∉ flagKeys
  | .halves key names => key ∉ flagKeys ++ textKeys ∧ names ≠ []

/-- The text of the entry, in parentheses the one for writing. -/
def written? : Entry → Option String
  | .word _ => none
  | .text _ value => some value
  | .halves _ names => (names.filterMap Half.writing?).getLast?

/-- Whether the attribute is read on behind the entry. -/
def isRead (e : Entry) : Bool := !nameKeys.contains e.key || e.written?.isSome

/-- What the entry asks for. -/
def apply (o : WireOptions) (e : Entry) : WireOptions := o.ask e.key e.written?

end Entry

/-! ## Entries as they are written

`Written` puts the tokens of an entry beside it, at any places, and `Spread` puts whole attributes beside the entries
that count in them. Attributes for something else are in between. -/

/-- A half as it is written, wherever that is. -/
inductive HalfWritten : Half × String → List TokenTree → Prop
  | intro (half : Half) (name : String) (p q r : Position) (joint : Bool) : HalfWritten (half, name)
    [.leaf p (.word half.word), .leaf q (.mark '=' joint), .leaf r (.literal (.text name))]

/-- An entry as it is written, wherever that is. -/
inductive Entry.Written : Entry → List TokenTree → Prop
  | word (key : String) (p : Position) : Written (.word key) [.leaf p (.word key)]
  | text (key value : String) (p q r : Position) (joint : Bool) : Written (.text key value)
    [.leaf p (.word key), .leaf q (.mark '=' joint), .leaf r (.literal (.text value))]
  | halves (key : String) {names : List (Half × String)} {inner : List TokenTree} (p q : Position) :
    Separated HalfWritten names inner → Written (.halves key names) [.leaf p (.word key), .group q .round inner]

/-- Attributes with the entries of each that counts. -/
inductive Spread : List Attribute → List (List Entry) → Prop
  | nil : Spread [] []
  | other {a : Attribute} {attributes : List Attribute} {groups : List (List Entry)} :
    a.name ≠ some "serde" → Spread attributes groups → Spread (a :: attributes) groups
  | counting {entries : List Entry} {trees : List TokenTree} {attributes : List Attribute}
    {groups : List (List Entry)} : Separated Entry.Written entries trees → Spread attributes groups →
      Spread (⟨some "serde", .list trees⟩ :: attributes) (entries :: groups)

/-! ## Reading an entry

Each reader that an entry can be read with takes what `Written` says is there, and leaves what is behind it. What
follows is a comma or nothing. -/

section

variable {rest : List TokenTree}

/-- A key is a word; a path would go on with two colons. -/
theorem entryKey_apply (key : String) (p : Position) (h : atMarks "::" rest = false) :
    entryKey (.leaf p (.word key) :: rest) = some (key, rest) := by
  have hrooted : maybeMarks "::" (.leaf p (.word key) :: rest) = some (false, .leaf p (.word key) :: rest) :=
    whenAhead_apply_of_false rfl
  have hword : anyWord (.leaf p (.word key) :: rest) = some (key, rest) := rfl
  rw [entryKey, bind_apply, hrooted, Option.bind_some, bind_apply, hword, Option.bind_some, bind_apply,
    manyWhile_apply_of_false h]
  rfl

/-- Where an entry has ended there are no two colons. -/
theorem not_atMarks_of_ended (h : Ended rest) : atMarks "::" rest = false := by cases h <;> rfl

/-- A text is read behind an equals sign. -/
theorem textValue_apply (value : String) (q r : Position) (joint : Bool) :
    textValue (.leaf q (.mark '=' joint) :: .leaf r (.literal (.text value)) :: rest) = some (value, rest) := rfl

/-- Where there is no value, there is none to pass over. -/
theorem passValueWithin_ended (depth : Nat) (h : Ended rest) :
    passValueWithin (depth + 1) rest = some ((), rest) := by
  cases h <;> rfl

/-- A text is passed over. -/
theorem passValueWithin_text (depth : Nat) (value : String) (q r : Position) (joint : Bool) (h : Ended rest) :
    passValueWithin (depth + 1) (.leaf q (.mark '=' joint) :: .leaf r (.literal (.text value)) :: rest) =
      some ((), rest) :=
  expression_literal typeTerm r (.text value) h

end

/-- Names in parentheses, read by a reader that takes each of them. -/
theorem nestedEntries_apply {α : Type} {reader : Source.Reading α} {f : Half × String → α}
    (hreader : ∀ {half trees rest}, HalfWritten half trees → Ended rest → reader (trees ++ rest) = some (f half, rest))
    {names : List (Half × String)} {inner : List TokenTree} (hinner : Separated HalfWritten names inner)
    (hne : names ≠ []) (q : Position) (rest : List TokenTree) :
    nestedEntries reader (.group q .round inner :: rest) = some (names.map f, rest) := by
  have hempty : (!inner.isEmpty) = true := by
    cases hinner with
    | nil => exact absurd rfl hne
    | last h => cases h; rfl
    | cons p joint h => cases h; rfl
  have hnil : ∀ half, ¬HalfWritten half [] := by
    intro half h
    cases h
  have hlist := commaList_apply hnil hreader hinner
  rw [nestedEntries, inside, if_pos rfl, bind_apply, check_apply_of_true hempty, Option.bind_some, hlist]

theorem passValueWithin_halves (depth : Nat) {names : List (Half × String)} {inner : List TokenTree}
    (hinner : Separated HalfWritten names inner) (hne : names ≠ []) (q : Position) (rest : List TokenTree) :
    passValueWithin (depth + 2) (.group q .round inner :: rest) = some ((), rest) := by
  have hmarks : maybeMarks "=" (.group q .round inner :: rest) = some (false, .group q .round inner :: rest) :=
    whenAhead_apply_of_false rfl
  have hnested : nestedEntries (do let _ ← entryKey; passValueWithin (depth + 1)) (.group q .round inner :: rest) =
      some (names.map fun _ => (), rest) := by
    refine nestedEntries_apply ?_ hinner hne q rest
    rintro _ _ rest ⟨half, name, p, q, r, joint⟩ hended
    rw [List.cons_append, bind_apply, entryKey_apply _ _ rfl]
    exact passValueWithin_text depth name q r joint hended
  rw [passValueWithin, bind_apply, hmarks, Option.bind_some]
  simp only [Bool.false_eq_true, if_false]
  rw [bind_apply, ahead_apply, Option.bind_some]
  simp only [atGroup, BEq.rfl, if_true]
  rw [bind_apply, hnested]
  rfl

/-- A name is read as a text is. -/
theorem writtenName_text (value : String) (q r : Position) (joint : Bool) (rest : List TokenTree) :
    writtenName (.leaf q (.mark '=' joint) :: .leaf r (.literal (.text value)) :: rest) = some (value, rest) := rfl

/-- In parentheses the half for writing is kept, and any other one is passed over. -/
theorem half_apply {half : Half × String} {trees rest : List TokenTree} (h : HalfWritten half trees)
    (hended : Ended rest) :
    (do
      if (← entryKey) = "serialize" then some <$> textValue
      else
        passValue
        return none : Source.Reading (Option String)) (trees ++ rest) = some (Half.writing? half, rest) := by
  obtain ⟨half, name, p, q, r, joint⟩ := h
  rw [List.cons_append, bind_apply, entryKey_apply _ _ rfl, Option.bind_some]
  cases half with
  | serialize => rfl
  | deserialize =>
    show (passValue >>= fun _ => pure none) _ = _
    rw [bind_apply, passValue, bounded, List.cons_append, List.cons_append, List.nil_append,
      passValueWithin_text _ name q r joint hended]
    rfl

/-- What is read off parentheses is the name for writing, the last if there are several. -/
theorem writtenName_halves {names : List (Half × String)} {inner : List TokenTree}
    (hinner : Separated HalfWritten names inner) (hne : names ≠ []) (q : Position) (rest : List TokenTree)
    (key : String) :
    writtenName (.group q .round inner :: rest) = (Entry.halves key names).written?.map fun name => (name, rest) := by
  have hnested := nestedEntries_apply half_apply hinner hne q rest
  rw [writtenName, bind_apply, ahead_apply, Option.bind_some]
  show (nestedEntries _ >>= _) _ = _
  rw [bind_apply, hnested, Option.bind_some, List.filterMap_map, Function.id_comp,
    Entry.written?]
  cases (names.filterMap Half.writing?).getLast? <;> rfl

/-! ## Taking an entry

There are four ways to take an entry, by its key, and what is taken is always what the key asks for. -/

section

variable {key : String} {trees rest : List TokenTree} (o : WireOptions)

/-- A flag has no value; what stands behind it is left to be found out of place. -/
theorem entry_flag (text : Option String) (h : key ∈ flagKeys) : o.entry key trees = (o.ask key text, some trees) := by
  simp only [flagKeys, List.mem_cons, List.not_mem_nil, or_false] at h
  rcases h with rfl | rfl | rfl | rfl | rfl <;> rfl

/-- A name is taken if there is one for writing, and otherwise the attribute ends. -/
theorem entry_name {text : Option String} (h : key ∈ nameKeys)
    (hreading : writtenName trees = text.map fun name => (name, rest)) :
    o.entry key trees = (o.ask key text, text.map fun _ => rest) := by
  simp only [nameKeys, List.mem_cons, List.not_mem_nil, or_false] at h
  rcases h with rfl | rfl <;> cases text <;> simp [entry, ask, hreading]

/-- A text has to be there. -/
theorem entry_text {value : String} (h : key ∈ textKeys) (hreading : textValue trees = some (value, rest)) :
    o.entry key trees = (o.ask key (some value), some rest) := by
  simp only [textKeys, List.mem_cons, List.not_mem_nil, or_false] at h
  rcases h with rfl | rfl <;> simp [entry, ask, hreading]

/-- Any other entry is passed over with its value. -/
theorem entry_passed (text : Option String) (hflag : key ∉ flagKeys) (hname : key ∉ nameKeys)
    (htext : key ∉ textKeys) (hreading : passValue trees = some ((), rest)) :
    o.entry key trees = (o.ask key text, some rest) := by
  simp only [flagKeys, nameKeys, textKeys, List.mem_cons, List.not_mem_nil, or_false, not_or] at hflag hname htext
  unfold entry ask
  split <;> simp_all

end

/-- An entry that is no name is always read on behind. -/
theorem Entry.isRead_of_not_mem {e : Entry} (h : e.key ∉ nameKeys) : e.isRead = true := by
  simp [Entry.isRead, h]

theorem Entry.isRead_of_mem {e : Entry} (h : e.key ∈ nameKeys) : e.isRead = e.written?.isSome := by
  simp [Entry.isRead, h]

/-- A name that is not for writing asks for nothing. -/
theorem Entry.apply_of_not_isRead {e : Entry} (h : ¬e.isRead = true) (o : WireOptions) : e.apply o = o := by
  by_cases hname : e.key ∈ nameKeys
  · rw [Entry.isRead_of_mem hname, Option.not_isSome_iff_eq_none] at h
    simp only [nameKeys, List.mem_cons, List.not_mem_nil, or_false] at hname
    rcases hname with hname | hname <;> simp [Entry.apply, ask, hname, h]
  · exact absurd (Entry.isRead_of_not_mem hname) h

/-- An entry is taken for what it asks for, and up to where it ends, unless it is a name that is not for writing. -/
theorem exists_entry {e : Entry} {trees rest : List TokenTree} (h : e.Written trees) (hwell : e.IsWellFormed)
    (hended : Ended rest) (o : WireOptions) :
    ∃ tail, entryKey (trees ++ rest) = some (e.key, tail) ∧
      o.entry e.key tail = (e.apply o, if e.isRead then some rest else none) := by
  cases h with
  | word key p =>
    have hname : key ∉ nameKeys := fun hmem => hwell (List.mem_append_left _ hmem)
    refine ⟨rest, entryKey_apply key p (not_atMarks_of_ended hended), ?_⟩
    have hread : (Entry.word key).isRead = true := Entry.isRead_of_not_mem hname
    rw [if_pos hread]
    by_cases hflag : key ∈ flagKeys
    · exact entry_flag o none hflag
    · have hvalue : passValue rest = some ((), rest) := passValueWithin_ended _ hended
      exact entry_passed o none hflag hname (fun hmem => hwell (List.mem_append_right _ hmem)) hvalue
  | text key value p q r joint =>
    refine ⟨_, entryKey_apply key p rfl, ?_⟩
    by_cases hname : key ∈ nameKeys
    · have hread : (Entry.text key value).isRead = true := Entry.isRead_of_mem hname
      rw [if_pos hread]
      exact entry_name o hname (writtenName_text value q r joint rest)
    · have hread : (Entry.text key value).isRead = true := Entry.isRead_of_not_mem hname
      rw [if_pos hread]
      by_cases htext : key ∈ textKeys
      · exact entry_text o htext (textValue_apply value q r joint)
      · exact entry_passed o (some value) hwell hname htext (passValueWithin_text _ value q r joint hended)
  | @halves key names inner p q hnames =>
    obtain ⟨hkey, hne⟩ := hwell
    have hflag : key ∉ flagKeys := fun hmem => hkey (List.mem_append_left _ hmem)
    have htext : key ∉ textKeys := fun hmem => hkey (List.mem_append_right _ hmem)
    refine ⟨_, entryKey_apply key p rfl, ?_⟩
    by_cases hname : key ∈ nameKeys
    · have hread : (Entry.halves key names).isRead = _ := Entry.isRead_of_mem hname
      rw [hread]
      refine (entry_name o hname (writtenName_halves hnames hne q rest key)).trans ?_
      cases h : (Entry.halves key names).written? <;> simp [Entry.apply, Entry.key, h]
    · have hread : (Entry.halves key names).isRead = true := Entry.isRead_of_not_mem hname
      rw [if_pos hread]
      -- the bound is the tokens in the parentheses, which count for one themselves, and one more
      have hvalue : passValue (.group q .round inner :: rest) = some ((), rest) := by
        rw [passValue, bounded, TokenTree.countAll, TokenTree.count, Nat.add_assoc 1, Nat.add_comm 1]
        exact passValueWithin_halves _ hnames hne q rest
      exact entry_passed o _ hflag hname htext hvalue

/-! ## Attributes

From the entries of one attribute to those of all. Each attribute starts with the options that those before it have
left, and ends at the first entry behind which nothing is read. -/

/-- The entries of an attribute count up to the first name that is not for writing. -/
theorem entries_written {es : List Entry} {trees : List TokenTree} (h : Separated Entry.Written es trees)
    (hwell : ∀ e ∈ es, e.IsWellFormed) (o : WireOptions) :
    o.entries trees = (es.takeWhile Entry.isRead).foldl Entry.apply o := by
  -- an entry that is not read ends the reading, so the rest is looked at only behind one that is
  induction h generalizing o with
  | nil =>
    rw [entries]
    rfl
  | @last e trees hwritten =>
    obtain ⟨tail, hkey, hentry⟩ := exists_entry hwritten (hwell e List.mem_cons_self) Ended.nil o
    rw [List.append_nil] at hkey
    rw [entries, hkey]
    simp only [hentry]
    by_cases hread : e.isRead = true
    · rw [if_pos hread, List.takeWhile_cons_of_pos hread]
      rfl
    · rw [if_neg hread, List.takeWhile_cons_of_neg hread, Entry.apply_of_not_isRead hread]
      rfl
  | @cons e trees es rest p joint hwritten _ ih =>
    obtain ⟨he, hes⟩ := List.forall_mem_cons.mp hwell
    obtain ⟨tail, hkey, hentry⟩ := exists_entry hwritten he (.comma p joint rest) o
    rw [entries, hkey]
    simp only [hentry]
    by_cases hread : e.isRead = true
    · have hcomma : marks "," (.leaf p (.mark ',' joint) :: rest) = some ((), rest) := rfl
      have hshorter : rest.length < (trees ++ .leaf p (.mark ',' joint) :: rest).length := by
        rw [List.length_append, List.length_cons]
        omega
      rw [if_pos hread, List.takeWhile_cons_of_pos hread]
      simp only [hcomma, dif_pos hshorter]
      exact ih hes (e.apply o)
    · rw [if_neg hread, List.takeWhile_cons_of_neg hread, Entry.apply_of_not_isRead hread]
      rfl

/-- What attributes ask for is what their entries ask for. -/
theorem ofAttributes_eq {attributes : List Attribute} {groups : List (List Entry)} (h : Spread attributes groups)
    (hwell : ∀ e ∈ groups.flatten, e.IsWellFormed) :
    ofAttributes attributes = (groups.flatMap (List.takeWhile Entry.isRead)).foldl Entry.apply {} := by
  rw [ofAttributes]
  generalize ({} : WireOptions) = o
  induction h generalizing o with
  | nil => rfl
  | @other a attributes groups hname _ ih =>
    have hother : o.addAttribute a = o := by
      rw [addAttribute]
      split
      · exact absurd ‹_› hname
      · rfl
    rw [List.foldl_cons, hother, ih hwell]
  | @counting es trees attributes groups hseparated _ ih =>
    rw [List.flatten_cons] at hwell
    have hes : ∀ e ∈ es, e.IsWellFormed := fun e he => hwell e (List.mem_append_left _ he)
    have hadded : o.addAttribute ⟨some "serde", .list trees⟩ = (es.takeWhile Entry.isRead).foldl Entry.apply o :=
      entries_written hseparated hes o
    rw [List.foldl_cons, hadded, ih fun e he => hwell e (List.mem_append_right _ he), List.flatMap_cons,
      List.foldl_append]

/-! ## Orders and arrangements

Entries with different keys set different options, so they can be taken in any order. A permutation is a sequence of
swaps, and one swap is `ask_comm`. -/

/-- Keys ask for nothing that another one asks for. -/
theorem ask_comm (o : WireOptions) {key key' : String} (h : key ≠ key') (text text' : Option String) :
    (o.ask key text).ask key' text' = (o.ask key' text').ask key text := by
  unfold ask
  split <;> split <;> simp_all

/-- Entries with different keys ask for the same in any order. -/
theorem foldl_apply_perm {es es' : List Entry} (h : es.Perm es') (hkeys : (es.map Entry.key).Nodup) (o : WireOptions) :
    es.foldl Entry.apply o = es'.foldl Entry.apply o := by
  refine h.foldl_eq' (fun e he e' he' o => ?_) o
  by_cases heq : e = e'
  · rw [heq]
  · exact ask_comm o (fun hkey => heq (List.inj_on_of_nodup_map hkeys he he' hkey)) _ _

/-- If every entry but the last is read on behind, none is lost. -/
theorem foldl_takeWhile_isRead {es : List Entry} (h : ∀ e ∈ es.dropLast, e.isRead = true) (o : WireOptions) :
    (es.takeWhile Entry.isRead).foldl Entry.apply o = es.foldl Entry.apply o := by
  induction es generalizing o with
  | nil => rfl
  | cons e es ih =>
    by_cases hread : e.isRead = true
    · rw [List.takeWhile_cons_of_pos hread, List.foldl_cons, List.foldl_cons]
      refine ih (fun e' he' => h e' ?_) _
      cases es with
      | nil => cases he'
      | cons _ _ => exact List.mem_cons_of_mem e he'
    · -- only the last entry can be a name that is not for writing, and it asks for nothing
      have hlast : es = [] := by
        cases es with
        | nil => rfl
        | cons _ _ => exact absurd (h e List.mem_cons_self) hread
      rw [List.takeWhile_cons_of_neg hread, hlast, List.foldl_cons, Entry.apply_of_not_isRead hread]

/-- **Entries in any order.** Attributes that hold the same well-formed entries with different keys ask for the same,
whatever the order of the entries, the attributes they are spread over, and what else is written there, if no entry stands
in one attribute behind a name with halves of which none is for writing. -/
theorem ofAttributes_congr {attributes attributes' : List Attribute} {groups groups' : List (List Entry)}
    (h : Spread attributes groups) (h' : Spread attributes' groups') (hperm : groups.flatten.Perm groups'.flatten)
    (hkeys : (groups.flatten.map Entry.key).Nodup) (hwell : ∀ e ∈ groups.flatten, e.IsWellFormed)
    (hread : ∀ es ∈ groups ++ groups', ∀ e ∈ es.dropLast, e.isRead = true) :
    ofAttributes attributes = ofAttributes attributes' := by
  have hcount {groups : List (List Entry)} (hgroups : ∀ es ∈ groups, ∀ e ∈ es.dropLast, e.isRead = true)
      (o : WireOptions) : (groups.flatMap (List.takeWhile Entry.isRead)).foldl Entry.apply o =
        groups.flatten.foldl Entry.apply o := by
    induction groups generalizing o with
    | nil => rfl
    | cons es groups ih =>
      obtain ⟨hes, hgroups⟩ := List.forall_mem_cons.mp hgroups
      rw [List.flatMap_cons, List.foldl_append, foldl_takeWhile_isRead hes, ih hgroups, List.flatten_cons,
        List.foldl_append]
  obtain ⟨hleft, hright⟩ := List.forall_mem_append.mp hread
  rw [ofAttributes_eq h hwell, ofAttributes_eq h' fun e he => hwell e (hperm.mem_iff.mpr he), hcount hleft,
    hcount hright]
  exact foldl_apply_perm hperm hkeys _

/-- `#[serde(rename(deserialize = "u", serialize = "user"), default)]` -/
def renamedBefore : Attribute := ⟨some "serde", .list [
  .leaf ⟨1, 8⟩ (.word "rename"),
  .group ⟨1, 14⟩ .round [
    .leaf ⟨1, 15⟩ (.word "deserialize"), .leaf ⟨1, 27⟩ (.mark '=' false), .leaf ⟨1, 29⟩ (.literal (.text "u")),
    .leaf ⟨1, 32⟩ (.mark ',' false),
    .leaf ⟨1, 34⟩ (.word "serialize"), .leaf ⟨1, 44⟩ (.mark '=' false), .leaf ⟨1, 46⟩ (.literal (.text "user"))],
  .leaf ⟨1, 53⟩ (.mark ',' false),
  .leaf ⟨1, 55⟩ (.word "default")]⟩

/-- `#[serde(default)]` -/
def defaulted : Attribute := ⟨some "serde", .list [.leaf ⟨1, 8⟩ (.word "default")]⟩

/-- `#[serde(rename(deserialize = "u", serialize = "user"),)]` -/
def renamedBehind : Attribute := ⟨some "serde", .list [
  .leaf ⟨2, 8⟩ (.word "rename"),
  .group ⟨2, 14⟩ .round [
    .leaf ⟨2, 15⟩ (.word "deserialize"), .leaf ⟨2, 27⟩ (.mark '=' false), .leaf ⟨2, 29⟩ (.literal (.text "u")),
    .leaf ⟨2, 32⟩ (.mark ',' false),
    .leaf ⟨2, 34⟩ (.word "serialize"), .leaf ⟨2, 44⟩ (.mark '=' false), .leaf ⟨2, 46⟩ (.literal (.text "user"))],
  .leaf ⟨2, 53⟩ (.mark ',' false)]⟩

/-- A name with both halves and a flag, in one attribute and in two. -/
theorem ofAttributes_renamed_defaulted :
    ofAttributes [renamedBefore] = ofAttributes [defaulted, renamedBehind] := by
  let halves : List (Half × String) := [(.deserialize, "u"), (.serialize, "user")]
  have hbefore : Spread [renamedBefore] [[.halves "rename" halves, .word "default"]] := by
    refine .counting (.cons _ _ (Entry.Written.halves _ _ _ ?_) (.last (Entry.Written.word _ _))) .nil
    exact .cons _ _ (HalfWritten.intro _ _ _ _ _ _) (.last (HalfWritten.intro _ _ _ _ _ _))
  have hbehind : Spread [defaulted, renamedBehind] [[.word "default"], [.halves "rename" halves]] := by
    refine .counting (.last (Entry.Written.word _ _)) (.counting (.cons _ _ (Entry.Written.halves _ _ _ ?_) .nil) .nil)
    exact .cons _ _ (HalfWritten.intro _ _ _ _ _ _) (.last (HalfWritten.intro _ _ _ _ _ _))
  refine ofAttributes_congr hbefore hbehind (List.Perm.swap _ _ _) (by decide) ?_ (by decide)
  intro e he
  simp only [List.flatten_cons, List.flatten_nil, List.append_nil, List.mem_cons, List.not_mem_nil, or_false] at he
  rcases he with rfl | rfl
  · exact ⟨by decide, by simp [halves]⟩
  · show "default" ∉ _
    decide

end WireOptions

end RouteManifest
