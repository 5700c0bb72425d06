import RouteManifest.Files.Storage
import RouteManifest.Proofs.Table

/-!
# Writing in trees of files

A tree can only grow: what stands somewhere stays what it is, file or directory, whatever is written
(`Grows`), so that a path which could be followed still leads to where it led (`Grows.follow`). Making
directories, even where it stops half way, changes no file; writing a file changes that file and no other.
Both say what has been written: `Written t documents t'` holds of the tree `t'` that writing the documents from
left to right leaves, and such writings are put together by `Written.trans`.
-/

namespace RouteManifest

namespace FileTree

variable {t t' t'' : FileTree} {here place : List String} {entries : List (String × FileTree)}

/-! ## What stands at a place

A place is a list of names, read from the root. A file has nothing below it, and a directory what its entries have. -/

/-- What there is to see of an entry without looking into it: the text of a file. -/
def text? : FileTree → Option String
  | .file text => some text
  | .directory _ => none

/-- What stands below a place is found by going on from there. -/
theorem at?_append (t : FileTree) (here below : List String) :
    t.at? (here ++ below) = (t.at? here).bind (·.at? below) := by
  induction here generalizing t with
  | nil => rfl
  | cons name rest ih =>
    simp only [List.cons_append, at?, Option.bind_assoc]
    exact congrArg _ (funext ih)

/-- What stands below an entry is looked for in that entry. -/
theorem at?_directory_cons (name : String) (below : List String) :
    at? (.directory entries) (name :: below) = (Table.find? entries name).bind (·.at? below) := rfl

/-- The text at a place is the text of what stands there, if it is a file. -/
theorem textAt?_eq (t : FileTree) (place : List String) : t.textAt? place = ((t.at? place).map text?).join := by
  rw [textAt?]
  cases t.at? place with
  | none => rfl
  | some e => cases e <;> rfl

/-- A directory that has an entry on the way to a directory. -/
theorem exists_entry_of_at?_cons {name : String} (h : t.at? (name :: here) = some (.directory entries)) :
    ∃ others e, t = .directory others ∧ Table.find? others name = some e ∧ e.at? here = some (.directory entries) := by
  cases t with
  | file text => cases h
  | directory others =>
    rw [at?_directory_cons] at h
    obtain ⟨e, he, hat⟩ := Option.bind_eq_some_iff.mp h
    exact ⟨others, e, rfl, he, hat⟩

/-! ## Putting something into a directory

Putting replaces one entry on the way down and leaves the others. So what can be seen at another place, a text or a
directory, stays the same. -/

/-- Something is put further down in the entry that leads there, which is made a directory if there is none. -/
theorem put_cons (name : String) (rest : List String) (new : FileTree) :
    put (.directory entries) (name :: rest) new
      = .directory (Table.insert entries name (((Table.find? entries name).getD empty).put rest new)) := rfl

/-- What has been put is found at its place. -/
theorem at?_put (h : t.at? here = some (.directory entries)) (name : String) (new : FileTree)
    (below : List String) : (t.put (here ++ [name]) new).at? (here ++ name :: below) = new.at? below := by
  induction here generalizing t with
  | nil =>
    obtain rfl := Option.some.inj h
    rw [List.nil_append, List.nil_append, put_cons, at?_directory_cons, Table.find?_insert_self]
    rfl
  | cons first rest ih =>
    obtain ⟨others, e, rfl, he, hat⟩ := exists_entry_of_at?_cons h
    rw [List.cons_append, List.cons_append, put_cons, he, at?_directory_cons, Table.find?_insert_self]
    exact ih hat

/-- What lies elsewhere looks as before. -/
theorem map_text?_at?_put (h : t.at? here = some (.directory entries)) {name : String} (new : FileTree)
    (hplace : ¬ here ++ [name] <+: place) :
    ((t.put (here ++ [name]) new).at? place).map text? = (t.at? place).map text? := by
  induction here generalizing t place with
  | nil =>
    obtain rfl := Option.some.inj h
    rw [List.nil_append, put_cons]
    cases place with
    | nil => rfl
    | cons other below =>
      have hne : name ≠ other := by
        rintro rfl
        exact hplace (List.cons_prefix_cons.mpr ⟨rfl, List.nil_prefix⟩)
      rw [at?_directory_cons, at?_directory_cons, Table.find?_insert_of_ne _ _ hne]
  | cons first rest ih =>
    obtain ⟨others, e, rfl, he, hat⟩ := exists_entry_of_at?_cons h
    rw [List.cons_append, put_cons, he]
    cases place with
    | nil => rfl
    | cons other below =>
      rw [at?_directory_cons, at?_directory_cons]
      -- in the same entry the place differs further down, and other entries are left alone
      by_cases hfirst : first = other
      · subst hfirst
        rw [Table.find?_insert_self, he]
        exact ih hat fun hbelow => hplace (List.cons_prefix_cons.mpr ⟨rfl, hbelow⟩)
      · rw [Table.find?_insert_of_ne _ _ hfirst]

/-! ## Growing

The only way for a tree to lose something would be to put a file over a directory, or a directory over a file, and no
operation does that. -/

/-- Everything that stands in a tree stands in another one too: files are files there, directories are
directories. -/
def Grows (t t' : FileTree) : Prop :=
  ∀ place e, t.at? place = some e → ∃ e', t'.at? place = some e' ∧ e'.kind = e.kind

/-- A tree that is left alone has grown by nothing. -/
theorem Grows.refl (t : FileTree) : t.Grows t := fun _ e h => ⟨e, h, rfl⟩

/-- A tree that grows twice has grown. -/
theorem Grows.trans (h : t.Grows t') (h' : t'.Grows t'') : t.Grows t'' := by
  intro place e he
  obtain ⟨e', he', hkind⟩ := h place e he
  obtain ⟨e'', he'', hkind'⟩ := h' place e' he'
  exact ⟨e'', he'', hkind'.trans hkind⟩

/-- Directories are what has entries. -/
theorem kind_eq_directory_iff : t.kind = .directory ↔ ∃ entries, t = .directory entries := by
  cases t <;> simp [kind]

/-- Files are what has a text. -/
theorem kind_eq_file_iff : t.kind = .file ↔ ∃ text, t = .file text := by
  cases t <;> simp [kind]

/-- Directories stay directories, with other entries perhaps. -/
theorem Grows.directory (h : t.Grows t') (hat : t.at? place = some (.directory entries)) :
    ∃ others, t'.at? place = some (.directory others) := by
  obtain ⟨e', he', hkind⟩ := h place _ hat
  obtain ⟨others, rfl⟩ := kind_eq_directory_iff.mp hkind
  exact ⟨others, he'⟩

/-- A directory contains the names under which something stands in it. -/
theorem contains_iff_at? {name : String} (h : t.at? here = some (.directory entries)) :
    Table.contains entries name = true ↔ ∃ e, t.at? (here ++ [name]) = some e := by
  rw [at?_append, h, Option.bind_some, at?_directory_cons, Table.contains, Option.isSome_iff_exists]
  simp [at?]

/-! ## Following step by step

A path may go up and down, so where it leads depends on directories that it only passes through. Following is therefore
cut into steps, and each step is kept by growth. -/

/-- If a computation in two parts succeeds, the first part did. -/
theorem exists_of_bind_eq_ok {ε α β : Type} {x : Except ε α} {f : α → Except ε β} {b : β} (h : x >>= f = .ok b) :
    ∃ a, x = .ok a ∧ f a = .ok b := by
  cases x with
  | error e => cases h
  | ok a => exact ⟨a, rfl, h⟩

/-- Where one segment leads. Places are given from the innermost name outwards, as in `followFrom`. -/
def step (t : FileTree) (here : List String) (segment : String) : Except FileFault (List String) :=
  match t.at? here.reverse with
  | none => .error .notFound
  | some (.file _) => .error .notDirectory
  | some (.directory entries) =>
    if segment = "" ∨ segment = "." then .ok here
    else if segment = ".." then if here = [] then .error .notFound else .ok here.tail
    else if Table.contains entries segment then .ok (segment :: here)
    else .error .notFound

/-- A path is followed segment by segment. -/
theorem followFrom_cons (t : FileTree) (here : List String) (segment : String) (rest : List String) :
    t.followFrom here (segment :: rest) = (t.step here segment).bind fun there => t.followFrom there rest := by
  simp only [followFrom, step]
  rcases t.at? here.reverse with _ | _ | entries
  · rfl
  · rfl
  · cases here with
    | nil =>
      simp only [if_true]
      split_ifs <;> rfl
    | cons name up =>
      simp only [List.cons_ne_nil, if_false]
      split_ifs <;> rfl

/-- Following a path in two pieces is following it at once. -/
theorem followFrom_append (t : FileTree) (here segments more : List String) :
    t.followFrom here (segments ++ more)
      = (t.followFrom here segments).bind fun place => t.followFrom place.reverse more := by
  induction segments generalizing here with
  | nil => simp only [List.nil_append, followFrom, Except.bind, List.reverse_reverse]
  | cons segment rest ih =>
    rw [List.cons_append, followFrom_cons, followFrom_cons]
    cases t.step here segment with
    | error fault => rfl
    | ok there => exact ih there

/-- A step needs a directory to start from. -/
theorem directory_of_step {segment : String} {there : List String} (h : t.step here segment = .ok there) :
    ∃ entries, t.at? here.reverse = some (.directory entries) := by
  rw [step] at h
  split at h
  · cases h
  · cases h
  · rename_i entries hat
    exact ⟨entries, hat⟩

/-- A name leads to the entry of that name. -/
theorem step_name {name : String} (hat : t.at? here.reverse = some (.directory entries))
    (hname : name ≠ "" ∧ name ≠ "." ∧ name ≠ "..") :
    t.step here name = if Table.contains entries name then .ok (name :: here) else .error .notFound := by
  obtain ⟨hempty, hpoint, hpoints⟩ := hname
  rw [step, hat]
  simp only [hempty, hpoint, or_self, if_false, hpoints]

/-- Growth keeps every step. -/
theorem Grows.step (h : t.Grows t') {segment : String} {there : List String}
    (hstep : t.step here segment = .ok there) : t'.step here segment = .ok there := by
  obtain ⟨entries, hat⟩ := directory_of_step hstep
  obtain ⟨others, hat'⟩ := h.directory hat
  simp only [FileTree.step, hat, hat'] at hstep ⊢
  split_ifs at hstep with hstay hup htop hname
  · rw [if_pos hstay]
    exact hstep
  · rw [if_neg hstay, if_pos hup, if_neg htop]
    exact hstep
  · obtain ⟨e, he⟩ := (contains_iff_at? hat).mp hname
    obtain ⟨e', he', -⟩ := h _ e he
    rw [if_neg hstay, if_neg hup, if_pos ((contains_iff_at? hat').mpr ⟨e', he'⟩)]
    exact hstep

/-- Growth keeps the way of every path that can be followed. -/
theorem Grows.followFrom (h : t.Grows t') {segments : List String}
    (hfollow : t.followFrom here segments = .ok place) : t'.followFrom here segments = .ok place := by
  induction segments generalizing here with
  | nil => exact hfollow
  | cons segment rest ih =>
    rw [followFrom_cons] at hfollow ⊢
    obtain ⟨there, hstep, hrest⟩ := exists_of_bind_eq_ok hfollow
    rw [h.step hstep]
    exact ih hrest

/-- A path leads to the same place in a tree that has grown. -/
theorem Grows.follow (h : t.Grows t') {p : Path} (hfollow : t.follow p = .ok place) : t'.follow p = .ok place := by
  rw [FileTree.follow] at hfollow ⊢
  split at hfollow
  · cases hfollow
  · exact h.followFrom hfollow

/-! ## What has been written

One statement covers a failing and a succeeding run: the documents that were written so far have their places, and at
these places the last text counts. -/

/-- The text at a place when documents, which are paths with texts, are written from left to right over what the
place held. -/
def overwritten (t : FileTree) (documents : List (Path × String)) (place : List String) (old : Option String) :
    Option String :=
  documents.foldl (fun text d => if t.follow d.1 = .ok place then some d.2 else text) old

/-- What writing documents from left to right makes of a tree: every document has a place, the places of the
documents hold their texts, and all other places hold what they held. Directories may have been added. -/
structure Written (t : FileTree) (documents : List (Path × String)) (t' : FileTree) : Prop where
  grows : t.Grows t'
  follow : ∀ d ∈ documents, ∃ place, t'.follow d.1 = .ok place
  text : ∀ place, t'.textAt? place = t'.overwritten documents place (t.textAt? place)

variable {documents more : List (Path × String)}

/-- A tree is written with no documents by leaving it alone. -/
theorem Written.refl (t : FileTree) : t.Written [] t where
  grows := .refl t
  follow := by simp
  text _ := rfl

/-- Where no document is written, the tree may grow, but no text changes. -/
theorem written_nil_iff : t.Written [] t' ↔ t.Grows t' ∧ ∀ place, t'.textAt? place = t.textAt? place :=
  ⟨fun h => ⟨h.grows, h.text⟩, fun ⟨hgrows, htext⟩ => ⟨hgrows, by simp, htext⟩⟩

/-- A document that has a place overwrites the same place in every tree that grows from there. -/
theorem Grows.overwritten (h : t.Grows t') (hfollow : ∀ d ∈ documents, ∃ place, t.follow d.1 = .ok place)
    (place : List String) (old : Option String) :
    t'.overwritten documents place old = t.overwritten documents place old := by
  refine List.foldl_ext _ _ _ fun text d hd => ?_
  obtain ⟨its, hits⟩ := hfollow d hd
  rw [hits, h.follow hits]

/-- One writing after another. -/
theorem Written.trans (h : t.Written documents t') (h' : t'.Written more t'') : t.Written (documents ++ more) t'' where
  grows := h.grows.trans h'.grows
  follow d hd := by
    rcases List.mem_append.mp hd with hd | hd
    · obtain ⟨place, hplace⟩ := h.follow d hd
      exact ⟨place, h'.grows.follow hplace⟩
    · exact h'.follow d hd
  text place := by
    rw [h'.text, h.text, ← h'.grows.overwritten h.follow, overwritten, overwritten, overwritten, List.foldl_append]

/-- Reading the path of the last document gives its text. -/
theorem Written.readText (h : t.Written documents t') {last : Path × String}
    (hlast : documents.getLast? = some last) : t'.readText last.1 = .ok last.2 := by
  obtain ⟨before, rfl⟩ := List.getLast?_eq_some_iff.mp hlast
  obtain ⟨place, hplace⟩ := h.follow last (by simp)
  have htext : t'.textAt? place = some last.2 := by
    rw [h.text, overwritten, List.foldl_append]
    exact if_pos hplace
  rw [FileTree.readText, lookup, hplace]
  rw [textAt?] at htext
  split at htext
  · rename_i found hat
    obtain rfl := Option.some.inj htext
    simp [hat, Bind.bind, Except.bind]
  · cases htext

/-! ## Putting a new file or directory

Both operations put one entry at the end of a path that leads to a directory. What they have in common is said once, and
each only has to show that it puts something. -/

/-- What looks alike from outside is of one kind. -/
theorem kind_eq_of_text?_eq {e e' : FileTree} (h : e.text? = e'.text?) : e.kind = e'.kind := by
  cases e <;> cases e' <;> first | rfl | cases h

/-- The conditions under which something is put: into a directory, and over a file at most, which is replaced
by a file. -/
structure Puts (t : FileTree) (here : List String) (name : String) (new : FileTree) : Prop where
  directory : ∃ entries, t.at? here = some (.directory entries)
  bare : new = empty ∨ ∃ text, new = .file text
  old : ∀ e, t.at? (here ++ [name]) = some e → e.kind = .file ∧ new.kind = .file

namespace Puts

variable {name : String} {new : FileTree} (h : t.Puts here name new)
include h

/-- Nothing stands below the place, since there is a file at most. -/
theorem at?_old (below : List String) (first : String) : t.at? (here ++ name :: first :: below) = none := by
  rw [← List.singleton_append, ← List.append_assoc, at?_append]
  cases hat : t.at? (here ++ [name]) with
  | none => rfl
  | some e =>
    obtain ⟨text, rfl⟩ := kind_eq_file_iff.mp (h.old e hat).1
    rfl

/-- Nothing stands below what is put there. -/
theorem at?_new (below : List String) (first : String) : new.at? (first :: below) = none := by
  obtain rfl | ⟨text, rfl⟩ := h.bare
  · rfl
  · rfl

/-- Putting it there is growing. -/
theorem grows : t.Grows (t.put (here ++ [name]) new) := by
  obtain ⟨entries, hdirectory⟩ := h.directory
  intro place e he
  by_cases hplace : here ++ [name] <+: place
  · obtain ⟨below, rfl⟩ := hplace
    rw [List.append_assoc, List.singleton_append] at he ⊢
    cases below with
    | nil => exact ⟨new, at?_put hdirectory name new [], by rw [(h.old e he).1, (h.old e he).2]⟩
    | cons first below =>
      rw [h.at?_old] at he
      cases he
  · have hmap := map_text?_at?_put hdirectory new hplace
    rw [he, Option.map_some] at hmap
    obtain ⟨e', he', htext⟩ := Option.map_eq_some_iff.mp hmap
    exact ⟨e', he', kind_eq_of_text?_eq htext⟩

/-- The text at that place is the new one, and all other texts are left. -/
theorem textAt? (place : List String) :
    (t.put (here ++ [name]) new).textAt? place = if place = here ++ [name] then new.text? else t.textAt? place := by
  obtain ⟨entries, hdirectory⟩ := h.directory
  by_cases hplace : here ++ [name] <+: place
  · obtain ⟨below, rfl⟩ := hplace
    rw [textAt?_eq, textAt?_eq, List.append_assoc, List.singleton_append, at?_put hdirectory]
    cases below with
    | nil => simp [FileTree.at?]
    | cons first below => simp [h.at?_new, h.at?_old]
  · have hne : place ≠ here ++ [name] := by
      rintro rfl
      exact hplace List.prefix_rfl
    rw [if_neg hne, textAt?_eq, textAt?_eq, map_text?_at?_put hdirectory new hplace]

end Puts

/-! ## Making directories

All directories on the way are made, the outermost first, so a fault in the middle leaves some of them behind. They are
empty and change no text. -/

variable {p : Path}

/-- A path leads to a directory if it can be followed and a directory stands where it ends. -/
theorem directoryAt_eq_ok_iff {segments : List String} :
    t.directoryAt segments = .ok place ↔
      t.followFrom [] segments = .ok place ∧ ∃ entries, t.at? place = some (.directory entries) := by
  rw [directoryAt, followFrom_append]
  cases t.followFrom [] segments with
  | error fault => simp [Except.bind]
  | ok there =>
    have hthere : (there = place ∧ ∃ entries, t.at? place = some (.directory entries)) ↔
        there = place ∧ ∃ entries, t.at? there = some (.directory entries) :=
      and_congr_right fun h => by rw [h]
    simp only [Except.bind, followFrom_cons, step, List.reverse_reverse, Except.ok.injEq, hthere]
    rcases t.at? there with _ | _ | entries
    · simp
    · simp
    · simp [followFrom]

/-- A directory that is made is put where nothing stood. -/
theorem puts_of_makeDirectory (h : t.makeDirectory p = .ok t') :
    ∃ here name, t.Puts here name empty ∧ t' = t.put (here ++ [name]) empty ∧ t.at? (here ++ [name]) = none := by
  rw [makeDirectory] at h
  split at h
  · cases h
  · cases h
  · rename_i last up _
    obtain ⟨here, hhere, h⟩ := exists_of_bind_eq_ok h
    split_ifs at h with hold
    simp only [not_or, Option.isSome_iff_ne_none, not_not] at hold
    obtain ⟨-, hdirectory⟩ := directoryAt_eq_ok_iff.mp hhere
    refine ⟨here, last, ⟨hdirectory, .inl rfl, fun e he => ?_⟩, (Except.ok.inj h).symm, hold.2.2⟩
    rw [hold.2.2] at he
    cases he

/-- Making a directory changes no file. -/
theorem written_of_makeDirectory (h : t.makeDirectory p = .ok t') : t.Written [] t' := by
  obtain ⟨here, name, hputs, rfl, hnew⟩ := puts_of_makeDirectory h
  refine written_nil_iff.mpr ⟨hputs.grows, fun place => ?_⟩
  rw [hputs.textAt?]
  split_ifs with hplace
  · rw [hplace, FileTree.textAt?, hnew]
    rfl
  · rfl

/-- Making directories changes no file, also where it stops half way. -/
theorem written_makeDirectories (t : FileTree) (paths : List Path) : t.Written [] (t.makeDirectories paths).2 := by
  fun_induction makeDirectories t paths with
  | case1 => exact .refl t
  | case2 => exact .refl t
  | case3 p outer _ made hmade => exact written_of_makeDirectory hmade
  | case4 p outer _ _ there houter made hmade ih =>
    rw [houter] at ih
    exact ih.trans (written_of_makeDirectory hmade)
  | case5 p outer _ _ there houter fault _ ih =>
    rw [houter] at ih
    exact ih
  | case6 p outer _ _ _ ih => exact ih
  | case7 => exact .refl t

/-! ## Writing a file

A text is written under the last name of its path, and only if the rest leads to a directory. -/

/-- A path whose last segment is a name leads to the entry of that name, where the others lead to a directory
that has it. -/
theorem follow_of_directoryAt {segments : List String} {name : String} {e : FileTree}
    (hp : segments? p = some (segments ++ [name])) (hname : name ≠ "" ∧ name ≠ "." ∧ name ≠ "..")
    (hhere : t.directoryAt segments = .ok here) (hat : t.at? (here ++ [name]) = some e) :
    t.follow p = .ok (here ++ [name]) := by
  obtain ⟨hfollow, entries, hdirectory⟩ := directoryAt_eq_ok_iff.mp hhere
  have hstep : t.step here.reverse name = .ok (name :: here.reverse) := by
    rw [step_name (by rwa [List.reverse_reverse]) hname, if_pos ((contains_iff_at? hdirectory).mpr ⟨e, hat⟩)]
  calc t.follow p
      = t.followFrom [] (segments ++ [name]) := by rw [follow, hp]
    _ = t.followFrom here.reverse [name] := by rw [followFrom_append, hfollow, Except.bind]
    _ = t.followFrom (name :: here.reverse) [] := by rw [followFrom_cons, hstep, Except.bind]
    _ = .ok (here ++ [name]) := by simp [followFrom]

/-- A path that leads to a directory does so when the tree has grown. -/
theorem Grows.directoryAt (h : t.Grows t') {segments : List String} (hhere : t.directoryAt segments = .ok here) :
    t'.directoryAt segments = .ok here :=
  h.followFrom hhere

/-- A text that is written is put at the place that its path leads to afterwards. -/
theorem puts_of_writeText {text : String} (h : t.writeText p text = .ok t') :
    ∃ here name, t.Puts here name (.file text) ∧ t' = t.put (here ++ [name]) (.file text) ∧
      t'.follow p = .ok (here ++ [name]) := by
  rw [writeText] at h
  split at h
  · cases h
  · cases h
  · -- a path that ends in a slash
    obtain ⟨here, -, h⟩ := exists_of_bind_eq_ok h
    cases h
  · rename_i name up hnonempty hsegments
    obtain ⟨here, hhere, h⟩ := exists_of_bind_eq_ok h
    split_ifs at h with hpoints
    split at h
    · cases h
    · rename_i hold
      obtain rfl := Except.ok.inj h
      obtain ⟨-, entries, hdirectory⟩ := directoryAt_eq_ok_iff.mp hhere
      -- a directory of that name is refused, so what is replaced is a file if anything
      have hputs : t.Puts here name (.file text) := by
        refine ⟨⟨entries, hdirectory⟩, .inr ⟨text, rfl⟩, fun e he => ⟨?_, rfl⟩⟩
        cases e with
        | file _ => rfl
        | directory others => exact absurd he (hold others)
      have hp : segments? p = some (up.reverse ++ [name]) := by
        obtain ⟨segments, hp, hreverse⟩ := Option.map_eq_some_iff.mp hsegments
        rw [hp, ← List.reverse_cons, ← hreverse, List.reverse_reverse]
      exact ⟨here, name, hputs, rfl,
        follow_of_directoryAt hp ⟨hnonempty, not_or.mp hpoints⟩ (hputs.grows.directoryAt hhere)
          (at?_put hdirectory name _ [])⟩

/-- Writing a file changes that file and no other. -/
theorem written_of_writeText {text : String} (h : t.writeText p text = .ok t') : t.Written [(p, text)] t' := by
  obtain ⟨here, name, hputs, rfl, hfollow⟩ := puts_of_writeText h
  refine ⟨hputs.grows, fun d hd => ?_, fun place => ?_⟩
  · obtain rfl := List.mem_singleton.mp hd
    exact ⟨_, hfollow⟩
  · rw [hputs.textAt?, overwritten, List.foldl_cons, List.foldl_nil, hfollow]
    simp only [Except.ok.injEq, eq_comm (a := here ++ [name])]
    rfl

end FileTree

end RouteManifest
