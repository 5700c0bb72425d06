import Mathlib.Data.List.Induction
import Mathlib.Data.List.Nodup
import Mathlib.Data.String.Basic
import RouteManifest.Table

/-!
# Laws of tables

What `insert`, `erase`, `ofEntries` and `mapValues` do to the names of a table and to the value found under
a name. A table built by `insert` never holds a name twice (`nodup_insert`), and for such a table finding a
value and being an entry are the same thing (`find?_eq_some_iff`).

`sortByName` is a stable sort that looks at names only, so it commutes with whatever is done to the values.
-/

namespace RouteManifest

namespace Table

variable {α β : Type}

/-! ## Finding

A table is a list of entries, and the first entry of a name counts. Laws that speak of entries instead of what is found
need that no name occurs twice. -/

/-- The first entry is looked at first. -/
theorem find?_cons (n : String) (v : α) (t : Table α) (name : String) :
    find? ((n, v) :: t) name = if n = name then some v else find? t name := rfl

/-- Nothing is found under a name that the table does not have. -/
theorem find?_eq_none_iff {t : Table α} {name : String} : t.find? name = none ↔ name ∉ t.names := by
  induction t with
  | nil => simp [find?, names]
  | cons e rest ih =>
    obtain ⟨n, v⟩ := e
    by_cases h : n = name
    · simp [find?, names, h]
    · rw [find?_cons, if_neg h, ih]
      simp [names, Ne.symm h]

/-- A table contains the names of its entries. -/
theorem contains_iff {t : Table α} {name : String} : t.contains name = true ↔ name ∈ t.names := by
  rw [contains, Option.isSome_iff_ne_none, ne_eq, find?_eq_none_iff, not_not]

/-- What is found under a name is entered under it. -/
theorem mem_of_find? {t : Table α} {name : String} {v : α} (h : t.find? name = some v) : (name, v) ∈ t := by
  induction t with
  | nil => cases h
  | cons e rest ih =>
    obtain ⟨n, w⟩ := e
    rw [find?_cons] at h
    by_cases hn : n = name
    · rw [if_pos hn] at h
      obtain rfl := Option.some.inj h
      rw [hn]
      exact List.mem_cons_self
    · rw [if_neg hn] at h
      exact List.mem_cons_of_mem _ (ih h)

/-- Where no name occurs twice, the entries are what is found. -/
theorem find?_eq_some_iff {t : Table α} (ht : t.names.Nodup) {name : String} {v : α} :
    t.find? name = some v ↔ (name, v) ∈ t := by
  refine ⟨mem_of_find?, fun h => ?_⟩
  induction t with
  | nil => cases h
  | cons e rest ih =>
    obtain ⟨n, w⟩ := e
    obtain ⟨hn, hrest⟩ := List.nodup_cons.mp ht
    rw [find?_cons]
    rcases List.mem_cons.mp h with h | h
    · obtain ⟨rfl, rfl⟩ := Prod.mk.inj h
      exact if_pos rfl
    · rw [if_neg, ih hrest h]
      rintro rfl
      exact hn (List.mem_map.mpr ⟨_, h, rfl⟩)

/-- The order of the entries does not matter for finding, as long as names are not repeated. -/
theorem find?_of_perm {t t' : Table α} (hperm : t.Perm t') (ht : t.names.Nodup) (name : String) :
    t.find? name = t'.find? name := by
  have ht' : t'.names.Nodup := (hperm.map _).nodup_iff.mp ht
  apply Option.ext
  intro v
  rw [find?_eq_some_iff ht, find?_eq_some_iff ht', hperm.mem_iff]

/-- The first of two tables goes before the second. -/
theorem find?_append (t u : Table α) (name : String) :
    find? (t ++ u) name = (t.find? name).or (u.find? name) := by
  induction t with
  | nil => rfl
  | cons e rest ih =>
    obtain ⟨n, v⟩ := e
    rw [List.cons_append, find?_cons, find?_cons, ih]
    split <;> rfl

/-- Values are found under the names that they had. -/
theorem find?_mapValues (f : α → β) (t : Table α) (name : String) :
    (t.mapValues f).find? name = (t.find? name).map f := by
  induction t with
  | nil => rfl
  | cons e rest ih =>
    obtain ⟨n, v⟩ := e
    change find? ((n, f v) :: mapValues f rest) name = (find? ((n, v) :: rest) name).map f
    rw [find?_cons, find?_cons, ih]
    split <;> rfl

theorem names_mapValues (f : α → β) (t : Table α) : (t.mapValues f).names = t.names := by
  simp [names, mapValues]

/-! ## Inserting

A new name goes to the end, and an old one keeps its place and gets the new value. So the names of a table tell in which
order they were first inserted. -/

/-- Inserting changes what is found under one name. -/
theorem find?_insert (t : Table α) (name : String) (v : α) (other : String) :
    (t.insert name v).find? other = if name = other then some v else t.find? other := by
  induction t with
  | nil => rfl
  | cons e rest ih =>
    obtain ⟨n, w⟩ := e
    rw [insert]
    by_cases hn : n = name
    · rw [if_pos hn, find?_cons, find?_cons, hn]
      split <;> rfl
    · rw [if_neg hn, find?_cons, find?_cons, ih]
      by_cases ho : n = other
      · rw [if_pos ho, if_pos ho, if_neg (fun h => hn (ho.trans h.symm))]
      · rw [if_neg ho, if_neg ho]

theorem find?_insert_self (t : Table α) (name : String) (v : α) :
    (t.insert name v).find? name = some v := by
  rw [find?_insert, if_pos rfl]

theorem find?_insert_of_ne (t : Table α) {name other : String} (v : α) (h : name ≠ other) :
    (t.insert name v).find? other = t.find? other := by
  rw [find?_insert, if_neg h]

/-- A new name goes behind the others. -/
theorem insert_of_not_mem {t : Table α} {name : String} (h : name ∉ t.names) (v : α) :
    t.insert name v = t ++ [(name, v)] := by
  induction t with
  | nil => rfl
  | cons e rest ih =>
    obtain ⟨n, w⟩ := e
    have hn : n ≠ name := fun hn => h (by simp [names, hn])
    have hrest : name ∉ names rest := fun hm => h (List.mem_cons_of_mem _ hm)
    rw [insert, if_neg hn, ih hrest]
    rfl

/-- A name that is there already keeps its place. -/
theorem names_insert_of_mem {t : Table α} {name : String} (h : name ∈ t.names) (v : α) :
    (t.insert name v).names = t.names := by
  induction t with
  | nil => cases h
  | cons e rest ih =>
    obtain ⟨n, w⟩ := e
    rw [insert]
    by_cases hn : n = name
    · rw [if_pos hn]
      rfl
    · rw [if_neg hn]
      have hrest : name ∈ names rest := by
        rcases List.mem_cons.mp h with h | h
        · exact absurd h.symm hn
        · exact h
      exact congrArg (n :: ·) (ih hrest)

/-- Inserting adds its name to the names and takes none away. -/
theorem mem_names_insert {t : Table α} {name other : String} (v : α) :
    other ∈ (t.insert name v).names ↔ other = name ∨ other ∈ t.names := by
  rw [← contains_iff, ← contains_iff, contains, contains, find?_insert]
  by_cases h : name = other
  · simp [h]
  · simp [h, Ne.symm h]

/-- No name is entered twice, since a name that is there has its value replaced. -/
theorem nodup_insert {t : Table α} (ht : t.names.Nodup) (name : String) (v : α) :
    (t.insert name v).names.Nodup := by
  by_cases h : name ∈ t.names
  · rw [names_insert_of_mem h]
    exact ht
  · have hnames : (t.insert name v).names = t.names ++ [name] := by
      rw [insert_of_not_mem h, names, List.map_append]
      rfl
    rw [hnames]
    exact ht.append (List.nodup_singleton name) (by simpa using h)

/-- What is entered by `insert` was there before or is the new entry. -/
theorem mem_insert {t : Table α} {name : String} {v : α} {e : String × α} (h : e ∈ t.insert name v) :
    e = (name, v) ∨ e ∈ t := by
  induction t with
  | nil => exact Or.inl (List.mem_singleton.mp h)
  | cons f rest ih =>
    obtain ⟨n, u⟩ := f
    rw [insert] at h
    split at h
    next hn =>
      rcases List.mem_cons.mp h with rfl | h
      · exact Or.inl (by rw [hn])
      · exact Or.inr (List.mem_cons_of_mem _ h)
    · rcases List.mem_cons.mp h with rfl | h
      · exact Or.inr List.mem_cons_self
      · exact (ih h).imp_right (List.mem_cons_of_mem _)

/-- The values after inserting are those from before, and the new one. -/
theorem mem_values_insert {t : Table α} {name : String} {v w : α} (h : w ∈ (t.insert name v).values) :
    w = v ∨ w ∈ t.values := by
  obtain ⟨e, he, rfl⟩ := List.mem_map.mp h
  rcases mem_insert he with rfl | he
  · exact Or.inl rfl
  · exact Or.inr (List.mem_map_of_mem he)

/-! ## Tables of entries

A table that is written out as a list is made by inserting its entries one after another; where names are repeated, the
last value is found in the first place. -/

/-- The first entry stays in front if its name does not come up again. -/
theorem foldl_insert_cons (first : String × α) (rest : Table α) {entries : List (String × α)}
    (h : first.1 ∉ entries.map Prod.fst) :
    entries.foldl (fun t e => insert t e.1 e.2) (first :: rest) =
      first :: entries.foldl (fun t e => insert t e.1 e.2) rest := by
  induction entries generalizing rest with
  | nil => rfl
  | cons e entries ih =>
    obtain ⟨hne, hrest⟩ := not_or.mp (mt List.mem_cons.mpr h)
    rw [List.foldl_cons, List.foldl_cons, insert, if_neg hne]
    exact ih _ hrest

theorem ofEntries_concat (entries : List (String × α)) (e : String × α) :
    ofEntries (entries ++ [e]) = (ofEntries entries).insert e.1 e.2 := by
  rw [ofEntries, List.foldl_append]
  rfl

/-- A table holds nothing but entries of the list it is made from. -/
theorem mem_of_mem_ofEntries {entries : List (String × α)} {e : String × α} (h : e ∈ ofEntries entries) :
    e ∈ entries := by
  induction entries using List.reverseRecOn with
  | nil => exact h
  | append_singleton rest f ih =>
    rw [ofEntries_concat] at h
    rcases mem_insert h with rfl | h
    · exact List.mem_append_right _ List.mem_cons_self
    · exact List.mem_append_left _ (ih h)

/-- A table has all the names of the list that it is made from. -/
theorem mem_names_ofEntries {entries : List (String × α)} {name : String} :
    name ∈ (ofEntries entries).names ↔ name ∈ entries.map Prod.fst := by
  induction entries using List.reverseRecOn with
  | nil => exact Iff.rfl
  | append_singleton rest f ih =>
    rw [ofEntries_concat, mem_names_insert, List.map_append, List.mem_append, ih, List.map_singleton,
      List.mem_singleton, or_comm]

/-- Inserting a changed value is changing the values with it inserted. -/
theorem insert_mapValues (f : α → β) (t : Table α) (name : String) (v : α) :
    (t.mapValues f).insert name (f v) = (t.insert name v).mapValues f := by
  induction t with
  | nil => rfl
  | cons e rest ih =>
    obtain ⟨n, w⟩ := e
    by_cases h : n = name
    · simp [mapValues, insert, h]
    · simpa [mapValues, insert, h] using ih

/-- It does not matter whether values are changed before the table is made, or after. -/
theorem ofEntries_mapValues (f : α → β) (entries : Table α) :
    ofEntries (entries.mapValues f) = (ofEntries entries).mapValues f := by
  induction entries using List.reverseRecOn with
  | nil => rfl
  | append_singleton rest e ih =>
    have hentries : mapValues f (rest ++ [e]) = mapValues f rest ++ [(e.1, f e.2)] := by simp [mapValues]
    rw [hentries, ofEntries_concat, ofEntries_concat, ih, insert_mapValues]

/-- A table of entries has no name twice, whatever the list had. -/
theorem nodup_ofEntries (entries : List (String × α)) : (ofEntries entries).names.Nodup := by
  induction entries using List.reverseRecOn with
  | nil => exact List.nodup_nil
  | append_singleton rest e ih =>
    rw [ofEntries_concat]
    exact nodup_insert ih e.1 e.2

/-! ### How long a table is

A table of entries is as long as the list just if the list repeats no name. -/

/-- A table grows by one entry at most. -/
theorem length_insert_le (t : Table α) (name : String) (v : α) : (t.insert name v).length ≤ t.length + 1 := by
  by_cases h : name ∈ t.names
  · have hlength := congrArg List.length (names_insert_of_mem h v)
    simp only [names, List.length_map] at hlength
    omega
  · rw [insert_of_not_mem h, List.length_append, List.length_singleton]

/-- A table may be shorter than the list: a later entry of the same name replaces the earlier one. -/
theorem length_ofEntries_le (entries : List (String × α)) : (ofEntries entries).length ≤ entries.length := by
  induction entries using List.reverseRecOn with
  | nil => exact le_refl _
  | append_singleton rest e ih =>
    rw [ofEntries_concat, List.length_append, List.length_singleton]
    exact (length_insert_le _ _ _).trans (Nat.succ_le_succ ih)

/-- A table of entries with different names is the list of them. -/
theorem ofEntries_of_nodup {entries : List (String × α)} (h : (entries.map Prod.fst).Nodup) :
    ofEntries entries = entries := by
  induction entries using List.reverseRecOn with
  | nil => rfl
  | append_singleton rest e ih =>
    rw [List.map_append] at h
    have hrest := ih h.of_append_left
    have hnew : e.1 ∉ names rest := fun hmem => List.disjoint_of_nodup_append h hmem List.mem_cons_self
    rw [ofEntries_concat, hrest, insert_of_not_mem hnew]

/-- A table that is as long as the list of its entries has kept them all. -/
theorem ofEntries_of_length_le {entries : List (String × α)} (h : entries.length ≤ (ofEntries entries).length) :
    ofEntries entries = entries := by
  induction entries using List.reverseRecOn with
  | nil => rfl
  | append_singleton rest e ih =>
    rw [ofEntries_concat, List.length_append, List.length_singleton] at h
    have hle := length_ofEntries_le rest
    by_cases hmem : e.1 ∈ (ofEntries rest).names
    · have hlength := congrArg List.length (names_insert_of_mem hmem e.2)
      simp only [names, List.length_map] at hlength
      omega
    · rw [insert_of_not_mem hmem, List.length_append, List.length_singleton] at h
      rw [ofEntries_concat, insert_of_not_mem hmem, ih (by omega)]

/-- In a table made of changed values the changed value is found. -/
theorem find?_ofEntries_mapValues (f : α → β) (entries : Table α) (name : String) :
    (ofEntries (entries.mapValues f)).find? name = ((ofEntries entries).find? name).map f := by
  induction entries using List.reverseRecOn with
  | nil => rfl
  | append_singleton rest e ih =>
    have happend : mapValues f (rest ++ [e]) = mapValues f rest ++ [(e.1, f e.2)] := List.map_append
    rw [happend, ofEntries_concat, ofEntries_concat, find?_insert, find?_insert, ih]
    split <;> rfl

/-- Entries of different names all find their way into the table. -/
theorem find?_ofEntries {entries : List (String × α)} (h : (entries.map Prod.fst).Nodup) {name : String} {v : α} :
    (ofEntries entries).find? name = some v ↔ (name, v) ∈ entries := by
  refine ⟨fun hv => mem_of_mem_ofEntries (mem_of_find? hv), fun hv => ?_⟩
  have hname : name ∈ (ofEntries entries).names := mem_names_ofEntries.mpr (List.mem_map_of_mem hv)
  obtain ⟨w, hw⟩ := Option.isSome_iff_exists.mp (contains_iff.mpr hname)
  have hw' : (name, w) ∈ entries := mem_of_mem_ofEntries (mem_of_find? hw)
  rw [hw]
  exact congrArg (some ·.2) (List.inj_on_of_nodup_map h hw' hv rfl)

/-- Entries of different names make up tables in which the same is found, in any order. -/
theorem find?_ofEntries_of_perm {entries entries' : List (String × α)} (hperm : entries.Perm entries')
    (h : (entries.map Prod.fst).Nodup) (name : String) :
    (ofEntries entries).find? name = (ofEntries entries').find? name := by
  have h' : (entries'.map Prod.fst).Nodup := (hperm.map _).nodup_iff.mp h
  refine Option.ext fun v => ?_
  rw [find?_ofEntries h, find?_ofEntries h', hperm.mem_iff]

/-! ## Erasing

Only an entry is taken out, so what holds of all entries still holds. -/

/-- Erasing takes out an entry and leaves the others in their order. -/
theorem erase_sublist (t : Table α) (name : String) : (t.erase name).Sublist t := by
  induction t with
  | nil => exact List.Sublist.refl _
  | cons e rest ih =>
    obtain ⟨n, v⟩ := e
    rw [erase]
    split
    · exact List.sublist_cons_self _ _
    · exact ih.cons_cons _

/-- No name is repeated after one was erased. -/
theorem nodup_erase {t : Table α} (ht : t.names.Nodup) (name : String) : (t.erase name).names.Nodup :=
  ht.sublist ((erase_sublist t name).map _)

theorem find?_erase_of_ne (t : Table α) {name other : String} (h : name ≠ other) :
    (t.erase name).find? other = t.find? other := by
  induction t with
  | nil => rfl
  | cons e rest ih =>
    obtain ⟨n, v⟩ := e
    rw [erase]
    by_cases hn : n = name
    · rw [if_pos hn, find?_cons, if_neg (fun ho => h (hn.symm.trans ho))]
    · rw [if_neg hn, find?_cons, find?_cons, ih]

/-- A name that was erased is not found again, since it was there only once. -/
theorem find?_erase_self {t : Table α} (ht : t.names.Nodup) (name : String) :
    (t.erase name).find? name = none := by
  induction t with
  | nil => rfl
  | cons e rest ih =>
    obtain ⟨n, v⟩ := e
    obtain ⟨hn, hrest⟩ := List.nodup_cons.mp ht
    rw [erase]
    by_cases h : n = name
    · rw [if_pos h, find?_eq_none_iff, ← h]
      exact hn
    · rw [if_neg h, find?_cons, if_neg h]
      exact ih hrest

/-! ## Sorting

Insertion by name. A name that is equal goes behind, which makes the sort stable, and a table without repeated names has
just one sorted form. -/

/-- Putting an entry in its place adds that entry only. -/
theorem insertSorted_perm (e : String × α) (t : Table α) : (insertSorted e t).Perm (e :: t) := by
  induction t with
  | nil => exact .refl _
  | cons other rest ih =>
    rw [insertSorted]
    split
    · exact (ih.cons other).trans (.swap e other rest)
    · exact .refl _

/-- Sorting loses nothing. -/
theorem sortByName_perm (t : Table α) : t.sortByName.Perm t := by
  induction t with
  | nil => exact .refl _
  | cons e rest ih => exact (insertSorted_perm e _).trans (ih.cons e)

/-- A sorted table has no greater name before a smaller one. -/
theorem sortByName_sorted (t : Table α) : t.sortByName.Pairwise (·.1 ≤ ·.1) := by
  have insert_sorted (e : String × α) {t : Table α} (ht : t.Pairwise (·.1 ≤ ·.1)) :
      (insertSorted e t).Pairwise (·.1 ≤ ·.1) := by
    induction t with
    | nil => exact List.pairwise_singleton _ _
    | cons other rest ih =>
      obtain ⟨hother, hrest⟩ := List.pairwise_cons.mp ht
      rw [insertSorted]
      split
      next hlt =>
        refine List.pairwise_cons.mpr ⟨fun x hx => ?_, ih hrest⟩
        rcases List.mem_cons.mp ((insertSorted_perm e rest).subset hx) with rfl | hx
        · exact hlt.le
        · exact hother x hx
      next hge =>
        refine List.pairwise_cons.mpr ⟨fun x hx => ?_, ht⟩
        rcases List.mem_cons.mp hx with rfl | hx
        · exact not_lt.mp hge
        · exact (not_lt.mp hge).trans (hother x hx)
  induction t with
  | nil => exact .nil
  | cons e rest ih => exact insert_sorted e ih

/-- A table in order stays as it is; in particular, entries of one name keep their order. -/
theorem sortByName_of_sorted {t : Table α} (ht : t.Pairwise (·.1 ≤ ·.1)) : t.sortByName = t := by
  induction t with
  | nil => rfl
  | cons e rest ih =>
    obtain ⟨he, hrest⟩ := List.pairwise_cons.mp ht
    rw [sortByName, List.foldr_cons]
    change insertSorted e (sortByName rest) = _
    rw [ih hrest]
    cases rest with
    | nil => rfl
    | cons other rest => exact if_neg (not_lt.mpr (he other List.mem_cons_self))

/-- Sorting twice is sorting once. -/
theorem sortByName_sortByName (t : Table α) : t.sortByName.sortByName = t.sortByName :=
  sortByName_of_sorted t.sortByName_sorted

/-- Sorting does not look at values. -/
theorem sortByName_mapValues (f : α → β) (t : Table α) : (t.mapValues f).sortByName = t.sortByName.mapValues f := by
  have insert_mapValues (e : String × α) (t : Table α) :
      insertSorted (e.1, f e.2) (t.mapValues f) = (insertSorted e t).mapValues f := by
    induction t with
    | nil => rfl
    | cons other rest ih =>
      change (if other.1 < e.1 then (other.1, f other.2) :: insertSorted (e.1, f e.2) (mapValues f rest)
        else (e.1, f e.2) :: (other.1, f other.2) :: mapValues f rest) = _
      rw [insertSorted, ih]
      split <;> rfl
  induction t with
  | nil => rfl
  | cons e rest ih =>
    change insertSorted (e.1, f e.2) (mapValues f rest).sortByName = _
    rw [ih, insert_mapValues]
    rfl

end Table

end RouteManifest
