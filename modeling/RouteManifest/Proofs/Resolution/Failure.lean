import RouteManifest.Proofs.Resolution.Closed
import RouteManifest.Proofs.Resolution.Evaluation

/-!
# What a failed resolution leaves behind

A resolution that fails gives back the ids of the expansions that it was in the middle of. What was registered by then
stays, and it may point at one of these ids: that of a declaration which comes back to itself, since such a declaration
is pointed at while it is being expanded. Nothing else is left open. So a reference that leads nowhere tells of a
declaration that comes back to itself and that a failed call came across (`refIds_of_called`); and as long as there are
no such declarations, what is registered stays closed whatever fails.
-/

namespace RouteManifest

variable {c : Catalog}

/-- A call that succeeds, or fails without corrupting the registry. What it comes across when it fails is lost if it
comes back to itself. -/
def Survives (lost : Fin c.size → Prop) (e : TypeExpr) (origin : Location) (out : Except Fault Schema) : Prop :=
  ∀ fault, out = .error fault → fault.isFatal = false ∧
    ∀ i, (Task.node [] origin e : Task c).ComesTo i → c.Leads i i → lost i

/-- What is registered points at registered ids, and at ids that lost declarations ask for. -/
def Adrift (lost : Fin c.size → Prop) (r : Resolver c) : Prop :=
  ∃ q : Pending c, Coherent q r ∧ ∀ entry ∈ q.identities,
    lost entry.1.declaration ∧ (c.get entry.1.declaration).CanHave entry.2

section Adrift

variable {lost : Fin c.size → Prop}

theorem adrift_empty : Adrift lost ({} : Resolver c) := ⟨{}, coherent_empty, nofun⟩

/-- A schema points at registered ids, and at ids that lost declarations ask for. -/
theorem refIds_of_live {q : Pending c} {r : Resolver c} (hr : r.registry.Sound)
    (hq : ∀ entry ∈ q.identities, lost entry.1.declaration ∧ (c.get entry.1.declaration).CanHave entry.2) {s : Schema}
    (hs : s.Closed (q.Live r.registry)) :
    ∀ id ∈ s.refIds, id ∈ r.registry.ids ∨ ∃ i, lost i ∧ (c.get i).CanHave id := by
  intro id hid
  rcases (hs.refIds id hid).1 with ⟨target, hget⟩ | hmem
  · obtain ⟨entry, hentry, rfl, -⟩ := (Registry.get?_eq_some_iff_mem hr.names_nodup).mp hget
    exact Or.inl (List.mem_map_of_mem hentry)
  · obtain ⟨entry, hentry, rfl⟩ := List.mem_map.mp hmem
    exact Or.inr ⟨_, hq entry hentry⟩

/-- A call leaves what is registered closed up to what is lost. -/
theorem Adrift.call {r r' : Resolver c} (h : Adrift lost r) {e : TypeExpr} {origin : Location}
    {out : Except Fault Schema}
    (hrun : Runs {} (.node [] origin e) r out r') (hout : Survives lost e origin out) : Adrift lost r' := by
  obtain ⟨q, hr, hq⟩ := h
  obtain ⟨hanswers, hfails⟩ := hrun.coherent (.outside trivial hr nofun)
  cases out with
  | ok s => exact ⟨q, (hanswers s rfl).1, hq⟩
  | error fault =>
    obtain ⟨hfatal, hlost⟩ := hout fault rfl
    obtain ⟨q', hr', hq'⟩ := hfails fault rfl (by rintro id rfl; cases hfatal)
    refine ⟨q', hr', fun entry hentry => ?_⟩
    rcases hq' entry hentry with hentry | ⟨hcomes, hrec, hcan⟩
    · exact hq entry hentry
    · exact ⟨hlost _ hcomes hrec, hcan⟩

end Adrift

/-- Whatever calls a resolver has answered, a reference of a registered schema is registered itself, unless a lost
declaration asks for its id; and so is a reference of the next answer. -/
theorem refIds_of_called {lost : Fin c.size → Prop} {r : Resolver c} (hr : r.Called (Survives lost)) :
    (∀ entry ∈ r.registry.entries, ∀ id ∈ entry.schema.refIds,
      id ∈ r.registry.ids ∨ ∃ i, lost i ∧ (c.get i).CanHave id) ∧
    ∀ e origin s r', (resolve e origin).run r = (.ok s, r') → ∀ id ∈ s.refIds,
      id ∈ r'.registry.ids ∨ ∃ i, lost i ∧ (c.get i).CanHave id := by
  have hadrift : Adrift lost r := hr.invariant adrift_empty fun h hrun hout => h.call hrun hout
  obtain ⟨q, hcoherent, hq⟩ := hadrift
  refine ⟨fun entry hentry => ?_, fun e origin s r' h => ?_⟩
  · have hget := (Registry.get?_eq_some_iff_mem hcoherent.sound.names_nodup).mpr ⟨entry, hentry, rfl, rfl⟩
    exact refIds_of_live hcoherent.sound hq (hcoherent.closed _ _ hget)
  · have hrun : Runs {} (.node [] origin e) r (.ok s) r' := runs_iff.mpr h
    obtain ⟨hcoherent', hs⟩ := (hrun.coherent (.outside trivial hcoherent nofun)).ok s rfl
    exact refIds_of_live hcoherent'.sound hq (hs s List.mem_cons_self)

/-- A folder has a file and a function, and a file has its folder. -/
def folderCatalog : Catalog where
  declarations := [
    { name := "Folder", body := .object [("file", ⟨.reference "File", true⟩), ("open", ⟨.callable, true⟩)] false,
      location := ⟨⟨"folder.rs"⟩, 1, 0⟩ },
    { name := "File", body := .object [("folder", ⟨.reference "Folder", true⟩)] false,
      location := ⟨⟨"folder.rs"⟩, 5, 0⟩ }]

theorem refIds_of_called_folder : ∃ (fault : Fault) (r : Resolver folderCatalog),
    (resolve (.reference "Folder") ⟨⟨"folder.rs"⟩, 9, 0⟩).run {} = (.error fault, r) ∧
      ∀ entry ∈ r.registry.entries, ∀ id ∈ entry.schema.refIds,
        id ∈ r.registry.ids ∨ ∃ i, folderCatalog.Leads i i ∧ (folderCatalog.get i).CanHave id := by
  have hfault : (match ((resolve (.reference "Folder") ⟨⟨"folder.rs"⟩, 9, 0⟩).run ({} : Resolver folderCatalog)).1 with
      | .error fault => !fault.isFatal
      | .ok _ => false) = true := by
    rw [resolve_eq_within]
    decide +kernel
  rcases h : (resolve (.reference "Folder") ⟨⟨"folder.rs"⟩, 9, 0⟩).run ({} : Resolver folderCatalog) with ⟨fault | s, r⟩
  · rw [h] at hfault
    have hcalled : r.Called (Survives fun i => folderCatalog.Leads i i) := by
      refine .call .fresh h ?_
      rintro fault ⟨⟩
      exact ⟨by simpa using hfault, fun _ _ hrec => hrec⟩
    exact ⟨fault, r, rfl, (refIds_of_called hcalled).1⟩
  · rw [h] at hfault
    cases hfault

end RouteManifest
