import RouteManifest.Project.Basic
import RouteManifest.Proofs.Files.Tree

/-!
# Computations on trees of files

A computation on a tree of files has a result and leaves a tree (`FileTree.run`). What it does is said with two
postconditions, one for the case that it returns and one for the case that it fails (`FileTree.Ends`), because
the tree that a failed computation leaves matters, too.

A computation that only reads leaves the tree that it was given, whether it fails or not (`ReadOnly`). Reading
the configuration, scanning and reading the sources are of this kind.
-/

namespace RouteManifest

/-! ## Running on a tree

Storage on a tree is a state monad under exceptions, so a computation runs to a result and a tree. `Ends` is closed
under `pure`, `throw` and `bind`, and nothing else is asked of it later. -/

namespace FileTree

variable {ε α β : Type}

/-- Runs a computation on a tree: its result, and the tree that it leaves. -/
def run (t : FileTree) (x : ExceptT ε (StateM FileTree) α) : Except ε α × FileTree := Id.run (StateT.run x.run t)

/-- A result that is there already leaves the tree. -/
theorem run_pure (t : FileTree) (a : α) : t.run (pure a : ExceptT ε (StateM FileTree) α) = (.ok a, t) := rfl

/-- A failure leaves the tree as it is when it comes. -/
theorem run_throw (t : FileTree) (e : ε) : t.run (throw e : ExceptT ε (StateM FileTree) α) = (.error e, t) := rfl

/-- The second computation runs on the tree that the first one leaves, unless that failed. -/
theorem run_bind (t : FileTree) (x : ExceptT ε (StateM FileTree) α) (f : α → ExceptT ε (StateM FileTree) β) :
    t.run (x >>= f) = match t.run x with
      | (.ok a, t') => t'.run (f a)
      | (.error e, t') => (.error e, t') := by
  unfold run
  rw [ExceptT.run_bind, StateT.run_bind, Id.run_bind]
  cases Id.run (StateT.run x.run t) with
  | mk result t' => cases result <;> rfl

/-- A computation leaves a tree as the first condition says if it returns, and as the second one says if it
fails. -/
structure Ends (t : FileTree) (x : ExceptT ε (StateM FileTree) α) (returned : α → FileTree → Prop)
    (failed : ε → FileTree → Prop) : Prop where
  returned : ∀ a t', t.run x = (.ok a, t') → returned a t'
  failed : ∀ e t', t.run x = (.error e, t') → failed e t'

namespace Ends

variable {t : FileTree} {x : ExceptT ε (StateM FileTree) α} {f : α → ExceptT ε (StateM FileTree) β}
  {Returned Returned' : α → FileTree → Prop} {Failed Failed' : ε → FileTree → Prop}

/-- Nothing is said where nothing is asked. -/
theorem trivial (t : FileTree) (x : ExceptT ε (StateM FileTree) α) :
    t.Ends x (fun _ _ => True) (fun _ _ => True) :=
  ⟨fun _ _ _ => True.intro, fun _ _ _ => True.intro⟩

/-- A computation that is known to return is shown by its result alone. -/
theorem of_ok {a : α} {t' : FileTree} (hrun : t.run x = (.ok a, t')) (h : Returned a t') :
    t.Ends x Returned Failed where
  returned := by
    rw [hrun]
    rintro _ _ ⟨⟩
    exact h
  failed := by
    rw [hrun]
    rintro _ _ ⟨⟩

/-- A computation that is known to fail is shown by the fault and the tree that it leaves. -/
theorem of_error {e : ε} {t' : FileTree} (hrun : t.run x = (.error e, t')) (h : Failed e t') :
    t.Ends x Returned Failed where
  returned := by
    rw [hrun]
    rintro _ _ ⟨⟩
  failed := by
    rw [hrun]
    rintro _ _ ⟨⟩
    exact h

theorem pure {a : α} (h : Returned a t) : t.Ends (Pure.pure a : ExceptT ε (StateM FileTree) α) Returned Failed :=
  of_ok (run_pure t a) h

theorem throw {e : ε} (h : Failed e t) :
    t.Ends (MonadExcept.throw e : ExceptT ε (StateM FileTree) α) Returned Failed :=
  of_error (run_throw t e) h

/-- What is shown of how a computation ends may be more than is needed. -/
theorem imp (h : t.Ends x Returned Failed) (hreturned : ∀ a t', Returned a t' → Returned' a t')
    (hfailed : ∀ e t', Failed e t' → Failed' e t') : t.Ends x Returned' Failed' :=
  ⟨fun a t' hrun => hreturned a t' (h.returned a t' hrun), fun e t' hrun => hfailed e t' (h.failed e t' hrun)⟩

/-- The second computation starts with the result and the tree of the first, if there is a result. -/
theorem bind {Finished : β → FileTree → Prop} (hx : t.Ends x Returned Failed)
    (hf : ∀ a t', Returned a t' → t'.Ends (f a) Finished Failed) : t.Ends (x >>= f) Finished Failed := by
  cases hleft : t.run x with
  | mk result t' =>
    cases result with
    | ok a =>
      have hright := hf a t' (hx.returned a t' hleft)
      have hrun : t.run (x >>= f) = t'.run (f a) := by rw [run_bind, hleft]
      exact ⟨fun b t'' h => hright.returned b t'' (hrun.symm.trans h),
        fun e t'' h => hright.failed e t'' (hrun.symm.trans h)⟩
    | error e => exact of_error (by rw [run_bind, hleft]) (hx.failed e t' hleft)

end Ends

/-! ## Writing

The two operations that change a tree, with what they leave in either case. -/

/-- Directories are no files, whether all of them can be made or not. -/
theorem ends_createDirectories (p : Path) (t : FileTree) :
    t.Ends (ExceptT.mk (Storage.createDirectories p)) (fun _ t' => t.Written [] t') (fun _ t' => t.Written [] t') := by
  have hmade := t.written_makeDirectories p.ancestors
  have hrun : t.run (ExceptT.mk (Storage.createDirectories p)) = t.makeDirectories p.ancestors := rfl
  constructor
  all_goals
    intro result t' h
    rw [hrun] at h
    rwa [h] at hmade

/-- A file is written or left as it is. -/
theorem ends_writeText (p : Path) (text : String) (t : FileTree) :
    t.Ends (ExceptT.mk (Storage.writeText p text)) (fun _ t' => t.Written [(p, text)] t') (fun _ t' => t' = t) := by
  have hrun : t.run (ExceptT.mk (Storage.writeText p text)) = update (fun t => t.writeText p text) t := rfl
  rw [update] at hrun
  cases hwrite : t.writeText p text with
  | ok changed =>
    rw [hwrite] at hrun
    exact .of_ok hrun (written_of_writeText hwrite)
  | error fault =>
    rw [hwrite] at hrun
    exact .of_error hrun rfl

end FileTree

/-! ## Only reading

For computations that read only the two conditions come to one equation, that the tree is the same. So there is a
predicate of its own for them, with rules of its own. -/

/-- The computation leaves every tree as it is. -/
def ReadOnly {ε α : Type} (x : ExceptT ε (StateM FileTree) α) : Prop :=
  ∀ t : FileTree, (t.run x).2 = t

namespace ReadOnly

variable {ε α β : Type}

/-- A result that is there already reads nothing. -/
theorem pure (a : α) : ReadOnly (Pure.pure a : ExceptT ε (StateM FileTree) α) := fun _ => rfl

/-- A failure reads nothing. -/
theorem throw (e : ε) : ReadOnly (MonadExcept.throw e : ExceptT ε (StateM FileTree) α) := fun _ => rfl

/-- A result that is known without looking at files. -/
theorem known (r : Except ε α) : ReadOnly (ExceptT.mk (Pure.pure r) : ExceptT ε (StateM FileTree) α) := fun _ => rfl

/-- A computation that only looks at the tree reads only. -/
theorem lift {x : StateM FileTree α} (h : ∀ t, (Id.run (StateT.run x t)).2 = t) :
    ReadOnly (ExceptT.lift x : ExceptT ε (StateM FileTree) α) := h

/-- Of a computation that reads only, the result is all there is to know. -/
theorem run_eq {x : ExceptT ε (StateM FileTree) α} (h : ReadOnly x) (t : FileTree) : t.run x = ((t.run x).1, t) :=
  Prod.ext rfl (h t)

/-- A computation that reads only ends with the tree that it was given, in either case. -/
theorem ends {x : ExceptT ε (StateM FileTree) α} (h : ReadOnly x) (t : FileTree) :
    t.Ends x (fun a t' => t' = t ∧ t.run x = (.ok a, t)) (fun e t' => t' = t ∧ t.run x = (.error e, t)) := by
  constructor
  all_goals
    intro result t' hrun
    obtain rfl : t' = t := (congrArg Prod.snd hrun).symm.trans (h t)
    exact ⟨rfl, hrun⟩

/-- Two computations in a row read only if both do. -/
theorem bind {x : ExceptT ε (StateM FileTree) α} {f : α → ExceptT ε (StateM FileTree) β} (hx : ReadOnly x)
    (hf : ∀ a, ReadOnly (f a)) : ReadOnly (x >>= f) := by
  intro t
  rw [FileTree.run_bind, hx.run_eq]
  cases (t.run x).1 with
  | ok a => exact hf a t
  | error e => rfl

end ReadOnly

/-! ## The readers

What a command does before it writes, one step after another: configuration, scan, sources, providers. -/

namespace ReadOnly

/-- The configuration is read, or its defaults are taken. -/
theorem configLoad (p : Path) : ReadOnly (Config.load p) := by
  refine .bind (.lift fun _ => rfl) fun kind => ?_
  cases kind with
  | error fault => exact .pure _
  | ok kind =>
    refine .bind (.lift fun _ => rfl) fun text => ?_
    cases text with
    | error fault => exact .throw _
    | ok text =>
      simp only
      split
      · exact .pure _
      · exact .throw _

/-- A source is read and parsed. -/
theorem readAs (shown actual : Path) : ReadOnly (SourceFile.readAs shown actual) := by
  refine .bind (.lift fun _ => rfl) fun text => ?_
  cases text with
  | error fault => exact .throw _
  | ok text =>
    simp only
    split
    · exact .pure _
    · exact .throw _

/-- The sources that a scan has found are read one after the other. -/
theorem readFiles (root : Path) (scan : Scan) (paths : List Path) :
    ReadOnly (Project.readFiles root scan paths) := by
  induction paths with
  | nil => exact .pure _
  | cons p rest ih =>
    refine .bind (.lift (readAs p (root.join p))) fun result => ?_
    cases result with
    | ok file => exact ih.bind fun files => .pure _
    | error fault =>
      simp only
      split
      · exact .throw _
      · exact ih

/-- To find one provider may take reading another source. -/
theorem addProvider (root : Path) (files : List SourceFile) (g : Project.Gathered) (name reference : String) :
    ReadOnly (Project.addProvider root files g name reference) := by
  have hadd (file : SourceFile) (declarations : List Declaration) : ReadOnly (ε := Fault) (do
      let p ← ExceptT.mk (Pure.pure (file.provider name (.parse reference)))
      Pure.pure (⟨declarations, Table.insert g.providers name p⟩ : Project.Gathered)) :=
    .bind (.known _) fun p => .pure _
  rw [Project.addProvider]
  split
  · exact .bind (.pure _) fun _ => hadd _ _
  · exact .bind (readAs _ _) fun _ => .bind (.pure _) fun _ => hadd _ _

/-- To find a provider may take reading another source, and no more. -/
theorem addProviders (root : Path) (files : List SourceFile) (g : Project.Gathered) (references : Table String) :
    ReadOnly (Project.addProviders root files g references) := by
  induction references generalizing g with
  | nil => exact .pure _
  | cons e rest ih => exact (addProvider root files g e.1 e.2).bind ih

/-- Loading a project reads only, so nothing is written until all of it has been read. -/
theorem projectLoad (root : Path) (c : Config) : ReadOnly (Project.load root c) := by
  refine .bind (.known _) fun rules => .bind (.known _) fun globs => .bind (.lift fun _ => rfl) fun scan => ?_
  exact (readFiles root scan scan.files).bind fun files =>
    (addProviders root files _ c.providers).bind fun g => .pure _

end ReadOnly

end RouteManifest
