import RouteManifest.CommandLine.Run
import RouteManifest.Proofs.Files.Computation
import RouteManifest.Proofs.Files.Tree

/-!
# What commands write

A command first finds out what it is going to write and to print (`Command.plan`), and this only reads. Then it
writes the documents of its plan from left to right (`Command.run_eq`) and stops at the first that cannot be
written: those in front of it have been written, the others have not, and no other file has changed
(`ends_writeAll`).

So whether a failed command has changed a file depends on the document that it failed at
(`Command.run_effect`): nothing has changed unless it is the OpenAPI document, and then the manifest is there.
-/

namespace RouteManifest

namespace CommandLine

/-! ## Documents

The plan of a command is a list of documents, each with its path and its text. Everything about failing half way can be
said of this list. -/

/-- The documents of an output, where each is written and its text: the manifest, and the OpenAPI document if
one is asked for. -/
def documentsOf (root : Path) (c : Config) (o : Output) : List (Path × String) :=
  (root.join c.manifest.output, c.manifest.format.print o.toJson) ::
    (c.openApi.map fun a =>
      let p := root.join a.output
      (p, (DocumentFormat.ofPath p).print (OpenApi.ofOutput a.info o).toJson)).toList

section

variable {m : Type → Type} [Monad m] [Storage m]

/-- Writes documents from left to right. -/
def writeAll : List (Path × String) → ExceptT Failure m Unit
  | [] => return ()
  | (p, text) :: rest => do
    writeDocument p text
    writeAll rest

/-- What a command is going to write and to print. -/
def Command.plan : Command → ExceptT Failure m (List (Path × String) × String)
  | .output config => do
    let c ← orFail (.unusableConfig config) (Config.load config)
    return ([], ((rootOf config).join c.manifest.output).text ++ "\n")
  | .generate config manifest format openApi => do
    let c ← orFail (.unusableConfig config) (Config.load config)
    let c := withOptions c manifest format openApi
    let project ← orFail (.unusableProject (rootOf config)) (Project.load (rootOf config) c)
    match project.generate with
    | .error faults => throw (.faults faults)
    | .ok o => return (documentsOf (rootOf config) c o, "")

variable [LawfulMonad m]

/-- An output is written as the documents of it, from left to right. -/
theorem writeOutput_eq (root : Path) (c : Config) (o : Output) :
    writeOutput (m := m) root c o = writeAll (documentsOf root c o) := by
  rw [writeOutput, documentsOf, writeAll]
  cases c.openApi <;> simp [writeAll]

/-- A command carries its plan out. -/
theorem Command.run_eq (c : Command) :
    c.run (m := m) = do
      let plan ← c.plan
      writeAll plan.1
      return plan.2 := by
  cases c with
  | output config => simp [run, plan, writeAll]
  | generate config manifest format openApi =>
    simp only [run, plan, generateIn, bind_assoc]
    refine bind_congr fun c => bind_congr fun project => ?_
    cases project.generate with
    | error faults => exact ExceptT.ext (by simp)
    | ok o => simp [writeOutput_eq]

end

/-! ## Finding out what to write

Planning is the part of a command that reads. It is put together from the readers of files and from computations that
look at nothing. -/

/-- A fault is reported as a failure, and the tree is what the fault has left. -/
theorem run_orFail {ε α : Type} (failure : ε → Failure) (x : ExceptT ε (StateM FileTree) α) (t : FileTree) :
    t.run (orFail failure x) = match t.run x with
      | (.ok a, t') => (.ok a, t')
      | (.error e, t') => (.error (failure e), t') := by
  unfold FileTree.run
  rw [orFail, ExceptT.run_mk, StateT.run_bind, Id.run_bind]
  cases Id.run (StateT.run x.run t) with
  | mk result t' => cases result <;> rfl

/-- Reporting a fault changes nothing about how a computation ends. -/
theorem ends_orFail {ε α : Type} {failure : ε → Failure} {x : ExceptT ε (StateM FileTree) α} {t : FileTree}
    {returned : α → FileTree → Prop} {failed : Failure → FileTree → Prop}
    (h : t.Ends x returned fun e t' => failed (failure e) t') : t.Ends (orFail failure x) returned failed := by
  have hrun := run_orFail failure x t
  cases hx : t.run x with
  | mk result t' =>
    rw [hx] at hrun
    cases result with
    | ok a => exact .of_ok hrun (h.returned a t' hx)
    | error e => exact .of_error hrun (h.failed e t' hx)

/-- Reporting a fault reads nothing. -/
theorem readOnly_orFail {ε α : Type} {failure : ε → Failure} {x : ExceptT ε (StateM FileTree) α}
    (h : ReadOnly x) : ReadOnly (orFail failure x) := by
  intro t
  rw [run_orFail, h.run_eq]
  cases (t.run x).1 <;> rfl

/-- Before anything is written, a command only reads. -/
theorem Command.plan_readOnly (c : Command) : ReadOnly c.plan := by
  cases c with
  | output config => exact (readOnly_orFail (.configLoad config)).bind fun c => .pure _
  | generate config manifest format openApi =>
    refine (readOnly_orFail (.configLoad config)).bind fun c =>
      (readOnly_orFail (.projectLoad _ _)).bind fun project => ?_
    cases project.generate with
    | error faults => exact .throw _
    | ok o => exact .pure _

theorem length_documentsOf (root : Path) (c : Config) (o : Output) : (documentsOf root c o).length ≤ 2 := by
  rw [documentsOf]
  cases c.openApi <;> simp

/-- No command writes more than two documents. -/
theorem Command.length_plan (c : Command) (t : FileTree) :
    t.Ends c.plan (fun plan _ => plan.1.length ≤ 2) fun _ _ => True := by
  cases c with
  | output config => exact (FileTree.Ends.trivial t _).bind fun c t' _ => .pure (Nat.zero_le 2)
  | generate config manifest format openApi =>
    refine (FileTree.Ends.trivial t _).bind fun c t' _ =>
      (FileTree.Ends.trivial t' _).bind fun project t'' _ => ?_
    cases project.generate with
    | error faults => exact .throw True.intro
    | ok o => exact .pure (length_documentsOf (rootOf config) _ o)

/-! ## Writing it

The documents in front of the one that fails are written, and the failure names the path of that one. -/

/-- The failure is about writing to a path: to the file itself, or to the directory that it lies in. -/
def Failure.Concerns (p : Path) : Failure → Prop
  | .noDirectory directory _ => p.parent? = some directory
  | .notWritten file _ => file = p
  | .unusableConfig _ _ | .unusableProject _ _ | .faults _ => False

/-- A document that is written changes its own file only; one that is not written changes none. -/
theorem ends_writeDocument (p : Path) (text : String) (t : FileTree) :
    t.Ends (writeDocument p text) (fun _ t' => t.Written [(p, text)] t')
      (fun failure t' => t.Written [] t' ∧ failure.Concerns p) := by
  have hwrite (made : FileTree) (hmade : t.Written [] made) :
      made.Ends (orFail (.notWritten p) (ExceptT.mk (Storage.writeText p text)))
        (fun _ t' => t.Written [(p, text)] t') (fun failure t' => t.Written [] t' ∧ failure.Concerns p) :=
    ends_orFail ((made.ends_writeText p text).imp (fun _ _ h => hmade.trans h) fun _ _ h => ⟨h ▸ hmade, rfl⟩)
  rw [writeDocument]
  cases hparent : p.parent? with
  | none => exact hwrite t (.refl t)
  | some directory =>
    have hdirectories : t.Ends (orFail (.noDirectory directory) (ExceptT.mk (Storage.createDirectories directory)))
        (fun _ t' => t.Written [] t') (fun failure t' => t.Written [] t' ∧ failure.Concerns p) :=
      ends_orFail ((t.ends_createDirectories directory).imp (fun _ _ h => h) fun _ _ h => ⟨h, hparent⟩)
    exact hdirectories.bind fun _ made hmade => hwrite made hmade

/-- Writing documents stops at the first that cannot be written. Those in front of it have been written then, and
nothing else has changed. -/
theorem ends_writeAll (documents : List (Path × String)) (t : FileTree) :
    t.Ends (writeAll documents) (fun _ t' => t.Written documents t') (fun failure t' =>
      ∃ written next rest, documents = written ++ next :: rest ∧ t.Written written t' ∧
        failure.Concerns next.1) := by
  induction documents generalizing t with
  | nil => exact .pure (.refl t)
  | cons d rest ih =>
    obtain ⟨p, text⟩ := d
    have hfirst : t.Ends (writeDocument p text) (fun _ t' => t.Written [(p, text)] t') (fun failure t' =>
        ∃ written next more, (p, text) :: rest = written ++ next :: more ∧ t.Written written t' ∧
          failure.Concerns next.1) :=
      (ends_writeDocument p text t).imp (fun _ _ h => h) fun _ _ h => ⟨[], (p, text), rest, rfl, h⟩
    refine hfirst.bind fun _ t' hwritten => (ih t').imp (fun _ _ h => hwritten.trans h) ?_
    rintro failure t'' ⟨written, next, more, rfl, hmore, hconcerns⟩
    exact ⟨(p, text) :: written, next, more, rfl, hwritten.trans hmore, hconcerns⟩

/-! ## Running a command

A plan has two documents at most, so where a failure has changed a file it was the second that failed. -/

/-- A command that returns has written its plan. One that fails has no plan, or has written the part of it in
front of the document that it fails at. -/
theorem Command.ends_run (c : Command) (t : FileTree) :
    t.Ends c.run
      (fun printed t' => ∃ documents, t.run c.plan = (.ok (documents, printed), t) ∧ t.Written documents t')
      (fun failure t' => (t.run c.plan = (.error failure, t) ∧ t' = t) ∨
        ∃ written next rest printed, t.run c.plan = (.ok (written ++ next :: rest, printed), t) ∧
          t.Written written t' ∧ failure.Concerns next.1) := by
  rw [run_eq]
  refine ((c.plan_readOnly.ends t).imp (fun _ _ h => h) fun _ _ h => .inl ⟨h.2, h.1⟩).bind ?_
  rintro ⟨documents, printed⟩ t' ⟨rfl, hplan⟩
  refine ((ends_writeAll documents t').imp (fun _ _ h => h) ?_).bind fun _ t'' hwritten =>
    .pure ⟨documents, hplan, hwritten⟩
  rintro failure t'' ⟨written, next, rest, rfl, hwritten, hconcerns⟩
  exact .inr ⟨written, next, rest, printed, hplan, hwritten, hconcerns⟩

/-- What a command leaves. A command that returns has written its whole plan and changed no other file. A command
that fails before it writes leaves the tree as it is; one that fails at the manifest changes no file; one that
fails at the OpenAPI document has written the manifest and changed no other file. There is no other way to
fail. -/
theorem Command.run_effect (c : Command) (t : FileTree) :
    t.Ends c.run
      (fun printed t' => ∃ documents, t.run c.plan = (.ok (documents, printed), t) ∧ t.Written documents t')
      (fun failure t' =>
        (t.run c.plan = (.error failure, t) ∧ t' = t) ∨
        (∃ manifest rest printed, t.run c.plan = (.ok (manifest :: rest, printed), t) ∧
          (∀ place, t'.textAt? place = t.textAt? place) ∧ failure.Concerns manifest.1) ∨
        ∃ manifest openApi printed, t.run c.plan = (.ok ([manifest, openApi], printed), t) ∧
          t.Written [manifest] t' ∧ t'.readText manifest.1 = .ok manifest.2 ∧ failure.Concerns openApi.1) := by
  refine (c.ends_run t).imp (fun _ _ h => h) ?_
  rintro failure t' (⟨hplan, hsame⟩ | ⟨written, next, rest, printed, hplan, hwritten, hconcerns⟩)
  · exact .inl ⟨hplan, hsame⟩
  · have hlength := (c.length_plan t).returned _ _ hplan
    match written, rest with
    | [], rest => exact .inr (.inl ⟨next, rest, printed, hplan, (FileTree.written_nil_iff.mp hwritten).2, hconcerns⟩)
    | [manifest], [] =>
      exact .inr (.inr ⟨manifest, next, printed, hplan, hwritten, hwritten.readText rfl, hconcerns⟩)
    | [_], _ :: _ => simp at hlength
    | _ :: _ :: _, _ => simp at hlength

/-- A project without routes in which a manifest lies from before. -/
def staleProject : FileTree := .directory [("routes.json", .file "old"), ("src", .directory [("models.rs", .file "")])]

/-- Asks for an OpenAPI document where the directory of the sources is. -/
def generateOverSources : Command := .generate ⟨"controllers.json"⟩ none none (some ⟨"src"⟩)

/-- A failed command can have changed a file: here the manifest is replaced before the OpenAPI document turns out to
have no place. -/
theorem Command.failed_run_can_write :
    ¬ ∀ (c : Command) (t : FileTree), t.Ends c.run (fun _ _ => True)
      fun _ t' => ∀ place, t'.textAt? place = t.textAt? place := by
  intro h
  have hfailed : (staleProject.run generateOverSources.run).1.isOk = false := by decide +kernel
  have hchanged : (staleProject.run generateOverSources.run).2.textAt? ["routes.json"]
      ≠ staleProject.textAt? ["routes.json"] := by decide +kernel
  have hsame := (h generateOverSources staleProject).failed
  revert hfailed hchanged hsame
  generalize staleProject.run generateOverSources.run = ended
  obtain ⟨result, left⟩ := ended
  intro hfailed hchanged hsame
  cases result with
  | ok printed => cases hfailed
  | error failure => exact hchanged (hsame failure left rfl ["routes.json"])

end CommandLine

end RouteManifest
