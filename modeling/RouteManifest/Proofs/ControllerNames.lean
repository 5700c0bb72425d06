import RouteManifest.Proofs.Operations

/-!
# Operation ids and the names of controllers

The operation id of a handler that does not insist on one is its verb and the name of its controller without the ending
`Controller`. The name of a controller is some text with that ending put behind it, so taking the ending off once would
give the text back, and controllers of different names would never come to one operation id.

The ending is taken off as often as it is there. What is left does not end in `Controller` (`controllerStem_ne`), and it
is the same for two names just if they differ in nothing but how often `Controller` stands at their end
(`controllerStem_eq_iff`). So a file whose own name ends in `controller` is not told from the one that lacks it, and a
run over both is refused.
-/

namespace RouteManifest

variable {c : Catalog}

/-! ## Endings

The ending is taken off from behind, so texts are turned around to look at it. What is left over is characterised by
what it does not end in and by how it is got back. -/

/-- A text with the ending put behind it a number of times. -/
def withControllers (stem : String) : Nat → String
  | 0 => stem
  | n + 1 => withControllers stem n ++ "Controller"

/-- The letters of the ending, the last first. -/
def reversedEnding : List Char := "Controller".toList.reverse

theorem reverse_toList_append (s : String) :
    (s ++ "Controller").toList.reverse = reversedEnding ++ s.toList.reverse := by
  rw [String.toList_append, List.reverse_append, reversedEnding]

theorem ofList_reverse_append (cs : List Char) :
    String.ofList (reversedEnding ++ cs).reverse = String.ofList cs.reverse ++ "Controller" := by
  rw [← String.toList_inj, String.toList_append, String.toList_ofList, String.toList_ofList, List.reverse_append,
    reversedEnding, List.reverse_reverse]

/-- One ending is taken off. -/
theorem dropControllers_append (cs : List Char) : dropControllers (reversedEnding ++ cs) = dropControllers cs := by
  show dropControllers ('r' :: 'e' :: 'l' :: 'l' :: 'o' :: 'r' :: 't' :: 'n' :: 'o' :: 'C' :: cs) = _
  rw [dropControllers]

/-- What is left was followed by the ending some number of times, and is not any more. -/
theorem dropControllers_spec (cs : List Char) :
    (∃ n, String.ofList cs.reverse = withControllers (String.ofList (dropControllers cs).reverse) n) ∧
      ∀ rest, dropControllers cs ≠ reversedEnding ++ rest := by
  fun_induction dropControllers cs with
  | case1 rest ih =>
    obtain ⟨⟨n, hn⟩, hleft⟩ := ih
    refine ⟨⟨n + 1, ?_⟩, hleft⟩
    rw [withControllers, ← hn]
    exact ofList_reverse_append rest
  | case2 cs hnot => exact ⟨⟨0, rfl⟩, hnot⟩

/-- One more ending makes no difference. -/
theorem controllerStem_append (s : String) : controllerStem (s ++ "Controller") = controllerStem s := by
  rw [controllerStem, reverse_toList_append, dropControllers_append, controllerStem]

/-- However many endings there are, none makes a difference. -/
theorem controllerStem_withControllers (s : String) (n : Nat) :
    controllerStem (withControllers s n) = controllerStem s := by
  induction n with
  | zero => rfl
  | succ n ih => rw [withControllers, controllerStem_append, ih]

/-- A text is its stem with some endings behind it. -/
theorem exists_withControllers_controllerStem (s : String) : ∃ n, s = withControllers (controllerStem s) n := by
  obtain ⟨⟨n, hn⟩, -⟩ := dropControllers_spec s.toList.reverse
  rw [List.reverse_reverse, String.ofList_toList] at hn
  exact ⟨n, hn⟩

/-- No ending is left. -/
theorem controllerStem_ne (s t : String) : controllerStem s ≠ t ++ "Controller" := by
  intro h
  refine (dropControllers_spec s.toList.reverse).2 t.toList.reverse ?_
  rw [← reverse_toList_append, ← h, controllerStem, String.toList_ofList, List.reverse_reverse]

/-- A text keeps its letters just if it does not end in `Controller`. -/
theorem controllerStem_eq_self_iff {s : String} : controllerStem s = s ↔ ∀ t, s ≠ t ++ "Controller" := by
  constructor
  · intro h t
    rw [← h]
    exact controllerStem_ne s t
  · intro h
    obtain ⟨n, hn⟩ := exists_withControllers_controllerStem s
    cases n with
    | zero => exact hn.symm
    | succ n => exact absurd hn (h _)

theorem withControllers_add (s : String) (m n : Nat) :
    withControllers (withControllers s m) n = withControllers s (m + n) := by
  induction n with
  | zero => rfl
  | succ n ih => rw [withControllers, ih]; rfl

/-- Two texts have one stem just if they are the same with some endings put behind them. -/
theorem controllerStem_eq_iff {s s' : String} :
    controllerStem s = controllerStem s' ↔ ∃ n n', withControllers s n = withControllers s' n' := by
  constructor
  · intro h
    obtain ⟨n, hn⟩ := exists_withControllers_controllerStem s
    obtain ⟨n', hn'⟩ := exists_withControllers_controllerStem s'
    -- each gets the endings that the other has already
    refine ⟨n', n, ?_⟩
    rw [hn, hn', ← h, withControllers_add, withControllers_add, Nat.add_comm]
  · rintro ⟨n, n', h⟩
    rw [← controllerStem_withControllers s n, h, controllerStem_withControllers]

/-! ## Units with one handler

In a unit with one handler that is named after a verb, an operation id has no number behind it. So it tells the verb and
what is left of the controller's name. -/

namespace UrlRules

/-- What the controller of a unit is called, before its ending. -/
def controllerBase (rules : UrlRules) (unit : Path) : String :=
  let name := String.join ((rules.segments unit).map Text.upperCamel)
  if name.isEmpty then "Index" else name

/-- A controller's name ends in `Controller`. -/
theorem controllerName_eq (rules : UrlRules) (unit : Path) :
    rules.controllerName unit = rules.controllerBase unit ++ "Controller" := rfl

/-- The operation id that is made up for a verb in a unit that uses none yet. -/
def operationId (rules : UrlRules) (unit : Path) (verb : Verb) : String :=
  verb.text ++ controllerStem (rules.controllerName unit)

theorem operationId_eq (rules : UrlRules) (unit : Path) (verb : Verb) :
    rules.operationId unit verb = verb.text ++ controllerStem (rules.controllerBase unit) := by
  rw [operationId, controllerName_eq, controllerStem_append]

end UrlRules

/-- One handler of the unit is named after a verb, and it does not insist on an operation id. -/
def ControllerUnit.Sole (unit : ControllerUnit) (verb : Verb) : Prop :=
  ∃ h, unit.verbHandlers = [h] ∧ h.verb? = some verb ∧ h.operationId = none

section Sole

variable {rules : UrlRules} {unit : ControllerUnit} {verb : Verb}

/-- A unit without handlers that are named after a verb has no candidates. -/
theorem candidatesFrom_eq_nil {used : List String} {handlers : List Handler}
    (h : (handlers.filter fun h => (Verb.ofName? h.exportName).isSome) = []) :
    candidatesFrom rules unit used handlers = [] := by
  rw [← List.map_eq_nil_iff (f := Candidate.handler), handlers_candidatesFrom, h]

/-- A unit with one such handler has one candidate. -/
theorem candidatesFrom_sole {handlers : List Handler} {handler : Handler}
    (hsole : (handlers.filter fun h => (Verb.ofName? h.exportName).isSome) = [handler])
    (hverb : handler.verb? = some verb) (hid : handler.operationId = none) :
    candidatesFrom rules unit [] handlers = [⟨unit, verb, handler, rules.operationId unit.path verb⟩] := by
  induction handlers with
  | nil => cases hsole
  | cons first rest ih =>
    rw [candidatesFrom]
    split
    next hnone =>
      rw [List.filter_cons_of_neg (by rw [hnone]; decide)] at hsole
      exact ih hsole
    next other hother =>
      rw [List.filter_cons_of_pos (by rw [hother]; rfl)] at hsole
      obtain ⟨rfl, hrest⟩ := List.cons.inj hsole
      obtain rfl : other = verb := Option.some.inj (hother.symm.trans hverb)
      have hmade : operationIdFor [] (rules.controllerName unit.path) other first = rules.operationId unit.path other := by
        rw [operationIdFor, hid]
        exact Text.fresh_of_not_mem List.not_mem_nil
      simp only [hmade, candidatesFrom_eq_nil hrest]

/-- The one candidate of the unit has the operation id of the verb and the controller. -/
theorem ControllerUnit.Sole.candidates (h : unit.Sole verb) (rules : UrlRules) : ∃ handler,
    candidatesFrom rules unit [] unit.handlers = [⟨unit, verb, handler, rules.operationId unit.path verb⟩] := by
  obtain ⟨handler, hsole, hverb, hid⟩ := h
  exact ⟨handler, candidatesFrom_sole hsole hverb hid⟩

/-- The routes of the unit have that operation id, whatever state they are made in. -/
theorem ControllerUnit.Sole.routes (h : unit.Sole verb) {providers : Providers} {r r' : Resolver c} {u : UnitRoutes}
    (hrun : (extractUnit rules providers unit).run r = (.ok u, r')) :
    ∀ route ∈ u.routes, route.operationId = rules.operationId unit.path verb := by
  obtain ⟨handler, hcandidates⟩ := h.candidates rules
  have hends := @extractHandlers_ends c rules providers unit [] unit.handlers r _ rfl
  rw [extractUnit] at hrun
  rcases hfatal : fatal? (attempts rules providers (candidatesFrom rules unit [] unit.handlers) r).1 with _ | fault
  · obtain ⟨u', ⟨hroutes, -⟩, hu⟩ := hends.goes hfatal
    obtain rfl : u' = u := Except.ok.inj (congrArg Prod.fst (hu.symm.trans hrun))
    intro route hroute
    rw [hroutes, routesOf, List.mem_filterMap] at hroute
    obtain ⟨outcome, houtcome, hok⟩ := hroute
    obtain ⟨a, ha, rfl⟩ := List.mem_map.mp houtcome
    -- every route comes from a candidate, and there is one
    have hcandidate := List.mem_map_of_mem (f := Attempt.candidate) ha
    rw [candidates_attempts, hcandidates, List.mem_singleton] at hcandidate
    have hroute : a.outcome = .ok route := by
      rcases hout : a.outcome with fault | other
      · rw [hout] at hok
        cases hok
      · rw [hout] at hok
        exact congrArg Except.ok (Option.some.inj hok)
    rw [operationId_attempts ha hroute, hcandidate]
  · have hfails := hends.fails fault hfatal
    rw [hrun] at hfails
    cases hfails

/-- Of two units that come to one operation id only one can be part of a run that succeeds. -/
theorem ControllerUnit.Sole.clash {unit' : ControllerUnit} (h : unit.Sole verb) (h' : unit'.Sole verb)
    (hne : unit ≠ unit') (hid : rules.operationId unit.path verb = rules.operationId unit'.path verb)
    {providers : Providers} {units : List ControllerUnit} (hunit : unit ∈ units) (hunit' : unit' ∈ units) (o : Output) :
    generate c rules providers units ≠ .ok o := by
  intro hok
  obtain ⟨-, hnodup⟩ := routes_of_generate hok
  obtain ⟨handler, hcandidates⟩ := h.candidates rules
  obtain ⟨handler', hcandidates'⟩ := h'.candidates rules
  have hmem : ⟨unit, verb, handler, rules.operationId unit.path verb⟩ ∈ RouteManifest.candidates rules (sortByPath units) := by
    refine List.mem_flatMap.mpr ⟨unit, (sortByPath_perm units).mem_iff.mpr hunit, ?_⟩
    rw [hcandidates]
    exact List.mem_singleton_self _
  have hmem' : ⟨unit', verb, handler', rules.operationId unit'.path verb⟩ ∈
      RouteManifest.candidates rules (sortByPath units) := by
    refine List.mem_flatMap.mpr ⟨unit', (sortByPath_perm units).mem_iff.mpr hunit', ?_⟩
    rw [hcandidates']
    exact List.mem_singleton_self _
  exact hne (congrArg Candidate.unit (List.inj_on_of_nodup_map hnodup hmem hmem' hid))

end Sole

/-! ## Runs over such units

The operation ids of routes, when they differ, and what becomes of a run in which they do not. -/

/-- Operation ids of units that have one handler of a verb each, which insists on none. The operation id of a unit is the
verb and what is left of its controller's name when every `Controller` is taken off the end, and every route of the unit
has it. That is the verb and the name without its ending, just if the name has the ending only once. Two units have one
operation id just if their controllers' names differ in nothing but the number of endings, and then no run over both
succeeds. So where no controller's name has the ending twice, operation ids are the same only if the names are. -/
theorem operationIds_of_sole (rules : UrlRules) {verb : Verb} {unit unit' : ControllerUnit} (h : unit.Sole verb)
    (h' : unit'.Sole verb) :
    let base := rules.controllerBase unit.path
    let base' := rules.controllerBase unit'.path
    let id := verb.text ++ controllerStem base
    let id' := verb.text ++ controllerStem base'
    ((candidates rules [unit]).map Candidate.operationId = [id] ∧
      ∀ (c : Catalog) (providers : Providers) (r r' : Resolver c) (u : UnitRoutes),
        (extractUnit rules providers unit).run r = (.ok u, r') → ∀ route ∈ u.routes, route.operationId = id) ∧
    (id = verb.text ++ base ↔ ∀ t, base ≠ t ++ "Controller") ∧
    (id = id' ↔ ∃ n n', withControllers base n = withControllers base' n') ∧
    (id = id' → unit ≠ unit' → ∀ (c : Catalog) (providers : Providers) (units : List ControllerUnit), unit ∈ units →
      unit' ∈ units → ∀ o, generate c rules providers units ≠ .ok o) ∧
    ((∀ t, base ≠ t ++ "Controller") → (∀ t, base' ≠ t ++ "Controller") →
      (id = id' ↔ rules.controllerName unit.path = rules.controllerName unit'.path)) := by
  intro base base' id id'
  have hid : rules.operationId unit.path verb = id := rules.operationId_eq unit.path verb
  have hid' : rules.operationId unit'.path verb = id' := rules.operationId_eq unit'.path verb
  have hstems : id = id' ↔ controllerStem base = controllerStem base' := String.append_right_inj verb.text
  refine ⟨⟨?_, fun c providers r r' u hrun => ?_⟩, ?_, ?_, fun heq hne c providers units hunit hunit' => ?_,
    fun hbase hbase' => ?_⟩
  · obtain ⟨handler, hcandidates⟩ := h.candidates rules
    rw [candidates, List.flatMap_singleton, hcandidates, ← hid]
    rfl
  · exact hid ▸ h.routes hrun
  · exact (String.append_right_inj verb.text).trans controllerStem_eq_self_iff
  · exact hstems.trans controllerStem_eq_iff
  · exact h.clash h' hne (hid.trans (heq.trans hid'.symm)) hunit hunit'
  · rw [hstems, controllerStem_eq_self_iff.mpr hbase, controllerStem_eq_self_iff.mpr hbase']
    exact (String.append_left_inj "Controller").symm

/-- A unit with one handler. -/
def getUnit (path : String) : ControllerUnit where
  path := ⟨path⟩
  handlers := [{ exportName := "get", location := ⟨⟨path⟩, 1, 0⟩ }]

/-- Two files that have nothing to do with each other come to one operation id, and are refused together. -/
theorem operationIds_of_users :
    let rules : UrlRules := ⟨⟨""⟩, .empty⟩
    let users := getUnit "users.rs"
    let usersController := getUnit "users_controller.rs"
    rules.controllerName users.path = "UsersController" ∧
    rules.controllerName usersController.path = "UsersControllerController" ∧
    (candidates rules [users]).map Candidate.operationId = ["getUsers"] ∧
    (candidates rules [usersController]).map Candidate.operationId = ["getUsers"] ∧
    ∀ o, generate {} rules [] [users, usersController] ≠ .ok o := by
  intro rules users usersController
  have h : users.Sole .get := ⟨_, rfl, rfl, rfl⟩
  have h' : usersController.Sole .get := ⟨_, rfl, rfl, rfl⟩
  have hname : rules.controllerBase users.path = "Users" := by decide +kernel
  have hname' : rules.controllerBase usersController.path = "UsersController" := by decide +kernel
  obtain ⟨⟨hid, -⟩, -, hiff, hclash, -⟩ := operationIds_of_sole rules h h'
  obtain ⟨⟨hid', -⟩, -⟩ := operationIds_of_sole rules h' h'
  rw [hname, hname'] at hiff hclash
  rw [hname] at hid
  rw [hname'] at hid'
  have hne : users ≠ usersController := by
    intro heq
    rw [heq] at hname
    exact absurd (hname.symm.trans hname') (by decide)
  refine ⟨by rw [rules.controllerName_eq, hname]; rfl, by rw [rules.controllerName_eq, hname']; rfl, hid, hid', ?_⟩
  exact hclash (hiff.mpr ⟨1, 0, rfl⟩) hne {} [] _ List.mem_cons_self (List.mem_cons_of_mem _ List.mem_cons_self)

end RouteManifest
