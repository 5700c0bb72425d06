import RouteManifest.Binding.Basic
import Mathlib.Data.List.Forall2

/-!
# The order of the providers

A provider of a route has a position in the forest of its bindings: a path of numbers, the place of a parameter of the
handler first, then that of a parameter of its provider, and so on. Post-order is an order of positions
(`Position.Before`): what is under a provider comes before it, and otherwise the first place where two paths part
decides. The steps of bindings are their providers in that order (`stepsOf_inPostOrder`).

The runner of the steps can keep a state, so what counts is which calls it gets: `Calls` relates a state before calls
with the calls, the answers among them, and the state after them.
-/

namespace RouteManifest

/-! ## Positions

A path says at each level which parameter to go to. One path extends another if it leads into the provider at the end of
that one. -/

namespace Position

/-- Post-order of paths. -/
inductive Before : List Nat → List Nat → Prop where
  /-- what is under a position comes before it -/
  | under {i : Nat} {p : List Nat} : Before (i :: p) []
  | left {i j : Nat} {p q : List Nat} : i < j → Before (i :: p) (j :: q)
  | next {i : Nat} {p q : List Nat} : Before p q → Before (i :: p) (i :: q)

/-- The same path from one place further on. -/
def further : List Nat → List Nat
  | [] => []
  | i :: p => (i + 1) :: p

/-- Moving two paths one place further keeps their order. -/
theorem Before.further {p q : List Nat} (h : Before p q) : Before (further p) (further q) := by
  cases h with
  | under => exact .under
  | left hij => exact .left (Nat.succ_lt_succ hij)
  | next h => exact .next h

/-- A path into the first tree comes before all paths into the others. -/
theorem before_further (p q : List Nat) : Before (0 :: p) (further q) := by
  cases q with
  | nil => exact .under
  | cons j q => exact .left (Nat.succ_pos j)

end Position

open Position

namespace Binding

/-- The provider of the binding, if it has one. -/
def step? : Binding → Option ProviderStep
  | .request _ _ _ _ => none
  | .provided name _ target mayAbort dependencies => some ⟨name, target, mayAbort, dependencies⟩

/-- A binding without a provider has no steps. -/
theorem steps_eq_nil {b : Binding} (h : b.step? = none) : b.steps = [] := by
  cases b with
  | request => rfl
  | provided => cases h

/-- The providers of bindings with their positions. -/
inductive StepAt : List Binding → List Nat → ProviderStep → Prop where
  | top {bs : List Binding} {i : Nat} {b : Binding} {step : ProviderStep} :
      bs[i]? = some b → b.step? = some step → StepAt bs [i] step
  | under {bs : List Binding} {i : Nat} {b : Binding} {step inner : ProviderStep} {path : List Nat} :
      bs[i]? = some b → b.step? = some step → StepAt step.dependencies path inner → StepAt bs (i :: path) inner

namespace StepAt

variable {b : Binding} {bs : List Binding} {path : List Nat} {step : ProviderStep}

theorem ne_nil (h : StepAt bs path step) : path ≠ [] := by
  cases h with
  | top => exact List.cons_ne_nil _ _
  | under => exact List.cons_ne_nil _ _

theorem further (h : StepAt bs path step) : StepAt (b :: bs) (further path) step := by
  cases h with
  | top hb hstep => exact .top (by rwa [List.getElem?_cons_succ]) hstep
  | under hb hstep hinner => exact .under (by rwa [List.getElem?_cons_succ]) hstep hinner

/-- A provider in the trees of several bindings is in the tree of the first, or in those of the others. -/
theorem cons_cases (h : StepAt (b :: bs) path step) :
    (∃ first, b.step? = some first ∧
        (path = [0] ∧ step = first ∨ ∃ q, path = 0 :: q ∧ StepAt first.dependencies q step)) ∨
      ∃ q, path = Position.further q ∧ StepAt bs q step := by
  cases h with
  | @top _ i _ _ hb hstep =>
    cases i with
    | zero =>
      cases hb
      exact Or.inl ⟨_, hstep, Or.inl ⟨rfl, rfl⟩⟩
    | succ i => exact Or.inr ⟨[i], rfl, .top (by rwa [List.getElem?_cons_succ] at hb) hstep⟩
  | @under _ i _ _ _ q hb hstep hinner =>
    cases i with
    | zero =>
      cases hb
      exact Or.inl ⟨_, hstep, Or.inr ⟨q, rfl, hinner⟩⟩
    | succ i => exact Or.inr ⟨i :: q, rfl, .under (by rwa [List.getElem?_cons_succ] at hb) hstep hinner⟩

end StepAt

/-! ## Post-order

The steps of a list of bindings are those of the first one, its own step last, and then those of the others. By this the
positions come out in order, level by level. -/

/-- Steps are the providers in the trees of bindings, each once, in the order of their positions. -/
structure InPostOrder (bs : List Binding) (paths : List (List Nat)) (steps : List ProviderStep) : Prop where
  sorted : paths.Pairwise Before
  found : List.Forall₂ (StepAt bs) paths steps
  all : ∀ {path step}, StepAt bs path step → path ∈ paths

namespace InPostOrder

variable {b : Binding} {bs : List Binding} {paths inner : List (List Nat)} {steps innerSteps : List ProviderStep}

theorem nil : InPostOrder [] [] [] where
  sorted := .nil
  found := .nil
  all := by
    intro _ _ h
    cases h with
    | top hb => cases hb
    | under hb => cases hb

/-- The paths of the providers are not empty. -/
theorem ne_nil (h : InPostOrder bs paths steps) {path : List Nat} (hpath : path ∈ paths) : path ≠ [] := by
  obtain ⟨i, hi, rfl⟩ := List.getElem_of_mem hpath
  exact (h.found.get hi (h.found.length_eq ▸ hi)).ne_nil

/-- A binding without a provider has no part in it. -/
theorem skip (h : InPostOrder bs paths steps) (hb : b.step? = none) :
    InPostOrder (b :: bs) (paths.map further) steps where
  sorted := List.pairwise_map.mpr (h.sorted.imp Before.further)
  found := List.forall₂_map_left_iff.mpr (h.found.imp fun _ _ => StepAt.further)
  all := by
    intro _ _ hstep
    rcases hstep.cons_cases with ⟨_, hfirst, -⟩ | ⟨q, rfl, hq⟩
    · rw [hb] at hfirst
      cases hfirst
    · exact List.mem_map_of_mem (h.all hq)

/-- The steps of a provider come first, then those of the other bindings. -/
theorem provided {first : ProviderStep} (hinner : InPostOrder first.dependencies inner innerSteps)
    (h : InPostOrder bs paths steps) (hb : b.step? = some first) :
    InPostOrder (b :: bs) (inner.map (0 :: ·) ++ [0] :: paths.map further) (innerSteps ++ first :: steps) where
  sorted := by
    -- what is under the provider comes before it, and what is beside it comes after
    refine List.pairwise_append.mpr ⟨?_, List.pairwise_cons.mpr ⟨?_, ?_⟩, ?_⟩
    · exact List.pairwise_map.mpr (hinner.sorted.imp .next)
    · intro path hpath
      obtain ⟨q, -, rfl⟩ := List.mem_map.mp hpath
      exact before_further [] q
    · exact List.pairwise_map.mpr (h.sorted.imp Before.further)
    · intro path hpath other hother
      obtain ⟨p, hp, rfl⟩ := List.mem_map.mp hpath
      rcases List.mem_cons.mp hother with rfl | hother
      · obtain ⟨i, p, rfl⟩ := List.exists_cons_of_ne_nil (hinner.ne_nil hp)
        exact .next .under
      · obtain ⟨q, -, rfl⟩ := List.mem_map.mp hother
        exact before_further p q
  found := by
    refine List.rel_append ?_ (.cons (.top rfl hb) ?_)
    · exact List.forall₂_map_left_iff.mpr (hinner.found.imp fun _ _ => .under rfl hb)
    · exact List.forall₂_map_left_iff.mpr (h.found.imp fun _ _ => StepAt.further)
  all := by
    intro _ _ hstep
    rw [List.mem_append, List.mem_cons]
    rcases hstep.cons_cases with ⟨first', hfirst, h₁⟩ | ⟨q, rfl, hq⟩
    · obtain rfl := Option.some.inj (hfirst.symm.trans hb)
      rcases h₁ with ⟨rfl, -⟩ | ⟨q, rfl, hq⟩
      · exact Or.inr (Or.inl rfl)
      · exact Or.inl (List.mem_map_of_mem (hinner.all hq))
    · exact Or.inr (Or.inr (List.mem_map_of_mem (h.all hq)))

end InPostOrder

/-- The steps of bindings are their providers in post-order. -/
theorem stepsOf_inPostOrder : (bs : List Binding) → ∃ paths, InPostOrder bs paths (stepsOf bs)
  | [] => ⟨[], .nil⟩
  | .request name node field schema :: rest => by
    obtain ⟨paths, h⟩ := stepsOf_inPostOrder rest
    exact ⟨_, h.skip rfl⟩
  | .provided name node target mayAbort dependencies :: rest => by
    obtain ⟨inner, hinner⟩ := stepsOf_inPostOrder dependencies
    obtain ⟨paths, h⟩ := stepsOf_inPostOrder rest
    rw [stepsOf, steps, List.append_assoc]
    exact ⟨_, hinner.provided h rfl⟩

/-- Right before a step come the steps of its dependencies. -/
theorem stepsOf_dependencies_suffix : (bs : List Binding) → {before after : List ProviderStep} → {step : ProviderStep} →
    stepsOf bs = before ++ step :: after → stepsOf step.dependencies <:+ before
  | [], _, _, _, h => absurd (congrArg List.length h) (by simp [stepsOf])
  | .request _ _ _ _ :: rest, _, _, _, h => stepsOf_dependencies_suffix rest h
  | .provided name _ target mayAbort dependencies :: rest, before, after, step, h => by
    -- the step is of another binding, or that of the provider itself, or one of its dependencies
    rw [stepsOf, steps, List.append_assoc, List.singleton_append] at h
    rcases List.append_eq_append_iff.mp h with ⟨more, rfl, h₁⟩ | ⟨more, hbefore, h₁⟩
    · rcases more with _ | ⟨first, more⟩
      · obtain ⟨rfl, -⟩ := List.cons.inj h₁
        exact ⟨[], (List.append_nil _).symm⟩
      · obtain ⟨-, h₂⟩ := List.cons.inj h₁
        exact (stepsOf_dependencies_suffix rest h₂).trans ((List.suffix_cons _ _).trans (List.suffix_append _ _))
    · rcases more with _ | ⟨first, more⟩
      · obtain ⟨rfl, -⟩ := List.cons.inj h₁
        exact ⟨[], hbefore.trans (List.append_nil _)⟩
      · obtain ⟨rfl, -⟩ := List.cons.inj h₁
        exact stepsOf_dependencies_suffix dependencies hbefore

end Binding

/-! ## The calls of a runner

A runner answers each step with a value or by aborting, and may keep a state in between. Nothing is assumed of it, so
what is shown of the calls holds for every runner. -/

section Driver

variable {σ α : Type} {run : ProviderStep → StateM σ (Outcome α)}

/-- Calls of a runner, one after another, from one state to another. -/
inductive Calls (run : ProviderStep → StateM σ (Outcome α)) : σ → List (ProviderStep × Outcome α) → σ → Prop where
  | nil {s : σ} : Calls run s [] s
  | cons {step : ProviderStep} {s s' s'' : σ} {outcome : Outcome α} {log : List (ProviderStep × Outcome α)} :
      (run step).run s = (outcome, s') → Calls run s' log s'' → Calls run s ((step, outcome) :: log) s''

/-- The calls are those of the steps in order, up to and including the first that aborts; the answer is that one aborts,
or else all values in order. -/
inductive Driven (steps : List ProviderStep) : List (ProviderStep × Outcome α) → Outcome (List α) → Prop where
  | proceed {log : List (ProviderStep × Outcome α)} (values : List α) :
      log.map Prod.fst = steps → log.map Prod.snd = values.map .proceed → Driven steps log (.proceed values)
  | aborted (log : List (ProviderStep × Outcome α)) (values : List α) {step : ProviderStep} {after : List ProviderStep} :
      steps = log.map Prod.fst ++ step :: after → log.map Prod.snd = values.map .proceed →
      Driven steps (log ++ [(step, .aborted)]) .aborted

/-- The answer if a first step has proceeded with a value. -/
def Outcome.cons (value : α) : Outcome (List α) → Outcome (List α)
  | .aborted => .aborted
  | .proceed values => .proceed (value :: values)

/-- If the first step proceeds, the rest is driven as it would be without it. -/
theorem Driven.cons {steps : List ProviderStep} {log : List (ProviderStep × Outcome α)} {outcome : Outcome (List α)}
    (h : Driven steps log outcome) (step : ProviderStep) (value : α) :
    Driven (step :: steps) ((step, .proceed value) :: log) (outcome.cons value) := by
  cases h with
  | proceed values hsteps hvalues =>
    exact .proceed (value :: values) (congrArg (step :: ·) hsteps) (congrArg (Outcome.proceed value :: ·) hvalues)
  | aborted log values hsteps hvalues =>
    exact .aborted ((step, .proceed value) :: log) (value :: values) (congrArg (step :: ·) hsteps)
      (congrArg (Outcome.proceed value :: ·) hvalues)

/-- The answer is that one aborts if and only if a call has aborted. -/
theorem Driven.eq_aborted_iff {steps : List ProviderStep} {log : List (ProviderStep × Outcome α)}
    {outcome : Outcome (List α)} (h : Driven steps log outcome) :
    outcome = .aborted ↔ ∃ step, (step, Outcome.aborted) ∈ log := by
  cases h with
  | proceed values _ hvalues =>
    refine ⟨nofun, fun ⟨step, hmem⟩ => ?_⟩
    have habort : Outcome.aborted ∈ values.map Outcome.proceed := hvalues ▸ List.mem_map_of_mem (f := Prod.snd) hmem
    obtain ⟨_, -, hvalue⟩ := List.mem_map.mp habort
    cases hvalue
  | @aborted _ _ last => exact ⟨fun _ => ⟨last, List.mem_append_right _ List.mem_cons_self⟩, fun _ => rfl⟩

section Cons

variable {step : ProviderStep} {rest : List ProviderStep} {s s' : σ}

/-- A first step that aborts is the last one. -/
theorem run_runSteps_of_aborted (h : (run step).run s = (.aborted, s')) :
    (runSteps run (step :: rest)).run s = (.aborted, s') := by
  simp only [runSteps, StateT.run_bind, h]
  rfl

theorem run_runSteps_of_proceed {value : α} (h : (run step).run s = (.proceed value, s')) :
    (runSteps run (step :: rest)).run s =
      (((runSteps run rest).run s').1.cons value, ((runSteps run rest).run s').2) := by
  simp only [runSteps, StateT.run_bind, h]
  show StateT.run (runSteps run rest >>= _) s' = _
  rw [StateT.run_bind]
  rcases (runSteps run rest).run s' with ⟨_ | _, _⟩ <;> rfl

end Cons

/-- For every runner, whatever state it keeps: it is called with the steps in order, up to and including the first that
aborts. -/
theorem runSteps_calls (run : ProviderStep → StateM σ (Outcome α)) (steps : List ProviderStep) (s : σ) :
    ∃ log, Calls run s log ((runSteps run steps).run s).2 ∧ Driven steps log ((runSteps run steps).run s).1 := by
  induction steps generalizing s with
  | nil => exact ⟨[], .nil, .proceed [] rfl rfl⟩
  | cons step rest ih =>
    rcases hstep : (run step).run s with ⟨value | _, s'⟩
    · obtain ⟨log, hcalls, hdriven⟩ := ih s'
      rw [run_runSteps_of_proceed hstep]
      exact ⟨_, .cons hstep hcalls, hdriven.cons step value⟩
    · rw [run_runSteps_of_aborted hstep]
      exact ⟨_, .cons hstep .nil, .aborted [] [] rfl rfl⟩

/-- Every call in the log is a call of the runner in some state. -/
theorem Calls.exists_run {s s' : σ} {log : List (ProviderStep × Outcome α)} (h : Calls run s log s')
    {step : ProviderStep} {outcome : Outcome α} (hmem : (step, outcome) ∈ log) :
    ∃ t t', (run step).run t = (outcome, t') := by
  induction h with
  | nil => cases hmem
  | cons hrun _ ih =>
    rcases List.mem_cons.mp hmem with heq | hmem
    · cases heq
      exact ⟨_, _, hrun⟩
    · exact ih hmem

/-- Only steps are called. -/
theorem Driven.mem {steps : List ProviderStep} {log : List (ProviderStep × Outcome α)} {outcome : Outcome (List α)}
    (h : Driven steps log outcome) {step : ProviderStep} {answer : Outcome α} (hmem : (step, answer) ∈ log) :
    step ∈ steps := by
  have hfirst := List.mem_map_of_mem (f := Prod.fst) hmem
  cases h with
  | proceed _ hsteps => exact hsteps ▸ hfirst
  | aborted _ _ hsteps =>
    rw [hsteps]
    simp only [List.map_append, List.map_cons, List.map_nil, List.mem_append, List.mem_cons, List.not_mem_nil,
      or_false] at hfirst ⊢
    exact hfirst.imp_right Or.inl

/-- A runner that aborts none of the steps comes to their end. -/
theorem runSteps_proceed {steps : List ProviderStep}
    (h : ∀ step ∈ steps, ∀ s s', (run step).run s ≠ (.aborted, s')) (s : σ) :
    ∃ values, ((runSteps run steps).run s).1 = .proceed values := by
  obtain ⟨log, hcalls, hdriven⟩ := runSteps_calls run steps s
  rcases hanswer : ((runSteps run steps).run s).1 with values | _
  · exact ⟨values, rfl⟩
  · obtain ⟨step, hmem⟩ := hdriven.eq_aborted_iff.mp hanswer
    obtain ⟨t, t', hrun⟩ := hcalls.exists_run hmem
    exact absurd hrun (h step (hdriven.mem hmem) t t')

end Driver

end RouteManifest
