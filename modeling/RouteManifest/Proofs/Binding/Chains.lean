import RouteManifest.Proofs.Binding.Leaves
import RouteManifest.Proofs.Binding.Steps
import RouteManifest.Proofs.Generation
import Mathlib.Data.List.Chain
import Mathlib.Logic.Relation

/-!
# Chains of providers

The aliases of the providers form a graph: an alias needs those of the parameters of its provider. Nothing keeps that
graph from having cycles, and three parts of the program rely on what the binding makes of it.

The binding itself goes down a chain of aliases, never entering one twice, so it is at most one level deeper than there
are aliases (`bindWithin_eq`). It reports a cycle only where the chain comes round (`comesRound_of_fails`), and when it
succeeds every alias that was met is accessible, which leaves no room for a cycle (`Bind.Binds.acc`). On the way it
notes whether some provider can end the request, which is what the steps say afterwards (`Bind.Binds.shortCircuits`).

That a cycle is reported for no other reason takes a look at everything else that binding does. None of it reports one
(`Bind.ReportsNoCycle`), which is shown operation by operation, from the smallest to the reading of a parameter.
-/

namespace RouteManifest

variable {c : Catalog}

/-! ## The graph of aliases

A cycle in the graph is harmless unless a parameter reaches it. What binding can tell of the graph is what is reached
from the parameters, and accessibility is how that is said for graphs in which paths may be endless. -/

namespace Providers

/-- A parameter of the provider of an alias is provided in turn. -/
def Needs (providers : Providers) (a b : String) : Prop :=
  ∃ provider, providers.find? a = some provider ∧
    ∃ p ∈ provider.params, p.name = b ∧ (providers.find? b).isSome = true

/-- The alias of a parameter, or one that is needed for it by way of others. -/
def Reaches (providers : Providers) (params : List Parameter) (a : String) : Prop :=
  ∃ p ∈ params, (providers.find? p.name).isSome = true ∧ Relation.ReflTransGen providers.Needs p.name a

/-- The alias is needed for itself. -/
def OnCycle (providers : Providers) (a : String) : Prop := Relation.TransGen providers.Needs a a

/-- Aliases that each need the next one, from that of a parameter to one that has been there before. -/
structure ComesRound (providers : Providers) (params : List Parameter) (chain : List String) : Prop where
  starts : ∃ p ∈ params, (providers.find? p.name).isSome = true ∧ chain.head? = some p.name
  walks : chain.IsChain providers.Needs
  returns : ∃ before a between, chain = before ++ a :: between ++ [a]

variable {providers : Providers} {params : List Parameter}

/-- A chain that comes round has a cycle in it, and starts at a parameter that reaches the cycle. -/
theorem ComesRound.exists_onCycle {chain : List String} (h : providers.ComesRound params chain) :
    ∃ a, providers.Reaches params a ∧ providers.OnCycle a := by
  obtain ⟨p, hp, halias, hhead⟩ := h.starts
  obtain ⟨before, a, between, rfl⟩ := h.returns
  have hwalks := h.walks
  rw [List.append_assoc, List.cons_append] at hwalks
  refine ⟨a, ⟨p, hp, halias, ?_⟩, ?_⟩
  · cases before with
    | nil =>
      obtain rfl : a = p.name := Option.some.inj hhead
      exact .refl
    | cons first before =>
      obtain rfl : first = p.name := Option.some.inj hhead
      have hreach : ((p.name :: (before ++ [a])) ++ (between ++ [a])).IsChain providers.Needs := by simpa using hwalks
      exact List.relationReflTransGen_of_exists_isChain_cons _ hreach.left_of_append (by simp)
  · have hcycle : (a :: (between ++ [a])).IsChain providers.Needs := hwalks.right_of_append
    cases between with
    | nil => exact .single (List.isChain_cons_cons.mp hcycle).1
    | cons next between =>
      obtain ⟨hneeds, hrest⟩ := List.isChain_cons_cons.mp hcycle
      exact .head' hneeds (List.relationReflTransGen_of_exists_isChain_cons _ hrest (by simp))

/-- An alias whose needs can be followed only finitely far reaches no cycle. -/
theorem not_onCycle_of_acc {a b : String} (h : Acc (Function.swap providers.Needs) a)
    (hreach : Relation.ReflTransGen providers.Needs a b) : ¬providers.OnCycle b := by
  have hb : Acc (Function.swap providers.Needs) b := by
    induction hreach with
    | refl => exact h
    | tail _ hneeds ih => exact ih.inv hneeds
  clear h hreach
  intro hcycle
  induction hb.transGen with
  | intro b _ ih => exact ih b (Relation.transGen_swap.mpr hcycle) (hb.inv_of_transGen (Relation.transGen_swap.mpr hcycle)) hcycle

end Providers

namespace Bind

variable {providers : Providers} {verb : Verb} {tokens chain : List String} {ps : List Parameter}
  {parts parts' : RequestParts} {r r' : Resolver c} {b : Binding} {bs : List Binding}

/-- Where binding succeeds, the needs of an alias can be followed only finitely far: they are bound, too. -/
theorem Binds.acc (h : Binds providers verb ps parts r bs parts' r') :
    ∀ p ∈ ps, Acc (Function.swap providers.Needs) p.name := by
  induction h with
  | nil => exact nofun
  | read hnone _ _ ih =>
    refine List.forall_mem_cons.mpr ⟨.intro _ fun a hneeds => ?_, ih⟩
    obtain ⟨provider, hfound, -⟩ := hneeds
    rw [hnone] at hfound
    cases hfound
  | provided hfound _ _ _ ihDeps ih =>
    refine List.forall_mem_cons.mpr ⟨.intro _ fun a hneeds => ?_, ih⟩
    obtain ⟨provider, hfound', p, hp, rfl, -⟩ := hneeds
    obtain rfl := Option.some.inj (hfound.symm.trans hfound')
    exact ihDeps p hp

/-! ## How deep it goes

The search stops at an alias of its chain. To say how deep it goes, the same search is written with a bound and with
something else to do at the bound; since that never matters, the bound is never met. -/

/-- Binds a parameter while the providers of a chain are being entered, at most so many deep; any deeper, `stuck` is
done instead. -/
def parameterWithin (stuck : Bind c Binding) (providers : Providers) (verb : Verb) (tokens : List String) :
    Nat → List String → Parameter → Bind c Binding
  | 0, _, _ => stuck
  | depth + 1, chain, p =>
    match providers.find? p.name with
    | some provider =>
      if chain.contains p.name = true then fail p.location (.providerCycle (chain ++ [p.name]))
      else
        match provider.output.filter fun output => !output.same p.node with
        | some output =>
          fail p.location (.providerMismatch p.name output.displayName p.name p.node.displayName)
        | none => do
          let dependencies ← provider.params.mapM (parameterWithin stuck providers verb tokens depth (chain ++ [p.name]))
          modifyThe RequestParts fun r => { r with shortCircuits := r.shortCircuits || provider.mayAbort }
          return .provided p.name p.node provider.target provider.mayAbort dependencies
    | none =>
      match p.marker with
      | some marker => marked p verb marker
      | none => positional p verb tokens

/-- A chain is never longer than there are aliases, so nothing gets stuck. -/
theorem parameterWithin_eq (stuck : Bind c Binding) (providers : Providers) (verb : Verb) (tokens : List String)
    {depth : Nat} {chain : List String} (h : outside providers chain < depth) :
    parameterWithin stuck providers verb tokens depth chain = parameter providers verb tokens chain := by
  induction depth generalizing chain with
  | zero => cases h
  | succ depth ih =>
    funext p
    rw [parameterWithin, parameter_eq]
    rcases hfound : providers.find? p.name with _ | provider
    · rfl
    · by_cases hfresh : chain.contains p.name = true
      · simp only [if_pos hfresh]
      · have hdeeper := ih (Nat.lt_of_lt_of_le (outside_concat_lt hfound hfresh) (Nat.le_of_lt_succ h))
        exact hdeeper ▸ rfl

/-- Before the first alias is entered, all of them are still outside. -/
theorem outside_nil (providers : Providers) : outside providers [] = providers.length := by
  rw [outside, List.countP_eq_length.mpr (by simp)]
  exact List.length_map _

/-! ## Faults

That binding reports a cycle for one reason only means that all other operations report none. The predicate is closed
under sequencing, so there is one lemma per operation. -/

/-- The computation fails. -/
def Fails {α : Type} (m : Bind c α) (parts : RequestParts) (r : Resolver c) (fault : Fault) (r' : Resolver c) : Prop :=
  (m.run parts).run r = (.error fault, r')

/-- Two computations in a row fail if the first one does, or the second one after it. -/
theorem fails_bind {α β : Type} {m : Bind c α} {f : α → Bind c β} {fault : Fault} {r'' : Resolver c} :
    (m >>= f).Fails parts r fault r'' ↔
      m.Fails parts r fault r'' ∨ ∃ a parts' r', m.Gives parts r a parts' r' ∧ (f a).Fails parts' r' fault r'' := by
  rw [Fails, StateT.run_bind, Resolving.run_bind]
  rcases h : (m.run parts).run r with ⟨fault' | ⟨a, parts'⟩, r'⟩
  · constructor
    · intro hf
      cases hf
      exact Or.inl h
    · rintro (hf | ⟨_, _, _, hm, -⟩)
      · rw [Fails, h] at hf
        cases hf
        rfl
      · rw [Gives, h] at hm
        cases hm
  · constructor
    · intro hf
      exact Or.inr ⟨a, parts', r', h, hf⟩
    · rintro (hf | ⟨_, _, _, hm, hf⟩)
      · rw [Fails, h] at hf
        cases hf
      · rw [Gives, h] at hm
        cases hm
        exact hf

/-- The computation never fails with a cycle of providers. -/
structure ReportsNoCycle {α : Type} (m : Bind c α) : Prop where
  not_fails : ∀ {parts r location chain r'}, ¬m.Fails parts r (.invalidRoute location (.providerCycle chain)) r'

/-- What succeeds reports nothing. -/
theorem reportsNoCycle_of_gives {α : Type} {m : Bind c α}
    (h : ∀ parts r, ∃ a parts' r', m.Gives parts r a parts' r') : m.ReportsNoCycle := by
  refine ⟨fun {parts r} _ _ _ hfails => ?_⟩
  obtain ⟨a, parts', r', hgives⟩ := h parts r
  rw [Fails, hgives] at hfails
  cases hfails

/-- An answer that is there already is no cycle. -/
theorem reportsNoCycle_pure {α : Type} (a : α) : (pure a : Bind c α).ReportsNoCycle :=
  reportsNoCycle_of_gives fun parts r => ⟨a, parts, r, rfl⟩

theorem reportsNoCycle_getParts : (get : Bind c RequestParts).ReportsNoCycle :=
  reportsNoCycle_of_gives fun parts r => ⟨parts, parts, r, rfl⟩

theorem reportsNoCycle_getResolver : (getThe (Resolver c) : Bind c (Resolver c)).ReportsNoCycle :=
  reportsNoCycle_of_gives fun parts r => ⟨r, parts, r, rfl⟩

theorem reportsNoCycle_modifyParts (f : RequestParts → RequestParts) :
    (modifyThe RequestParts f : Bind c Unit).ReportsNoCycle :=
  reportsNoCycle_of_gives fun parts r => ⟨(), f parts, r, rfl⟩

/-- Two computations in a row report no cycle if neither does. -/
theorem ReportsNoCycle.bind {α β : Type} {m : Bind c α} {f : α → Bind c β} (hm : m.ReportsNoCycle)
    (hf : ∀ a, (f a).ReportsNoCycle) : (m >>= f).ReportsNoCycle := by
  refine ⟨fun h => ?_⟩
  rcases fails_bind.mp h with h | ⟨a, _, _, -, h⟩
  · exact hm.not_fails h
  · exact (hf a).not_fails h

/-- Failing for another cause is not reporting a cycle. -/
theorem reportsNoCycle_fail {α : Type} (location : Location) {cause : RouteFault}
    (h : ∀ chain, cause ≠ .providerCycle chain) : (fail location cause : Bind c α).ReportsNoCycle := by
  refine ⟨fun hfails => ?_⟩
  cases hfails
  exact h _ rfl

/-- An update of the request's parts that reports no cycle stays so among other computations. -/
theorem reportsNoCycle_update {f : RequestParts → Except Fault RequestParts}
    (h : ∀ parts location chain, f parts ≠ .error (.invalidRoute location (.providerCycle chain))) :
    (update f : Bind c Unit).ReportsNoCycle := by
  refine reportsNoCycle_getParts.bind fun parts => ?_
  split
  · exact reportsNoCycle_of_gives fun _ r => ⟨_, _, r, rfl⟩
  next hf =>
    refine ⟨fun hfails => ?_⟩
    cases hfails
    exact h _ _ _ hf

/-- The schema of a parameter is resolved, and the faults of resolution are no faults of routes. -/
theorem reportsNoCycle_schemaOf (p : Parameter) : (schemaOf p : Bind c Schema).ReportsNoCycle := by
  refine ⟨fun {parts r location chain r'} h => ?_⟩
  have h : ((resolve p.node p.location : Resolving c Schema) >>= fun s => pure (s, parts)).run r = _ := h
  rw [Resolving.run_bind] at h
  rcases hrun : (resolve p.node p.location : Resolving c Schema).run r with ⟨fault | s, r₁⟩
  · rw [hrun] at h
    cases h
    have hruns : Runs {} (.node [] p.location p.node) r
        (.error (.invalidRoute location (.providerCycle chain))) r' := runs_iff.mpr hrun
    exact hruns.isOfType rfl
  · rw [hrun] at h
    cases h

/-- A property can conflict with one that is there, and no more. -/
theorem add_ne_providerCycle {p : Properties} {place : Place} {name : String} {schema : Schema} {required : Bool}
    {location location' : Location} {chain : List String} :
    p.add place name schema required location ≠ .error (.invalidRoute location' (.providerCycle chain)) := by
  rw [Properties.add]
  intro h
  split at h <;> cases h

/-- The properties of an object can conflict with those that are there, and no more. -/
theorem addAll_ne_providerCycle {p : Properties} {place : Place} {rename : String → String} {required : List String}
    {location location' : Location} {added : Table Schema} {chain : List String} :
    p.addAll place rename required location added ≠ .error (.invalidRoute location' (.providerCycle chain)) := by
  induction added generalizing p with
  | nil =>
    intro h
    cases h
  | cons entry rest ih =>
    rw [Properties.addAll]
    split
    next fault hadd =>
      intro h
      cases h
      exact add_ne_providerCycle hadd
    · exact ih

/-- A place that grows reports nothing but what its properties report. -/
theorem bind_pure_ne_error {α β : Type} {m : Except Fault α} {f : α → β} {fault : Fault} (h : m ≠ .error fault) :
    (m >>= fun a => pure (f a)) ≠ .error fault := by
  intro hbind
  cases m with
  | error other =>
    cases hbind
    exact h rfl
  | ok a => cases hbind

theorem reportsNoCycle_addProperty (place : Place) (name : String) (schema : Schema) (required : Bool)
    (location : Location) : (addProperty place name schema required location : Bind c Unit).ReportsNoCycle := by
  refine reportsNoCycle_update fun parts location' chain => ?_
  cases place <;> exact bind_pure_ne_error add_ne_providerCycle

theorem reportsNoCycle_addObject (place : Place) (object : Schema) (location : Location) :
    (addObject place object location : Bind c Unit).ReportsNoCycle := by
  refine reportsNoCycle_update fun parts location' chain => ?_
  cases place <;> exact bind_pure_ne_error addAll_ne_providerCycle

/-- A second body is refused for being a second one. -/
theorem reportsNoCycle_takeBody (schema : Schema) (location : Location) :
    (takeBody schema location : Bind c Unit).ReportsNoCycle := by
  refine reportsNoCycle_update fun parts location' chain => ?_
  intro h
  split at h <;> cases h

/-- A schema that is not an object is reported as such. -/
theorem reportsNoCycle_objectOf (place : Place) (p : Parameter) (schema : Schema) :
    (objectOf place p schema : Bind c Schema).ReportsNoCycle := by
  rw [objectOf]
  split
  refine reportsNoCycle_getResolver.bind fun resolver => ?_
  split
  · exact reportsNoCycle_fail _ fun _ h => by cases h
  · exact reportsNoCycle_pure _

/-! ### Reading a parameter

What is read off the request goes through the operations above and nothing else. -/

theorem reportsNoCycle_raw (p : Parameter) (target : RawTarget) (verb : Verb) :
    (raw p target verb : Bind c Binding).ReportsNoCycle := by
  cases target with
  | request | reply => exact reportsNoCycle_pure _
  | socket =>
    rw [raw]
    split
    · exact reportsNoCycle_pure _
    · exact reportsNoCycle_fail _ fun _ h => by cases h

/-- A single property may be refused, but not for a cycle. -/
theorem reportsNoCycle_property (place : Place) (p : Parameter) (schema : Schema) :
    (property place p schema : Bind c Binding).ReportsNoCycle := by
  cases place <;> exact (reportsNoCycle_addProperty ..).bind fun _ => reportsNoCycle_pure _

/-- An object that fills a place may be refused, but not for a cycle. -/
theorem reportsNoCycle_whole (place : Place) (p : Parameter) (schema : Schema) :
    (whole place p schema : Bind c Binding).ReportsNoCycle :=
  (reportsNoCycle_objectOf ..).bind fun _ => (reportsNoCycle_addObject ..).bind fun _ => reportsNoCycle_pure _

theorem reportsNoCycle_body (p : Parameter) (schema : Schema) : (body p schema : Bind c Binding).ReportsNoCycle :=
  (reportsNoCycle_takeBody ..).bind fun _ => reportsNoCycle_pure _

theorem reportsNoCycle_placed (place : Place) (p : Parameter) : (placed place p : Bind c Binding).ReportsNoCycle := by
  refine (reportsNoCycle_schemaOf p).bind fun schema => ?_
  split
  · exact reportsNoCycle_whole ..
  · exact reportsNoCycle_property ..

/-- A parameter with a marker goes where the marker says, and no marker has a chain to follow. -/
theorem reportsNoCycle_marked (p : Parameter) (verb : Verb) (marker : Marker) :
    (marked p verb marker : Bind c Binding).ReportsNoCycle := by
  cases marker with
  | raw target => exact reportsNoCycle_raw ..
  | path | query | header => exact reportsNoCycle_placed ..
  | body => exact (reportsNoCycle_schemaOf p).bind fun _ => reportsNoCycle_body ..

/-- A parameter without one goes by its name and its verb, and has no chain to follow either. -/
theorem reportsNoCycle_positional (p : Parameter) (verb : Verb) (tokens : List String) :
    (positional p verb tokens : Bind c Binding).ReportsNoCycle := by
  refine (reportsNoCycle_schemaOf p).bind fun schema => ?_
  split
  · exact reportsNoCycle_property ..
  · refine reportsNoCycle_getParts.bind fun parts => ?_
    split
    · exact reportsNoCycle_fail _ fun _ h => by cases h
    · refine (reportsNoCycle_modifyParts _).bind fun _ => ?_
      split
      · exact reportsNoCycle_body ..
      · exact reportsNoCycle_whole ..

/-! ### Where a cycle comes from

The fault is raised at one place, for an alias that is on the chain already. The chain leads there by needs, and it
started at a parameter. -/

/-- A cycle is reported where the chain comes round: from one of the parameters on, if the aliases of the chain need
one another and the last one all of the parameters. -/
theorem comesRound_of_fails {location : Location} {reported : List String}
    (h : (ps.mapM (parameter providers verb tokens chain) : Bind c _).Fails parts r
      (.invalidRoute location (.providerCycle reported)) r')
    (hchain : ∀ p ∈ ps, (providers.find? p.name).isSome = true → (chain ++ [p.name]).IsChain providers.Needs) :
    ∃ p ∈ ps, (providers.find? p.name).isSome = true ∧ (chain ++ [p.name]) <+: reported ∧
      reported.IsChain providers.Needs ∧ ∃ before a between, reported = before ++ a :: between ++ [a] := by
  -- the number of aliases outside the chain goes down when a provider is entered
  induction hn : outside providers chain using Nat.strongRecOn generalizing chain ps parts r with
  | ind n ihChain =>
  induction ps generalizing parts r with
  | nil =>
    rw [List.mapM_nil] at h
    exact absurd h (reportsNoCycle_pure _).not_fails
  | cons p rest ih =>
    rw [List.mapM_cons] at h
    obtain ⟨hp, hrest⟩ := List.forall_mem_cons.mp hchain
    rcases fails_bind.mp h with hb | ⟨b, parts₁, r₁, -, h₁⟩
    · clear ih
      refine ⟨p, List.mem_cons_self, ?_⟩
      rw [parameter_eq] at hb
      split at hb
      next provider hfound =>
        have halias : (providers.find? p.name).isSome = true := by rw [hfound]; rfl
        refine ⟨halias, ?_⟩
        split at hb
        next hagain =>
          cases hb
          obtain ⟨before, between, hsplit⟩ := List.append_of_mem (List.contains_iff_mem.mp hagain)
          exact ⟨List.prefix_rfl, hp halias, before, p.name, between, by rw [← hsplit]⟩
        next hfresh =>
          split at hb
          · exact absurd hb (reportsNoCycle_fail _ fun _ h => by cases h).not_fails
          · have hdeeper : ∀ d ∈ provider.params, (providers.find? d.name).isSome = true →
                (chain ++ [p.name] ++ [d.name]).IsChain providers.Needs := by
              intro d hd hdalias
              exact (hp halias).append (.singleton _) (by simpa using ⟨provider, hfound, d, hd, rfl, hdalias⟩)
            rcases fails_bind.mp hb with hdeps | ⟨_, _, _, -, hb₁⟩
            · obtain ⟨d, -, -, hprefix, hwalk⟩ := ihChain _ (hn ▸ outside_concat_lt hfound hfresh) hdeps hdeeper rfl
              exact ⟨(List.prefix_append _ _).trans hprefix, hwalk⟩
            · exact absurd hb₁ ((reportsNoCycle_modifyParts _).bind fun _ => reportsNoCycle_pure _).not_fails
      next hnone =>
        split at hb
        · exact absurd hb (reportsNoCycle_marked ..).not_fails
        · exact absurd hb (reportsNoCycle_positional ..).not_fails
    · rcases fails_bind.mp h₁ with h₂ | ⟨_, _, _, -, h₂⟩
      · obtain ⟨q, hq, hwalk⟩ := ih h₂ hrest
        exact ⟨q, List.mem_cons_of_mem _ hq, hwalk⟩
      · exact absurd h₂ (reportsNoCycle_pure _).not_fails

/-! ## Ending the request

Whether a route can end the request early is noted in a flag while binding. It only ever goes up, at a provider that may
abort. -/

/-- What a parameter takes of the request has no say in how it ends. -/
theorem Takes.shortCircuits {p : Parameter} {schema : Schema} (h : Takes r p schema parts b parts') :
    parts'.shortCircuits = parts.shortCircuits := by
  cases h with
  | @property place => cases place <;> rfl
  | @whole place => cases place <;> rfl
  | body => rfl

/-- A parameter that is read off the request adds no step. -/
theorem Reads.shortCircuits {p : Parameter} (h : Reads verb p parts r b parts' r') :
    b.step? = none ∧ parts'.shortCircuits = parts.shortCircuits := by
  cases h with
  | raw => exact ⟨rfl, rfl⟩
  | schema _ htakes =>
    refine ⟨?_, htakes.shortCircuits⟩
    cases htakes <;> rfl

/-- Whether some provider can end the request is noted of all providers behind the bindings. -/
theorem Binds.shortCircuits (h : Binds providers verb ps parts r bs parts' r') :
    parts'.shortCircuits = (parts.shortCircuits || (Binding.stepsOf bs).any ProviderStep.mayAbort) := by
  induction h with
  | nil => simp [Binding.stepsOf]
  | @read _ _ _ _ _ _ _ _ b _ _ hread _ ih =>
    obtain ⟨hstep, hparts⟩ := hread.shortCircuits
    rw [ih, hparts, Binding.stepsOf, Binding.steps_eq_nil hstep, List.nil_append]
  | provided _ _ _ _ ihDeps ih =>
    rw [ih, ihDeps, Binding.stepsOf, Binding.steps]
    simp [Bool.or_assoc]

end Bind

/-! ## Chains as a whole

The four facts above, for all parameters of a handler at once. -/

/-- The bindings of parameters, at most so many levels of providers deep; any deeper, `stuck` is done instead. -/
def bindWithin (stuck : Bind c Binding) (depth : Nat) (providers : Providers) (verb : Verb) (tokens : List String)
    (params : List Parameter) : Resolving c (List Binding × RequestParts) :=
  (params.mapM (Bind.parameterWithin stuck providers verb tokens depth [])).run {}

section

variable {providers : Providers} {verb : Verb} {tokens : List String} {params : List Parameter} {r r' : Resolver c}

/-- One level more than there are aliases is deep enough for every binding. -/
theorem bindWithin_eq (stuck : Bind c Binding) (providers : Providers) (verb : Verb) (tokens : List String)
    (params : List Parameter) :
    bindWithin stuck (providers.length + 1) providers verb tokens params = bindAll providers verb tokens params := by
  rw [bindWithin, bindAll, Bind.parameterWithin_eq stuck providers verb tokens]
  rw [Bind.outside_nil]
  exact Nat.lt_succ_self _

/-- Where all parameters are bound, none of them reaches a cycle. -/
theorem not_onCycle_of_bindAll {bound : List Binding × RequestParts}
    (h : (bindAll providers verb tokens params).run r = (.ok bound, r')) {a : String}
    (ha : providers.Reaches params a) : ¬providers.OnCycle a := by
  obtain ⟨p, hp, -, hreach⟩ := ha
  exact Providers.not_onCycle_of_acc ((Bind.binds_of_bindAll h).acc p hp) hreach

/-- Where a cycle is reported, there is a chain from a parameter that comes round, and that is the chain in the report.
-/
theorem comesRound_of_bindAll {location : Location} {chain : List String}
    (h : (bindAll providers verb tokens params).run r = (.error (.invalidRoute location (.providerCycle chain)), r')) :
    providers.ComesRound params chain := by
  obtain ⟨p, hp, halias, ⟨rest, hprefix⟩, hwalks, hreturns⟩ := Bind.comesRound_of_fails h fun _ _ _ => .singleton _
  exact ⟨⟨p, hp, halias, by rw [← hprefix]; rfl⟩, hwalks, hreturns⟩

end

/-- A route says that it can end the request just if one of its steps can. -/
theorem shortCircuits_iff {providers : Providers} {address : UnitAddress} {verb : Verb} {operationId : String}
    {handler : Handler} {r r' : Resolver c} {route : Route}
    (h : (buildRoute providers address verb operationId handler).run r = (.ok route, r')) :
    route.shortCircuits = true ↔ ∃ step ∈ route.steps, step.mayAbort = true := by
  obtain ⟨bindings, parts, response, r₁, hbind, -, -, rfl⟩ := buildRoute_eq_ok h
  have hparts := (Bind.binds_of_bindAll hbind).shortCircuits
  rw [Bool.false_or] at hparts
  show parts.shortCircuits = true ↔ _
  rw [hparts, List.any_eq_true]
  rfl

/-- Chains of providers, for any graph of aliases. Binding ends: it is never more than one level deeper than there are
aliases. It succeeds only if no alias that the parameters reach is on a cycle, and reports a cycle only if one is. The
bindings of a route are the tree that the registry declares, and its steps are the providers of that tree in post-order,
the steps of dependencies right before the step that needs them. A route ends requests just if one of its steps may. And
whatever the runner, and whatever state it keeps, it gets the steps up to the first that aborts, and the answer is that
one aborts, or the values in order. -/
theorem provider_chains (providers : Providers) :
    (∀ (verb : Verb) (tokens : List String) (params : List Parameter) (r : Resolver c),
      (∀ stuck, bindWithin stuck (providers.length + 1) providers verb tokens params =
        (bindAll providers verb tokens params : Resolving c _)) ∧
      (∀ bound r', (bindAll providers verb tokens params).run r = (.ok bound, r') →
        ∀ a, providers.Reaches params a → ¬providers.OnCycle a) ∧
      ∀ location chain r',
        (bindAll providers verb tokens params).run r = (.error (.invalidRoute location (.providerCycle chain)), r') →
        ∃ a, providers.Reaches params a ∧ providers.OnCycle a) ∧
    ∀ (address : UnitAddress) (verb : Verb) (operationId : String) (handler : Handler) (r r' : Resolver c)
      (route : Route), (buildRoute providers address verb operationId handler).run r = (.ok route, r') →
      List.Forall₂ (Binding.Matches c providers) route.parameters handler.params ∧
      (∃ paths, Binding.InPostOrder route.parameters paths route.steps) ∧
      (∀ before step after, route.steps = before ++ step :: after →
        Binding.stepsOf step.dependencies <:+ before) ∧
      (route.shortCircuits = true ↔ ∃ step ∈ route.steps, step.mayAbort = true) ∧
      ∀ {σ α : Type} (run : ProviderStep → StateM σ (Outcome α)) (s : σ),
        (∃ log, Calls run s log ((runSteps run route.steps).run s).2 ∧
          Driven route.steps log ((runSteps run route.steps).run s).1 ∧
          (((runSteps run route.steps).run s).1 = .aborted ↔ ∃ step, (step, Outcome.aborted) ∈ log)) ∧
        ((∀ step t t', (run step).run t = (.aborted, t') → step.mayAbort = true) → route.shortCircuits = false →
          ∃ values, ((runSteps run route.steps).run s).1 = .proceed values) := by
  refine ⟨fun verb tokens params r => ⟨?_, ?_, ?_⟩, fun address verb operationId handler r r' route h => ?_⟩
  · intro stuck
    exact bindWithin_eq stuck providers verb tokens params
  · intro bound r' h a ha
    exact not_onCycle_of_bindAll h ha
  · intro location chain r' h
    exact (comesRound_of_bindAll h).exists_onCycle
  · have hshort := shortCircuits_iff h
    refine ⟨?_, Binding.stepsOf_inPostOrder _, fun _ _ _ => Binding.stepsOf_dependencies_suffix _, hshort, ?_⟩
    · obtain ⟨bindings, parts, response, r₁, hbind, -, -, rfl⟩ := buildRoute_eq_ok h
      exact ((Bind.binds_of_bindAll hbind).describes (.empty r.registry verb)).1
    · intro σ α run s
      obtain ⟨log, hcalls, hdriven⟩ := runSteps_calls run route.steps s
      refine ⟨⟨log, hcalls, hdriven, hdriven.eq_aborted_iff⟩, fun honest hfalse => ?_⟩
      refine runSteps_proceed (fun step hstep t t' hrun => ?_) s
      have htrue := hshort.mpr ⟨step, hstep, honest step t t' hrun⟩
      rw [hfalse] at htrue
      cases htrue

/-- A provider with parameters of some names. -/
def providerOf (needs : List String) (mayAbort : Bool) : Provider where
  target := "provide"
  params := needs.map fun name => { name, node := .string, location := ⟨⟨"provider.rs"⟩, 1, 0⟩ }
  mayAbort
  location := ⟨⟨"provider.rs"⟩, 1, 0⟩

/-- A user is found by way of the session; two friends are found by way of each other. -/
def userProviders : Providers := [
  ("session", providerOf [] true),
  ("user", providerOf ["session"] false),
  ("friend", providerOf ["other"] false),
  ("other", providerOf ["friend"] false)]

/-- A handler with one parameter. -/
def handlerOf (name : String) : Handler where
  exportName := "get"
  params := [{ name, node := .string, location := ⟨⟨"me.rs"⟩, 1, 0⟩ }]
  location := ⟨⟨"me.rs"⟩, 1, 0⟩

/-- The user is provided, after the session, and the friends are refused. -/
theorem provider_chains_user :
    (∃ (route : Route) (r' : Resolver {}),
      (buildRoute userProviders ⟨"/me", [], "Me", "me.rs"⟩ .get "getMe" (handlerOf "user")).run {} = (.ok route, r') ∧
      route.steps.map ProviderStep.provider = ["session", "user"] ∧ route.shortCircuits = true ∧
      (∀ a, userProviders.Reaches (handlerOf "user").params a → ¬userProviders.OnCycle a) ∧
      ∃ paths, Binding.InPostOrder route.parameters paths route.steps) ∧
    ∃ (location : Location) (chain : List String) (r' : Resolver {}),
      (bindAll userProviders .get [] (handlerOf "friend").params).run {} =
        (.error (.invalidRoute location (.providerCycle chain)), r') ∧ chain = ["friend", "other", "friend"] ∧
      ∃ a, userProviders.Reaches (handlerOf "friend").params a ∧ userProviders.OnCycle a := by
  obtain ⟨hbinding, hroute⟩ := provider_chains (c := {}) userProviders
  -- with a bound for its depth the binding computes
  have hbound := bindWithin_eq (c := {}) (Bind.fail ⟨⟨""⟩, 0, 0⟩ .secondBody) userProviders .get []
  constructor
  · have hok : ((buildRoute userProviders ⟨"/me", [], "Me", "me.rs"⟩ .get "getMe" (handlerOf "user")).run
        ({} : Resolver {})).1.toOption.map (fun route => (route.steps.map ProviderStep.provider, route.shortCircuits)) =
        some (["session", "user"], true) := by
      simp only [buildRoute, ← hbound, resolve_eq_within]
      decide +kernel
    rcases h : (buildRoute userProviders ⟨"/me", [], "Me", "me.rs"⟩ .get "getMe" (handlerOf "user")).run
      ({} : Resolver {}) with ⟨fault | route, r'⟩
    · rw [h] at hok
      cases hok
    · rw [h] at hok
      obtain ⟨hsteps, hshort⟩ := Prod.mk.inj (Option.some.inj hok)
      obtain ⟨-, hpaths, -⟩ := hroute _ _ _ _ _ _ _ h
      obtain ⟨bindings, parts, response, r₁, hbind, -⟩ := buildRoute_eq_ok h
      exact ⟨route, r', rfl, hsteps, hshort, (hbinding _ _ _ _).2.1 _ _ hbind, hpaths⟩
  · have hfault : (bindAll userProviders .get [] (handlerOf "friend").params).run ({} : Resolver {}) =
        (.error (.invalidRoute ⟨⟨"provider.rs"⟩, 1, 0⟩ (.providerCycle ["friend", "other", "friend"])), {}) := by
      rw [← hbound]
      rfl
    exact ⟨_, _, _, hfault, rfl, (hbinding _ _ _ _).2.2 _ _ _ hfault⟩

end RouteManifest
