import RouteManifest.Proofs.Binding.Leaves
import RouteManifest.Proofs.Generation
import Mathlib.Data.List.NodupEquivFin

/-!
# Parameters of the path

The tokens of a URL come from the path of a file, the properties of the path parameters from the bindings of a handler.
A route is accepted if every token is bound and every bound name is a token. Both are questions of membership, so what
follows is that the names are the same (`tokenFault?_eq_none`), not how often each of them stands in the URL. The
properties never share a name (`Properties.Proper`), and so tokens and properties correspond one to one exactly if the
URL does not repeat a token.
-/

namespace RouteManifest

variable {c : Catalog}

/-! ## Tokens and names

Two lists of names that have the same members correspond one to one if neither repeats a name; of one that repeats a
name this cannot be so, since the other does not. -/

theorem UrlRules.tokens_address (rules : UrlRules) (unit : Path) :
    (rules.address unit).tokens = pathTokens (rules.url unit) := by
  rw [address]

/-- No fault is found just if the bound names are the tokens of the URL. -/
theorem tokenFault?_eq_none {address : UnitAddress} {bound : List String} :
    tokenFault? address bound = none ↔ ∀ name, name ∈ address.tokens ↔ name ∈ bound := by
  rw [tokenFault?]
  constructor
  · intro h name
    split at h
    · cases h
    next hbound =>
      split at h
      · cases h
      next htokens =>
        constructor
        · intro hname
          simpa using List.find?_eq_none.mp hbound name hname
        · intro hname
          simpa using List.find?_eq_none.mp htokens name hname
  · intro h
    have hbound : (address.tokens.find? fun t => !bound.contains t) = none :=
      List.find?_eq_none.mpr fun t ht => by simpa using (h t).mp ht
    have htokens : (bound.find? fun n => !address.tokens.contains n) = none :=
      List.find?_eq_none.mpr fun n hn => by simpa using (h n).mpr hn
    simp only [hbound, htokens]

/-- Names without repetition correspond to others one to one if these are the same names without repetition. -/
theorem exists_equiv_iff_nodup {tokens names : List String} (hnames : names.Nodup)
    (hsame : ∀ name, name ∈ tokens ↔ name ∈ names) :
    (∃ f : Fin tokens.length ≃ Fin names.length, ∀ i, names.get (f i) = tokens.get i) ↔ tokens.Nodup := by
  constructor
  · rintro ⟨f, hf⟩
    refine List.nodup_iff_injective_get.mpr fun i j hij => ?_
    rw [← hf i, ← hf j] at hij
    exact f.injective (List.nodup_iff_injective_get.mp hnames hij)
  · intro htokens
    refine ⟨((htokens.getEquiv tokens).trans (Equiv.subtypeEquivRight hsame)).trans (hnames.getEquiv names).symm, ?_⟩
    intro i
    have hget := congrArg Subtype.val ((hnames.getEquiv names).apply_symm_apply
      (Equiv.subtypeEquivRight hsame (htokens.getEquiv tokens i)))
    exact hget

/-- A name that is claimed without repetition is claimed in one place. -/
theorem exists_unique_claim {α : Type} {claims : α → List String} {xs : List α} (h : (xs.flatMap claims).Nodup)
    {name : String} (hname : name ∈ xs.flatMap claims) :
    ∃ before x after, xs = before ++ x :: after ∧ name ∈ claims x ∧ ∀ y ∈ before ++ after, name ∉ claims y := by
  obtain ⟨x, hx, hclaim⟩ := List.mem_flatMap.mp hname
  obtain ⟨before, after, rfl⟩ := List.append_of_mem hx
  refine ⟨before, x, after, rfl, hclaim, fun y hy hother => ?_⟩
  rw [List.flatMap_append, List.flatMap_cons] at h
  obtain ⟨-, hafter, hbefore⟩ := List.nodup_append.mp h
  obtain ⟨-, -, hafter⟩ := List.nodup_append.mp hafter
  rcases List.mem_append.mp hy with hy | hy
  · exact hbefore _ (List.mem_flatMap.mpr ⟨y, hy, hother⟩) _ (List.mem_append_left _ hclaim) rfl
  · exact hafter _ hclaim _ (List.mem_flatMap.mpr ⟨y, hy, hother⟩) rfl

theorem names_flatMap_claims (registry : Registry) (place : Place) (xs : List Reading) :
    Table.names (xs.flatMap (Reading.claims registry place)) =
      xs.flatMap fun x => (x.claims registry place).names := by
  exact List.map_flatMap

/-! ## Accepted routes

Tokens and properties of the path, compared as lists of names. -/

/-- The path parameters of a route have different names, which are the tokens of its URL, and every one of them is read
by exactly one leaf of the bindings, be it a parameter of the handler or of a provider behind one. So tokens and
parameters correspond one to one, unless the path of the unit gives the URL a token twice. -/
theorem path_parameters_correspond {rules : UrlRules} {unit : Path} {providers : Providers} {verb : Verb}
    {operationId : String} {handler : Handler} {r r' : Resolver c} {route : Route}
    (h : (buildRoute providers (rules.address unit) verb operationId handler).run r = (.ok route, r')) :
    (∀ name, name ∈ pathTokens route.url ↔ name ∈ (route.schema.propertiesAt .path).names) ∧
    (route.schema.propertiesAt .path).names.Nodup ∧
    (∀ name ∈ pathTokens route.url, ∃ before x after, Binding.readingsOf route.parameters = before ++ x :: after ∧
      name ∈ (x.claims r'.registry .path).names ∧
      ∀ y ∈ before ++ after, name ∉ (y.claims r'.registry .path).names) ∧
    ((∃ f : Fin (pathTokens route.url).length ≃ Fin (route.schema.propertiesAt .path).names.length,
      ∀ i, (route.schema.propertiesAt .path).names.get (f i) = (pathTokens route.url).get i) ↔
        (pathTokens route.url).Nodup) := by
  obtain ⟨bindings, parts, response, r₁, hbind, htokens, hresponse, hmade⟩ := buildRoute_eq_ok h
  have hurl : pathTokens route.url = pathTokens (rules.url unit) := by rw [hmade]; rfl
  have hschema : route.schema = parts.toRouteSchema response := by rw [hmade]
  have hparameters : route.parameters = bindings := by rw [hmade]
  rw [hurl, hschema, hparameters]
  obtain ⟨-, hparts⟩ := (Bind.binds_of_bindAll hbind).describes (.empty r.registry verb)
  have hruns : Runs {} (.node [] handler.location handler.response) r₁ (.ok response) r' := runs_iff.mpr hresponse
  have hroute := (hparts.moves hruns.moves).toRouteSchema response
  have hnodup := hroute.nodup .path
  have hnames : ((parts.toRouteSchema response).propertiesAt .path).names = parts.paramNames := by
    rw [RequestParts.propertiesAt_toRouteSchema]
    rfl
  -- a route is refused unless it binds its tokens, all of them and no others
  have hsame : ∀ name, name ∈ pathTokens (rules.url unit) ↔
      name ∈ ((parts.toRouteSchema response).propertiesAt .path).names := by
    rw [hnames, ← UrlRules.tokens_address]
    exact tokenFault?_eq_none.mp htokens
  refine ⟨hsame, hnodup, ?_, exists_equiv_iff_nodup hnodup hsame⟩
  intro name hname
  have hclaims := congrArg Table.names (hroute.properties .path)
  rw [names_flatMap_claims] at hclaims
  have hclaim := (hsame name).mp hname
  rw [hclaims] at hnodup hclaim
  exact exists_unique_claim hnodup hclaim

/-- A handler that reads an id, of a unit in a directory of the same name. -/
def idHandler : Handler where
  exportName := "get"
  params := [{ name := "id", node := .string, location := ⟨⟨"[id]/[id].rs"⟩, 1, 0⟩ }]
  location := ⟨⟨"[id]/[id].rs"⟩, 1, 0⟩

/-- The handler is accepted: its one parameter is both tokens of the URL. -/
theorem path_parameters_correspond_twice : ∃ (route : Route) (r' : Resolver {}),
    (buildRoute [] (UrlRules.address ⟨⟨""⟩, .empty⟩ ⟨"[id]/[id].rs"⟩) .get "getId" idHandler).run {} =
      (.ok route, r') ∧
    pathTokens route.url = ["id", "id"] ∧ (route.schema.propertiesAt .path).names = ["id"] ∧
    ¬∃ f : Fin (pathTokens route.url).length ≃ Fin (route.schema.propertiesAt .path).names.length,
      ∀ i, (route.schema.propertiesAt .path).names.get (f i) = (pathTokens route.url).get i := by
  have hstring (unit : Path) : Catalog.shapeOf {} .string unit = .scalar := by
    simp [Catalog.shapeOf, Catalog.anyStructured, TypeExpr.string]
  have hnames : ((buildRoute [] (UrlRules.address ⟨⟨""⟩, .empty⟩ ⟨"[id]/[id].rs"⟩) .get "getId" idHandler).run
      ({} : Resolver {})).1.toOption.map
        (fun route => (pathTokens route.url, (route.schema.propertiesAt .path).names)) =
      some (["id", "id"], ["id"]) := by
    -- neither the search for providers nor the one for shapes computes by itself
    simp only [buildRoute, bindAll, idHandler, List.mapM_cons, List.mapM_nil, Bind.parameter_eq, Table.find?,
      Bind.positional, Bind.schemaOf, hstring, resolve_eq_within]
    decide +kernel
  rcases h : (buildRoute [] (UrlRules.address ⟨⟨""⟩, .empty⟩ ⟨"[id]/[id].rs"⟩) .get "getId" idHandler).run
    ({} : Resolver {}) with ⟨fault | route, r'⟩
  · rw [h] at hnames
    cases hnames
  · rw [h] at hnames
    obtain ⟨htokens, hparams⟩ := Prod.mk.inj (Option.some.inj hnames)
    obtain ⟨-, -, -, hiff⟩ := path_parameters_correspond h
    refine ⟨route, r', rfl, htokens, hparams, fun hf => ?_⟩
    have hnodup := hiff.mp hf
    rw [htokens] at hnodup
    exact absurd hnodup (by decide)

end RouteManifest
