import RouteManifest.Proofs.Resolution.Combining
import RouteManifest.Proofs.Resolution.Runs

/-!
# What schemas have from their parts

A property of schemas is passed on from the parts of an expression to what is built of them, if each way of putting
schemas together passes it on (`PassedOn`). Which properties a merged object has is decided by the objects that are seen
in its parts, so what is seen must have the property as well.
-/

namespace RouteManifest

/-- A property that schemas have, and what is seen in them, and that is passed on when they are put together. -/
structure PassedOn (r : Registry) (Q : Schema → Prop) (l : List Schema) : Prop where
  parts : ∀ s ∈ l, Q s
  seen : ∀ s ∈ l, ∀ object, r.objectView? s = some object → ∀ t ∈ Table.values (object.keywords.properties.getD []), Q t
  /-- a node that says something of its subschemas alone -/
  node : ∀ k : Keywords Schema, k.enumeration = none → k.properties = none → k.discriminator = none → k.ref = none →
    (∀ s ∈ k.children, Q s) → Q (.mk k)
  object : ∀ properties required closed, (∀ s ∈ Table.values properties, Q s) → Q (.object properties required closed)
  ofLiterals : ∀ literals, Q (.ofLiterals literals)
  orNull : ∀ s, Q s → Q s.orNull
  oneOf : Q (r.oneOf l)

namespace PassedOn

variable {r : Registry} {Q : Schema → Prop} {l : List Schema}

theorem allOf (h : PassedOn r Q l) : Q (r.allOf l) := by
  rcases r.allOf_cases l with ⟨s, rfl, heq⟩ | ⟨properties, required, hmerge, heq⟩ | ⟨-, heq⟩
  · rw [heq]
    exact h.parts s List.mem_cons_self
  · rw [heq]
    refine h.object properties required false fun s hs => ?_
    rcases Registry.mem_mergeParts hmerge hs with hs | ⟨part, hpart, object, hview, hs⟩
    · cases hs
    · exact h.seen part hpart object hview s hs
  · rw [heq]
    exact h.node _ rfl rfl rfl rfl fun s hs => h.parts s (by simpa [Keywords.children] using hs)

/-- What is passed on is true of what is built. -/
theorem build (h : PassedOn r Q l) {e : TypeExpr} {parts : List TypeExpr} {build : Registry → List Schema → Schema}
    (hform : e.form = .built parts build) : Q (build r l) := by
  have hleaf {k : Keywords Schema} (henum : k.enumeration = none) (hproperties : k.properties = none)
      (hdiscriminator : k.discriminator = none) (href : k.ref = none) (hchildren : k.children = []) : Q (.mk k) :=
    h.node k henum hproperties hdiscriminator href fun s hs => by
      rw [hchildren] at hs
      cases hs
  -- without a part the default schema stands in, which says nothing
  have hhead : Q (l.headD default) := by
    cases l with
    | nil => exact hleaf rfl rfl rfl rfl rfl
    | cons s rest => exact h.parts s List.mem_cons_self
  have horNull (variants : List TypeExpr) {s : Schema} (hs : Q s) : Q (TypeExpr.orNullOf variants s) := by
    rw [TypeExpr.orNullOf]
    split
    · exact h.orNull s hs
    · exact hs
  cases e with
  | primitive kind => cases hform; exact hleaf rfl rfl rfl rfl rfl
  | object properties closed =>
    cases hform
    refine h.object _ _ closed fun s hs => ?_
    obtain ⟨⟨n, v⟩, hv, rfl⟩ := List.mem_map.mp hs
    exact h.parts v (List.of_mem_zip hv).2
  | map value | array element =>
    cases hform
    refine h.node _ rfl rfl rfl rfl fun s hs => ?_
    obtain rfl := List.mem_singleton.mp hs
    exact hhead
  | tuple elements =>
    cases hform
    exact h.node _ rfl rfl rfl rfl fun s hs => h.parts s (by simpa [Keywords.children] using hs)
  | union variants =>
    cases TypeExpr.unionForm hform with
    | null => exact hleaf rfl rfl rfl rfl rfl
    | literals => exact horNull variants (h.ofLiterals _)
    | alternatives => exact horNull variants h.oneOf
  | intersection members => cases hform; exact h.allOf
  | enumeration literals => cases hform; exact h.ofLiterals literals
  | literal value => cases hform; exact h.ofLiterals [value]
  | _ => cases hform

end PassedOn

end RouteManifest
