import Mathlib.Logic.Relation
import RouteManifest.Proofs.Meaning.Compiled
import RouteManifest.Proofs.Resolution.Ownership

/-!
# Types whose unions and intersections make sense

Not every expression has a schema with its values. A union without variants has no values, while its schema admits
null. An intersection without members has all values, while the schema is an object; and when the schemas of the
members are objects they are merged into one that is open, so a closed member loses what it forbids.

`Closure.Fine` says of a type that none of this is met when it is resolved. It is a condition on all closures that a type
comes to, through names and arguments. Where unions have variants, and intersections are of open objects that are written
out, it can be seen from the expressions alone (`Closure.Plain.fine`).
-/

namespace RouteManifest

variable {c : Catalog}

/-! ## What is met when a type is resolved

A type is resolved by its parts and by what it stands for, and these by theirs. With generic declarations there can be
endlessly many, so the condition is on all of them and not on a list. -/

namespace Closure

/-- What a type is resolved by: its parts, or what it stands for. -/
inductive Next (c : Catalog) : Closure → Closure → Prop where
  | part {cl parts build e} : cl.node.form = .built parts build → e ∈ parts → Next c cl (cl.within e)
  | target {cl target} : cl.target? c = some target → Next c cl target

/-- Nothing but closed objects are left of a type: it is one, or stands for one, or is a union of such types, or an
intersection of a single one. -/
inductive Sealed (c : Catalog) : Closure → Prop where
  | object {properties scope unit} : Sealed c (.mk (.object properties true) scope unit)
  | named {cl target} : cl.target? c = some target → Sealed c target → Sealed c cl
  | union {variants scope unit} : TypeExpr.flatten variants ≠ [] →
      (∀ e ∈ TypeExpr.flatten variants, Sealed c (.mk e scope unit)) → Sealed c (.mk (.union variants) scope unit)
  | intersection {member scope unit} : Sealed c (.mk member scope unit) →
      Sealed c (.mk (.intersection [member]) scope unit)

/-- A union has variants; an intersection has members, and they are not closed. -/
structure Sensible (c : Catalog) (cl : Closure) : Prop where
  union : ∀ variants, cl.node = .union variants → TypeExpr.flatten variants ≠ []
  intersection : ∀ members, cl.node = .intersection members → members ≠ [] ∧ ∀ e ∈ members, ¬(cl.within e).Sealed c

/-- All unions and intersections that a type is resolved by are sensible. -/
def Fine (c : Catalog) (cl : Closure) : Prop := ∀ cl', Relation.ReflTransGen (Next c) cl cl' → cl'.Sensible c

theorem Fine.sensible {cl : Closure} (h : cl.Fine c) : cl.Sensible c := h cl .refl

theorem Fine.next {cl cl' : Closure} (h : cl.Fine c) (hnext : Next c cl cl') : cl'.Fine c :=
  fun other hother => h other (.head hnext hother)

theorem Fine.part {cl : Closure} (h : cl.Fine c) {parts : List TypeExpr} {build : Registry → List Schema → Schema}
    (hform : cl.node.form = .built parts build) {e : TypeExpr} (he : e ∈ parts) : (cl.within e).Fine c :=
  h.next (.part hform he)

theorem Fine.target {cl target : Closure} (h : cl.Fine c) (htarget : cl.target? c = some target) : target.Fine c :=
  h.next (.target htarget)

end Closure

/-! ## Types that are fine by their expressions

A sufficient condition on the text of the declarations, without following any name. -/

/-- A union with variants, or an intersection of open objects, or anything else. -/
def TypeExpr.Simple : TypeExpr → Prop
  | .union variants => flatten variants ≠ []
  | .intersection members => members ≠ [] ∧ ∀ e ∈ members, ∃ properties, e = .object properties false
  | _ => True

/-- All that is met in an expression is simple. -/
def TypeExpr.Plain (e : TypeExpr) : Prop := ∀ x : TypeExpr, x.Inside e → x.Simple

namespace TypeExpr.Plain

variable {e : TypeExpr}

theorem part (h : e.Plain) {parts : List TypeExpr} {build : Registry → List Schema → Schema}
    (hform : e.form = .built parts build) {a : TypeExpr} (ha : a ∈ parts) : a.Plain :=
  fun x hx => h x (.part hform ha hx)

theorem arg (h : e.Plain) {name : String} {args : List TypeExpr} (hform : e.form = .named name args) {a : TypeExpr}
    (ha : a ∈ args) : a.Plain :=
  fun x hx => h x (.arg hform ha hx)

/-- An expression is plain if it is simple and its parts are plain. -/
theorem of_built {parts : List TypeExpr} {build : Registry → List Schema → Schema} (hform : e.form = .built parts build)
    (he : e.Simple) (hparts : ∀ a ∈ parts, a.Plain) : e.Plain := by
  intro x hx
  rcases hx.of_built hform with rfl | ⟨a, ha, hx⟩
  · exact he
  · exact hparts a ha x hx

theorem of_named {name : String} {args : List TypeExpr} (hform : e.form = .named name args)
    (hargs : ∀ a ∈ args, a.Plain) : e.Plain := by
  intro x hx
  rcases hx.of_named hform with rfl | ⟨a, ha, hx⟩
  · rcases form_eq_named hform with rfl | ⟨rfl, -⟩
    · exact trivial
    · exact trivial
  · exact hargs a ha x hx

end TypeExpr.Plain

/-- All that is met in a type is simple, and all that is met in what its type parameters stand for. -/
inductive Closure.Plain : Closure → Prop where
  | mk {e scope unit} : e.Plain → (∀ p ∈ scope, Plain p.2) → Plain (.mk e scope unit)

namespace Closure.Plain

/-- What a type parameter stands for is plain. -/
theorem of_find? {e : TypeExpr} {scope : List (String × Closure)} {unit : Path} (h : (Closure.mk e scope unit).Plain)
    {name : String} {cl : Closure} (hcl : Table.find? scope name = some cl) : cl.Plain := by
  obtain ⟨-, hscope⟩ := h
  exact hscope _ (Table.mem_of_find? hcl)

/-- What a plain type stands for is plain, if all bodies are. -/
theorem target (hc : ∀ i, (c.get i).body.Plain) {cl target : Closure} (h : cl.Plain)
    (htarget : cl.target? c = some target) : target.Plain := by
  obtain ⟨e, scope, unit⟩ := cl
  rcases Closure.target?_cases htarget with ⟨name, hcl⟩ | ⟨i, name, args, hform, -, rfl⟩
  · exact h.of_find? hcl
  · obtain ⟨hplain, hscope⟩ := h
    refine .mk (hc i) fun p hp => ?_
    obtain ⟨a, ha, heq⟩ := List.mem_map.mp (List.of_mem_zip (Table.mem_of_mem_ofEntries hp)).2
    rw [← heq]
    exact .mk (hplain.arg hform ha) hscope

/-- What a plain type is resolved by is plain, if all bodies are. -/
theorem next (hc : ∀ i, (c.get i).body.Plain) {cl cl' : Closure} (h : cl.Plain)
    (hnext : Next c cl cl') : cl'.Plain := by
  cases hnext with
  | part hform he =>
    obtain ⟨hplain, hscope⟩ := h
    exact .mk (hplain.part hform he) hscope
  | target htarget => exact h.target hc htarget

/-- An open object that is written out is more than closed objects. -/
theorem not_sealed_object {properties : Table (Member TypeExpr)} {scope : List (String × Closure)} {unit : Path} :
    ¬(Closure.mk (.object properties false) scope unit).Sealed c := by
  intro h
  cases h with
  | named htarget =>
    rw [Closure.target?_built rfl] at htarget
    cases htarget

/-- In a catalog of plain bodies plain types are fine. -/
theorem fine (hc : ∀ i, (c.get i).body.Plain) {cl : Closure} (h : cl.Plain) : cl.Fine c := by
  intro cl' hcl'
  have hplain : cl'.Plain := by
    induction hcl' with
    | refl => exact h
    | tail _ hnext ih => exact ih.next hc hnext
  obtain ⟨hplain, -⟩ := hplain
  have hsimple := hplain _ .self
  refine ⟨?_, ?_⟩
  · rintro variants rfl
    exact hsimple
  · rintro members rfl
    refine ⟨hsimple.1, fun e he => ?_⟩
    obtain ⟨properties, rfl⟩ := hsimple.2 e he
    exact not_sealed_object

end Closure.Plain

end RouteManifest
