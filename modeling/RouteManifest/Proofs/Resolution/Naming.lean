import Mathlib.Data.Set.Function
import RouteManifest.Proofs.Schema.Renaming
import RouteManifest.Resolution.Basic

/-!
# What instantiations are called

Ids are handed out as declarations are come across, so in another order the same instantiation may have another id; and
so may its arguments, which point at ids themselves. Two namings give the same instantiation two ids (`Naming.Matches`).
If they share ids alike (`Naming.Alike`), then the ids of the one are the ids of the other, renamed; in particular if they
do not share ids at all (`Naming.Distinct.alike`).
-/

namespace RouteManifest

variable {c : Catalog}

/-- Which declarations with which arguments have which ids. -/
abbrev Naming (c : Catalog) := Fin c.size → List Schema → String → Prop

namespace Naming

/-- The ids that one instantiation has in two namings. Its arguments in the one are its arguments in the other, if the
ids in them are renamed, which again are ids of one instantiation. -/
inductive Matches (called called' : Naming c) : String → String → Prop where
  | mk {i args id id'} (f : String → String) :
      called i args id → called' i (args.map (Schema.mapRefs f)) id' →
      (∀ s ∈ args, ∀ k ∈ s.refIds, Matches called called' k (f k)) → Matches called called' id id'

/-- Instantiations that both namings have share an id in the one if and only if they do in the other. -/
def Alike (called called' : Naming c) : Prop :=
  ∀ id id' k k', called.Matches called' id id' → called.Matches called' k k' → (id = k ↔ id' = k')

/-- Every instantiation has one id, and no other instantiation has it. -/
structure Distinct (called : Naming c) : Prop where
  functional {i args id id'} : called i args id → called i args id' → id = id'
  apart {i args j args' id} : called i args id → called j args' id → i = j ∧ args = args'

variable {called called' : Naming c}

/-- A declaration without arguments is the same in all namings. -/
theorem Matches.of_nil {i : Fin c.size} {id id' : String} (h : called i [] id) (h' : called' i [] id') :
    called.Matches called' id id' := .mk (fun k => k) h h' nofun

/-- There is a renaming that takes every id to the one of the same instantiation, and one that takes it back. -/
theorem Alike.exists_renaming (h : called.Alike called') :
    ∃ f g : String → String, ∀ id id', called.Matches called' id id' → f id = id' ∧ g id' = id := by
  have hchoice {R : String → String → Prop} (hR : ∀ a b b', R a b → R a b' → b = b') :
      ∃ f : String → String, ∀ a b, R a b → f a = b := by
    classical
    refine ⟨fun a => if ha : ∃ b, R a b then ha.choose else a, fun a b hab => ?_⟩
    have ha : ∃ b, R a b := ⟨b, hab⟩
    simp only [dif_pos ha]
    exact hR _ _ _ ha.choose_spec hab
  obtain ⟨f, hf⟩ := hchoice fun id id' k' hid hk => (h id id' id k' hid hk).mp rfl
  obtain ⟨g, hg⟩ := hchoice (R := fun id' id => called.Matches called' id id')
    fun id' id k hid hk => (h id id' k id' hid hk).mpr rfl
  exact ⟨f, g, fun id id' hid => ⟨hf id id' hid, hg id' id hid⟩⟩

/-! ## Without sharing

If no two instantiations share an id, an id tells its instantiation, so that matching is a function in both directions.
-/

section Distinct

variable (h : called.Distinct) (h' : called'.Distinct)
include h h'

/-- Without sharing, an id matches one id at most. -/
theorem Matches.functional {id a b : String} (ha : called.Matches called' id a) (hb : called.Matches called' id b) :
    a = b := by
  induction ha generalizing b with
  | @mk i args id a f hcalled hcalled' _ ih =>
    obtain ⟨g, hother, hother', hargs⟩ := hb
    obtain ⟨rfl, rfl⟩ := h.apart hcalled hother
    -- the ids in the arguments are renamed in one way only
    have heq : args.map (Schema.mapRefs f) = args.map (Schema.mapRefs g) :=
      List.map_congr_left fun s hs => Schema.mapRefs_congr fun k hk => ih s hs k hk (hargs s hs k hk)
    exact h'.functional hcalled' (heq ▸ hother')

/-- Without sharing, matching goes both ways. -/
theorem Matches.symm {id id' : String} (hid : called.Matches called' id id') : called'.Matches called id' id := by
  induction hid with
  | @mk i args id id' f hcalled hcalled' _ ih =>
    let inside : Set String := {k | ∃ s ∈ args, k ∈ s.refIds}
    have hinj : inside.InjOn f := by
      rintro a ⟨s, hs, ha⟩ b ⟨t, ht, hb⟩ hab
      exact Matches.functional h' h (ih s hs a ha) (hab ▸ ih t ht b hb)
    have hinverse : ∀ s ∈ args, ∀ k ∈ s.refIds, Function.invFunOn f inside (f k) = k :=
      fun s hs k hk => hinj.leftInvOn_invFunOn ⟨s, hs, hk⟩
    have hargs : (args.map (Schema.mapRefs f)).map (Schema.mapRefs (Function.invFunOn f inside)) = args := by
      rw [List.map_map]
      exact (List.map_congr_left fun s hs => Schema.mapRefs_inverse (hinverse s hs)).trans (List.map_id args)
    refine .mk (Function.invFunOn f inside) hcalled' (hargs.symm ▸ hcalled) fun t ht k hk => ?_
    obtain ⟨s, hs, rfl⟩ := List.mem_map.mp ht
    rw [Schema.refIds_mapRefs] at hk
    obtain ⟨a, ha, rfl⟩ := List.mem_map.mp hk
    rw [hinverse s hs a ha]
    exact ih s hs a ha

/-- Namings that do not share ids share them alike. -/
theorem Distinct.alike : called.Alike called' := by
  rintro id id' k k' hid hk
  constructor
  · rintro rfl
    exact Matches.functional h h' hid hk
  · rintro rfl
    exact Matches.functional h' h (Matches.symm h h' hid) (Matches.symm h h' hk)

end Distinct

end Naming

end RouteManifest
