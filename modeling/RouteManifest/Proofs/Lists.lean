import Mathlib.Data.List.Forall2

/-!
# Lists side by side

What two lists have in common whose elements are related one by one. Mathlib has `List.Forall₂` with its induction;
here are the few consequences that the development uses more than once: a `mapM` relates its input to its output, two
relations in a row make one, and a property that the relation carries over is carried over for the whole list.
-/

namespace RouteManifest

variable {α β γ : Type}

/-- If a function gives an answer for every element, the elements and the answers are side by side. -/
theorem forall₂_of_mapM {f : α → Option β} {as : List α} {bs : List β} (h : as.mapM f = some bs) :
    List.Forall₂ (fun a b => f a = some b) as bs := by
  induction as generalizing bs with
  | nil =>
    rw [List.mapM_nil] at h
    cases h
    exact .nil
  | cons a rest ih =>
    rw [List.mapM_cons] at h
    obtain ⟨b, hb, h⟩ := Option.bind_eq_some_iff.mp h
    obtain ⟨bs, hbs, h⟩ := Option.bind_eq_some_iff.mp h
    cases h
    exact .cons hb (ih hbs)

/-- Answers that are side by side with the elements are all the answers there are. -/
theorem mapM_of_forall₂ {f : α → Option β} {as : List α} {bs : List β} (h : List.Forall₂ (fun a b => f a = some b) as bs) :
    as.mapM f = some bs := by
  induction h with
  | nil => rfl
  | cons hab _ ih =>
    rw [List.mapM_cons, hab, ih]
    rfl

/-- Lists that are related to one in the middle are related to each other. -/
theorem forall₂_comp {R : α → β → Prop} {S : β → γ → Prop} {as : List α} {bs : List β} {cs : List γ}
    (h : List.Forall₂ R as bs) (h' : List.Forall₂ S bs cs) : List.Forall₂ (fun a c => ∃ b, R a b ∧ S b c) as cs := by
  induction h generalizing cs with
  | nil =>
    cases h'
    exact .nil
  | cons hab _ ih =>
    cases h' with
    | cons hbc hrest => exact .cons ⟨_, hab, hbc⟩ (ih hrest)

/-- What is true of related elements together is true of related lists together. -/
theorem forall_mem_congr_of_forall₂ {P : α → Prop} {Q : β → Prop} {l : List α} {l' : List β}
    (h : List.Forall₂ (fun a b => P a ↔ Q b) l l') : (∀ a ∈ l, P a) ↔ ∀ b ∈ l', Q b := by
  induction h with
  | nil => simp
  | cons hab _ ih => simp [hab, ih]

/-- What the relation tells of its right side is true of the right list. -/
theorem forall_of_forall₂ {R : α → β → Prop} {P : β → Prop} {as : List α} {bs : List β} (h : List.Forall₂ R as bs)
    (hP : ∀ {a b}, R a b → P b) : ∀ b ∈ bs, P b := by
  induction h with
  | nil => exact fun _ hb => absurd hb List.not_mem_nil
  | cons hab _ ih => exact List.forall_mem_cons.mpr ⟨hP hab, ih⟩

/-- What is true of any two of some things is true of any two of what they are related to. -/
theorem pairwise_of_forall₂ {R : α → β → Prop} {P : α → α → Prop} {Q : β → β → Prop} {as : List α}
    {bs : List β} (h : List.Forall₂ R as bs) (hP : as.Pairwise P)
    (hQ : ∀ {a a' b b'}, R a b → R a' b' → P a a' → Q b b') : bs.Pairwise Q := by
  induction h with
  | nil => exact .nil
  | @cons a b as bs hab hrest ih =>
    obtain ⟨hfirst, hP⟩ := List.pairwise_cons.mp hP
    refine List.pairwise_cons.mpr ⟨fun b' hb' => ?_, ih hP⟩
    obtain ⟨i, hi, rfl⟩ := List.getElem_of_mem hb'
    have hi' : i < as.length := hrest.length_eq ▸ hi
    exact hQ hab (hrest.get hi' hi) (hfirst _ (List.getElem_mem hi'))

/-- A filter that takes nothing away. -/
theorem forall₂_of_filterMap {f : α → Option β} {as : List α} (h : as.length ≤ (as.filterMap f).length) :
    List.Forall₂ (fun a b => f a = some b) as (as.filterMap f) := by
  induction as with
  | nil => exact .nil
  | cons a rest ih =>
    rw [List.filterMap_cons] at h ⊢
    split at h
    · have := List.length_filterMap_le f rest
      rw [List.length_cons] at h
      omega
    next hb => exact .cons hb (ih (Nat.le_of_succ_le_succ h))

end RouteManifest
