import RouteManifest.Proofs.Resolution.Sharing
import RouteManifest.Proofs.Resolution.Stability

/-!
# The course of calls

What is filled is known, and what is known is not pending (`Recorded`). So in the course of calls that succeed nothing
is forgotten: whatever a moment ends with is still there after all of the calls (`Moment.OnCourse`). And a declaration
that is expanded is registered with the schema its body has been resolved to, unless it shares the id of another one
(`Recorded.own`).

A fact about the end of some calls can so be carried back to any moment in their course, and the other way round. Whoever
is known in the end was expanded at some moment (`Succeeds.fills`), which is how the runs that have made an entry are
found again.
-/

namespace RouteManifest

variable {c : Catalog}

/-! ## What is recorded

The invariant of the resolver's list of identities. It is kept when an expansion begins, ends or fails, hence by every
run, and also by one that fails. -/

/-- The ids that are filled are those of identities that are known, and these are not pending. -/
structure Recorded (p : Pending c) (r : Resolver c) : Prop where
  sound : r.registry.Sound
  ended : ∀ identity id, r.id? identity = some id → p.id? identity = none
  named : ∀ id s, r.registry.get? id = some s → ∃ identity, r.id? identity = some id

/-- In the beginning nothing is filled. -/
theorem recorded_empty : Recorded ({} : Pending c) {} :=
  ⟨Registry.sound_empty, fun _ _ _ => rfl, fun _ _ h => by cases h⟩

namespace Recorded

variable {p : Pending c} {r : Resolver c}

/-- An expansion that begins fills nothing, and its identity was not known. -/
theorem opened (h : Recorded p r) (i : Fin c.size) (args : List Schema) (hknown : r.id? (c.identity i args) = none) :
    Recorded (p.push (c.identity i args) (r.expansionId i args)) (r.opened i args) where
  sound := h.sound.opened i args
  ended := by
    intro identity id hid
    have hne : identity ≠ c.identity i args := by
      rintro rfl
      exact absurd (hknown.symm.trans hid) nofun
    exact (Pending.id?_push_of_ne hne).trans (h.ended identity id hid)
  named := by
    intro id s hs
    rw [Resolver.get?_opened] at hs
    exact h.named id s hs

/-- An expansion that ends becomes known, and is not pending any more. -/
theorem filled {identity : Identity c} {own : String} (hpending : p.id? identity = none)
    (h : Recorded (p.push identity own) r) (body : Schema) (owner : Location) :
    Recorded p (r.filled identity own body owner) where
  sound := h.sound.filled _ _ _ _
  ended := by
    intro other id hid
    by_cases hne : other = identity
    · exact hne ▸ hpending
    · rw [Resolver.id?_filled_of_ne hne] at hid
      exact (Pending.id?_push_of_ne hne).symm.trans (h.ended other id hid)
  named := by
    intro id s hs
    by_cases hown : id = own
    · refine ⟨identity, (Resolver.id?_filled_self _ _ _ _ _).trans (congrArg some ?_)⟩
      rcases Registry.fill_cases r.registry own body owner with
        ⟨_, hf, -⟩ | ⟨_, -, -, hf⟩ | ⟨_, _, -, -, -, -, hf⟩ | ⟨_, _, -, hf⟩
      · rw [hf, hown]
        rfl
      · rw [hf, hown]
        rfl
      · -- the id was given up, and has no schema
        rw [Resolver.filled, hf, hown, Registry.get?, Table.find?_erase_self h.sound.names_nodup] at hs
        cases hs
      · rw [hf, hown]
        rfl
    · rcases Registry.get?_fill h.sound.names_nodup hs with hs | ⟨heq, -⟩
      · obtain ⟨other, hother⟩ := h.named id s hs
        exact ⟨other, (Resolver.id?_filled_of_ne (Pending.ne_of_push (h.ended other id hother))).trans hother⟩
      · exact absurd heq hown

/-- An expansion that fails is not pending any more, and nothing is known of it. -/
theorem released {identity : Identity c} {own : String} (h : Recorded (p.push identity own) r) (id : String) :
    Recorded p (r.released id) where
  sound := h.sound.released _
  ended := by
    intro other id hid
    have hpushed := h.ended other id hid
    exact (Pending.id?_push_of_ne (Pending.ne_of_push hpushed)).symm.trans hpushed
  named := fun id s hs => h.named id s (Registry.get?_of_release h.sound.names_nodup hs)

end Recorded

section Runs

variable {p : Pending c} {t : Task c} {r r' : Resolver c} {out : Except Fault t.Answer}

/-- What is filled is known, and not pending, after any run, be it one that fails. -/
theorem Runs.recorded (h : Runs p t r out r') (hr : Recorded p r) : Recorded p r' :=
  h.invariant (fun i args _ hknown hr => hr.opened i args hknown) (fun _ _ _ body hpending hr => hr.filled hpending body _)
    (fun _ _ id hr => hr.released id) hr

/-- What is known is never forgotten, since it is not pending. -/
theorem Runs.lasts (h : Runs p t r out r') (hr : Recorded p r) : r.LastsIn r' :=
  ⟨fun identity id hid => h.id?_lasts (hr.ended identity id hid) hid, fun _ _ hs => Registry.get?_of_moves h.moves hs⟩

end Runs

/-! ### What is known has a schema

Only a refusal makes a declaration known without an entry, so where calls succeed every id that is known can be looked
up. -/

/-- The identities that are known are known by registered ids. -/
def Resolver.Backed (r : Resolver c) : Prop := ∀ identity id, r.id? identity = some id → ∃ s, r.registry.get? id = some s

/-- An expansion that begins leaves schemas where they are. -/
theorem Resolver.Backed.opened {r : Resolver c} (h : r.Backed) (i : Fin c.size) (args : List Schema) :
    (r.opened i args).Backed := by
  intro identity id hid
  rw [Resolver.get?_opened]
  exact h identity id hid

/-- What succeeds leaves no declaration known without a schema. -/
theorem Runs.backed {p : Pending c} {t : Task c} {r r' : Resolver c} {out : Except Fault t.Answer} (h : Runs p t r out r')
    {answer : t.Answer} (hout : out = .ok answer) (hsound : r.registry.Sound) (hr : r.Backed) : r'.Backed := by
  induction h with
  | cons hhead _ ihHead ihTail => exact ihTail rfl (hsound.moves hhead.moves) (ihHead rfl hsound hr)
  | built _ _ ih => exact ih rfl hsound hr
  | named _ _ _ hargs _ ihArgs ihName => exact ihName hout (hsound.moves hargs.moves) (ihArgs rfl hsound hr)
  | @expanded p name i args origin r body r' _ _ _ hbody ih =>
    have hsound' := hsound.opened i args
    have hr' : r'.Backed := ih rfl hsound' (hr.opened i args)
    obtain ⟨final, hfill, -⟩ := referenceTo_eq_ok.mp hout
    intro identity id hid
    by_cases heq : identity = c.identity i args
    · rw [heq, Resolver.id?_filled_self, hfill] at hid
      cases hid
      exact Registry.exists_get?_of_fill (hsound'.moves hbody.moves) hfill
    · rw [Resolver.id?_filled_of_ne heq] at hid
      obtain ⟨s, hs⟩ := hr' identity id hid
      exact ⟨s, Registry.get?_of_moves (Resolver.filled_moves _ _ _ _ _) hs⟩
  | nil | bound | pending | known => exact hr
  | _ => cases hout

/-- What is known lasts when an expansion ends. -/
theorem Recorded.lastsIn_filled {p : Pending c} {r : Resolver c} {identity : Identity c} {own : String}
    (hr : Recorded (p.push identity own) r) (body : Schema) (owner : Location) :
    r.LastsIn (r.filled identity own body owner) where
  known := fun other id hid => (Resolver.id?_filled_of_ne (Pending.ne_of_push (hr.ended other id hid))).trans hid
  registered := fun _ _ hs => Registry.get?_of_moves (Resolver.filled_moves _ _ _ _ _) hs

/-- An id belongs to one identity only. -/
def Resolver.Apart (r : Resolver c) : Prop :=
  ∀ identity other id, r.id? identity = some id → r.id? other = some id → identity = other

/-- A declaration is registered under its own id if no ids are shared in the end. -/
theorem Recorded.own {p : Pending c} {r final : Resolver c} {identity : Identity c} {own id : String} {body : Schema}
    {owner : Location} (hr : Recorded (p.push identity own) r)
    (hapart : final.Apart) (hlasts : (r.filled identity own body owner).LastsIn final)
    (hfill : (r.registry.fill own body owner).1 = .ok id) :
    final.id? identity = some own ∧ final.registry.get? own = some body := by
  have hid : final.id? identity = some id := by
    refine hlasts.known identity id ((Resolver.id?_filled_self _ _ _ _ _).trans ?_)
    rw [hfill]
    rfl
  -- what was filled before belongs to somebody else
  have hnew (s : Schema) : r.registry.get? id ≠ some s := by
    intro hget
    obtain ⟨other, hother⟩ := hr.named id s hget
    refine Pending.ne_of_push (hr.ended other id hother) (hapart other identity id ?_ hid)
    exact hlasts.known other id ((hr.lastsIn_filled body owner).known other id hother)
  rcases Registry.fill_cases r.registry own body owner with
    ⟨_, hf, -⟩ | ⟨existing, hget, -, hf⟩ | ⟨_, shared, -, hshared, -, -, hf⟩ | ⟨explicit, order, -, hf⟩
  · rw [hf] at hfill
    cases hfill
  · rw [hf] at hfill
    cases hfill
    exact absurd hget (hnew existing)
  · rw [hf] at hfill
    cases hfill
    obtain ⟨existing, hget, -⟩ := hr.sound.index_filled _ _ hshared
    exact absurd hget (hnew existing)
  · rw [hf] at hfill
    cases hfill
    refine ⟨hid, hlasts.registered own body ?_⟩
    rw [Resolver.filled, hf, Registry.get?_store, if_pos rfl]

/-! ## Moments that succeed

Calls that succeed do so at every moment: a task that fails makes whatever waits for it fail. -/

/-- The body of a declaration that is applied to arguments. -/
abbrev Task.ofBody (i : Fin c.size) (args : List Schema) : Task c :=
  .node ((c.get i).scope args) (c.get i).location (c.get i).body

/-- A moment ends well, and all that is there when it ends is there in the end. -/
structure Moment.OnCourse (final : Resolver c) (m : Moment c) : Prop where
  recorded : Recorded m.pending m.resolver
  ends : ∃ answer r', Runs m.pending m.task m.resolver (.ok answer) r' ∧ r'.LastsIn final

namespace Moment.OnCourse

variable {final : Resolver c} {m m' : Moment c}

/-- What is there when the task of a moment ends is there in the end. -/
theorem lasts (h : m.OnCourse final) {out : Except Fault m.task.Answer} {r' : Resolver c}
    (hrun : Runs m.pending m.task m.resolver out r') : r'.LastsIn final := by
  obtain ⟨answer, r'', hends, hlasts⟩ := h.ends
  obtain ⟨-, rfl⟩ := Prod.mk.inj (hends.eq.symm.trans hrun.eq)
  exact hlasts

/-- The tasks that such a moment starts are on the same course. -/
theorem starts (h : m.OnCourse final) (hstarts : m.Starts m') : m'.OnCourse final := by
  obtain ⟨hr, answer, r', hrun, hlasts⟩ := h
  cases hstarts with
  | head =>
    cases hrun with
    | cons hhead htail => exact ⟨hr, _, _, hhead, (htail.lasts (hhead.recorded hr)).trans hlasts⟩
  | tail hhead =>
    cases hrun with
    | cons hhead' htail =>
      -- runs compute, so the head has come to the same state
      obtain ⟨-, rfl⟩ := Prod.mk.inj (hhead'.eq.symm.trans hhead.eq)
      exact ⟨hhead.recorded hr, _, _, htail, hlasts⟩
  | parts he =>
    obtain ⟨l, hparts, -⟩ := hrun.of_built rfl he
    exact ⟨hr, l, _, hparts, hlasts⟩
  | args he hs hi =>
    obtain ⟨l, q, hargs, hname⟩ := hrun.of_named rfl he hs hi
    exact ⟨hr, l, q, hargs, (hname.lasts (hargs.recorded hr)).trans hlasts⟩
  | apply he hs hi hargs =>
    obtain ⟨l, q, hargs', hname⟩ := hrun.of_named rfl he hs hi
    obtain ⟨heq, rfl⟩ := Prod.mk.inj (hargs'.eq.symm.trans hargs.eq)
    cases heq
    exact ⟨hargs.recorded hr, _, _, hname, hlasts⟩
  | @body p name i args origin r hp hk hd =>
    have hr' := hr.opened i args hk
    generalize hout : Except.ok answer = out at hrun
    cases hrun with
    | pending hid =>
      rw [hp] at hid
      cases hid
    | known _ hid =>
      rw [hk] at hid
      cases hid
    | expanded _ _ _ hbody => exact ⟨hr', _, _, hbody, ((hbody.recorded hr').lastsIn_filled _ _).trans hlasts⟩
    | deep | expandedFault => cases hout

/-- What is expanded is registered under its own id if no ids are shared in the end. -/
theorem own {p : Pending c} {name : String} {i : Fin c.size} {args : List Schema} {origin : Location} {r r' : Resolver c}
    {body : Schema} (h : OnCourse final ⟨p, .apply name i args origin, r⟩) (hapart : final.Apart)
    (hp : p.id? (c.identity i args) = none) (hk : r.id? (c.identity i args) = none)
    (hd : ¬(args ≠ [] ∧ maxGenericDepth ≤ p.depth))
    (hbody : Runs (p.push (c.identity i args) (r.expansionId i args)) (.ofBody i args) (r.opened i args) (.ok body) r') :
    final.id? (c.identity i args) = some (r.expansionId i args) ∧
      final.registry.get? (r.expansionId i args) = some body := by
  obtain ⟨hr, answer, r'', hrun, hlasts⟩ := h
  obtain ⟨hout, rfl⟩ := Prod.mk.inj (hrun.eq.symm.trans (Runs.expanded hp hk hd hbody).eq)
  obtain ⟨id, hfill, -⟩ := referenceTo_eq_ok.mp hout.symm
  exact (hbody.recorded (hr.opened i args hk)).own hapart hlasts hfill

end Moment.OnCourse

namespace Resolver

variable {r : Resolver c} {calls : List (TypeExpr × Location)}

/-! ### Several calls

Calls in a row are a fold over the resolver, and each moment of them belongs to one call, which starts from what the
calls before it have left. -/

/-- A moment that is waited for in the course of calls is a moment of these calls. -/
theorem Passes.starts {m m' : Moment c} (h : r.Passes calls m) (hstarts : m.Starts m') : r.Passes calls m' := by
  induction calls generalizing r with
  | nil => exact h.elim
  | cons call calls ih => exact h.imp (fun hm => hm.tail hstarts) ih

theorem Passes.within {m m' : Moment c} (h : r.Passes calls m) (hm : m.Within m') : r.Passes calls m' :=
  hm.invariant Passes.starts h

/-- Calls can be made in two portions. -/
theorem after_append (r : Resolver c) (calls more : List (TypeExpr × Location)) :
    r.after (calls ++ more) = (r.after calls).after more := by
  induction calls generalizing r with
  | nil => rfl
  | cons call calls ih => exact ih _

/-- A moment belongs to the first portion or to the second, which begins where the first has ended. -/
theorem passes_append {more : List (TypeExpr × Location)} {m : Moment c} :
    r.Passes (calls ++ more) m ↔ r.Passes calls m ∨ (r.after calls).Passes more m := by
  induction calls generalizing r with
  | nil => exact (false_or _).symm ▸ Iff.rfl
  | cons call calls ih => exact (or_congr_right ih).trans or_assoc.symm

/-- Every moment belongs to one of the calls. -/
theorem Passes.exists_call {m : Moment c} (h : r.Passes calls m) :
    ∃ e origin q, r.Passes calls (.call e origin q) ∧ (Moment.call e origin q).Within m := by
  induction calls generalizing r with
  | nil => exact h.elim
  | cons call calls ih =>
    rcases h with hm | hm
    · exact ⟨call.1, call.2, r, Or.inl .refl, hm⟩
    · obtain ⟨e, origin, q, hpasses, hm⟩ := ih hm
      exact ⟨e, origin, q, Or.inr hpasses, hm⟩

/-- Every moment of calls that succeed is on the course to what is there after them. -/
theorem Succeeds.onCourse (hsucceeds : r.Succeeds calls) (hr : Recorded {} r) {m : Moment c} (hm : r.Passes calls m) :
    m.OnCourse (r.after calls) := by
  induction calls generalizing r with
  | nil => exact hm.elim
  | cons call calls ih =>
    obtain ⟨e, origin⟩ := call
    obtain ⟨⟨s, hs⟩, hrest⟩ := hsucceeds
    have hrun : Runs {} (.node [] origin e) r (.ok s) ((resolve e origin).run r).2 := runs_iff.mpr (Prod.ext hs rfl)
    rcases hm with hm | hm
    · exact hm.invariant Moment.OnCourse.starts ⟨hr, s, _, hrun, lastsIn_after _ calls⟩
    · exact ih hrest (hrun.recorded hr) hm

/-- What is pending at some moment is known by its id after all calls, if no ids are shared then. -/
theorem Succeeds.pending (hsucceeds : r.Succeeds calls) (hr : Recorded {} r) (hapart : (r.after calls).Apart)
    {m : Moment c} (hm : r.Passes calls m) {identity : Identity c} {id : String}
    (hid : m.pending.id? identity = some id) : (r.after calls).id? identity = some id := by
  obtain ⟨e, origin, q, hcall, hwithin⟩ := hm.exists_call
  have hinvariant : r.Passes calls m ∧
      ∀ identity id, m.pending.id? identity = some id → (r.after calls).id? identity = some id := by
    refine hwithin.invariant (P := fun m => r.Passes calls m ∧
      ∀ identity id, m.pending.id? identity = some id → (r.after calls).id? identity = some id) ?_ ⟨hcall, nofun⟩
    rintro m m' ⟨hm, hpending⟩ hstarts
    have hm' := hm.starts hstarts
    refine ⟨hm', ?_⟩
    cases hstarts with
    | @body p name i args origin q hp hk hd =>
      obtain ⟨-, body, q', hbody, -⟩ := hsucceeds.onCourse hr hm'
      obtain ⟨hown, -⟩ := (hsucceeds.onCourse hr hm).own hapart hp hk hd hbody
      intro identity id hid
      by_cases heq : identity = c.identity i args
      · rw [heq, Pending.id?_push_self] at hid
        exact heq ▸ hid ▸ hown
      · exact hpending identity id ((Pending.id?_push_of_ne heq).symm.trans hid)
    | _ => exact hpending
  exact hinvariant.2 identity id hid

/-- What calls that succeed keep is true after all of them. -/
theorem Succeeds.invariant (hsucceeds : r.Succeeds calls) {P : Resolver c → Prop} (hr : P r)
    (kept : ∀ {q q' : Resolver c} {e : TypeExpr} {origin : Location} {s : Schema}, (e, origin) ∈ calls → P q →
      Runs {} (.node [] origin e) q (.ok s) q' → (∀ m, (Moment.call e origin q).Within m → r.Passes calls m) → P q') :
    P (r.after calls) := by
  induction calls generalizing r with
  | nil => exact hr
  | cons call calls ih =>
    obtain ⟨e, origin⟩ := call
    obtain ⟨⟨s, hs⟩, hrest⟩ := hsucceeds
    have hrun : Runs {} (.node [] origin e) r (.ok s) ((resolve e origin).run r).2 := runs_iff.mpr (Prod.ext hs rfl)
    refine ih hrest (kept List.mem_cons_self hr hrun fun m hm => Or.inl hm) ?_
    exact fun hcall hq hrun hpasses => kept (List.mem_cons_of_mem _ hcall) hq hrun fun m hm => Or.inr (hpasses m hm)

/-- Every one of some calls that succeed is made. -/
theorem Succeeds.exists_run (hsucceeds : r.Succeeds calls) {e : TypeExpr} {origin : Location}
    (hcall : (e, origin) ∈ calls) :
    ∃ q s q', r.Passes calls (Moment.call e origin q) ∧ Runs {} (.node [] origin e) q (.ok s) q' := by
  induction calls generalizing r with
  | nil => cases hcall
  | cons call calls ih =>
    obtain ⟨⟨s, hs⟩, hrest⟩ := hsucceeds
    rcases List.mem_cons.mp hcall with rfl | hcall
    · exact ⟨r, s, _, Or.inl .refl, runs_iff.mpr (Prod.ext hs rfl)⟩
    · obtain ⟨q, s, q', hpasses, hrun⟩ := ih hrest hcall
      exact ⟨q, s, q', Or.inr hpasses, hrun⟩

end Resolver

/-! ## Whoever is known

An identity becomes known at the end of its expansion and in no other way, so there is a moment to go back to. -/

/-- The identity of a declaration with arguments that a moment fills. -/
def Moment.FillsFor (m : Moment c) (identity : Identity c) : Prop :=
  ∃ name i args origin own body before, m.task = .apply name i args origin ∧ identity = c.identity i args ∧
    m.Fills own body before

/-- Whoever becomes known is expanded. -/
theorem Runs.fills {passed : Moment c → Prop} {p : Pending c} {t : Task c} {r r' : Resolver c}
    {out : Except Fault t.Answer} (h : Runs p t r out r') {answer : t.Answer} (hout : out = .ok answer)
    (hpassed : ∀ m, Moment.Within ⟨p, t, r⟩ m → passed m)
    (hr : ∀ entry ∈ r.known, ∃ m, passed m ∧ m.FillsFor entry.1) :
    ∀ entry ∈ r'.known, ∃ m, passed m ∧ m.FillsFor entry.1 := by
  induction h with
  | cons hhead _ ihHead ihTail =>
    cases hout
    exact ihTail rfl (fun m hm => hpassed m (.head (.tail hhead) hm))
      (ihHead rfl (fun m hm => hpassed m (.head .head hm)) hr)
  | built he _ ih =>
    cases hout
    exact ih rfl (fun m hm => hpassed m (.head (.parts he) hm)) hr
  | named he hs hi hargs _ ihArgs ihName =>
    exact ihName hout (fun m hm => hpassed m (.head (.apply he hs hi hargs) hm))
      (ihArgs rfl (fun m hm => hpassed m (.head (.args he hs hi) hm)) hr)
  | @expanded p name i args origin r body r' hp hk hd hbody ih =>
    have hknown := ih rfl (fun m hm => hpassed m (.head (.body hp hk hd) hm)) hr
    refine List.forall_mem_cons.mpr ⟨⟨_, hpassed _ .refl, ?_⟩, hknown⟩
    exact ⟨name, i, args, origin, _, body, _, rfl, rfl, .expanded hp hk hd hbody⟩
  | nil | bound | pending | known => exact hr
  | _ => cases hout

/-- Whoever is known after calls that succeed was expanded at a moment of one of them. -/
theorem Resolver.Succeeds.fills {calls : List (TypeExpr × Location)} (hsucceeds : ({} : Resolver c).Succeeds calls)
    {identity : Identity c} {id : String} (hid : (({} : Resolver c).after calls).id? identity = some id) :
    ∃ m, ({} : Resolver c).Passes calls m ∧ m.FillsFor identity := by
  have hfills := hsucceeds.invariant (P := fun r => ∀ entry ∈ r.known, ∃ m, ({} : Resolver c).Passes calls m ∧
    m.FillsFor entry.1) nofun fun _ hr hrun hpassed => hrun.fills rfl hpassed hr
  exact hfills _ (mem_of_id? hid)

end RouteManifest
