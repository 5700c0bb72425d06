import RouteManifest.Proofs.Resolution.Course
import RouteManifest.Proofs.Resolution.Naming
import RouteManifest.Proofs.Resolution.Renamed

/-!
# Steady calls

The course of some calls shows in their schemas in two ways. Unions and intersections look at what is filled, and pass
over what is not filled yet; and of declarations with equal schemas the one that is filled first gives its schema to the
others, with its order of properties. Calls are *steady* if neither happens: if all that is looked at is filled
(`Moment.Anchored`), and every declaration is registered with what its own body has been resolved to, under the id that
it has been answered with all along.

Only where several parts are put together is anything looked at: a union with one variant besides null, such as an
optional node inside a node, takes it as it is (`TypeExpr.Looks`).

Without sharing, only the first can happen (`Resolver.Succeeds.steady_of_distinct`). It cannot in a catalog where cycles
do not run through what several parts are put together of (`Catalog.LooksOutside`), so above all in one without cycles:
what is pending leads to the expression that is resolved, so what this mentions is pending only if it leads to itself
(`Resolver.Succeeds.anchored`).
-/

namespace RouteManifest

variable {c : Catalog}

/-! ## What calls come to

All of this is said of several calls, one after another. The naming of a list of calls is what is known when they are
over, for the declarations that they have come to. -/

namespace Catalog

/-- Where several parts are put together inside a declaration, they mention none that leads to itself. -/
def LooksOutside (c : Catalog) : Prop :=
  ∀ (k : Fin c.size) (x y : TypeExpr) (name : String) (args : List TypeExpr) (j : Fin c.size),
    x.Inside (c.get k).body → x.Looks → y.Inside x → y.form = .named name args →
    c.lookup? name (c.get k).location.unit = some j → ¬c.Leads j j

/-- Some calls come to a declaration with arguments. -/
def Applies (c : Catalog) (calls : List (TypeExpr × Location)) (i : Fin c.size) (args : List Schema) : Prop :=
  ∃ m name origin, ({} : Resolver c).Passes calls m ∧ m.task = .apply name i args origin

/-- What the declarations that some calls come to are known by afterwards. -/
def Knows (c : Catalog) (calls : List (TypeExpr × Location)) : Naming c := fun i args id =>
  c.Applies calls i args ∧ (({} : Resolver c).after calls).id? (c.identity i args) = some id

/-- In the course of some calls a declaration is applied to arguments, and its body comes to a schema. -/
def Expands (c : Catalog) (calls : List (TypeExpr × Location)) (i : Fin c.size) (args : List Schema) (s : Schema) : Prop :=
  ∃ p q q', ({} : Resolver c).Passes calls ⟨p, .ofBody i args, q⟩ ∧ Runs p (.ofBody i args) q (.ok s) q'

end Catalog

namespace Moment

/-- If several parts of a union or an intersection are put together at a moment, all that they point at is filled by
then. -/
def Anchored (m : Moment c) : Prop :=
  ∀ scope origin e parts build l r', m.task = .node scope origin e → e.form = .built parts build → e.Looks →
    Runs m.pending (.list scope origin parts) m.resolver (.ok l) r' → ∀ s ∈ l, r'.registry.Anchors s

/-- If a moment is about a declaration, the id that it answers with is what the declaration is known by in the end. -/
def Kept (final : Resolver c) (m : Moment c) : Prop :=
  ∀ name i args origin id r', m.task = .apply name i args origin →
    Runs m.pending (.apply name i args origin) m.resolver (.ok (.reference id)) r' →
    final.id? (c.identity i args) = some id

end Moment

/-- Calls that succeed, do not look at what is not filled yet, and take nothing from a declaration by sharing: it keeps
the ids that it has been answered with, and its id has the schema that its own body has been resolved to. -/
structure Catalog.Steady (c : Catalog) (calls : List (TypeExpr × Location)) : Prop where
  succeeds : ({} : Resolver c).Succeeds calls
  anchored : ∀ m, ({} : Resolver c).Passes calls m → m.Anchored
  kept : ∀ m, ({} : Resolver c).Passes calls m → m.Kept (({} : Resolver c).after calls)
  own : ∀ i args id, c.Knows calls i args id →
    ∃ s, c.Expands calls i args s ∧ (({} : Resolver c).after calls).registry.get? id = some s

namespace Resolver.Succeeds

variable {calls : List (TypeExpr × Location)} (hsucceeds : ({} : Resolver c).Succeeds calls)
include hsucceeds

/-- What is known after some calls, they have come to. -/
theorem knows {identity : Identity c} {id : String} (hid : (({} : Resolver c).after calls).id? identity = some id) :
    ∃ i args, identity = c.identity i args ∧ c.Knows calls i args id := by
  obtain ⟨m, hm, name, i, args, origin, -, -, -, htask, rfl, -⟩ := hsucceeds.fills hid
  exact ⟨i, args, rfl, ⟨m, name, origin, hm, htask⟩, hid⟩

/-- A declaration without arguments that is known has been come to. -/
theorem knows_nil {i : Fin c.size} {id : String} (hid : (({} : Resolver c).after calls).id? ⟨i, []⟩ = some id) :
    c.Knows calls i [] id := by
  obtain ⟨j, args, heq, hknows⟩ := hsucceeds.knows hid
  obtain ⟨rfl, hargs⟩ := Identity.mk.inj heq
  rwa [List.map_eq_nil_iff.mp hargs.symm] at hknows

/-! ## Without sharing

If no id is known twice, then no schema has given way to another one, so that every declaration has kept its own. -/

/-- Where no id is known twice, known identities are apart. -/
theorem apart (hdistinct : (c.Knows calls).Distinct) : (({} : Resolver c).after calls).Apart := by
  intro identity other id hid hother
  obtain ⟨i, args, rfl, hknows⟩ := hsucceeds.knows hid
  obtain ⟨j, args', rfl, hknows'⟩ := hsucceeds.knows hother
  obtain ⟨rfl, rfl⟩ := hdistinct.apart hknows hknows'
  rfl

/-- Without sharing calls are steady if they do not look at what is not filled yet. -/
theorem steady_of_distinct (hanchored : ∀ m, ({} : Resolver c).Passes calls m → m.Anchored)
    (hdistinct : (c.Knows calls).Distinct) : c.Steady calls where
  succeeds := hsucceeds
  anchored := hanchored
  kept := by
    rintro ⟨p, t, r⟩ hm name i args origin id r' rfl hrun
    have hlasts := (hsucceeds.onCourse recorded_empty hm).lasts hrun
    obtain ⟨other, heq, hid⟩ := hrun.exists_id rfl
    obtain rfl := Schema.reference_inj heq
    rcases hid with hid | hid
    · exact hsucceeds.pending recorded_empty (hsucceeds.apart hdistinct) hm hid
    · exact hlasts.known _ _ hid
  own := by
    rintro i args id hknows
    obtain ⟨m, hm, name, j, args', origin, own, body, before, htask, hidentity, hfills⟩ := hsucceeds.fills hknows.2
    obtain ⟨rfl, rfl⟩ := hdistinct.apart hknows ⟨⟨m, name, origin, hm, htask⟩, hidentity ▸ hknows.2⟩
    cases hfills with
    | expanded hp hk hd hbody =>
      cases htask
      obtain ⟨hown, hget⟩ := (hsucceeds.onCourse recorded_empty hm).own (hsucceeds.apart hdistinct) hp hk hd hbody
      obtain rfl := Option.some.inj (hknows.2.symm.trans hown)
      exact ⟨body, ⟨_, _, _, hm.starts (.body hp hk hd), hbody⟩, hget⟩

/-! ## Without cycles through what is looked at

It remains to see that the parts which are put together point at entries. A part points at the ids of the names in it,
and these are filled unless their declarations are pending. -/

end Resolver.Succeeds

section Names

variable {p : Pending c} {r r' : Resolver c}

/-- A name is answered with a registered id unless its declaration is pending. -/
theorem Runs.anchors_apply {name : String} {i : Fin c.size} {args : List Schema} {origin : Location}
    {out : Except Fault Schema} (h : Runs p (.apply name i args origin) r out r') {s : Schema} (hout : out = .ok s)
    (hr : r.registry.Sound) (hbacked : r.Backed) (hfree : p.id? (c.identity i args) = none) : r'.registry.Anchors s := by
  obtain ⟨id, rfl, hid | hid⟩ := h.exists_id hout
  · rw [hfree] at hid
    cases hid
  · obtain ⟨t, ht⟩ := h.backed hout hr hbacked _ _ hid
    exact .reference ht

/-- The answers of a task point at registered ids if what it is given does, and nothing that it mentions is pending. -/
theorem Runs.anchors {t : Task c} {out : Except Fault t.Answer} (h : Runs p t r out r') {answer : t.Answer}
    (hout : out = .ok answer) (hr : r.registry.Sound) (hbacked : r.Backed) (hin : ∀ s ∈ t.inputs, r.registry.Anchors s)
    (hfree : ∀ j, t.Mentions j → ∀ args, p.id? (c.identity j args) = none) :
    ∀ s ∈ t.outputs answer, r'.registry.Anchors s := by
  induction h with
  | nil =>
    cases hout
    exact nofun
  | cons hhead htail ihHead ihTail =>
    cases hout
    have hs := ihHead rfl hr hbacked hin fun j hj => hfree j hj.of_head
    have hl := ihTail rfl (hr.moves hhead.moves) (hhead.backed rfl hr hbacked)
      (fun s hs => (hin s hs).mono fun _ _ => Registry.get?_of_moves hhead.moves) fun j hj => hfree j hj.of_tail
    refine List.forall_mem_cons.mpr ⟨?_, hl⟩
    exact (hs _ List.mem_cons_self).mono fun _ _ => Registry.get?_of_moves htail.moves
  | built he _ ih =>
    cases hout
    have hl := ih rfl hr hbacked hin fun j hj => hfree j (hj.of_list fun _ ha _ hx => .part he ha hx)
    exact List.forall_mem_singleton.mpr (TypeExpr.anchors_build he hl)
  | bound _ hs =>
    cases hout
    exact List.forall_mem_singleton.mpr (hin _ (List.mem_map_of_mem (f := Prod.snd) (Table.mem_of_find? hs)))
  | @named p scope origin e name args i r l r' out r'' he _ hi hargs hname _ _ =>
    have hmentions : (Task.node scope origin e : Task c).Mentions i :=
      .of_apply (l := l) he (Catalog.applied_eq_ok.mp hi).1 rfl
    exact List.forall_mem_singleton.mpr (hname.anchors_apply hout (hr.moves hargs.moves) (hargs.backed rfl hr hbacked)
      (hfree i hmentions _))
  | @pending p name i args origin r id hid =>
    have hrun : Runs p (.apply name i args origin) r (.ok (.reference id)) r := .pending hid
    exact List.forall_mem_singleton.mpr (hrun.anchors_apply hout hr hbacked (hfree i rfl args))
  | @known p name i args origin r id hp hid =>
    have hrun : Runs p (.apply name i args origin) r (.ok (.reference id)) r := .known hp hid
    exact List.forall_mem_singleton.mpr (hrun.anchors_apply hout hr hbacked (hfree i rfl args))
  | @expanded p name i args origin r body r' hp hk hd hbody =>
    have hrun : Runs p (.apply name i args origin) r _ _ := .expanded hp hk hd hbody
    exact List.forall_mem_singleton.mpr (hrun.anchors_apply hout hr hbacked (hfree i rfl args))
  | _ => cases hout

end Names

/-- What is pending leads to the task, which is given no schemas, and everything that is known has one. -/
structure Moment.Plain (m : Moment c) : Prop where
  lead : m.pending.LeadTo m.task
  inputs : m.task.inputs = []
  sound : m.resolver.registry.Sound
  backed : m.resolver.Backed

namespace Moment.Plain

variable (hplain : ∀ i, (c.get i).typeParams = [])
include hplain

/-- A plain moment starts plain ones, if no declaration has type parameters. -/
theorem starts {m m' : Moment c} (h : m.Plain) (hstarts : m.Starts m') : m'.Plain := by
  obtain ⟨hlead, hin, hr, hbacked⟩ := h
  cases hstarts with
  | head => exact ⟨hlead.head, hin, hr, hbacked⟩
  | tail hhead => exact ⟨hlead.tail, hin, hr.moves hhead.moves, hhead.backed rfl hr hbacked⟩
  | parts he => exact ⟨hlead.list fun _ ha _ hx => .part he ha hx, hin, hr, hbacked⟩
  | args he => exact ⟨hlead.list fun _ ha _ hx => .arg he ha hx, hin, hr, hbacked⟩
  | apply he _ hi hargs =>
    obtain ⟨hlookup, hcount⟩ := Catalog.applied_eq_ok.mp hi
    refine ⟨hlead.apply he hlookup _, ?_, hr.moves hargs.moves, hargs.backed rfl hr hbacked⟩
    rw [hplain] at hcount
    exact List.length_eq_zero_iff.mp (hargs.length_eq.trans hcount.symm)
  | @body p name i args origin r =>
    refine ⟨hlead.push _, List.eq_nil_iff_forall_not_mem.mpr fun s hs => ?_, hr.opened i args, hbacked.opened i args⟩
    have harg : s ∈ args := Declaration.mem_of_mem_scope hs
    rw [show args = [] from hin] at harg
    cases harg

/-- Every moment of calls that succeed is so, if no declaration has type parameters. -/
theorem passes {r : Resolver c} (hr : r.registry.Sound) (hbacked : r.Backed) {calls : List (TypeExpr × Location)}
    (hsucceeds : r.Succeeds calls) {m : Moment c} (hm : r.Passes calls m) : m.Plain := by
  induction calls generalizing r with
  | nil => exact hm.elim
  | cons call calls ih =>
    obtain ⟨e, origin⟩ := call
    obtain ⟨⟨s, hs⟩, hrest⟩ := hsucceeds
    have hrun := Task.runs {} (.node [] origin e) r
    rcases hm with hm | hm
    · exact hm.invariant (starts hplain) ⟨Pending.leadTo_empty _, rfl, hr, hbacked⟩
    · exact ih (hr.moves hrun.moves) (hrun.backed hs hr hbacked) hrest hm

end Moment.Plain

namespace Resolver.Succeeds

variable {calls : List (TypeExpr × Location)} (hsucceeds : ({} : Resolver c).Succeeds calls)
  (hplain : ∀ i, (c.get i).typeParams = [])
include hsucceeds hplain

/-- In the course of calls that succeed all moments are plain. -/
theorem plain {m : Moment c} (hm : ({} : Resolver c).Passes calls m) : m.Plain :=
  .passes hplain Registry.sound_empty (fun _ _ h => by cases h) hsucceeds hm

/-- Whatever is looked at is filled by then: it is mentioned where several parts are put together, so it does not lead to
itself, and hence is not pending. -/
theorem anchored (hlooks : c.LooksOutside) {m : Moment c} (hm : ({} : Resolver c).Passes calls m) : m.Anchored := by
  obtain ⟨hlead, hin, hr, hbacked⟩ := hsucceeds.plain hplain hm
  obtain ⟨p, t, r⟩ := m
  rintro scope origin e parts build l r' rfl he hlooking hparts
  have hnone : ∀ s ∈ (Task.list scope origin parts : Task c).inputs, r.registry.Anchors s := by
    rw [show (Task.list scope origin parts : Task c).inputs = [] from hin]
    exact nofun
  refine hparts.anchors rfl hr hbacked hnone fun j hj args => ?_
  rw [Option.eq_none_iff_forall_ne_some]
  intro id hid
  have hentry := Pending.mem_of_id? hid
  have hmentions : (Task.node scope origin e : Task c).Mentions j := hj.of_list fun _ ha _ hx => .part he ha hx
  have hself : c.Leads j j := hlead.mentions _ hentry j hmentions
  obtain ⟨k, -, hinside, hunit⟩ := hlead.meets _ hentry hself e origin.unit ⟨.self, rfl⟩
  obtain ⟨y, name, names, unit, ⟨hy, rfl⟩, hform, hlookup⟩ := hmentions
  exact hlooks k e y name names j hinside hlooking hy hform (hunit ▸ hlookup) hself

/-- Nothing is shared when no id is known twice. -/
theorem distinct (hnodup : ((({} : Resolver c).after calls).known.map Prod.snd).Nodup) :
    (c.Knows calls).Distinct where
  functional := fun hid hid' => Option.some.inj (hid.2.symm.trans hid'.2)
  apart := by
    have hnil {i : Fin c.size} {args : List Schema} (h : c.Applies calls i args) : args = [] := by
      obtain ⟨⟨p, t, r⟩, name, origin, hm, rfl⟩ := h
      exact (hsucceeds.plain hplain hm).inputs
    rintro i args j args' id ⟨happlied, hid⟩ ⟨happlied', hid'⟩
    have heq := List.inj_on_of_nodup_map hnodup (mem_of_id? hid) (mem_of_id? hid') rfl
    obtain rfl := hnil happlied
    obtain rfl := hnil happlied'
    exact ⟨(Identity.mk.inj (Prod.mk.inj heq).1).1, rfl⟩

end Resolver.Succeeds

end RouteManifest
