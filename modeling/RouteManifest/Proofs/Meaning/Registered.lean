import RouteManifest.Proofs.Meaning.Shapes
import RouteManifest.Proofs.Resolution.Repeated

/-!
# What a declaration is registered as

The id that a declaration is known by has a schema of the shape that its body has been resolved to, whoever registered
it, and whatever has happened since. That is so after calls that fail as well as after those that succeed; only a
declaration whose schema was refused is known by an id without having been registered there.

`KeepsAt` says it with a predicate on moments, to remember at which moments the body was resolved, and `Keeps` is the
case in which only tidiness is remembered. A step of a run makes a declaration known in one way, when its expansion is
filled (`KeepsAt.filled`). Every other step leaves known what was known and registered what was registered
(`KeepsAt.of_lasts`). So the induction over runs (`Runs.keepsAt`) has one case with something in it.
-/

namespace RouteManifest

variable {c : Catalog}

/-! ## What is kept

The shape is that of the body at some moment, not at any moment: what a body is resolved to depends on what is
registered by then. -/

/-- The body of a declaration can be resolved to a schema at a moment of some kind. -/
def Catalog.ResolvesAt (c : Catalog) (P : Moment c → Prop) (i : Fin c.size) (s : Schema) : Prop :=
  ∃ p r args r', P ⟨p, .ofBody i args, r⟩ ∧ Runs p (.ofBody i args) r (.ok s) r'

/-- The body of a declaration can be resolved to a schema, where everything is tidy. -/
def Catalog.ResolvesTo (c : Catalog) (i : Fin c.size) (s : Schema) : Prop :=
  ∃ p r args r', Moment.All (fun _ s => s.Tidy) ⟨p, .ofBody i args, r⟩ ∧ Runs p (.ofBody i args) r (.ok s) r'

namespace Resolver

/-- Every id that a declaration is known by has a schema of the shape that its body had at a moment of some kind. -/
def KeepsAt (r : Resolver c) (P : Moment c → Prop) (i : Fin c.size) : Prop :=
  ∀ args id, r.id? ⟨i, args⟩ = some id → ∃ s t, c.ResolvesAt P i s ∧ r.registry.get? id = some t ∧ t.canonical = s.canonical

/-- Every id that a declaration is known by has a schema of the shape of its body. -/
def Keeps (r : Resolver c) (i : Fin c.size) : Prop :=
  ∀ args id, r.id? ⟨i, args⟩ = some id → ∃ s t, c.ResolvesTo i s ∧ r.registry.get? id = some t ∧ t.canonical = s.canonical

namespace KeepsAt

variable {r r' : Resolver c} {P : Moment c → Prop} {i : Fin c.size}

/-- What is kept stays kept if nothing new is known and no schema is lost. -/
theorem of_lasts (h : r.KeepsAt P i) (hknown : ∀ args id, r'.id? ⟨i, args⟩ = some id → r.id? ⟨i, args⟩ = some id)
    (hregistered : ∀ id s, r.registry.get? id = some s → r'.registry.get? id = some s) : r'.KeepsAt P i := by
  intro args id hid
  obtain ⟨s, t, hs, ht, hshape⟩ := h args id (hknown args id hid)
  exact ⟨s, t, hs, hregistered id t ht, hshape⟩

/-- The beginning of an expansion makes nothing known. -/
theorem opened (h : r.KeepsAt P i) (j : Fin c.size) (args : List Schema) : (r.opened j args).KeepsAt P i :=
  h.of_lasts (fun _ _ hid => hid) fun other _ hs => (Resolver.get?_opened _ _ _ other).trans hs

/-- Giving an id back takes no schema away. -/
theorem released (h : r.KeepsAt P i) (hr : r.registry.Sound) (id : String) : (r.released id).KeepsAt P i :=
  h.of_lasts (fun _ _ hid => hid) fun _ _ hs => (Registry.get?_release hr.names_nodup id).trans hs

/-- A schema that is accepted for a declaration has the shape of its body from then on. -/
theorem filled (h : r.KeepsAt P i) (hr : r.All fun _ s => s.Tidy) {identity : Identity c} {own : String} {body : Schema}
    {owner : Location} (hbody : body.Tidy)
    (hidentity : identity.declaration = i → c.ResolvesAt P i body ∧ ∃ id, (r.registry.fill own body owner).1 = .ok id) :
    (r.filled identity own body owner).KeepsAt P i := by
  intro args id hid
  by_cases hself : (⟨i, args⟩ : Identity c) = identity
  · obtain ⟨hresolves, final, hfill⟩ := hidentity (hself ▸ rfl)
    rw [hself, id?_filled_self, hfill] at hid
    obtain rfl := Option.some.inj hid
    obtain ⟨t, ht, hshape⟩ := Registry.exists_shape_of_fill hr.sound hr.registered hbody hfill
    exact ⟨body, t, hresolves, ht, hshape⟩
  · obtain ⟨s, t, hs, ht, hshape⟩ := h args id ((id?_filled_of_ne hself).symm.trans hid)
    exact ⟨s, t, hs, Registry.get?_of_moves (Resolver.filled_moves _ _ _ _ _) ht, hshape⟩

end KeepsAt

end Resolver

/-! ## Through runs

A refusal is the one way to become known without an entry, so it is excluded for the declaration in question, and only
for that one. -/

/-- The schema of a declaration is not refused in the course of a moment. -/
def Moment.Accepts (m : Moment c) (i : Fin c.size) : Prop :=
  ∀ m', m.Within m' → ∀ args fault, ¬m'.Refused i args fault

/-- What is not refused in the course of a moment is not refused in the course of the tasks it starts. -/
theorem Moment.Starts.accepts {m m' : Moment c} (hstarts : m.Starts m') {i : Fin c.size} (h : m.Accepts i) :
    m'.Accepts i := hstarts.within h

/-- A declaration that is not refused is registered in the shape that its body has at the moments of the run, which may
fail as well. -/
theorem Runs.keepsAt {P : Moment c → Prop} (htidy : ∀ m, P m → m.All fun _ s => s.Tidy) {i : Fin c.size} {p : Pending c}
    {t : Task c} {r r' : Resolver c} {out : Except Fault t.Answer} (h : Runs p t r out r')
    (hP : ∀ m, Moment.Within ⟨p, t, r⟩ m → P m) (haccepts : Moment.Accepts ⟨p, t, r⟩ i) (hr : r.KeepsAt P i) :
    r'.KeepsAt P i := by
  -- every task that is started starts at such a moment, and where nothing will be refused either
  have later {m m' : Moment c} (hstarts : m.Starts m') (hP : ∀ m'', m.Within m'' → P m'') : ∀ m'', m'.Within m'' → P m'' :=
    fun m'' hm => hP m'' (.head hstarts hm)
  induction h with
  | cons hhead _ ihHead ihTail | consTail hhead _ ihHead ihTail =>
    have hr' := ihHead (later .head hP) (Moment.Starts.head.accepts haccepts) hr
    exact ihTail (later (.tail hhead) hP) ((Moment.Starts.tail hhead).accepts haccepts) hr'
  | consHead _ ih => exact ih (later .head hP) (Moment.Starts.head.accepts haccepts) hr
  | built he _ ih | builtFault he _ ih =>
    exact ih (later (.parts he) hP) ((Moment.Starts.parts he).accepts haccepts) hr
  | named he hs hi hargs _ ihArgs ihName =>
    have hr' := ihArgs (later (.args he hs hi) hP) ((Moment.Starts.args he hs hi).accepts haccepts) hr
    have hstarts := Moment.Starts.apply he hs hi hargs
    exact ihName (later hstarts hP) (hstarts.accepts haccepts) hr'
  | namedFault he hs hi _ ih =>
    exact ih (later (.args he hs hi) hP) ((Moment.Starts.args he hs hi).accepts haccepts) hr
  | @expanded p name j args origin r body r' hp hk hd hbody ih =>
    have hstarts : Moment.Starts ⟨p, .apply name j args origin, r⟩ _ := .body hp hk hd
    have hmoment := later hstarts hP _ .refl
    obtain ⟨htidy', hanswer⟩ := hbody.inherits inherited_tidy (htidy _ hmoment).resolver (htidy _ hmoment).inputs
    refine (ih (later hstarts hP) (hstarts.accepts haccepts) (hr.opened j args)).filled htidy'
      (hanswer body rfl body List.mem_cons_self) fun heq => ?_
    obtain rfl : j = i := heq
    refine ⟨⟨_, _, args, r', hmoment, hbody⟩, ?_⟩
    rcases hfill : (r'.registry.fill (r.expansionId j args) body (c.get j).location).1 with fault | id
    · exact absurd (.mk hp hk hd hbody hfill) (haccepts _ .refl args fault)
    · exact ⟨id, rfl⟩
  | @expandedFault p name j args origin r fault r' hp hk hd hbody ih =>
    have hstarts : Moment.Starts ⟨p, .apply name j args origin, r⟩ _ := .body hp hk hd
    have hmoment := later hstarts hP _ .refl
    obtain ⟨htidy', -⟩ := hbody.inherits inherited_tidy (htidy _ hmoment).resolver (htidy _ hmoment).inputs
    exact (ih (later hstarts hP) (hstarts.accepts haccepts) (hr.opened j args)).released htidy'.sound _
  | _ => exact hr

/-- A declaration that is not refused is registered in the shape of its body, in runs that fail as well. -/
theorem Runs.keeps {i : Fin c.size} {p : Pending c} {t : Task c} {r r' : Resolver c} {out : Except Fault t.Answer}
    (h : Runs p t r out r') (haccepts : Moment.Accepts ⟨p, t, r⟩ i) (hall : Moment.All (fun _ s => s.Tidy) ⟨p, t, r⟩)
    (hr : r.Keeps i) : r'.Keeps i :=
  h.keepsAt (fun _ hm => hm) (fun _ hm => hm.invariant inherited_tidy.starts hall) haccepts hr

/-- A moment passes on that a declaration is registered in the shape of its body. -/
theorem Moment.Starts.keeps {m m' : Moment c} (hstarts : m.Starts m') {i : Fin c.size} (haccepts : m.Accepts i)
    (hall : m.All fun _ s => s.Tidy) (hr : m.resolver.Keeps i) : m'.resolver.Keeps i := by
  cases hstarts with
  | head | parts | args => exact hr
  | tail hhead => exact hhead.keeps (Moment.Starts.head.accepts haccepts) (inherited_tidy.starts hall .head) hr
  | apply he hs hi hargs =>
    exact hargs.keeps ((Moment.Starts.args he hs hi).accepts haccepts) (inherited_tidy.starts hall (.args he hs hi)) hr
  | body => exact Resolver.KeepsAt.opened hr _ _

/-- Nothing is refused in the course of a task that succeeds. -/
theorem Runs.accepts {p : Pending c} {t : Task c} {r r' : Resolver c} {answer : t.Answer}
    (h : Runs p t r (.ok answer) r') (hr : Recorded p r) (i : Fin c.size) : Moment.Accepts ⟨p, t, r⟩ i := by
  intro m hm args fault hrefused
  -- the moment ends well, as all do in the course of the task, and it ends with what the registry says
  have hcourse : m.OnCourse r' := hm.invariant Moment.OnCourse.starts ⟨hr, answer, r', h, .refl r'⟩
  obtain ⟨hp, hk, hd, hbody, hfill⟩ := hrefused
  obtain ⟨-, other, r'', hends, -⟩ := hcourse
  obtain ⟨hout, -⟩ := Prod.mk.inj (hends.eq.symm.trans (Runs.expanded hp hk hd hbody).eq)
  rw [hfill] at hout
  cases hout

namespace Resolver

variable {i : Fin c.size}

theorem keepsAt_fresh (P : Moment c → Prop) (i : Fin c.size) : ({} : Resolver c).KeepsAt P i := fun _ _ hid => by cases hid

theorem keeps_fresh (i : Fin c.size) : ({} : Resolver c).Keeps i := keepsAt_fresh _ i

/-- Further calls go on from a resolver that was called. -/
theorem Called.after {r : Resolver c} (h : r.Called fun _ _ _ => True) (calls : List (TypeExpr × Location)) :
    (r.after calls).Called fun _ _ _ => True := by
  induction calls generalizing r with
  | nil => exact h
  | cons call calls ih => exact ih (.call h rfl trivial)

/-- One more call keeps what the resolver keeps, if it does not refuse the declaration. -/
theorem Called.keeps {r r' : Resolver c} (h : r.Called fun _ _ _ => True) (hr : r.Keeps i) {e : TypeExpr}
    {origin : Location} {out : Except Fault Schema} (hrun : Runs {} (.node [] origin e) r out r')
    (haccepts : (Moment.call e origin r).Accepts i) : r'.Keeps i :=
  hrun.keeps haccepts ⟨inherited_tidy.called h, fun _ hs => by cases hs⟩ hr

/-- At every moment in the course of calls what there is is tidy. -/
theorem Called.tidy_passes {r : Resolver c} (h : r.Called fun _ _ _ => True) {calls : List (TypeExpr × Location)}
    {m : Moment c} (hm : r.Passes calls m) : m.All fun _ s => s.Tidy := by
  induction calls generalizing r with
  | nil => exact hm.elim
  | cons call calls ih =>
    rcases hm with hm | hm
    · exact inherited_tidy.within h hm
    · exact ih (.call h rfl trivial) hm

/-- What a resolver keeps is kept by several calls, if none of them refuses the declaration. -/
theorem keepsAt_after {P : Moment c → Prop} (htidy : ∀ m, P m → m.All fun _ s => s.Tidy) {r : Resolver c}
    (hr : r.KeepsAt P i) {calls : List (TypeExpr × Location)} (hP : ∀ m, r.Passes calls m → P m)
    (haccepts : ∀ m, r.Passes calls m → ∀ args fault, ¬m.Refused i args fault) : (r.after calls).KeepsAt P i := by
  induction calls generalizing r with
  | nil => exact hr
  | cons call calls ih =>
    obtain ⟨e, origin⟩ := call
    have hr' := (Task.runs {} (.node [] origin e) r).keepsAt htidy (fun m hm => hP m (Or.inl hm))
      (fun m hm => haccepts m (Or.inl hm)) hr
    exact ih hr' (fun m hm => hP m (Or.inr hm)) fun m hm => haccepts m (Or.inr hm)

/-- Whatever the answers of some calls were: a declaration that none of them refused is registered in the shape of its
body. -/
theorem Called.keeps_after {r : Resolver c} (h : r.Called fun _ _ _ => True) (hr : r.Keeps i)
    {calls : List (TypeExpr × Location)} (haccepts : ∀ m, r.Passes calls m → ∀ args fault, ¬m.Refused i args fault) :
    (r.after calls).Keeps i :=
  keepsAt_after (fun _ hm => hm) hr (fun _ hm => h.tidy_passes hm) haccepts

/-- At any moment in the course of the calls such a declaration is registered in the shape of its body. -/
theorem Called.keeps_passes {r : Resolver c} (h : r.Called fun _ _ _ => True) (hr : r.Keeps i)
    {calls : List (TypeExpr × Location)} (haccepts : ∀ m, r.Passes calls m → ∀ args fault, ¬m.Refused i args fault)
    {m : Moment c} (hm : r.Passes calls m) : m.resolver.Keeps i := by
  induction calls generalizing r with
  | nil => exact hm.elim
  | cons call calls ih =>
    obtain ⟨e, origin⟩ := call
    have hcall : (Moment.call e origin r).Accepts i := fun m hm => haccepts m (Or.inl hm)
    rcases hm with hm | hm
    · have hall : (Moment.call e origin r).All fun _ s => s.Tidy := inherited_tidy.within h .refl
      have hkept : m.Accepts i ∧ (m.All fun _ s => s.Tidy) ∧ m.resolver.Keeps i := by
        refine hm.invariant (P := fun m => m.Accepts i ∧ (m.All fun _ s => s.Tidy) ∧ m.resolver.Keeps i) ?_
          ⟨hcall, hall, hr⟩
        rintro m m' ⟨haccepts, hall, hr⟩ hstarts
        exact ⟨hstarts.accepts haccepts, inherited_tidy.starts hall hstarts, hstarts.keeps haccepts hall hr⟩
      exact hkept.2.2
    · have hr' := h.keeps hr (Task.runs {} (.node [] origin e) r) hcall
      exact ih (.call h rfl trivial) hr' (fun m hm => haccepts m (Or.inr hm)) hm

end Resolver

/-- Where ids are not shared everything is tracked at every moment in the course of calls. -/
theorem Resolver.Called.tracked_passes (hc : c.Unshared) {r : Resolver c} (h : r.Called fun _ _ _ => True)
    {calls : List (TypeExpr × Location)} {m : Moment c} (hm : r.Passes calls m) : m.Tracked := by
  induction calls generalizing r with
  | nil => exact hm.elim
  | cons call calls ih =>
    obtain ⟨e, origin⟩ := call
    rcases hm with hm | hm
    · exact hm.invariant (Moment.Tracked.starts hc) (Moment.tracked_call hc h e origin)
    · exact ih (.call h rfl trivial) hm

/-- No call refuses a declaration if an id that is insisted on belongs to one declaration alone. -/
theorem Catalog.Unshared.not_refused (hc : c.Unshared) {calls : List (TypeExpr × Location)} {m : Moment c}
    (hm : ({} : Resolver c).Passes calls m) (i : Fin c.size) (args : List Schema) (fault : Fault) :
    ¬m.Refused i args fault :=
  (Resolver.Called.tracked_passes hc .fresh hm).not_refused hc

end RouteManifest
