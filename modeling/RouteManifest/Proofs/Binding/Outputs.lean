import RouteManifest.Proofs.Binding.Request
import RouteManifest.Proofs.Catalog
import RouteManifest.Proofs.Schema.Canonical

/-!
# What providers produce

A provider may declare the type of its value, in its own file, and the parameter that it feeds is declared in another
one. A name can mean one declaration in the first and a different one in the second, so what a type is depends on where
it is written: `Catalog.Denotes` is what it means that two expressions, each read in its own file, are one type.

Binding compares expressions as they are written. `Catalog.denotes_iff` says what that leaves open, which is the meaning
of each name on its own. Its proof needs to know when two written forms agree. They are JSON values that are compared up
to the order of members, and agree just if kind and content do (`TypeExpr.same_iff_content`), so they are taken apart
constructor by constructor; names that are mentioned are collected in the same induction.
-/

namespace RouteManifest

/-- Sorting the two members of an object leaves them as they are, apart from their order. -/
theorem Json.sorted_pair_iff {m n : String} (hne : m ≠ n) {a b a' b' : Json} :
    (Json.object [(m, a), (n, b)]).sorted = (Json.object [(m, a'), (n, b')]).sorted ↔
      a.sorted = a'.sorted ∧ b.sorted = b'.sorted := by
  constructor
  · intro h
    have hnodup (a b : Json) : (Table.names [(m, a), (n, b)]).Nodup := by simp [Table.names, hne]
    have hfirst := find?_of_sorted (hnodup a b) (hnodup a' b') h m
    have hsecond := find?_of_sorted (hnodup a b) (hnodup a' b') h n
    simp [Table.find?, hne] at hfirst hsecond
    exact ⟨hfirst, hsecond⟩
  · rintro ⟨ha, hb⟩
    simp only [sorted, sortedMembers, ha, hb]

/-! ## Type expressions and their parts

Expressions are nested through lists and properties. `children` flattens this to one list, so that an induction has one
hypothesis for all parts. -/

/-- A primitive type is read back from its keyword. -/
theorem Primitive.ofKeyword?_keyword (p : Primitive) : ofKeyword? p.keyword = some p := by
  cases p <;> rfl

/-- No two primitive types share a keyword. -/
theorem Primitive.keyword_injective : Function.Injective keyword := by
  intro p q h
  exact Option.some.inj ((ofKeyword?_keyword p).symm.trans ((congrArg ofKeyword? h).trans (ofKeyword?_keyword q)))

/-- Keywords that are written alike belong to one primitive type. -/
theorem Primitive.sorted_keyword_iff {p q : Primitive} :
    (Json.string p.keyword).sorted = (Json.string q.keyword).sorted ↔ p = q :=
  ⟨fun h => keyword_injective (Json.string.inj h), fun h => h ▸ rfl⟩

/-- Literals are told apart by what they are written as. -/
theorem Literal.toJson_injective : Function.Injective toJson := by
  intro a b h
  cases a <;> cases b <;> cases h <;> rfl

/-- Literals are written alike just if they are the same. -/
theorem Literal.sorted_toJson_iff {a b : Literal} : a.toJson.sorted = b.toJson.sorted ↔ a = b := by
  rw [sorted_toJson, sorted_toJson]
  exact toJson_injective.eq_iff

/-- Lists of literals are written alike just if they are the same, in the same order. -/
theorem Literal.sorted_array_toJson_iff {as bs : List Literal} :
    (Json.array (as.map toJson)).sorted = (Json.array (bs.map toJson)).sorted ↔ as = bs := by
  have hsorted (l : List Literal) : (l.map toJson).map Json.sorted = l.map toJson := by
    rw [List.map_map]
    exact List.map_congr_left fun l _ => l.sorted_toJson
  rw [Json.sorted, Json.sorted, Json.sortedItems_eq, Json.sortedItems_eq, hsorted, hsorted, Json.array.injEq]
  exact (List.map_injective_iff.mpr toJson_injective).eq_iff

namespace TypeExpr

/-- The expressions that an expression is put together from. -/
def children : TypeExpr → List TypeExpr
  | .object properties _ => properties.map fun p => p.2.node
  | .map e | .array e => [e]
  | .tuple es | .union es | .intersection es | .generic _ es => es
  | .primitive _ | .enumeration _ | .literal _ | .reference _ | .typeParameter _ | .callable => []

/-- What an expression is put together from is smaller. -/
theorem sizeOf_lt_of_mem_children {e x : TypeExpr} (h : x ∈ e.children) : sizeOf x < sizeOf e := by
  cases e with
  | object properties closed =>
    obtain ⟨⟨name, node, required⟩, hp, rfl⟩ := List.mem_map.mp h
    have := List.sizeOf_lt_of_mem hp
    simp at this ⊢
    omega
  | map e | array e =>
    obtain rfl := List.mem_singleton.mp h
    simp
  | tuple es | union es | intersection es | generic base es =>
    have : sizeOf x < sizeOf es := List.sizeOf_lt_of_mem h
    simp
    omega
  | primitive | enumeration | literal | reference | typeParameter | callable => cases h

/-- What holds of an expression if it holds of its parts holds of every expression. This is the one induction on
expressions here; it sees lists of parts and tables of properties at once. -/
theorem induction {P : TypeExpr → Prop} (h : ∀ e, (∀ x ∈ e.children, P x) → P e) (e : TypeExpr) : P e :=
  h e fun x _ => induction h x
termination_by sizeOf e
decreasing_by exact sizeOf_lt_of_mem_children ‹_›

/-- The name that stands at the head of an expression and is looked up there. -/
def head? : TypeExpr → Option String
  | .reference name | .generic name _ => some name
  | _ => none

/-- A name is looked up somewhere in an expression. -/
inductive Mentions (name : String) : TypeExpr → Prop where
  | head {e : TypeExpr} : e.head? = some name → Mentions name e
  | child {e x : TypeExpr} : x ∈ e.children → Mentions name x → Mentions name e

/-- The names in an expression are the one at its head and those in its parts. -/
theorem forall_mentions_iff {P : String → Prop} {e : TypeExpr} :
    (∀ name, e.Mentions name → P name) ↔
      (∀ name, e.head? = some name → P name) ∧ ∀ x ∈ e.children, ∀ name, x.Mentions name → P name := by
  constructor
  · intro h
    exact ⟨fun name hname => h name (.head hname), fun x hx name hname => h name (.child hx hname)⟩
  · rintro ⟨hhead, hchildren⟩ name (hname | ⟨hx, hname⟩)
    · exact hhead name hname
    · exact hchildren _ hx name hname

/-! ## Written forms that agree

The written form of an expression is an object with its kind and perhaps its content. Two of these agree up to the order
of members just if both are the same, and then the contents tell how the parts compare. -/

/-- The kind as it is written. -/
def kind : TypeExpr → String
  | .primitive _ => "primitive"
  | .object _ _ => "object"
  | .map _ => "map"
  | .array _ => "array"
  | .tuple _ => "tuple"
  | .union _ => "union"
  | .intersection _ => "intersection"
  | .enumeration _ => "enum"
  | .literal _ => "literal"
  | .reference _ => "reference"
  | .generic _ _ => "generic"
  | .typeParameter _ => "typeParameter"
  | .callable => "callable"

/-- What is written beside the kind. -/
def content? : TypeExpr → Option Json
  | .primitive kind => some (.string kind.keyword)
  | .object properties closed =>
    some (.object [("properties", .object (membersToJson properties)), ("closed", .bool closed)])
  | .map e | .array e => some e.toJson
  | .tuple es | .union es | .intersection es => some (.array (listToJson es))
  | .enumeration literals => some (.array (literals.map Literal.toJson))
  | .literal value => some value.toJson
  | .reference name | .typeParameter name => some (.string name)
  | .generic base args => some (.object [("base", .string base), ("args", .array (listToJson args))])
  | .callable => none

/-- An expression is written as its kind, and its content if it has any. -/
theorem toJson_eq (e : TypeExpr) :
    e.toJson = .object (("kind", .string e.kind) :: (e.content?.map fun v => ("of", v)).toList) := by
  cases e <;> rw [toJson] <;> rfl

/-- Expressions are compared by what they are written as, up to the order of members. -/
theorem same_iff {a b : TypeExpr} : a.same b = true ↔ a.toJson.sorted = b.toJson.sorted := decide_eq_true_iff

/-- Expressions agree if their kinds and contents do. -/
theorem same_iff_content {a b : TypeExpr} :
    a.same b = true ↔ a.kind = b.kind ∧ a.content?.map Json.sorted = b.content?.map Json.sorted := by
  have hkind (k : String) : (Json.string k).sorted = .string k := rfl
  have hne : "kind" ≠ "of" := by decide
  rw [same_iff, toJson_eq, toJson_eq]
  rcases a.content? with _ | v <;> rcases b.content? with _ | w
  · simp [Json.sorted, Json.sortedMembers, Table.sortByName, Table.insertSorted]
  · refine iff_of_false (fun h => ?_) (fun h => by cases h.2)
    have := Json.find?_of_sorted (by simp [Table.names]) (by simp [Table.names, hne]) h "of"
    simp [Table.find?, hne] at this
  · refine iff_of_false (fun h => ?_) (fun h => by cases h.2)
    have := Json.find?_of_sorted (by simp [Table.names, hne]) (by simp [Table.names]) h "of"
    simp [Table.find?, hne] at this
  · refine (Json.sorted_pair_iff hne).trans ?_
    simp [hkind]

theorem listToJson_eq (es : List TypeExpr) : listToJson es = es.map toJson := by
  induction es with
  | nil => rfl
  | cons e rest ih => rw [listToJson, ih, List.map_cons]

/-- Lists of expressions agree if their elements do. -/
theorem sorted_array_iff {as bs : List TypeExpr} :
    (Json.array (listToJson as)).sorted = (Json.array (listToJson bs)).sorted ↔
      List.Forall₂ (fun a b => a.same b = true) as bs := by
  simp only [same_iff, Json.sorted, Json.array.injEq, Json.sortedItems_eq, listToJson_eq, List.map_map]
  rw [← List.forall₂_eq_eq_eq, List.forall₂_map_left_iff, List.forall₂_map_right_iff]
  rfl

/-- Properties agree if, sorted by name, they have the same names, are equally required and have expressions that
agree. -/
theorem sorted_members_iff {ps qs : Table (Member TypeExpr)} :
    (Json.object (membersToJson ps)).sorted = (Json.object (membersToJson qs)).sorted ↔
      ps.sortByName.map (fun p => (p.1, p.2.required)) = qs.sortByName.map (fun q => (q.1, q.2.required)) ∧
        List.Forall₂ (fun a b => a.same b = true) (ps.sortByName.map fun p => p.2.node)
          (qs.sortByName.map fun q => q.2.node) := by
  have hmembers (t : Table (Member TypeExpr)) : (Json.object (membersToJson t)).sorted = .object (t.sortByName.mapValues
      fun p => (Json.object [("node", p.node.toJson), ("required", .bool p.required)]).sorted) := by
    have hvalues : Json.sortedMembers (membersToJson t) = t.mapValues
        fun p => (Json.object [("node", p.node.toJson), ("required", .bool p.required)]).sorted := by
      induction t with
      | nil => rfl
      | cons p rest ih => exact congrArg _ ih
    rw [Json.sorted, hvalues, Table.sortByName_mapValues]
  rw [hmembers, hmembers, Json.object.injEq]
  generalize ps.sortByName = ps, qs.sortByName = qs
  induction ps generalizing qs with
  | nil => cases qs <;> simp [Table.mapValues]
  | cons p ps ih =>
    cases qs with
    | nil => simp [Table.mapValues]
    | cons q qs =>
      have hrequired (x : Bool) : (Json.bool x).sorted = .bool x := rfl
      simp only [Table.mapValues, List.map_cons, List.cons.injEq, List.forall₂_cons, Prod.mk.injEq, same_iff,
        Json.sorted_pair_iff (show "node" ≠ "required" by decide), hrequired, Json.bool.injEq]
      have ih := @ih qs
      simp only [Table.mapValues, same_iff] at ih
      tauto

end TypeExpr

/-! ## What an expression denotes

One equivalence for each kind of expression, and then they are put together by the induction above. Between expressions
of different kinds neither side holds. -/

namespace Catalog

/-- A name means one declaration in both files. -/
def MeansOne (c : Catalog) (u v : Path) (name : String) : Prop :=
  ∃ i, c.lookup? name u = some i ∧ c.lookup? name v = some i

/-- Two expressions, the first read in one file and the second in another, denote the same type: they are built alike,
and where they have names, the names mean the same declaration. The order of properties does not count. -/
inductive Denotes (c : Catalog) (u v : Path) : TypeExpr → TypeExpr → Prop where
  | primitive (kind : Primitive) : Denotes c u v (.primitive kind) (.primitive kind)
  | object {ps qs : Table (Member TypeExpr)} (closed : Bool) :
      ps.sortByName.map (fun p => (p.1, p.2.required)) = qs.sortByName.map (fun q => (q.1, q.2.required)) →
      List.Forall₂ (Denotes c u v) (ps.sortByName.map fun p => p.2.node) (qs.sortByName.map fun q => q.2.node) →
      Denotes c u v (.object ps closed) (.object qs closed)
  | map {a b : TypeExpr} : Denotes c u v a b → Denotes c u v (.map a) (.map b)
  | array {a b : TypeExpr} : Denotes c u v a b → Denotes c u v (.array a) (.array b)
  | tuple {as bs : List TypeExpr} : List.Forall₂ (Denotes c u v) as bs → Denotes c u v (.tuple as) (.tuple bs)
  | union {as bs : List TypeExpr} : List.Forall₂ (Denotes c u v) as bs → Denotes c u v (.union as) (.union bs)
  | intersection {as bs : List TypeExpr} :
      List.Forall₂ (Denotes c u v) as bs → Denotes c u v (.intersection as) (.intersection bs)
  | enumeration (literals : List Literal) : Denotes c u v (.enumeration literals) (.enumeration literals)
  | literal (value : Literal) : Denotes c u v (.literal value) (.literal value)
  | reference {name : String} : c.MeansOne u v name → Denotes c u v (.reference name) (.reference name)
  | generic {base : String} {as bs : List TypeExpr} :
      c.MeansOne u v base → List.Forall₂ (Denotes c u v) as bs → Denotes c u v (.generic base as) (.generic base bs)
  | typeParameter (name : String) : Denotes c u v (.typeParameter name) (.typeParameter name)
  | callable : Denotes c u v .callable .callable

variable {c : Catalog} {u v : Path}

/-- Lists denote the same types just if they agree and their names mean the same, if that is so of their elements. -/
theorem forall₂_denotes_iff (as bs : List TypeExpr) (h : ∀ a ∈ as, ∀ b, c.Denotes u v a b ↔
      a.same b = true ∧ ∀ name, a.Mentions name → c.MeansOne u v name) :
    List.Forall₂ (c.Denotes u v) as bs ↔
      List.Forall₂ (fun a b => a.same b = true) as bs ∧ ∀ a ∈ as, ∀ name, a.Mentions name → c.MeansOne u v name := by
  induction as generalizing bs with
  | nil => simp
  | cons a as ih =>
    obtain ⟨ha, has⟩ := List.forall_mem_cons.mp h
    cases bs with
    | nil => simp
    | cons b bs =>
      rw [List.forall₂_cons, List.forall₂_cons, List.forall_mem_cons, ha b, ih bs has]
      tauto

/-! Expressions that are built by one constructor denote the same type just if their parts do. -/

theorem denotes_primitive {k l : Primitive} : c.Denotes u v (.primitive k) (.primitive l) ↔ k = l :=
  ⟨fun | .primitive _ => rfl, fun h => h ▸ .primitive k⟩

/-- Properties are compared by name, whatever order they are declared in. -/
theorem denotes_object {ps qs : Table (Member TypeExpr)} {closed closed' : Bool} :
    c.Denotes u v (.object ps closed) (.object qs closed') ↔
      (ps.sortByName.map (fun p => (p.1, p.2.required)) = qs.sortByName.map (fun q => (q.1, q.2.required)) ∧
        List.Forall₂ (c.Denotes u v) (ps.sortByName.map fun p => p.2.node) (qs.sortByName.map fun q => q.2.node)) ∧
      closed = closed' :=
  ⟨fun | .object _ hsignature h => ⟨⟨hsignature, h⟩, rfl⟩, fun ⟨⟨hsignature, h⟩, heq⟩ => heq ▸ .object _ hsignature h⟩

@[simp] theorem denotes_map {a b : TypeExpr} : c.Denotes u v (.map a) (.map b) ↔ c.Denotes u v a b :=
  ⟨fun | .map h => h, .map⟩

@[simp] theorem denotes_array {a b : TypeExpr} : c.Denotes u v (.array a) (.array b) ↔ c.Denotes u v a b :=
  ⟨fun | .array h => h, .array⟩

@[simp] theorem denotes_tuple {as bs : List TypeExpr} :
    c.Denotes u v (.tuple as) (.tuple bs) ↔ List.Forall₂ (c.Denotes u v) as bs :=
  ⟨fun | .tuple h => h, .tuple⟩

@[simp] theorem denotes_union {as bs : List TypeExpr} :
    c.Denotes u v (.union as) (.union bs) ↔ List.Forall₂ (c.Denotes u v) as bs :=
  ⟨fun | .union h => h, .union⟩

@[simp] theorem denotes_intersection {as bs : List TypeExpr} :
    c.Denotes u v (.intersection as) (.intersection bs) ↔ List.Forall₂ (c.Denotes u v) as bs :=
  ⟨fun | .intersection h => h, .intersection⟩

theorem denotes_enumeration {as bs : List Literal} : c.Denotes u v (.enumeration as) (.enumeration bs) ↔ as = bs :=
  ⟨fun | .enumeration _ => rfl, fun h => h ▸ .enumeration as⟩

theorem denotes_literal {a b : Literal} : c.Denotes u v (.literal a) (.literal b) ↔ a = b :=
  ⟨fun | .literal _ => rfl, fun h => h ▸ .literal a⟩

/-- A name denotes the same in two files just if it means one declaration there. -/
theorem denotes_reference {m n : String} : c.Denotes u v (.reference m) (.reference n) ↔ m = n ∧ c.MeansOne u v m :=
  ⟨fun | .reference h => ⟨rfl, h⟩, fun ⟨heq, h⟩ => heq ▸ .reference h⟩

/-- A name with arguments denotes the same just if the name means one declaration and the arguments denote the same. -/
theorem denotes_generic {m n : String} {as bs : List TypeExpr} :
    c.Denotes u v (.generic m as) (.generic n bs) ↔
      (m = n ∧ c.MeansOne u v m) ∧ List.Forall₂ (c.Denotes u v) as bs :=
  ⟨fun | .generic h hargs => ⟨⟨rfl, h⟩, hargs⟩, fun ⟨⟨heq, h⟩, hargs⟩ => heq ▸ .generic h hargs⟩

/-- A type parameter denotes itself, wherever it is bound. -/
theorem denotes_typeParameter {m n : String} : c.Denotes u v (.typeParameter m) (.typeParameter n) ↔ m = n :=
  ⟨fun | .typeParameter _ => rfl, fun h => h ▸ .typeParameter m⟩

/-- Only expressions of one kind denote the same type. -/
theorem Denotes.kind_eq {a b : TypeExpr} (h : c.Denotes u v a b) : a.kind = b.kind := by
  cases h <;> rfl

/-- Properties denote the same types just if they agree and their names mean the same, in whichever order they are
written. -/
theorem forall₂_denotes_members_iff (ps qs : Table (Member TypeExpr))
    (h : ∀ a ∈ ps.map (fun p => p.2.node), ∀ b, c.Denotes u v a b ↔
      a.same b = true ∧ ∀ name, a.Mentions name → c.MeansOne u v name) :
    List.Forall₂ (c.Denotes u v) (ps.sortByName.map fun p => p.2.node) (qs.sortByName.map fun q => q.2.node) ↔
      List.Forall₂ (fun a b => a.same b = true) (ps.sortByName.map fun p => p.2.node)
        (qs.sortByName.map fun q => q.2.node) ∧
      ∀ a ∈ ps.map (fun p => p.2.node), ∀ name, a.Mentions name → c.MeansOne u v name := by
  have hmem {a : TypeExpr} : a ∈ ps.sortByName.map (fun p => p.2.node) ↔ a ∈ ps.map fun p => p.2.node :=
    ((Table.sortByName_perm ps).map _).mem_iff
  rw [forall₂_denotes_iff _ _ fun a ha b => h a (hmem.mp ha) b]
  exact and_congr_right fun _ => forall_congr' fun a => imp_congr_left hmem

/-- Expressions denote the same type just if they are written alike and each of their names means one declaration. -/
theorem denotes_iff {a b : TypeExpr} :
    c.Denotes u v a b ↔ a.same b = true ∧ ∀ name, a.Mentions name → c.MeansOne u v name := by
  induction a using TypeExpr.induction generalizing b with
  | h a ih =>
  by_cases hkind : a.kind = b.kind
  · rw [TypeExpr.same_iff_content, and_iff_right hkind, TypeExpr.forall_mentions_iff]
    -- expressions of one kind are built by one constructor
    cases a <;> cases b <;> try (simp [TypeExpr.kind] at hkind; done)
    all_goals simp only [TypeExpr.content?, TypeExpr.head?, TypeExpr.children, Option.map_some, Option.some.injEq,
      TypeExpr.sorted_array_iff]
    case primitive.primitive k l => simp [denotes_primitive, Primitive.sorted_keyword_iff]
    case object.object ps closed qs closed' =>
      have hclosed : (Json.bool closed).sorted = (Json.bool closed').sorted ↔ closed = closed' := by simp [Json.sorted]
      rw [denotes_object, forall₂_denotes_members_iff ps qs @ih, Json.sorted_pair_iff (by decide),
        TypeExpr.sorted_members_iff, hclosed]
      simp
      tauto
    case map.map x y | array.array x y =>
      have hpart := ih x (List.mem_singleton_self x) (b := y)
      rw [TypeExpr.same_iff] at hpart
      simp [hpart]
    case tuple.tuple xs ys | union.union xs ys | intersection.intersection xs ys =>
      have hparts := forall₂_denotes_iff xs ys @ih
      simp [hparts]
    case enumeration.enumeration as bs => simp [denotes_enumeration, Literal.sorted_array_toJson_iff]
    case literal.literal a b => simp [denotes_literal, Literal.sorted_toJson_iff]
    case reference.reference m n => simp [denotes_reference, Json.sorted]
    case generic.generic m xs n ys =>
      have hname : (Json.string m).sorted = (Json.string n).sorted ↔ m = n := by simp [Json.sorted]
      rw [denotes_generic, forall₂_denotes_iff xs ys @ih, Json.sorted_pair_iff (by decide), TypeExpr.sorted_array_iff,
        hname]
      simp
      tauto
    case typeParameter.typeParameter m n => simp [denotes_typeParameter, Json.sorted]
    case callable.callable => exact iff_of_true .callable (by simp)
  · exact iff_of_false (fun h => hkind h.kind_eq) fun h => hkind (TypeExpr.same_iff_content.mp h.1).1

end Catalog

/-! ## Providers and the parameters they feed

Where a parameter has a provider, binding compares the provider's declared type with that of the parameter and goes on.
So what holds where the two are written alike holds of the whole tree. -/

/-- Something holds of every provider in the tree of a binding and the parameter that it feeds. -/
inductive Binding.Feeds (providers : Providers) (P : Provider → Parameter → Prop) : Binding → Parameter → Prop where
  | request {p : Parameter} {field : Field} {schema : Option Schema} :
      providers.find? p.name = none → Feeds providers P (.request p.name p.node field schema) p
  | provided {p : Parameter} {provider : Provider} {dependencies : List Binding} :
      providers.find? p.name = some provider → P provider p →
      List.Forall₂ (Feeds providers P) dependencies provider.params →
      Feeds providers P (.provided p.name p.node provider.target provider.mayAbort dependencies) p

variable {c : Catalog}

namespace Bind

variable {providers : Providers} {verb : Verb} {parts parts' : RequestParts} {r r' : Resolver c}

/-- A parameter that is read off the request has no provider behind it. -/
theorem Reads.exists_eq_request {p : Parameter} {b : Binding} (h : Reads verb p parts r b parts' r') :
    ∃ field schema, b = .request p.name p.node field schema := by
  cases h with
  | raw => exact ⟨_, _, rfl⟩
  | schema _ htakes => cases htakes <;> exact ⟨_, _, rfl⟩

/-- What holds where a declared type is written like that of the parameter holds of every provider. -/
theorem Binds.feeds {P : Provider → Parameter → Prop} (hP : ∀ (provider : Provider) (p : Parameter),
      (∀ output, provider.output = some output → output.same p.node = true) → P provider p)
    {ps : List Parameter} {bs : List Binding} (h : Binds providers verb ps parts r bs parts' r') :
    List.Forall₂ (Binding.Feeds providers P) bs ps := by
  induction h with
  | nil => exact .nil
  | read hnone hread _ ih =>
    obtain ⟨field, schema, rfl⟩ := hread.exists_eq_request
    exact .cons (.request hnone) ih
  | provided hfound houtput _ _ ihDeps ih => exact .cons (.provided hfound (hP _ _ houtput) ihDeps) ih

end Bind

/-- Wherever a provider with a declared type feeds a parameter, that type and the type of the parameter are written
alike. Each read in its own file, they denote the same type just if every name in them means one declaration in both
files, which is so of a name that is declared and has no declaration in one of the files alone. -/
theorem provider_outputs_agree {providers : Providers} {verb : Verb} {tokens : List String} {params : List Parameter}
    {r r' : Resolver c} {bindings : List Binding} {parts : RequestParts}
    (h : (bindAll providers verb tokens params).run r = (.ok (bindings, parts), r')) :
    List.Forall₂ (Binding.Feeds providers fun provider p => ∀ output, provider.output = some output →
      output.same p.node = true ∧
      (c.Denotes provider.location.unit p.location.unit output p.node ↔
        ∀ name, output.Mentions name → c.MeansOne provider.location.unit p.location.unit name) ∧
      ∀ name, (c.lookup? name provider.location.unit).isSome = true →
        (∀ d ∈ c.declarations, d.name = name →
          d.location.unit.same provider.location.unit = d.location.unit.same p.location.unit) →
        c.MeansOne provider.location.unit p.location.unit name) bindings params := by
  refine (Bind.binds_of_bindAll h).feeds fun provider p houtput output hsome => ?_
  have hsame := houtput output hsome
  refine ⟨hsame, ?_, fun name hdeclared hfiles => ?_⟩
  · rw [Catalog.denotes_iff, and_iff_right hsame]
  · obtain ⟨i, hi⟩ := Option.isSome_iff_exists.mp hdeclared
    exact ⟨i, hi, (Catalog.lookup?_congr hfiles).symm.trans hi⟩

/-- Two files that declare a type of one name each, and a third type that only one of them declares. -/
def accountCatalog : Catalog where
  declarations := [
    { name := "User", location := ⟨⟨"auth.rs"⟩, 1, 0⟩, body := .object [("id", ⟨.string, true⟩)] false },
    { name := "User", location := ⟨⟨"routes.rs"⟩, 1, 0⟩, body := .object [("email", ⟨.string, true⟩)] false },
    { name := "Session", location := ⟨⟨"auth.rs"⟩, 5, 0⟩, body := .object [("token", ⟨.string, true⟩)] false }]

/-- Providers that are written where all that they produce is declared. -/
def accountProviders : Providers :=
  let user : TypeExpr := .reference "User"
  let sessions : TypeExpr := .array (.reference "Session")
  [("user", { target := "findUser", output := some user, location := ⟨⟨"auth.rs"⟩, 9, 0⟩ }),
    ("sessions", { target := "findSessions", output := some sessions, location := ⟨⟨"auth.rs"⟩, 12, 0⟩ })]

def accountParams : List Parameter := [
  { name := "user", node := .reference "User", location := ⟨⟨"routes.rs"⟩, 7, 0⟩ },
  { name := "sessions", node := .array (.reference "Session"), location := ⟨⟨"routes.rs"⟩, 8, 0⟩ }]

/-- Both providers feed their parameters, but only one of them produces what its parameter is declared to be. -/
theorem provider_outputs_agree_account :
    ∃ (bindings : List Binding) (parts : RequestParts) (r : Resolver accountCatalog),
      (bindAll accountProviders .get [] accountParams).run {} = (.ok (bindings, parts), r) ∧
      List.Forall₂ (Binding.Feeds accountProviders fun provider p => ∀ output, provider.output = some output →
        output.same p.node = true ∧
        (accountCatalog.Denotes provider.location.unit p.location.unit output p.node ↔
          ∀ name, output.Mentions name →
            accountCatalog.MeansOne provider.location.unit p.location.unit name) ∧
        ∀ name, (accountCatalog.lookup? name provider.location.unit).isSome = true →
          (∀ d ∈ accountCatalog.declarations, d.name = name →
            d.location.unit.same provider.location.unit = d.location.unit.same p.location.unit) →
          accountCatalog.MeansOne provider.location.unit p.location.unit name) bindings accountParams ∧
      ¬accountCatalog.Denotes ⟨"auth.rs"⟩ ⟨"routes.rs"⟩ (.reference "User") (.reference "User") ∧
      accountCatalog.Denotes ⟨"auth.rs"⟩ ⟨"routes.rs"⟩ (.array (.reference "Session")) (.array (.reference "Session")) := by
  have hok : ((bindAll accountProviders .get [] accountParams).run ({} : Resolver accountCatalog)).1.toOption.isSome =
      true := by
    have huser : accountProviders.find? "user" = some _ := rfl
    have hsessions : accountProviders.find? "sessions" = some _ := rfl
    simp only [bindAll, accountParams, List.mapM_cons, List.mapM_nil, Bind.parameter_eq, huser, hsessions]
    decide +kernel
  rcases hrun : (bindAll accountProviders .get [] accountParams).run ({} : Resolver accountCatalog) with
    ⟨fault | ⟨bindings, parts⟩, r⟩
  · rw [hrun] at hok
    cases hok
  · refine ⟨bindings, parts, r, rfl, provider_outputs_agree hrun, fun h => ?_, .array (.reference ⟨⟨2, by decide⟩, ?_⟩)⟩
    · cases h with
      | reference h =>
        obtain ⟨i, hauth, hroutes⟩ := h
        have hdiffer : accountCatalog.lookup? "User" ⟨"auth.rs"⟩ ≠ accountCatalog.lookup? "User" ⟨"routes.rs"⟩ := by
          decide +kernel
        exact hdiffer (hauth.trans hroutes.symm)
    · decide +kernel

end RouteManifest
