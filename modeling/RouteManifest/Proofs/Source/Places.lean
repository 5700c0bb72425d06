import RouteManifest.Proofs.Source.Reading

/-!
# Places do not matter

What is read does not depend on where it stands: a reader that takes trees with other places takes the same of them
(`Relocates`). This is so of the readers that look at the trees themselves, and it is passed on by everything that readers
are put together with, so that most of the grammar follows by instances.

There are two classes. A question about the trees ahead is `Blind` if its answer is the same at other places; a reader
`Relocates` if it takes the same and leaves the same behind, at the other places. Lean finds the instance for a reader
from those of its parts. A reader that is defined by recursion on a depth gets its instance by induction on the depth,
and one that branches on what it has read gets it branch by branch.
-/

namespace RouteManifest

namespace Source

variable {g : Position → Position}

/-! ## Trees at other places

The map on trees goes into groups. It keeps the number of trees, and with that all lengths that readers go by. -/

mutual
/-- A tree with other places. -/
def TokenTree.mapPlace (g : Position → Position) : TokenTree → TokenTree
  | .leaf p t => .leaf (g p) t
  | .group p d trees => .group (g p) d (mapPlaces g trees)

/-- Trees with other places. -/
def TokenTree.mapPlaces (g : Position → Position) : List TokenTree → List TokenTree
  | [] => []
  | t :: rest => mapPlace g t :: mapPlaces g rest
end

open TokenTree

@[simp] theorem mapPlaces_nil : mapPlaces g [] = [] := by rw [mapPlaces]

@[simp] theorem mapPlaces_cons (t : TokenTree) (rest : List TokenTree) :
    mapPlaces g (t :: rest) = t.mapPlace g :: mapPlaces g rest := by rw [mapPlaces]

@[simp] theorem mapPlace_leaf (p : Position) (t : Token) : (TokenTree.leaf p t).mapPlace g = .leaf (g p) t := by
  rw [mapPlace]

@[simp] theorem mapPlace_group (p : Position) (d : Delimiter) (trees : List TokenTree) :
    (TokenTree.group p d trees).mapPlace g = .group (g p) d (mapPlaces g trees) := by
  rw [mapPlace]

/-- The trees behind the first few are the same at other places. -/
theorem mapPlaces_drop (n : Nat) (trees : List TokenTree) :
    (mapPlaces g trees).drop n = mapPlaces g (trees.drop n) := by
  induction n generalizing trees with
  | zero => rfl
  | succ n ih =>
    cases trees with
    | nil => simp
    | cons t rest => simp [ih]

@[simp] theorem length_mapPlaces (trees : List TokenTree) : (mapPlaces g trees).length = trees.length := by
  induction trees with
  | nil => simp
  | cons t rest ih => simp [ih]

@[simp] theorem isEmpty_mapPlaces (trees : List TokenTree) : (mapPlaces g trees).isEmpty = trees.isEmpty := by
  cases trees <;> simp

/-- The number of all trees, which readers take for their fuel, is the same at other places. -/
theorem countAll_mapPlaces (trees : List TokenTree) : countAll (mapPlaces g trees) = countAll trees := by
  induction trees using TokenTree.countAll.induct (fun t => count (t.mapPlace g) = count t) with
  | case1 => simp [count]
  | case2 p d trees ih => simp [count, ih]
  | case3 => simp
  | case4 t rest iht ih => simp [countAll, iht, ih]

/-! ## Questions

A question may look at words, marks and brackets, and at how many trees there are, but not at a place. -/

/-- A question that is answered alike wherever the trees are. -/
class Blind (g : Position → Position) (question : List TokenTree → Bool) : Prop where
  mapPlaces (trees : List TokenTree) : question (mapPlaces g trees) = question trees

/-- The word ahead is the same at other places. -/
theorem wordAhead?_mapPlaces (trees : List TokenTree) : wordAhead? (mapPlaces g trees) = wordAhead? trees := by
  rcases trees with _ | ⟨⟨p, token⟩ | _, rest⟩
  · rfl
  · cases token <;> rfl
  · rfl

/-- Whether marks are ahead does not depend on where they stand. -/
theorem atMarkList_mapPlaces (cs : List Char) (trees : List TokenTree) :
    atMarkList cs (mapPlaces g trees) = atMarkList cs trees := by
  induction cs generalizing trees with
  | nil => rfl
  | cons c cs ih =>
    rcases trees with _ | ⟨⟨p, token⟩ | ⟨p, d, inner⟩, rest⟩
    · rfl
    · cases token with
      | mark d joint =>
        cases cs with
        | nil => rfl
        | cons c' cs =>
          show (c == d && joint && atMarkList _ (mapPlaces g rest)) = (c == d && joint && atMarkList _ rest)
          rw [ih]
      | word | lifetime | literal => cases cs <;> rfl
    · cases cs <;> rfl

/-- A question about the word ahead. -/
theorem blind_of_word {question : List TokenTree → Bool} (f : Option String → Bool)
    (h : ∀ trees, question trees = f (wordAhead? trees)) : Blind g question :=
  ⟨fun trees => by rw [h, h, wordAhead?_mapPlaces]⟩

instance : Blind g atAnyWord := blind_of_word Option.isSome fun _ => rfl

instance (text : String) : Blind g (atWord text) := blind_of_word (· == some text) fun _ => rfl

instance (texts : List String) : Blind g (atOneOf texts) :=
  blind_of_word (fun word => texts.any fun text => word == some text) fun _ => rfl

instance : Blind g atName :=
  blind_of_word (fun word => match word with
    | some text => !reservedWords.contains text
    | none => false) fun _ => rfl

instance (text : String) : Blind g (atMarks text) := ⟨fun trees => atMarkList_mapPlaces text.toList trees⟩

instance (d : Delimiter) : Blind g (atGroup d) where
  mapPlaces trees := by rcases trees with _ | ⟨_ | _, _⟩ <;> rfl

instance : Blind g atLifetime where
  mapPlaces trees := by
    rcases trees with _ | ⟨⟨p, token⟩ | _, rest⟩
    · rfl
    · cases token <;> rfl
    · rfl

instance : Blind g List.isEmpty := ⟨isEmpty_mapPlaces⟩

instance : Blind g atLiteral where
  mapPlaces trees := by
    rcases trees with _ | ⟨⟨p, token⟩ | _, rest⟩
    · rfl
    · cases token with
      | mark c joint =>
        by_cases hc : c = '-'
        · -- a number can stand behind its sign
          subst hc
          rcases rest with _ | ⟨⟨q, token⟩ | _, rest⟩
          · rfl
          · rcases token with _ | _ | _ | (_ | _ | _) <;> rfl
          · rfl
        · simp [atLiteral, hc]
      | word | lifetime | literal => rfl
    · rfl

section

variable {q q' : List TokenTree → Bool}

instance [h : Blind g q] : Blind g fun trees => !q trees := ⟨fun trees => by rw [h.mapPlaces]⟩

instance [h : Blind g q] [h' : Blind g q'] : Blind g fun trees => q trees && q' trees :=
  ⟨fun trees => by rw [h.mapPlaces, h'.mapPlaces]⟩

instance [h : Blind g q] [h' : Blind g q'] : Blind g fun trees => q trees || q' trees :=
  ⟨fun trees => by rw [h.mapPlaces, h'.mapPlaces]⟩

instance (b : Bool) : Blind g fun _ => b := ⟨fun _ => rfl⟩

/-- A question about what comes later is as blind as the question itself. -/
theorem blind_drop (n : Nat) [h : Blind g q] : Blind g fun trees => q (trees.drop n) :=
  ⟨fun trees => by rw [mapPlaces_drop, h.mapPlaces]⟩

instance (text : String) (n : Nat) : Blind g fun trees => atMarks text (trees.drop n) := blind_drop n

instance (text : String) (n : Nat) : Blind g fun trees => atWord text (trees.drop n) := blind_drop n

instance (d : Delimiter) (n : Nat) : Blind g fun trees => atGroup d (trees.drop n) := blind_drop n

end

instance : Blind g atPathWord :=
  inferInstanceAs (Blind g fun trees => atName trees || atOneOf ["super", "self", "Self", "crate"] trees)

/-! ## Readers

A reader goes from trees to what it takes of them and what it leaves, so it is enough to look at sequences, at choices,
and at the few readers that take trees by themselves. -/

namespace Reading

variable {α β : Type}

/-- A reader that takes the same wherever the trees are. -/
class Relocates (g : Position → Position) (reader : Reading α) : Prop where
  mapPlaces (trees : List TokenTree) :
    reader (mapPlaces g trees) = (reader trees).map fun taken => (taken.1, TokenTree.mapPlaces g taken.2)

/-- What is taken of trees at other places, as an equation to rewrite with. -/
theorem reading_mapPlaces (reader : Reading α) [Relocates g reader] (trees : List TokenTree) :
    reader (mapPlaces g trees) = (reader trees).map fun taken => (taken.1, TokenTree.mapPlaces g taken.2) :=
  Relocates.mapPlaces trees

instance (a : α) : Relocates g (pure a : Reading α) := ⟨fun _ => rfl⟩

instance : Relocates g (failure : Reading α) := ⟨fun _ => rfl⟩

/-- Two readers in a row relocate if both do, the second one whatever the first has taken. -/
theorem Relocates.bind {first : Reading α} {next : α → Reading β} (h : Relocates g first)
    (hnext : ∀ a, Relocates g (next a)) : Relocates g (first >>= next) where
  mapPlaces trees := by
    rw [bind_apply, bind_apply, h.mapPlaces]
    cases first trees with
    | none => rfl
    | some taken => exact (hnext taken.1).mapPlaces taken.2

instance {first : Reading α} {next : α → Reading β} [h : Relocates g first] [hnext : ∀ a, Relocates g (next a)] :
    Relocates g (first >>= next) := h.bind hnext

instance {f : α → β} {reader : Reading α} [h : Relocates g reader] : Relocates g (f <$> reader) where
  mapPlaces trees := by
    rw [map_apply, map_apply, h.mapPlaces, Option.map_map, Option.map_map]
    rfl

instance {p : Prop} [Decidable p] {yes no : Reading α} [Relocates g yes] [Relocates g no] :
    Relocates g (if p then yes else no) := by
  split <;> infer_instance

/-- One of two readers, as a third one tells. -/
theorem Relocates.either {condition : Reading Bool} {yes no : Reading α} (hcondition : Relocates g condition)
    (hyes : Relocates g yes) (hno : Relocates g no) :
    Relocates g (condition >>= fun holds => if holds = true then yes else no) :=
  hcondition.bind fun _ => inferInstance

instance {question : List TokenTree → Bool} [h : Blind g question] : Relocates g (ahead question) where
  mapPlaces trees := by rw [ahead_apply, ahead_apply, h.mapPlaces]; rfl

instance (n : Nat) : Relocates g (drop n) where
  mapPlaces trees := by rw [drop_apply, drop_apply, mapPlaces_drop]; rfl

instance {question : List TokenTree → Bool} [Blind g question] : Relocates g (check question) := by
  unfold check
  infer_instance

instance : Relocates g anyWord where
  mapPlaces trees := by
    rw [anyWord, bind_apply, bind_apply, get_apply, get_apply, Option.bind_some, Option.bind_some,
      wordAhead?_mapPlaces]
    cases wordAhead? trees with
    | none => rfl
    | some text =>
      have h : Relocates g (drop 1 >>= fun _ => pure text) := inferInstance
      exact h.mapPlaces trees

instance (text : String) : Relocates g (word text) := by unfold word; infer_instance

instance : Relocates g name := by unfold name; infer_instance

instance (text : String) : Relocates g (marks text) := by unfold marks; infer_instance

instance : Relocates g lifetime := by unfold lifetime; infer_instance

instance : Relocates g literal := by unfold literal; infer_instance

instance {question : List TokenTree → Bool} {taken : Reading α} [Blind g question] [Relocates g taken] :
    Relocates g (whenAhead question taken) := by
  unfold whenAhead
  infer_instance

instance (text : String) : Relocates g (maybeWord text) := by unfold maybeWord; infer_instance

instance (text : String) : Relocates g (maybeMarks text) := by unfold maybeMarks; infer_instance

instance (d : Delimiter) {content : Reading α} [h : Relocates g content] : Relocates g (inside d content) where
  mapPlaces trees := by
    rcases trees with _ | ⟨_ | ⟨p, e, inner⟩, rest⟩
    · rfl
    · rfl
    · by_cases heq : d = e
      · simp only [mapPlaces_cons, mapPlace_group, inside, if_pos heq, h.mapPlaces inner]
        rcases content inner with _ | ⟨a, _ | _⟩ <;> simp
      · simp [inside, heq]

instance : Relocates g anyGroup := by unfold anyGroup; infer_instance

instance (d : Delimiter) : Relocates g (group d) := by unfold group; infer_instance

instance {reader : Nat → Reading α} [h : ∀ depth, Relocates g (reader depth)] : Relocates g (bounded reader) where
  mapPlaces trees := by
    rw [bounded, bounded, countAll_mapPlaces]
    exact (h _).mapPlaces trees

/-! ### Repetition

Repetitions are recursive on the number of trees, which their inductions follow. Whether an item has taken anything is
told by the lengths of what is left, and they are the same at other places. -/

instance {more : List TokenTree → Bool} {item : Reading α} [hmore : Blind g more] [hitem : Relocates g item] :
    Relocates g (manyWhile more item) where
  mapPlaces trees := by
    induction trees using manyWhile.induct more item with
    | case1 trees h hnone =>
      unfold manyWhile
      simp [hmore.mapPlaces, hitem.mapPlaces, h, hnone]
    | case2 trees h a rest hsome hshorter ih =>
      unfold manyWhile
      simp [hmore.mapPlaces, hitem.mapPlaces, h, hsome, hshorter, ih, Function.comp_def]
    | case3 trees h a rest hsome hshorter =>
      unfold manyWhile
      simp [hmore.mapPlaces, hitem.mapPlaces, h, hsome, hshorter]
    | case4 trees h =>
      unfold manyWhile
      simp [hmore.mapPlaces, h]

instance (mark : String) {stop : List TokenTree → Bool} {item : Reading α} [hstop : Blind g stop]
    [hitem : Relocates g item] : Relocates g (listWhile mark stop item) where
  mapPlaces trees := by
    have hmark : Relocates g (marks mark) := inferInstance
    induction trees using listWhile.induct mark stop item with
    | case1 trees h =>
      unfold listWhile
      simp [hstop.mapPlaces, h]
    | case2 trees h hnone =>
      unfold listWhile
      simp [hstop.mapPlaces, hitem.mapPlaces, h, hnone]
    | case3 trees h a rest hsome hend =>
      unfold listWhile
      simp [hstop.mapPlaces, hitem.mapPlaces, hmark.mapPlaces, h, hsome, hend]
    | case4 trees h a rest hsome _ rest' hmore hshorter ih =>
      unfold listWhile
      simp [hstop.mapPlaces, hitem.mapPlaces, hmark.mapPlaces, h, hsome, hmore, hshorter, ih, Function.comp_def]
    | case5 trees h a rest hsome _ rest' hmore hshorter =>
      unfold listWhile
      simp [hstop.mapPlaces, hitem.mapPlaces, hmark.mapPlaces, h, hsome, hmore, hshorter]

instance {stop : List TokenTree → Bool} {separator : Reading Unit} {item : Reading α} [hstop : Blind g stop]
    [hseparator : Relocates g separator] [hitem : Relocates g item] : Relocates g (listUntil stop separator item) where
  mapPlaces trees := by
    induction trees using listUntil.induct stop separator item with
    | case1 trees h =>
      unfold listUntil
      simp [hstop.mapPlaces, h]
    | case2 trees h hnone =>
      unfold listUntil
      simp [hstop.mapPlaces, hitem.mapPlaces, h, hnone]
    | case3 trees h a rest hsome hend =>
      unfold listUntil
      simp [hstop.mapPlaces, hitem.mapPlaces, h, hsome, hend]
    | case4 trees h a rest hsome hend hnone =>
      unfold listUntil
      simp [hstop.mapPlaces, hitem.mapPlaces, hseparator.mapPlaces, h, hsome, hend, hnone]
    | case5 trees h a rest hsome hend _ rest' hmore hshorter ih =>
      unfold listUntil
      simp [hstop.mapPlaces, hitem.mapPlaces, hseparator.mapPlaces, h, hsome, hend, hmore, hshorter, ih,
        Function.comp_def]
    | case6 trees h a rest hsome hend _ rest' hmore hshorter =>
      unfold listUntil
      simp [hstop.mapPlaces, hitem.mapPlaces, hseparator.mapPlaces, h, hsome, hend, hmore, hshorter]

instance {item : Reading α} [Relocates g item] : Relocates g (commaList item) := by
  unfold commaList
  infer_instance

/-! ## The grammar

From here on there is nothing to prove but that each definition is put together from parts with instances. Where a
definition has local readers, these are shown to relocate first. -/

instance : Relocates g passAttributes := by unfold passAttributes; infer_instance

instance : Relocates g constantArgument := by unfold constantArgument; infer_instance

section

set_option synthInstance.maxSize 4000

variable {type : TypeReader} [htype : ∀ plus, Relocates g (type plus)]

instance (plus : Bool) : Relocates g (returnType type plus) := by unfold returnType; infer_instance

instance : Blind g atRoundArguments := by unfold atRoundArguments; infer_instance

instance : Relocates g (roundArguments type) := by unfold roundArguments; infer_instance

instance {stop : List TokenTree → Bool} [Blind g stop] : Relocates g (lifetimeBounds stop) := by
  unfold lifetimeBounds
  infer_instance

instance : Relocates g forLifetimes := by unfold forLifetimes; infer_instance

instance {path : Reading PathTerm} [Relocates g path] : Relocates g (boundWith type path) := by
  unfold boundWith
  extract_lets named trait
  have hnamed : ∀ u, Relocates g (named u) := by
    intro u
    simp only [named]
    infer_instance
  have htrait : Relocates g trait := by
    simp only [trait]
    infer_instance
  infer_instance

instance {bound : Reading Bound} [Relocates g bound] : Relocates g (genericArgument type bound) := by
  unfold genericArgument
  refine .bind inferInstance fun lifetime => ?_
  split
  · infer_instance
  · refine .bind inferInstance fun constant => ?_
    split
    · infer_instance
    · refine .bind inferInstance fun t => ?_
      split <;> infer_instance

instance {argument : Reading (Option TypeTerm)} [Relocates g argument] (expression : Bool) :
    Relocates g (segmentWith argument expression) := by
  unfold segmentWith
  simp only []
  infer_instance

instance {segment : Reading Segment} [Relocates g segment] : Relocates g (pathWith segment) := by
  unfold pathWith
  infer_instance

instance (expression : Bool) (depth : Nat) : Relocates g (segmentWithin type expression depth) := by
  induction depth generalizing expression with
  | zero => exact inferInstanceAs (Relocates g failure)
  | succ depth ih =>
    rw [segmentWithin]
    infer_instance

instance (expression : Bool) : Relocates g (path type expression) := by unfold path; infer_instance

instance : Relocates g (bound type) := by unfold bound; infer_instance

instance : Blind g atBound := by unfold atBound; infer_instance

instance (plus : Bool) : Relocates g (bounds type plus) := by unfold bounds; infer_instance

instance (plus : Bool) : Relocates g (traitBounds type plus) := by unfold traitBounds; infer_instance

instance (expression : Bool) : Relocates g (projection type expression) := by unfold projection; infer_instance

/-! ### Expressions

Expressions and operands are defined by mutual recursion on a depth, so one induction gives both instances. -/

instance (operators : List String) : Relocates g (operator operators) where
  mapPlaces trees := by
    have hmarks : (fun o => atMarks o (TokenTree.mapPlaces g trees)) = fun o => atMarks o trees :=
      funext fun o => Blind.mapPlaces trees
    rw [operator, bind_apply, bind_apply, get_apply, get_apply, Option.bind_some, Option.bind_some, hmarks]
    cases operators.find? fun o => atMarks o trees with
    | none => rfl
    | some o =>
      have h : Relocates g (marks o >>= fun _ => pure true) := inferInstance
      exact h.mapPlaces trees

instance (operators : List String) : Blind g fun trees => operators.any fun o => atMarks o trees where
  mapPlaces trees := by
    have hmarks : (fun o => atMarks o (TokenTree.mapPlaces g trees)) = fun o => atMarks o trees :=
      funext fun o => Blind.mapPlaces trees
    rw [hmarks]

instance : Blind g atOperand where
  mapPlaces trees := by
    rcases trees with _ | ⟨⟨p, token⟩ | _, rest⟩
    · rfl
    · cases token <;> rfl
    · rfl

instance : Relocates g (postfixPart type) := by
  unfold postfixPart
  repeat refine .either inferInstance inferInstance ?_
  refine .bind inferInstance fun _ => ?_
  repeat refine .either inferInstance inferInstance ?_
  infer_instance

instance : Blind g atPostfix := by unfold atPostfix; infer_instance

section

variable {whole operand : Bool → Reading Unit} [∀ structs, Relocates g (whole structs)]
  [∀ structs, Relocates g (operand structs)] (structs : Bool)

omit [∀ structs, Relocates g (operand structs)] in
/-- The body of a closure is an expression, for which the instance is not there yet. -/
theorem relocates_closure : Relocates g (closure type whole structs) := by
  unfold closure
  refine .bind inferInstance fun _ => .bind inferInstance fun _ => .bind inferInstance fun _ =>
    .bind inferInstance fun result => ?_
  cases result <;> infer_instance

instance (words : List String) : Relocates g (operandStep.operatorWord words) := by
  unfold operandStep.operatorWord
  infer_instance

instance : Relocates g (operandStep type whole operand structs) := by
  have hclosure : Relocates g (closure type whole structs) := relocates_closure structs
  unfold operandStep
  refine .bind inferInstance fun _ => ?_
  repeat refine .either inferInstance inferInstance ?_
  infer_instance

end

/-- At any depth, expressions and operands relocate. -/
theorem relocates_expressionWithin (depth : Nat) :
    (∀ structs, Relocates g (expressionWithin type depth structs)) ∧
      ∀ structs, Relocates g (expressionWithin.operandWithin type depth structs) := by
  induction depth with
  | zero => exact ⟨fun _ => inferInstanceAs (Relocates g failure), fun _ => inferInstanceAs (Relocates g failure)⟩
  | succ depth ih =>
    obtain ⟨hwhole, hoperand⟩ := ih
    constructor
    · intro structs
      rw [expressionWithin]
      refine .bind (hoperand structs) fun _ => .bind ?_ fun _ => inferInstance
      infer_instance
    · intro structs
      rw [expressionWithin.operandWithin]
      infer_instance

instance (depth : Nat) (structs : Bool) : Relocates g (expressionWithin type depth structs) :=
  (relocates_expressionWithin depth).1 structs

instance : Relocates g (expression type) := by unfold expression; infer_instance

/-! ### Types

Types are read by recursion on a depth, and a single step takes the reader of the types inside as a parameter. -/

instance blind_textAhead : Blind g fun trees => match trees with
    | .leaf _ (.literal (.text _)) :: _ => true
    | _ => false where
  mapPlaces trees := by
    rcases trees with _ | ⟨⟨p, token⟩ | _, rest⟩
    · rfl
    · rcases token with _ | _ | _ | (_ | _ | _) <;> rfl
    · rfl

instance : Relocates g (functionPointer type) := by
  unfold functionPointer
  extract_lets typed argument signature
  have htyped : ∀ u, Relocates g (typed u) := by
    intro u
    simp only [typed]
    infer_instance
  have hargument : ∀ u, Relocates g (argument u) := by
    intro u
    simp only [argument]
    infer_instance
  have hsignature : ∀ u, Relocates g (signature u) := by
    intro u
    simp only [signature]
    infer_instance
  clear_value signature
  infer_instance

instance (first : Bound) : Relocates g (moreBounds type first) := by unfold moreBounds; infer_instance

instance : Relocates g (roundType type) := by unfold roundType; infer_instance

instance (lifetimes plus : Bool) : Relocates g (pathType type lifetimes plus) := by
  unfold pathType
  simp only []
  infer_instance

instance (plus : Bool) : Relocates g (typeStep type plus) := by
  unfold typeStep
  refine .bind inferInstance fun lifetimes => ?_
  extract_lets pointed unbound
  have hunbound : ∀ u, Relocates g (unbound u) := by
    intro u
    simp only [unbound]
    refine .either inferInstance ?_ ?_
    · refine .bind inferInstance fun t => ?_
      split <;> infer_instance
    · repeat refine .either inferInstance inferInstance ?_
      infer_instance
  clear_value unbound
  infer_instance

end

instance (depth : Nat) (plus : Bool) : Relocates g (typeWithin depth plus) := by
  induction depth generalizing plus with
  | zero => exact inferInstanceAs (Relocates g failure)
  | succ depth ih => exact inferInstanceAs (Relocates g (typeStep (typeWithin depth) plus))

instance (plus : Bool) : Relocates g (typeTerm plus) := by unfold typeTerm; infer_instance

end Reading

end Source

end RouteManifest
