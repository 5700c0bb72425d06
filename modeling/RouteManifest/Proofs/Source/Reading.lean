import Mathlib.Data.List.Basic
import RouteManifest.Source.TypeReading

/-!
# What readers take

A reader is a function of the trees ahead, so readers one after the other are one function after the other
(`bind_apply`). Behind an item of a list stands nothing or a comma (`Ended`), and at both no question is answered with yes
that an item could be continued by.

This is what it takes to read back a list that has been written with commas (`commaList_apply`), for any reader that takes
an item where the item has ended. The items that are met in attributes end in a text, so the one kind of expression that is
followed here is a literal (`expression_literal`).
-/

namespace RouteManifest

namespace Source

/-- Nothing is ahead that belongs to the item before. -/
inductive Ended : List TokenTree → Prop
  | nil : Ended []
  | comma (p : Position) (joint : Bool) (rest : List TokenTree) : Ended (.leaf p (.mark ',' joint) :: rest)

/-- Items with commas between them, and perhaps one at the end. -/
inductive Separated {α : Type} (Written : α → List TokenTree → Prop) : List α → List TokenTree → Prop
  | nil : Separated Written [] []
  | last {a : α} {trees : List TokenTree} : Written a trees → Separated Written [a] trees
  | cons {a : α} {trees : List TokenTree} {others : List α} {rest : List TokenTree} (p : Position) (joint : Bool) :
    Written a trees → Separated Written others rest →
      Separated Written (a :: others) (trees ++ .leaf p (.mark ',' joint) :: rest)

namespace Reading

variable {α β : Type}

/-! ## Readers as functions

The equations of the readers that everything is put together with, for trees whose beginning is known. -/

/-- The second reader goes on where the first one has stopped. -/
theorem bind_apply (first : Reading α) (next : α → Reading β) (trees : List TokenTree) :
    (first >>= next) trees = (first trees).bind fun taken => next taken.1 taken.2 := rfl

theorem map_apply (f : α → β) (reader : Reading α) (trees : List TokenTree) :
    (f <$> reader) trees = (reader trees).map fun taken => (f taken.1, taken.2) := by
  show (reader trees).bind _ = _
  cases reader trees <;> rfl

theorem get_apply (trees : List TokenTree) : (get : Reading (List TokenTree)) trees = some (trees, trees) := rfl

theorem ahead_apply (question : List TokenTree → Bool) (trees : List TokenTree) :
    ahead question trees = some (question trees, trees) := rfl

theorem drop_apply (n : Nat) (trees : List TokenTree) : drop n trees = some ((), trees.drop n) := rfl

theorem check_apply_of_true {question : List TokenTree → Bool} {trees : List TokenTree} (h : question trees = true) :
    check question trees = some ((), trees) := by
  rw [check, bind_apply, ahead_apply, Option.bind_some, h]
  rfl

theorem whenAhead_apply_of_false {question : List TokenTree → Bool} {taken : Reading α} {trees : List TokenTree}
    (h : question trees = false) : whenAhead question taken trees = some (false, trees) := by
  rw [whenAhead, bind_apply, ahead_apply, Option.bind_some, h]
  rfl

theorem manyWhile_apply_of_false {more : List TokenTree → Bool} {item : Reading α} {trees : List TokenTree}
    (h : more trees = false) : manyWhile more item trees = some ([], trees) := by
  rw [manyWhile, h]
  rfl

/-- A list of items, each of which is taken up to where it ends. -/
theorem commaList_apply {Written : α → List TokenTree → Prop} {item : Reading β} {f : α → β}
    (hne : ∀ a, ¬Written a [])
    (hitem : ∀ {a trees rest}, Written a trees → Ended rest → item (trees ++ rest) = some (f a, rest))
    {items : List α} {trees : List TokenTree} (h : Separated Written items trees) :
    commaList item trees = some (items.map f, []) := by
  induction h with
  | nil => rw [commaList, listUntil]; rfl
  | @last a trees hwritten =>
    have hempty : trees.isEmpty = false := by
      rw [List.isEmpty_eq_false_iff]
      rintro rfl
      exact hne a hwritten
    have htaken := hitem hwritten Ended.nil
    rw [List.append_nil] at htaken
    rw [commaList, listUntil, hempty, htaken]
    rfl
  | @cons a trees others rest p joint hwritten _ ih =>
    have hempty : (trees ++ .leaf p (.mark ',' joint) :: rest).isEmpty = false := by simp
    have hshorter : rest.length < (trees ++ .leaf p (.mark ',' joint) :: rest).length := by
      rw [List.length_append, List.length_cons]
      omega
    have hcomma : marks "," (.leaf p (.mark ',' joint) :: rest) = some ((), rest) := rfl
    rw [commaList, listUntil, hempty, hitem hwritten (.comma p joint rest)]
    simp only [Bool.false_eq_true, if_false, List.isEmpty_cons, hcomma, dif_pos hshorter]
    rw [← commaList, ih]
    rfl

/-! ## A text as an expression

The reader of expressions goes through operands, postfixes and operators. At a literal it takes the one tree, since
behind an item none of them finds anything. -/

section

variable {trees : List TokenTree}

/-- Behind an item there is nothing that could follow an operand. -/
theorem atPostfix_of_ended (h : Ended trees) : atPostfix trees = false := by cases h <;> rfl

/-- Behind an item there is no operator. -/
theorem atOperator_of_ended (h : Ended trees) :
    (atWord "as" trees || (binaryOperators ++ rangeOperators).any (atMarks · trees)) = false := by
  cases h <;> rfl

end

variable (type : TypeReader) (p : Position) (value : Literal) (rest : List TokenTree)

theorem atMarks_literal (text : String) : atMarks text (.leaf p (.literal value) :: rest) = false := by
  rw [atMarks]
  rcases text.toList with _ | ⟨c, _ | ⟨d, cs⟩⟩ <;> rfl

theorem operator_literal (operators : List String) :
    operator operators (.leaf p (.literal value) :: rest) = some (false, .leaf p (.literal value) :: rest) := by
  have hnone : operators.find? (fun o => atMarks o (.leaf p (.literal value) :: rest)) = none := by
    simp [atMarks_literal]
  rw [operator, bind_apply, get_apply, Option.bind_some, hnone]
  rfl

/-- A literal is an operand by itself. -/
theorem operandStep_literal (whole operand : Bool → Reading Unit) (structs : Bool) :
    operandStep type whole operand structs (.leaf p (.literal value) :: rest) = some ((), rest) := by
  have hattributes : passAttributes (.leaf p (.literal value) :: rest) = some ((), .leaf p (.literal value) :: rest) := by
    rw [passAttributes, bind_apply, manyWhile_apply_of_false (atMarks_literal p value rest "#")]
    rfl
  have hliteral : literal (.leaf p (.literal value) :: rest) = some ((), rest) := by
    rw [literal, bind_apply, check_apply_of_true rfl, Option.bind_some, bind_apply, ahead_apply, atMarks_literal]
    rfl
  rw [operandStep, bind_apply, hattributes, Option.bind_some, bind_apply, operator_literal, Option.bind_some]
  simp only [Bool.false_eq_true, if_false]
  rw [bind_apply, operator_literal, Option.bind_some]
  simp only [Bool.false_eq_true, if_false]
  rw [bind_apply, ahead_apply, Option.bind_some, atMarks_literal]
  simp only [Bool.false_eq_true, if_false]
  exact hliteral

variable {rest}

/-- A literal that an item ends with is an expression. -/
theorem expression_literal (h : Ended rest) :
    expression type (.leaf p (.literal value) :: rest) = some ((), rest) := by
  have hoperand (depth : Nat) (structs : Bool) :
      expressionWithin.operandWithin type (depth + 1) structs (.leaf p (.literal value) :: rest) = some ((), rest) := by
    rw [expressionWithin.operandWithin, bind_apply, operandStep_literal, Option.bind_some, bind_apply,
      manyWhile_apply_of_false (atPostfix_of_ended h)]
    rfl
  -- the bound is a token for the literal and one more, twice
  have hdepth : 2 * (1 + TokenTree.countAll rest + 1) = 2 * TokenTree.countAll rest + 2 + 1 + 1 := by omega
  rw [expression, bounded, TokenTree.countAll, TokenTree.count, hdepth, expressionWithin, bind_apply, hoperand,
    Option.bind_some, bind_apply, manyWhile_apply_of_false (atOperator_of_ended h)]
  rfl

end Reading

end Source

end RouteManifest
