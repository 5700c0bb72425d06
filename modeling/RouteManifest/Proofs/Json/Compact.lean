import Mathlib.Data.List.Basic
import RouteManifest.Json.Printer

/-!
# The compact text determines the value

A compact text can be read back without any look at what stands behind it: the first character tells the
kind of the value, brackets and quotes tell where it ends, and a number ends where its digits do. So the text
of a value is never the beginning of the text of another, unless both are numbers (`Whole.readable`),
and `compact` is injective.

Numbers with a fraction are left out. Their text is the shortest one that is read back as the same number,
which says nothing about what may follow it; the texts that are compared here hold none.
-/

namespace RouteManifest

namespace Json

/-! ## Values without fractions

Texts of fractions are left open, so a value that holds one cannot be told from its text here. -/

/-- No number in the value is written with a fraction. -/
inductive Whole : Json → Prop where
  | null : Whole .null
  | bool (b : Bool) : Whole (.bool b)
  | int (n : Int) : Whole (.int n)
  | string (s : String) : Whole (.string s)
  | array {items : List Json} (h : ∀ v ∈ items, Whole v) : Whole (.array items)
  | object {members : Table Json} (h : ∀ v ∈ members.values, Whole v) : Whole (.object members)

/-! ## Characters and strings

An escape is one to six characters long and its length shows in the second one. So escaped texts can be compared from
the left, and the first unescaped quote ends both. -/

/-- Reads one escaped character off a text. -/
def unescape : List Char → Option (Char × List Char)
  | '\\' :: '"' :: rest => some ('"', rest)
  | '\\' :: '\\' :: rest => some ('\\', rest)
  | '\\' :: 'n' :: rest => some ('\n', rest)
  | '\\' :: 'r' :: rest => some ('\r', rest)
  | '\\' :: 't' :: rest => some ('\t', rest)
  | '\\' :: 'b' :: rest => some ('\x08', rest)
  | '\\' :: 'f' :: rest => some ('\x0c', rest)
  | '\\' :: 'u' :: '0' :: '0' :: a :: b :: rest =>
    ((List.range 0x20).find? fun n => hexDigit (n / 16) == a && hexDigit n == b).map fun n => (Char.ofNat n, rest)
  | c :: rest => some (c, rest)
  | [] => none

/-- A control character is found again by its two digits. -/
theorem find?_hexDigits : ∀ n < 0x20, (List.range 0x20).find? (fun m =>
    hexDigit (m / 16) == hexDigit (n / 16) && hexDigit m == hexDigit n) = some n := by
  decide

/-- An escaped character is read back, and the text behind it is left. -/
theorem unescape_escape (c : Char) (rest : List Char) : unescape (escape c ++ rest) = some (c, rest) := by
  unfold escape
  split
  case h_8 hquote hbackslash hn hr ht hb hf =>
    split
    next hlow =>
      simp only [List.cons_append, List.nil_append, unescape]
      rw [find?_hexDigits c.toNat hlow, Option.map_some, Char.ofNat_toNat]
    · show unescape (c :: rest) = _
      unfold unescape
      split <;> first | rfl | simp_all
  all_goals rfl

/-- Texts that begin with escaped characters and are the same begin with the same character. -/
theorem escape_append_inj {c d : Char} {s t : List Char} (h : escape c ++ s = escape d ++ t) : c = d ∧ s = t := by
  have := congrArg unescape h
  rw [unescape_escape, unescape_escape] at this
  exact Prod.mk.inj (Option.some.inj this)

/-- An escaped character never begins with the quote that ends a string. -/
theorem escape_append_ne (c : Char) (s t : List Char) : escape c ++ s ≠ '"' :: t := by
  intro h
  unfold escape at h
  split at h
  case h_8 hquote _ _ _ _ _ _ =>
    split at h
    · cases h
    · obtain ⟨rfl, -⟩ := List.cons.inj h
      exact hquote rfl
  all_goals cases h

/-- Texts are told apart in their escaped form: whichever ends first meets a quote, which is never the beginning of an
escape. -/
theorem escaped_append_inj {a b s t : List Char}
    (h : a.flatMap escape ++ '"' :: s = b.flatMap escape ++ '"' :: t) : a = b ∧ s = t := by
  -- no escaped character begins with a quote, so neither text ends before the other
  induction a generalizing b with
  | nil =>
    cases b with
    | nil => exact ⟨rfl, (List.cons.inj h).2⟩
    | cons d b =>
      rw [List.flatMap_cons, List.append_assoc] at h
      exact absurd h.symm (escape_append_ne d _ _)
  | cons c a ih =>
    cases b with
    | nil =>
      rw [List.flatMap_cons, List.append_assoc] at h
      exact absurd h (escape_append_ne c _ _)
    | cons d b =>
      rw [List.flatMap_cons, List.flatMap_cons, List.append_assoc, List.append_assoc] at h
      obtain ⟨rfl, htail⟩ := escape_append_inj h
      obtain ⟨rfl, rfl⟩ := ih htail
      exact ⟨rfl, rfl⟩

/-- Texts in quotes are told apart whatever stands behind them. -/
theorem quoted_append_inj {a b : String} {s t : List Char} (h : quoted a ++ s = quoted b ++ t) :
    a = b ∧ s = t := by
  simp only [quoted, List.cons_append, List.append_assoc, List.nil_append] at h
  obtain ⟨hlist, rfl⟩ := escaped_append_inj (List.cons.inj h).2
  exact ⟨String.toList_inj.mp hlist, rfl⟩

/-! ## Numbers

The digits of a number are followed by a comma, a bracket or nothing, and by none of its kind. -/

/-- A text that does not go on with a digit. -/
def Stops (s : List Char) : Prop := ∀ c ∈ s.head?, c.isDigit = false

theorem stops_cons {c : Char} {s : List Char} (h : c.isDigit = false) : Stops (c :: s) := fun d hd => by
  obtain rfl := Option.some.inj hd
  exact h

/-- Digits that are followed by something else are told apart by where they end. -/
theorem digits_append_inj {a b s t : List Char} (ha : ∀ c ∈ a, c.isDigit = true)
    (hb : ∀ c ∈ b, c.isDigit = true) (hs : Stops s) (ht : Stops t) (h : a ++ s = b ++ t) : a = b ∧ s = t := by
  induction a generalizing b with
  | nil =>
    cases b with
    | nil => exact ⟨rfl, h⟩
    | cons d b =>
      have := hs d (by rw [show s = d :: (b ++ t) from h]; rfl)
      rw [hb d List.mem_cons_self] at this
      cases this
  | cons c a ih =>
    cases b with
    | nil =>
      have := ht c (by rw [← show c :: (a ++ s) = t from h]; rfl)
      rw [ha c List.mem_cons_self] at this
      cases this
    | cons d b =>
      obtain ⟨rfl, htail⟩ := List.cons.inj h
      obtain ⟨rfl, rfl⟩ := ih (fun c hc => ha c (List.mem_cons_of_mem _ hc))
        (fun c hc => hb c (List.mem_cons_of_mem _ hc)) htail
      exact ⟨rfl, rfl⟩

/-- A natural number is written with digits alone. -/
theorem isDigit_of_mem_repr {n : Nat} {c : Char} (h : c ∈ n.repr.toList) : c.isDigit = true := by
  rw [Nat.toList_repr] at h
  exact Nat.isDigit_of_mem_toDigits (by decide) (by decide) h

/-- Natural numbers are told apart in front of anything but a digit. -/
theorem repr_append_inj {m n : Nat} {s t : List Char} (hs : Stops s) (ht : Stops t)
    (h : m.repr.toList ++ s = n.repr.toList ++ t) : m = n ∧ s = t := by
  obtain ⟨hdigits, rfl⟩ :=
    digits_append_inj (fun _ => isDigit_of_mem_repr) (fun _ => isDigit_of_mem_repr) hs ht h
  refine ⟨?_, rfl⟩
  rw [Nat.toList_repr, Nat.toList_repr] at hdigits
  rw [← Nat.ofDigitChars_ten_toDigits (n := m), hdigits, Nat.ofDigitChars_ten_toDigits]

theorem toString_ofNat (n : Nat) : (toString (Int.ofNat n)).toList = n.repr.toList := rfl

theorem toString_negSucc (n : Nat) : (toString (Int.negSucc n)).toList = '-' :: (n + 1).repr.toList := by
  rw [Int.toString_eq_repr, Int.repr, String.toList_append]
  rfl

/-- The first character of a natural number is a digit. -/
theorem exists_repr (n : Nat) : ∃ d digits, n.repr.toList = d :: digits ∧ d.isDigit = true := by
  rcases h : n.repr.toList with _ | ⟨d, digits⟩
  · rw [Nat.toList_repr] at h
    exact absurd h Nat.toDigits_ne_nil
  · exact ⟨d, digits, rfl, isDigit_of_mem_repr (by rw [h]; exact List.mem_cons_self)⟩

/-- Whole numbers are told apart like natural numbers, since a sign is no digit. -/
theorem int_append_inj {m n : Int} {s t : List Char} (hs : Stops s) (ht : Stops t)
    (h : (toString m).toList ++ s = (toString n).toList ++ t) : m = n ∧ s = t := by
  have sign (i j : Nat) (s t : List Char) : i.repr.toList ++ s ≠ '-' :: t := by
    obtain ⟨d, digits, hd, hdigit⟩ := exists_repr i
    intro h
    rw [hd] at h
    obtain ⟨rfl, -⟩ := List.cons.inj h
    cases hdigit
  cases m with
  | ofNat m =>
    cases n with
    | ofNat n =>
      obtain ⟨rfl, rfl⟩ := repr_append_inj hs ht h
      exact ⟨rfl, rfl⟩
    | negSucc n =>
      rw [toString_negSucc, toString_ofNat] at h
      exact absurd h (sign m n _ _)
  | negSucc m =>
    cases n with
    | ofNat n =>
      rw [toString_negSucc, toString_ofNat] at h
      exact absurd h.symm (sign n m _ _)
    | negSucc n =>
      rw [toString_negSucc, toString_negSucc] at h
      obtain ⟨hmn, rfl⟩ := repr_append_inj hs ht (List.cons.inj h).2
      exact ⟨by rw [Nat.succ.inj hmn], rfl⟩

/-! ## Values

The induction is on the first of two values. The kind of the second is the same since the texts begin alike, which
leaves one case per kind. -/

/-- The kind of a value, as a number. -/
def kind : Json → Nat
  | .null => 0
  | .bool _ => 1
  | .string _ => 2
  | .array _ => 3
  | .object _ => 4
  | .int _ | .float _ => 6

/-- The kind of value that begins with a character. A closing bracket begins none. -/
def kindOf : Char → Nat
  | 'n' => 0
  | 't' | 'f' => 1
  | '"' => 2
  | '[' => 3
  | '{' => 4
  | ']' => 5
  | _ => 6

/-- A digit begins a number and nothing else. -/
theorem kindOf_of_isDigit {c : Char} (h : c.isDigit = true) : kindOf c = 6 := by
  unfold kindOf
  split <;> first | rfl | cases h

/-- The first character of a value tells its kind. -/
theorem Whole.first {v : Json} (hv : v.Whole) : ∃ c rest, v.compactChars = c :: rest ∧ kindOf c = v.kind := by
  cases hv with
  | null => exact ⟨_, _, rfl, rfl⟩
  | bool b => cases b <;> exact ⟨_, _, rfl, rfl⟩
  | string s => exact ⟨_, _, rfl, rfl⟩
  | int n =>
    cases n with
    | ofNat n =>
      obtain ⟨d, digits, hd, hdigit⟩ := exists_repr n
      exact ⟨d, digits, hd, kindOf_of_isDigit hdigit⟩
    | negSucc n => exact ⟨_, _, toString_negSucc n, rfl⟩
  | @array items _ => cases items <;> exact ⟨_, _, rfl, rfl⟩
  | @object members _ => rcases members with _ | ⟨⟨_, _⟩, _⟩ <;> exact ⟨_, _, rfl, rfl⟩

/-- Values whose texts begin the same are of one kind. -/
theorem kind_eq_of_append {a b : Json} (ha : a.Whole) (hb : b.Whole) {s t : List Char}
    (h : a.compactChars ++ s = b.compactChars ++ t) : a.kind = b.kind := by
  obtain ⟨c, _, hc, hca⟩ := ha.first
  obtain ⟨d, _, hd, hdb⟩ := hb.first
  rw [hc, hd] at h
  rw [← hca, ← hdb, (List.cons.inj h).1]

/-! ### Reading off the front

The text of a value is found again in front of anything, unless its digits go on there. So items and members are told
apart one after the other, each by what stands behind it. -/

/-- The text of the value can be read off the front of any text that does not continue its digits. -/
def Readable (a : Json) : Prop :=
  ∀ {b : Json}, b.Whole → ∀ {s t : List Char}, Stops s → Stops t →
    a.compactChars ++ s = b.compactChars ++ t → a = b ∧ s = t

/-- Behind an item comes a comma or a bracket, so a number among the items ends where its digits do. -/
theorem stops_compactItems (items : List Json) (s : List Char) : Stops (compactItems items ++ s) := by
  cases items <;> exact stops_cons rfl

/-- Behind a value of a member comes a comma or a brace. -/
theorem stops_compactMembers (members : Table Json) (s : List Char) : Stops (compactMembers members ++ s) := by
  rcases members with _ | ⟨⟨_, _⟩, _⟩ <;> exact stops_cons rfl

/-- Items are told apart, with the bracket behind the last one. -/
theorem compactItems_append {a b : List Json} (ha : ∀ v ∈ a, v.Readable) (hb : ∀ v ∈ b, v.Whole)
    {s t : List Char} (h : compactItems a ++ s = compactItems b ++ t) : a = b ∧ s = t := by
  induction a generalizing b with
  | nil =>
    cases b with
    | nil => exact ⟨rfl, (List.cons.inj h).2⟩
    | cons w b => cases (List.cons.inj h).1
  | cons v a ih =>
    cases b with
    | nil => cases (List.cons.inj h).1
    | cons w b =>
      simp only [compactItems, List.cons_append, List.append_assoc] at h
      obtain ⟨rfl, htail⟩ := ha v List.mem_cons_self (hb w List.mem_cons_self) (stops_compactItems a s)
        (stops_compactItems b t) (List.cons.inj h).2
      obtain ⟨rfl, rfl⟩ := ih (fun v hv => ha v (List.mem_cons_of_mem _ hv))
        (fun v hv => hb v (List.mem_cons_of_mem _ hv)) htail
      exact ⟨rfl, rfl⟩

/-- Members are told apart by their names and by their values. -/
theorem compactMembers_append {a b : Table Json} (ha : ∀ v ∈ a.values, v.Readable)
    (hb : ∀ v ∈ b.values, v.Whole) {s t : List Char} (h : compactMembers a ++ s = compactMembers b ++ t) :
    a = b ∧ s = t := by
  induction a generalizing b with
  | nil =>
    rcases b with _ | ⟨⟨n, w⟩, b⟩
    · exact ⟨rfl, (List.cons.inj h).2⟩
    · cases (List.cons.inj h).1
  | cons e a ih =>
    obtain ⟨m, v⟩ := e
    rcases b with _ | ⟨⟨n, w⟩, b⟩
    · cases (List.cons.inj h).1
    · simp only [compactMembers, List.cons_append, List.append_assoc] at h
      obtain ⟨rfl, hvalue⟩ := quoted_append_inj (List.cons.inj h).2
      obtain ⟨rfl, htail⟩ := ha v List.mem_cons_self (hb w List.mem_cons_self) (stops_compactMembers a s)
        (stops_compactMembers b t) (List.cons.inj hvalue).2
      obtain ⟨rfl, rfl⟩ := ih (fun v hv => ha v (List.mem_cons_of_mem _ hv))
        (fun v hv => hb v (List.mem_cons_of_mem _ hv)) htail
      exact ⟨rfl, rfl⟩

/-- An array can be read off a text if its items can. -/
theorem array_readable {items : List Json} (ih : ∀ v ∈ items, v.Readable) (whole : ∀ v ∈ items, v.Whole) :
    (Json.array items).Readable := by
  intro b hb s t hs ht h
  have hkind := kind_eq_of_append (.array whole) hb h
  cases hb with
  | @array others hothers =>
    -- an empty array closes where another one has the beginning of an item
    have bracket {v : Json} (hv : v.Whole) (s t : List Char) : ']' :: s ≠ v.compactChars ++ t := by
      obtain ⟨c, rest, hc, hcv⟩ := hv.first
      intro h
      rw [hc] at h
      rw [← (List.cons.inj h).1] at hcv
      cases v <;> cases hcv
    cases items with
    | nil =>
      cases others with
      | nil => exact ⟨rfl, (List.cons.inj (List.cons.inj h).2).2⟩
      | cons w others =>
        simp only [compactChars, List.cons_append, List.append_assoc, List.nil_append] at h
        exact absurd (List.cons.inj h).2 (bracket (hothers w List.mem_cons_self) _ _)
    | cons v items =>
      cases others with
      | nil =>
        simp only [compactChars, List.cons_append, List.append_assoc, List.nil_append] at h
        exact absurd (List.cons.inj h).2.symm (bracket (whole v List.mem_cons_self) _ _)
      | cons w others =>
        have hitems : compactItems (v :: items) ++ s = compactItems (w :: others) ++ t := by
          rw [compactItems, compactItems, List.cons_append, List.cons_append]
          exact congrArg (',' :: ·) (List.cons.inj h).2
        obtain ⟨heq, rfl⟩ := compactItems_append ih hothers hitems
        exact ⟨congrArg Json.array heq, rfl⟩
  | _ => cases hkind

/-- An object can be read off a text if the values of its members can. -/
theorem object_readable {members : Table Json} (ih : ∀ v ∈ members.values, v.Readable)
    (whole : ∀ v ∈ members.values, v.Whole) : (Json.object members).Readable := by
  intro b hb s t hs ht h
  have hkind := kind_eq_of_append (.object whole) hb h
  cases hb with
  | @object others hothers =>
    rcases members with _ | ⟨⟨m, v⟩, members⟩
    · rcases others with _ | ⟨⟨n, w⟩, others⟩
      · exact ⟨rfl, (List.cons.inj (List.cons.inj h).2).2⟩
      · cases (List.cons.inj (List.cons.inj h).2).1
    · rcases others with _ | ⟨⟨n, w⟩, others⟩
      · cases (List.cons.inj (List.cons.inj h).2).1
      · have hmembers : compactMembers ((m, v) :: members) ++ s = compactMembers ((n, w) :: others) ++ t := by
          rw [compactMembers, compactMembers, List.cons_append, List.cons_append]
          exact congrArg (',' :: ·) (List.cons.inj h).2
        obtain ⟨heq, rfl⟩ := compactMembers_append ih hothers hmembers
        exact ⟨congrArg Json.object heq, rfl⟩
  | _ => cases hkind

/-- Every value without fractions can be read off the front of a text. By induction on the value. -/
theorem Whole.readable {a : Json} (ha : a.Whole) : a.Readable := by
  -- the first characters tell the kinds apart, so only values of one kind are compared
  induction ha with
  | array whole ih => exact array_readable ih whole
  | object whole ih => exact object_readable ih whole
  | null =>
    intro b hb s t hs ht h
    have hkind := kind_eq_of_append .null hb h
    cases hb with
    | null => exact ⟨rfl, List.append_cancel_left h⟩
    | _ => cases hkind
  | bool x =>
    intro b hb s t hs ht h
    have hkind := kind_eq_of_append (.bool x) hb h
    cases hb with
    | bool y =>
      cases x <;> cases y
      · exact ⟨rfl, List.append_cancel_left h⟩
      · cases (List.cons.inj h).1
      · cases (List.cons.inj h).1
      · exact ⟨rfl, List.append_cancel_left h⟩
    | _ => cases hkind
  | int m =>
    intro b hb s t hs ht h
    have hkind := kind_eq_of_append (.int m) hb h
    cases hb with
    | int n =>
      obtain ⟨rfl, rfl⟩ := int_append_inj hs ht h
      exact ⟨rfl, rfl⟩
    | _ => cases hkind
  | string x =>
    intro b hb s t hs ht h
    have hkind := kind_eq_of_append (.string x) hb h
    cases hb with
    | string y =>
      obtain ⟨rfl, rfl⟩ := quoted_append_inj h
      exact ⟨rfl, rfl⟩
    | _ => cases hkind

/-- The compact text determines the value. -/
theorem compact_injective {a b : Json} (ha : a.Whole) (hb : b.Whole) (h : a.compact = b.compact) : a = b := by
  have hchars : a.compactChars ++ [] = b.compactChars ++ [] := by
    rw [String.ofList_injective h]
  exact (ha.readable hb (fun _ h => by cases h) (fun _ h => by cases h) hchars).1

end Json

end RouteManifest
