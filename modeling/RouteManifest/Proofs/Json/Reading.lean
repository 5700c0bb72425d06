import Mathlib.Data.List.TakeDrop
import RouteManifest.Json.Parser
import RouteManifest.Proofs.Json.Compact

/-!
# The compact text is read back

`Json.parse?` gives back the value that a compact text was printed from (`parse?_compact`), as long as the value holds
what can be read at all: whole numbers that fit 64 bits, and containers that nest no deeper than the reader goes.

A value is read off the front of a text (`ReadsBack`). What follows must not look like the rest of a number; behind a
value there is only ever a comma, a closing bracket or nothing. Each call of the reader uses up a character at least,
so the length of the text is fuel enough.
-/

namespace RouteManifest

namespace Json

/-- No number in the value has a fraction, and each fits 64 bits, signed below zero and unsigned above. -/
inductive Fits : Json → Prop where
  | null : Fits .null
  | bool (b : Bool) : Fits (.bool b)
  | int {n : Int} (low : -(Nat.pow 2 63 : Int) ≤ n) (high : n < (Nat.pow 2 64 : Int)) : Fits (.int n)
  | string (s : String) : Fits (.string s)
  | array {items : List Json} (h : ∀ v ∈ items, Fits v) : Fits (.array items)
  | object {members : Table Json} (h : ∀ v ∈ members.values, Fits v) : Fits (.object members)

/-- A value that fits has no fractions in it. -/
theorem Fits.whole {v : Json} (h : v.Fits) : v.Whole := by
  induction h with
  | null => exact .null
  | bool b => exact .bool b
  | @int n _ _ => exact .int n
  | string s => exact .string s
  | array _ ih => exact .array ih
  | object _ ih => exact .object ih

mutual
/-- How many containers are open at the deepest place. -/
def depth : Json → Nat
  | .array items => depthOfItems items + 1
  | .object members => depthOfMembers members + 1
  | _ => 0

/-- The greatest depth among some items. -/
def depthOfItems : List Json → Nat
  | [] => 0
  | item :: rest => max (depth item) (depthOfItems rest)

/-- The greatest depth among some members. -/
def depthOfMembers : Table Json → Nat
  | [] => 0
  | (_, value) :: rest => max (depth value) (depthOfMembers rest)
end

namespace Parser

/-! ## Strings

Each escape is read back to the character it stands for. Control characters are escaped with two digits, and the quote
and the backslash by a backslash; everything else stands for itself. -/

/-- A control character is read back from the two digits that it is escaped with. -/
theorem hex4?_hexDigits : ∀ n < 0x20, hex4? '0' '0' (hexDigit (n / 16)) (hexDigit n) = some n := by decide

/-- A character is read back from its escape, and what follows is read on as it would have been. -/
theorem stringBody_escape (c : Char) (rest : List Char) :
    stringBody (escape c ++ rest) = (stringBody rest).map fun (text, rest) => (c :: text, rest) := by
  unfold escape
  split
  case h_8 hquote hbackslash _ _ _ _ _ =>
    split
    next hlow =>
      have hsurrogate : ¬ (0xD800 ≤ c.toNat ∧ c.toNat < 0xDC00) := by omega
      have htrail : ¬ (0xDC00 ≤ c.toNat ∧ c.toNat < 0xE000) := by omega
      simp only [List.cons_append, List.nil_append]
      rw [stringBody, hex4?_hexDigits c.toNat hlow]
      simp only [if_neg hsurrogate, if_neg htrail, Char.ofNat_toNat]
    next hhigh =>
      show stringBody (c :: rest) = _
      rw [stringBody]
      · rw [if_neg hhigh]
      all_goals simp_all
  all_goals rfl

/-- A whole text is read back, up to the quote that closes it. -/
theorem stringBody_quoted (s rest : List Char) :
    stringBody (s.flatMap escape ++ '"' :: rest) = some (s, rest) := by
  induction s with
  | nil => rfl
  | cons c s ih =>
    rw [List.flatMap_cons, List.append_assoc, stringBody_escape, ih]
    rfl

theorem stringBody_toList (s : String) (rest : List Char) :
    stringBody (s.toList.flatMap escape ++ ['"'] ++ rest) = some (s.toList, rest) := by
  rw [List.append_assoc]
  exact stringBody_quoted s.toList rest

/-! ## Numbers

Digits are read as far as they go, with no leading zero and no overflow. Where the number ends, nothing follows that a
fraction or an exponent could begin with. -/

/-- A text that does not go on with anything that could belong to a number. -/
def Ended (s : List Char) : Prop := ∀ c ∈ s.head?, c.isDigit = false ∧ c ≠ '.' ∧ c ≠ 'e' ∧ c ≠ 'E'

/-- A number does not shrink when digits are added to it. -/
theorem le_ofDigitChars (ds : List Char) (n : Nat) : n ≤ Nat.ofDigitChars 10 ds n := by
  induction ds generalizing n with
  | nil => exact Nat.le_refl n
  | cons c ds ih =>
    rw [Nat.ofDigitChars_cons]
    exact Nat.le_trans (by omega) (ih _)

/-- Digits whose value fits are all taken in. -/
theorem wholeDigits_eq {ds : List Char} {n : Nat} (h : Nat.ofDigitChars 10 ds n < wordLimit) :
    wholeDigits ds n = (Nat.ofDigitChars 10 ds n, 0) := by
  induction ds generalizing n with
  | nil => rfl
  | cons c ds ih =>
    have hnext : n * 10 + digit c = 10 * n + (c.toNat - '0'.toNat) := by rw [digit, Nat.mul_comm]
    rw [Nat.ofDigitChars_cons] at h ⊢
    rw [wholeDigits, hnext, if_pos (Nat.lt_of_le_of_lt (le_ofDigitChars ds _) h), ih h]

/-- Only zero has the digit zero. -/
theorem digitChar_ne_zero : ∀ n < 10, 0 < n → n.digitChar ≠ '0' := by decide

/-- A number above zero has no zero in front. -/
theorem head?_toDigits {n : Nat} (h : 0 < n) : (Nat.toDigits 10 n).head? ≠ some '0' := by
  induction n using Nat.strongRecOn with
  | ind n ih =>
    rw [Nat.toDigits_eq_if (by decide)]
    split
    next hlt =>
      intro hhead
      exact digitChar_ne_zero n hlt h (Option.some.inj hhead)
    next hge =>
      obtain ⟨d, ds, hd⟩ := List.exists_cons_of_ne_nil (Nat.toDigits_ne_nil (n := n / 10) (b := 10))
      have := ih (n / 10) (by omega) (by omega)
      rw [hd] at this ⊢
      exact this

/-- The digits of a number are written without leading zeros. -/
theorem length_repr_of_head? {n : Nat} (h : n.repr.toList.head? = some '0') : n.repr.toList.length = 1 := by
  rcases Nat.eq_zero_or_pos n with rfl | hn
  · rfl
  · rw [Nat.toList_repr] at h
    exact absurd h (head?_toDigits hn)

/-- The digits of a number are taken off a text to the last one, if the text does not go on with digits. -/
theorem span_repr (n : Nat) {rest : List Char} (h : Ended rest) :
    (n.repr.toList ++ rest).span Char.isDigit = (n.repr.toList, rest) := by
  have hdigits : ∀ c ∈ n.repr.toList, c.isDigit = true := fun _ => isDigit_of_mem_repr
  rw [List.span_eq_takeWhile_dropWhile, List.takeWhile_append_of_pos hdigits, List.dropWhile_append_of_pos hdigits]
  cases rest with
  | nil => simp
  | cons c rest =>
    have hc : c.isDigit = false := (h c rfl).1
    simp [List.takeWhile, List.dropWhile, hc]

/-- Where a text does not go on with a number, there is no exponent. -/
theorem power?_of_ended {rest : List Char} (h : Ended rest) : power? rest = some (none, rest) := by
  cases rest with
  | nil => rfl
  | cons c rest =>
    obtain ⟨-, -, he, hE⟩ := h c rfl
    exact if_neg (by simp [he, hE])

/-- The digits of a number that fits, behind its sign. -/
theorem unsigned?_repr {n : Nat} (hn : n < wordLimit) (negative : Bool) {rest : List Char} (h : Ended rest) :
    unsigned? negative (n.repr.toList ++ rest) = (ofWhole negative n).map fun value => (value, rest) := by
  obtain ⟨d, ds, hd, -⟩ := exists_repr n
  have hzeros : ¬ (n.repr.toList.isEmpty = true ∨ (n.repr.toList.head? = some '0' ∧ n.repr.toList.length ≠ 1)) := by
    rintro (hempty | ⟨hhead, hlength⟩)
    · rw [hd] at hempty
      cases hempty
    · exact hlength (length_repr_of_head? hhead)
  have hvalue : Nat.ofDigitChars 10 n.repr.toList 0 = n := by
    rw [Nat.toList_repr, Nat.ofDigitChars_ten_toDigits]
  have hwhole : wholeDigits n.repr.toList 0 = (n, 0) := by
    rw [wholeDigits_eq (by rw [hvalue]; exact hn), hvalue]
  rw [unsigned?, span_repr n h]
  simp only [if_neg hzeros, hwhole]
  split
  next rest' =>
    exact absurd rfl (h '.' rfl).2.1
  next =>
    rw [power?_of_ended h]
    simp

/-- A whole number is read back from its digits, with its sign. -/
theorem number?_toString {n : Int} (hfits : (Json.int n).Fits) {rest : List Char} (h : Ended rest) :
    number? ((toString n).toList ++ rest) = some (.int n, rest) := by
  obtain - | - | ⟨low, high⟩ := hfits
  cases n with
  | ofNat n =>
    obtain ⟨d, ds, hd, hdigit⟩ := exists_repr n
    have hn : n < wordLimit := by
      have : ((n : Nat) : Int) < (Nat.pow 2 64 : Int) := high
      exact_mod_cast this
    rw [toString_ofNat, number?]
    · rw [unsigned?_repr hn false h]
      rfl
    · rintro rest' heq
      rw [hd] at heq
      obtain ⟨rfl, -⟩ := List.cons.inj heq
      cases hdigit
  | negSucc n =>
    -- there is one negative number more than there are positive ones
    have hle : n + 1 ≤ Nat.pow 2 63 := by
      have : -((Nat.pow 2 63 : Nat) : Int) ≤ Int.negSucc n := low
      omega
    have hlimit : Nat.pow 2 63 < wordLimit := by decide
    rw [toString_negSucc, List.cons_append, number?, unsigned?_repr (by omega) true h, ofWhole, if_pos rfl,
      if_neg (by omega)]
    rfl

/-! ## One call of the reader

The reader is three functions that call each other, with a fuel and a depth. These are their equations for a text whose
first character is known. -/

/-- A text that does not begin with a blank is left as it is. -/
theorem skipBlanks_cons {c : Char} (h : isBlank c = false) (cs : List Char) : skipBlanks (c :: cs) = c :: cs := by
  rw [skipBlanks, List.dropWhile_cons_of_neg (by simp [h])]

/-- The first character of a number, which begins no other value. -/
def beginsNumber (c : Char) : Bool := c.isDigit || c == '-'

/-- No number begins with a blank. -/
theorem isBlank_of_beginsNumber {c : Char} (h : beginsNumber c = true) : isBlank c = false := by
  cases hblank : isBlank c with
  | false => rfl
  | true =>
    simp only [isBlank, Bool.or_eq_true, beq_iff_eq] at hblank
    rcases hblank with ((rfl | rfl) | rfl) | rfl <;> cases h

/-- A value that begins like a number is read as one. -/
theorem value?_number {c : Char} (h : beginsNumber c = true) (cs : List Char) (fuel depth : Nat) :
    value? (fuel + 1) depth (c :: cs) = number? (c :: cs) := by
  rw [value?, skipBlanks_cons (isBlank_of_beginsNumber h)]
  split
  case h_7 => rfl
  all_goals
    next heq =>
      obtain ⟨rfl, -⟩ := List.cons.inj heq
      cases h

/-- Behind an opening bracket come items, unless it is closed at once. -/
theorem value?_items {c : Char} (hblank : isBlank c = false) (hclose : c ≠ ']') (cs : List Char) (fuel depth : Nat) :
    value? (fuel + 1) (depth + 1) ('[' :: c :: cs) =
      (items? fuel depth (c :: cs)).map fun (items, rest) => (.array items, rest) := by
  have hopen : skipBlanks ('[' :: c :: cs) = '[' :: c :: cs := skipBlanks_cons rfl _
  simp only [value?, hopen, skipBlanks_cons hblank]
  split
  next heq => exact absurd (List.cons.inj heq).1 hclose
  next => rfl

/-- Behind an opening brace come members, if there is a quote. -/
theorem value?_members (cs : List Char) (fuel depth : Nat) :
    value? (fuel + 1) (depth + 1) ('{' :: '"' :: cs) =
      (members? fuel depth ('"' :: cs)).map fun (members, rest) => (.object members, rest) := rfl

/-- An item in front of a closing bracket is the last one. -/
theorem items?_last {fuel depth : Nat} {cs rest : List Char} {v : Json}
    (h : value? fuel depth cs = some (v, ']' :: rest)) : items? (fuel + 1) depth cs = some ([v], rest) := by
  show (value? fuel depth cs).bind _ = _
  rw [h]
  rfl

/-- An item in front of a comma is followed by others. -/
theorem items?_more {fuel depth : Nat} {cs cs' rest : List Char} {v : Json} {items : List Json}
    (h : value? fuel depth cs = some (v, ',' :: cs')) (hrest : items? fuel depth cs' = some (items, rest)) :
    items? (fuel + 1) depth cs = some (v :: items, rest) := by
  show (value? fuel depth cs).bind _ = _
  rw [h]
  show (items? fuel depth cs').map _ = _
  rw [hrest]
  rfl

/-- A name is read back from its quoted form. -/
theorem string?_quoted (s : String) (rest : List Char) : string? (quoted s ++ rest) = some (s, rest) := by
  show (stringBody (s.toList.flatMap escape ++ ['"'] ++ rest)).map (fun (text, rest) => (String.ofList text, rest)) = _
  rw [stringBody_toList]
  exact congrArg (fun text => some (text, rest)) String.ofList_toList

theorem skipBlanks_quoted (s : String) (rest : List Char) : skipBlanks (quoted s ++ rest) = quoted s ++ rest :=
  skipBlanks_cons rfl _

/-- A member in front of a closing brace is the last one. -/
theorem members?_last {fuel depth : Nat} {cs rest : List Char} {v : Json}
    (h : value? fuel depth cs = some (v, '}' :: rest)) (name : String) :
    members? (fuel + 1) depth (quoted name ++ ':' :: cs) = some ([(name, v)], rest) := by
  show (string? (skipBlanks (quoted name ++ ':' :: cs))).bind _ = _
  rw [skipBlanks_quoted, string?_quoted]
  show (value? fuel depth cs).bind _ = _
  rw [h]
  rfl

theorem members?_more {fuel depth : Nat} {cs cs' rest : List Char} {v : Json} {members : Table Json}
    (h : value? fuel depth cs = some (v, ',' :: cs')) (hrest : members? fuel depth cs' = some (members, rest))
    (name : String) :
    members? (fuel + 1) depth (quoted name ++ ':' :: cs) = some ((name, v) :: members, rest) := by
  show (string? (skipBlanks (quoted name ++ ':' :: cs))).bind _ = _
  rw [skipBlanks_quoted, string?_quoted]
  show (value? fuel depth cs).bind _ = _
  rw [h]
  show (members? fuel depth cs').map _ = _
  rw [hrest]
  rfl

/-! ## Values

The statement `ReadsBack` asks for any fuel that is no less than the length of the text and for any depth that is
enough, so that it can be used for the parts of a value with the fuel and the depth that are left there. -/

/-- The text of a number begins with a digit or a sign. -/
theorem exists_toString (n : Int) : ∃ c rest, (toString n).toList = c :: rest ∧ beginsNumber c = true := by
  cases n with
  | ofNat n =>
    obtain ⟨d, digits, hd, hdigit⟩ := exists_repr n
    exact ⟨d, digits, hd, by rw [beginsNumber, hdigit, Bool.true_or]⟩
  | negSucc n => exact ⟨_, _, toString_negSucc n, rfl⟩

/-- No blank and no closing bracket begins the text of a value. -/
theorem first_of_fits {v : Json} (h : v.Fits) :
    ∃ c rest, v.compactChars = c :: rest ∧ isBlank c = false ∧ c ≠ ']' := by
  cases h with
  | null => exact ⟨_, _, rfl, rfl, by decide⟩
  | bool b => cases b <;> exact ⟨_, _, rfl, rfl, by decide⟩
  | string s => exact ⟨_, _, rfl, rfl, by decide⟩
  | @int n _ _ =>
    obtain ⟨c, rest, hc, hnumber⟩ := exists_toString n
    refine ⟨c, rest, hc, isBlank_of_beginsNumber hnumber, ?_⟩
    rintro rfl
    cases hnumber
  | @array items _ => cases items <;> exact ⟨_, _, rfl, rfl, by decide⟩
  | @object members _ => rcases members with _ | ⟨⟨_, _⟩, _⟩ <;> exact ⟨_, _, rfl, rfl, by decide⟩

/-- The value is read off the front of a text that begins with its own. -/
def ReadsBack (v : Json) : Prop :=
  ∀ ⦃fuel depth : Nat⦄ ⦃rest : List Char⦄, v.compactChars.length ≤ fuel → v.depth ≤ depth → Ended rest →
    value? fuel depth (v.compactChars ++ rest) = some (v, rest)

theorem ended_cons {c : Char} (h : c.isDigit = false ∧ c ≠ '.' ∧ c ≠ 'e' ∧ c ≠ 'E') (cs : List Char) : Ended (c :: cs) :=
  fun d hd => by
    obtain rfl := Option.some.inj hd
    exact h

/-- A comma ends a number. -/
theorem ended_comma (cs : List Char) : Ended (',' :: cs) := ended_cons (by decide) cs

/-- Items that are read back one by one are read back as the items of an array. -/
theorem items?_compactItems {v : Json} {items : List Json} (h : ∀ w ∈ v :: items, ReadsBack w) {fuel depth : Nat}
    (hfuel : (v.compactChars ++ compactItems items).length ≤ fuel) (hdepth : depthOfItems (v :: items) ≤ depth)
    (rest : List Char) :
    items? fuel depth (v.compactChars ++ (compactItems items ++ rest)) = some (v :: items, rest) := by
  have hv := h v List.mem_cons_self
  rw [depthOfItems, Nat.max_le] at hdepth
  rw [List.length_append] at hfuel
  -- the comma or the bracket behind an item pays for its step
  induction items generalizing v fuel with
  | nil =>
    simp only [compactItems, List.length_cons] at hfuel
    obtain ⟨fuel, rfl⟩ := Nat.exists_eq_add_one_of_ne_zero (n := fuel) (by omega)
    exact items?_last (hv (by simpa [compactItems] using hfuel) hdepth.1 (ended_cons (by decide) _))
  | cons w items ih =>
    simp only [compactItems, List.length_cons, List.length_append] at hfuel
    obtain ⟨fuel, rfl⟩ := Nat.exists_eq_add_one_of_ne_zero (n := fuel) (by omega)
    rw [depthOfItems, Nat.max_le] at hdepth
    have hrest := ih (fun u hu => h u (List.mem_cons_of_mem _ hu))
      (show w.compactChars.length + (compactItems items).length ≤ fuel by omega) hdepth.2
      (h w (List.mem_cons_of_mem _ List.mem_cons_self))
    rw [← List.append_assoc] at hrest
    exact items?_more (hv (by omega) hdepth.1 (ended_comma _)) hrest

/-- Members whose values are read back are read back as the members of an object, with their names. -/
theorem members?_compactMembers {name : String} {v : Json} {members : Table Json}
    (h : ∀ w ∈ Table.values ((name, v) :: members), ReadsBack w) {fuel depth : Nat}
    (hfuel : (v.compactChars ++ compactMembers members).length ≤ fuel)
    (hdepth : depthOfMembers ((name, v) :: members) ≤ depth) (rest : List Char) :
    members? fuel depth (quoted name ++ ':' :: (v.compactChars ++ (compactMembers members ++ rest))) =
      some ((name, v) :: members, rest) := by
  have hv := h v List.mem_cons_self
  rw [depthOfMembers, Nat.max_le] at hdepth
  rw [List.length_append] at hfuel
  induction members generalizing name v fuel with
  | nil =>
    simp only [compactMembers, List.length_cons] at hfuel
    obtain ⟨fuel, rfl⟩ := Nat.exists_eq_add_one_of_ne_zero (n := fuel) (by omega)
    exact members?_last (hv (by simpa [compactMembers] using hfuel) hdepth.1 (ended_cons (by decide) _)) name
  | cons e members ih =>
    obtain ⟨other, w⟩ := e
    simp only [compactMembers, List.length_cons, List.length_append] at hfuel
    obtain ⟨fuel, rfl⟩ := Nat.exists_eq_add_one_of_ne_zero (n := fuel) (by omega)
    rw [depthOfMembers, Nat.max_le] at hdepth
    have hrest : members? fuel depth (quoted other ++ ':' :: (w.compactChars ++ (compactMembers members ++ rest))) = _ :=
      ih (fun u hu => h u (List.mem_cons_of_mem _ hu)) (by omega) hdepth.2 (h w (List.mem_cons_of_mem _ List.mem_cons_self))
    rw [← List.append_assoc, ← List.cons_append, ← List.append_assoc] at hrest
    exact members?_more (hv (by omega) hdepth.1 (ended_comma _)) hrest name

/-- Numbers that fit are read back. -/
theorem readsBack_int {n : Int} (h : (Json.int n).Fits) : ReadsBack (.int n) := by
  intro fuel depth rest hfuel _ hrest
  obtain ⟨c, cs, hc, hnumber⟩ := exists_toString n
  have htext : (Json.int n).compactChars = c :: cs := hc
  rw [htext, List.length_cons] at hfuel
  obtain ⟨fuel, rfl⟩ := Nat.exists_eq_add_one_of_ne_zero (n := fuel) (by omega)
  rw [htext, List.cons_append, value?_number hnumber, ← List.cons_append, ← hc, number?_toString h hrest]

/-- An array is read back if its items are. -/
theorem readsBack_array {items : List Json} (hfits : ∀ v ∈ items, v.Fits) (h : ∀ v ∈ items, ReadsBack v) :
    ReadsBack (.array items) := by
  intro fuel depth rest hfuel hdepth _
  rw [Json.depth] at hdepth
  obtain ⟨depth, rfl⟩ := Nat.exists_eq_add_one_of_ne_zero (n := depth) (by omega)
  cases items with
  | nil =>
    simp only [compactChars, List.length_cons] at hfuel
    obtain ⟨fuel, rfl⟩ := Nat.exists_eq_add_one_of_ne_zero (n := fuel) (by omega)
    rfl
  | cons v items =>
    simp only [compactChars, List.length_cons] at hfuel
    obtain ⟨fuel, rfl⟩ := Nat.exists_eq_add_one_of_ne_zero (n := fuel) (by omega)
    obtain ⟨c, cs, hc, hblank, hclose⟩ := first_of_fits (hfits v List.mem_cons_self)
    have hitems := items?_compactItems h (show _ ≤ fuel by omega) (Nat.le_of_succ_le_succ hdepth) rest
    rw [compactChars, List.cons_append, List.append_assoc, hc, List.cons_append, value?_items hblank hclose,
      ← List.cons_append, ← hc, hitems]
    rfl

/-- An object is read back if the values of its members are. -/
theorem readsBack_object {members : Table Json} (h : ∀ v ∈ members.values, ReadsBack v) :
    ReadsBack (.object members) := by
  intro fuel depth rest hfuel hdepth _
  rw [Json.depth] at hdepth
  obtain ⟨depth, rfl⟩ := Nat.exists_eq_add_one_of_ne_zero (n := depth) (by omega)
  rcases members with _ | ⟨⟨name, v⟩, members⟩
  · simp only [compactChars, List.length_cons] at hfuel
    obtain ⟨fuel, rfl⟩ := Nat.exists_eq_add_one_of_ne_zero (n := fuel) (by omega)
    rfl
  · simp only [compactChars, List.length_cons, List.length_append] at hfuel
    obtain ⟨fuel, rfl⟩ := Nat.exists_eq_add_one_of_ne_zero (n := fuel) (by omega)
    have hlength : (v.compactChars ++ compactMembers members).length ≤ fuel := by
      rw [List.length_append]
      omega
    have hmembers := members?_compactMembers h hlength (Nat.le_of_succ_le_succ hdepth) rest
    have htext : (Json.object ((name, v) :: members)).compactChars ++ rest =
        '{' :: (quoted name ++ ':' :: (v.compactChars ++ (compactMembers members ++ rest))) := by
      simp only [compactChars, List.cons_append, List.append_assoc]
    rw [htext, quoted, List.cons_append, value?_members, ← List.cons_append, ← quoted, hmembers]
    rfl

/-- Every value that fits is read back, by induction on the value: fuel and depth are enough for the parts since they
are for the whole. -/
theorem readsBack_of_fits {v : Json} (h : v.Fits) : ReadsBack v := by
  induction h with
  | null =>
    intro fuel depth rest hfuel _ _
    simp only [compactChars, scalarChars, List.length_cons] at hfuel
    obtain ⟨fuel, rfl⟩ := Nat.exists_eq_add_one_of_ne_zero (n := fuel) (by omega)
    rfl
  | bool b =>
    intro fuel depth rest hfuel _ _
    cases b <;>
      simp only [compactChars, scalarChars, List.length_cons] at hfuel <;>
      obtain ⟨fuel, rfl⟩ := Nat.exists_eq_add_one_of_ne_zero (n := fuel) (by omega) <;>
      rfl
  | string s =>
    intro fuel depth rest hfuel _ _
    simp only [compactChars, scalarChars, quoted, List.length_cons] at hfuel
    obtain ⟨fuel, rfl⟩ := Nat.exists_eq_add_one_of_ne_zero (n := fuel) (by omega)
    show (stringBody (s.toList.flatMap escape ++ ['"'] ++ rest)).map _ = _
    rw [stringBody_toList]
    exact congrArg (fun text => some (Json.string text, rest)) String.ofList_toList
  | int low high => exact readsBack_int (.int low high)
  | array fits ih => exact readsBack_array fits ih
  | object _ ih => exact readsBack_object ih

end Parser

/-- Reading undoes printing. A text is as long as the calls that the reader needs, so it has fuel enough. -/
theorem parse?_compact {v : Json} (h : v.Fits) (hdepth : v.depth ≤ Parser.maxDepth) : parse? v.compact = some v := by
  have hended : Parser.Ended [] := fun _ hc => by cases hc
  have hread := Parser.readsBack_of_fits h (show _ ≤ 2 * v.compactChars.length + 2 by omega) hdepth hended
  rw [List.append_nil] at hread
  rw [parse?, compact, String.toList_ofList, hread]
  rfl

end Json

end RouteManifest
