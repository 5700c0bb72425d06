import RouteManifest.Proofs.Resolution.Runs

/-!
# Evaluating a resolution

`expand` is defined along the measure of what is pending, which is good for reasoning and bad for computing:
a proof that the measure goes down stands in the way of every step. `expandWithin` counts down a number of
nested expansions instead. More of them than `Pending.bound` are never needed, so the two are equal.

Unions inside unions are flattened along their size, which is in the way as well. `TypeExpr.leavesOf` goes along the
expressions, and `resolveBody` uses it where a union is the body of a declaration. So a call on a given catalog is
evaluated by `resolve_eq_within` and `decide`, as long as no union is inside anything but a union.
-/

namespace RouteManifest

variable {c : Catalog}

/-! ## Bodies

The flattening of unions, along the structure of expressions. -/

namespace TypeExpr

mutual
/-- The variants of a union, those of unions among them included; of any other expression, the expression. -/
def leaves : TypeExpr → List TypeExpr
  | .union inner => leavesOf inner
  | variant => [variant]
termination_by structural e => e

/-- The leaves of several expressions. -/
def leavesOf : List TypeExpr → List TypeExpr
  | [] => []
  | variant :: rest => leaves variant ++ leavesOf rest
termination_by structural l => l
end

/-- The leaves are what flattening leaves. -/
theorem leavesOf_eq (variants : List TypeExpr) : leavesOf variants = flatten variants := by
  induction variants using flatten.induct with
  | case1 => rw [flatten, leavesOf]
  | case2 inner rest ihInner ihRest => rw [flatten, leavesOf, leaves, ihInner, ihRest]
  | case3 variant rest hnot ih =>
    have hleaf : leaves variant = [variant] := by
      cases variant with
      | union inner => exact absurd rfl (hnot inner)
      | _ => rfl
    rw [leavesOf, hleaf, ih, flatten]
    · rfl
    · exact hnot

end TypeExpr

/-- `resolveNode` for an expression that is not inside another one. -/
def resolveBody (names : Names c) (scope : Table Schema) (origin : Location) : TypeExpr → Resolving c Schema
  | .union variants => do
    let flat := TypeExpr.leavesOf variants
    let rest := flat.filter fun v => !v.isNullLike
    if rest.isEmpty then return .typed "null"
    let schema ←
      match TypeExpr.commonLiterals? rest with
      | some literals => pure (Schema.ofLiterals literals)
      | none => do
        let alternatives ← resolveVariants names scope origin variants
        pure ((← get).registry.oneOf alternatives)
    return if flat.any TypeExpr.isNullLike then schema.orNull else schema
  | e => resolveNode names scope origin e

/-- Resolving a body this way is resolving it. -/
theorem resolveBody_eq (names : Names c) (scope : Table Schema) (origin : Location) (e : TypeExpr) :
    resolveBody names scope origin e = resolveNode names scope origin e := by
  cases e with
  | union variants =>
    rewrite [resolveBody, resolveNode, TypeExpr.leavesOf_eq]
    rfl
  | _ => rfl

/-! ## Declarations

The nesting of expansions, along a number. -/

/-- `expand` for at most so many expansions inside each other. -/
def expandWithin : Nat → Pending c → Names c
  | 0, _, name, _, _, origin => throw (.recursionLimit origin name 0)
  | n + 1, p, name, i, args, origin =>
    show Resolving c Schema from fun r =>
      match p.id? (c.identity i args) with
      | some id => (.ok (.reference id), r)
      | none =>
        match r.id? (c.identity i args) with
        | some id => (.ok (.reference id), r)
        | none =>
          if args ≠ [] ∧ maxGenericDepth ≤ p.depth then
            (.error (.recursionLimit origin name maxGenericDepth), r)
          else
            match (resolveBody (expandWithin n (p.push (c.identity i args) (r.expansionId i args)))
              ((c.get i).scope args) (c.get i).location (c.get i).body).run (r.opened i args) with
            | (.ok body, r') =>
              (referenceTo (r'.registry.fill (r.expansionId i args) body (c.get i).location).1,
                r'.filled (c.identity i args) (r.expansionId i args) body (c.get i).location)
            | (.error fault, r') => (.error fault, r'.released (r.expansionId i args))

/-- How many expansions can begin inside each other at most. -/
def Pending.bound (p : Pending c) : Nat :=
  (maxGenericDepth - p.depth) * (c.size + 1) + (List.finRange c.size).countP p.isClosed

/-- An expansion that begins leaves room for fewer. -/
theorem Pending.bound_push_lt (p : Pending c) (i : Fin c.size) (args : List Schema) (id : String)
    (fresh : p.id? (c.identity i args) = none) (shallow : ¬(args ≠ [] ∧ maxGenericDepth ≤ p.depth)) :
    (p.push (c.identity i args) id).bound < p.bound := by
  have hlt := p.measure_push_lt i (args.map Schema.fingerprint) id fresh (by simpa using shallow)
  have hcount : (List.finRange c.size).countP (p.push (c.identity i args) id).isClosed ≤ c.size := by
    simpa using List.countP_le_length (p := (p.push (c.identity i args) id).isClosed) (l := List.finRange c.size)
  rw [bound, bound]
  rw [measure, measure, Prod.lex_def] at hlt
  simp only at hlt
  rw [← Catalog.identity] at hlt
  rcases hlt with hlt | ⟨heq, hlt⟩
  · have := Nat.mul_le_mul_right (c.size + 1) (Nat.succ_le_of_lt hlt)
    rw [Nat.succ_mul] at this
    omega
  · rw [heq]
    omega

/-- With room enough for what can still begin, the two are equal. -/
theorem expandWithin_eq {n : Nat} {p : Pending c} (h : p.bound < n) : expandWithin n p = expand p := by
  induction n generalizing p with
  | zero => cases h
  | succ n ih =>
    funext name i args origin
    apply ExceptT.ext
    funext r
    show expandWithin (n + 1) p name i args origin r = _
    rw [expandWithin]
    rcases hp : p.id? (c.identity i args) with _ | id
    · rw [run_expand hp]
      simp only
      rcases r.id? (c.identity i args) with _ | id
      · by_cases hd : args ≠ [] ∧ maxGenericDepth ≤ p.depth
        · simp only [if_pos hd]
        · rewrite [resolveBody_eq]
          rewrite [ih (Nat.lt_of_lt_of_le (p.bound_push_lt i args _ hp hd) (Nat.le_of_lt_succ h))]
          rfl
      · rfl
    · rw [expand_pending hp]
      rfl

/-- A call is evaluated with room for as many expansions as there can be. -/
theorem resolve_eq_within (e : TypeExpr) (origin : Location) :
    (resolve e origin : Resolving c Schema) =
      resolveNode (expandWithin ((maxGenericDepth + 1) * (c.size + 1)) {}) [] origin e := by
  have h : ({} : Pending c).bound < (maxGenericDepth + 1) * (c.size + 1) := by
    have : (List.finRange c.size).countP ({} : Pending c).isClosed ≤ c.size := by
      simpa using List.countP_le_length (p := ({} : Pending c).isClosed) (l := List.finRange c.size)
    rw [Pending.bound, Nat.succ_mul, Nat.sub_zero]
    omega
  rw [resolve, expandWithin_eq h]

instance decidableExistsOk {ε α : Type} : (out : Except ε α) → Decidable (∃ a, out = .ok a)
  | .ok a => .isTrue ⟨a, rfl⟩
  | .error _ => .isFalse nofun

end RouteManifest
