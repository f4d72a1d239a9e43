import Wgsl.Proofs.Spelling.Tree

/-!
# What a token means to the grammar

The tables that turn a token into an operator, a literal or a kind of variable are read backwards
here: each says which token it was.
-/

namespace Wgsl

/-- A token is known by its kind where its location is known. -/
@[simp] theorem Token.eq_mk_location {t : Token} {k : TokenKind} :
    t = ⟨k, t.location⟩ ↔ t.kind = k := by
  cases t
  simp

namespace TokenKind

@[simp] theorem isInvalid_identifier (name : String) : (identifier name).isInvalid = false := rfl

@[simp] theorem isInvalid_keyword (word : Keyword) : (keyword word).isInvalid = false := rfl

@[simp] theorem isInvalid_symbol (mark : Symbol) : (symbol mark).isInvalid = false := rfl

variable {k : TokenKind}

/-- A prefix operator is a token of its symbol. -/
theorem unary?_eq_some_iff {op : UnaryOperator} : k.unary? = some op ↔ k = .symbol op.symbol := by
  cases k with
  | symbol mark =>
    rw [unary?, UnaryOperator.ofSymbol?_eq_some_iff, symbol.injEq]
    exact eq_comm
  | _ => simp [unary?]

/-- An infix operator is a token of its symbol. -/
theorem infix?_eq_some_iff {op : InfixOperator} : k.infix? = some op ↔ k = .symbol op.symbol := by
  cases k with
  | symbol mark =>
    rw [infix?, InfixOperator.ofSymbol?_eq_some_iff, symbol.injEq]
    exact eq_comm
  | _ => simp [infix?]

/-- An operator that assigns is a token of its symbol. -/
theorem assignment?_eq_some_iff {op : AssignmentOperator} :
    k.assignment? = some op ↔ k = .symbol op.symbol := by
  cases k with
  | symbol mark =>
    rw [assignment?, AssignmentOperator.ofSymbol?_eq_some_iff, symbol.injEq]
    exact eq_comm
  | _ => simp [assignment?]

/-- An operator that steps is a token of its symbol. -/
theorem step?_eq_some_iff {op : StepOperator} : k.step? = some op ↔ k = .symbol op.symbol := by
  cases k with
  | symbol mark =>
    rw [step?, StepOperator.ofSymbol?_eq_some_iff, symbol.injEq]
    exact eq_comm
  | _ => simp [step?]

/-- A variable is introduced by the keyword of its kind. -/
theorem variableKind?_eq_some_iff {kind : VariableKind} :
    k.variableKind? = some kind ↔ k = .keyword kind.keyword := by
  cases k with
  | keyword word =>
    rw [variableKind?, VariableKind.ofKeyword?_eq_some_iff, keyword.injEq]
    exact eq_comm
  | _ => simp [variableKind?]

/-- A local variable is introduced by its keyword, unless it is an override. -/
theorem localVariableKind?_eq_some_iff {kind : VariableKind} :
    k.localVariableKind? = some kind ↔ k = .keyword kind.keyword ∧ kind ≠ .override := by
  simp [localVariableKind?, Option.filter_eq_some_iff, variableKind?_eq_some_iff]

/-- A literal is a number or one of two words. -/
theorem literal?_eq_some_iff {spelling : String} {kind : LiteralKind} :
    k.literal? = some (spelling, kind) ↔
      k = .number spelling ∧ kind = .ofSpelling spelling ∨
      k = .keyword .true ∧ spelling = "true" ∧ kind = .bool ∨
      k = .keyword .false ∧ spelling = "false" ∧ kind = .bool := by
  cases k with
  | number text =>
    simp only [literal?, Option.some.injEq, Prod.mk.injEq, number.injEq, reduceCtorEq, false_and,
      or_false]
    constructor
    · rintro ⟨rfl, rfl⟩
      exact ⟨rfl, rfl⟩
    · rintro ⟨rfl, rfl⟩
      exact ⟨rfl, rfl⟩
  | keyword word =>
    cases word with
    | true | false => simp [literal?, eq_comm]
    | _ => simp [literal?]
  | _ => simp [literal?]

/-- What closes an angle is a `>`, or a `>` can be split off it. -/
theorem closesAngle_iff {l : Location} :
    k.closesAngle ↔ k = .symbol .greaterThan ∨ (Token.afterAngle? ⟨k, l⟩).isSome := by
  cases k with
  | symbol mark => cases mark <;> simp only [closesAngle, Bool.false_eq_true, symbol.injEq,
    reduceCtorEq, Token.afterAngle?, Symbol.afterAngle?, Option.map_none, Option.isSome_none,
    or_self, Option.map_some, Option.isSome_some, or_true, or_false]
  | _ => simp [closesAngle, Token.afterAngle?]

end TokenKind

end Wgsl
