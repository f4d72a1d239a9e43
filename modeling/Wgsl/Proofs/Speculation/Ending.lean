import Wgsl.Proofs.Speculation.Staying

/-!
# Where expressions end

Behind an expression stands no token that goes on with its last operand, and no operator, unless
angle brackets are open and it closes them (`Nonterminal.endsBefore`).

What an expression ends with looks at the token behind it and leaves it. So it takes nothing where
it ends, and what takes nothing before a token takes nothing before a `)` either
(`Production.rests`).
-/

namespace Wgsl

open scoped Rule.Steps

namespace TokenKind

/-- The token goes on with an operand. -/
def isSuffix : TokenKind → Bool
  | .symbol .bracketLeft | .symbol .period | .symbol .parenLeft => true
  | _ => false

/-- The token ends an expression, in angle brackets or elsewhere. -/
def Ends (inAngles : Bool) (k : TokenKind) : Prop :=
  k.infix? = none ∨ inAngles ∧ k.closesAngle

@[simp] theorem isSuffix_symbol (mark : Symbol) :
    (symbol mark).isSuffix =
      decide (mark = .bracketLeft ∨ mark = .period ∨ mark = .parenLeft) := by
  cases mark <;> rfl

end TokenKind

namespace Nonterminal

/-- The end of an expression may be read as the end of the nonterminal. -/
@[simp] def endsExpression : Nonterminal → Bool
  | .expression _ | .operations _ | .unary | .suffixed | .suffixes _ | .primary | .arguments
  | .construction _ _ => true
  | _ => false

/-- What is known of the token behind an expression or a part of one. -/
def EndsBefore : (n : Nonterminal) → Cursor → Outcome n.Result → Prop
  | .expression inAngles, _, o =>
    o.IfAccepted fun _ d => d.current.kind.isSuffix = false ∧ d.current.kind.Ends inAngles
  | .operations inAngles, c, o =>
    o.IfAccepted fun chain d => d.current.kind.Ends inAngles ∧
      (chain = [] ∧ d = c ∨ d.current.kind.isSuffix = false)
  | .unary, _, o | .suffixed, _, o | .suffixes _, _, o =>
    o.IfAccepted fun _ d => d.current.kind.isSuffix = false
  | _, _, _ => True

section EndsBefore

variable {inAngles : Bool} {c : Cursor}

@[simp] theorem endsBefore_expression {o : Outcome Expression} :
    (expression inAngles).EndsBefore c o ↔
      o.IfAccepted fun _ d => d.current.kind.isSuffix = false ∧ d.current.kind.Ends inAngles := .rfl

@[simp] theorem endsBefore_operations {o : Outcome (List Operation)} :
    (operations inAngles).EndsBefore c o ↔
      o.IfAccepted fun chain d => d.current.kind.Ends inAngles ∧
        (chain = [] ∧ d = c ∨ d.current.kind.isSuffix = false) := .rfl

@[simp] theorem endsBefore_unary {o : Outcome Expression} :
    unary.EndsBefore c o ↔ o.IfAccepted fun _ d => d.current.kind.isSuffix = false := .rfl

@[simp] theorem endsBefore_suffixed {o : Outcome Expression} :
    suffixed.EndsBefore c o ↔ o.IfAccepted fun _ d => d.current.kind.isSuffix = false := .rfl

@[simp] theorem endsBefore_suffixes {base : Expression} {o : Outcome Expression} :
    (suffixes base).EndsBefore c o ↔ o.IfAccepted fun _ d => d.current.kind.isSuffix = false := .rfl

end EndsBefore

/-- Where an expression ends, no suffix stands and no operator that would go on with it. -/
theorem endsBefore (options : ReadOptions) (n : Nonterminal) (c : Cursor) :
    n.EndsBefore c (n.outcome options c) := by
  refine outcome_of_holds (fun n c => ?_) n c
  cases n with
  | expression inAngles =>
    simp only [Production.ofNonterminal, Production.expression, Rule.holds_steps, endsBefore_unary,
      Outcome.ifAccepted_accepted, endsBefore_operations, endsBefore_expression,
      Outcome.ifAccepted_rejected]
    grind
  | operations inAngles =>
    simp only [Production.ofNonterminal, Production.operations, Rule.steps_eq, Bool.and_eq_true,
      Rule.holds_tree]
    split
    · rename_i hinfix
      simp [TokenKind.Ends, hinfix]
    · rename_i op hop
      simp only [Rule.holds_ite]
      refine ⟨fun hcloses => ?_, fun _ => ?_⟩
      · simp [TokenKind.Ends, hcloses]
      · simp only [Rule.holds_tree, Rule.holds_steps, endsBefore_unary, Outcome.ifAccepted_accepted,
          endsBefore_operations, Outcome.ifAccepted_rejected]
        grind
  | unary =>
    simp only [Production.ofNonterminal, Production.unary, Rule.steps_eq, Rule.holds_tree]
    split <;> simp
  | suffixed => simp [Production.suffixed]
  | suffixes base =>
    simp only [Production.ofNonterminal, Production.suffixes, Rule.steps_eq, Rule.holds_tree]
    split
    · simp
    · simp
    · split <;> simp
    · have hsuffix : c.current.kind.isSuffix = false := by
        cases hkind : c.current.kind with
        | symbol mark => simp_all
        | _ => rfl
      simp [hsuffix]
  | _ => exact Rule.Holds.trivial _ c

end Nonterminal

namespace Rule

variable {options : ReadOptions} {α : Type} {r : Production α} {c d : Cursor} {a : α}

/-- Where the rule stops without taking the next token, it would do so before a `)`. -/
def RestsAt (_ : Option Token) : Production α → Prop
  | .done _ | .fail _ | .advance _ => True
  | .look k => ∀ t t', t'.kind = .symbol .parenRight → k t = k t' ∨ (k t).Moves
  | .lookBehind k => ∀ kind, (k kind).Moves
  | .split _ => False
  | .read m k => m.endsExpression ∨ ∀ a, (k a).Moves
  | .attempt _ k => (∀ a, (k (some a)).Moves) ∧ (k none).Moves

section RestsAt

variable {seen : Option Token}

/-- Resting is staying before a `)`, for what ends an expression. -/
theorem restsAt_iff :
    RestsAt seen r ↔ StaysAt Nonterminal.endsExpression (· = .symbol .parenRight) seen r := by
  cases r <;> rfl

@[simp] theorem restsAt_done : RestsAt seen (.done a : Production α) := trivial

@[simp] theorem restsAt_fail {e : ParseError} : RestsAt seen (.fail e : Production α) := trivial

@[simp] theorem restsAt_advance {k : Production α} : RestsAt seen (.advance k) := trivial

@[simp] theorem restsAt_look {k : Token → Production α} :
    RestsAt seen (.look k) ↔
      ∀ t t', t'.kind = .symbol .parenRight → k t = k t' ∨ (k t).Moves := .rfl

@[simp] theorem restsAt_lookBehind {k : TokenKind → Production α} :
    RestsAt seen (.lookBehind k) ↔ ∀ kind, (k kind).Moves := .rfl

@[simp] theorem restsAt_read {m : Nonterminal} {k : m.Result → Production α} :
    RestsAt seen (.read m k) ↔ m.endsExpression ∨ ∀ a, (k a).Moves := .rfl

@[simp] theorem restsAt_attempt {m : Nonterminal} {k : Option m.Result → Production α} :
    RestsAt seen (.attempt m k) ↔ (∀ a, (k (some a)).Moves) ∧ (k none).Moves := .rfl

end RestsAt

end Rule

namespace Production

open Rule Nonterminal

variable (options : ReadOptions)

private theorem rests_expression (inAngles : Bool) :
    (ofNonterminal options (.expression inAngles)).Always RestsAt none := by
  simp [expression]

private theorem rests_operations (inAngles : Bool) :
    (ofNonterminal options (.operations inAngles)).Always RestsAt none := by
  simp only [ofNonterminal, operations, steps_eq, Always]
  refine ⟨fun t t' ht' => ?_, fun t => ?_⟩
  · have hnone : t'.kind.infix? = none := by rw [ht']; rfl
    simp only [hnone]
    split
    · exact .inl rfl
    · split
      · exact .inl rfl
      · exact .inr trivial
  · split <;> simp

private theorem rests_unary : (ofNonterminal options .unary).Always RestsAt none := by
  simp only [ofNonterminal, unary, steps_eq, Always, restsAt_look]
  refine ⟨fun t t' ht' => .inr ?_, fun t => ?_⟩
  · split <;> simp
  · split <;> simp

private theorem rests_suffixed : (ofNonterminal options .suffixed).Always RestsAt none := by
  simp [suffixed]

private theorem rests_suffixes (base : Expression) :
    (ofNonterminal options (.suffixes base)).Always RestsAt none := by
  simp only [ofNonterminal, suffixes, steps_eq, Always]
  refine ⟨fun t t' ht' => ?_, fun t => ?_⟩
  · simp only [ht']
    split
    · simp
    · simp
    · refine .inr ?_
      split <;> simp
    · exact .inl rfl
  · split
    · simp
    · simp
    · split <;> simp
    · simp

private theorem rests_primary : (ofNonterminal options .primary).Always RestsAt none := by
  simp only [ofNonterminal, primary, steps_eq, Always, restsAt_look, Option.mem_def, reduceCtorEq,
    forall_const]
  refine ⟨fun t t' ht' => .inr ?_, fun t => ?_⟩
  · split
    · simp
    · simp
    · simp
    · simp
    · intro kind
      beta_reduce
      split <;> simp
    · simp
  · split
    · simp
    · simp
    · simp
    · simp
    · refine ⟨fun kind => ?_, fun kind => ?_⟩ <;> beta_reduce
      · split <;> simp
      · split <;> simp
    · simp

private theorem rests_arguments : (ofNonterminal options .arguments).Always RestsAt none := by
  simp [arguments]

private theorem rests_construction (made : TypeSpecifier) (l : Location) :
    (ofNonterminal options (.construction made l)).Always RestsAt none := by
  simp only [ofNonterminal, construction, steps_eq, Always, restsAt_read, endsExpression, true_or,
    true_and]
  intro arguments
  split <;> simp

/-- The rules that an expression may end with. -/
theorem rests {n : Nonterminal} (hn : n.endsExpression) :
    (ofNonterminal options n).Always RestsAt none := by
  cases n with
  | expression inAngles => exact rests_expression options inAngles
  | operations inAngles => exact rests_operations options inAngles
  | unary => exact rests_unary options
  | suffixed => exact rests_suffixed options
  | suffixes base => exact rests_suffixes options base
  | primary => exact rests_primary options
  | arguments => exact rests_arguments options
  | construction made l => exact rests_construction options made l
  | _ => cases hn

end Production

end Wgsl
