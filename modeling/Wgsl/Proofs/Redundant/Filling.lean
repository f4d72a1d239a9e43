import Wgsl.Proofs.Redundant.Aspect
import Wgsl.Proofs.Speculation.Enclosed
import Wgsl.Proofs.Redundant.Settled

/-!
# A value and the value in parentheses

An expression that ends before some tokens is compared with the same expression in parentheses
before the same tokens (`Enclosure`). Where a rule goes behind a token that leads to a value, it
accepts the one if it accepts the other, up to the same place and with a value of the same aspect
(`Rule.Fills`, `Production.answers`).

The expression need not be read as a value on both sides: this is what makes the comparison of use
where a type is tried, and what was a value is read as something else. An expression in parentheses
may be read where operators end it or not, and the expression without them has its operators in
front of those that follow. Behind what ended inside of a token nothing more is read than the token
(`Rule.Sticks`), so the token behind the expression is not taken apart by one side alone.
-/

namespace Wgsl

open scoped Rule.Steps

namespace TokenKind

/-- Of the operators, only a `>=` may stand before a value. -/
theorem closesAngle_of_infix? {k : TokenKind} {op : InfixOperator} (h : k.infix? = some op)
    (hleads : k.leads = true) : k.closesAngle = true := by
  rw [infix?_eq_some_iff.1 h] at hleads ⊢
  cases op with
  | logical op | binary op => cases op <;> first | rfl | cases hleads

end TokenKind

/-! ## What operands begin with -/

namespace Nonterminal

/-- What begins with an operand begins with a token that may begin one. -/
@[simp] def BeginsOperand : (n : Nonterminal) → Cursor → Outcome n.Result → Prop
  | .expression _, c, o | .unary, c, o | .suffixed, c, o | .primary, c, o | .selectors, c, o =>
    o.IfAccepted fun _ _ => c.current.kind.beginsOperand = true
  | .expressions, c, o =>
    o.IfAccepted fun _ _ => c.current.kind = .symbol .parenRight ∨
      c.current.kind.beginsOperand = true
  | _, _, _ => True

/-- What is accepted as a value, or as values, begins with what may begin an operand. -/
theorem beginsOperand (options : ReadOptions) (n : Nonterminal) (c : Cursor) :
    n.BeginsOperand c (n.outcome options c) := by
  refine outcome_of_holds (fun n c => ?_) n c
  by_cases hbegins : c.current.kind.beginsOperand = true
  · have hpost : n.BeginsOperand c = fun _ => True := by
      funext o
      cases n <;> simp [hbegins, Outcome.IfAccepted]
    rw [hpost]
    exact Rule.Holds.trivial _ c
  · cases n with
    | expression inAngles => simp [Production.expression, hbegins, Outcome.IfAccepted]
    | unary =>
      simp only [BeginsOperand, Production.ofNonterminal, Production.unary, Rule.steps_eq,
        Rule.holds_tree]
      split
      · simp
      · rename_i op hop
        refine absurd ?_ hbegins
        rw [TokenKind.unary?_eq_some_iff.1 hop]
        cases op <;> rfl
    | suffixed => simp [Production.suffixed, hbegins, Outcome.IfAccepted]
    | selectors => simp [Production.selectors, hbegins, Outcome.IfAccepted]
    | expressions => simp +contextual [Production.expressions, hbegins, Outcome.IfAccepted]
    | primary =>
      simp only [BeginsOperand, Production.ofNonterminal, Production.primary, Rule.steps_eq,
        Rule.holds_tree]
      split <;> simp_all [TokenKind.beginsOperand]
    | _ => exact Rule.Holds.trivial _ c

end Nonterminal

/-! ## The value in its place -/

/-- An expression before other tokens, and the tokens of a pair of parentheses to put around it. -/
structure Bracketing (options : ReadOptions) (l : Location) where
  within : List Token
  rest : List Token
  opening : Token
  closing : Token
  inAngles : Bool
  value : Expression
  opening_kind : opening.kind = .symbol .parenLeft
  closing_kind : closing.kind = .symbol .parenRight
  rest_ne_nil : rest ≠ []
  accepted : (Nonterminal.expression inAngles).outcome options (.before (within ++ rest) l) =
    .accepted value (.before rest l)

/-- The same where parentheses are not kept. -/
structure Enclosure (options : ReadOptions) (l : Location) extends Bracketing options l where
  keepParentheses : options.keepParentheses = false

namespace Bracketing

variable {options : ReadOptions} {l : Location} (E : Bracketing options l)

/-- The tokens without the parentheses. -/
def plain : List Token := E.within ++ E.rest

/-- The tokens with the parentheses. -/
def enclosed : List Token := E.opening :: (E.within ++ E.closing :: E.rest)

/-- Before the expression, without parentheses. -/
abbrev atPlain : Cursor := .before E.plain l

/-- Before the expression, with parentheses. -/
abbrev atEnclosed : Cursor := .before E.enclosed l

/-- Behind the expression, and the parentheses. -/
abbrev atRest : Cursor := .before E.rest l

/-- Without the parentheses, the expression is accepted as the value. -/
theorem accepted_plain : (Nonterminal.expression E.inAngles).outcome options E.atPlain =
    .accepted E.value E.atRest := E.accepted

private theorem isSuffix_rest : E.atRest.current.kind.isSuffix = false :=
  (Nonterminal.endsBefore options (.expression E.inAngles) _ _ _ E.accepted).1

/-- Behind the expression stands what may end it. -/
theorem ends_rest : E.atRest.current.kind.Ends E.inAngles :=
  (Nonterminal.endsBefore options (.expression E.inAngles) _ _ _ E.accepted).2

/-- The value begins with what may begin an operand. -/
theorem beginsOperand_plain : E.atPlain.current.kind.beginsOperand = true :=
  Nonterminal.beginsOperand options (.expression E.inAngles) _ _ _ E.accepted

private theorem kind_enclosed : E.atEnclosed.current.kind = .symbol .parenLeft := E.opening_kind

/-- So does the value in parentheses. -/
theorem beginsOperand_enclosed : E.atEnclosed.current.kind.beginsOperand = true := by
  rw [E.kind_enclosed]
  rfl

/-- The value in parentheses, which are seen on it if they are kept. -/
def enclosedValue : Expression :=
  if options.keepParentheses then .grouped E.value E.opening.location else E.value

/-- In parentheses, the expression is an operand. -/
theorem unary_enclosed :
    Nonterminal.unary.outcome options E.atEnclosed = .accepted E.enclosedValue E.atRest :=
  unary_outcome_of_enclosed E.rest_ne_nil E.closing_kind E.accepted E.opening_kind E.isSuffix_rest

private theorem expression_enclosed (inAngles : Bool) :
    (Nonterminal.expression inAngles).outcome options E.atEnclosed =
      ((Nonterminal.operations inAngles).outcome options E.atRest).bind fun chain e =>
        .accepted (.ofChain E.enclosedValue chain) e := by
  rw [Nonterminal.expression_outcome_eq, E.unary_enclosed, Outcome.accepted_bind]

/-- Read as it was, the expression is itself in parentheses. -/
theorem expression_enclosed_of_ends {inAngles : Bool} (h : E.atRest.current.kind.Ends inAngles) :
    (Nonterminal.expression inAngles).outcome options E.atEnclosed =
      .accepted E.enclosedValue E.atRest := by
  rw [expression_enclosed, Nonterminal.operations_outcome_of_ends h]
  rfl

/-- An expression with a chain of operations behind its operand. -/
theorem exists_plain : ∃ first d chain,
    Nonterminal.unary.outcome options E.atPlain = .accepted first d ∧
      (Nonterminal.operations E.inAngles).outcome options d = .accepted chain E.atRest ∧
      E.value = .ofChain first chain := by
  have ho := E.accepted
  rw [Nonterminal.expression_outcome_eq] at ho
  cases hfirst : Nonterminal.unary.outcome options (.before (E.within ++ E.rest) l) with
  | rejected err d => simp [hfirst] at ho
  | accepted first d =>
    rw [hfirst, Outcome.accepted_bind] at ho
    cases hchain : (Nonterminal.operations E.inAngles).outcome options d with
    | rejected err e => simp [hchain] at ho
    | accepted chain e =>
      rw [hchain, Outcome.accepted_bind] at ho
      obtain ⟨hvalue, rfl⟩ := Outcome.accepted.inj ho
      exact ⟨first, d, chain, hfirst, hchain, hvalue.symm⟩

end Bracketing

namespace Enclosure

variable {options : ReadOptions} {l : Location} (E : Enclosure options l)

/-- Parentheses that are not kept are not seen on the value. -/
theorem enclosedValue_eq : E.enclosedValue = E.value := by
  rw [Bracketing.enclosedValue, E.keepParentheses]
  rfl

/-- What is an expression with parentheses around the value is one without them, of the same
aspect, unless the value could not stand in angle brackets. -/
theorem exists_expression_plain {inAngles : Bool} (h : inAngles = true → E.inAngles = true)
    {a : Expression} {d : Cursor}
    (ho : (Nonterminal.expression inAngles).outcome options E.atEnclosed = .accepted a d) :
    ∃ b, (Nonterminal.expression inAngles).outcome options E.atPlain = .accepted b d ∧
      b.isIdentifier = a.isIdentifier := by
  by_cases hsame : inAngles = E.inAngles
  · subst hsame
    rw [E.expression_enclosed_of_ends E.ends_rest, E.enclosedValue_eq] at ho
    cases ho
    exact ⟨E.value, E.accepted, rfl⟩
  · obtain ⟨rfl, hangles⟩ : inAngles = false ∧ E.inAngles = true := by
      cases inAngles <;> simp_all
    obtain ⟨first, f, chain, hfirst, hchain, hvalue⟩ := E.exists_plain
    rw [E.expression_enclosed, E.enclosedValue_eq] at ho
    cases hmore : (Nonterminal.operations false).outcome options E.atRest with
    | rejected err e => simp [hmore] at ho
    | accepted more e =>
      rw [hmore, Outcome.accepted_bind] at ho
      cases ho
      rw [hvalue, ← Expression.isIdentifier_ofChain_append]
      rw [hangles] at hchain
      refine ⟨.ofChain first (chain ++ more), ?_, rfl⟩
      rw [Nonterminal.expression_outcome_eq, hfirst, Outcome.accepted_bind,
        Nonterminal.operations_outcome_append hchain hmore, Outcome.accepted_bind]

/-- The cursor does not stand inside of the token behind the expression. Only where the expression
is read in angle brackets could it. -/
def Outside (c : Cursor) : Prop :=
  E.inAngles = false → c.upcoming = E.rest → c.taken = 0

/-- Behind the expression stands no comma before the end of type parameters, unless it is read in
angle brackets. -/
def Lists : Prop :=
  E.inAngles = false → E.atRest.current.kind = .symbol .comma →
    E.atRest.advance.current.kind.closesAngle = false

end Enclosure

/-- What is alike an accepted value is accepted. -/
theorem Outcome.Alike.exists_accepted {α β : Type} {R : α → β → Prop} {o : Outcome α} {b : β}
    {c : Cursor} (h : o.Alike R (.accepted b c)) : ∃ a, o = .accepted a c ∧ R a b := by
  cases o with
  | accepted a d =>
    obtain ⟨hab, rfl⟩ := h
    exact ⟨a, rfl, hab⟩
  | rejected e d => exact h.elim

namespace Rule

variable {options : ReadOptions} {l : Location} {α : Type}

/-- What the rule comes to at a cursor is what it comes to when it has looked at the token there. -/
theorem comesTo_facing (r : Production α) (c : Cursor) :
    (r.facing c.current).comesTo options c = r.comesTo options c := by
  induction r with
  | look k ih => exact ih c.current
  | _ => rfl

/-- What the rule accepts where the expression is in parentheses, it accepts without them. -/
def Fills (E : Enclosure options l) (R : α → α → Prop) (r : Production α) : Prop :=
  ∀ a d, r.comesTo options E.atEnclosed = .accepted a d → E.Outside d →
    ∃ b, r.comesTo options E.atPlain = .accepted b d ∧ R b a

/-- Behind what ended inside of a token, nothing behind the token is read. -/
def Sticks (options : ReadOptions) (r : Production α) : Prop :=
  ∀ c : Cursor, c.current.kind = .symbol .greaterThanEqual ∨ c.current.kind = .symbol .equal →
    (r.comesTo options c).IfAccepted fun _ d => d = c ∨ d = c.split

/-- Behind a token that leads to a value, the rule fills the place of a value; behind a type that
ended inside of a token, it sticks to the token. -/
def Answers (E : Enclosure options l) (R : α → α → Prop) (seen : Option Token) :
    Production α → Prop
  | .advance k => ∀ t ∈ seen, t.kind.leads = true → t.kind.isReserved = false →
    (t.kind = .symbol .comma → E.Lists) → k.Fills E R
  | .read m k => m.endsInside = true → ∀ a, (k a).Sticks options
  | _ => True

/-- Nothing is known of a token that was not looked at. -/
theorem seen_none {p : Token → Prop} : (∀ t ∈ (none : Option Token), p t) ↔ True := by simp

/-- A token that was looked at is known. -/
theorem seen_some {t : Token} {p : Token → Prop} : (∀ u ∈ some t, p u) ↔ p t := by simp

section

variable {E : Enclosure options l} {R : α → α → Prop} {seen : Option Token}

@[simp] theorem answers_done {a : α} : Answers E R seen (.done a) := trivial

@[simp] theorem answers_fail {e : ParseError} : Answers E R seen (.fail e) := trivial

@[simp] theorem answers_look {k : Token → Production α} : Answers E R seen (.look k) := trivial

@[simp] theorem answers_lookBehind {k : TokenKind → Production α} :
    Answers E R seen (.lookBehind k) := trivial

@[simp] theorem answers_split {k : Production α} : Answers E R seen (.split k) := trivial

@[simp] theorem answers_attempt {m : Nonterminal} {k : Option m.Result → Production α} :
    Answers E R seen (.attempt m k) := trivial

@[simp] theorem answers_advance {k : Production α} :
    Answers E R seen (.advance k) ↔ ∀ t ∈ seen, t.kind.leads = true → t.kind.isReserved = false →
      (t.kind = .symbol .comma → E.Lists) → k.Fills E R := .rfl

@[simp] theorem answers_read {m : Nonterminal} {k : m.Result → Production α} :
    Answers E R seen (.read m k) ↔ (m.endsInside = true → ∀ a, (k a).Sticks options) := .rfl

/-- When a rule always answers, from step to step. -/
theorem answers_steps :
    type_of% @always_ite ∧ type_of% @always_elim ∧ type_of% @seen_none ∧ type_of% @seen_some ∧
    type_of% @answers_done ∧ type_of% @answers_fail ∧ type_of% @answers_look ∧
    type_of% @answers_split ∧ type_of% @answers_advance ∧ type_of% @answers_read :=
  ⟨always_ite, always_elim, seen_none, seen_some, answers_done, answers_fail, answers_look,
    answers_split, answers_advance, answers_read⟩

variable {k : Expression → Production α} {inAngles : Bool}

/-- A rule that goes on with an expression before every operand accepts it in parentheses or not. -/
theorem exists_comesTo_plain {r : Production α}
    (hr : ∀ u : Token, u.kind.beginsOperand = true →
      r.facing u = .read (.expression inAngles) k)
    (h : inAngles = true → E.inAngles = true)
    (hk : ∀ b a : Expression, b.isIdentifier = a.isIdentifier → (k b).Twins R (k a)) {a : α}
    {d : Cursor} (ho : r.comesTo options E.atEnclosed = .accepted a d) :
    ∃ b, r.comesTo options E.atPlain = .accepted b d ∧ R b a := by
  rw [← comesTo_facing, hr _ E.beginsOperand_enclosed] at ho
  rw [← comesTo_facing, hr _ E.beginsOperand_plain]
  cases hm : (Nonterminal.expression inAngles).outcome options E.atEnclosed with
  | rejected e d => simp [Production.comesTo_read_of_rejected hm] at ho
  | accepted v e =>
    rw [Production.comesTo_read_of_accepted hm] at ho
    obtain ⟨w, hw, haspect⟩ := E.exists_expression_plain h hm
    rw [Production.comesTo_read_of_accepted hw]
    exact (ho ▸ (hk w v haspect).alike e).exists_accepted

private theorem fills_expression
    (hk : ∀ b a : Expression, b.isIdentifier = a.isIdentifier → (k b).Twins R (k a)) :
    (Rule.read (.expression false) k : Production α).Fills E R :=
  fun _ _ ho _ => exists_comesTo_plain (fun _ _ => rfl) (Bool.noConfusion : false = true → _) hk ho

/-- Expressions between commas begin with one. -/
theorem exists_expressions_plain {es : List Expression} {d : Cursor}
    (ho : Nonterminal.expressions.outcome options E.atEnclosed = .accepted es d) :
    ∃ es', Nonterminal.expressions.outcome options E.atPlain = .accepted es' d ∧
      es'.length = es.length := by
  rw [Nonterminal.outcome_eq] at ho ⊢
  refine exists_comesTo_plain (R := fun es' es => es'.length = es.length)
    (k := fun e => .look fun t =>
      if t.kind = .symbol .comma then .advance (.read .expressions fun rest => .done (e :: rest))
      else .done [e])
    (fun u hu => ?_) (Bool.noConfusion : false = true → _) (fun b a _ => ?_) ho
  · simp [Production.expressions, TokenKind.ne_symbol_of_beginsOperand hu]
  · simp

private theorem fills_expressions {k : List Expression → Production α}
    (hk : ∀ b a : List Expression, b.length = a.length → (k b).Twins R (k a)) :
    (Rule.read .expressions k : Production α).Fills E R := by
  intro a d ho _
  cases hm : Nonterminal.expressions.outcome options E.atEnclosed with
  | rejected e d => simp [Production.comesTo_read_of_rejected hm] at ho
  | accepted es e =>
    rw [Production.comesTo_read_of_accepted hm] at ho
    obtain ⟨es', hes', hlength⟩ := exists_expressions_plain hm
    rw [Production.comesTo_read_of_accepted hes']
    exact (ho ▸ (hk es' es hlength).alike e).exists_accepted

/-- What goes on alike before every operand fills alike. -/
theorem Fills.of_facing {r r' : Production α} (hr' : r'.Fills E R)
    (h : ∀ u : Token, u.kind.beginsOperand = true → r.facing u = r'.facing u) : r.Fills E R := by
  intro a d ho houtside
  rw [← comesTo_facing, h _ E.beginsOperand_enclosed, comesTo_facing] at ho
  rw [← comesTo_facing, h _ E.beginsOperand_plain, comesTo_facing]
  exact hr' a d ho houtside

/-- What is refused at a `(` takes no value. -/
theorem fills_of_refused {r : Production α}
    (h : ∀ c : Cursor, c.current.kind = .symbol .parenLeft →
      (r.comesTo options c).IfAccepted fun _ _ => False) : r.Fills E R :=
  fun a d ho _ => (h _ E.kind_enclosed a d ho).elim

end

end Rule

namespace Production

open Rule Nonterminal

variable {options : ReadOptions} {l : Location} (E : Enclosure options l)

/-- The rule of a nonterminal answers to values in parentheses as to values. -/
abbrev AnswersAlike (n : Nonterminal) : Prop :=
  (ofNonterminal options n).Always (Answers E fun b a => n.aspect b = n.aspect a) none

private theorem answers_attribute : AnswersAlike E .attribute := by
  simp only [AnswersAlike, ofNonterminal, singleAttribute, steps_eq, ↓reduceIte, Always,
    answers_steps, implies_true, forall_const, true_and, and_true, forall_eq]
  intro t ht
  refine ⟨by simp [ht], fun t' => ?_⟩
  split
  · simp
  · rename_i name hname
    simp +contextual only [Always, answers_steps, TokenKind.isReserved_of_attributeName? hname,
      IsEmpty.forall_iff, implies_true, reduceCtorEq, TokenKind.leads_symbol, or_false, decide_true,
      TokenKind.isReserved_symbol, TokenKind.symbol.injEq, forall_const, endsInside, decide_false,
      and_true, true_and]
    exact fun _ _ => fills_expressions fun _ _ _ => by simp

private theorem answers_attributes : AnswersAlike E .attributes := by
  simp [attributes, AnswersAlike]

private theorem answers_type : AnswersAlike E .type := by
  simp +contextual [type, AnswersAlike, Sticks, Production.comesTo]

section Closing

variable {α : Type} {R : α → α → Prop} {seen : Option Token} {typeName : String} {a : α}

@[simp] theorem answers_closeParameters :
    ((closeParameters typeName).bind fun _ => done a).Always (Answers E R) seen := by
  simp +contextual only [closeParameters, steps_eq, closeAngle_eq, Always, answers_steps,
    TokenKind.leads_symbol, reduceCtorEq, or_false, or_true, decide_true,
    TokenKind.isReserved_symbol, forall_const, IsEmpty.forall_iff, implies_true, decide_false,
    and_true, true_and]
  exact fun _ _ _ _ => fills_of_refused fun c hc => by
    simp [comesTo, hc, Token.afterAngle?, Symbol.afterAngle?]

@[simp] theorem sticks_closeParameters {r : Production α} :
    (look fun t => if t.kind = .symbol .comma then r else
      (closeParameters typeName).bind fun _ => done a).Sticks options := by
  rintro c (hc | hc) <;>
    simp [comesTo, closeParameters, hc, Token.afterAngle?, Symbol.afterAngle?]

end Closing

/-- What closes an angle does so behind the token, or inside of it. -/
theorem closes_of_closeAngle {α : Type} {a b : α} {expected : Expectation} {c d : Cursor}
    (ho : comesTo options ((closeAngle expected).bind fun _ => done a) c = .accepted b d) :
    c.current.kind.closesAngle = true ∧
      (c.current.kind = .symbol .greaterThan ∨ c.current.afterAngle?.isSome ∧ d = c.split) := by
  by_cases hangle : c.current.kind = .symbol .greaterThan
  · exact ⟨by rw [hangle]; rfl, .inl hangle⟩
  · by_cases hsplit : c.current.afterAngle?.isSome
    · simp only [follow_steps, hangle, ↓reduceIte, hsplit, Outcome.accepted.injEq] at ho
      exact ⟨TokenKind.closesAngle_iff.2 (.inr hsplit), .inr ⟨hsplit, ho.2.symm⟩⟩
    · simp [comesTo, hangle, hsplit] at ho

variable (options) in
/-- No type begins with a `(`. -/
theorem type_refused {c : Cursor} (hc : c.current.kind = .symbol .parenLeft) :
    ∃ e d, Nonterminal.type.outcome options c = .rejected e d := by
  have hattributes : Nonterminal.attributes.outcome options c = .accepted [] c := by
    rw [outcome_eq]
    simp [attributes, hc]
  rw [type_outcome_eq, hattributes, Outcome.accepted_bind,
    namedOutcome_of_not_isName (by simp [hc])]
  exact ⟨_, _, rfl⟩

/-- The count of an array in parentheses may be read without them. Where the value was not read in
angle brackets, what stands behind it does not close them. -/
theorem fills_count (name : String) (element : TypeSpecifier)
    {R : TypeParameters → TypeParameters → Prop}
    (hR : ∀ b a, R (.counted element b) (.counted element a)) (hlists : E.Lists) :
    (Rule.read (.expression true) fun count =>
      (closeParameters name).bind fun _ => done (.counted element count)).Fills E R := by
  intro a d ho houtside
  cases hangles : E.inAngles with
  | true =>
    exact exists_comesTo_plain (fun _ _ => rfl) (fun _ => hangles)
      (fun b a _ => twins_closeParameters (hR b a)) ho
  | false =>
    have hends := E.ends_rest
    rw [hangles] at hends
    have hnone : E.atRest.current.kind.infix? = none := hends.resolve_right nofun
    rw [comesTo_read_of_accepted (E.expression_enclosed_of_ends (.inl hnone)),
      E.enclosedValue_eq] at ho
    by_cases hcomma : E.atRest.current.kind = .symbol .comma
    · have hclose : comesTo options ((closeAngle (.closingAngle name)).bind fun _ =>
          done (.counted element E.value)) E.atRest.advance = .accepted a d := by
        simpa [comesTo, closeParameters, hcomma] using ho
      exact absurd (closes_of_closeAngle hclose).1 (by simp [hlists hangles hcomma])
    · have hclose : comesTo options ((closeAngle (.closingAngle name)).bind fun _ =>
          done (.counted element E.value)) E.atRest = .accepted a d := by
        simpa [comesTo, closeParameters, hcomma] using ho
      obtain ⟨-, hangle | ⟨hsplit, rfl⟩⟩ := closes_of_closeAngle hclose
      · simp [hangle, TokenKind.infix?, InfixOperator.ofSymbol?] at hnone
      · have htaken := houtside hangles (Cursor.upcoming_split _)
        rw [Cursor.split, dif_pos ⟨Nat.zero_lt_two, hsplit⟩] at htaken
        cases htaken

private theorem answers_typeParameters (name : String) : AnswersAlike E (.typeParameters name) := by
  have hparen : (TokenKind.symbol .parenLeft).closesAngle = false := rfl
  have hnumber : (TokenKind.symbol .parenLeft).isNumber = false := rfl
  by_cases hptr : name = "ptr"
  · simp +contextual only [AnswersAlike, hptr, ofNonterminal, typeParameters, ↓reduceIte, steps_eq,
      furtherParameter, Always, answers_steps, reduceCtorEq, IsEmpty.forall_iff, implies_true,
      TokenKind.name?_eq_some_iff, TokenKind.leads_identifier, forall_const, TokenKind.leads_symbol,
      or_false, or_true, decide_true, TokenKind.isReserved_symbol, sticks_closeParameters,
      answers_closeParameters, and_true, true_and]
    refine fun _ _ _ _ _ => ⟨fun _ => fills_of_refused fun c hc => ?_, fun _ _ _ _ =>
      fills_of_refused fun c hc => ?_⟩
    · obtain ⟨e, d, ho⟩ := type_refused options hc
      simp [comesTo_read_of_rejected ho]
    · simp [comesTo, hc, hparen, TokenKind.name?]
  · simp +contextual only [AnswersAlike, ofNonterminal, typeParameters, hptr, ↓reduceIte,
      furtherParameter, steps_eq, Always, answers_steps, endsInside, sticks_closeParameters,
      implies_true, reduceCtorEq, IsEmpty.forall_iff, TokenKind.leads_symbol, or_false, or_true,
      decide_true, TokenKind.isReserved_symbol, forall_const, answers_closeParameters,
      TokenKind.name?_eq_some_iff, TokenKind.leads_identifier, and_true, true_and]
    intro element _ _ hlists
    by_cases harray : namesArray name
    · refine (fills_count E name element (fun _ _ => by simp [TypeParameters.type?])
        hlists).of_facing fun u hu => ?_
      simp [harray, TokenKind.closesAngle_of_beginsOperand hu]
    · refine fills_of_refused fun c hc => ?_
      simp [comesTo, hc, hparen, hnumber, harray, TokenKind.name?]

private theorem answers_constructorType : AnswersAlike E .constructorType := by
  simp only [AnswersAlike, ofNonterminal, constructorType, steps_eq, Always, answers_steps,
    endsInside, forall_const, implies_true, and_true]
  intro made c hc
  have hparen : c.current.kind ≠ .symbol .parenLeft := by
    rcases hc with hc | hc <;> simp [hc]
  simp [Production.comesTo, hparen]

private theorem answers_expression (inAngles : Bool) : AnswersAlike E (.expression inAngles) := by
  simp [expression, AnswersAlike]

/-- An operand in parentheses is an operand with a chain of operations behind it. -/
theorem fills_operand {op : InfixOperator} {l' : Location}
    {R : List Operation → List Operation → Prop}
    (hR : ∀ b a o o', R (o :: b) (o' :: a)) :
    (Rule.read .unary fun operand => Rule.read (.operations false) fun rest =>
      done (⟨op, l', operand⟩ :: rest)).Fills E R := by
  intro a d ho _
  obtain ⟨first, e, chain, hfirst, hchain, -⟩ := E.exists_plain
  rw [comesTo_read_of_accepted E.unary_enclosed] at ho
  cases hmore : (Nonterminal.operations false).outcome options E.atRest with
  | rejected err f => simp [comesTo_read_of_rejected hmore] at ho
  | accepted more f =>
    rw [comesTo_read_of_accepted hmore] at ho
    cases ho
    exact ⟨_, by rw [comesTo_read_of_accepted hfirst,
      comesTo_read_of_accepted (operations_outcome_append hchain hmore)]; rfl, hR _ _ _ _⟩

private theorem answers_operations (inAngles : Bool) : AnswersAlike E (.operations inAngles) := by
  simp only [AnswersAlike, ofNonterminal, operations, steps_eq, Bool.and_eq_true, Always,
    answers_look, Option.mem_def, reduceCtorEq, forall_const, true_and]
  intro t
  split
  · simp
  · rename_i op hop
    simp only [answers_steps, Always, implies_true, not_and, endsInside, Bool.false_eq_true,
      IsEmpty.forall_iff, and_true, true_and]
    intro hangles hleads _ _
    have hcloses := TokenKind.closesAngle_of_infix? hop hleads
    obtain rfl : inAngles = false := by
      by_contra h
      simp [hangles (by simpa using h)] at hcloses
    exact fills_operand E fun _ _ _ _ => by simp

private theorem answers_unary : AnswersAlike E .unary := by
  simp only [AnswersAlike, ofNonterminal, unary, steps_eq, Always, answers_look, true_and]
  intro t
  split
  · simp
  · rename_i op hop
    simp [TokenKind.leads_of_unary? hop]

private theorem answers_suffixed : AnswersAlike E .suffixed := by
  simp [suffixed, AnswersAlike]

private theorem answers_suffixes (base : Expression) : AnswersAlike E (.suffixes base) := by
  simp only [AnswersAlike, ofNonterminal, suffixes, steps_eq, Always, answers_look, true_and]
  intro t
  split
  · simp +contextual only [Always, answers_steps, TokenKind.leads_symbol, reduceCtorEq, or_false,
      or_true, decide_true, TokenKind.isReserved_symbol, TokenKind.symbol.injEq, IsEmpty.forall_iff,
      forall_const, endsInside, implies_true, decide_false, and_true, *]
    exact fills_expression fun _ _ _ => by simp [Expression.isIdentifier]
  · simp +contextual [*]
  · split <;> simp
  · simp

private theorem answers_primary : AnswersAlike E .primary := by
  simp only [AnswersAlike, ofNonterminal, primary, steps_eq, Always, answers_look, Option.mem_def,
    reduceCtorEq, forall_const, true_and]
  intro t
  split
  · simp [*]
  · simp [*]
  · simp [*]
  · simp +contextual only [Always, answers_steps, TokenKind.leads_symbol, reduceCtorEq, or_false,
      decide_true, TokenKind.isReserved_symbol, TokenKind.symbol.injEq, IsEmpty.forall_iff,
      forall_const, endsInside, implies_true, decide_false, and_true, *]
    exact fills_expression fun _ _ h => by simp [E.keepParentheses, h]
  · simp only [Always]
    refine ⟨trivial, fun kind => ?_⟩
    split <;> simp [*]
  · simp

private theorem answers_expressions : AnswersAlike E .expressions := by
  simp +contextual only [AnswersAlike, ofNonterminal, expressions, steps_eq, ↓reduceIte,
    decide_eq_true_eq, Always, answers_steps, reduceCtorEq, IsEmpty.forall_iff, implies_true,
    endsInside, TokenKind.leads_symbol, or_false, or_true, TokenKind.isReserved_symbol,
    forall_const, and_true, true_and]
  exact fun _ _ _ _ _ _ => fills_expressions fun _ _ h => by simp [h]

private theorem answers_arguments : AnswersAlike E .arguments := by
  simp +contextual only [AnswersAlike, ofNonterminal, arguments, steps_eq, Always, answers_steps,
    reduceCtorEq, IsEmpty.forall_iff, implies_true, TokenKind.leads_symbol, or_false, decide_true,
    TokenKind.isReserved_symbol, TokenKind.symbol.injEq, forall_const, endsInside, decide_false,
    and_true, true_and]
  exact fun _ _ => fills_expressions fun _ _ h => by simp [h]

private theorem answers_construction (made : TypeSpecifier) (l : Location) :
    AnswersAlike E (.construction made l) := by
  simp only [AnswersAlike, ofNonterminal, construction, steps_eq, Always, answers_read, endsInside,
    Bool.false_eq_true, IsEmpty.forall_iff, true_and]
  intro a
  split <;> simp

/-- The rules of what belongs to an expression answer alike. -/
theorem answers {n : Nonterminal} (hn : n.inExpression = true) : AnswersAlike E n := by
  cases n with
  | «attribute» => exact answers_attribute E
  | attributes => exact answers_attributes E
  | type => exact answers_type E
  | typeParameters name => exact answers_typeParameters E name
  | constructorType => exact answers_constructorType E
  | expression inAngles => exact answers_expression E inAngles
  | operations inAngles => exact answers_operations E inAngles
  | unary => exact answers_unary E
  | suffixed => exact answers_suffixed E
  | suffixes base => exact answers_suffixes E base
  | primary => exact answers_primary E
  | expressions => exact answers_expressions E
  | arguments => exact answers_arguments E
  | construction made l => exact answers_construction E made l
  | _ => cases hn

end Production

end Wgsl
