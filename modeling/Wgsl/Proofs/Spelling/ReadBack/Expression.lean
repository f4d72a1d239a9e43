import Wgsl.Proofs.Follow
import Wgsl.Proofs.Spelling.First
import Wgsl.Proofs.Spelling.Shape
import Wgsl.Proofs.Upcoming

/-!
# What is spelled is read back: expressions, types and attributes

Where each operand stands in parentheses of its own, an expression is read back from every
spelling, up to a token that ends it (`EndsExpression`). The induction is on the tree. What each
node needs of its parts is only that they are read back themselves, so there is one lemma for
each kind of node, and the induction puts them together.
-/

namespace Wgsl

open Spelling Nonterminal

namespace TokenKind

/-- The token continues no operand: it is no index, member access or call. -/
def EndsOperand (k : TokenKind) : Prop :=
  k ≠ .symbol .bracketLeft ∧ k ≠ .symbol .period ∧ k ≠ .symbol .parenLeft

/-- The token ends an expression. In angle brackets, a closing angle does. -/
def EndsExpression (inAngles : Bool) (k : TokenKind) : Prop :=
  k.EndsOperand ∧ (k.infix? = none ∨ inAngles ∧ k.closesAngle)

variable {k : TokenKind} {inAngles : Bool}

instance : Decidable k.EndsOperand := by unfold EndsOperand; infer_instance

instance : Decidable (k.EndsExpression inAngles) := by unfold EndsExpression; infer_instance

/-- An infix operator ends the operand before it. -/
theorem endsOperand_infix (op : InfixOperator) : (TokenKind.symbol op.symbol).EndsOperand := by
  cases op with
  | binary op => cases op <;> simp only [EndsOperand, InfixOperator.symbol, ne_eq, symbol.injEq,
    reduceCtorEq, not_false_eq_true, and_self]
  | logical op => cases op <;> simp [EndsOperand, InfixOperator.symbol]

/-- No expression is ended by what might open type parameters. -/
theorem EndsExpression.ne_lessThan (h : k.EndsExpression inAngles) : k ≠ .symbol .lessThan := by
  rintro rfl
  simp [EndsExpression, infix?, InfixOperator.ofSymbol?, closesAngle] at h

/-- In angle brackets, what closes them ends an expression. -/
theorem endsExpression_of_closesAngle (h : k.closesAngle) : k.EndsExpression true := by
  refine ⟨?_, .inr ⟨rfl, h⟩⟩
  refine ⟨?_, ?_, ?_⟩ <;> (rintro rfl; simp [closesAngle] at h)

end TokenKind

/-- The expression has an operator between operands. -/
def Expression.IsOperation : Expression → Prop
  | .binary .. | .logical .. => True
  | _ => False

/-! ## Read back -/

/-- From every spelling the expression is read, where a token stands behind it that ends it. In
angle brackets an operation may have to be in parentheses. -/
def Expression.ReadBack (e : Expression) : Prop :=
  ∀ (inAngles : Bool) (c c' : Cursor), (inAngles → ¬e.IsOperation) →
    c.Reads (e.spellings .parenthesized) c' → c'.current.kind.EndsExpression inAngles →
      (expression inAngles).outcome {} c = .accepted e c'

/-- From every spelling the type is read, where no parameters stand behind it. -/
def TypeSpecifier.ReadBack (t : TypeSpecifier) : Prop :=
  ∀ c c' : Cursor, c.Reads (t.spellings .parenthesized) c' →
    c'.current.kind ≠ .symbol .lessThan → type.outcome {} c = .accepted t c'

/-- From every spelling the parameters are read, behind the opening angle. -/
def TypeParameters.ReadBack (p : TypeParameters) (name : String) : Prop :=
  ∀ c c' : Cursor, c.Reads (p.spellings .parenthesized) c' →
    p = .none ∧ c = c' ∨
      c.current.kind = .symbol .lessThan ∧
        (typeParameters name).outcome {} c.advance = .accepted p c'

/-- From every spelling the attribute is read, where no arguments stand behind it. -/
def Attribute.ReadBack (a : Attribute) : Prop :=
  ∀ c c' : Cursor, c.Reads (a.spellings .parenthesized) c' →
    c'.current.kind ≠ .symbol .parenLeft → attribute.outcome {} c = .accepted a c'

variable {c d c' : Cursor} {e : Expression} {inAngles : Bool}

/-! ## Operands -/

/-- In parentheses, what reads back is read without suffixes and prefixes. -/
theorem Expression.ReadBack.primary_parenthesized (he : e.ReadBack)
    (h : c.Reads (parenthesized (e.spellings .parenthesized)) c') :
    primary.outcome {} c = .accepted e c' := by
  obtain ⟨hopen, d, hd, hclose, rfl⟩ := Cursor.reads_parenthesized.1 h
  have hends : d.current.kind.EndsExpression false := by
    rw [hclose]
    decide
  have hinner : (expression false).outcome {} c.advance = .accepted e d :=
    he false _ d (by simp) hd hends
  rw [outcome_eq]
  simp [Production.ofNonterminal, Production.primary, hopen, hinner, hclose]

/-- Where an operand ends there are no suffixes. -/
theorem suffixes_outcome (h : c.current.kind.EndsOperand) :
    (suffixes e).outcome {} c = .accepted e c := by
  obtain ⟨hindex, hmember, hcall⟩ := h
  rw [outcome_eq]
  simp [Production.ofNonterminal, Production.suffixes]

/-- Where an operand ends it is read as it stands. -/
theorem suffixed_outcome (hprimary : primary.outcome {} c = .accepted e c')
    (h : c'.current.kind.EndsOperand) : suffixed.outcome {} c = .accepted e c' := by
  rw [outcome_eq]
  simp [Production.ofNonterminal, Production.suffixed, hprimary, suffixes_outcome h]

/-- Without a prefix operator an operand is read as it stands. -/
theorem unary_outcome (hc : c.current.kind.unary? = none)
    (hsuffixed : suffixed.outcome {} c = .accepted e c') : unary.outcome {} c = .accepted e c' := by
  rw [outcome_eq]
  simp [Production.ofNonterminal, Production.unary, hc, hsuffixed]

/-- In parentheses, what reads back is an operand. -/
theorem Expression.ReadBack.unary_parenthesized (he : e.ReadBack)
    (h : c.Reads (parenthesized (e.spellings .parenthesized)) c')
    (hc' : c'.current.kind.EndsOperand) : Nonterminal.unary.outcome {} c = .accepted e c' := by
  have hopen := (Cursor.reads_parenthesized.1 h).1
  have hnone : c.current.kind.unary? = none := by
    simp [hopen, TokenKind.unary?, UnaryOperator.ofSymbol?]
  exact unary_outcome hnone (suffixed_outcome (he.primary_parenthesized h) hc')

/-- Where an expression ends no operator follows. -/
theorem operations_outcome (h : c.current.kind.EndsExpression inAngles) :
    (operations inAngles).outcome {} c = .accepted [] c := by
  rw [outcome_eq]
  simp only [Production.ofNonterminal, Production.operations]
  rcases h with ⟨-, hnone | ⟨rfl, hcloses⟩⟩
  · simp [hnone]
  · cases hop : c.current.kind.infix? with
    | none => simp [hop]
    | some op => simp [hop, hcloses]

/-- An operand that no operator follows is an expression. -/
theorem expression_outcome (hunary : unary.outcome {} c = .accepted e c')
    (h : c'.current.kind.EndsExpression inAngles) :
    (expression inAngles).outcome {} c = .accepted e c' := by
  rw [outcome_eq]
  simp [Production.ofNonterminal, Production.expression, hunary, operations_outcome h]

/-- What is read without a look at what stands between operands is read back. -/
theorem Expression.ReadBack.of_unary
    (h : ∀ c c', c.Reads (e.spellings .parenthesized) c' → c'.current.kind.EndsOperand →
      c'.current.kind ≠ .symbol .lessThan → Nonterminal.unary.outcome {} c = .accepted e c') :
    e.ReadBack := by
  intro inAngles c c' _ hreads hends
  exact expression_outcome (h c c' hreads hends.1 hends.ne_lessThan) hends

/-- What is no operation has, in parentheses or not, no operator that a closing angle could be. -/
theorem Expression.ReadBack.parenthesized_outcome (he : e.ReadBack)
    (h : c.Reads (parenthesized (e.spellings .parenthesized)) c')
    (hc' : c'.current.kind.EndsExpression inAngles) :
    (expression inAngles).outcome {} c = .accepted e c' :=
  expression_outcome (he.unary_parenthesized h hc'.1) hc'

/-! ## Operations -/

/-- Two operands in parentheses, with an operator between them, read back to the operation. -/
theorem Expression.ReadBack.join {left right : Expression} (hleft : left.ReadBack)
    (hright : right.ReadBack) (op : InfixOperator) {l : Location}
    (h : c.Reads (parenthesized (left.spellings .parenthesized) * symbol op.symbol l *
      parenthesized (right.spellings .parenthesized)) c')
    (hc' : c'.current.kind.EndsExpression false) :
    (expression false).outcome {} c = .accepted (Expression.join op left right l) c' := by
  simp only [Cursor.reads_mul, Cursor.reads_symbol] at h
  obtain ⟨_, ⟨d, hl, hop, rfl⟩, hr⟩ := h
  have hends : d.current.kind.EndsOperand := by
    rw [hop]
    exact TokenKind.endsOperand_infix op
  have hinfix : d.current.kind.infix? = some op :=
    TokenKind.infix?_eq_some_iff.2 (by rw [hop])
  have hlocation : d.current.location = l := by rw [hop]
  have hoperand := hright.unary_parenthesized hr hc'.1
  have hoperations : (operations false).outcome {} d = .accepted [⟨op, l, right⟩] c' := by
    rw [outcome_eq]
    simp [Production.ofNonterminal, Production.operations, hinfix, hoperand,
      operations_outcome hc', hlocation]
  rw [outcome_eq]
  simp [Production.ofNonterminal, Production.expression, hleft.unary_parenthesized hl hends,
    hoperations]

/-- An operation is read back outside of angle brackets. -/
theorem Expression.ReadBack.of_operation (hop : e.IsOperation)
    (h : ∀ c c', c.Reads (e.spellings .parenthesized) c' →
      c'.current.kind.EndsExpression false →
        (Nonterminal.expression false).outcome {} c = .accepted e c') : e.ReadBack := by
  intro inAngles c c' hangles hreads hends
  cases inAngles with
  | false => exact h c c' hreads hends
  | true => exact absurd hop (hangles rfl)

/-- A binary operation reads back if its operands do. -/
theorem Expression.readBack_binary {op : BinaryOperator} {left right : Expression} {l : Location}
    (hleft : left.ReadBack) (hright : right.ReadBack) :
    (Expression.binary op left right l).ReadBack :=
  .of_operation True.intro fun _ _ h hends =>
    hleft.join hright (.binary op) h hends

/-- So does a logical one. -/
theorem Expression.readBack_logical {op : LogicalOperator} {left right : Expression} {l : Location}
    (hleft : left.ReadBack) (hright : right.ReadBack) :
    (Expression.logical op left right l).ReadBack :=
  .of_operation True.intro fun _ _ h hends =>
    hleft.join hright (.logical op) h hends

/-- So does a prefix operator with its operand. -/
theorem Expression.readBack_unary {op : UnaryOperator} {operand : Expression} {l : Location}
    (hoperand : operand.ReadBack) : (Expression.unary op operand l).ReadBack := by
  refine .of_unary fun c c' h hends _ => ?_
  simp only [Expression.spellings, Cursor.reads_mul, Cursor.reads_symbol] at h
  obtain ⟨_, ⟨hop, rfl⟩, h⟩ := h
  have hunary : c.current.kind.unary? = some op := TokenKind.unary?_eq_some_iff.2 (by rw [hop])
  have hlocation : c.current.location = l := by rw [hop]
  rw [outcome_eq]
  simp [Production.ofNonterminal, Production.unary, hunary, hoperand.unary_parenthesized h hends,
    hlocation]

/-! ## Literals, names and what stands behind an object -/

/-- Literals read back. -/
theorem Expression.readBack_literal {spelling : String} {kind : LiteralKind} {l : Location} :
    (Expression.literal spelling kind l).ReadBack := by
  refine .of_unary fun c c' h hends _ => ?_
  simp only [Expression.spellings, Cursor.reads_token] at h
  obtain ⟨⟨⟨hliteral, hlocation⟩, -⟩, rfl⟩ := h
  have hprimary : primary.outcome {} c = .accepted (.literal spelling kind l) c.advance := by
    rw [outcome_eq]
    rcases TokenKind.literal?_eq_some_iff.1 hliteral with
      ⟨hk, rfl⟩ | ⟨hk, rfl, rfl⟩ | ⟨hk, rfl, rfl⟩
    · simp [Production.ofNonterminal, Production.primary, hk, hlocation]
    · simp [Production.ofNonterminal, Production.primary, hk, hlocation]
    · simp [Production.ofNonterminal, Production.primary, hk, hlocation]
  have hnone : c.current.kind.unary? = none := by
    rcases TokenKind.literal?_eq_some_iff.1 hliteral with ⟨hk, -⟩ | ⟨hk, -⟩ | ⟨hk, -⟩
    · simp [hk, TokenKind.unary?]
    · simp [hk, TokenKind.unary?]
    · simp [hk, TokenKind.unary?]
  exact unary_outcome hnone (suffixed_outcome hprimary hends)

/-- A name is read as a name where it begins no type and builds no value. -/
theorem primary_identifier {name : String} (hc : c.current.kind = .identifier name)
    (hparameters : c.advance.current.kind ≠ .symbol .lessThan)
    (harguments : c.advance.current.kind = .symbol .parenLeft → ¬isConstructible name) :
    primary.outcome {} c = .accepted (.identifier name c.current.location) c.advance := by
  rw [outcome_eq]
  simp only [Production.ofNonterminal, Production.primary]
  by_cases hopen : c.advance.current.kind = .symbol .parenLeft
  · simp [hc, Cursor.following_eq, hopen, harguments hopen]
  · simp [hc, Cursor.following_eq]

/-- A name is no prefix operator. -/
theorem unary?_identifier {name : String} (hc : c.current.kind = .identifier name) :
    c.current.kind.unary? = none := by
  simp [hc, TokenKind.unary?]

/-- Names read back. -/
theorem Expression.readBack_identifier {name : String} {l : Location} :
    (Expression.identifier name l).ReadBack := by
  refine .of_unary fun c c' h hends hangle => ?_
  simp only [Expression.spellings, Cursor.reads_word] at h
  obtain ⟨hc, rfl⟩ := h
  have hkind : c.current.kind = .identifier name := by rw [hc]
  have hlocation : c.current.location = l := by rw [hc]
  have hprimary := primary_identifier hkind hangle fun hopen => absurd hopen hends.2.2
  rw [hlocation] at hprimary
  exact unary_outcome (unary?_identifier hkind) (suffixed_outcome hprimary hends)

/-- Behind an object in parentheses, what is read with it is the whole. -/
theorem Expression.ReadBack.suffixed_parenthesized {object : Expression} (hobject : object.ReadBack)
    (h : c.Reads (parenthesized (object.spellings .parenthesized)) d)
    (hsuffixes : (suffixes object).outcome {} d = .accepted e c') :
    Nonterminal.unary.outcome {} c = .accepted e c' := by
  have hopen := (Cursor.reads_parenthesized.1 h).1
  have hsuffixed : suffixed.outcome {} c = .accepted e c' := by
    rw [outcome_eq]
    simp [Production.ofNonterminal, Production.suffixed, hobject.primary_parenthesized h,
      hsuffixes]
  exact unary_outcome (by simp [hopen, TokenKind.unary?, UnaryOperator.ofSymbol?]) hsuffixed

/-- A member reads back if what it is a member of does. -/
theorem Expression.readBack_member {object : Expression} {name : String} {l : Location}
    (hobject : object.ReadBack) : (Expression.member object name l).ReadBack := by
  refine .of_unary fun c c' h hends _ => ?_
  simp only [Expression.spellings, Cursor.reads_mul, Cursor.reads_symbol, Cursor.reads_named] at h
  obtain ⟨_, ⟨d, h, hperiod, rfl⟩, hname, rfl⟩ := h
  refine hobject.suffixed_parenthesized h ?_
  have hkind : d.current.kind = .symbol .period := by rw [hperiod]
  rw [outcome_eq]
  simp [Production.ofNonterminal, Production.suffixes, hperiod, hname,
    suffixes_outcome hends]

/-- What is indexed reads back if both of its parts do. -/
theorem Expression.readBack_index {object index : Expression} {l : Location}
    (hobject : object.ReadBack) (hindex : index.ReadBack) :
    (Expression.index object index l).ReadBack := by
  refine .of_unary fun c c' h hends _ => ?_
  simp only [Expression.spellings, Cursor.reads_mul, Cursor.reads_symbol, Cursor.reads_mark] at h
  obtain ⟨f, ⟨_, ⟨d, h, hopen, rfl⟩, hinner⟩, hclose, rfl⟩ := h
  refine hobject.suffixed_parenthesized h ?_
  have hclosed : f.current.kind.EndsExpression false := by
    rw [hclose]
    decide
  have hindex := hindex false _ _ (by simp) hinner hclosed
  rw [outcome_eq]
  simp [Production.ofNonterminal, Production.suffixes, hopen, hindex, hclose,
    suffixes_outcome hends]

/-! ## Arguments -/

/-- Outside of angle brackets an expression is read back up to a token that ends it. -/
theorem Expression.ReadBack.outcome (he : e.ReadBack)
    (h : c.Reads (e.spellings .parenthesized) c') (hc' : c'.current.kind.EndsExpression false) :
    (Nonterminal.expression false).outcome {} c = .accepted e c' :=
  he false c c' (fun h => absurd h Bool.false_ne_true) h hc'

/-- Arguments are read to the end, with a comma behind the last or without. -/
theorem expressions_outcome {es : List Expression} (hes : ∀ e ∈ es, e.ReadBack)
    (h : c.Reads (expressionsSpellings .parenthesized es) c')
    (hc' : c'.current.kind = .symbol .parenRight) :
    expressions.outcome {} c = .accepted es c' := by
  induction es generalizing c with
  | nil =>
    obtain rfl : c = c' := Cursor.reads_one.1 h
    rw [outcome_eq]
    simp [Production.ofNonterminal, Production.expressions, hc']
  | cons e es ih =>
    simp only [expressionsSpellings, Cursor.reads_mul, Cursor.reads_add, Cursor.reads_when,
      Cursor.reads_mark] at h
    obtain ⟨d, he, hrest⟩ := h
    have hstart : c.current.kind ≠ .symbol .parenRight :=
      ((e.begins_spellings _).reads he).ne_of_not id
    rw [outcome_eq]
    rcases hrest with ⟨rfl, rfl⟩ | ⟨_, ⟨hcomma, rfl⟩, hrest⟩
    · have hhead := (hes e List.mem_cons_self).outcome he (by rw [hc']; decide)
      simp [Production.ofNonterminal, Production.expressions, hstart, hhead, hc', Rule.follow_ite]
    · have hhead := (hes e List.mem_cons_self).outcome he (by rw [hcomma]; decide)
      have htail := ih (fun e he => hes e (List.mem_cons_of_mem _ he)) hrest
      simp [Production.ofNonterminal, Production.expressions, hstart, hhead, hcomma, htail,
        Rule.follow_ite]

/-- Arguments in their parentheses are read. -/
theorem arguments_outcome {es : List Expression} (hes : ∀ e ∈ es, e.ReadBack)
    (h : c.Reads (parenthesized (expressionsSpellings .parenthesized es)) c') :
    arguments.outcome {} c = .accepted es c' := by
  obtain ⟨hopen, d, hlist, hclose, rfl⟩ := Cursor.reads_parenthesized.1 h
  rw [outcome_eq]
  simp [Production.ofNonterminal, Production.arguments, hopen,
    expressions_outcome hes hlist hclose, hclose]

/-- A call is read as an operand that no suffix follows. -/
theorem unary_call {callee : String} {arguments : List Expression} {l : Location}
    (hcallee : ¬isConstructible callee) (harguments : ∀ e ∈ arguments, e.ReadBack)
    (h : c.Reads ((Expression.call callee arguments l).spellings .parenthesized) c')
    (hc' : c'.current.kind.EndsOperand) :
    unary.outcome {} c = .accepted (.call callee arguments l) c' := by
  simp only [Expression.spellings, Cursor.reads_mul, Cursor.reads_word] at h
  obtain ⟨_, ⟨hc, rfl⟩, h⟩ := h
  have hkind : c.current.kind = .identifier callee := by rw [hc]
  have hlocation : c.current.location = l := by rw [hc]
  have hopen := (Cursor.reads_parenthesized.1 h).1
  have hprimary := primary_identifier hkind (by simp [hopen]) fun _ => hcallee
  have hsuffixes : (suffixes (.identifier callee l)).outcome {} c.advance =
      .accepted (.call callee arguments l) c' := by
    rw [outcome_eq]
    simp [Production.ofNonterminal, Production.suffixes, hopen, arguments_outcome harguments h,
      suffixes_outcome hc']
  have hsuffixed : suffixed.outcome {} c = .accepted (.call callee arguments l) c' := by
    rw [outcome_eq]
    simp [Production.ofNonterminal, Production.suffixed, hprimary, hlocation, hsuffixes]
  exact unary_outcome (unary?_identifier hkind) hsuffixed

/-- A call reads back if its arguments do. -/
theorem Expression.readBack_call {callee : String} {arguments : List Expression} {l : Location}
    (hcallee : ¬isConstructible callee) (harguments : ∀ e ∈ arguments, e.ReadBack) :
    (Expression.call callee arguments l).ReadBack :=
  .of_unary fun _ _ h hends _ => unary_call hcallee harguments h hends

/-! ## Values built from types -/

/-- A type that reads back is tried with success before a parenthesis. -/
theorem constructorType_outcome {t : TypeSpecifier} (ht : t.ReadBack)
    (h : c.Reads (t.spellings .parenthesized) c') (hc' : c'.current.kind = .symbol .parenLeft) :
    constructorType.outcome {} c = .accepted t c' := by
  have htype : Nonterminal.type.outcome {} c = .accepted t c' := ht c c' h (by simp [hc'])
  rw [outcome_eq]
  simp [Production.ofNonterminal, Production.constructorType, htype, hc']

/-- Where a type with parameters stands before an opening parenthesis, a value is built from it. -/
theorem primary_construction {t : TypeSpecifier} (ht : t.ReadBack) (hattributes : t.attributes = [])
    (h : c.Reads (t.spellings .parenthesized) d)
    (hangle : c.advance.current.kind = .symbol .lessThan)
    (hopen : d.current.kind = .symbol .parenLeft)
    (hconstruction : (construction t t.location).outcome {} d = .accepted e c') :
    primary.outcome {} c = .accepted e c' := by
  have hc := (t.begins_spellings .parenthesized hattributes).reads h
  rw [outcome_eq]
  simp [Production.ofNonterminal, Production.primary, Production.parse?, hc, Cursor.following_eq,
    hangle, constructorType_outcome ht h hopen, hconstruction]

/-- A type without attributes is a name and its parameters. -/
theorem TypeSpecifier.reads_of_attributes {t : TypeSpecifier} (hattributes : t.attributes = []) :
    c.Reads (t.spellings .parenthesized) d ↔
      c.current = ⟨.identifier t.name, t.location⟩ ∧
        c.advance.Reads (t.parameters.spellings .parenthesized) d := by
  obtain ⟨attributes, name, parameters, l⟩ := t
  obtain rfl : attributes = [] := hattributes
  simp [TypeSpecifier.spellings, attributesSpellings]

/-- A value that is built reads back if its type and its arguments do. -/
theorem Expression.readBack_construct {t : TypeSpecifier} {arguments : List Expression}
    {l : Location} (ht : t.ReadBack) (hparameters : t.parameters.ReadBack t.name)
    (hvalue : t.BeginsValue) (harguments : ∀ e ∈ arguments, e.ReadBack) :
    (Expression.construct t arguments l).ReadBack := by
  refine .of_unary fun c c' h hends _ => ?_
  simp only [Expression.spellings, Cursor.reads_mul, Cursor.reads_when] at h
  obtain ⟨d, ⟨_, ⟨⟨hattributes, rfl⟩, rfl⟩, htype⟩, hlist⟩ := h
  have hopen := (Cursor.reads_parenthesized.1 hlist).1
  obtain ⟨hc, hinner⟩ := (TypeSpecifier.reads_of_attributes hattributes).1 htype
  have hprimary : primary.outcome {} c = .accepted (.construct t arguments t.location) c' := by
    rcases hparameters _ _ hinner with ⟨hnone, rfl⟩ | ⟨hangle, -⟩
    · obtain ⟨attributes, name, parameters, l⟩ := t
      obtain rfl : attributes = [] := hattributes
      obtain rfl : parameters = .none := hnone
      have hconstructible : isConstructible name := hvalue.2
      rw [outcome_eq]
      simp [Production.ofNonterminal, Production.primary, hc, Cursor.following_eq, hopen,
        hconstructible, arguments_outcome harguments hlist]
    · have hname : t.name ≠ "bitcast" := by
        have hvalue := hvalue.2
        split at hvalue
        · rename_i hnone
          rw [hnone, TypeParameters.spellings, Cursor.reads_one] at hinner
          simp [hinner, hopen] at hangle
        · exact hvalue
      refine primary_construction ht hattributes htype hangle hopen ?_
      rw [outcome_eq]
      simp [Production.ofNonterminal, Production.construction, arguments_outcome harguments hlist,
        TypeSpecifier.bitcastTarget?, hname]
  have hkind : c.current.kind = .identifier t.name := by rw [hc]
  exact unary_outcome (unary?_identifier hkind) (suffixed_outcome hprimary hends)

/-! ## Types -/

section Parameters

variable {outcome : (n : Nonterminal) → Cursor → Outcome n.Result} {name : String}

/-- What closes type parameters begins with a comma or an angle. -/
theorem Cursor.Reads.closing_current (h : c.Reads closing c') :
    c.current.kind = .symbol .comma ∧ c.advance.Reads angle c' ∨
      c.current.kind.closesAngle ∧ c.Reads angle c' := by
  simp only [closing, Cursor.reads_mul, Cursor.reads_optional, Cursor.reads_mark] at h
  obtain ⟨d, rfl | ⟨hcomma, rfl⟩, h⟩ := h
  · refine .inr ⟨(TokenKind.closesAngle_iff (l := c.current.location)).2 ?_, h⟩
    exact (Cursor.reads_angle.1 h).imp And.left And.left
  · exact .inl ⟨hcomma, h⟩

/-- No angle opens where the parameters close. -/
theorem Cursor.Reads.closing_ne_lessThan (h : c.Reads closing c') :
    c.current.kind ≠ .symbol .lessThan := by
  intro hangle
  rcases h.closing_current with ⟨hcomma, -⟩ | ⟨hcloses, -⟩
  · simp [hangle] at hcomma
  · simp [hangle, TokenKind.closesAngle] at hcloses

/-- The closing angle of parameters is read, split off or whole. -/
theorem follow_closeAngle_of_reads {expected : Expectation} (h : c.Reads angle c') :
    (Rule.closeAngle expected : Production Unit).follow outcome c = .accepted () c' := by
  rcases Cursor.reads_angle.1 h with ⟨hangle, rfl⟩ | ⟨hsplit, rfl⟩
  · simp [hangle]
  · have hne : c.current.kind ≠ .symbol .greaterThan := by
      intro hangle
      simp [Token.afterAngle?, hangle, Symbol.afterAngle?] at hsplit
    simp [hne, hsplit]

/-- The end of parameters is read, with a comma before it or without. -/
theorem follow_closeParameters (h : c.Reads closing c') :
    (Production.closeParameters name).follow outcome c = .accepted () c' := by
  rcases h.closing_current with ⟨hcomma, hangle⟩ | ⟨hcloses, hangle⟩
  · simp [Production.closeParameters, hcomma, follow_closeAngle_of_reads hangle,
      -Rule.follow_closeAngle]
  · have hne : c.current.kind ≠ .symbol .comma := by
      intro hcomma
      simp [hcomma, TokenKind.closesAngle] at hcloses
    simp [Production.closeParameters, hne, follow_closeAngle_of_reads hangle,
      -Rule.follow_closeAngle]

/-- Before what closes them there is no further parameter, and behind the comma, if there is one,
they are closed. -/
theorem follow_closing (outcome : (n : Nonterminal) → Cursor → Outcome n.Result) (name : String)
    (h : c.Reads closing c') :
    ∃ d, Production.furtherParameter.follow outcome c = .accepted false d ∧
      (Production.closeParameters name).follow outcome d = .accepted () c' := by
  rcases h.closing_current with ⟨hcomma, hangle⟩ | ⟨hcloses, hangle⟩
  · refine ⟨c.advance, ?_, follow_closeParameters ?_⟩
    · have hcloses : c.advance.current.kind.closesAngle :=
        (TokenKind.closesAngle_iff (l := c.advance.current.location)).2
          ((Cursor.reads_angle.1 hangle).imp And.left And.left)
      simp [hcomma, hcloses]
    · exact Cursor.reads_mul.2 ⟨_, Cursor.reads_optional.2 (.inl rfl), hangle⟩
  · refine ⟨c, ?_, follow_closeParameters h⟩
    have hne : c.current.kind ≠ .symbol .comma := by
      intro hcomma
      simp [hcomma, TokenKind.closesAngle] at hcloses
    simp [hne]

end Parameters

/-- The parameters of a type of elements read back if the type of the elements does. -/
theorem TypeParameters.readBack_element {t : TypeSpecifier} {accessMode : Option String}
    {name : String} (ht : t.ReadBack) (hname : name ≠ "ptr")
    (hmode : accessMode.isSome → ¬namesArray name) :
    (TypeParameters.element t accessMode).ReadBack name := by
  intro c c' h
  simp only [TypeParameters.spellings, Cursor.reads_mul, Cursor.reads_mark] at h
  obtain ⟨f, ⟨d, ⟨_, ⟨hopen, rfl⟩, h⟩, haccess⟩, hclosing⟩ := h
  refine .inr ⟨hopen, ?_⟩
  cases accessMode with
  | none =>
    obtain rfl : d = f := Cursor.reads_one.1 haccess
    have htype := ht _ _ h hclosing.closing_ne_lessThan
    obtain ⟨g, hfurther, hclose⟩ :=
      follow_closing (fun n c => n.outcome {} c) name hclosing
    rw [outcome_eq]
    simp [Production.ofNonterminal, Production.typeParameters, hname, htype, hfurther, hclose,
      -Production.follow_furtherParameter]
  | some mode =>
    simp only [furtherNameSpellings, Cursor.reads_mul, Cursor.reads_mark, Cursor.reads_named]
      at haccess
    obtain ⟨_, ⟨hcomma, rfl⟩, hmodeName, rfl⟩ := haccess
    have htype := ht _ _ h (by simp [hcomma])
    have harray : namesArray name = false := by simpa using hmode rfl
    rw [outcome_eq]
    simp [Production.ofNonterminal, Production.typeParameters, hname, htype, hcomma, hmodeName,
      harray, TokenKind.closesAngle, TokenKind.isNumber,
      follow_closeParameters hclosing]

/-- The parameters of a pointer read back if its target does. -/
theorem TypeParameters.readBack_pointer {t : TypeSpecifier} {storageClass : String}
    {accessMode : Option String} (ht : t.ReadBack) :
    (TypeParameters.pointer storageClass t accessMode).ReadBack "ptr" := by
  intro c c' h
  simp only [TypeParameters.spellings, Cursor.reads_mul, Cursor.reads_mark, Cursor.reads_named]
    at h
  obtain ⟨f, ⟨d, ⟨_, ⟨_, ⟨_, ⟨hopen, rfl⟩, hstorage, rfl⟩, hfirst, rfl⟩, h⟩, haccess⟩, hclosing⟩ :=
    h
  refine .inr ⟨hopen, ?_⟩
  cases accessMode with
  | none =>
    obtain rfl : d = f := Cursor.reads_one.1 haccess
    have htype := ht _ _ h hclosing.closing_ne_lessThan
    obtain ⟨g, hfurther, hclose⟩ :=
      follow_closing (fun n c => n.outcome {} c) "ptr" hclosing
    rw [outcome_eq]
    simp [Production.ofNonterminal, Production.typeParameters, hstorage, hfirst, htype, hfurther,
      hclose, -Production.follow_furtherParameter]
  | some mode =>
    simp only [furtherNameSpellings, Cursor.reads_mul, Cursor.reads_mark, Cursor.reads_named]
      at haccess
    obtain ⟨_, ⟨hcomma, rfl⟩, hmodeName, rfl⟩ := haccess
    have htype := ht _ _ h (by simp [hcomma])
    rw [outcome_eq]
    simp [Production.ofNonterminal, Production.typeParameters, hstorage, hfirst, htype, hcomma,
      hmodeName, TokenKind.closesAngle,
      follow_closeParameters hclosing]

/-- A number of elements is read as it stands, or in parentheses. -/
theorem Expression.ReadBack.count_outcome {count : Expression} (hcount : count.ReadBack)
    (h : c.Reads (OperandStyle.parenthesized.count count (count.spellings .parenthesized)) c')
    (hc' : c'.current.kind.EndsExpression true) :
    (Nonterminal.expression true).outcome {} c = .accepted count c' := by
  by_cases hop : count.IsOperation
  · have hparenthesized : c.Reads (parenthesized (count.spellings .parenthesized)) c' := by
      cases count with
      | binary => exact h
      | logical => exact h
      | _ => exact hop.elim
    exact hcount.parenthesized_outcome hparenthesized hc'
  · have heither : c.Reads
        (count.spellings .parenthesized + parenthesized (count.spellings .parenthesized)) c' := by
      cases count with
      | binary => exact absurd True.intro hop
      | logical => exact absurd True.intro hop
      | _ => exact h
    rcases Cursor.reads_add.1 heither with hbare | hparenthesized
    · exact hcount true c c' (fun _ => hop) hbare hc'
    · exact hcount.parenthesized_outcome hparenthesized hc'

/-- The parameters of an array read back if the type of its elements and their number do. -/
theorem TypeParameters.readBack_counted {t : TypeSpecifier} {count : Expression} {name : String}
    (ht : t.ReadBack) (hcount : count.ReadBack) (hname : namesArray name) :
    (TypeParameters.counted t count).ReadBack name := by
  intro c c' h
  simp only [TypeParameters.spellings, Cursor.reads_mul, Cursor.reads_mark] at h
  obtain ⟨f, ⟨_, ⟨d, ⟨_, ⟨hopen, rfl⟩, h⟩, hcomma, rfl⟩, hnumber⟩, hclosing⟩ := h
  have hptr : name ≠ "ptr" := by
    rintro rfl
    exact absurd hname (by decide)
  have htype := ht _ _ h (by simp [hcomma])
  have hstart :=
    (OperandStyle.parenthesized.begins_count (count.begins_spellings _)).reads hnumber
  have hends : f.current.kind.EndsExpression true := by
    rcases hclosing.closing_current with ⟨hcomma, -⟩ | ⟨hcloses, -⟩
    · rw [hcomma]
      decide
    · exact TokenKind.endsExpression_of_closesAngle hcloses
  refine .inr ⟨hopen, ?_⟩
  rw [outcome_eq]
  simp [Production.ofNonterminal, Production.typeParameters, hptr, htype, hcomma,
    hstart.closesAngle, hname, hcount.count_outcome hnumber hends,
    follow_closeParameters hclosing]

/-! ## Attributes and types -/

/-- Attributes that read back are read to the last of them. -/
theorem attributes_outcome {as : List Attribute} (has : ∀ a ∈ as, a.ReadBack)
    (h : c.Reads (attributesSpellings .parenthesized as) c')
    (hattribute : c'.current.kind ≠ .symbol .attr) (hopen : c'.current.kind ≠ .symbol .parenLeft) :
    attributes.outcome {} c = .accepted as c' := by
  induction as generalizing c with
  | nil =>
    obtain rfl : c = c' := Cursor.reads_one.1 h
    rw [outcome_eq]
    simp [Production.ofNonterminal, Production.attributes, hattribute]
  | cons a as ih =>
    simp only [attributesSpellings, Cursor.reads_mul] at h
    obtain ⟨d, ha, hrest⟩ := h
    have hd : d.current.kind ≠ .symbol .parenLeft := by
      cases as with
      | nil =>
        obtain rfl : d = c' := Cursor.reads_one.1 hrest
        exact hopen
      | cons b bs =>
        obtain ⟨_, hb, -⟩ := Cursor.reads_mul.1 hrest
        rw [(b.begins_spellings _).reads hb]
        decide
    have hhead := has a List.mem_cons_self c d ha hd
    have htail := ih (fun a ha => has a (List.mem_cons_of_mem _ ha)) hrest
    rw [outcome_eq]
    simp [Production.ofNonterminal, Production.attributes, (a.begins_spellings _).reads ha, hhead,
      htail]

/-- An attribute reads back if what it is given does. -/
theorem Attribute.readBack {name : String} {arguments : List Expression} {l : Location}
    (harguments : ∀ e ∈ arguments, e.ReadBack) :
    (⟨name, arguments, l⟩ : Attribute).ReadBack := by
  intro c c' h hc'
  simp only [Attribute.spellings, Cursor.reads_mul, Cursor.reads_symbol, Cursor.reads_token,
    Cursor.reads_add, Cursor.reads_when] at h
  obtain ⟨_, ⟨_, ⟨hc, rfl⟩, ⟨hname, -⟩, rfl⟩, ⟨rfl, rfl⟩ | hlist⟩ := h
  · rw [outcome_eq]
    simp [Production.ofNonterminal, Production.singleAttribute, hc, hname, hc']
  · obtain ⟨hopen, d, hinner, hclose, rfl⟩ := Cursor.reads_parenthesized.1 hlist
    rw [outcome_eq]
    simp [Production.ofNonterminal, Production.singleAttribute, hc, hname, hopen,
      expressions_outcome harguments hinner hclose, hclose]

/-- A type reads back if its attributes and its parameters do. -/
theorem TypeSpecifier.readBack {as : List Attribute} {name : String} {parameters : TypeParameters}
    {l : Location} (has : ∀ a ∈ as, a.ReadBack) (hparameters : parameters.ReadBack name) :
    (⟨as, name, parameters, l⟩ : TypeSpecifier).ReadBack := by
  intro c c' h hc'
  simp only [TypeSpecifier.spellings, Cursor.reads_mul, Cursor.reads_word] at h
  obtain ⟨_, ⟨d, hattributes, hd, rfl⟩, h⟩ := h
  have hkind : d.current.kind = .identifier name := by rw [hd]
  have hlist := attributes_outcome has hattributes (by simp [hkind]) (by simp [hkind])
  rw [outcome_eq]
  rcases hparameters _ _ h with ⟨rfl, rfl⟩ | ⟨hangle, hinner⟩
  · simp [Production.ofNonterminal, Production.type, hlist, hc', hd]
  · simp [Production.ofNonterminal, Production.type, hlist, hangle, hinner, hd]

/-- A `bitcast` reads back if its target and its value do. -/
theorem Expression.readBack_bitcast {target : TypeSpecifier} {value : Expression} {l : Location}
    (htarget : target.ReadBack) (hvalue : value.ReadBack) :
    (Expression.bitcast target value l).ReadBack := by
  refine .of_unary fun c c' h hends _ => ?_
  have htype : (⟨[], "bitcast", .element target none, l⟩ : TypeSpecifier).ReadBack :=
    TypeSpecifier.readBack (by simp)
      (TypeParameters.readBack_element htarget (by decide) (by simp))
  simp only [Expression.spellings, Cursor.reads_mul, Cursor.reads_word, Cursor.reads_mark] at h
  obtain ⟨d, ⟨f, ⟨_, ⟨_, ⟨hc, rfl⟩, hangle, rfl⟩, hf⟩, hclosing⟩, hlist⟩ := h
  obtain ⟨hopen, g, hvalues, hclose, rfl⟩ := Cursor.reads_parenthesized.1 hlist
  have hd : c.Reads ((⟨[], "bitcast", .element target none, l⟩ : TypeSpecifier).spellings
      .parenthesized) d := by
    simp only [TypeSpecifier.spellings, attributesSpellings, TypeParameters.spellings,
      furtherNameSpellings, one_mul, mul_one, Cursor.reads_mul, Cursor.reads_word,
      Cursor.reads_mark]
    exact ⟨_, ⟨hc, rfl⟩, f, ⟨_, ⟨hangle, rfl⟩, hf⟩, hclosing⟩
  have hexpressions : expressions.outcome {} d.advance = .accepted [value] g := by
    refine expressions_outcome (by simpa using hvalue) ?_ hclose
    simp only [expressionsSpellings, Cursor.reads_mul, Cursor.reads_add, Cursor.reads_when,
      Cursor.reads_one, Cursor.reads_optional, Cursor.reads_mark] at hvalues ⊢
    obtain ⟨e, he, rfl | ⟨hcomma, rfl⟩⟩ := hvalues
    · exact ⟨e, he, .inl ⟨True.intro, rfl⟩⟩
    · exact ⟨e, he, .inr ⟨_, ⟨hcomma, rfl⟩, rfl⟩⟩
  have harguments : arguments.outcome {} d = .accepted [value] g.advance := by
    rw [outcome_eq]
    simp [Production.ofNonterminal, Production.arguments, hopen, hexpressions, hclose]
  have hprimary : primary.outcome {} c = .accepted (.bitcast target value l) g.advance := by
    refine primary_construction htype rfl hd hangle hopen ?_
    rw [outcome_eq]
    simp [Production.ofNonterminal, Production.construction, harguments,
      TypeSpecifier.bitcastTarget?, TypeSpecifier.inner?, TypeParameters.type?]
  have hkind : c.current.kind = .identifier "bitcast" := by rw [hc]
  exact unary_outcome (unary?_identifier hkind) (suffixed_outcome hprimary hends)

/-! ## Every tree -/

mutual

/-- A well-shaped expression is read back from its spellings. -/
theorem expression_readBack : (e : Expression) → e.WellShaped → e.ReadBack
  | .literal _ _ _, _ => Expression.readBack_literal
  | .identifier _ _, _ => Expression.readBack_identifier
  | .unary _ operand _, h => Expression.readBack_unary (expression_readBack operand h)
  | .binary _ left right _, h =>
    Expression.readBack_binary (expression_readBack left h.1) (expression_readBack right h.2)
  | .logical _ left right _, h =>
    Expression.readBack_logical (expression_readBack left h.1) (expression_readBack right h.2)
  | .member object _ _, h => Expression.readBack_member (expression_readBack object h)
  | .index object index _, h =>
    Expression.readBack_index (expression_readBack object h.1) (expression_readBack index h.2)
  | .call _ es _, h => Expression.readBack_call h.1 (expressions_readBack es h.2)
  | .construct t es _, h => by
    obtain ⟨htype, hparameters⟩ := type_readBack t h.2.1
    exact Expression.readBack_construct htype hparameters h.1 (expressions_readBack es h.2.2)
  | .bitcast target value _, h => by
    have htarget := (type_readBack target h.1).1
    exact Expression.readBack_bitcast htarget (expression_readBack value h.2)
  | .grouped _ _, h => h.elim

/-- So is a well-shaped type, and with it its parameters. -/
theorem type_readBack : (t : TypeSpecifier) → t.WellShaped →
    t.ReadBack ∧ t.parameters.ReadBack t.name
  | ⟨as, name, parameters, _⟩, h => by
    have hparameters := typeParameters_readBack parameters name h.2
    exact ⟨TypeSpecifier.readBack (attributes_readBack as h.1) hparameters, hparameters⟩

private theorem typeParameters_readBack : (p : TypeParameters) → (name : String) →
    p.WellShaped name → p.ReadBack name
  | .none, _, _ => fun _ _ h => .inl ⟨rfl, Cursor.reads_one.1 h⟩
  | .pointer _ target _, name, h => by
    obtain rfl : name = "ptr" := h.1
    exact TypeParameters.readBack_pointer (type_readBack target h.2).1
  | .element t _, _, h =>
    TypeParameters.readBack_element (type_readBack t h.2.2).1 h.1 h.2.1
  | .counted t count, _, h =>
    TypeParameters.readBack_counted (type_readBack t h.2.1).1
      (expression_readBack count h.2.2) h.1

private theorem attribute_readBack : (a : Attribute) → a.WellShaped → a.ReadBack
  | ⟨_, es, _⟩, h => Attribute.readBack (expressions_readBack es h)

/-- Each of the attributes of a well-shaped list is read back. -/
theorem attributes_readBack : (as : List Attribute) → attributesWellShaped as →
    ∀ a ∈ as, a.ReadBack
  | [], _ => by simp
  | a :: as, h => by
    have hhead := attribute_readBack a h.1
    have htail := attributes_readBack as h.2
    simpa using ⟨hhead, htail⟩

/-- Each of the expressions of a well-shaped list is read back. -/
theorem expressions_readBack : (es : List Expression) → expressionsWellShaped es →
    ∀ e ∈ es, e.ReadBack
  | [], _ => by simp
  | e :: es, h => by
    have hhead := expression_readBack e h.1
    have htail := expressions_readBack es h.2
    simpa using ⟨hhead, htail⟩

end

end Wgsl
