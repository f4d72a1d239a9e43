import Wgsl.Proofs.Spelling.First
import Wgsl.Proofs.Upcoming
import Wgsl.Proofs.Yields

/-!
# What is read is spelled
-/

namespace Wgsl

open Spelling

/-- Read with parentheses kept as nodes. -/
def ReadOptions.keeping : ReadOptions := { keepParentheses := true }

/-! ## Chains -/

/-- The operators and operands of a chain, in source order. -/
def operationsSpellings : List Operation → Language Piece
  | [] => 1
  | o :: chain =>
    symbol o.op.symbol o.location * o.operand.spellings .bare * operationsSpellings chain

private theorem Expression.spellings_join (op : InfixOperator) (left right : Expression)
    (l : Location) :
    (Expression.join op left right l).spellings .bare =
      left.spellings .bare * symbol op.symbol l * right.spellings .bare := by
  cases op <;> rfl

/-- Climbing keeps the order in which operands and operators are written. -/
theorem spellings_climb (minimum : Nat) (left : Expression) (chain : List Operation) :
    (climb minimum left chain).tree.spellings .bare *
        operationsSpellings (climb minimum left chain).rest =
      left.spellings .bare * operationsSpellings chain := by
  fun_induction climb minimum left chain with
  | case1 => rfl
  | case2 => rfl
  | case3 minimum left o chain hle right climbed ihright ih =>
    rw [Expression.spellings_join, mul_assoc, ihright] at ih
    rw [operationsSpellings, ih]
    simp only [mul_assoc]

/-- The tree of a chain is written as the chain is. -/
theorem Expression.spellings_ofChain (first : Expression) (chain : List Operation) :
    (Expression.ofChain first chain).spellings .bare =
      first.spellings .bare * operationsSpellings chain := by
  have h := spellings_climb 1 first chain
  rwa [rest_climb_one, operationsSpellings, mul_one] at h

/-! ## What each nonterminal writes -/

/-- What a nonterminal stands for is written between two places. Where its rule begins behind the
introduction of what it reads, the introduction is taken with it. -/
@[simp] def Nonterminal.Written : (n : Nonterminal) → (c : Cursor) → n.Result → (c' : Cursor) → Prop
  | .attribute, c, a, c' => c.Reads (a.spellings .bare) c'
  | .attributes, c, as, c' => c.Reads (attributesSpellings .bare as) c'
  | .type, c, t, c' => t.name ≠ "bitcast" ∧ c.Reads (t.spellings .bare) c'
  | .constructorType, c, t, c' => t.name ≠ "bitcast" ∧ c.Reads (t.spellings .bare) c'
  | .typeParameters _, c, p, c' =>
    ∀ d : Cursor, d.Reads (mark .lessThan) c → d.Reads (p.spellings .bare) c'
  | .expression _, c, e, c' => c.Reads (e.spellings .bare) c'
  | .unary, c, e, c' => c.Reads (e.spellings .bare) c'
  | .suffixed, c, e, c' => c.Reads (e.spellings .bare) c'
  | .primary, c, e, c' => c.Reads (e.spellings .bare) c'
  | .operations _, c, chain, c' => c.Reads (operationsSpellings chain) c'
  | .suffixes base, c, e, c' =>
    ∀ d : Cursor, d.Reads (base.spellings .bare) c → d.Reads (e.spellings .bare) c'
  | .expressions, c, es, c' => c.Reads (expressionsSpellings .bare es) c'
  | .selectors, c, es, c' => c.Reads (expressionsSpellings .bare es) c'
  | .arguments, c, es, c' => c.Reads (parenthesized (expressionsSpellings .bare es)) c'
  | .construction t l, c, e, c' =>
    ∀ d : Cursor, t.name ≠ "bitcast" → t.attributes = [] ∧ t.location = l →
      d.Reads (t.spellings .bare) c → d.Reads (e.spellings .bare) c'
  | .block _, c, ss, c' => c.Reads (braced (statementsSpellings .bare ss)) c'
  | .storage _, c, s, c' => c.Reads (storageSpellings s) c'
  | .ascription, c, t, c' => c.Reads (ascriptionSpellings .bare t) c'
  | .initializer _, c, e, c' => c.Reads (initializerSpellings .bare e) c'
  | .variable kind l, c, v, c' =>
    ∀ d : Cursor, d.Reads (keyword kind.keyword l) c → d.Reads (v.spellings .bare) c'
  | .simpleStatement, c, s, c' => c.Reads (s.spellings .bare) c'
  | .plainStatement, c, s, c' => c.Reads (s.spellings .bare) c'
  | .statement, c, s, c' => c.Reads (s.spellings .bare) c'
  | .statements, c, ss, c' => c.Reads (statementsSpellings .bare ss) c'
  | .conditional, c, f, c' =>
    ∀ (d : Cursor) l, d.Reads (keyword .if l) c → d.Reads (f.spellings .bare l) c'
  | .alternatives, c, x, c' =>
    c.Reads (alternativesSpellings .bare x.1 * otherwiseSpellings .bare x.2) c'
  | .selection, c, f, c' =>
    ∀ (d : Cursor) l, d.Reads (keyword .switch l) c → d.Reads (f.spellings .bare l) c'
  | .clauses _, c, cs, c' => c.Reads (clausesSpellings .bare cs) c'
  | .forInitializer, c, i, c' => c.Reads (forInitializerSpellings .bare i) c'
  | .forCondition, c, e, c' => c.Reads (valueSpellings .bare e) c'
  | .forUpdate, c, s, c' => c.Reads (forUpdateSpellings .bare s) c'
  | .iteration, c, f, c' =>
    ∀ (d : Cursor) l, d.Reads (keyword .for l) c → d.Reads (f.spellings .bare l) c'
  | .repetition, c, f, c' =>
    ∀ (d : Cursor) l, d.Reads (keyword .while l) c → d.Reads (f.spellings .bare l) c'
  | .loop, c, f, c' =>
    ∀ (d : Cursor) l, d.Reads (keyword .loop l) c → d.Reads (f.spellings .bare l) c'
  | .loopBody, c, x, c' =>
    c.Reads (statementsSpellings .bare x.1 * continuingSpellings .bare x.2) c'
  | .furtherNames, c, ns, c' => c.Reads (furtherNamesSpellings ns) c'
  | .bindings _, c, bs, c' => c.Reads (bindingsSpellings .bare bs) c'
  | .functionResult, c, r, c' => c.Reads (resultSpellings .bare r) c'
  | .function, c, f, c' => ∀ d : Cursor, d.Reads (reserved .fn) c → d.Reads (f.spellings .bare) c'
  | .item, c, i, c' => c.Reads (i.spellings .bare) c'
  | .declaration, c, d, c' => c.Reads (d.spellings .bare) c'
  | .declarations, c, ds, c' => c.Reads (declarationsSpellings .bare ds) c'

/-- The rule shows that what it reads is written so, where there is no `bitcast`. -/
abbrev Nonterminal.Writes (n : Nonterminal) : Prop :=
  n.ShowsAccepted .keeping (Cursor.Lacks (.identifier "bitcast")) Written

namespace Production

open Rule Nonterminal

/-! ## Attributes and types -/

theorem writes_attributes : Writes .attributes := by
  intro c _
  simp only [ofNonterminal, attributes, yields_steps, Written, given_iff, and_imp]
  constructor
  · intro _ a d _ _ ha as c' _ _ has
    simp only [attributesSpellings, Cursor.reads_mul]
    exact ⟨d, ha, has⟩
  · intro _
    simp [attributesSpellings]

theorem writes_attribute : Writes .attribute := by
  intro c _
  simp only [ofNonterminal, singleAttribute, yields_steps]
  intro hat
  split
  · simp
  · rename_i name hname
    have hword : c.advance.Reads (token fun t => t.kind.attributeName? = some name)
        c.advance.advance :=
      Cursor.reads_token.2 ⟨⟨hname, TokenKind.ne_endOfFile_of_attributeName? hname⟩, rfl⟩
    simp only [yields_steps, Written, Attribute.spellings, Cursor.reads_mul, Cursor.reads_symbol,
      Token.eq_mk_location, ↓existsAndEq, and_true, Cursor.reads_add, Cursor.reads_when, given_iff,
      and_imp, Bool.not_eq_true, true_and, true_implies, Bool.true_eq_false, false_implies,
      Bool.false_eq_true]
    constructor
    · intro hopen arguments d _ _ hread hclose
      exact ⟨_, ⟨hat, hword⟩, .inr (by simpa [parenthesized, hopen] using ⟨d, hread, hclose, rfl⟩)⟩
    · intro _
      exact ⟨_, ⟨hat, hword⟩, .inl rfl⟩

theorem writes_type : Writes .type := by
  intro c _
  simp only [ofNonterminal, type, yields_steps, Written, given_iff, Cursor.reads_mark, and_imp,
    Bool.not_eq_true, true_implies, Bool.true_eq_false, false_implies, and_true, Bool.false_eq_true,
    true_and]
  intro attributes d _ hlacks hattributes name hname
  refine ⟨fun hopen parameters c' _ _ hparameters => ?_, fun _ => ?_⟩
  · refine ⟨hlacks.name_ne hname, ?_⟩
    simp only [TypeSpecifier.spellings, Cursor.reads_mul, Cursor.reads_word]
    exact ⟨_, ⟨d, hattributes, Token.eq_mk_location.2 hname, rfl⟩, hparameters _ hopen rfl⟩
  · refine ⟨hlacks.name_ne hname, ?_⟩
    simp only [TypeSpecifier.spellings, TypeParameters.spellings, mul_one, Cursor.reads_mul,
      Cursor.reads_word]
    exact ⟨d, hattributes, Token.eq_mk_location.2 hname, rfl⟩

theorem writes_constructorType : Writes .constructorType := by
  intro c _
  simp only [ofNonterminal, constructorType, yields_steps, Written, implies_true, and_true,
    given_iff, and_imp]
  intro t c' _ _ hname ht _
  exact ⟨hname, ht⟩

/-! ## Expressions -/

theorem writes_expression (inAngles : Bool) : Writes (.expression inAngles) := by
  intro c _
  simp only [ofNonterminal, expression, yields_steps, Written, given_iff, and_imp]
  intro first d _ _ hfirst chain c' _ _ hchain
  rw [Expression.spellings_ofChain, Cursor.reads_mul]
  exact ⟨d, hfirst, hchain⟩

theorem writes_operations (inAngles : Bool) : Writes (.operations inAngles) := by
  intro c _
  simp only [ofNonterminal, operations, Bool.and_eq_true, yields_steps]
  split
  · simp [operationsSpellings]
  · rename_i op hop
    simp only [yields_steps, Written, operationsSpellings, Cursor.reads_one, implies_true,
      Cursor.reads_mul, Cursor.reads_symbol, Token.eq_mk_location, ↓existsAndEq, and_true,
      given_iff, and_imp, true_and]
    intro _ operand d _ _ hoperand chain c' _ _ hchain
    exact ⟨d, ⟨TokenKind.infix?_eq_some_iff.1 hop, hoperand⟩, hchain⟩

theorem writes_unary : Writes .unary := by
  intro c _
  simp only [ofNonterminal, unary, yields_steps]
  split
  · simp
  · rename_i op hop
    simp only [yields_steps, Written, Expression.spellings, Cursor.reads_mul, Cursor.reads_symbol,
      Token.eq_mk_location, ↓existsAndEq, and_true, given_iff, and_imp]
    intro operand c' _ _ hoperand
    exact ⟨TokenKind.unary?_eq_some_iff.1 hop, hoperand⟩

theorem writes_suffixed : Writes .suffixed := by
  intro c _
  simp only [ofNonterminal, suffixed, yields_steps, given_iff, and_imp]
  intro base d _ _ hbase e c' _ _ he
  exact he c hbase

theorem writes_suffixes (base : Expression) : Writes (.suffixes base) := by
  intro c _
  simp only [ofNonterminal, suffixes, yields_steps]
  split
  · rename_i hopen
    simp only [yields_steps, given_iff, Written, Expression.spellings, Cursor.reads_mul,
      Cursor.reads_symbol, ↓existsAndEq, and_true, Cursor.reads_mark, forall_exists_index, and_imp]
    intro index d _ _ hindex hclose e c' _ _ he b hbase
    exact he b d c hbase (Token.eq_mk_location.2 hopen) hindex hclose rfl
  · rename_i hopen
    simp only [yields_steps, given_iff, Written, Expression.spellings, Cursor.reads_mul,
      Cursor.reads_symbol, Cursor.reads_named, ↓existsAndEq, and_true, forall_exists_index, and_imp]
    intro name hname e c' _ _ he b hbase
    exact he b c hbase (Token.eq_mk_location.2 hopen) hname rfl
  · split
    · simp only [yields_steps, given_iff, Written, Expression.spellings, Cursor.reads_mul,
        Cursor.reads_word, ↓existsAndEq, and_true, and_imp]
      intro arguments d _ _ harguments e c' _ _ he b hcallee hc
      exact he b hcallee (hc ▸ harguments)
    · simp
  · simp

theorem writes_construction (t : TypeSpecifier) (l : Location) : Writes (.construction t l) := by
  intro c _
  simp only [ofNonterminal, construction, yields_steps, given_iff, and_imp]
  intro arguments d _ _ harguments
  split
  · simp only [yields_steps, Written, Expression.spellings, Cursor.reads_mul, Cursor.reads_when,
      ↓existsAndEq, and_true, and_imp]
    intro b _ hattributes hl ht
    exact ⟨c, ⟨⟨hattributes, hl⟩, ht⟩, harguments⟩
  · rename_i htarget
    simp only [yields_steps, Written, ne_eq, and_imp]
    intro b hname
    simp [TypeSpecifier.bitcastTarget?, hname] at htarget
  · simp

theorem writes_expressions : Writes .expressions := by
  intro c _
  simp only [ofNonterminal, expressions, yields_steps, Written, Bool.not_eq_true, given_iff,
    and_imp, true_implies, Bool.true_eq_false, false_implies, and_true]
  refine ⟨fun _ => by simp [expressionsSpellings], fun _ e d _ _ he => ⟨?_, fun _ => ?_⟩⟩
  · intro hcomma es c' _ _ hes
    simp only [expressionsSpellings, Cursor.reads_mul, Cursor.reads_add, Cursor.reads_mark,
      ↓existsAndEq, and_true]
    exact ⟨d, he, .inr ⟨hcomma, hes⟩⟩
  · simpa [expressionsSpellings] using ⟨d, he, .inl rfl⟩

theorem writes_arguments : Writes .arguments := by
  intro c _
  simp only [ofNonterminal, arguments, yields_steps, given_iff, and_imp]
  intro hopen es d _ _ hes hclose
  simpa [parenthesized, hopen] using ⟨d, hes, hclose, rfl⟩

theorem writes_primary : Writes .primary := by
  intro c _
  simp only [ofNonterminal, primary, ReadOptions.keeping, ↓reduceIte, yields_steps]
  split
  · rename_i spelling hnumber
    simp only [yields_steps, Written, Expression.spellings]
    exact Cursor.reads_token.2 ⟨by simp [hnumber, TokenKind.literal?], rfl⟩
  · rename_i htrue
    simp only [yields_steps, Written, Expression.spellings]
    exact Cursor.reads_token.2 ⟨by simp [htrue, TokenKind.literal?], rfl⟩
  · rename_i hfalse
    simp only [yields_steps, Written, Expression.spellings]
    exact Cursor.reads_token.2 ⟨by simp [hfalse, TokenKind.literal?], rfl⟩
  · rename_i hopen
    simp only [yields_steps, Written, Expression.spellings, Cursor.reads_mul, Cursor.reads_symbol,
      Token.eq_mk_location, ↓existsAndEq, and_true, Cursor.reads_mark, given_iff, and_imp]
    intro inner d _ _ hinner hclose
    exact ⟨d, ⟨hopen, hinner⟩, hclose, rfl⟩
  · rename_i name hname
    simp only [yields_steps]
    split
    · simp only [yields_steps, given_iff, Written, and_imp, Expression.spellings, Cursor.reads_word,
        Token.eq_mk_location, hname, and_true]
      intro t d _ _ htname ht e c' _ _ he
      have hfirst := ht.type_of_identifier hname
      exact he c htname hfirst.1 (by rw [hfirst.2]) ht
    · simp [Expression.spellings, TypeSpecifier.spellings, TypeParameters.spellings,
        attributesSpellings, hname]
    · simp [Expression.spellings, hname]
  · simp

/-! ## Parameters of types -/

variable {given : (n : Nonterminal) → Cursor → n.Result → Cursor → Prop} {c : Cursor}

/-- The end of type parameters is an angle, perhaps behind a comma. -/
theorem closeParameters_reads {typeName : String} {Q : Unit → Cursor → Prop}
    (h : ∀ c', c.Reads closing c' → Q () c') : (closeParameters typeName).Yields given c Q := by
  simp only [closeParameters, yields_steps, ne_eq]
  refine ⟨fun hcomma => ⟨fun hangle => h _ ?_, fun hangle => h _ ?_⟩,
    fun _ => ⟨fun hangle => h _ ?_, fun hangle => h _ ?_⟩⟩
  · simp [closing, hcomma, hangle]
  · simp [closing, hcomma, hangle]
  · simp [closing, hangle]
  · simp [closing, hangle]

/-- A comma before the end of type parameters is the comma that may stand there. -/
theorem reads_closing_of_comma {c' : Cursor} (hcomma : c.current.kind = .symbol .comma)
    (hcloses : c.advance.current.kind.closesAngle) (h : c.advance.Reads closing c') :
    c.Reads closing c' := by
  have hne : c.advance.current.kind ≠ .symbol .comma := by
    intro hcomma'
    simp [hcomma', TokenKind.closesAngle] at hcloses
  simp only [closing, Cursor.reads_mul, Cursor.reads_optional, Cursor.reads_mark, hne,
    false_and, or_false] at h
  simp only [closing, Cursor.reads_mul, Cursor.reads_optional, Cursor.reads_mark]
  obtain ⟨_, rfl, h⟩ := h
  exact ⟨_, .inr ⟨hcomma, rfl⟩, h⟩

theorem writes_typeParameters (typeName : String) : Writes (.typeParameters typeName) := by
  intro c _
  simp only [ofNonterminal, typeParameters, Bool.or_eq_true, yields_steps, Bool.not_eq_true,
    yields_furtherParameter, Bool.not_eq_eq_eq_not, Bool.false_eq_true, false_implies, true_implies,
    true_and, given_iff, and_imp, not_or]
  constructor
  · intro _ storageClass hstorage hcomma target d _ _ htarget
    have hwritten : ∀ (accessMode : Option String) (e c' : Cursor),
        d.Reads (furtherNameSpellings accessMode) e → e.Reads closing c' →
          (Nonterminal.typeParameters typeName).Written c
            (.pointer storageClass target accessMode) c' := by
      intro accessMode e c' haccess hclosing b hopen
      simp only [TypeParameters.spellings, Cursor.reads_mul, Cursor.reads_mark, Cursor.reads_named]
      simp only [Cursor.reads_mark] at hopen
      exact ⟨e, ⟨d, ⟨_, ⟨_, ⟨c, hopen, hstorage, rfl⟩, hcomma, rfl⟩, htarget.2⟩, haccess⟩, hclosing⟩
    refine ⟨fun hcomma' => ⟨fun _ name hname => ?_, fun hcloses => ?_⟩, fun _ => ?_⟩
    · refine closeParameters_reads fun c' hclosing => ?_
      exact hwritten (some name) _ c' (by simp [furtherNameSpellings, hcomma', hname]) hclosing
    · refine closeParameters_reads fun c' hclosing => ?_
      exact hwritten none d c' (by simp [furtherNameSpellings])
        (reads_closing_of_comma hcomma' hcloses hclosing)
    · refine closeParameters_reads fun c' hclosing => ?_
      exact hwritten none d c' (by simp [furtherNameSpellings]) hclosing
  · intro _ element d _ _ helement
    have hwritten : ∀ (accessMode : Option String) (e c' : Cursor),
        d.Reads (furtherNameSpellings accessMode) e → e.Reads closing c' →
          (Nonterminal.typeParameters typeName).Written c (.element element accessMode) c' := by
      intro accessMode e c' haccess hclosing b hopen
      simp only [TypeParameters.spellings, Cursor.reads_mul]
      exact ⟨e, ⟨d, ⟨c, hopen, helement.2⟩, haccess⟩, hclosing⟩
    refine ⟨fun hcomma => ⟨fun _ => ⟨fun _ count e _ _ hcount => ?_, fun _ _ name hname => ?_⟩,
      fun hcloses => ?_⟩, fun _ => ?_⟩
    · refine closeParameters_reads fun c' hclosing b hopen => ?_
      simp only [TypeParameters.spellings, Cursor.reads_mul, Cursor.reads_mark]
      simp only [Cursor.reads_mark] at hopen
      exact ⟨e, ⟨_, ⟨d, ⟨c, hopen, helement.2⟩, hcomma, rfl⟩, hcount⟩, hclosing⟩
    · refine closeParameters_reads fun c' hclosing => ?_
      exact hwritten (some name) _ c' (by simp [furtherNameSpellings, hcomma, hname]) hclosing
    · refine closeParameters_reads fun c' hclosing => ?_
      exact hwritten none d c' (by simp [furtherNameSpellings])
        (reads_closing_of_comma hcomma hcloses hclosing)
    · refine closeParameters_reads fun c' hclosing => ?_
      exact hwritten none d c' (by simp [furtherNameSpellings]) hclosing

end Production

end Wgsl
