import Mathlib.Data.List.Chain
import Wgsl.Proofs.Spelling.Written.Expression
import Wgsl.Proofs.WholeFile

/-!
# What has been closed is not called

Where parentheses are kept as nodes, only a name is called. So in all that is accepted, no token
opens parentheses right behind one that closes some (`Token.Apart`).

The rules are read backwards: if the tokens behind a nonterminal are apart, so are those from its
beginning. Whether the token before counts as well is part of the statement (`ApartBehind`). It
does for what cannot begin with a parenthesis, and so may stand behind one that closes.
-/

namespace Wgsl

open Nonterminal

/-- The second token does not open parentheses right behind the first, which closes some. -/
def Token.Apart (t u : Token) : Prop :=
  t.kind = .symbol .parenRight → u.kind ≠ .symbol .parenLeft

/-- A token with a meaning is not one without. -/
theorem TokenKind.ne_of_eq_some {α : Type} {meaning : TokenKind → Option α} {k k' : TokenKind}
    {a : α} (h : meaning k = some a) (h' : meaning k' = none) : k ≠ k' := by
  rintro rfl
  simp [h'] at h

namespace Cursor

/-- No upcoming token opens parentheses right behind one that closes some. -/
def Apart (c : Cursor) : Prop := c.upcoming.IsChain Token.Apart

/-- The upcoming tokens are apart, and the first of them is so from a token that closes
parentheses, if there was one. -/
def ApartBehind (closed : Prop) (c : Cursor) : Prop :=
  (closed → c.current.kind ≠ .symbol .parenLeft) ∧ c.Apart

variable {c : Cursor} {closed : Prop}

/-- The tokens behind one are apart where all are. -/
theorem Apart.advance (h : c.Apart) : c.advance.Apart := by
  rw [Apart, upcoming_advance]
  exact List.IsChain.tail h

/-- Splitting a token leaves the tokens apart. -/
theorem Apart.split (h : c.Apart) : c.split.Apart := by
  rw [Apart, upcoming_split]
  exact h

/-- One token more before tokens that are apart. -/
theorem ApartBehind.of_advance
    (h : c.advance.ApartBehind (c.current.kind = .symbol .parenRight))
    (hc : closed → c.current.kind ≠ .symbol .parenLeft) : c.ApartBehind closed := by
  refine ⟨hc, ?_⟩
  obtain ⟨hclosed, hrest⟩ := h
  rw [Apart, upcoming_advance] at hrest
  rw [Apart]
  cases hu : c.upcoming with
  | nil => exact List.isChain_nil
  | cons t ts =>
    rw [hu, List.tail_cons] at hrest
    refine List.isChain_cons.2 ⟨fun u hu' ht => ?_, hrest⟩
    have hsame : c.current = t := by
      rw [current, hu]
      exact Token.afterAngles_of_none (by simp [Token.afterAngle?, ht, Symbol.afterAngle?]) _
    have hnext : c.advance.current = u := by
      rw [current, advance, hu]
      cases ts with
      | nil => simp at hu'
      | cons v vs =>
        simp only [List.head?_cons, Option.mem_def, Option.some.injEq] at hu'
        exact hu'
    have hkind : c.current.kind = .symbol .parenRight := by rw [hsame, ht]
    exact hnext ▸ hclosed hkind

/-- Every token but a parenthesis separates what stands around it. -/
@[grind →]
theorem ApartBehind.of_token (h : c.advance.ApartBehind False) :
    c.current.kind = .symbol .parenLeft ∨ c.current.kind = .symbol .parenRight ∨
      c.ApartBehind True := by
  by_cases hopen : c.current.kind = .symbol .parenLeft
  · exact .inl hopen
  by_cases hclose : c.current.kind = .symbol .parenRight
  · exact .inr (.inl hclose)
  · exact .inr (.inr (.of_advance ⟨fun hclosed => absurd hclosed hclose, h.2⟩ fun _ => hopen))

/-- A `(` stands apart from what follows it. -/
@[grind →]
theorem ApartBehind.of_open (h : c.advance.ApartBehind False)
    (hc : c.current.kind = .symbol .parenLeft) : c.ApartBehind False :=
  .of_advance ⟨fun hclosed => by simp [hc] at hclosed, h.2⟩ False.elim

/-- A `)` stands apart from what follows, if that is no `(`. -/
@[grind →]
theorem ApartBehind.of_close (h : c.advance.ApartBehind True)
    (hc : c.current.kind = .symbol .parenRight) : c.ApartBehind True :=
  .of_advance ⟨fun _ => h.1 True.intro, h.2⟩ fun _ => by simp [hc]

/-- A `>` that is split off its token separates what stands around it. -/
@[grind →]
theorem ApartBehind.of_split (h : c.split.ApartBehind False) (hc : c.current.afterAngle?.isSome) :
    c.ApartBehind True := by
  refine ⟨fun _ hopen => ?_, ?_⟩
  · simp [Token.afterAngle?, hopen, Symbol.afterAngle?] at hc
  · have hrest := h.2
    rwa [Apart, upcoming_split] at hrest

private theorem ApartBehind.weaken (h : c.ApartBehind True) : c.ApartBehind closed :=
  ⟨fun _ => h.1 True.intro, h.2⟩

/-- What stands apart behind a `)` stands apart. -/
@[grind →]
theorem ApartBehind.of_closed (h : c.ApartBehind True) : c.ApartBehind False := h.weaken

end Cursor

/-! ## What each nonterminal keeps apart -/

/-- The expression is a name, so it may be called. -/
@[simp] def Expression.IsIdentifier : Expression → Prop
  | .identifier .. => True
  | _ => False

namespace Nonterminal

/-- What the nonterminal stands for never begins with a parenthesis that opens. -/
@[simp] def Closed : Nonterminal → Prop
  | .attribute | .type | .operations _ | .block _ | .functionResult | .item => True
  | _ => False

/-- What the nonterminal stands for may end with a parenthesis that closes. -/
@[simp] def Closes : Nonterminal → Prop
  | .attribute | .expression _ | .operations _ | .unary | .suffixed | .expressions | .arguments
  | .initializer _ | .variable _ _ | .simpleStatement | .selectors
  | .forInitializer | .forCondition | .forUpdate | .functionResult => True
  | _ => False

/-- If the tokens behind a nonterminal are apart, so are those from its beginning. -/
@[simp] def StaysApart : (n : Nonterminal) → Cursor → n.Result → Cursor → Prop
  | .attributes, c, as, c' => (c'.ApartBehind True → c.ApartBehind True) ∧ (as = [] → c = c')
  | .primary, c, e, c' =>
    (c'.ApartBehind True → c.ApartBehind False) ∧
      (e.IsIdentifier → c'.ApartBehind False → c.ApartBehind False)
  | .construction _ _, c, e, c' =>
    (c'.ApartBehind True → c.ApartBehind False) ∧ ¬e.IsIdentifier
  | .suffixes base, c, _, c' =>
    c'.ApartBehind True → c.ApartBehind False ∧ (¬base.IsIdentifier → c.ApartBehind True)
  | n, c, _, c' => c'.ApartBehind n.Closes → c.ApartBehind n.Closed

/-- The rule shows that what is read with parentheses kept stays apart. -/
abbrev ShowsApart (n : Nonterminal) : Prop :=
  n.ShowsAccepted .keeping (fun _ => True) StaysApart

end Nonterminal

namespace Production

open Rule Nonterminal Cursor

private theorem apart_attributes : ShowsApart .attributes := by
  intro c _
  simp only [ofNonterminal, attributes, yields_steps, StaysApart, given_iff, Nonterminal.Closes,
    Closed]
  grind

private theorem apart_attribute : ShowsApart .attribute := by
  intro c _
  simp only [ofNonterminal, singleAttribute, yields_steps]
  intro hat
  split
  · simp
  · rename_i name hname
    have hopen : c.advance.current.kind ≠ .symbol .parenLeft := TokenKind.ne_of_eq_some hname rfl
    have hclose : c.advance.current.kind ≠ .symbol .parenRight := TokenKind.ne_of_eq_some hname rfl
    simp only [yields_steps, StaysApart, Nonterminal.Closes, Closed, given_iff]
    grind

private theorem apart_type : ShowsApart .type := by
  intro c _
  simp only [ofNonterminal, type, yields_steps, StaysApart, Nonterminal.Closes, Closed, given_iff]
  grind

/-- The end of type parameters separates what stands around it. -/
theorem closeParameters_apart {given : (n : Nonterminal) → Cursor → n.Result → Cursor → Prop}
    {c : Cursor} {typeName : String} {Q : Unit → Cursor → Prop}
    (h : ∀ c', (c'.ApartBehind False → c.ApartBehind True) → Q () c') :
    (closeParameters typeName).Yields given c Q := by
  simp only [closeParameters, yields_steps, ne_eq]
  refine ⟨fun hcomma => ⟨fun hangle => h _ fun hrest => ?_, fun hangle => h _ fun hrest => ?_⟩,
    fun _ => ⟨fun hangle => h _ fun hrest => ?_, fun hangle => h _ fun hrest => ?_⟩⟩ <;> grind

private theorem apart_typeParameters (typeName : String) :
    ShowsApart (.typeParameters typeName) := by
  intro c _
  simp only [ofNonterminal, typeParameters, Bool.or_eq_true, yields_steps, StaysApart,
    Nonterminal.Closes, Closed, Bool.not_eq_true, yields_furtherParameter, Bool.false_eq_true,
    false_implies, true_implies, true_and, given_iff, not_or, and_imp]
  constructor
  · intro _ storageClass hstorage hcomma target d htarget
    refine ⟨fun hcomma' => ⟨fun _ name hname => ?_, fun _ => ?_⟩, fun _ => ?_⟩
    all_goals
      refine closeParameters_apart fun c' hclosing => ?_
      grind
  · intro _ element d helement
    refine ⟨fun hcomma => ⟨fun _ => ⟨fun _ count e hcount => ?_, fun _ _ name hname => ?_⟩,
      fun _ => ?_⟩, fun _ => ?_⟩
    all_goals
      refine closeParameters_apart fun c' hclosing => ?_
      grind

private theorem apart_constructorType : ShowsApart .constructorType := by
  intro c _
  simp only [ofNonterminal, constructorType, yields_steps, StaysApart, Nonterminal.Closes, Closed,
    given_iff]
  grind

private theorem apart_expression (inAngles : Bool) : ShowsApart (.expression inAngles) := by
  intro c _
  simp only [ofNonterminal, expression, yields_steps, StaysApart, Nonterminal.Closes, Closed,
    given_iff]
  grind

private theorem apart_operations (inAngles : Bool) : ShowsApart (.operations inAngles) := by
  intro c _
  simp only [ofNonterminal, operations, Bool.and_eq_true, yields_steps]
  split
  · simp
  · rename_i op hop
    have hopen : c.current.kind ≠ .symbol .parenLeft := TokenKind.ne_of_eq_some hop rfl
    have hclose : c.current.kind ≠ .symbol .parenRight := TokenKind.ne_of_eq_some hop rfl
    simp only [yields_steps, StaysApart, Nonterminal.Closes, Closed, given_iff]
    grind

private theorem apart_unary : ShowsApart .unary := by
  intro c _
  simp only [ofNonterminal, unary, yields_steps]
  split
  · simp
  · rename_i op hop
    have hopen : c.current.kind ≠ .symbol .parenLeft := TokenKind.ne_of_eq_some hop rfl
    have hclose : c.current.kind ≠ .symbol .parenRight := TokenKind.ne_of_eq_some hop rfl
    simp only [yields_steps, StaysApart, Closed, given_iff]
    grind

private theorem apart_suffixed : ShowsApart .suffixed := by
  intro c _
  simp only [ofNonterminal, suffixed, yields_steps, given_iff, StaysApart, Nonterminal.Closes,
    Closed]
  grind

private theorem apart_suffixes (base : Expression) : ShowsApart (.suffixes base) := by
  intro c _
  simp only [ofNonterminal, suffixes, yields_steps]
  split
  · rename_i hopen
    simp only [yields_steps, given_iff, StaysApart, Nonterminal.Closes, Closed]
    grind
  · rename_i hopen
    simp only [yields_steps, given_iff, StaysApart]
    grind
  · split
    · simp only [yields_steps, given_iff, StaysApart, Nonterminal.Closes, Closed]
      grind [Expression.IsIdentifier]
    · simp
  · simp only [yields_steps, StaysApart, Expression.IsIdentifier]
    grind

private theorem apart_construction (t : TypeSpecifier) (l : Location) :
    ShowsApart (.construction t l) := by
  intro c _
  simp only [ofNonterminal, construction, yields_steps]
  intro arguments d harguments
  split <;> simp_all

private theorem apart_expressions : ShowsApart .expressions := by
  intro c _
  simp only [ofNonterminal, expressions, yields_steps, StaysApart, Nonterminal.Closes, Closed,
    given_iff]
  grind

private theorem apart_arguments : ShowsApart .arguments := by
  intro c _
  simp only [ofNonterminal, arguments, yields_steps, StaysApart, Nonterminal.Closes, Closed,
    given_iff]
  grind

private theorem apart_primary : ShowsApart .primary := by
  intro c _
  simp only [ofNonterminal, primary, ReadOptions.keeping, ↓reduceIte, yields_steps]
  split
  · simp only [yields_steps, StaysApart, Expression.IsIdentifier, false_implies, and_true]
    grind
  · simp only [yields_steps, StaysApart, Expression.IsIdentifier, false_implies, and_true]
    grind
  · simp only [yields_steps, StaysApart, Expression.IsIdentifier, false_implies, and_true]
    grind
  · simp only [yields_steps, StaysApart, Expression.IsIdentifier, given_iff, Nonterminal.Closes,
      Closed]
    grind
  · rename_i name hname
    simp only [yields_steps]
    split
    · simp only [yields_steps, given_iff, StaysApart, Nonterminal.Closes, Closed]
      grind
    · simp only [yields_steps, StaysApart, Expression.IsIdentifier, given_iff, Nonterminal.Closes,
        Closed]
      grind
    · simp only [yields_steps, StaysApart, Expression.IsIdentifier, true_implies]
      grind
  · simp

/-! ## Variables and statements -/

private theorem apart_block (place : String) : ShowsApart (.block place) := by
  intro c _
  simp only [ofNonterminal, block, yields_steps, StaysApart, Nonterminal.Closes, Closed, given_iff]
  grind

private theorem apart_storage (kind : VariableKind) : ShowsApart (.storage kind) := by
  intro c _
  simp only [ofNonterminal, storage, yields_steps, StaysApart, Nonterminal.Closes, Closed]
  grind

private theorem apart_ascription : ShowsApart .ascription := by
  intro c _
  simp only [ofNonterminal, ascription, yields_steps, StaysApart, Nonterminal.Closes, Closed,
    given_iff]
  grind

private theorem apart_initializer (kind : VariableKind) : ShowsApart (.initializer kind) := by
  intro c _
  simp only [ofNonterminal, initializer, yields_steps, StaysApart, Nonterminal.Closes, Closed,
    given_iff]
  grind

private theorem apart_variable (kind : VariableKind) (l : Location) :
    ShowsApart (.variable kind l) := by
  intro c _
  simp only [ofNonterminal, variableDeclaration, yields_steps, StaysApart, Nonterminal.Closes,
    Closed, given_iff]
  grind

private theorem apart_simpleStatement : ShowsApart .simpleStatement := by
  intro c _
  simp only [ofNonterminal, simpleStatement, yields_steps, given_iff]
  intro target d htarget
  split
  · rename_i op _ hop
    have hopen : d.current.kind ≠ .symbol .parenLeft := TokenKind.ne_of_eq_some hop rfl
    have hclose : d.current.kind ≠ .symbol .parenRight := TokenKind.ne_of_eq_some hop rfl
    simp only [yields_steps, StaysApart, Nonterminal.Closes, Closed, given_iff] at htarget ⊢
    grind
  · rename_i op _ hop
    have hopen : d.current.kind ≠ .symbol .parenLeft := TokenKind.ne_of_eq_some hop rfl
    have hclose : d.current.kind ≠ .symbol .parenRight := TokenKind.ne_of_eq_some hop rfl
    simp only [yields_steps, StaysApart, Nonterminal.Closes, Closed] at htarget ⊢
    grind
  · simp only [yields_steps, StaysApart, Nonterminal.Closes, Closed] at htarget ⊢
    grind
  · simp

private theorem apart_plainStatement : ShowsApart .plainStatement := by
  intro c _
  simp only [ofNonterminal, plainStatement, yields_steps]
  split
  iterate 6
    · simp only [yields_steps, StaysApart, Nonterminal.Closes, Closed, given_iff, condition]
      grind
  · split
    · rename_i kind hkind
      have hopen : c.current.kind ≠ .symbol .parenLeft := TokenKind.ne_of_eq_some hkind rfl
      have hclose : c.current.kind ≠ .symbol .parenRight := TokenKind.ne_of_eq_some hkind rfl
      simp only [yields_steps, StaysApart, Nonterminal.Closes, Closed, given_iff]
      grind
    · simp only [yields_steps, StaysApart, Nonterminal.Closes, Closed, given_iff]
      grind

private theorem apart_statement : ShowsApart .statement := by
  intro c _
  simp only [ofNonterminal, statement, yields_steps, given_iff, and_imp]
  intro attributes d hattributes hnil
  split
  iterate 6
    · simp only [yields_steps, StaysApart, Nonterminal.Closes, Closed, given_iff]
      grind
  · simp only [yields_steps, given_iff, StaysApart, Nonterminal.Closes, Closed]
    grind

private theorem apart_statements : ShowsApart .statements := by
  intro c _
  simp only [ofNonterminal, statements, yields_steps]
  split <;> simp <;> grind

private theorem apart_conditional : ShowsApart .conditional := by
  intro c _
  simp only [ofNonterminal, conditional, condition, yields_steps, StaysApart, Nonterminal.Closes,
    Closed, given_iff]
  grind

private theorem apart_alternatives : ShowsApart .alternatives := by
  intro c _
  simp only [ofNonterminal, alternatives, condition, yields_steps, StaysApart, Nonterminal.Closes,
    Closed, given_iff]
  grind

private theorem apart_selection : ShowsApart .selection := by
  intro c _
  simp only [ofNonterminal, selection, condition, yields_steps, StaysApart, Nonterminal.Closes,
    Closed, given_iff]
  grind

private theorem apart_clauses (hasDefault : Bool) : ShowsApart (.clauses hasDefault) := by
  intro c _
  simp only [ofNonterminal, clauses, yields_steps]
  split <;> simp <;> grind

private theorem apart_selectors : ShowsApart .selectors := by
  intro c _
  simp only [ofNonterminal, selectors, yields_steps, StaysApart, Nonterminal.Closes, Closed,
    given_iff]
  grind

private theorem apart_forInitializer : ShowsApart .forInitializer := by
  intro c _
  simp only [ofNonterminal, forInitializer, yields_steps, StaysApart, Nonterminal.Closes, Closed]
  refine ⟨fun _ => by grind, fun _ => ?_⟩
  · split
    · rename_i kind hkind
      have hopen : c.current.kind ≠ .symbol .parenLeft := TokenKind.ne_of_eq_some hkind rfl
      have hclose : c.current.kind ≠ .symbol .parenRight := TokenKind.ne_of_eq_some hkind rfl
      simp only [yields_steps, StaysApart, Nonterminal.Closes, Closed, given_iff]
      grind
    · simp

private theorem apart_forCondition : ShowsApart .forCondition := by
  intro c _
  simp only [ofNonterminal, forCondition, yields_steps, StaysApart, Nonterminal.Closes, Closed,
    given_iff]
  grind

private theorem apart_forUpdate : ShowsApart .forUpdate := by
  intro c _
  simp only [ofNonterminal, forUpdate, yields_steps, StaysApart, Nonterminal.Closes, Closed,
    given_iff]
  grind

private theorem apart_iteration : ShowsApart .iteration := by
  intro c _
  simp only [ofNonterminal, iteration, yields_steps, StaysApart, Nonterminal.Closes, Closed,
    given_iff]
  grind

private theorem apart_repetition : ShowsApart .repetition := by
  intro c _
  simp only [ofNonterminal, repetition, condition, yields_steps, StaysApart, Nonterminal.Closes,
    Closed, given_iff]
  grind

private theorem apart_loop : ShowsApart .loop := by
  intro c _
  simp only [ofNonterminal, loop, yields_steps, StaysApart, Nonterminal.Closes, Closed, given_iff]
  grind

private theorem apart_loopBody : ShowsApart .loopBody := by
  intro c _
  simp only [ofNonterminal, loopBody, yields_steps]
  split <;> simp <;> grind

/-! ## Declarations -/

private theorem apart_furtherNames : ShowsApart .furtherNames := by
  intro c _
  simp only [ofNonterminal, furtherNames, yields_steps, StaysApart, Nonterminal.Closes, Closed,
    given_iff]
  grind

private theorem apart_bindings (role : BindingRole) : ShowsApart (.bindings role) := by
  intro c _
  simp only [ofNonterminal, bindings, yields_steps, StaysApart, Nonterminal.Closes, Closed,
    given_iff]
  grind

private theorem apart_functionResult : ShowsApart .functionResult := by
  intro c _
  simp only [ofNonterminal, functionResult, yields_steps, StaysApart, Nonterminal.Closes, Closed,
    given_iff]
  grind

private theorem apart_function : ShowsApart .function := by
  intro c _
  simp only [ofNonterminal, function, yields_steps, StaysApart, Nonterminal.Closes, Closed,
    given_iff]
  grind

private theorem apart_item : ShowsApart .item := by
  intro c _
  simp only [ofNonterminal, item, String.reduceAppend, yields_steps]
  split
  iterate 9
    · simp only [yields_steps, StaysApart, Nonterminal.Closes, Closed, given_iff, condition]
      try grind
  · split
    · rename_i kind hkind
      have hopen : c.current.kind ≠ .symbol .parenLeft := TokenKind.ne_of_eq_some hkind rfl
      have hclose : c.current.kind ≠ .symbol .parenRight := TokenKind.ne_of_eq_some hkind rfl
      simp only [yields_steps, StaysApart, Nonterminal.Closes, Closed, given_iff]
      grind
    · simp

private theorem apart_declaration : ShowsApart .declaration := by
  intro c _
  simp only [ofNonterminal, declaration, yields_steps, StaysApart, Nonterminal.Closes, Closed,
    given_iff]
  grind

private theorem apart_declarations : ShowsApart .declarations := by
  intro c _
  simp only [ofNonterminal, declarations, yields_steps]
  split <;> simp <;> grind

/-- What every rule reads stays apart. -/
theorem apart : (n : Nonterminal) → ShowsApart n
  | .attribute => apart_attribute
  | .attributes => apart_attributes
  | .type => apart_type
  | .typeParameters typeName => apart_typeParameters typeName
  | .constructorType => apart_constructorType
  | .expression inAngles => apart_expression inAngles
  | .operations inAngles => apart_operations inAngles
  | .unary => apart_unary
  | .suffixed => apart_suffixed
  | .suffixes base => apart_suffixes base
  | .primary => apart_primary
  | .expressions => apart_expressions
  | .arguments => apart_arguments
  | .construction type l => apart_construction type l
  | .block place => apart_block place
  | .storage kind => apart_storage kind
  | .ascription => apart_ascription
  | .initializer kind => apart_initializer kind
  | .variable kind l => apart_variable kind l
  | .simpleStatement => apart_simpleStatement
  | .plainStatement => apart_plainStatement
  | .statement => apart_statement
  | .statements => apart_statements
  | .conditional => apart_conditional
  | .alternatives => apart_alternatives
  | .selection => apart_selection
  | .clauses hasDefault => apart_clauses hasDefault
  | .selectors => apart_selectors
  | .forInitializer => apart_forInitializer
  | .forCondition => apart_forCondition
  | .forUpdate => apart_forUpdate
  | .iteration => apart_iteration
  | .repetition => apart_repetition
  | .loop => apart_loop
  | .loopBody => apart_loopBody
  | .furtherNames => apart_furtherNames
  | .bindings role => apart_bindings role
  | .functionResult => apart_functionResult
  | .function => apart_function
  | .item => apart_item
  | .declaration => apart_declaration
  | .declarations => apart_declarations

end Production

/-- Where parentheses are kept, the tokens of a module are apart. -/
theorem Module.apart_of_ofTokens {tokens : List Token} {m : Module}
    (h : Module.ofTokens tokens .keeping = .ok m) : (Cursor.ofTokens tokens).Apart := by
  obtain ⟨c', hc'⟩ := ofTokens_eq_ok_iff.1 h
  have hstays : (declarations.outcome .keeping (.ofTokens tokens)).IfAccepted
      (declarations.StaysApart (.ofTokens tokens)) :=
    Nonterminal.accepted_of_yields (fun _ _ => True.intro) (fun _ _ => True.intro)
      Production.apart .declarations True.intro
  have hend : c'.ApartBehind False := by
    have hnil := Nonterminal.upcoming_declarations (Cursor.lacks_endOfFile_ofTokens tokens) hc'
    refine ⟨False.elim, ?_⟩
    rw [Cursor.Apart, hnil]
    exact List.isChain_nil
  exact (hstays m c' hc' hend).2

end Wgsl
