import Wgsl.Proofs.Speculation.Leaving

/-!
# Where values are read

A value is an expression that is read for itself: an initializer, a condition, an index, an
argument and the like, not an operand. Behind certain tokens a rule goes on with a value, or with
something that begins with one, and whether it does is seen from the next token only as far as that
begins an operand or not (`Production.offers`). So a `(` that is put before a value is read where
the value was. The count of an array is a value; what else a type is given behind a comma is told
by its first token, and is none.
-/

namespace Wgsl

open scoped Rule.Steps

namespace TokenKind

/-- The token may begin an operand. -/
def beginsOperand : TokenKind → Bool
  | .number _ | .identifier _ | .keyword .true | .keyword .false => true
  | .symbol mark => mark = .parenLeft || (UnaryOperator.ofSymbol? mark).isSome
  | _ => false

/-- A value may stand behind the token, or behind what is left of it. -/
def leads : TokenKind → Bool
  | .symbol .parenLeft | .symbol .bracketLeft | .symbol .comma | .symbol .semicolon
  | .symbol .greaterThanEqual => true
  | .symbol mark => (AssignmentOperator.ofSymbol? mark).isSome
  | k => k.isReserved

@[simp] theorem beginsOperand_symbol (mark : Symbol) :
    (symbol mark).beginsOperand = decide (mark = .parenLeft ∨ mark = .minus ∨ mark = .bang ∨
      mark = .tilde ∨ mark = .star ∨ mark = .and) := by
  cases mark <;> rfl

@[simp] theorem beginsOperand_keyword (word : Keyword) :
    (keyword word).beginsOperand = decide (word = .true ∨ word = .false) := by
  cases word <;> rfl

@[simp] theorem leads_keyword (word : Keyword) :
    (keyword word).leads = decide (word ≠ .true ∧ word ≠ .false) := by
  cases word <;> rfl

@[simp] theorem leads_symbol (mark : Symbol) :
    (symbol mark).leads = decide (mark = .parenLeft ∨ mark = .bracketLeft ∨ mark = .comma ∨
      mark = .semicolon ∨ mark = .greaterThanEqual ∨ mark = .equal ∨ mark = .plusEqual ∨
      mark = .minusEqual ∨ mark = .timesEqual ∨ mark = .divisionEqual ∨ mark = .moduloEqual ∨
      mark = .andEqual ∨ mark = .orEqual ∨ mark = .xorEqual ∨ mark = .shiftRightEqual ∨
      mark = .shiftLeftEqual) := by
  cases mark <;> rfl

@[simp] theorem leads_identifier (name : String) : (identifier name).leads = false := rfl

@[simp] theorem leads_number (spelling : String) : (number spelling).leads = false := rfl

variable {k : TokenKind}

private theorem leads_of_assignment? {op : AssignmentOperator} (h : k.assignment? = some op) :
    k.leads = true ∧ k ≠ .symbol .comma := by
  rw [assignment?_eq_some_iff.1 h]
  cases op <;> simp [AssignmentOperator.symbol]

/-- Of names of attributes, only reserved words would lead to a value. -/
theorem isReserved_of_attributeName? {name : String} (h : k.attributeName? = some name) :
    k.leads = k.isReserved := by
  cases k <;> simp_all [attributeName?]

/-- A prefix operator does not lead to a value. -/
theorem leads_of_unary? {op : UnaryOperator} (h : k.unary? = some op) : k.leads = false := by
  rw [unary?_eq_some_iff.1 h]
  cases op <;> rfl

/-- A mark between values, or a bracket behind one, begins none. -/
theorem ne_symbol_of_beginsOperand {mark : Symbol} (h : k.beginsOperand = true)
    (hmark : (symbol mark).beginsOperand = false) : k ≠ .symbol mark := by
  rintro rfl
  simp [hmark] at h

private theorem ne_keyword_of_beginsOperand {word : Keyword} (h : k.beginsOperand = true)
    (hword : (keyword word).beginsOperand = false) : k ≠ .keyword word := by
  rintro rfl
  simp [hword] at h

/-- What begins an operand closes no angle. -/
theorem closesAngle_of_beginsOperand (h : k.beginsOperand = true) : k.closesAngle = false := by
  cases k with
  | symbol mark => cases mark <;> first | rfl | cases h
  | _ => rfl

end TokenKind

namespace Nonterminal

/-- The nonterminal begins with a value, if it is not empty. -/
@[simp] def beginsValue : Nonterminal → Bool
  | .expressions | .selectors | .forCondition | .conditional | .selection | .repetition => true
  | _ => false

/-- An expression that the nonterminal reads for itself is a value. -/
@[simp] def takesValue : Nonterminal → Bool
  | .typeParameters name => namesArray name
  | _ => true

/-- Reading the one nonterminal, where the other is read a value may begin. -/
@[simp] def offers (n : Nonterminal) : Nonterminal → Bool
  | .expression _ => n.takesValue
  | m => m.beginsValue

/-- What the nonterminal reads as an expression is a condition, but for the value of a `return`. -/
@[simp] def takesCondition : Nonterminal → Bool
  | .conditional | .alternatives | .selection | .repetition | .plainStatement | .item => true
  | _ => false

/-- There may be conditions in the nonterminal. -/
@[simp] def holdsConditions : Nonterminal → Bool
  | .block _ | .statements | .statement | .clauses _ | .iteration | .loop | .loopBody | .function
  | .declaration | .declarations => true
  | n => n.takesCondition

/-- Reading the one nonterminal, the other is read as a condition, or with conditions in it. -/
@[simp] def tests (n : Nonterminal) : Nonterminal → Bool
  | .expression _ => n.takesCondition
  | m => m.holdsConditions

/-- Values stand behind commas in the nonterminal, or it is one that does. -/
@[simp] def listsValues : Nonterminal → Bool
  | .expressions | .selectors | .expression true => true
  | _ => false

/-- The nonterminal may be read behind the token where a value begins. -/
structure LedBy (n m : Nonterminal) (k : TokenKind) : Prop where
  leads : k.leads = true
  reserved : k.isReserved = true → n.inExpression = false
  comma : k = .symbol .comma → m.listsValues = true
  tests : n.tests m = true → k.isReserved = true

@[simp] theorem ledBy_iff {n m : Nonterminal} {k : TokenKind} :
    n.LedBy m k ↔ k.leads = true ∧ (k.isReserved = true → n.inExpression = false) ∧
      (k = .symbol .comma → m.listsValues = true) ∧ (n.tests m = true → k.isReserved = true) :=
  ⟨fun h => ⟨h.leads, h.reserved, h.comma, h.tests⟩, fun h => ⟨h.1, h.2.1, h.2.2.1, h.2.2.2⟩⟩

end Nonterminal

namespace Rule

variable {α : Type}

/-- What a rule is when it has looked at the token to be read. -/
@[simp] def facing (t : Token) : Production α → Production α
  | .look k => (k t).facing t
  | r => r

@[simp] theorem facing_ite (t : Token) {p : Prop} [Decidable p] {r r' : Production α} :
    (if p then r else r').facing t = if p then r.facing t else r'.facing t := by
  split <;> rfl

@[simp] theorem facing_elim (t : Token) {γ : Type} {o : Option γ} {r : Production α}
    {f : γ → Production α} :
    (o.elim r f).facing t = o.elim (r.facing t) fun a => (f a).facing t := by
  cases o <;> rfl

/-- The rule itself, if it is to read at once what a value may begin with. -/
def offering (n : Nonterminal) : Production α → Option (Production α)
  | .read m k => if n.offers m then some (.read m k) else none
  | _ => none

/-- If the rule is to read at once what a value may begin with, this may stand behind the token. -/
def LedBy (n : Nonterminal) (seen : Option Token) : Production α → Prop
  | .read m _ => n.offers m → ∃ t, seen = some t ∧ n.LedBy m t.kind
  | _ => True

section

variable {n m : Nonterminal} {seen : Option Token} {a : α} {e : ParseError} {r : Production α}

@[simp] theorem offering_done : (.done a : Production α).offering n = none := rfl

@[simp] theorem offering_fail : (.fail e : Production α).offering n = none := rfl

@[simp] theorem offering_look {k : Token → Production α} : offering n (.look k) = none := rfl

@[simp] theorem offering_lookBehind {k : TokenKind → Production α} :
    offering n (.lookBehind k) = none := rfl

@[simp] theorem offering_advance : offering n (.advance r) = none := rfl

@[simp] theorem offering_split : offering n (.split r) = none := rfl

@[simp] theorem offering_read {k : m.Result → Production α} :
    offering n (.read m k) = if n.offers m then some (.read m k) else none := rfl

@[simp] theorem offering_attempt {k : Option m.Result → Production α} :
    offering n (.attempt m k) = none := rfl

@[simp] theorem offering_ite {p : Prop} [Decidable p] {r r' : Production α} :
    (if p then r else r').offering n = if p then r.offering n else r'.offering n := by
  split <;> rfl

@[simp] theorem offering_elim {γ : Type} {o : Option γ} {f : γ → Production α} :
    (o.elim r f).offering n = o.elim (r.offering n) fun a => (f a).offering n := by
  cases o <;> rfl

@[simp] theorem ledBy_done : (.done a : Production α).LedBy n seen := trivial

@[simp] theorem ledBy_fail : (.fail e : Production α).LedBy n seen := trivial

@[simp] theorem ledBy_look {k : Token → Production α} : LedBy n seen (.look k) := trivial

@[simp] theorem ledBy_lookBehind {k : TokenKind → Production α} :
    LedBy n seen (.lookBehind k) := trivial

@[simp] theorem ledBy_advance : LedBy n seen (.advance r) := trivial

@[simp] theorem ledBy_split : LedBy n seen (.split r) := trivial

@[simp] theorem ledBy_read {k : m.Result → Production α} :
    LedBy n seen (.read m k) ↔
      (n.offers m → ∃ t, seen = some t ∧ n.LedBy m t.kind) := .rfl

@[simp] theorem ledBy_attempt {k : Option m.Result → Production α} :
    LedBy n seen (.attempt m k) := trivial

@[simp] theorem ledBy_ite {p : Prop} [Decidable p] {r r' : Production α} :
    (if p then r else r').LedBy n seen ↔ (p → r.LedBy n seen) ∧ (¬p → r'.LedBy n seen) := by
  split <;> simp_all

@[simp] theorem ledBy_elim {γ : Type} {o : Option γ} {f : γ → Production α} :
    (o.elim r f).LedBy n seen ↔
      (o = none → r.LedBy n seen) ∧ ∀ a, o = some a → (f a).LedBy n seen := by
  cases o <;> simp

end

private theorem LedBy.of_offering {n : Nonterminal} {seen : Option Token} {r : Production α}
    (h : r.offering n = none) : r.LedBy n seen := by
  cases r with
  | read m k =>
    intro hm
    rw [offering_read, if_pos hm] at h
    cases h
  | _ => trivial

/-- Where nothing is offered either way, it does not matter which. -/
@[simp] theorem elim_none {β γ : Type} (o : Option γ) :
    (o.elim none fun _ => (none : Option β)) = none := by
  cases o <;> rfl

/-- The `(` that a value may be put behind. -/
abbrev opening : Token := ⟨.symbol .parenLeft, .start⟩

/-- Before an operand, no value is offered. -/
@[simp] def Withholds (n : Nonterminal) (r : Production α) : Prop :=
  ∀ u : Token, u.kind.beginsOperand = true → (r.facing u).offering n = none

/-- Before every operand, values are offered alike. -/
@[simp] def OffersAlike (n : Nonterminal) (r : Production α) : Prop :=
  ∀ u : Token, u.kind.beginsOperand = true →
    (r.facing u).offering n = (r.facing opening).offering n

/-- Values are offered only behind certain tokens, and before every operand alike. -/
def Offers (n : Nonterminal) (seen : Option Token) : Production α → Prop
  | .done _ | .fail _ | .look _ => True
  | .lookBehind k => ∀ kind, (k kind).Withholds n
  | .advance k => (k.facing opening).LedBy n seen ∧ k.OffersAlike n
  | .split k => k.Withholds n
  | .read _ k => ∀ a, (k a).Withholds n
  | .attempt m k => m.beginsValue = false ∧ ∀ o, (k o).Withholds n

section Offers

variable {n m : Nonterminal} {seen : Option Token}

@[simp] theorem offers_done {a : α} : Offers n seen (.done a : Production α) := trivial

@[simp] theorem offers_fail {e : ParseError} : Offers n seen (.fail e : Production α) := trivial

@[simp] theorem offers_look {k : Token → Production α} : Offers n seen (.look k) := trivial

@[simp] theorem offers_lookBehind {k : TokenKind → Production α} :
    Offers n seen (.lookBehind k) ↔ ∀ kind, (k kind).Withholds n := .rfl

@[simp] theorem offers_advance {k : Production α} :
    Offers n seen (.advance k) ↔ (k.facing opening).LedBy n seen ∧ k.OffersAlike n := .rfl

@[simp] theorem offers_split {k : Production α} : Offers n seen (.split k) ↔ k.Withholds n := .rfl

@[simp] theorem offers_read {k : m.Result → Production α} :
    Offers n seen (.read m k) ↔ ∀ a, (k a).Withholds n := .rfl

@[simp] theorem offers_attempt {k : Option m.Result → Production α} :
    Offers n seen (.attempt m k) ↔ m.beginsValue = false ∧ ∀ o, (k o).Withholds n := .rfl

end Offers

end Rule

namespace Production

open Rule Nonterminal TokenKind

variable (options : ReadOptions)

/-- The rule of the nonterminal offers values in its own places. -/
abbrev OffersValues (n : Nonterminal) : Prop :=
  (ofNonterminal options n).Always (Offers n) none

private theorem offers_attribute : OffersValues options .attribute := by
  simp +contextual only [OffersValues, ofNonterminal, singleAttribute, steps_eq, attributeName?,
    Always, offers_look, Option.mem_def, reduceCtorEq, false_implies, implies_true,
    Option.some.injEq, forall_eq', always_ite, offers_advance, facing, ledBy_fail, OffersAlike,
    true_and, true_implies, offers_fail, and_true, forall_eq]
  intro t ht
  constructor
  · intro u hu
    split <;> simp
  · intro t'
    split
    · simp
    · simp +contextual [ne_symbol_of_beginsOperand]

private theorem offers_attributes : OffersValues options .attributes := by
  simp [attributes, OffersValues]

private theorem offers_type : OffersValues options .type := by
  simp [type, OffersValues]

section Closing

variable {α : Type} {n : Nonterminal} {seen : Option Token} {typeName : String} {a : α}

@[simp] theorem offering_closeAngle {expected : Expectation} (t : Token) :
    (((closeAngle expected).bind fun _ => done a).facing t).offering n = none := by
  simp [closeAngle_eq]

@[simp] theorem offering_closeParameters (t : Token) :
    (((closeParameters typeName).bind fun _ => done a).facing t).offering n = none := by
  simp [closeParameters]

@[simp] theorem offers_closeAngle {expected : Expectation} :
    ((closeAngle expected).bind fun _ => done a).Always (Offers n) seen := by
  simp +contextual [closeAngle_eq]

@[simp] theorem offers_closeParameters :
    ((closeParameters typeName).bind fun _ => done a).Always (Offers n) seen := by
  simp +contextual [closeParameters, LedBy.of_offering]

end Closing

private theorem offers_typeParameters (name : String) :
    OffersValues options (.typeParameters name) := by
  by_cases hptr : name = "ptr"
  · subst hptr
    simp +contextual [typeParameters, furtherParameter, OffersValues, LedBy.of_offering]
  · have hparen : (symbol .parenLeft).closesAngle = false := rfl
    by_cases harray : namesArray name
    · simp +contextual [typeParameters, furtherParameter, OffersValues, hptr, harray, hparen,
        closesAngle_of_beginsOperand]
    · simp +contextual [typeParameters, furtherParameter, OffersValues, LedBy.of_offering, hptr,
        harray, hparen, closesAngle_of_beginsOperand]

private theorem offers_constructorType : OffersValues options .constructorType := by
  simp [constructorType, OffersValues]

private theorem offers_expression (inAngles : Bool) :
    OffersValues options (.expression inAngles) := by
  simp [expression, OffersValues]

private theorem offers_operations (inAngles : Bool) :
    OffersValues options (.operations inAngles) := by
  simp only [OffersValues, ofNonterminal, operations, steps_eq, Always, offers_look, true_and]
  intro t
  split <;> simp

private theorem offers_unary : OffersValues options .unary := by
  simp only [OffersValues, ofNonterminal, unary, steps_eq, Always, offers_look, true_and]
  intro t
  split <;> simp

private theorem offers_suffixed : OffersValues options .suffixed := by
  simp [suffixed, OffersValues]

private theorem offers_suffixes (base : Expression) : OffersValues options (.suffixes base) := by
  simp only [OffersValues, ofNonterminal, suffixes, steps_eq, Always, offers_look, true_and]
  intro t
  split
  · simp +contextual [*]
  · simp +contextual [*]
  · split <;> simp
  · simp

private theorem offers_primary : OffersValues options .primary := by
  simp only [OffersValues, ofNonterminal, primary, steps_eq, Always, offers_look, Option.mem_def,
    reduceCtorEq, false_implies, implies_true, true_implies, true_and]
  intro t
  split
  · simp
  · simp
  · simp
  · simp +contextual [*]
  · refine ⟨fun kind => ?_, fun kind => ?_⟩ <;> beta_reduce
    · split <;> simp
    · split
      · simp only [Always, offers_attempt, beginsValue, Withholds, true_and, offers_read, facing,
          offering_done, implies_true, offers_done, offers_advance, ledBy_done, OffersAlike,
          and_true]
        intro made u hu
        cases made <;> simp
      · simp
      · simp
  · simp

private theorem offers_expressions : OffersValues options .expressions := by
  simp +contextual [expressions, OffersValues]

private theorem offers_arguments : OffersValues options .arguments := by
  simp +contextual [arguments, OffersValues]

private theorem offers_construction (made : TypeSpecifier) (l : Location) :
    OffersValues options (.construction made l) := by
  simp only [OffersValues, ofNonterminal, construction, steps_eq, Always, offers_read]
  refine ⟨fun a u hu => ?_, fun a => ?_⟩ <;> split <;> simp

private theorem offers_block (place : String) : OffersValues options (.block place) := by
  simp [block, OffersValues]

private theorem offers_storage (kind : VariableKind) : OffersValues options (.storage kind) := by
  by_cases hvar : kind = .var
  · subst hvar
    simp +contextual [storage, OffersValues, LedBy.of_offering]
  · simp [storage, OffersValues, hvar]

private theorem offers_ascription : OffersValues options .ascription := by
  simp [ascription, OffersValues]

private theorem offers_initializer (kind : VariableKind) :
    OffersValues options (.initializer kind) := by
  simp +contextual [initializer, OffersValues]

private theorem offers_variable (kind : VariableKind) (l : Location) :
    OffersValues options (.variable kind l) := by
  simp [variableDeclaration, OffersValues]

private theorem offers_simpleStatement : OffersValues options .simpleStatement := by
  simp only [OffersValues, ofNonterminal, simpleStatement, steps_eq, Always, offers_look,
    Option.mem_def, reduceCtorEq, false_implies, implies_true, offers_read, Withholds, facing,
    true_implies, true_and]
  intro _
  refine ⟨fun target u hu => ?_, fun target t => ?_⟩ <;> split
  · simp
  · simp
  · simp
  · simp
  · rename_i op hop
    simp [leads_of_assignment? hop]
  · simp
  · simp
  · simp

private theorem offers_plainStatement : OffersValues options .plainStatement := by
  simp +contextual only [OffersValues, ofNonterminal, plainStatement, steps_eq, condition, Always,
    offers_look, true_and]
  intro t
  split
  · simp +contextual [*, ne_symbol_of_beginsOperand]
  · simp +contextual [*, ne_keyword_of_beginsOperand]
  · simp +contextual [*]
  · simp +contextual [*]
  · simp +contextual [*]
  · simp +contextual [*]
  · split <;> simp

private theorem offers_statement : OffersValues options .statement := by
  simp only [OffersValues, ofNonterminal, statement, steps_eq, Always, offers_read, Withholds,
    facing, offers_look, true_and]
  refine ⟨fun attributes u hu => ?_, fun attributes t => ?_⟩ <;> split <;> simp_all

private theorem offers_statements : OffersValues options .statements := by
  simp only [OffersValues, ofNonterminal, statements, steps_eq, Always, offers_look, true_and]
  intro t
  split <;> simp

private theorem offers_conditional : OffersValues options .conditional := by
  simp [conditional, condition, OffersValues]

private theorem offers_alternatives : OffersValues options .alternatives := by
  simp +contextual [alternatives, condition, OffersValues, ne_keyword_of_beginsOperand]

private theorem offers_selection : OffersValues options .selection := by
  simp [selection, condition, OffersValues]

private theorem offers_clauses (hasDefault : Bool) :
    OffersValues options (.clauses hasDefault) := by
  simp only [OffersValues, ofNonterminal, clauses, steps_eq, Always, offers_look, true_and]
  intro t
  split <;> simp [*]

private theorem offers_selectors : OffersValues options .selectors := by
  simp +contextual [selectors, OffersValues, ne_symbol_of_beginsOperand]

private theorem offers_forInitializer : OffersValues options .forInitializer := by
  simp only [OffersValues, ofNonterminal, forInitializer, steps_eq, Always, offers_look, always_ite,
    true_and]
  intro t
  split <;> simp

private theorem offers_forCondition : OffersValues options .forCondition := by
  simp [forCondition, OffersValues]

private theorem offers_forUpdate : OffersValues options .forUpdate := by
  simp [forUpdate, OffersValues]

private theorem offers_iteration : OffersValues options .iteration := by
  simp +contextual [iteration, OffersValues]

private theorem offers_repetition : OffersValues options .repetition := by
  simp [repetition, condition, OffersValues]

private theorem offers_loop : OffersValues options .loop := by
  simp [loop, OffersValues]

private theorem offers_loopBody : OffersValues options .loopBody := by
  simp only [OffersValues, ofNonterminal, loopBody, steps_eq, Always, offers_look, true_and]
  intro t
  split <;> simp

private theorem offers_furtherNames : OffersValues options .furtherNames := by
  simp [furtherNames, OffersValues]

private theorem offers_bindings (role : BindingRole) : OffersValues options (.bindings role) := by
  simp [bindings, OffersValues]

private theorem offers_functionResult : OffersValues options .functionResult := by
  simp [functionResult, OffersValues]

private theorem offers_function : OffersValues options .function := by
  simp [function, OffersValues]

private theorem offers_item : OffersValues options .item := by
  simp only [OffersValues, ofNonterminal, item, steps_eq, condition, Always, offers_look, true_and]
  intro t
  split
  · simp
  · simp
  · simp
  · simp
  · simp [*]
  · simp [*]
  · simp
  · simp
  · simp
  · split <;> simp

private theorem offers_declaration : OffersValues options .declaration := by
  simp [declaration, OffersValues]

private theorem offers_declarations : OffersValues options .declarations := by
  simp only [OffersValues, ofNonterminal, declarations, steps_eq, Always, offers_look, true_and]
  intro t
  split <;> simp

/-- Every rule offers values in its own places. -/
theorem offersValues (n : Nonterminal) : OffersValues options n :=
  match n with
  | .attribute => offers_attribute options
  | .attributes => offers_attributes options
  | .type => offers_type options
  | .typeParameters typeName => offers_typeParameters options typeName
  | .constructorType => offers_constructorType options
  | .expression inAngles => offers_expression options inAngles
  | .operations inAngles => offers_operations options inAngles
  | .unary => offers_unary options
  | .suffixed => offers_suffixed options
  | .suffixes base => offers_suffixes options base
  | .primary => offers_primary options
  | .expressions => offers_expressions options
  | .arguments => offers_arguments options
  | .construction made l => offers_construction options made l
  | .block place => offers_block options place
  | .storage kind => offers_storage options kind
  | .ascription => offers_ascription options
  | .initializer kind => offers_initializer options kind
  | .variable kind l => offers_variable options kind l
  | .simpleStatement => offers_simpleStatement options
  | .plainStatement => offers_plainStatement options
  | .statement => offers_statement options
  | .statements => offers_statements options
  | .conditional => offers_conditional options
  | .alternatives => offers_alternatives options
  | .selection => offers_selection options
  | .clauses hasDefault => offers_clauses options hasDefault
  | .selectors => offers_selectors options
  | .forInitializer => offers_forInitializer options
  | .forCondition => offers_forCondition options
  | .forUpdate => offers_forUpdate options
  | .iteration => offers_iteration options
  | .repetition => offers_repetition options
  | .loop => offers_loop options
  | .loopBody => offers_loopBody options
  | .furtherNames => offers_furtherNames options
  | .bindings role => offers_bindings options role
  | .functionResult => offers_functionResult options
  | .function => offers_function options
  | .item => offers_item options
  | .declaration => offers_declaration options
  | .declarations => offers_declarations options

/-- What begins with a value does so before every operand. -/
theorem offersAlike {n : Nonterminal} (hn : n.beginsValue = true) :
    OffersAlike n (ofNonterminal options n) := by
  cases n with
  | expressions => simp +contextual [expressions, ne_symbol_of_beginsOperand]
  | selectors => simp [selectors]
  | forCondition => simp +contextual [forCondition, ne_symbol_of_beginsOperand]
  | conditional => simp [conditional, condition]
  | selection => simp [selection, condition]
  | repetition => simp [repetition, condition]
  | _ => cases hn

/-- What does not begin with a value reads none at once. -/
theorem withholds {n : Nonterminal} (hn : n.beginsValue = false) :
    Withholds n (ofNonterminal options n) := by
  cases n with
  | expressions | selectors | forCondition | conditional | selection | repetition => cases hn
  | operations | unary | primary | statements | clauses | forInitializer | loopBody
  | declarations =>
    simp only [Withholds, ofNonterminal, operations, steps_eq, facing, unary, primary, statements,
      clauses, forInitializer, facing_ite, offering_ite, offering_done, ite_eq_left_iff, loopBody,
      declarations]
    intro u hu
    split <;> simp
  | suffixes | plainStatement | item =>
    simp only [Withholds, ofNonterminal, suffixes, steps_eq, facing, plainStatement, item,
      String.reduceAppend]
    intro u hu
    split <;> first | simp | (split <;> simp)
  | storage kind => by_cases hvar : kind = .var <;> simp only [Withholds, ofNonterminal, storage,
    ↓reduceIte, steps_eq, Bool.false_eq_true, facing, facing_ite, offering_ite, offering_advance,
    offering_done, ite_self, implies_true]
  | _ =>
    simp [singleAttribute, attributes, type, typeParameters, constructorType, expression, suffixed,
      arguments, construction, block, ascription, initializer, variableDeclaration,
      simpleStatement, statement, alternatives, forUpdate, iteration, loop, furtherNames, bindings,
      functionResult, function, declaration]

end Production

end Wgsl
