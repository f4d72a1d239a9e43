import Wgsl.Grammar.Declaration
import Wgsl.Rule.Holds

/-!
# Reading ends

A nonterminal that cannot be empty takes a token, or a character of one, and none gives anything
back. A rule that reads nonterminals before it has taken anything reads only those of lower `rank`.
So the weight of a nonterminal at a cursor falls from each to those it reads. Both together are
`Nonterminal.Progresses`, and every rule of the grammar has it (`Production.progresses`).
-/

namespace Wgsl

/-- Reading has used up the measure it began with: no more than that, or strictly less if it
accepted something that cannot be empty. -/
def Outcome.Within {α : Type} (strict : Bool) (m : Nat) : Outcome α → Prop
  | .accepted _ c => if strict then c.measure < m else c.measure ≤ m
  | .rejected _ c => c.measure ≤ m

@[simp] theorem Outcome.within_accepted {α : Type} {strict : Bool} {m : Nat} {a : α} {c : Cursor} :
    (Outcome.accepted a c).Within strict m ↔
      if strict then c.measure < m else c.measure ≤ m := .rfl

@[simp] theorem Outcome.within_rejected {α : Type} {strict : Bool} {m : Nat} {e : ParseError}
    {c : Cursor} : (Outcome.rejected e c : Outcome α).Within strict m ↔ c.measure ≤ m := .rfl

namespace Nonterminal

/-- What the nonterminal stands for is never empty. -/
@[simp] def takesToken : Nonterminal → Bool
  | .attributes | .operations _ | .suffixes _ | .expressions | .storage _ | .ascription
  | .initializer _ | .statements | .alternatives | .clauses _ | .forInitializer | .forCondition
  | .forUpdate | .loopBody | .furtherNames | .bindings _ | .functionResult | .declarations => false
  | _ => true

/-- Above the rank of every nonterminal that is read before anything is taken. -/
@[simp] def rank : Nonterminal → Nat
  | .attributes | .suffixes _ | .construction _ _ | .variable _ _ => 1
  | .type | .bindings _ | .declaration => 2
  | .typeParameters _ | .constructorType | .declarations => 3
  | .primary => 4
  | .suffixed => 5
  | .unary => 6
  | .expression _ | .simpleStatement => 7
  | .expressions | .selectors | .plainStatement | .conditional | .selection | .repetition
  | .forInitializer | .forCondition | .forUpdate => 8
  | .statement => 9
  | .statements | .loopBody => 10
  | _ => 0

/-- What falls from a nonterminal to those it reads. -/
def weight (n : Nonterminal) (c : Cursor) : Nat := 11 * c.measure + n.rank

/-- From every cursor, a rule for the nonterminal reads only what weighs less, and uses up what
the nonterminal takes. -/
abbrev Progresses (n : Nonterminal) (r : Production n.Result) : Prop :=
  ∀ c, r.Holds (fun n' c' => n'.weight c' < n.weight c)
    (fun n' c' o => o.Within n'.takesToken c'.measure) c (Outcome.Within n.takesToken c.measure)

end Nonterminal

/-! ## Tokens that mean something are not the end of the file -/

namespace TokenKind

variable {k : TokenKind}

@[grind →] theorem ne_endOfFile_of_attributeName? {name : String}
    (h : k.attributeName? = some name) : k ≠ .endOfFile := by rintro rfl; simp [attributeName?] at h

@[grind →] theorem ne_endOfFile_of_infix? {op : InfixOperator} (h : k.infix? = some op) :
    k ≠ .endOfFile := by rintro rfl; simp [infix?] at h

@[grind →] theorem ne_endOfFile_of_unary? {op : UnaryOperator} (h : k.unary? = some op) :
    k ≠ .endOfFile := by rintro rfl; simp [unary?] at h

@[grind →] theorem ne_endOfFile_of_assignment? {op : AssignmentOperator}
    (h : k.assignment? = some op) : k ≠ .endOfFile := by rintro rfl; simp [assignment?] at h

@[grind →] theorem ne_endOfFile_of_step? {op : StepOperator} (h : k.step? = some op) :
    k ≠ .endOfFile := by rintro rfl; simp [step?] at h

@[grind →] theorem ne_endOfFile_of_variableKind? {kind : VariableKind}
    (h : k.variableKind? = some kind) : k ≠ .endOfFile := by rintro rfl; simp [variableKind?] at h

@[grind →] theorem ne_endOfFile_of_localVariableKind? {kind : VariableKind}
    (h : k.localVariableKind? = some kind) : k ≠ .endOfFile := by
  rintro rfl; simp [localVariableKind?, variableKind?] at h

end TokenKind

/-! ## Every rule -/

namespace Production

open Rule Outcome Nonterminal

grind_pattern Cursor.measure_advance_lt => c.advance
grind_pattern Cursor.measure_split_lt => c.split

/-- The end of type parameters takes at least the angle that closes them. -/
theorem holds_closeParameters_of_within {pre : Nonterminal → Cursor → Prop}
    {post : (n : Nonterminal) → Cursor → Outcome n.Result → Prop} {typeName : String} {c : Cursor}
    {Q : Outcome Unit → Prop} (accepted : ∀ c', c'.measure < c.measure → Q (.accepted () c'))
    (rejected : ∀ e c', c'.measure ≤ c.measure → Q (.rejected e c')) :
    (closeParameters typeName).Holds pre post c Q := by
  simp only [closeParameters, holds_steps, ne_eq]
  grind

variable (options : ReadOptions)

private theorem progresses_attributes :
    Progresses .attributes (ofNonterminal options .attributes) := by
  intro c
  simp only [weight, rank, takesToken, ofNonterminal, attributes, holds_steps, within_accepted,
    within_rejected]
  grind

private theorem progresses_attribute :
    Progresses .attribute (ofNonterminal options .attribute) := by
  intro c
  simp only [weight, rank, ofNonterminal, singleAttribute, holds_steps, within_rejected]
  repeat' (intros; first | apply And.intro | (split <;> try simp only [holds_steps, within_rejected,
    within_accepted]))
  all_goals grind

private theorem progresses_type : Progresses .type (ofNonterminal options .type) := by
  intro c
  simp only [weight, rank, ofNonterminal, type, holds_steps, within_accepted, within_rejected]
  grind

private theorem progresses_typeParameters (typeName : String) :
    Progresses (.typeParameters typeName) (ofNonterminal options (.typeParameters typeName)) := by
  intro c
  simp only [weight, rank, ofNonterminal, typeParameters, furtherParameter, holds_steps,
    within_accepted, within_rejected]
  repeat' (intros; first | apply And.intro | apply holds_closeParameters_of_within)
  all_goals grind

private theorem progresses_constructorType :
    Progresses .constructorType (ofNonterminal options .constructorType) := by
  intro c
  simp only [weight, rank, takesToken, ofNonterminal, constructorType, holds_steps, within_accepted,
    within_rejected]
  grind

private theorem progresses_expression (inAngles : Bool) :
    Progresses (.expression inAngles) (ofNonterminal options (.expression inAngles)) := by
  intro c
  simp only [weight, rank, takesToken, ofNonterminal, expression, holds_steps, within_accepted,
    within_rejected]
  grind

private theorem progresses_operations (inAngles : Bool) :
    Progresses (.operations inAngles) (ofNonterminal options (.operations inAngles)) := by
  intro c
  simp only [weight, rank, takesToken, ofNonterminal, operations, holds_steps]
  repeat' (intros; first | apply And.intro | (split <;> try simp only [holds_steps, within_accepted,
    within_rejected]))
  all_goals grind

private theorem progresses_unary : Progresses .unary (ofNonterminal options .unary) := by
  intro c
  simp only [weight, rank, takesToken, ofNonterminal, unary, holds_steps]
  repeat' (intros; first | apply And.intro | (split <;> try simp only [holds_steps, within_accepted,
    within_rejected]))
  all_goals grind

private theorem progresses_suffixed : Progresses .suffixed (ofNonterminal options .suffixed) := by
  intro c
  simp only [weight, rank, takesToken, ofNonterminal, suffixed, holds_steps, within_accepted,
    within_rejected]
  grind

private theorem progresses_suffixes (base : Expression) :
    Progresses (.suffixes base) (ofNonterminal options (.suffixes base)) := by
  intro c
  simp only [weight, rank, takesToken, ofNonterminal, suffixes]
  repeat' (intros; first | apply And.intro | (split <;> try simp only [holds_steps, within_accepted,
    within_rejected]))
  all_goals grind

private theorem progresses_construction (t : TypeSpecifier) (l : Location) :
    Progresses (.construction t l) (ofNonterminal options (.construction t l)) := by
  intro c
  simp only [weight, rank, takesToken, ofNonterminal, construction, holds_steps, within_rejected,
    within_accepted]
  repeat' (intros; first | apply And.intro | (split <;> try simp))
  all_goals grind

private theorem progresses_primary : Progresses .primary (ofNonterminal options .primary) := by
  intro c
  simp only [weight, rank, takesToken, ofNonterminal, primary]
  repeat' (intros; first | apply And.intro | (split <;> try simp only [holds_steps, within_accepted,
    within_rejected]))
  all_goals grind

private theorem progresses_expressions :
    Progresses .expressions (ofNonterminal options .expressions) := by
  intro c
  simp only [weight, rank, takesToken, ofNonterminal, expressions, holds_steps, within_accepted,
    within_rejected]
  grind

private theorem progresses_arguments :
    Progresses .arguments (ofNonterminal options .arguments) := by
  intro c
  simp only [weight, rank, ofNonterminal, arguments, holds_steps, within_accepted, within_rejected]
  grind

private theorem progresses_block (place : String) :
    Progresses (.block place) (ofNonterminal options (.block place)) := by
  intro c
  simp only [weight, rank, ofNonterminal, block, holds_steps, within_accepted, within_rejected]
  grind

private theorem progresses_storage (kind : VariableKind) :
    Progresses (.storage kind) (ofNonterminal options (.storage kind)) := by
  intro c
  simp only [takesToken, ofNonterminal, storage, holds_steps, within_accepted, within_rejected]
  grind

private theorem progresses_ascription :
    Progresses .ascription (ofNonterminal options .ascription) := by
  intro c
  simp only [weight, rank, takesToken, ofNonterminal, ascription, holds_steps, within_accepted,
    within_rejected]
  grind

private theorem progresses_initializer (kind : VariableKind) :
    Progresses (.initializer kind) (ofNonterminal options (.initializer kind)) := by
  intro c
  simp only [weight, rank, takesToken, ofNonterminal, initializer, holds_steps, within_accepted,
    within_rejected]
  grind

private theorem progresses_variable (kind : VariableKind) (l : Location) :
    Progresses (.variable kind l) (ofNonterminal options (.variable kind l)) := by
  intro c
  simp only [weight, rank, ofNonterminal, variableDeclaration, holds_steps, within_rejected,
    within_accepted]
  grind

private theorem progresses_simpleStatement :
    Progresses .simpleStatement (ofNonterminal options .simpleStatement) := by
  intro c
  simp only [weight, rank, takesToken, ofNonterminal, simpleStatement, holds_steps, within_rejected,
    within_accepted]
  repeat' (intros; first | apply And.intro | (split <;> try simp only [holds_steps, within_accepted,
    within_rejected]))
  all_goals grind

private theorem progresses_plainStatement :
    Progresses .plainStatement (ofNonterminal options .plainStatement) := by
  intro c
  simp only [weight, rank, ofNonterminal, plainStatement, condition, holds_steps]
  repeat' (intros; first | apply And.intro | (split <;> try simp only [holds_steps, within_accepted,
    within_rejected]))
  all_goals grind

private theorem progresses_statement :
    Progresses .statement (ofNonterminal options .statement) := by
  intro c
  simp only [weight, rank, takesToken, ofNonterminal, statement, holds_steps, within_rejected,
    within_accepted]
  repeat' (intros; first | apply And.intro | (split <;> try simp only [holds_steps, within_accepted,
    within_rejected]))
  all_goals grind

private theorem progresses_statements :
    Progresses .statements (ofNonterminal options .statements) := by
  intro c
  simp only [weight, rank, takesToken, ofNonterminal, statements, holds_steps]
  repeat' (intros; first | apply And.intro | (split <;> try simp only [holds_steps, within_accepted,
    within_rejected]))
  all_goals grind

private theorem progresses_conditional :
    Progresses .conditional (ofNonterminal options .conditional) := by
  intro c
  simp only [weight, rank, takesToken, ofNonterminal, conditional, condition, holds_steps,
    within_accepted, within_rejected]
  grind

private theorem progresses_alternatives :
    Progresses .alternatives (ofNonterminal options .alternatives) := by
  intro c
  simp only [weight, rank, takesToken, ofNonterminal, alternatives, condition, holds_steps,
    within_accepted, within_rejected]
  grind

private theorem progresses_selection :
    Progresses .selection (ofNonterminal options .selection) := by
  intro c
  simp only [weight, rank, ofNonterminal, selection, condition, holds_steps, within_accepted,
    within_rejected]
  grind

private theorem progresses_clauses (hasDefault : Bool) :
    Progresses (.clauses hasDefault) (ofNonterminal options (.clauses hasDefault)) := by
  intro c
  simp only [weight, rank, takesToken, ofNonterminal, clauses]
  repeat' (intros; first | apply And.intro | (split <;> try simp only [holds_steps, within_accepted,
    within_rejected]))
  all_goals grind

private theorem progresses_selectors :
    Progresses .selectors (ofNonterminal options .selectors) := by
  intro c
  simp only [weight, rank, takesToken, ofNonterminal, selectors, holds_steps, within_accepted,
    within_rejected]
  grind

private theorem progresses_forInitializer :
    Progresses .forInitializer (ofNonterminal options .forInitializer) := by
  intro c
  simp only [weight, rank, takesToken, ofNonterminal, forInitializer, holds_steps, within_accepted]
  repeat' (intros; first | apply And.intro | (split <;> try simp only [holds_steps, within_accepted,
    within_rejected]))
  all_goals grind

private theorem progresses_forCondition :
    Progresses .forCondition (ofNonterminal options .forCondition) := by
  intro c
  simp only [weight, rank, takesToken, ofNonterminal, forCondition, holds_steps, within_accepted,
    within_rejected]
  grind

private theorem progresses_forUpdate :
    Progresses .forUpdate (ofNonterminal options .forUpdate) := by
  intro c
  simp only [weight, rank, takesToken, ofNonterminal, forUpdate, holds_steps, within_accepted,
    within_rejected]
  grind

private theorem progresses_iteration :
    Progresses .iteration (ofNonterminal options .iteration) := by
  intro c
  simp only [weight, rank, ofNonterminal, iteration, holds_steps, within_accepted, within_rejected]
  repeat' (intros; apply And.intro)
  all_goals grind

private theorem progresses_repetition :
    Progresses .repetition (ofNonterminal options .repetition) := by
  intro c
  simp only [weight, rank, takesToken, ofNonterminal, repetition, condition, holds_steps,
    within_accepted, within_rejected]
  grind

private theorem progresses_loop : Progresses .loop (ofNonterminal options .loop) := by
  intro c
  simp only [weight, rank, ofNonterminal, loop, holds_steps, within_accepted, within_rejected]
  grind

private theorem progresses_loopBody : Progresses .loopBody (ofNonterminal options .loopBody) := by
  intro c
  simp only [weight, rank, takesToken, ofNonterminal, loopBody, holds_steps]
  repeat' (intros; first | apply And.intro | (split <;> try simp only [holds_steps, within_accepted,
    within_rejected]))
  all_goals grind

private theorem progresses_furtherNames :
    Progresses .furtherNames (ofNonterminal options .furtherNames) := by
  intro c
  simp only [weight, takesToken, ofNonterminal, furtherNames, holds_steps, within_accepted,
    within_rejected]
  grind

private theorem progresses_bindings (role : BindingRole) :
    Progresses (.bindings role) (ofNonterminal options (.bindings role)) := by
  intro c
  simp only [weight, rank, takesToken, ofNonterminal, bindings, holds_steps, within_accepted,
    within_rejected]
  grind

private theorem progresses_functionResult :
    Progresses .functionResult (ofNonterminal options .functionResult) := by
  intro c
  simp only [weight, rank, takesToken, ofNonterminal, functionResult, holds_steps, within_accepted,
    within_rejected]
  grind

private theorem progresses_function : Progresses .function (ofNonterminal options .function) := by
  intro c
  simp only [weight, rank, ofNonterminal, function, holds_steps, within_accepted, within_rejected]
  grind

private theorem progresses_item : Progresses .item (ofNonterminal options .item) := by
  intro c
  simp only [weight, rank, ofNonterminal, item, condition, holds_steps]
  repeat' (intros; first | apply And.intro | (split <;> try simp only [holds_steps, within_accepted,
    within_rejected]))
  all_goals grind

private theorem progresses_declaration :
    Progresses .declaration (ofNonterminal options .declaration) := by
  intro c
  simp only [weight, rank, takesToken, ofNonterminal, declaration, holds_steps, within_accepted,
    within_rejected]
  grind

private theorem progresses_declarations :
    Progresses .declarations (ofNonterminal options .declarations) := by
  intro c
  simp only [weight, rank, takesToken, ofNonterminal, declarations, holds_steps]
  repeat' (intros; first | apply And.intro | (split <;> try simp only [holds_steps, within_accepted,
    within_rejected]))
  all_goals grind

/-- The rule of every nonterminal progresses. -/
theorem progresses (n : Nonterminal) : n.Progresses (ofNonterminal options n) :=
  match n with
  | .attributes => progresses_attributes options
  | .attribute => progresses_attribute options
  | .type => progresses_type options
  | .typeParameters typeName => progresses_typeParameters options typeName
  | .constructorType => progresses_constructorType options
  | .expression inAngles => progresses_expression options inAngles
  | .operations inAngles => progresses_operations options inAngles
  | .unary => progresses_unary options
  | .suffixed => progresses_suffixed options
  | .suffixes base => progresses_suffixes options base
  | .construction t l => progresses_construction options t l
  | .primary => progresses_primary options
  | .expressions => progresses_expressions options
  | .arguments => progresses_arguments options
  | .block place => progresses_block options place
  | .storage kind => progresses_storage options kind
  | .ascription => progresses_ascription options
  | .initializer kind => progresses_initializer options kind
  | .variable kind l => progresses_variable options kind l
  | .simpleStatement => progresses_simpleStatement options
  | .plainStatement => progresses_plainStatement options
  | .statement => progresses_statement options
  | .statements => progresses_statements options
  | .conditional => progresses_conditional options
  | .alternatives => progresses_alternatives options
  | .selection => progresses_selection options
  | .clauses hasDefault => progresses_clauses options hasDefault
  | .selectors => progresses_selectors options
  | .forInitializer => progresses_forInitializer options
  | .forCondition => progresses_forCondition options
  | .forUpdate => progresses_forUpdate options
  | .iteration => progresses_iteration options
  | .repetition => progresses_repetition options
  | .loop => progresses_loop options
  | .loopBody => progresses_loopBody options
  | .furtherNames => progresses_furtherNames options
  | .bindings role => progresses_bindings options role
  | .functionResult => progresses_functionResult options
  | .function => progresses_function options
  | .item => progresses_item options
  | .declaration => progresses_declaration options
  | .declarations => progresses_declarations options

end Production

end Wgsl
