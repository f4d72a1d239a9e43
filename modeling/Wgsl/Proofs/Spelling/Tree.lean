import Wgsl.Proofs.Spelling.Piece
import Wgsl.Grammar.Nonterminal
import Wgsl.Module

/-!
# How trees are written

The spellings of a tree are the lists of pieces that write it down in source order: every name,
literal, operator, attribute, type parameter and kept parenthesis, each location of the tree on
the token that it belongs to. What the grammar leaves to the writer, and nothing else, is a choice
here:

- semicolons between declarations and between statements,
- a comma behind the last of a list that is not empty,
- `()` behind the name of an attribute without arguments,
- a colon behind the selectors of a clause,
- one pair of parentheses around a condition,
- which of its two words begins an assertion.

Spellings follow the tree and not the grammar. They do not say how tightly operators bind, nor
where the reader looks ahead: that what is read is spelled so, and what is spelled so is read, are
theorems about the grammar.

A tree that keeps its parentheses as nodes is written with `bare` operands. A tree that has none
is written in full, with operands that are `parenthesized`.
-/

namespace Wgsl

open Spelling

/-- How operands are written: bare, or each in parentheses of its own. -/
inductive OperandStyle
  | bare
  | parenthesized
deriving DecidableEq, Inhabited

namespace OperandStyle

/-- An operand in the style. -/
def operand : OperandStyle → Language Piece → Language Piece
  | .bare, L => L
  | .parenthesized, L => Spelling.parenthesized L

/-- A number of elements. It has to be in parentheses only if it is an operation. -/
def count : OperandStyle → Expression → Language Piece → Language Piece
  | .bare, _, L => L
  | .parenthesized, .binary .., L | .parenthesized, .logical .., L => Spelling.parenthesized L
  | .parenthesized, _, L => L + Spelling.parenthesized L

end OperandStyle

/-- The text and the kind of the literal that a token is. -/
def TokenKind.literal? : TokenKind → Option (String × LiteralKind)
  | .number spelling => some (spelling, .ofSpelling spelling)
  | .keyword .true => some ("true", .bool)
  | .keyword .false => some ("false", .bool)
  | _ => none

/-- One more name in a list, if there is one. -/
def furtherNameSpellings : Option String → Language Piece
  | none => 1
  | some n => mark .comma * named n

/-! ## Expressions, types and attributes -/

section

variable (style : OperandStyle)

mutual

/-- An expression, with its operands in the style and its location on the token that has it. -/
def Expression.spellings : Expression → Language Piece
  | .literal spelling kind l =>
    token fun t => t.kind.literal? = some (spelling, kind) ∧ t.location = l
  | .identifier name l => word name l
  | .unary op operand l => symbol op.symbol l * style.operand operand.spellings
  | .binary op left right l =>
    style.operand left.spellings * symbol (InfixOperator.binary op).symbol l *
      style.operand right.spellings
  | .logical op left right l =>
    style.operand left.spellings * symbol (InfixOperator.logical op).symbol l *
      style.operand right.spellings
  | .member object n l => style.operand object.spellings * symbol .period l * named n
  | .index object index l =>
    style.operand object.spellings * symbol .bracketLeft l * index.spellings * mark .bracketRight
  | .call callee arguments l => word callee l * parenthesized (expressionsSpellings arguments)
  | .construct type arguments l =>
    when (type.attributes = [] ∧ type.location = l) * type.spellings *
      parenthesized (expressionsSpellings arguments)
  | .bitcast target value l =>
    word "bitcast" l * mark .lessThan * target.spellings * closing *
      parenthesized (value.spellings * optional (mark .comma))
  | .grouped inner l => symbol .parenLeft l * inner.spellings * mark .parenRight

/-- A type: its attributes, its name and its parameters in angles. -/
def TypeSpecifier.spellings : TypeSpecifier → Language Piece
  | ⟨attributes, name, parameters, l⟩ =>
    attributesSpellings attributes * word name l * parameters.spellings

/-- The parameters with their angles, where a comma may stand before the closing one. -/
def TypeParameters.spellings : TypeParameters → Language Piece
  | .none => 1
  | .pointer storageClass target accessMode =>
    mark .lessThan * named storageClass * mark .comma * target.spellings *
      furtherNameSpellings accessMode * closing
  | .element type accessMode =>
    mark .lessThan * type.spellings * furtherNameSpellings accessMode * closing
  | .counted type count =>
    mark .lessThan * type.spellings * mark .comma * style.count count count.spellings * closing

/-- An attribute, whose name may be a keyword. -/
def Attribute.spellings : Attribute → Language Piece
  | ⟨name, arguments, l⟩ =>
    symbol .attr l * token (fun t => t.kind.attributeName? = some name) *
      (when (arguments = []) + parenthesized (expressionsSpellings arguments))

/-- Attributes, one behind the other. -/
def attributesSpellings : List Attribute → Language Piece
  | [] => 1
  | a :: as => a.spellings * attributesSpellings as

/-- Expressions between commas, perhaps with a comma behind the last. -/
def expressionsSpellings : List Expression → Language Piece
  | [] => 1
  | e :: es => e.spellings * (when (es = []) + mark .comma * expressionsSpellings es)

end

/-! ## Variables and statements -/

/-- A condition, perhaps in parentheses. -/
def conditionSpellings (e : Expression) : Language Piece :=
  e.spellings style + parenthesized (e.spellings style)

/-- A storage class and an access mode in angles, if there is a storage. -/
def storageSpellings : Option Storage → Language Piece
  | none => 1
  | some ⟨storageClass, accessMode⟩ =>
    mark .lessThan * named storageClass * furtherNameSpellings accessMode * angle

/-- A type behind a colon, if there is one. -/
def ascriptionSpellings : Option TypeSpecifier → Language Piece
  | none => 1
  | some type => mark .colon * type.spellings style

/-- A value behind an equals sign, if there is one. -/
def initializerSpellings : Option Expression → Language Piece
  | none => 1
  | some e => mark .equal * e.spellings style

/-- An expression, if there is one. -/
def valueSpellings : Option Expression → Language Piece
  | none => 1
  | some e => e.spellings style

/-- A variable, from its keyword to its value. -/
def Variable.spellings (v : Variable) : Language Piece :=
  keyword v.kind.keyword v.location * storageSpellings v.storage * named v.name *
    ascriptionSpellings style v.type * initializerSpellings style v.initializer

/-- An assignment, a step or a call. It begins where its first token stands. -/
def SimpleStatement.spellings : SimpleStatement → Language Piece
  | .assign target op value l =>
    startingAt l (style.operand (target.spellings style) * mark op.symbol * value.spellings style)
  | .step target op l => startingAt l (style.operand (target.spellings style) * mark op.symbol)
  | .call callee arguments l =>
    word callee l * parenthesized (expressionsSpellings style arguments)

/-- What a `for` does first: a variable without its semicolon, or a statement without it. -/
def ForInitializer.spellings : ForInitializer → Language Piece
  | .variable v => v.spellings style
  | .simple s => s.spellings style

/-- What a `for` does first, if anything. -/
def forInitializerSpellings : Option ForInitializer → Language Piece
  | none => 1
  | some i => i.spellings style

/-- What a `for` does after a round, if anything. -/
def forUpdateSpellings : Option SimpleStatement → Language Piece
  | none => 1
  | some s => s.spellings style

/-- An assertion, with either of its two words. -/
def assertionSpellings (condition : Expression) (l : Location) : Language Piece :=
  (keyword .staticAssert l + keyword .constAssert l) * conditionSpellings style condition *
    mark .semicolon

/-- In braces. -/
def braced (L : Language Piece) : Language Piece := mark .braceLeft * L * mark .braceRight

/-- What stands in braces is read between an opening brace and a closing one. -/
theorem Cursor.reads_braced {c c' : Cursor} {L : Language Piece} :
    c.Reads (braced L) c' ↔
      c.current.kind = .symbol .braceLeft ∧ ∃ d, c.advance.Reads L d ∧
        d.current.kind = .symbol .braceRight ∧ d.advance = c' := by
  simp only [braced, reads_mul, reads_mark]
  constructor
  · rintro ⟨d, ⟨_, ⟨hopen, rfl⟩, hd⟩, hclose⟩
    exact ⟨hopen, d, hd, hclose⟩
  · rintro ⟨hopen, d, hd, hclose⟩
    exact ⟨d, ⟨_, ⟨hopen, rfl⟩, hd⟩, hclose⟩

mutual

/-- A statement, with its semicolon. -/
def Statement.spellings : Statement → Language Piece
  | .variable v => v.spellings style * mark .semicolon
  | .simple s => s.spellings style * mark .semicolon
  | .return value l => keyword .return l * valueSpellings style value * mark .semicolon
  | .break l => keyword .break l * mark .semicolon
  | .breakIf condition l =>
    keyword .break l * reserved .if * conditionSpellings style condition * mark .semicolon
  | .continue l => keyword .continue l * mark .semicolon
  | .discard l => keyword .discard l * mark .semicolon
  | .assertion condition l => assertionSpellings style condition l
  | .compound attributes form l => attributesSpellings style attributes * form.spellings l

/-- A compound statement, whose location is that of its first token behind the attributes. -/
def CompoundStatement.spellings : CompoundStatement → Location → Language Piece
  | .block statements, l =>
    symbol .braceLeft l * statementsSpellings statements * mark .braceRight
  | .if condition body alternatives otherwise, l =>
    keyword .if l * conditionSpellings style condition * braced (statementsSpellings body) *
      alternativesSpellings alternatives * otherwiseSpellings otherwise
  | .switch selector clauses, l =>
    keyword .switch l * conditionSpellings style selector * braced (clausesSpellings clauses)
  | .for initializer condition update body, l =>
    keyword .for l * parenthesized (forInitializerSpellings style initializer * mark .semicolon *
      valueSpellings style condition * mark .semicolon * forUpdateSpellings style update) *
      braced (statementsSpellings body)
  | .while condition body, l =>
    keyword .while l * conditionSpellings style condition * braced (statementsSpellings body)
  | .loop body continuing, l =>
    keyword .loop l * braced (statementsSpellings body * continuingSpellings continuing)

/-- An `else if`, whose location is that of the `if`. -/
def Alternative.spellings : Alternative → Language Piece
  | ⟨condition, body, l⟩ =>
    reserved .else * keyword .if l * conditionSpellings style condition *
      braced (statementsSpellings body)

/-- A clause, with a colon behind its selectors or without. -/
def Clause.spellings : Clause → Language Piece
  | .case selectors body l =>
    keyword .case l * expressionsSpellings style selectors * optional (mark .colon) *
      braced (statementsSpellings body)
  | .default body l =>
    keyword .default l * optional (mark .colon) * braced (statementsSpellings body)

/-- Statements, with any number of semicolons before, between and behind them. -/
def statementsSpellings : List Statement → Language Piece
  | [] => semicolons
  | s :: ss => semicolons * s.spellings * statementsSpellings ss

/-- Any number of `else if`, one behind the other. -/
def alternativesSpellings : List Alternative → Language Piece
  | [] => 1
  | a :: as => a.spellings * alternativesSpellings as

/-- Clauses, one behind the other. -/
def clausesSpellings : List Clause → Language Piece
  | [] => 1
  | c :: cs => c.spellings * clausesSpellings cs

/-- The block behind `else`, if there is one. -/
def otherwiseSpellings : Option (List Statement) → Language Piece
  | none => 1
  | some body => reserved .else * braced (statementsSpellings body)

/-- The block behind `continuing`, if there is one. -/
def continuingSpellings : Option (List Statement) → Language Piece
  | none => 1
  | some body => reserved .continuing * braced (statementsSpellings body)

end

/-! ## Declarations -/

/-- A parameter or member, whose location is that of its name. -/
def Binding.spellings (b : Binding) : Language Piece :=
  attributesSpellings style b.attributes * word b.name b.location * mark .colon *
    b.type.spellings style

/-- Bindings between commas, perhaps with a comma behind the last. -/
def bindingsSpellings : List Binding → Language Piece
  | [] => 1
  | b :: bs => b.spellings style * (when (bs = []) + mark .comma * bindingsSpellings bs)

/-- Names behind commas, perhaps with a comma behind the last. -/
def furtherNamesSpellings : List String → Language Piece
  | [] => optional (mark .comma)
  | n :: ns => mark .comma * named n * furtherNamesSpellings ns

/-- What a function returns, behind an arrow, if there is a result. -/
def resultSpellings : Option FunctionResult → Language Piece
  | none => 1
  | some ⟨attributes, type⟩ =>
    mark .arrow * attributesSpellings style attributes * type.spellings style

/-- A function's location is that of its name. -/
def Function.spellings (f : Function) : Language Piece :=
  reserved .fn * word f.name f.location * parenthesized (bindingsSpellings style f.parameters) *
    resultSpellings style f.result * braced (statementsSpellings style f.body)

/-- What is declared, from its first word to its semicolon or closing brace. -/
def Item.spellings : Item → Language Piece
  | .enable n additional l =>
    keyword .enable l * named n * furtherNamesSpellings additional * mark .semicolon
  | .alias n type l =>
    keyword .alias l * named n * mark .equal * type.spellings style * mark .semicolon
  | .struct n members l =>
    keyword .struct l * named n * braced (bindingsSpellings style members)
  | .function f => f.spellings style
  | .variable v => v.spellings style * mark .semicolon
  | .assertion condition l => assertionSpellings style condition l

/-- A declaration behind its attributes. -/
def Declaration.spellings (d : Declaration) : Language Piece :=
  attributesSpellings style d.attributes * d.item.spellings style

/-- Declarations, with any number of semicolons before, between and behind them. -/
def declarationsSpellings : List Declaration → Language Piece
  | [] => semicolons
  | d :: ds => semicolons * d.spellings style * declarationsSpellings ds

end

/-- The tokens before the end of the file are a spelling of the module. -/
def Module.SpelledBy (style : OperandStyle) (m : Module) (tokens : List Token) : Prop :=
  ∃ ps ∈ declarationsSpellings style m, Joins ps (tokens.takeWhile (·.kind ≠ .endOfFile))

end Wgsl
