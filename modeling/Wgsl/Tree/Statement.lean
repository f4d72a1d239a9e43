import Wgsl.Token.Keyword
import Wgsl.Tree.Expression

/-!
# Variables and statements

A variable is declared alike in a module and in a function body; only a module's declaration has
attributes, so they are not part of `Variable`. Of the statements only the compound ones, those
with a body, take attributes, and only assignments, steps and calls may stand in the head of a
`for`; both rules are in the types.
-/

namespace Wgsl

/-- How a variable is introduced. -/
inductive VariableKind
  | var | let | const | override
deriving DecidableEq, Inhabited

namespace VariableKind

/-- The word that introduces such a variable. -/
def keyword : VariableKind → Keyword
  | .var => .var
  | .let => .let
  | .const => .const
  | .override => .override

/-- The kind of variable that a word introduces, if it does. -/
def ofKeyword? : Keyword → Option VariableKind
  | .var => some .var
  | .let => some .let
  | .const => some .const
  | .override => some .override
  | _ => none

/-- A word introduces the kind of variable whose word it is. -/
theorem ofKeyword?_eq_some_iff {word : Keyword} {kind : VariableKind} :
    ofKeyword? word = some kind ↔ kind.keyword = word := by
  cases word <;> cases kind <;> decide

end VariableKind

/-- Where a variable lives: `<storage, read_write>`. -/
structure Storage where
  storageClass : String
  accessMode : Option String
deriving DecidableEq, Inhabited

/-- A declared variable or constant. -/
structure Variable where
  kind : VariableKind
  storage : Option Storage
  name : String
  type : Option TypeSpecifier
  initializer : Option Expression
  location : Location

/-- A statement that may also stand in the head of a `for`. -/
inductive SimpleStatement
  | assign (target : Expression) (op : AssignmentOperator) (value : Expression)
      (location : Location)
  | step (target : Expression) (op : StepOperator) (location : Location)
  | call (callee : String) (arguments : List Expression) (location : Location)

/-- What a `for` does before its first round. -/
inductive ForInitializer
  | variable (declared : Variable)
  | simple (statement : SimpleStatement)

mutual

/-- A statement. Stray semicolons are none. -/
inductive Statement
  | variable (declared : Variable)
  | simple (statement : SimpleStatement)
  | return (value : Option Expression) (location : Location)
  | break (location : Location)
  | breakIf (condition : Expression) (location : Location)
  | continue (location : Location)
  | discard (location : Location)
  | assertion (condition : Expression) (location : Location)
  | compound (attributes : List Attribute) (form : CompoundStatement) (location : Location)

/-- A statement with bodies of further statements. -/
inductive CompoundStatement
  | block (statements : List Statement)
  | if (condition : Expression) (body : List Statement) (alternatives : List Alternative)
      (otherwise : Option (List Statement))
  | switch (selector : Expression) (clauses : List Clause)
  | for (initializer : Option ForInitializer) (condition : Option Expression)
      (update : Option SimpleStatement) (body : List Statement)
  | while (condition : Expression) (body : List Statement)
  | loop (body : List Statement) (continuing : Option (List Statement))

/-- A further condition of an `if`. -/
structure Alternative where
  condition : Expression
  body : List Statement
  location : Location

/-- A clause of a `switch`. -/
inductive Clause
  | case (selectors : List Expression) (body : List Statement) (location : Location)
  | default (body : List Statement) (location : Location)

end

/-- The location of the first token of the statement. -/
def SimpleStatement.location : SimpleStatement → Location
  | .assign _ _ _ l | .step _ _ l | .call _ _ l => l

namespace Statement

/-- The location of the first token of the statement behind its attributes. -/
def location : Statement → Location
  | .variable v => v.location
  | .simple s => s.location
  | .return _ l | .break l | .breakIf _ l | .continue l | .discard l | .assertion _ l
  | .compound _ _ l => l

/-- The attributes before a compound statement; other statements have none. -/
def attributes : Statement → List Attribute
  | .compound attributes _ _ => attributes
  | _ => []

end Statement

end Wgsl
