import Wgsl.Token.Symbol

/-!
# Operators

The operators of expressions and statements, each with its symbol. Two operators of one family
never share a symbol, so a symbol tells which of them is meant (`ofSymbol?_eq_some_iff` of each
family); operators of different families may (`-` negates and subtracts).

Between operands stand the binary and the short-circuiting operators. They bind by level, from 1
(loosest) to 10 (tightest), and operators of one level associate to the left.
-/

namespace Wgsl

/-- An operator before its operand. -/
inductive UnaryOperator
  | negate
  | not
  | complement
  | dereference
  | addressOf
deriving DecidableEq, Inhabited

/-- An operator that always evaluates both of its operands. -/
inductive BinaryOperator
  | add | subtract | multiply | divide | modulo
  | equal | notEqual | less | lessEqual | greater | greaterEqual
  | and | or | xor
  | shiftLeft | shiftRight
deriving DecidableEq, Inhabited

/-- An operator that may leave its right operand unevaluated. -/
inductive LogicalOperator
  | and | or
deriving DecidableEq, Inhabited

/-- What may stand between two operands. -/
inductive InfixOperator
  | binary (op : BinaryOperator)
  | logical (op : LogicalOperator)
deriving DecidableEq, Inhabited

/-- Plain assignment, or assignment of the result of an operator. -/
inductive AssignmentOperator
  | plain
  | add | subtract | multiply | divide | modulo
  | and | or | xor
  | shiftRight | shiftLeft
deriving DecidableEq, Inhabited

/-- One up or one down. -/
inductive StepOperator
  | increment | decrement
deriving DecidableEq, Inhabited

namespace UnaryOperator

/-- How the operator is written. -/
def symbol : UnaryOperator → Symbol
  | .negate => .minus
  | .not => .bang
  | .complement => .tilde
  | .dereference => .star
  | .addressOf => .and

/-- The operator that a symbol is before an operand, if it is one. -/
def ofSymbol? : Symbol → Option UnaryOperator
  | .minus => some .negate
  | .bang => some .not
  | .tilde => some .complement
  | .star => some .dereference
  | .and => some .addressOf
  | _ => none

/-- A symbol is the operator that it writes. -/
theorem ofSymbol?_eq_some_iff {s : Symbol} {op : UnaryOperator} :
    ofSymbol? s = some op ↔ op.symbol = s := by
  cases s <;> cases op <;> decide

end UnaryOperator

namespace InfixOperator

/-- How the operator is written. -/
def symbol : InfixOperator → Symbol
  | .logical .or => .orOr
  | .logical .and => .andAnd
  | .binary .or => .or
  | .binary .xor => .xor
  | .binary .and => .and
  | .binary .equal => .equalEqual
  | .binary .notEqual => .notEqual
  | .binary .less => .lessThan
  | .binary .greater => .greaterThan
  | .binary .lessEqual => .lessThanEqual
  | .binary .greaterEqual => .greaterThanEqual
  | .binary .shiftLeft => .shiftLeft
  | .binary .shiftRight => .shiftRight
  | .binary .add => .plus
  | .binary .subtract => .minus
  | .binary .multiply => .star
  | .binary .divide => .slash
  | .binary .modulo => .modulo

/-- The operator that a symbol is between operands, if it is one. -/
def ofSymbol? : Symbol → Option InfixOperator
  | .orOr => some (.logical .or)
  | .andAnd => some (.logical .and)
  | .or => some (.binary .or)
  | .xor => some (.binary .xor)
  | .and => some (.binary .and)
  | .equalEqual => some (.binary .equal)
  | .notEqual => some (.binary .notEqual)
  | .lessThan => some (.binary .less)
  | .greaterThan => some (.binary .greater)
  | .lessThanEqual => some (.binary .lessEqual)
  | .greaterThanEqual => some (.binary .greaterEqual)
  | .shiftLeft => some (.binary .shiftLeft)
  | .shiftRight => some (.binary .shiftRight)
  | .plus => some (.binary .add)
  | .minus => some (.binary .subtract)
  | .star => some (.binary .multiply)
  | .slash => some (.binary .divide)
  | .modulo => some (.binary .modulo)
  | _ => none

/-- How tightly the operator binds. -/
def level : InfixOperator → Nat
  | .logical .or => 1
  | .logical .and => 2
  | .binary .or => 3
  | .binary .xor => 4
  | .binary .and => 5
  | .binary .equal | .binary .notEqual => 6
  | .binary .less | .binary .greater | .binary .lessEqual | .binary .greaterEqual => 7
  | .binary .shiftLeft | .binary .shiftRight => 8
  | .binary .add | .binary .subtract => 9
  | .binary .multiply | .binary .divide | .binary .modulo => 10

/-- A symbol is the operator that it writes. -/
theorem ofSymbol?_eq_some_iff {s : Symbol} {op : InfixOperator} :
    ofSymbol? s = some op ↔ op.symbol = s := by
  constructor
  · intro h
    cases s <;> simp only [ofSymbol?, Option.some.injEq, reduceCtorEq] at h <;> subst h <;> rfl
  · rintro rfl
    rcases op with op | op <;> cases op <;> rfl

/-- No operator is looser than the first level. -/
theorem one_le_level (op : InfixOperator) : 1 ≤ op.level := by
  rcases op with op | op <;> cases op <;> decide

end InfixOperator

namespace AssignmentOperator

/-- How the operator is written. -/
def symbol : AssignmentOperator → Symbol
  | .plain => .equal
  | .add => .plusEqual
  | .subtract => .minusEqual
  | .multiply => .timesEqual
  | .divide => .divisionEqual
  | .modulo => .moduloEqual
  | .and => .andEqual
  | .or => .orEqual
  | .xor => .xorEqual
  | .shiftRight => .shiftRightEqual
  | .shiftLeft => .shiftLeftEqual

/-- The operator that assigns, if the symbol is one. -/
def ofSymbol? : Symbol → Option AssignmentOperator
  | .equal => some .plain
  | .plusEqual => some .add
  | .minusEqual => some .subtract
  | .timesEqual => some .multiply
  | .divisionEqual => some .divide
  | .moduloEqual => some .modulo
  | .andEqual => some .and
  | .orEqual => some .or
  | .xorEqual => some .xor
  | .shiftRightEqual => some .shiftRight
  | .shiftLeftEqual => some .shiftLeft
  | _ => none

/-- A symbol is the operator that it writes. -/
theorem ofSymbol?_eq_some_iff {s : Symbol} {op : AssignmentOperator} :
    ofSymbol? s = some op ↔ op.symbol = s := by
  constructor
  · intro h
    cases s <;> simp only [ofSymbol?, Option.some.injEq, reduceCtorEq] at h <;> subst h <;> rfl
  · rintro rfl
    cases op <;> rfl

end AssignmentOperator

namespace StepOperator

/-- How the operator is written. -/
def symbol : StepOperator → Symbol
  | .increment => .plusPlus
  | .decrement => .minusMinus

/-- The operator that steps, if the symbol is one. -/
def ofSymbol? : Symbol → Option StepOperator
  | .plusPlus => some .increment
  | .minusMinus => some .decrement
  | _ => none

/-- A symbol is the operator that it writes. -/
theorem ofSymbol?_eq_some_iff {s : Symbol} {op : StepOperator} :
    ofSymbol? s = some op ↔ op.symbol = s := by
  cases s <;> cases op <;> decide

end StepOperator

end Wgsl
