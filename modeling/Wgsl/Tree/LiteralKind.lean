/-!
# Literal kinds

The type that a literal has by its spelling alone: a suffix names it, and without one it is an
abstract integer or float that later adapts to its use.
-/

namespace Wgsl

/-- The type of a literal. -/
inductive LiteralKind
  | abstractInt
  | abstractFloat
  | i32
  | u32
  | f32
  | f16
  | bool
deriving DecidableEq, Inhabited

namespace LiteralKind

/-- The text begins as a hexadecimal number. -/
def spelledHex : List Char → Bool
  | '0' :: c :: _ => c == 'x' || c == 'X'
  | _ => false

/-- The kind of a number by its spelling. A last character `i` or `u` is a suffix. So is `f` or
`h`, unless the number is hexadecimal without an exponent, where an `f` is a digit. Without a
suffix a point or an exponent tells a float from an integer. -/
def ofSpelling (spelling : String) : LiteralKind :=
  let text := spelling.toList
  let hex := spelledHex text
  let exponent := text.any fun c => if hex then c == 'p' || c == 'P' else c == 'e' || c == 'E'
  let unmarked := if exponent || text.contains '.' then abstractFloat else abstractInt
  match text.getLast? with
  | some 'i' => i32
  | some 'u' => u32
  | some 'f' => if hex && !exponent then unmarked else f32
  | some 'h' => if hex && !exponent then unmarked else f16
  | _ => unmarked

end LiteralKind

end Wgsl
