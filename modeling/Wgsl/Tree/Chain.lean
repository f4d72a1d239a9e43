import Wgsl.Tree.Expression

/-!
# Chains of operations

Operands with operators between them are read as a chain, in the order in which they stand. The
tree they mean is made by precedence climbing, `climb`: with an operand to its left and a minimum
level, it takes operations as long as they bind at least as tightly as that level. The right operand
of each is what climbing makes of the operand behind the operator with a minimum that is one higher,
so that a tighter operator takes its operands before a looser one, and of two operators of one level
the left one does.

A whole chain is climbed with the minimum 1. Since no level is lower, nothing of it is left
(`rest_climb_one`). What holds of the tree is proved along the climb, once for each operation that
it takes (`climb_induction`, `climb_map`).
-/

namespace Wgsl

/-- An operator with the operand to its right. -/
structure Operation where
  op : InfixOperator
  location : Location
  operand : Expression

/-- What climbing makes of a chain: the tree of the operations it takes, and those it leaves, which
are the end of the chain. -/
structure Climbed (chain : List Operation) where
  tree : Expression
  rest : List Operation
  suffix : rest <:+ chain

/-- Precedence climbing: with an operand to the left, take the operations that bind at least as
tightly as the minimum, up to the first that does not. -/
@[semireducible]
def climb (minimum : Nat) (left : Expression) : (chain : List Operation) → Climbed chain
  | [] => ⟨left, [], List.suffix_refl []⟩
  | o :: chain =>
    if o.op.level < minimum then ⟨left, o :: chain, List.suffix_refl (o :: chain)⟩
    else
      let right := climb (o.op.level + 1) o.operand chain
      let climbed := climb minimum (.join o.op left right.tree o.location) right.rest
      ⟨climbed.tree, climbed.rest,
        climbed.suffix.trans (right.suffix.trans (List.suffix_cons o chain))⟩
termination_by chain => chain.length
decreasing_by
  · exact Nat.lt_succ_self chain.length
  · exact Nat.lt_succ_of_le right.suffix.length_le

/-- The tree of a chain: its first operand, and the operations behind it. -/
def Expression.ofChain (first : Expression) (chain : List Operation) : Expression :=
  (climb 1 first chain).tree

variable {minimum : Nat} {left : Expression} {o : Operation} {chain : List Operation}

@[simp] theorem climb_nil : climb minimum left [] = ⟨left, [], List.suffix_refl []⟩ := by
  rw [climb]

/-- A looser operator is left to what comes before. -/
theorem climb_cons_of_lt (h : o.op.level < minimum) :
    climb minimum left (o :: chain) = ⟨left, o :: chain, List.suffix_refl (o :: chain)⟩ := by
  rw [climb, if_pos h]

/-- What climbing takes is the left operand of what it takes next. -/
theorem tree_climb_cons (h : minimum ≤ o.op.level) :
    (climb minimum left (o :: chain)).tree =
      (climb minimum (.join o.op left (climb (o.op.level + 1) o.operand chain).tree o.location)
        (climb (o.op.level + 1) o.operand chain).rest).tree := by
  rw [climb, if_neg (Nat.not_lt_of_le h)]

/-- An operation that is tight enough is read, and climbing goes on behind it. -/
theorem rest_climb_cons (h : minimum ≤ o.op.level) :
    (climb minimum left (o :: chain)).rest =
      (climb minimum (.join o.op left (climb (o.op.level + 1) o.operand chain).tree o.location)
        (climb (o.op.level + 1) o.operand chain).rest).rest := by
  rw [climb, if_neg (Nat.not_lt_of_le h)]

/-- A chain that binds tightly enough is taken whole. -/
theorem rest_climb_eq_nil (h : ∀ p ∈ chain, minimum ≤ p.op.level) :
    (climb minimum left chain).rest = [] := by
  fun_induction climb minimum left chain with
  | case1 => rfl
  | case2 minimum left o chain hlt => exact absurd (h o List.mem_cons_self) (Nat.not_le_of_lt hlt)
  | case3 minimum left o chain hle right climbed ihright ih =>
    exact ih fun p hp => h p (List.mem_cons_of_mem o (right.suffix.subset hp))

/-- No operator is looser than the minimum that a whole chain is climbed with. -/
theorem rest_climb_one (left : Expression) (chain : List Operation) :
    (climb 1 left chain).rest = [] :=
  rest_climb_eq_nil fun p _ => p.op.one_le_level

@[simp] theorem Expression.ofChain_nil (first : Expression) : ofChain first [] = first := by
  rw [ofChain, climb_nil]

@[simp] theorem Expression.ofChain_singleton (first : Expression) (o : Operation) :
    ofChain first [o] = .join o.op first o.operand o.location := by
  rw [ofChain, tree_climb_cons o.op.one_le_level, climb_nil, climb_nil]

/-- What operands have, and operations of operands that have it, the tree has. -/
theorem climb_induction {P : Expression → Prop} (hleft : P left)
    (hchain : ∀ o ∈ chain, P o.operand ∧
      ∀ left right, P left → P right → P (.join o.op left right o.location)) :
    P (climb minimum left chain).tree := by
  fun_induction climb minimum left chain with
  | case1 => exact hleft
  | case2 => exact hleft
  | case3 minimum left o chain hle right climbed ihright ih =>
    obtain ⟨ho, hchain⟩ := List.forall_mem_cons.1 hchain
    exact ih (ho.2 _ _ hleft (ihright ho.1 hchain)) fun p hp => hchain p (right.suffix.subset hp)

/-- What changes operands and keeps operators changes the tree alike. -/
theorem climb_map {f : Expression → Expression} {g : Operation → Operation}
    (hop : ∀ o, (g o).op = o.op) (hoperand : ∀ o, (g o).operand = f o.operand)
    (hjoin : ∀ o left right,
      f (.join o.op left right o.location) = .join o.op (f left) (f right) (g o).location) :
    (climb minimum (f left) (chain.map g)).tree = f (climb minimum left chain).tree ∧
      (climb minimum (f left) (chain.map g)).rest = (climb minimum left chain).rest.map g := by
  fun_induction climb minimum left chain with
  | case1 => rw [List.map_nil, climb_nil]; exact ⟨rfl, rfl⟩
  | case2 minimum left o chain hlt =>
    rw [List.map_cons, climb_cons_of_lt (by rwa [hop])]
    exact ⟨rfl, rfl⟩
  | case3 minimum left o chain hle right climbed ihright ih =>
    have hle : minimum ≤ (g o).op.level := by rw [hop]; exact Nat.le_of_not_lt hle
    rw [List.map_cons, tree_climb_cons hle, rest_climb_cons hle, hop, hoperand, ihright.1,
      ihright.2, ← hjoin]
    exact ih

/-- A map of operands that commutes with joining them commutes with making the tree. -/
theorem Expression.ofChain_map (f : Expression → Expression) (g : Operation → Operation)
    (hop : ∀ o, (g o).op = o.op) (hoperand : ∀ o, (g o).operand = f o.operand)
    (hjoin : ∀ o left right,
      f (.join o.op left right o.location) = .join o.op (f left) (f right) (g o).location)
    (first : Expression) (chain : List Operation) :
    ofChain (f first) (chain.map g) = f (ofChain first chain) :=
  (climb_map hop hoperand hjoin).1

end Wgsl
