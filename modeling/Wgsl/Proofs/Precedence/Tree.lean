import Wgsl.Tree.Chain

/-!
# The tree of a chain, from the top down

Which tree a chain of operations means can be said without going through the chain: cut it at the
last of its loosest operators. That operator is the root, and what stands on either side of the cut
is a chain again. `ChainTree` says so.

`Expression.ofChain` makes the tree by climbing, from left to right and with minima that rise. It
makes this one and no other (`chainTree_iff`). The reason is that the cut shows in the climb: no
right operand before the cut reaches over it (`climb_append_of_lt`), so when climbing comes to it,
everything before is its left operand (`tree_climb_append`); and everything behind it binds more
tightly, so its right operand is all of that.
-/

namespace Wgsl

/-- The tree of a first operand and the operations behind it. Its root is an operator of the loosest
level, and the last of that level. -/
inductive ChainTree : Expression → List Operation → Expression → Prop
  | operand (e : Expression) : ChainTree e [] e
  | cut {first left right : Expression} {before after : List Operation} {o : Operation} :
      ChainTree first before left → ChainTree o.operand after right →
        (∀ p ∈ before, o.op.level ≤ p.op.level) → (∀ p ∈ after, o.op.level < p.op.level) →
          ChainTree first (before ++ o :: after) (.join o.op left right o.location)

/-! ## The cut -/

variable {first tree left : Expression} {chain before after : List Operation} {o : Operation}
variable {minimum : Nat}

/-- Climbing stops before an operator that is looser than the minimum, whatever is behind it. -/
theorem climb_append_of_lt (left : Expression) (before after : List Operation)
    (h : o.op.level < minimum) :
    (climb minimum left (before ++ o :: after)).tree = (climb minimum left before).tree ∧
      (climb minimum left (before ++ o :: after)).rest =
        (climb minimum left before).rest ++ o :: after := by
  fun_induction climb minimum left before with
  | case1 => rw [List.nil_append, climb_cons_of_lt h]; exact ⟨rfl, rfl⟩
  | case2 minimum left p before hlt =>
    rw [List.cons_append, climb_cons_of_lt hlt]
    exact ⟨rfl, rfl⟩
  | case3 minimum left p before hle right climbed ihright ih =>
    -- the right operand is climbed with a higher minimum, so it stops there too
    have hle := Nat.le_of_not_lt hle
    obtain ⟨htree, hrest⟩ := ihright (by omega)
    rw [List.cons_append, tree_climb_cons hle, rest_climb_cons hle, htree, hrest]
    exact ih h

/-- All before an operator that is as loose as any of it is the left operand there. -/
theorem tree_climb_append (ho : minimum ≤ o.op.level)
    (hbefore : ∀ p ∈ before, o.op.level ≤ p.op.level) :
    (climb minimum left (before ++ o :: after)).tree =
      (climb minimum (climb minimum left before).tree (o :: after)).tree := by
  fun_induction climb minimum left before with
  | case1 => rw [List.nil_append]
  | case2 minimum left p before hlt =>
    have hp := hbefore p List.mem_cons_self
    omega
  | case3 minimum left p before hle right climbed ihright ih =>
    obtain ⟨hp, hbefore⟩ := List.forall_mem_cons.1 hbefore
    obtain ⟨htree, hrest⟩ := climb_append_of_lt p.operand before after (Nat.lt_succ_of_le hp)
    rw [List.cons_append, tree_climb_cons (Nat.le_of_not_lt hle), htree, hrest]
    exact ih ho fun q hq => hbefore q (right.suffix.subset hq)

/-- The minimum is of no matter to a chain that is taken whole. -/
theorem tree_climb_eq_of_le {minimum' : Nat} (h : ∀ p ∈ chain, minimum ≤ p.op.level)
    (h' : ∀ p ∈ chain, minimum' ≤ p.op.level) :
    (climb minimum left chain).tree = (climb minimum' left chain).tree := by
  fun_induction climb minimum left chain with
  | case1 => rw [climb_nil]
  | case2 minimum left p chain hlt => exact absurd (h p List.mem_cons_self) (Nat.not_le_of_lt hlt)
  | case3 minimum left p chain hle right climbed ihright ih =>
    rw [tree_climb_cons (h' p List.mem_cons_self)]
    exact ih (fun q hq => h q (List.mem_cons_of_mem p (right.suffix.subset hq)))
      fun q hq => h' q (List.mem_cons_of_mem p (right.suffix.subset hq))

/-- At the last of its loosest operators, a chain is cut in two. -/
theorem Expression.ofChain_append (first : Expression)
    (hbefore : ∀ p ∈ before, o.op.level ≤ p.op.level)
    (hafter : ∀ p ∈ after, o.op.level < p.op.level) :
    ofChain first (before ++ o :: after) =
      join o.op (ofChain first before) (ofChain o.operand after) o.location := by
  have hright : (climb (o.op.level + 1) o.operand after).tree = ofChain o.operand after :=
    tree_climb_eq_of_le hafter fun p _ => p.op.one_le_level
  rw [ofChain, tree_climb_append o.op.one_le_level hbefore, tree_climb_cons o.op.one_le_level,
    rest_climb_eq_nil hafter, climb_nil, hright]
  rfl

/-- Every chain with operators has a last one of its loosest. -/
theorem exists_cut (h : chain ≠ []) : ∃ before o after, chain = before ++ o :: after ∧
    (∀ p ∈ before, o.op.level ≤ p.op.level) ∧ ∀ p ∈ after, o.op.level < p.op.level := by
  induction chain with
  | nil => exact absurd rfl h
  | cons p rest ih =>
    by_cases hrest : rest = []
    · exact ⟨[], p, [], by rw [hrest]; rfl, nofun, nofun⟩
    obtain ⟨before, o, after, rfl, hbefore, hafter⟩ := ih hrest
    by_cases hp : o.op.level ≤ p.op.level
    · exact ⟨p :: before, o, after, rfl, List.forall_mem_cons.2 ⟨hp, hbefore⟩, hafter⟩
    · refine ⟨[], p, before ++ o :: after, rfl, nofun, fun q hq => ?_⟩
      have hlt := Nat.lt_of_not_le hp
      rcases List.mem_append.1 hq with hq | hq
      · exact Nat.lt_of_lt_of_le hlt (hbefore q hq)
      rcases List.mem_cons.1 hq with rfl | hq
      · exact hlt
      · exact Nat.lt_trans hlt (hafter q hq)

/-- The tree that is made of a chain is the one that cutting it gives, from top to bottom. -/
theorem chainTree_iff : ChainTree first chain tree ↔ tree = .ofChain first chain := by
  constructor
  · intro h
    induction h with
    | operand e => exact (Expression.ofChain_nil e).symm
    | cut _ _ hbefore hafter ihleft ihright =>
      rw [ihleft, ihright, Expression.ofChain_append _ hbefore hafter]
  · rintro rfl
    induction hn : chain.length using Nat.strongRecOn generalizing first chain with
    | ind n ih =>
      by_cases hchain : chain = []
      · rw [hchain, Expression.ofChain_nil]
        exact .operand first
      · obtain ⟨before, o, after, rfl, hbefore, hafter⟩ := exists_cut hchain
        rw [List.length_append, List.length_cons] at hn
        rw [Expression.ofChain_append first hbefore hafter]
        exact .cut (ih _ (by omega) rfl) (ih _ (by omega) rfl) hbefore hafter

end Wgsl
