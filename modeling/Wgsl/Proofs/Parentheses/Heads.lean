import Wgsl.Proofs.Parentheses.Apart
import Wgsl.Proofs.Parentheses.Tree

/-!
# The first token of an expression

Where parentheses are kept, the outermost node of an expression tells something of its first token
(`Expression.Heads`): parentheses begin with the one that opens, and a name or a call with a name.
So of a statement it can be told from its tree whether it begins with a parenthesis. And behind
parentheses none are opened, if the tokens are apart.

What is said of the expression with its suffixes is what is said of that without them, since a
suffix makes a node that tells nothing, unless it is a call of a name.
-/

namespace Wgsl

/-- The first token of an expression, as far as its outermost node tells. -/
@[simp] def Expression.Heads (k : TokenKind) : Expression → Prop
  | .grouped .. => k = .symbol .parenLeft
  | .identifier .. | .call .. => ∃ name, k = .identifier name
  | _ => True

/-- Behind a token that closes parentheses none is opened. -/
theorem Cursor.Apart.not_open {c : Cursor} (h : c.Apart)
    (hc : c.current.kind = .symbol .parenRight) : c.advance.current.kind ≠ .symbol .parenLeft := by
  have hmem := current_mem_upcoming (c := c) (by simp [hc]) (by simp [hc])
  rw [Apart] at h
  rw [current] at hc
  rw [current, Cursor.advance]
  rcases hu : c.upcoming with _ | ⟨t, _ | ⟨u, us⟩⟩
  · simp [hu] at hmem
  · simp
  · rw [hu, List.isChain_cons_cons] at h
    have hkind : t.kind = .symbol .parenRight := by
      simp only [hu] at hc
      rcases t.afterAngles_eq_or c.taken with hsame | hleft
      · rwa [hsame] at hc
      · simp [hc] at hleft
    exact h.1 hkind

namespace Nonterminal

/-- What the outermost node of what is read tells of the first token, and of what stands behind. -/
@[simp] def Headed : (n : Nonterminal) → Cursor → n.Result → Cursor → Prop
  | .primary, c, e, d =>
    e.Heads c.current.kind ∧ (e.IsGrouped → d.current.kind ≠ .symbol .parenLeft)
  | .suffixed, c, e, _ | .unary, c, e, _ => e.Heads c.current.kind
  | .suffixes base, _, e, _ => ∀ k, base.Heads k → e.Heads k
  | .construction _ _, _, e, _ => ¬e.IsGrouped ∧ ∀ k, e.Heads k
  | _, _, _, _ => True

/-- The rule shows what the outermost node tells. -/
abbrev ShowsHeaded (n : Nonterminal) : Prop := n.ShowsAccepted .keeping Cursor.Apart Headed

end Nonterminal

namespace Production

open Rule Nonterminal

private theorem headed_construction (t : TypeSpecifier) (l : Location) :
    ShowsHeaded (.construction t l) := by
  intro c _
  simp only [ofNonterminal, construction, yields_steps]
  intro arguments d _
  split
  · exact ⟨id, fun _ => trivial⟩
  · exact ⟨id, fun _ => trivial⟩
  · trivial

private theorem headed_primary : ShowsHeaded .primary := by
  intro c _
  simp only [ofNonterminal, primary, ReadOptions.keeping, if_true, yields_steps]
  split
  · exact ⟨trivial, False.elim⟩
  · exact ⟨trivial, False.elim⟩
  · exact ⟨trivial, False.elim⟩
  · rename_i hopen
    simp only [yields_steps]
    exact fun inner d h hclose => ⟨hopen, fun _ => h.2.1.not_open hclose⟩
  · rename_i name hname
    have hidentifier : (Expression.identifier name c.current.location).Heads c.current.kind :=
      ⟨name, hname⟩
    simp only [yields_steps]
    split
    · refine ⟨fun made d _ e c' h => ?_, hidentifier, False.elim⟩
      obtain ⟨_, _, hgrouped, hheads⟩ := h
      exact ⟨hheads _, fun h => absurd h hgrouped⟩
    · simp only [yields_steps]
      exact ⟨fun _ arguments d _ => ⟨trivial, False.elim⟩, fun _ => ⟨hidentifier, False.elim⟩⟩
    · exact ⟨hidentifier, False.elim⟩
  · trivial

private theorem headed_suffixes (base : Expression) : ShowsHeaded (.suffixes base) := by
  intro c _
  simp only [ofNonterminal, suffixes, yields_steps]
  split
  · simp only [yields_steps]
    exact fun index d _ _ e c' h k _ => h.2.2 k trivial
  · simp only [yields_steps]
    exact fun name _ e c' h k _ => h.2.2 k trivial
  · split
    · exact fun arguments d _ e c' h => h.2.2
    · trivial
  · exact fun k hbase => hbase

private theorem headed_suffixed : ShowsHeaded .suffixed := by
  intro c _
  simp only [ofNonterminal, suffixed, yields_steps]
  exact fun base d hbase e c' h => h.2.2 _ hbase.2.2.1

private theorem headed_unary : ShowsHeaded .unary := by
  intro c _
  simp only [ofNonterminal, unary, yields_steps]
  split
  · exact fun e d he => he.2.2
  · exact fun operand d _ => trivial

/-- The outermost node tells this of what every nonterminal stands for. -/
theorem headed (n : Nonterminal) : ShowsHeaded n := by
  cases n with
  | construction t l => exact headed_construction t l
  | primary => exact headed_primary
  | suffixes base => exact headed_suffixes base
  | suffixed => exact headed_suffixed
  | unary => exact headed_unary
  | _ => exact fun c _ => yields_true _ c

end Production

/-- The outermost node of what is accepted tells what it begins with. -/
theorem Nonterminal.headed_of_accepted {n : Nonterminal} {c d : Cursor} {a : n.Result}
    (hc : c.Apart) (h : n.outcome .keeping c = .accepted a d) : n.Headed c a d :=
  accepted_of_yields (fun _ h => h.advance) (fun _ h => h.split) Production.headed n hc a d h

end Wgsl
