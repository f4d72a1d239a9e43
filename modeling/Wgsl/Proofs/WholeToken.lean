import Wgsl.Proofs.Follow
import Wgsl.Proofs.Steps
import Wgsl.Proofs.TokenKind
import Wgsl.Proofs.Upcoming

/-!
# Where tokens are whole

A split leaves a `>`, a `=` or a `>=` that is no token of its own, and such a remainder is read like
any other token. It is never read as an operator: behind an operand the token to be read is whole
(`Nonterminal.keepsWhole`), because every operand ends behind a token that was taken as a whole, and
nothing in the rules between an operand and the operator behind it splits one.
-/

namespace Wgsl

open scoped Rule.Steps

/-- No split leaves a token of this kind, and it is not the end of the file. -/
def TokenKind.isWhole : TokenKind → Bool
  | .endOfFile | .symbol .greaterThan | .symbol .equal | .symbol .greaterThanEqual => false
  | _ => true

namespace Cursor

variable {c : Cursor}

/-- The token to be read is not what is left of another. -/
def Whole (c : Cursor) : Prop := c.current.kind ≠ .endOfFile → c.current ∈ c.upcoming

/-- A token of a kind that is never left of another is one of the upcoming tokens. -/
theorem mem_upcoming_of_kind {k : TokenKind} (h : c.current.kind = k) (hk : k.isWhole = true) :
    c.current ∈ c.upcoming := by
  subst h
  refine current_mem_upcoming (fun hend => ?_) fun hleft => ?_
  · simp [hend, TokenKind.isWhole] at hk
  · simp only [List.mem_cons, List.not_mem_nil, or_false] at hleft
    rcases hleft with hleft | hleft | hleft <;> simp [hleft, TokenKind.isWhole] at hk

/-- Behind a token, the token to be read is whole. -/
@[simp] theorem whole_advance (c : Cursor) : c.advance.Whole := by
  intro hend
  rw [advance] at hend ⊢
  split at hend
  · rename_i hu
    simp [current, hu] at hend
  · rename_i t rest hu
    cases rest with
    | nil => simp [current] at hend
    | cons u rest => simp [current, Token.afterAngles]

end Cursor

namespace Nonterminal

/-- An operand begins with a whole token, and ends before one; what may follow it ends before one if
it begins there. -/
@[simp] def KeepsWhole : (n : Nonterminal) → Cursor → Outcome n.Result → Prop
  | .unary, c, o | .suffixed, c, o | .primary, c, o =>
    o.IfAccepted fun _ d => c.current ∈ c.upcoming ∧ d.Whole
  | .construction _ _, _, o | .arguments, _, o => o.IfAccepted fun _ d => d.Whole
  | .suffixes _, c, o | .operations _, c, o => o.IfAccepted fun _ d => c.Whole → d.Whole
  | _, _, _ => True

variable {options : ReadOptions}

private theorem shows_keepsWhole (n : Nonterminal) :
    n.Shows options (fun _ => True) KeepsWhole := by
  intro c _
  cases n with
  | unary =>
    simp only [Production.ofNonterminal, Production.unary, Rule.steps_eq, Rule.holds_tree]
    split
    · simp +contextual
    · rename_i op hop
      have hc := Cursor.mem_upcoming_of_kind (TokenKind.unary?_eq_some_iff.1 hop)
        (by cases op <;> rfl)
      simp +contextual [hc]
  | suffixed => simp +contextual [Production.suffixed]
  | suffixes base =>
    simp only [Production.ofNonterminal, Production.suffixes, Rule.steps_eq, Rule.holds_tree]
    split
    · simp +contextual
    · simp +contextual
    · split <;> simp +contextual
    · simp
  | primary =>
    simp only [Production.ofNonterminal, Production.primary, Rule.steps_eq, Rule.holds_tree]
    split
    · rename_i hkind
      simp [Cursor.mem_upcoming_of_kind hkind rfl]
    · rename_i hkind
      simp [Cursor.mem_upcoming_of_kind hkind rfl]
    · rename_i hkind
      simp [Cursor.mem_upcoming_of_kind hkind rfl]
    · rename_i hkind
      simp [Cursor.mem_upcoming_of_kind hkind rfl]
    · rename_i hkind
      simp only [Rule.holds_tree]
      split <;> simp +contextual [Cursor.mem_upcoming_of_kind hkind rfl]
    · simp
  | operations inAngles =>
    simp only [Production.ofNonterminal, Production.operations, Rule.steps_eq, Bool.and_eq_true,
      Rule.holds_tree]
    split
    · simp
    · simp +contextual
  | construction type l =>
    simp only [Production.ofNonterminal, Production.construction, Rule.holds_steps, known_iff,
      KeepsWhole, Outcome.ifAccepted_accepted, true_and, Outcome.ifAccepted_rejected, implies_true,
      and_true]
    intro arguments d hd
    split <;> simp [hd]
  | arguments => simp [Production.arguments]
  | _ => exact Rule.Holds.trivial _ c

/-- Behind an operand the token to be read is whole. -/
theorem keepsWhole (options : ReadOptions) (n : Nonterminal) (c : Cursor) :
    n.KeepsWhole c (n.outcome options c) :=
  (outcome_of_shows (P := fun _ => True) (fun _ _ => trivial) (fun _ _ => trivial)
    shows_keepsWhole n trivial).2

end Nonterminal

end Wgsl
