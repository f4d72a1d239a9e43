import Wgsl.Proofs.Speculation.Ahead
import Wgsl.Proofs.Speculation.Names

/-!
# Samples

For every nonterminal some tokens are given that it reads (`Nonterminal.sample`), as few as it
takes, and some of the tokens that may stand behind them (`Nonterminal.followers`): none of these
makes a rule go on.

That the rule of a nonterminal takes its sample is seen from the rule (`Rule.Takes`). Where it reads
another nonterminal, it relies on the sample of that one, and on what follows there. So samples are
read if every rule takes its own (`Rule.Takes.comesTo`).
-/

namespace Wgsl

open scoped Rule.Steps

namespace TokenKind

/-- Some name. -/
abbrev someName : TokenKind := .identifier "a"

/-- What goes on with no type, no expression and no statement. -/
abbrev enders : List TokenKind :=
  [.symbol .parenRight, .symbol .bracketRight, .symbol .semicolon, .symbol .braceLeft,
   .symbol .braceRight, .symbol .equal, .endOfFile]

/-- What closes an angle with its first character, and nothing else. -/
abbrev angles : List TokenKind := [.symbol .greaterThan, .symbol .shiftRight]

end TokenKind

namespace Nonterminal

open TokenKind

/-- What a sample of the nonterminal may stand before. -/
@[simp] def followers : Nonterminal → List TokenKind
  | .attribute | .attributes => someName :: .keyword .fn :: enders
  | .type | .typeParameters _ | .constructorType | .expression true | .operations true | .unary
  | .suffixed | .suffixes _ | .primary | .arguments | .construction _ _ => angles ++ enders
  | .expressions | .forUpdate => [.symbol .parenRight]
  | .storage _ => [someName]
  | .initializer _ | .variable _ _ | .forInitializer | .forCondition | .furtherNames =>
    [.symbol .semicolon]
  | .simpleStatement => [.symbol .semicolon, .symbol .parenRight]
  | .statement | .statements | .clauses _ | .loopBody => [.symbol .braceRight]
  | .selectors | .functionResult => [.symbol .braceLeft]
  | .bindings role => [.symbol role.closing]
  | .declaration | .declarations => [.endOfFile]
  | _ => enders

/-- Tokens that the nonterminal reads. -/
@[simp] def sample : Nonterminal → List TokenKind
  | .attribute => [.symbol .attr, someName]
  | .type | .constructorType | .expression _ | .unary | .suffixed | .primary | .selectors =>
    [someName]
  | .typeParameters typeName =>
    if typeName = "ptr" then [someName, .symbol .comma, someName, .symbol .greaterThan]
    else [someName, .symbol .greaterThan]
  | .arguments | .construction _ _ => [.symbol .parenLeft, .symbol .parenRight]
  | .block _ | .statement | .loop => [.symbol .braceLeft, .symbol .braceRight]
  | .initializer _ => [.symbol .equal, someName]
  | .variable _ _ | .simpleStatement => [someName, .symbol .equal, someName]
  | .plainStatement => [.keyword .discard, .symbol .semicolon]
  | .conditional | .selection | .repetition => [someName, .symbol .braceLeft, .symbol .braceRight]
  | .iteration =>
    [.symbol .parenLeft, .symbol .semicolon, .symbol .semicolon, .symbol .parenRight,
     .symbol .braceLeft, .symbol .braceRight]
  | .function =>
    [someName, .symbol .parenLeft, .symbol .parenRight, .symbol .braceLeft, .symbol .braceRight]
  | .item | .declaration =>
    [.keyword .fn, someName, .symbol .parenLeft, .symbol .parenRight, .symbol .braceLeft,
     .symbol .braceRight]
  | _ => []

/-- The nonterminal is read, not only tried, and is no bitcast: those take one argument, and are
refused behind the last of them. -/
@[simp] def IsRead : Nonterminal → Prop
  | .constructorType => False
  | .construction made _ => made.bitcastTarget? = none
  | _ => True

/-- What is known of what is read from one token at least. -/
@[simp] def Yields : (n : Nonterminal) → n.Result → Prop
  | .initializer _, value => value.isSome
  | _, _ => True

/-- Behind a sample of the nonterminal, other tokens may stand before what may follow. -/
@[simp] def StandsBefore (n : Nonterminal) (F : List TokenKind) : List TokenKind → Prop
  | [] => ∀ k ∈ F, k ∈ n.followers
  | k :: _ => k ∈ n.followers

end Nonterminal

namespace Rule

variable {α : Type}

/-- The rule takes all tokens of these kinds, before a token that may follow, and comes to a value.
The tokens lie where they may: the rule does not ask. -/
@[simp] def Takes (F : List TokenKind) (Y : α → Prop) : Production α → List TokenKind → Prop
  | .done a, w => w = [] ∧ Y a
  | .fail _, _ => False
  | .look k, [] => ∀ kind ∈ F, ∀ l, (k ⟨kind, l⟩).Takes F Y []
  | .look k, kind :: w => (k ⟨kind, .start⟩).Takes F Y (kind :: w)
  | .lookBehind _, [] => False
  | .lookBehind k, [kind] => ∀ next ∈ F, (k next).Takes F Y [kind]
  | .lookBehind k, kind :: next :: w => (k next).Takes F Y (kind :: next :: w)
  | .advance _, [] => False
  | .advance k, _ :: w => k.Takes F Y w
  | .split _, _ => False
  | .read m k, w =>
    m.IsRead ∧ ∃ w', w = m.sample ++ w' ∧ m.StandsBefore F w' ∧
      ∀ b, m.Yields b → (k b).Takes F Y w'
  | .attempt _ _, _ => False

variable {F : List TokenKind} {Y : α → Prop} {w : List TokenKind}

@[simp] theorem takes_ite {p : Prop} [Decidable p] {r r' : Production α} :
    (if p then r else r').Takes F Y w ↔ (p → r.Takes F Y w) ∧ (¬p → r'.Takes F Y w) := by
  split <;> simp_all

@[simp] theorem takes_elim {γ : Type} {o : Option γ} {r : Production α} {f : γ → Production α} :
    (o.elim r f).Takes F Y w ↔
      (o = none → r.Takes F Y w) ∧ ∀ a, o = some a → (f a).Takes F Y w := by
  cases o <;> simp

end Rule

/-! ## Samples are read -/

/-- Tokens of given kinds. -/
def tokensOf (w : List TokenKind) : List Token := w.map (⟨·, .start⟩)

@[simp] theorem tokensOf_nil : tokensOf [] = [] := rfl

/-- Samples are written one behind the other. -/
theorem tokensOf_append (v w : List TokenKind) : tokensOf (v ++ w) = tokensOf v ++ tokensOf w :=
  List.map_append

section Reading

variable {options : ReadOptions} {l : Location}

/-- The nonterminal reads its sample, before what may follow. -/
def Nonterminal.ReadsSample (options : ReadOptions) (l : Location) (n : Nonterminal) (c : Cursor) :
    Prop :=
  n.IsRead → ∀ ts, c = .before (tokensOf n.sample ++ ts) l →
    (Cursor.before ts l).current.kind ∈ n.followers →
      ∃ a, n.Yields a ∧ n.outcome options c = .accepted a (.before ts l)

/-- What a sample stands before may follow the nonterminal. -/
theorem Nonterminal.StandsBefore.mem {n : Nonterminal} {F w : List TokenKind} {ts : List Token}
    (h : n.StandsBefore F w) (hts : (Cursor.before ts l).current.kind ∈ F) :
    (Cursor.before (tokensOf w ++ ts) l).current.kind ∈ n.followers := by
  cases w with
  | nil => exact h _ hts
  | cons k w => exact h

/-- A rule takes what it should if the nonterminals read their samples that it reads. -/
theorem Rule.Takes.comesTo {α : Type} {r : Production α} {F w : List TokenKind} {Y : α → Prop}
    {ts : List Token} (hr : r.Takes F Y w) (hts : (Cursor.before ts l).current.kind ∈ F)
    (ha : r.Along (fun n c => n.outcome options c) (Nonterminal.ReadsSample options l)
      (.before (tokensOf w ++ ts) l)) :
    ∃ a, Y a ∧ r.comesTo options (.before (tokensOf w ++ ts) l) = .accepted a (.before ts l) := by
  induction r generalizing w with
  | done a =>
    obtain ⟨rfl, hY⟩ := hr
    exact ⟨a, hY, rfl⟩
  | fail e => exact hr.elim
  | look k ih =>
    cases w with
    | nil => exact ih _ (hr _ hts _) ha
    | cons kind w => exact ih _ hr ha
  | lookBehind k ih =>
    cases w with
    | nil => exact hr.elim
    | cons kind w =>
      cases w with
      | nil =>
        have hnext : (Cursor.before (tokensOf [kind] ++ ts) l).following =
            (Cursor.before ts l).current.kind := by
          rw [Cursor.following_eq]
          rfl
        rw [Along, hnext] at ha
        rw [Production.comesTo, follow, hnext]
        exact ih _ (hr _ hts) ha
      | cons next w => exact ih _ hr ha
  | advance k ih =>
    cases w with
    | nil => exact hr.elim
    | cons kind w => exact ih hr ha
  | split k ih => exact hr.elim
  | read m k ih =>
    obtain ⟨hm, w', rfl, hbefore, hk⟩ := hr
    rw [tokensOf_append, List.append_assoc] at ha ⊢
    obtain ⟨b, hb, ho⟩ := ha.1 hm _ rfl (hbefore.mem hts)
    rw [Production.comesTo_read_of_accepted ho]
    exact ih b (hk b hb) (ha.2 b _ ho)
  | attempt m k ih => exact hr.elim

end Reading

end Wgsl
