import Wgsl.Proofs.Follow

/-!
# Rules as trees of steps

The steps that rules are written with, such as expecting a symbol, are themselves rules put
together. With what goes on behind it, each is a tree of looks and moves, and these equations say
which. Rewritten by them a rule of the grammar is a tree in plain sight, so a predicate on rules
that is defined by recursion on the tree is computed and needs no lemmas of its own.
-/

namespace Wgsl

/-- The name that a token is. -/
def TokenKind.name? : TokenKind → Option String
  | .identifier name => some name
  | _ => none

@[simp] theorem TokenKind.name?_eq_some_iff {k : TokenKind} {name : String} :
    k.name? = some name ↔ k = .identifier name := by
  cases k <;> simp [name?]

@[simp] theorem TokenKind.name?_eq_none_iff {k : TokenKind} :
    k.name? = none ↔ ∀ name, k ≠ .identifier name := by
  cases k <;> simp [name?]

namespace Rule

variable {N : Type} {R : N → Type} {α β : Type}

theorem done_bind (a : α) (f : α → Rule R β) : (done a : Rule R α).bind f = f a := rfl

theorem fail_bind (e : ParseError) (f : α → Rule R β) :
    (fail e : Rule R α).bind f = fail e := rfl

theorem look_bind (k : Token → Rule R α) (f : α → Rule R β) :
    (look k).bind f = look fun t => (k t).bind f := rfl

theorem lookBehind_bind (k : TokenKind → Rule R α) (f : α → Rule R β) :
    (lookBehind k).bind f = lookBehind fun kind => (k kind).bind f := rfl

theorem advance_bind (k : Rule R α) (f : α → Rule R β) :
    (advance k).bind f = advance (k.bind f) := rfl

theorem split_bind (k : Rule R α) (f : α → Rule R β) :
    (split k).bind f = split (k.bind f) := rfl

theorem read_bind (n : N) (k : R n → Rule R α) (f : α → Rule R β) :
    (Rule.read n k).bind f = .read n fun a => (k a).bind f := rfl

theorem attempt_bind (n : N) (k : Option (R n) → Rule R α) (f : α → Rule R β) :
    (Rule.attempt n k).bind f = .attempt n fun a => (k a).bind f := rfl

/-- Where a rule goes on depends on a test. -/
theorem ite_bind {p : Prop} [Decidable p] (r r' : Rule R α) (f : α → Rule R β) :
    (if p then r else r').bind f = if p then r.bind f else r'.bind f := by
  split <;> rfl

theorem current_eq : (current : Rule R Token) = look .done := rfl

theorem following_eq : (following : Rule R TokenKind) = lookBehind .done := rfl

theorem skip_eq : (skip : Rule R Unit) = advance (.done ()) := rfl

theorem unexpected_eq (expected : Expectation) :
    (unexpected expected : Rule R α) = look fun t => .fail (.ofToken expected t) := rfl

theorem sees_eq (mark : Symbol) :
    (sees mark : Rule R Bool) = look fun t => .done (decide (t.kind = .symbol mark)) := rfl

theorem accept_eq (mark : Symbol) :
    (accept mark : Rule R Bool) =
      look fun t => if t.kind = .symbol mark then advance (.done true) else .done false := rfl

theorem expect_eq (mark : Symbol) (place : String) :
    (expect mark place : Rule R Unit) = look fun t =>
      if t.kind = .symbol mark then advance (.done ()) else unexpected (.symbol mark place) := rfl

theorem identifier_bind (expected : Expectation) (f : String → Rule R β) :
    (identifier expected).bind f = look fun t =>
      t.kind.name?.elim (unexpected expected) fun name => advance (f name) := by
  rw [identifier]
  simp only [bind_eq, current_eq, look_bind, done_bind]
  refine congrArg look (funext fun t => ?_)
  cases hkind : t.kind <;>
    simp [TokenKind.name?, skip_eq, unexpected_eq, look_bind, fail_bind, done_bind, advance_bind]

theorem closeAngle_eq (expected : Expectation) :
    (closeAngle expected : Rule R Unit) = look fun t =>
      if t.kind = .symbol .greaterThan then advance (.done ())
      else if t.afterAngle?.isSome then split (.done ())
      else unexpected expected := rfl

/-- The tree that each step of a rule is, with what goes on behind it. -/
theorem steps_eq :
    type_of% @bind_eq ∧ type_of% @pure_eq ∧ type_of% @done_bind ∧ type_of% @fail_bind ∧
    type_of% @look_bind ∧ type_of% @lookBehind_bind ∧ type_of% @advance_bind ∧
    type_of% @split_bind ∧ type_of% @read_bind ∧ type_of% @attempt_bind ∧ type_of% @ite_bind ∧
    type_of% @current_eq ∧ type_of% @following_eq ∧ type_of% @skip_eq ∧ type_of% @unexpected_eq ∧
    type_of% @sees_eq ∧ type_of% @accept_eq ∧ type_of% @expect_eq ∧ type_of% @identifier_bind :=
  ⟨bind_eq, pure_eq, done_bind, fail_bind, look_bind, lookBehind_bind, advance_bind, split_bind,
    read_bind, attempt_bind, ite_bind, current_eq, following_eq, skip_eq, unexpected_eq, sees_eq,
    accept_eq, expect_eq, identifier_bind⟩

/-! ## Followed -/

variable {outcome : (n : N) → Cursor → Outcome (R n)} {c : Cursor}

theorem follow_look (k : Token → Rule R α) :
    (look k).follow outcome c = (k c.current).follow outcome c := rfl

theorem follow_lookBehind (k : TokenKind → Rule R α) :
    (lookBehind k).follow outcome c = (k c.following).follow outcome c := rfl

theorem follow_advance (k : Rule R α) :
    (advance k).follow outcome c = k.follow outcome c.advance := rfl

theorem follow_elim {γ : Type} (o : Option γ) (r : Rule R α) (f : γ → Rule R α) :
    (o.elim r f).follow outcome c =
      o.elim (r.follow outcome c) fun a => (f a).follow outcome c := by
  cases o <;> rfl

theorem follow_split (k : Rule R α) :
    (split k).follow outcome c = k.follow outcome c.split := rfl

variable {pre : N → Cursor → Prop} {post : (n : N) → Cursor → Outcome (R n) → Prop}
variable {Q : Outcome α → Prop}

theorem holds_look (k : Token → Rule R α) :
    (look k).Holds pre post c Q ↔ (k c.current).Holds pre post c Q := .rfl

theorem holds_lookBehind (k : TokenKind → Rule R α) :
    (lookBehind k).Holds pre post c Q ↔ (k c.following).Holds pre post c Q := .rfl

theorem holds_advance (k : Rule R α) :
    (advance k).Holds pre post c Q ↔ k.Holds pre post c.advance Q := .rfl

theorem holds_split (k : Rule R α) :
    (split k).Holds pre post c Q ↔ k.Holds pre post c.split Q := .rfl

theorem holds_elim {γ : Type} (o : Option γ) (r : Rule R α) (f : γ → Rule R α) :
    (o.elim r f).Holds pre post c Q ↔
      (o = none → r.Holds pre post c Q) ∧ ∀ a, o = some a → (f a).Holds pre post c Q := by
  cases o <;> simp

/-- When a tree of steps holds. -/
theorem holds_tree :
    type_of% @holds_look ∧ type_of% @holds_lookBehind ∧ type_of% @holds_advance ∧
    type_of% @holds_split ∧ type_of% @holds_elim :=
  ⟨holds_look, holds_lookBehind, holds_advance, holds_split, holds_elim⟩

/-! ## In plain sight

The equations are no simp lemmas everywhere: a predicate on rules that has lemmas for the steps as
they are written would lose them. -/

namespace Steps

attribute [scoped simp] done_bind fail_bind look_bind lookBehind_bind advance_bind split_bind
  read_bind attempt_bind ite_bind current_eq following_eq skip_eq unexpected_eq sees_eq
  accept_eq expect_eq identifier_bind follow_look follow_lookBehind follow_advance follow_elim
  follow_split holds_look holds_lookBehind holds_advance holds_split holds_elim

end Steps

end Rule

end Wgsl
