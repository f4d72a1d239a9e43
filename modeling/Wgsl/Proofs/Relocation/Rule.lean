import Wgsl.Proofs.Relocation.Tree

/-!
# Rules that do not look at locations

A rule may put the locations of tokens into what it reads, and into errors, but nothing it does
depends on them. That is a property of the rule alone, without a cursor: `Rule.Relocates` relates a
rule to one that takes the same steps with relocated tokens and comes to the relocated value. Where
every rule of the grammar has it, relocating the tokens relocates the outcome, and does nothing else
(`Grammar.parse_relocate`).

One location is not copied but computed, the one a split leaves; so relocating has to commute with
going one column to the right.
-/

namespace Wgsl

variable (f : Location → Location)

/-! ## Nonterminals and cursors -/

namespace Nonterminal

/-- Relocate what is passed on to a nonterminal. -/
@[simp] def relocate : Nonterminal → Nonterminal
  | .suffixes base => .suffixes (base.relocate f)
  | .construction t l => .construction (t.relocate f) (f l)
  | .variable kind l => .variable kind (f l)
  | n => n

/-- Relocate what a nonterminal stands for. -/
@[simp] def relocated : (n : Nonterminal) → n.Result → (n.relocate f).Result
  | .attribute => Attribute.relocate f
  | .attributes => relocateAttributes f
  | .type | .constructorType => TypeSpecifier.relocate f
  | .typeParameters _ => TypeParameters.relocate f
  | .expression _ | .unary | .suffixed | .suffixes _ | .primary | .construction _ _ =>
    Expression.relocate f
  | .operations _ => List.map (Operation.relocate f)
  | .expressions | .arguments | .selectors => relocateExpressions f
  | .ascription => Option.map (TypeSpecifier.relocate f)
  | .initializer _ | .forCondition => Option.map (Expression.relocate f)
  | .variable _ _ => Variable.relocate f
  | .simpleStatement => SimpleStatement.relocate f
  | .plainStatement | .statement => Statement.relocate f
  | .statements | .block _ => relocateStatements f
  | .conditional | .selection | .iteration | .repetition | .loop => CompoundStatement.relocate f
  | .alternatives => Prod.map (relocateAlternatives f) (relocateOptional f)
  | .clauses _ => relocateClauses f
  | .forInitializer => Option.map (ForInitializer.relocate f)
  | .forUpdate => Option.map (SimpleStatement.relocate f)
  | .loopBody => Prod.map (relocateStatements f) (relocateOptional f)
  | .bindings _ => List.map (Binding.relocate f)
  | .functionResult => Option.map (FunctionResult.relocate f)
  | .function => Function.relocate f
  | .item => Item.relocate f
  | .declaration => Declaration.relocate f
  | .declarations => List.map (Declaration.relocate f)
  | .storage _ | .furtherNames => id

end Nonterminal

namespace Cursor

/-- Relocate the tokens still to be read. -/
def relocate (c : Cursor) : Cursor :=
  ⟨c.upcoming.map (Token.relocate f), c.taken, f c.finish, c.taken_le⟩

variable {f}

/-- What is left of a token behind an angle stands one column to the right, before and after. -/
theorem afterAngle?_relocate (hf : ∀ l, f (l.rightBy 1) = (f l).rightBy 1) (t : Token) :
    (t.relocate f).afterAngle? = t.afterAngle?.map (Token.relocate f) := by
  obtain ⟨kind, l⟩ := t
  cases kind with
  | symbol mark => cases mark <;> simp only [Token.afterAngle?, Token.relocate, Symbol.afterAngle?,
    Option.map_none, Option.map_some, hf]
  | _ => rfl

/-- The same of any number of angles. -/
theorem afterAngles_relocate (hf : ∀ l, f (l.rightBy 1) = (f l).rightBy 1) (t : Token) (n : Nat) :
    (t.relocate f).afterAngles n = (t.afterAngles n).relocate f := by
  induction n with
  | zero => rfl
  | succ n ih =>
    rw [Token.afterAngles, Token.afterAngles, ih, afterAngle?_relocate hf]
    cases (t.afterAngles n).afterAngle? <;> rfl

/-- The upcoming token is relocated with the cursor. -/
theorem current_relocate (hf : ∀ l, f (l.rightBy 1) = (f l).rightBy 1) (c : Cursor) :
    (c.relocate f).current = c.current.relocate f := by
  obtain ⟨upcoming, taken, finish, _⟩ := c
  cases upcoming with
  | nil => rfl
  | cons t upcoming => exact afterAngles_relocate hf t taken

/-- The token behind it is looked at for its kind only. -/
theorem following_relocate (c : Cursor) : (c.relocate f).following = c.following := by
  obtain ⟨_ | ⟨t, _ | ⟨u, upcoming⟩⟩, taken, finish, _⟩ := c <;> rfl

/-- A relocated cursor is advanced as the cursor is. -/
theorem advance_relocate (c : Cursor) : (c.relocate f).advance = c.advance.relocate f := by
  obtain ⟨_ | ⟨t, upcoming⟩, taken, finish, _⟩ := c <;> rfl

/-- A relocated cursor splits the same token. -/
theorem split_relocate (hf : ∀ l, f (l.rightBy 1) = (f l).rightBy 1) (c : Cursor) :
    (c.relocate f).split = c.split.relocate f := by
  have hsplits : ((c.relocate f).taken < 2 ∧ (c.relocate f).current.afterAngle?.isSome) ↔
      c.taken < 2 ∧ c.current.afterAngle?.isSome := by
    rw [current_relocate hf, afterAngle?_relocate hf, Option.isSome_map]
    rfl
  by_cases h : c.taken < 2 ∧ c.current.afterAngle?.isSome
  · rw [split, split, dif_pos h, dif_pos (hsplits.2 h)]
    rfl
  · rw [split, split, dif_neg h, dif_neg (hsplits.not.2 h)]

end Cursor

/-! ## Rules -/

namespace Rule

/-- The second rule does with relocated tokens what the first does, and comes to the value that `m`
makes of the first one's. -/
inductive Relocates {α β : Type} (m : α → β) :
    Production α → Production β → Prop
  | done (a : α) : Relocates m (.done a) (.done (m a))
  | fail (e : ParseError) : Relocates m (.fail e) (.fail (e.relocate f))
  | look {k : Token → Production α} {k' : Token → Production β}
      (h : ∀ t, Relocates m (k t) (k' (t.relocate f))) : Relocates m (.look k) (.look k')
  | lookBehind {k : TokenKind → Production α} {k' : TokenKind → Production β}
      (h : ∀ kind, Relocates m (k kind) (k' kind)) : Relocates m (.lookBehind k) (.lookBehind k')
  | advance {r : Production α} {r' : Production β} (h : Relocates m r r') :
    Relocates m (.advance r) (.advance r')
  | split {r : Production α} {r' : Production β} (h : Relocates m r r') :
    Relocates m (.split r) (.split r')
  | read {n : Nonterminal} {k : n.Result → Production α}
      {k' : (n.relocate f).Result → Production β}
      (h : ∀ a, Relocates m (k a) (k' (n.relocated f a))) :
    Relocates m (.read n k) (.read (n.relocate f) k')
  | attempt {n : Nonterminal} {k : Option n.Result → Production α}
      {k' : Option (n.relocate f).Result → Production β}
      (h : ∀ a, Relocates m (k a) (k' (a.map (n.relocated f)))) :
    Relocates m (.attempt n k) (.attempt (n.relocate f) k')

namespace Relocates

variable {f} {α β γ δ : Type} {m : α → β} {m' : γ → δ}

/-- One rule behind another, where the second depends on a value only as far as it is relocated. -/
theorem bind {r : Production α} {r' : Production β} {k : α → Production γ} {k' : β → Production δ}
    (h : Relocates f m r r') (hk : ∀ a, Relocates f m' (k a) (k' (m a))) :
    Relocates f m' (r >>= k) (r' >>= k') := by
  induction h with
  | done a => exact hk a
  | fail e => exact .fail e
  | look _ ih => exact .look ih
  | lookBehind _ ih => exact .lookBehind ih
  | advance _ ih => exact .advance ih
  | split _ ih => exact .split ih
  | read _ ih => exact .read ih
  | attempt _ ih => exact .attempt ih

/-- A condition that does not depend on locations chooses alike. -/
theorem ite {p : Prop} [Decidable p] {r s : Production α} {r' s' : Production β}
    (h : Relocates f m r r') (hs : Relocates f m s s') :
    Relocates f m (if p then r else s) (if p then r' else s') := by
  split
  · exact h
  · exact hs

/-! ### Steps -/

/-- A nonterminal relocates its value. -/
theorem parse (n : Nonterminal) :
    Relocates f (n.relocated f) (Production.parse n) (Production.parse (n.relocate f)) :=
  .read fun a => .done a

theorem parse? (n : Nonterminal) : Relocates f (Option.map (n.relocated f))
    (Production.parse? n) (Production.parse? (n.relocate f)) :=
  .attempt fun a => .done a

theorem pure (a : α) {b : β} (h : b = m a) : Relocates f m (pure a : Production α) (Pure.pure b) :=
  h ▸ .done a

theorem current : Relocates f (Token.relocate f) current current := .look fun t => .done t

theorem following : Relocates f id following following := .lookBehind fun kind => .done kind

theorem skip : Relocates f id skip skip := .advance (.done ())

theorem unexpected (expected : Expectation) :
    Relocates f m (unexpected expected) (unexpected expected) := by
  refine .look fun t => ?_
  have herror : ParseError.ofToken expected (t.relocate f) =
      (ParseError.ofToken expected t).relocate f := by
    obtain ⟨kind, l⟩ := t
    cases kind <;> rfl
  rw [herror]
  exact .fail _

theorem sees (mark : Symbol) : Relocates f id (sees mark) (sees mark) :=
  current.bind fun _ => .done _

theorem accept (mark : Symbol) : Relocates f id (accept mark) (accept mark) :=
  current.bind fun _ => .ite (skip.bind fun _ => .done true) (.done false)

theorem expect (mark : Symbol) (place : String) :
    Relocates f id (expect mark place) (expect mark place) :=
  current.bind fun _ => .ite skip (unexpected _)

theorem identifier (expected : Expectation) :
    Relocates f id (identifier expected) (identifier expected) := by
  refine current.bind fun t => ?_
  obtain ⟨kind, l⟩ := t
  cases kind with
  | identifier name => exact skip.bind fun _ => .done name
  | _ => exact unexpected expected

theorem closeAngle (hf : ∀ l, f (l.rightBy 1) = (f l).rightBy 1) (expected : Expectation) :
    Relocates f id (closeAngle expected) (closeAngle expected) := by
  refine current.bind fun t => .ite skip ?_
  rw [Cursor.afterAngle?_relocate hf, Option.isSome_map]
  exact .ite (.split (.done ())) (unexpected expected)

end Relocates

end Rule

/-! ## Running -/

/-- Relocate the value or the error, and the cursor. -/
def Outcome.relocate {α β : Type} (m : α → β) : Outcome α → Outcome β
  | .accepted a c => .accepted (m a) (c.relocate f)
  | .rejected e c => .rejected (e.relocate f) (c.relocate f)

variable {f}

/-- Where nonterminals are read from relocated tokens to relocated outcomes, rules that do not look
at locations come to relocated outcomes too. -/
theorem Rule.Relocates.run {α β : Type} {m : α → β} {r : Production α} {r' : Production β}
    (h : Relocates f m r r') (hf : ∀ l, f (l.rightBy 1) = (f l).rightBy 1)
    {p : (n : Nonterminal) → Cursor → Option (Outcome n.Result)}
    (hp : ∀ n c, p (n.relocate f) (c.relocate f) =
      (p n c).map (Outcome.relocate f (n.relocated f))) (c : Cursor) :
    r'.run p (c.relocate f) = (r.run p c).map (Outcome.relocate f m) := by
  induction h generalizing c with
  | done | fail => rfl
  | look _ ih => rw [Rule.run, Rule.run, Cursor.current_relocate hf, ih]
  | lookBehind _ ih => rw [Rule.run, Rule.run, Cursor.following_relocate, ih]
  | advance _ ih => rw [Rule.run, Rule.run, Cursor.advance_relocate, ih]
  | split _ ih => rw [Rule.run, Rule.run, Cursor.split_relocate hf, ih]
  | @read n _ _ _ ih =>
    rw [Rule.run, Rule.run, hp]
    cases p n c with
    | none => rfl
    | some o =>
      cases o with
      | accepted a d => exact ih a d
      | rejected e d => rfl
  | @attempt n _ _ _ ih =>
    rw [Rule.run, Rule.run, hp]
    cases p n c with
    | none => rfl
    | some o =>
      cases o with
      | accepted a d => exact ih (some a) d
      | rejected e d => exact ih none c

/-- Where no rule of a grammar looks at locations, relocated tokens come to the relocated
outcome. -/
theorem Grammar.parse_relocate {g : Grammar Nonterminal.Result}
    (hg : ∀ n, Rule.Relocates f (n.relocated f) (g n) (g (n.relocate f)))
    (hf : ∀ l, f (l.rightBy 1) = (f l).rightBy 1) (depth : Nat) (n : Nonterminal) (c : Cursor) :
    g.parse depth (n.relocate f) (c.relocate f) =
      (g.parse depth n c).map (Outcome.relocate f (n.relocated f)) := by
  induction depth generalizing n c with
  | zero => rfl
  | succ depth ih => exact (hg n).run hf ih c

end Wgsl
