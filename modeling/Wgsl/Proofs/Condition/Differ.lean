import Wgsl.Proofs.Redundant.Value
import Wgsl.Proofs.Redundant.Aspect
import Wgsl.Proofs.Relocation.Rule

/-!
# Trees that differ in a condition

Two results differ if not their locations alone do (`Nonterminal.Differ`); of two conditions the
outermost parentheses do not count either. A rule that goes on behind a condition, or behind what
has conditions in it, does the same whatever this was (`Rule.Abreast`), and makes different results
of different ones (`Production.differs`). So what reads of trees that differ in a condition
differs.
-/

namespace Wgsl

open scoped Rule.Steps

/-- An expression has no conditions in it. -/
theorem Nonterminal.tests_of_inExpression {n m : Nonterminal} (hn : n.takesCondition = false)
    (hm : m.inExpression = true) : n.tests m = false := by
  cases m with
  | expression _ => exact hn
  | _ => first | rfl | cases hm

/-- The results differ, and not in locations alone. Conditions differ without their outermost
parentheses. -/
@[simp] def Nonterminal.Differ : (n : Nonterminal) → n.Result → n.Result → Prop
  | .expression _, a, b =>
    a.withoutParentheses.relocate (fun _ => .start) ≠
      b.withoutParentheses.relocate fun _ => .start
  | n, a, b => n.relocated (fun _ => .start) a ≠ n.relocated (fun _ => .start) b

/-- Expressions differ if they do without their outermost parentheses. -/
theorem Expression.relocate_ne_of_withoutParentheses {f : Location → Location} {a b : Expression}
    (h : a.withoutParentheses.relocate f ≠ b.withoutParentheses.relocate f) :
    a.relocate f ≠ b.relocate f := fun heq => h <| by
  rw [← withoutParentheses_relocate, heq, withoutParentheses_relocate]

namespace Rule

variable {α β : Type}

/-- The rules take the same steps, whatever they read, and come to related results. -/
inductive Abreast (R : α → β → Prop) : Production α → Production β → Prop
  | done {a : α} {b : β} (h : R a b) : Abreast R (.done a) (.done b)
  | fail {e e' : ParseError} : Abreast R (.fail e) (.fail e')
  | look {k : Token → Production α} {k' : Token → Production β}
    (h : ∀ t, Abreast R (k t) (k' t)) : Abreast R (.look k) (.look k')
  | lookBehind {k : TokenKind → Production α} {k' : TokenKind → Production β}
    (h : ∀ kind, Abreast R (k kind) (k' kind)) : Abreast R (.lookBehind k) (.lookBehind k')
  | advance {r : Production α} {r' : Production β} (h : Abreast R r r') :
    Abreast R (.advance r) (.advance r')
  | split {r : Production α} {r' : Production β} (h : Abreast R r r') :
    Abreast R (.split r) (.split r')
  | read {m : Nonterminal} {k : m.Result → Production α} {k' : m.Result → Production β}
    (h : ∀ a, Abreast R (k a) (k' a)) : Abreast R (.read m k) (.read m k')
  | attempt {m : Nonterminal} {k : Option m.Result → Production α}
    {k' : Option m.Result → Production β} (h : ∀ o, Abreast R (k o) (k' o)) :
    Abreast R (.attempt m k) (.attempt m k')

namespace Abreast

variable {R : α → β → Prop} {r s : Production α} {r' s' : Production β} {m : Nonterminal}

@[simp] theorem done_iff {a : α} {b : β} :
    Abreast R (.done a : Production α) (.done b) ↔ R a b :=
  ⟨fun h => by cases h; assumption, .done⟩

@[simp] theorem fail_iff {e e' : ParseError} :
    Abreast R (.fail e : Production α) (.fail e') ↔ True :=
  ⟨fun _ => trivial, fun _ => .fail⟩

@[simp] theorem look_iff {k : Token → Production α} {k' : Token → Production β} :
    Abreast R (.look k) (.look k') ↔ ∀ t, Abreast R (k t) (k' t) :=
  ⟨fun h => by cases h; assumption, .look⟩

@[simp] theorem advance_iff : Abreast R (.advance r) (.advance r') ↔ Abreast R r r' :=
  ⟨fun h => by cases h; assumption, .advance⟩

@[simp] theorem read_iff {k : m.Result → Production α} {k' : m.Result → Production β} :
    Abreast R (.read m k) (.read m k') ↔ ∀ a, Abreast R (k a) (k' a) :=
  ⟨fun h => by cases h; assumption, .read⟩

@[simp] theorem ite_iff {p : Prop} [Decidable p] :
    Abreast R (if p then r else s) (if p then r' else s') ↔
      (p → Abreast R r r') ∧ (¬p → Abreast R s s') := by
  split <;> simp_all

@[simp] theorem elim_iff {γ : Type} {o : Option γ} {f : γ → Production α} {f' : γ → Production β} :
    Abreast R (o.elim r f) (o.elim r' f') ↔
      (o = none → Abreast R r r') ∧ ∀ a, o = some a → Abreast R (f a) (f' a) := by
  cases o <;> simp

/-- From one place, rules that go abreast are both refused, or both come to the same place. -/
theorem alike (h : Abreast R r r') (options : ReadOptions) (c : Cursor) :
    (r.comesTo options c).Alike R (r'.comesTo options c) := by
  induction h generalizing c with
  | done h => exact ⟨h, rfl⟩
  | fail => trivial
  | look _ ih => exact ih c.current c
  | lookBehind _ ih => exact ih c.following c
  | advance _ ih => exact ih c.advance
  | split _ ih => exact ih c.split
  | @read m k k' _ ih =>
    cases ho : m.outcome options c with
    | accepted a d =>
      rw [Production.comesTo_read_of_accepted ho, Production.comesTo_read_of_accepted ho]
      exact ih a d
    | rejected e d =>
      rw [Production.comesTo_read_of_rejected ho, Production.comesTo_read_of_rejected ho]
      trivial
  | @attempt m k k' _ ih =>
    cases ho : m.outcome options c with
    | accepted a d =>
      rw [Production.comesTo_attempt_of_accepted ho, Production.comesTo_attempt_of_accepted ho]
      exact ih (some a) d
    | rejected e d =>
      rw [Production.comesTo_attempt_of_rejected ho, Production.comesTo_attempt_of_rejected ho]
      exact ih none c

end Abreast

/-- A rule reads a condition, or what has conditions in it, only for a nonterminal with conditions
in it. It makes different results of different ones. -/
def Differs (R : α → α → Prop) (n : Nonterminal) (_seen : Option Token) : Production α → Prop
  | .read m k => n.tests m = true →
    n.holdsConditions = true ∧ ∀ a b, m.Differ a b → (k a).Abreast R (k b)
  | _ => True

section

variable {R : α → α → Prop} {n m : Nonterminal} {seen : Option Token}

@[simp] theorem differs_done {a : α} : Differs R n seen (.done a) := trivial

@[simp] theorem differs_fail {e : ParseError} : Differs R n seen (.fail e) := trivial

@[simp] theorem differs_look {k : Token → Production α} : Differs R n seen (.look k) := trivial

@[simp] theorem differs_lookBehind {k : TokenKind → Production α} :
    Differs R n seen (.lookBehind k) := trivial

@[simp] theorem differs_advance {k : Production α} : Differs R n seen (.advance k) := trivial

@[simp] theorem differs_split {k : Production α} : Differs R n seen (.split k) := trivial

@[simp] theorem differs_read {k : m.Result → Production α} :
    Differs R n seen (.read m k) ↔ (n.tests m = true →
      n.holdsConditions = true ∧ ∀ a b, m.Differ a b → (k a).Abreast R (k b)) := .rfl

@[simp] theorem differs_attempt {k : Option m.Result → Production α} :
    Differs R n seen (.attempt m k) := trivial

end

/-- There are no conditions in an expression. -/
theorem Twins.differs {R S : α → α → Prop} {n : Nonterminal} {r : Production α} (hr : r.Twins S r)
    (hn : n.takesCondition = false) (seen : Option Token) : r.Always (Differs R n) seen := by
  induction r generalizing seen with
  | done | fail => trivial
  | look _ ih => exact ⟨trivial, fun t _ => ih t (hr t) (some t)⟩
  | lookBehind _ ih => exact ⟨trivial, fun kind => ih kind (hr kind) seen⟩
  | advance _ ih | split _ ih => exact ⟨trivial, ih hr none⟩
  | read m _ ih =>
    have hm := Nonterminal.tests_of_inExpression hn (Nonterminal.kin_self_iff.1 hr.1)
    exact ⟨fun htests => (nomatch hm.symm.trans htests), fun a => ih a (hr.2 a a rfl) none⟩
  | attempt _ _ ih =>
    exact ⟨trivial, fun a => ih (some a) (hr.2.1 a a rfl) none, ih none hr.2.2 seen⟩

end Rule

namespace Production

open Rule Nonterminal

variable (options : ReadOptions)

/-- The rule of the nonterminal makes different results of different conditions. -/
abbrev DiffersIn (n : Nonterminal) : Prop :=
  (ofNonterminal options n).Always (Differs n.Differ n) none

private theorem differs_block (place : String) : DiffersIn options (.block place) := by
  simp +contextual [block, DiffersIn]

private theorem differs_plainStatement : DiffersIn options .plainStatement := by
  simp only [DiffersIn, ofNonterminal, plainStatement, steps_eq, ↓reduceIte, Bool.false_eq_true,
    condition, Always, differs_look, true_and]
  intro t
  split
  · simp +contextual [Expression.relocate_ne_of_withoutParentheses]
  · simp +contextual
  · simp
  · simp
  · simp +contextual
  · simp +contextual
  · split <;> simp

private theorem differs_statement : DiffersIn options .statement := by
  simp only [DiffersIn, ofNonterminal, statement, steps_eq, Always, differs_read, tests,
    holdsConditions, takesCondition, Bool.false_eq_true, true_and, IsEmpty.forall_iff, differs_look]
  intro attributes t
  split <;> simp

private theorem differs_statements : DiffersIn options .statements := by
  simp only [DiffersIn, ofNonterminal, statements, steps_eq, Always, differs_look, true_and]
  intro t
  split <;> simp

private theorem differs_conditional : DiffersIn options .conditional := by
  simp [conditional, condition, DiffersIn]

private theorem differs_alternatives : DiffersIn options .alternatives := by
  simp [alternatives, condition, DiffersIn]

private theorem differs_selection : DiffersIn options .selection := by
  simp +contextual [selection, condition, DiffersIn]

private theorem differs_clauses (hasDefault : Bool) : DiffersIn options (.clauses hasDefault) := by
  simp only [DiffersIn, ofNonterminal, clauses, steps_eq, Always, differs_look, true_and]
  intro t
  split <;> simp

private theorem differs_iteration : DiffersIn options .iteration := by
  simp [iteration, DiffersIn]

private theorem differs_repetition : DiffersIn options .repetition := by
  simp [repetition, condition, DiffersIn]

private theorem differs_loop : DiffersIn options .loop := by
  simp +contextual [loop, DiffersIn]

private theorem differs_loopBody : DiffersIn options .loopBody := by
  simp only [DiffersIn, ofNonterminal, loopBody, steps_eq, Always, differs_look, true_and]
  intro t
  split <;> simp

private theorem differs_function : DiffersIn options .function := by
  simp [function, DiffersIn]

private theorem differs_item : DiffersIn options .item := by
  simp only [DiffersIn, ofNonterminal, item, steps_eq, condition, Always, differs_look, true_and]
  intro t
  split
  · simp
  · simp
  · simp
  · simp
  · simp +contextual
  · simp +contextual
  · simp
  · simp
  · simp
  · split <;> simp

private theorem differs_declaration : DiffersIn options .declaration := by
  simp [declaration, DiffersIn]

private theorem differs_declarations : DiffersIn options .declarations := by
  simp only [DiffersIn, ofNonterminal, declarations, steps_eq, Always, differs_look, true_and]
  intro t
  split <;> simp

/-- The rule of every nonterminal makes different results of different conditions. -/
theorem differs (n : Nonterminal) : DiffersIn options n := by
  cases n with
  | block place => exact differs_block options place
  | plainStatement => exact differs_plainStatement options
  | statement => exact differs_statement options
  | statements => exact differs_statements options
  | conditional => exact differs_conditional options
  | alternatives => exact differs_alternatives options
  | selection => exact differs_selection options
  | clauses hasDefault => exact differs_clauses options hasDefault
  | iteration => exact differs_iteration options
  | repetition => exact differs_repetition options
  | loop => exact differs_loop options
  | loopBody => exact differs_loopBody options
  | function => exact differs_function options
  | item => exact differs_item options
  | declaration => exact differs_declaration options
  | declarations => exact differs_declarations options
  | storage kind => by_cases hvar : kind = .var <;> simp only [DiffersIn, ofNonterminal, storage,
    steps_eq, closeAngle_eq, Always, differs_look, implies_true, always_ite, differs_advance,
    always_elim, differs_fail, and_self, differs_done, differs_split]
  | ascription | initializer | «variable» | selectors | forCondition | forUpdate | furtherNames
  | bindings | functionResult =>
    simp [ascription, initializer, variableDeclaration, selectors, forCondition, forUpdate,
      furtherNames, bindings, functionResult, DiffersIn]
  | simpleStatement =>
    simp only [DiffersIn, ofNonterminal, simpleStatement, steps_eq, Always, differs_look,
      Option.mem_def, reduceCtorEq, IsEmpty.forall_iff, differs_read, tests, holdsConditions,
      takesCondition, Bool.false_eq_true, forall_const, true_and]
    intro _ _ t
    split <;> simp
  | forInitializer =>
    simp only [DiffersIn, ofNonterminal, forInitializer, steps_eq, Always, differs_look, always_ite,
      true_and]
    intro t
    split <;> simp
  | _ => exact (twins options (kin_self_iff.2 rfl)).differs rfl none

end Production

end Wgsl
