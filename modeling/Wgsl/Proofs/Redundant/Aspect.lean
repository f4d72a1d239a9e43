import Wgsl.Proofs.Along
import Wgsl.Proofs.Discipline
import Wgsl.Proofs.Steps

/-!
# What reading sees of values

How reading goes on in an expression depends hardly on the values that were read. A name can be
called and no other expression can, a `bitcast` with a target is not constructed as other types are,
and it has one argument. That is all that is seen of a value, its aspect. So behind values of one
aspect the same tokens are accepted, or refused (`Nonterminal.outcome_alike`), whatever else the
values are.
-/

namespace Wgsl

open scoped Rule.Steps

namespace Expression

/-- The expression is a name. -/
def isIdentifier : Expression → Bool
  | .identifier _ _ => true
  | _ => false

private theorem isIdentifier_iff {e : Expression} :
    e.isIdentifier = true ↔ ∃ name l, e = .identifier name l := by
  cases e <;> simp [isIdentifier]

private theorem isIdentifier_join (op : InfixOperator) (left right : Expression) (l : Location) :
    (join op left right l).isIdentifier = false := by
  cases op <;> rfl

end Expression

/-- Climbing makes no name of what is none. -/
theorem isIdentifier_climb {minimum : Nat} {left : Expression} {chain : List Operation}
    (h : left.isIdentifier = false) : (climb minimum left chain).tree.isIdentifier = false := by
  fun_induction climb minimum left chain with
  | case1 => exact h
  | case2 => exact h
  | case3 minimum left o chain hle right climbed ihright ih =>
    exact ih (Expression.isIdentifier_join o.op left right.tree o.location)

/-- Only a name without operations is a name. -/
theorem Expression.isIdentifier_ofChain (first : Expression) (chain : List Operation) :
    (ofChain first chain).isIdentifier = (first.isIdentifier && chain.isEmpty) := by
  cases chain with
  | nil => rw [ofChain_nil, List.isEmpty_nil, Bool.and_true]
  | cons o chain =>
    rw [ofChain, tree_climb_cons o.op.one_le_level, isIdentifier_climb (isIdentifier_join _ _ _ _),
      List.isEmpty_cons, Bool.and_false]

/-- So it is with more operations, whether the operand is a chain itself or not. -/
theorem Expression.isIdentifier_ofChain_append (first : Expression) (chain more : List Operation) :
    (ofChain first (chain ++ more)).isIdentifier =
      (ofChain (ofChain first chain) more).isIdentifier := by
  cases chain <;> simp [isIdentifier_ofChain]

/-- What is seen of a value when reading goes on behind it. -/
inductive Aspect
  | nothing
  | answer (yes : Bool)
  | number (count : Nat)

namespace Nonterminal

/-- The aspect of a value that a nonterminal stands for. -/
@[simp] def aspect : (n : Nonterminal) → n.Result → Aspect
  | .expression _, e | .unary, e | .suffixed, e | .suffixes _, e | .primary, e
  | .construction _ _, e => .answer e.isIdentifier
  | .operations _, chain => .answer chain.isEmpty
  | .expressions, es | .arguments, es => .number es.length
  | .type, made | .constructorType, made => .answer made.bitcastTarget?.isSome
  | .typeParameters name, parameters => .answer (name = "bitcast" && parameters.type?.isSome)
  | _, _ => .nothing

/-- Nonterminals of expressions that differ at most in what is not seen of values. -/
inductive Kin : Nonterminal → Nonterminal → Prop
  | refl {n : Nonterminal} (h : n.inExpression = true) : Kin n n
  | suffixes {base base' : Expression} (h : base.isIdentifier = base'.isIdentifier) :
    Kin (.suffixes base) (.suffixes base')
  | construction {made made' : TypeSpecifier} {l : Location}
    (h : made.bitcastTarget?.isSome = made'.bitcastTarget?.isSome) :
    Kin (.construction made l) (.construction made' l)

@[simp] theorem kin_self_iff {n : Nonterminal} : n.Kin n ↔ n.inExpression = true := by
  refine ⟨fun h => ?_, .refl⟩
  cases h with
  | refl h => exact h
  | suffixes _ | construction _ => rfl

@[simp] theorem kin_suffixes_iff {base base' : Expression} :
    Kin (.suffixes base) (.suffixes base') ↔ base.isIdentifier = base'.isIdentifier := by
  refine ⟨fun h => ?_, .suffixes⟩
  cases h with
  | refl _ => rfl
  | suffixes h => exact h

@[simp] theorem kin_construction_iff {made made' : TypeSpecifier} {l : Location} :
    Kin (.construction made l) (.construction made' l) ↔
      made.bitcastTarget?.isSome = made'.bitcastTarget?.isSome := by
  refine ⟨fun h => ?_, .construction⟩
  cases h with
  | refl _ => rfl
  | construction h => exact h

end Nonterminal

/-- Both outcomes are accepted at the same place, with related values, or both are rejected. -/
def Outcome.Alike {α β : Type} (R : α → β → Prop) : Outcome α → Outcome β → Prop
  | .accepted a c, .accepted b d => R a b ∧ c = d
  | .rejected _ _, .rejected _ _ => True
  | _, _ => False

namespace Rule

variable {α β : Type}

/-- The rules take the same steps, behind values of one aspect, and come to related values. -/
@[simp] def Twins (R : α → β → Prop) : Production α → Production β → Prop
  | .done a, .done b => R a b
  | .fail _, .fail _ => True
  | .look k, .look k' => ∀ t, (k t).Twins R (k' t)
  | .lookBehind k, .lookBehind k' => ∀ kind, (k kind).Twins R (k' kind)
  | .advance k, .advance k' => k.Twins R k'
  | .split k, .split k' => k.Twins R k'
  | .read m k, .read m' k' =>
    m.Kin m' ∧ ∀ a b, m.aspect a = m'.aspect b → (k a).Twins R (k' b)
  | .attempt m k, .attempt m' k' =>
    m.Kin m' ∧ (∀ a b, m.aspect a = m'.aspect b → (k (some a)).Twins R (k' (some b))) ∧
      (k none).Twins R (k' none)
  | _, _ => False

@[simp] theorem twins_ite {R : α → β → Prop} {p : Prop} [Decidable p] {r s : Production α}
    {r' s' : Production β} :
    (if p then r else s).Twins R (if p then r' else s') ↔
      (p → r.Twins R r') ∧ (¬p → s.Twins R s') := by
  split <;> simp_all

@[simp] theorem twins_elim {R : α → β → Prop} {γ : Type} {o : Option γ} {r : Production α}
    {r' : Production β} {f : γ → Production α} {f' : γ → Production β} :
    (o.elim r f).Twins R (o.elim r' f') ↔
      (o = none → r.Twins R r') ∧ ∀ a, o = some a → (f a).Twins R (f' a) := by
  cases o <;> simp

end Rule

namespace Nonterminal

/-- The nonterminal comes to the same as its kin, as far as reading sees. -/
def SeenAlike (options : ReadOptions) (n : Nonterminal) (c : Cursor) : Prop :=
  ∀ m : Nonterminal, n.Kin m →
    (n.outcome options c).Alike (fun a b => n.aspect a = m.aspect b) (m.outcome options c)

end Nonterminal

namespace Rule

variable {α β : Type} {R : α → β → Prop} {options : ReadOptions}

private theorem Twins.comesTo_alike {r : Production α} {r' : Production β} {c : Cursor}
    (h : r.Twins R r')
    (ha : r.Along (fun n c => n.outcome options c) (Nonterminal.SeenAlike options) c) :
    (r.comesTo options c).Alike R (r'.comesTo options c) := by
  induction r generalizing r' c with
  | done a => cases r' <;> first | exact h.elim | exact ⟨h, rfl⟩
  | fail e => cases r' <;> first | exact h.elim | trivial
  | look k ih =>
    cases r' with
    | look k' => exact (ih c.current (h c.current) ha :)
    | _ => exact h.elim
  | lookBehind k ih =>
    cases r' with
    | lookBehind k' => exact (ih c.following (h c.following) ha :)
    | _ => exact h.elim
  | advance k ih =>
    cases r' with
    | advance k' => exact ih h ha
    | _ => exact h.elim
  | split k ih =>
    cases r' with
    | split k' => exact ih h ha
    | _ => exact h.elim
  | read m k ih =>
    cases r' with
    | read m' k' =>
      have hm := ha.1 m' h.1
      cases ho : m.outcome options c <;> cases ho' : m'.outcome options c <;> rw [ho, ho'] at hm
      · obtain ⟨hab, rfl⟩ := hm
        rw [Production.comesTo_read_of_accepted ho, Production.comesTo_read_of_accepted ho']
        exact ih _ (h.2 _ _ hab) (ha.2 _ _ ho)
      · exact hm.elim
      · exact hm.elim
      · rw [Production.comesTo_read_of_rejected ho, Production.comesTo_read_of_rejected ho']
        trivial
    | _ => exact h.elim
  | attempt m k ih =>
    cases r' with
    | attempt m' k' =>
      have hm := ha.1 m' h.1
      cases ho : m.outcome options c <;> cases ho' : m'.outcome options c <;> rw [ho, ho'] at hm
      · obtain ⟨hab, rfl⟩ := hm
        rw [Production.comesTo_attempt_of_accepted ho, Production.comesTo_attempt_of_accepted ho']
        exact ih _ (h.2.1 _ _ hab) (ha.2.1 _ _ ho)
      · exact hm.elim
      · exact hm.elim
      · rw [Production.comesTo_attempt_of_rejected ho, Production.comesTo_attempt_of_rejected ho']
        exact ih _ h.2.2 (ha.2.2 _ _ ho)
    | _ => exact h.elim

end Rule

private theorem TypeSpecifier.bitcastTarget?_isSome (made : TypeSpecifier) :
    made.bitcastTarget?.isSome = (made.name = "bitcast" && made.parameters.type?.isSome) := by
  unfold bitcastTarget?
  split <;> simp_all [inner?]

namespace Production

open Rule Nonterminal

variable (options : ReadOptions)

/-- The rules of the two nonterminals take the same steps and come to values of one aspect. -/
abbrev TwinRules (n m : Nonterminal) : Prop :=
  (ofNonterminal options n).Twins (fun a b => n.aspect a = m.aspect b) (ofNonterminal options m)

private theorem twins_attribute : TwinRules options .attribute .attribute := by
  simp only [TwinRules, ofNonterminal, singleAttribute, steps_eq, Twins, twins_ite, implies_true,
    and_true]
  intro _ _ _ t
  split <;> simp

/-- Parameters are closed alike, whatever value they are closed with. -/
theorem twins_closeParameters {α β : Type} {R : α → β → Prop} {typeName : String} {a : α} {b : β}
    (h : R a b) :
    ((closeParameters typeName).bind fun _ => done a).Twins R
      ((closeParameters typeName).bind fun _ => done b) := by
  simp [closeParameters, closeAngle_eq, h]

private theorem twins_typeParameters (name : String) :
    TwinRules options (.typeParameters name) (.typeParameters name) := by
  by_cases hptr : name = "ptr" <;>
    simp [typeParameters, furtherParameter, hptr, twins_closeParameters, TypeParameters.type?,
      TwinRules]

private theorem twins_operations (inAngles : Bool) :
    TwinRules options (.operations inAngles) (.operations inAngles) := by
  simp only [TwinRules, ofNonterminal, operations, steps_eq, Twins]
  intro t
  split <;> simp

private theorem twins_unary : TwinRules options .unary .unary := by
  simp only [TwinRules, ofNonterminal, unary, steps_eq, Twins]
  intro t
  split <;> simp [Expression.isIdentifier]

private theorem twins_suffixes {base base' : Expression}
    (h : base.isIdentifier = base'.isIdentifier) :
    TwinRules options (.suffixes base) (.suffixes base') := by
  simp only [ofNonterminal, suffixes, bind_eq, Rule.current_eq, Rule.look_bind, Rule.done_bind,
    TwinRules, Twins]
  intro t
  split
  · simp [Expression.isIdentifier]
  · simp [Expression.isIdentifier]
  · cases hbase : base.isIdentifier with
    | true =>
      obtain ⟨name, l, rfl⟩ := Expression.isIdentifier_iff.1 hbase
      obtain ⟨name', l', rfl⟩ := Expression.isIdentifier_iff.1 (h ▸ hbase)
      simp [Expression.isIdentifier]
    | false =>
      split
      · cases hbase
      · split
        · cases h.symm.trans hbase
        · simp
  · simpa using h

private theorem twins_primary : TwinRules options .primary .primary := by
  simp only [TwinRules, ofNonterminal, primary, steps_eq, Twins]
  intro t
  split
  · simp
  · simp
  · simp
  · cases options.keepParentheses <;> simp +contextual [Expression.isIdentifier]
  · simp only [Twins]
    intro kind
    split
    · simp
    · simp [Expression.isIdentifier]
    · simp
  · simp

/-- A `bitcast` is the reading of one value; how many there are is seen. -/
theorem twins_construction {made made' : TypeSpecifier} {l : Location}
    (h : made.bitcastTarget?.isSome = made'.bitcastTarget?.isSome) :
    TwinRules options (.construction made l) (.construction made' l) := by
  simp only [TwinRules, ofNonterminal, construction, steps_eq, Twins, kin_self_iff, inExpression,
    true_and]
  intro a b hab
  cases hmade : made.bitcastTarget? <;> cases hmade' : made'.bitcastTarget? <;>
    simp [hmade, hmade'] at h
  · simp [Expression.isIdentifier]
  · rcases a with _ | ⟨x, _ | ⟨y, a⟩⟩ <;> rcases b with _ | ⟨x', _ | ⟨y', b⟩⟩ <;> simp at hab <;>
      simp [Expression.isIdentifier]

/-- The rules of kin take the same steps. -/
theorem twins {n m : Nonterminal} (h : n.Kin m) : TwinRules options n m := by
  cases h with
  | suffixes h => exact twins_suffixes options h
  | construction h => exact twins_construction options h
  | refl hn =>
    cases n with
    | «attribute» => exact twins_attribute options
    | attributes => simp [attributes, TwinRules]
    | type => simp +contextual [type, TypeSpecifier.bitcastTarget?_isSome, TwinRules]
    | typeParameters name => exact twins_typeParameters options name
    | constructorType => simp +contextual [constructorType, TwinRules]
    | expression => simp +contextual [expression, Expression.isIdentifier_ofChain, TwinRules]
    | operations inAngles => exact twins_operations options inAngles
    | unary => exact twins_unary options
    | suffixed => simp [suffixed, TwinRules]
    | suffixes base => exact twins_suffixes options rfl
    | primary => exact twins_primary options
    | expressions => simp [expressions, TwinRules]
    | arguments => simp +contextual [arguments, TwinRules]
    | construction made l => exact twins_construction options rfl
    | _ => cases hn

end Production

/-- Kin are accepted alike, with values of one aspect. -/
theorem Nonterminal.outcome_alike (options : ReadOptions) {n m : Nonterminal} (h : n.Kin m)
    (c : Cursor) :
    (n.outcome options c).Alike (fun a b => n.aspect a = m.aspect b) (m.outcome options c) := by
  refine outcome_induction options (P := SeenAlike options) (fun n c ha m h => ?_) n c m h
  rw [outcome_eq, outcome_eq]
  exact (Production.twins options h).comesTo_alike ha

/-- Behind values of one aspect, twin rules are accepted alike. -/
theorem Rule.Twins.alike {α β : Type} {R : α → β → Prop} {options : ReadOptions}
    {r : Production α} {r' : Production β} (h : r.Twins R r') (c : Cursor) :
    (r.comesTo options c).Alike R (r'.comesTo options c) :=
  h.comesTo_alike (along_of_forall (fun n c _ hm => n.outcome_alike options hm c) r c)

end Wgsl
