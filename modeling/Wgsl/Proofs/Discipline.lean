import Wgsl.Proofs.TokenKind
import Wgsl.Proofs.WholeFile

/-!
# What rules may do

A rule is a tree, so it can be seen from the tree alone that every step is guarded by a look at the
token to be read. `Rule.Guarded` says so, and every rule of the grammar has it
(`Production.disciplined`):

- a token is taken only if it was looked at, and never the end of the file or an invalid one;
- a `>` is split off only a token that was seen to begin with one and to go on;
- the token behind is looked at only at a name, and only a type is tried, and only at a name;
- nothing in an expression takes a `;` or a `}`;
- an error is about the token that was looked at, except that of a `bitcast` with a wrong number of
  arguments, which is about the name that the type began with;
- a block, a function and a declaration stop directly behind the `;` or `}` that closes them,
  without a look at what follows.

Nothing is said of tokens that are there: a rule is guarded or not, whatever the tokens. What
follows for cursors is shown where it is used, each time by one induction on the rule.
-/

namespace Wgsl

namespace TokenKind

/-- The token closes a statement or a declaration. -/
def closes : TokenKind → Bool
  | .symbol .semicolon | .symbol .braceRight => true
  | _ => false

@[simp] theorem closes_symbol (mark : Symbol) :
    (symbol mark).closes = decide (mark = .semicolon ∨ mark = .braceRight) := by
  cases mark <;> rfl

@[simp] theorem closes_identifier (name : String) : (identifier name).closes = false := rfl

end TokenKind

/-- The token that an unsupported construct begins with. -/
@[simp] def UnsupportedConstruct.opening : UnsupportedConstruct → TokenKind
  | .requiresDirective => .keyword .requires
  | .diagnosticDirective => .keyword .diagnostic
  | .bracketAttribute => .symbol .bracketLeft

/-- The error is about a token: the grammar had expected something else, or does not read what the
token begins. -/
def ParseError.About (t : Token) (e : ParseError) : Prop :=
  (∃ expected, e = .ofToken expected t) ∨
    ∃ construct, t.kind = construct.opening ∧ e = .unsupported construct t.location

namespace ParseError

theorem about_ofToken (expected : Expectation) (t : Token) : (ofToken expected t).About t :=
  .inl ⟨expected, rfl⟩

private theorem about_unsupported {t : Token} {construct : UnsupportedConstruct}
    (h : t.kind = construct.opening) : (unsupported construct t.location).About t :=
  .inr ⟨construct, h, rfl⟩

end ParseError

/-- What a rule has seen of where its cursor stands. -/
inductive Sight
  /-- The token to be read. -/
  | facing (t : Token)
  /-- Nothing, yet; whether what was taken last closed a statement or a declaration. -/
  | behind (closed : Bool)
  /-- Nothing, yet, behind something that began with a token. -/
  | after (t : Token)

namespace Sight

/-- The token to be read can be the token, after what has been seen. -/
def Admits : Sight → Token → Prop
  | .facing u, t => t = u
  | _, _ => True

@[simp] theorem admits_facing {t u : Token} : (facing u).Admits t ↔ t = u := .rfl

@[simp] theorem admits_behind {t : Token} {closed : Bool} : (behind closed).Admits t ↔ True := .rfl

/-- A name has been seen to stand next. -/
@[simp] def IsName : Sight → Prop
  | .facing t => ∃ name, t.kind = .identifier name
  | _ => False

/-- A cursor stands where has been seen. -/
def Matches : Sight → Cursor → Prop
  | .facing t, c => c.current = t
  | _, _ => True

theorem Matches.admits {s : Sight} {c : Cursor} (h : s.Matches c) : s.Admits c.current := by
  cases s with
  | facing t => exact h
  | behind closed | after t => trivial

end Sight

namespace Nonterminal

/-- What an expression, a type or an attribute is made of. -/
@[simp] def inExpression : Nonterminal → Bool
  | .attribute | .attributes | .type | .typeParameters _ | .constructorType | .expression _
  | .operations _ | .unary | .suffixed | .suffixes _ | .primary | .expressions | .arguments
  | .construction _ _ => true
  | _ => false

/-- What ends with the `;` or `}` that closes it. -/
@[simp] def closes : Nonterminal → Bool
  | .block _ | .function | .item | .declaration => true
  | _ => false

/-- The rule of a nonterminal may take a token of a kind. -/
def Takes (n : Nonterminal) (k : TokenKind) : Prop :=
  k ≠ .endOfFile ∧ k.isInvalid = false ∧ (n.inExpression → k.closes = false)

section Takes

variable {n : Nonterminal}

@[simp] theorem takes_identifier (name : String) : n.Takes (.identifier name) :=
  ⟨nofun, rfl, fun _ => rfl⟩

@[simp] theorem takes_number (spelling : String) : n.Takes (.number spelling) :=
  ⟨nofun, rfl, fun _ => rfl⟩

@[simp] theorem takes_keyword (word : Keyword) : n.Takes (.keyword word) :=
  ⟨nofun, rfl, fun _ => rfl⟩

@[simp] theorem takes_symbol {mark : Symbol} :
    n.Takes (.symbol mark) ↔ (n.inExpression → (TokenKind.symbol mark).closes = false) :=
  ⟨fun h => h.2.2, fun h => ⟨nofun, rfl, h⟩⟩

variable {k : TokenKind}

private theorem takes_of_attributeName? {name : String} (h : k.attributeName? = some name) :
    n.Takes k := by
  cases k <;> simp_all [TokenKind.attributeName?]

private theorem takes_of_infix? {op : InfixOperator} (h : k.infix? = some op) : n.Takes k := by
  rw [TokenKind.infix?_eq_some_iff.1 h, takes_symbol]
  cases op with
  | logical op | binary op => cases op <;> exact fun _ => rfl

private theorem takes_of_unary? {op : UnaryOperator} (h : k.unary? = some op) : n.Takes k := by
  rw [TokenKind.unary?_eq_some_iff.1 h, takes_symbol]
  cases op <;> exact fun _ => rfl

private theorem takes_of_assignment? {op : AssignmentOperator} (h : k.assignment? = some op) :
    n.Takes k := by
  rw [TokenKind.assignment?_eq_some_iff.1 h, takes_symbol]
  cases op <;> exact fun _ => rfl

private theorem takes_of_step? {op : StepOperator} (h : k.step? = some op) : n.Takes k := by
  rw [TokenKind.step?_eq_some_iff.1 h, takes_symbol]
  cases op <;> exact fun _ => rfl

private theorem takes_of_variableKind? {kind : VariableKind} (h : k.variableKind? = some kind) :
    n.Takes k := by
  simp [TokenKind.variableKind?_eq_some_iff.1 h]

private theorem takes_of_localVariableKind? {kind : VariableKind}
    (h : k.localVariableKind? = some kind) :
    n.Takes k := by
  simp [(TokenKind.localVariableKind?_eq_some_iff.1 h).1]

end Takes

/-- The rule of a nonterminal may read another one. A value of a type is read behind a type, which
began with its name. -/
@[simp] def Reads (n : Nonterminal) (s : Sight) : Nonterminal → Prop
  | .construction made l => s = .after ⟨.identifier made.name, l⟩
  | m => n.inExpression → m.inExpression

/-- The rule of a nonterminal may stop with an error. -/
@[simp] def Raises (n : Nonterminal) (s : Sight) (e : ParseError) : Prop :=
  (∃ t, s = .facing t ∧ e.About t) ∨
    ∃ made l count, n = .construction made l ∧ made.bitcastTarget?.isSome ∧
      e = .bitcastArguments count l

/-- What began with a token has its name. -/
@[simp] def NamedBy (t : Token) : (n : Nonterminal) → n.Result → Prop
  | .constructorType, made => t.kind = .identifier made.name
  | _, _ => True

end Nonterminal

namespace Rule

variable {α β : Type}

/-- Every step of a rule for a nonterminal is guarded by what has been seen. -/
def Guarded (n : Nonterminal) : Production α → Sight → (α → Sight → Prop) → Prop
  | .done a, s, Q => Q a s
  | .fail e, s, _ => n.Raises s e
  | .look k, s, Q => ∀ t, s.Admits t → (k t).Guarded n (.facing t) Q
  | .lookBehind k, s, Q => s.IsName ∧ ∀ kind, (k kind).Guarded n s Q
  | .advance k, s, Q =>
    ∃ t, s = .facing t ∧ n.Takes t.kind ∧ k.Guarded n (.behind t.kind.closes) Q
  | .split k, s, Q => ∃ t, s = .facing t ∧ t.afterAngle?.isSome ∧ k.Guarded n (.behind false) Q
  | .read m k, s, Q => n.Reads s m ∧ ∀ a, (k a).Guarded n (.behind m.closes) Q
  | .attempt m k, s, Q =>
    s.IsName ∧ m = .constructorType ∧
      (∀ t a, s = .facing t → m.NamedBy t a → (k (some a)).Guarded n (.after t) Q) ∧
      (k none).Guarded n s Q

variable {n : Nonterminal} {s : Sight}

/-- One rule behind another is guarded if the first leads to where the second is. -/
@[simp] theorem guarded_bind {r : Production α} {f : α → Production β} {Q : β → Sight → Prop} :
    (r.bind f).Guarded n s Q ↔ r.Guarded n s fun a s' => (f a).Guarded n s' Q := by
  induction r generalizing s <;> simp_all [bind, Guarded]

/-! ## Steps -/

@[simp] theorem guarded_done {a : α} {Q : α → Sight → Prop} :
    (done a : Production α).Guarded n s Q ↔ Q a s := .rfl

@[simp] theorem guarded_fail {e : ParseError} {Q : α → Sight → Prop} :
    (fail e : Production α).Guarded n s Q ↔ n.Raises s e := .rfl

@[simp] theorem guarded_read {m : Nonterminal} {k : m.Result → Production α}
    {Q : α → Sight → Prop} :
    (Rule.read m k).Guarded n s Q ↔ n.Reads s m ∧ ∀ a, (k a).Guarded n (.behind m.closes) Q := .rfl

@[simp] theorem guarded_attempt {m : Nonterminal} {k : Option m.Result → Production α}
    {Q : α → Sight → Prop} :
    (Rule.attempt m k).Guarded n s Q ↔ s.IsName ∧ m = .constructorType ∧
      (∀ t a, s = .facing t → m.NamedBy t a → (k (some a)).Guarded n (.after t) Q) ∧
      (k none).Guarded n s Q := .rfl

@[simp] theorem guarded_current {Q : Token → Sight → Prop} :
    (current : Production Token).Guarded n s Q ↔ ∀ t, s.Admits t → Q t (.facing t) := .rfl

@[simp] theorem guarded_following {Q : TokenKind → Sight → Prop} :
    (following : Production TokenKind).Guarded n s Q ↔ s.IsName ∧ ∀ kind, Q kind s := .rfl

@[simp] theorem guarded_skip {Q : Unit → Sight → Prop} :
    (skip : Production Unit).Guarded n s Q ↔
      ∃ t, s = .facing t ∧ n.Takes t.kind ∧ Q () (.behind t.kind.closes) := .rfl

@[simp] theorem guarded_unexpected {expected : Expectation} {Q : α → Sight → Prop} :
    (unexpected expected : Production α).Guarded n s Q := by
  intro t _
  exact .inl ⟨t, rfl, ParseError.about_ofToken expected t⟩

@[simp] theorem guarded_sees {mark : Symbol} {Q : Bool → Sight → Prop} :
    (sees mark : Production Bool).Guarded n s Q ↔
      ∀ t, s.Admits t → Q (t.kind = .symbol mark) (.facing t) := .rfl

@[simp] theorem guarded_ite {p : Prop} [Decidable p] {r r' : Production α}
    {Q : α → Sight → Prop} :
    (if p then r else r').Guarded n s Q ↔ (p → r.Guarded n s Q) ∧ (¬p → r'.Guarded n s Q) := by
  split <;> simp_all

@[simp] theorem guarded_accept {mark : Symbol} {Q : Bool → Sight → Prop} :
    (accept mark : Production Bool).Guarded n s Q ↔
      ∀ t, s.Admits t →
        (t.kind = .symbol mark →
          n.Takes (.symbol mark) ∧ Q true (.behind (TokenKind.symbol mark).closes)) ∧
        (t.kind ≠ .symbol mark → Q false (.facing t)) := by
  simp only [accept, bind_eq, pure_eq, guarded_bind, guarded_current, guarded_ite, guarded_skip,
    guarded_done]
  grind

@[simp] theorem guarded_expect {mark : Symbol} {place : String} {Q : Unit → Sight → Prop} :
    (expect mark place : Production Unit).Guarded n s Q ↔
      ∀ t, s.Admits t → t.kind = .symbol mark →
        n.Takes (.symbol mark) ∧ Q () (.behind (TokenKind.symbol mark).closes) := by
  simp only [expect, bind_eq, guarded_bind, guarded_current, guarded_ite, guarded_skip,
    guarded_unexpected]
  grind

@[simp] theorem guarded_identifier {expected : Expectation} {Q : String → Sight → Prop} :
    (identifier expected : Production String).Guarded n s Q ↔
      ∀ t name, s.Admits t → t.kind = .identifier name → Q name (.behind false) := by
  simp only [identifier, bind_eq, guarded_bind, guarded_current]
  constructor
  · intro h t name ht hname
    have := h t ht
    simp_all
  · intro h t ht
    split
    · rename_i name hname
      simpa [hname] using h t name ht hname
    · simp

@[simp] theorem guarded_closeAngle {expected : Expectation} {Q : Unit → Sight → Prop} :
    (closeAngle expected : Production Unit).Guarded n s Q ↔
      ∀ t, s.Admits t → t.kind = .symbol .greaterThan ∨ t.afterAngle?.isSome →
        Q () (.behind false) := by
  simp only [closeAngle, bind_eq, guarded_bind, guarded_current, guarded_ite, guarded_skip,
    guarded_unexpected, Sight.facing.injEq, exists_eq_left', Guarded]
  constructor
  · intro h t ht hangle
    by_cases hsingle : t.kind = .symbol .greaterThan
    · simpa [hsingle] using ((h t ht).1 hsingle).2
    · exact (((h t ht).2 hsingle).1 (hangle.resolve_left hsingle)).2
  · intro h t ht
    refine ⟨fun hsingle => ⟨?_, ?_⟩, fun _ => ⟨fun hmore => ⟨hmore, h t ht (.inr hmore)⟩, ?_⟩⟩
    · simp [hsingle]
    · simpa [hsingle] using h t ht (.inl hsingle)
    · exact fun _ => trivial

/-- When each step of a rule is guarded. -/
theorem guarded_steps :
    type_of% @bind_eq ∧ type_of% @pure_eq ∧ type_of% @guarded_bind ∧ type_of% @guarded_done ∧
    type_of% @guarded_fail ∧ type_of% @guarded_read ∧ type_of% @guarded_attempt ∧
    type_of% @guarded_current ∧ type_of% @guarded_following ∧ type_of% @guarded_skip ∧
    type_of% @guarded_unexpected ∧ type_of% @guarded_sees ∧ type_of% @guarded_ite ∧
    type_of% @guarded_accept ∧ type_of% @guarded_expect ∧ type_of% @guarded_identifier ∧
    type_of% @guarded_closeAngle :=
  ⟨bind_eq, pure_eq, guarded_bind, guarded_done, guarded_fail, guarded_read, guarded_attempt,
    guarded_current, guarded_following, guarded_skip, guarded_unexpected, guarded_sees, guarded_ite,
    guarded_accept, guarded_expect, guarded_identifier, guarded_closeAngle⟩

end Rule

namespace Nonterminal

/-- A rule for the nonterminal is guarded from where nothing has been seen, and what the nonterminal
closes ends right behind what closes it. -/
abbrev Disciplined (n : Nonterminal) (r : Production n.Result) : Prop :=
  r.Guarded n (.behind false) fun _ s => n.closes → s = .behind true

end Nonterminal

namespace Production

open Rule Nonterminal

variable (options : ReadOptions)

private theorem disciplined_attribute :
    Disciplined .attribute (ofNonterminal options .attribute) := by
  simp only [ofNonterminal, singleAttribute, guarded_steps, takes_symbol, inExpression,
    TokenKind.closes_symbol, reduceCtorEq, or_self, decide_false, Sight.admits_behind, forall_const,
    true_and, Sight.admits_facing, forall_eq]
  intro t _ t'
  split
  · simp
  · rename_i name hname
    simp [takes_of_attributeName? hname]

private theorem disciplined_attributes :
    Disciplined .attributes (ofNonterminal options .attributes) := by
  simp [attributes]

private theorem disciplined_type : Disciplined .type (ofNonterminal options .type) := by
  simp [type]

private theorem disciplined_typeParameters (typeName : String) :
    Disciplined (.typeParameters typeName) (ofNonterminal options (.typeParameters typeName)) := by
  simp [typeParameters, furtherParameter, closeParameters]

private theorem disciplined_constructorType :
    Disciplined .constructorType (ofNonterminal options .constructorType) := by
  simp [constructorType]

private theorem disciplined_expression (inAngles : Bool) :
    Disciplined (.expression inAngles) (ofNonterminal options (.expression inAngles)) := by
  simp [expression]

private theorem disciplined_operations (inAngles : Bool) :
    Disciplined (.operations inAngles) (ofNonterminal options (.operations inAngles)) := by
  simp only [ofNonterminal, operations, guarded_steps]
  intro t
  split
  · simp
  · rename_i op hop
    simp [takes_of_infix? hop]

private theorem disciplined_unary : Disciplined .unary (ofNonterminal options .unary) := by
  simp only [ofNonterminal, unary, guarded_steps]
  intro t
  split
  · simp
  · rename_i op hop
    simp [takes_of_unary? hop]

private theorem disciplined_suffixed : Disciplined .suffixed (ofNonterminal options .suffixed) := by
  simp [suffixed]

private theorem disciplined_suffixes (base : Expression) :
    Disciplined (.suffixes base) (ofNonterminal options (.suffixes base)) := by
  simp only [ofNonterminal, suffixes, guarded_steps]
  intro t
  split
  · simp [*]
  · simp [*]
  · split <;> simp
  · simp

private theorem disciplined_primary : Disciplined .primary (ofNonterminal options .primary) := by
  simp only [ofNonterminal, primary, guarded_steps, closes, Bool.false_eq_true, IsEmpty.forall_iff,
    Sight.admits_behind, forall_const]
  intro t
  split
  · simp [*]
  · simp [*]
  · simp [*]
  · simp [*]
  · rename_i name hname
    simp only [guarded_bind, guarded_following, Sight.IsName, hname]
    refine ⟨⟨name, rfl⟩, fun kind => ?_⟩
    split
    · simp only [guarded_steps, Sight.IsName, hname, TokenKind.identifier.injEq, exists_eq',
        Sight.facing.injEq, Reads, Sight.after.injEq, implies_true, and_true, exists_eq_left',
        takes_identifier, true_and]
      rintro _ made rfl hmade
      exact Token.eq_mk_location.2 hmade
    · simp [hname]
    · simp [hname]
  · simp

private theorem disciplined_expressions :
    Disciplined .expressions (ofNonterminal options .expressions) := by
  simp [expressions]

private theorem disciplined_arguments :
    Disciplined .arguments (ofNonterminal options .arguments) := by
  simp [arguments]

private theorem disciplined_construction (made : TypeSpecifier) (l : Location) :
    Disciplined (.construction made l) (ofNonterminal options (.construction made l)) := by
  simp only [ofNonterminal, construction, guarded_steps, Reads, inExpression, imp_self, true_and]
  intro arguments
  split <;> simp [*]

private theorem disciplined_block (place : String) :
    Disciplined (.block place) (ofNonterminal options (.block place)) := by
  simp [block]

private theorem disciplined_storage (kind : VariableKind) :
    Disciplined (.storage kind) (ofNonterminal options (.storage kind)) := by
  simp [storage]

private theorem disciplined_ascription :
    Disciplined .ascription (ofNonterminal options .ascription) := by
  simp [ascription]

private theorem disciplined_initializer (kind : VariableKind) :
    Disciplined (.initializer kind) (ofNonterminal options (.initializer kind)) := by
  simp [initializer]

private theorem disciplined_variable (kind : VariableKind) (l : Location) :
    Disciplined (.variable kind l) (ofNonterminal options (.variable kind l)) := by
  simp [variableDeclaration]

private theorem disciplined_simpleStatement :
    Disciplined .simpleStatement (ofNonterminal options .simpleStatement) := by
  simp only [ofNonterminal, simpleStatement, guarded_steps, Bool.false_eq_true, IsEmpty.forall_iff,
    Reads, inExpression, Sight.admits_behind, forall_const, true_and]
  intro _ target t
  split
  · rename_i op hop
    simp [takes_of_assignment? hop]
  · rename_i op hop
    simp [takes_of_step? hop]
  · simp
  · simp

private theorem disciplined_plainStatement :
    Disciplined .plainStatement (ofNonterminal options .plainStatement) := by
  simp only [ofNonterminal, plainStatement, condition, guarded_steps]
  intro t
  split
  · simp [*]
  · simp +contextual [*]
  · simp [*]
  · simp [*]
  · simp [*]
  · simp [*]
  · split
    · rename_i kind hkind
      simp [takes_of_localVariableKind? hkind]
    · simp

private theorem disciplined_statement :
    Disciplined .statement (ofNonterminal options .statement) := by
  simp only [ofNonterminal, statement, guarded_steps, Bool.false_eq_true, IsEmpty.forall_iff, Reads,
    inExpression, true_and]
  intro attributes t
  split <;> simp [*]

private theorem disciplined_statements :
    Disciplined .statements (ofNonterminal options .statements) := by
  simp only [ofNonterminal, statements, guarded_steps]
  intro t
  split <;> simp [*]

private theorem disciplined_conditional :
    Disciplined .conditional (ofNonterminal options .conditional) := by
  simp [conditional, condition]

private theorem disciplined_alternatives :
    Disciplined .alternatives (ofNonterminal options .alternatives) := by
  simp only [ofNonterminal, alternatives, condition]
  intro t ht
  simp +contextual

private theorem disciplined_selection :
    Disciplined .selection (ofNonterminal options .selection) := by
  simp [selection, condition]

private theorem disciplined_clauses (hasDefault : Bool) :
    Disciplined (.clauses hasDefault) (ofNonterminal options (.clauses hasDefault)) := by
  simp only [ofNonterminal, clauses, guarded_steps]
  intro t
  split <;> simp [*]

private theorem disciplined_selectors :
    Disciplined .selectors (ofNonterminal options .selectors) := by
  simp [selectors]

private theorem disciplined_forInitializer :
    Disciplined .forInitializer (ofNonterminal options .forInitializer) := by
  simp only [ofNonterminal, forInitializer, guarded_steps]
  intro t _
  split
  · rename_i kind hkind
    simp [takes_of_localVariableKind? hkind]
  · simp

private theorem disciplined_forCondition :
    Disciplined .forCondition (ofNonterminal options .forCondition) := by
  simp [forCondition]

private theorem disciplined_forUpdate :
    Disciplined .forUpdate (ofNonterminal options .forUpdate) := by
  simp [forUpdate]

private theorem disciplined_iteration :
    Disciplined .iteration (ofNonterminal options .iteration) := by
  simp [iteration]

private theorem disciplined_repetition :
    Disciplined .repetition (ofNonterminal options .repetition) := by
  simp [repetition, condition]

private theorem disciplined_loop : Disciplined .loop (ofNonterminal options .loop) := by
  simp [loop]

private theorem disciplined_loopBody : Disciplined .loopBody (ofNonterminal options .loopBody) := by
  simp only [ofNonterminal, loopBody, guarded_steps]
  intro t
  split <;> simp [*]

private theorem disciplined_furtherNames :
    Disciplined .furtherNames (ofNonterminal options .furtherNames) := by
  simp [furtherNames]

private theorem disciplined_bindings (role : BindingRole) :
    Disciplined (.bindings role) (ofNonterminal options (.bindings role)) := by
  simp [bindings]

private theorem disciplined_functionResult :
    Disciplined .functionResult (ofNonterminal options .functionResult) := by
  simp [functionResult]

private theorem disciplined_function : Disciplined .function (ofNonterminal options .function) := by
  simp [function]

private theorem disciplined_item : Disciplined .item (ofNonterminal options .item) := by
  simp only [ofNonterminal, item, condition, guarded_steps]
  intro t
  split
  · simp [*]
  · simp [*]
  · simp [*]
  · simp [*]
  · simp [*]
  · simp [*]
  · rename_i hkind
    simpa using ParseError.about_unsupported hkind
  · rename_i hkind
    simpa using ParseError.about_unsupported hkind
  · rename_i hkind
    simpa using ParseError.about_unsupported hkind
  · split
    · rename_i kind hkind
      simp [takes_of_variableKind? hkind]
    · simp

private theorem disciplined_declaration :
    Disciplined .declaration (ofNonterminal options .declaration) := by
  simp [declaration]

private theorem disciplined_declarations :
    Disciplined .declarations (ofNonterminal options .declarations) := by
  simp only [ofNonterminal, declarations, guarded_steps]
  intro t
  split <;> simp [*]

/-- The rule of every nonterminal is disciplined. -/
theorem disciplined (n : Nonterminal) : n.Disciplined (ofNonterminal options n) :=
  match n with
  | .attribute => disciplined_attribute options
  | .attributes => disciplined_attributes options
  | .type => disciplined_type options
  | .typeParameters typeName => disciplined_typeParameters options typeName
  | .constructorType => disciplined_constructorType options
  | .expression inAngles => disciplined_expression options inAngles
  | .operations inAngles => disciplined_operations options inAngles
  | .unary => disciplined_unary options
  | .suffixed => disciplined_suffixed options
  | .suffixes base => disciplined_suffixes options base
  | .primary => disciplined_primary options
  | .expressions => disciplined_expressions options
  | .arguments => disciplined_arguments options
  | .construction made l => disciplined_construction options made l
  | .block place => disciplined_block options place
  | .storage kind => disciplined_storage options kind
  | .ascription => disciplined_ascription options
  | .initializer kind => disciplined_initializer options kind
  | .variable kind l => disciplined_variable options kind l
  | .simpleStatement => disciplined_simpleStatement options
  | .plainStatement => disciplined_plainStatement options
  | .statement => disciplined_statement options
  | .statements => disciplined_statements options
  | .conditional => disciplined_conditional options
  | .alternatives => disciplined_alternatives options
  | .selection => disciplined_selection options
  | .clauses hasDefault => disciplined_clauses options hasDefault
  | .selectors => disciplined_selectors options
  | .forInitializer => disciplined_forInitializer options
  | .forCondition => disciplined_forCondition options
  | .forUpdate => disciplined_forUpdate options
  | .iteration => disciplined_iteration options
  | .repetition => disciplined_repetition options
  | .loop => disciplined_loop options
  | .loopBody => disciplined_loopBody options
  | .furtherNames => disciplined_furtherNames options
  | .bindings role => disciplined_bindings options role
  | .functionResult => disciplined_functionResult options
  | .function => disciplined_function options
  | .item => disciplined_item options
  | .declaration => disciplined_declaration options
  | .declarations => disciplined_declarations options

end Production

/-! ## What is tried -/

namespace Nonterminal

variable (options : ReadOptions)

/-- Before a name, there are no attributes. -/
theorem attributes_outcome_of_name {c : Cursor} {name : String}
    (hname : c.current.kind = .identifier name) :
    Nonterminal.attributes.outcome options c = .accepted [] c := by
  rw [outcome_eq]
  simp [Production.attributes, hname]

/-- A type that begins with a name has it. -/
theorem type_of_name {c : Cursor} {name : String} (hname : c.current.kind = .identifier name) :
    (Nonterminal.type.outcome options c).IfAccepted fun made c' =>
      made.name = name ∧ c'.upcoming <:+ c.upcoming.tail := by
  have hpast : c.advance.upcoming <:+ c.upcoming.tail := by rw [Cursor.upcoming_advance]
  rw [outcome_eq]
  simp only [Production.ofNonterminal, Production.type, Rule.follow_steps,
    attributes_outcome_of_name options hname, hname]
  split
  · have hafter := outcome_suffix options (typeParameters name) (Cursor.suffix_advance hpast)
    simp only [Outcome.ifAccepted_accepted, if_true, Rule.follow_bind, Rule.follow_read,
      Rule.follow_done, Outcome.ifAccepted_bind]
    intro parameters c' h
    rw [h] at hafter
    exact ⟨trivial, hafter⟩
  · simpa using hpast

/-- A type to construct that begins with a name has it. -/
theorem constructorType_of_name {c c' : Cursor} {made : TypeSpecifier} {name : String}
    (hname : c.current.kind = .identifier name)
    (h : Nonterminal.constructorType.outcome options c = .accepted made c') :
    made.name = name ∧ c'.upcoming <:+ c.upcoming.tail := by
  have htype := type_of_name options hname
  rw [outcome_eq] at h
  simp only [Production.ofNonterminal, Production.constructorType, Rule.bind_eq, Rule.follow_bind,
    Rule.follow_read, Rule.follow_done, Outcome.bind_accepted, Rule.follow_sees,
    Outcome.accepted_bind] at h
  cases ho : Nonterminal.type.outcome options c with
  | rejected e d => simp [ho] at h
  | accepted t d =>
    rw [ho, Outcome.accepted_bind] at h
    split at h
    · cases h
      exact htype _ _ ho
    · cases h

end Nonterminal

/-- Where a type was tried and accepted, the rule goes on behind the name that the type began
with. -/
theorem Rule.Guarded.of_accepted {α : Type} {options : ReadOptions} {depth : Nat} {n : Nonterminal}
    {k : Option TypeSpecifier → Production α} {s : Sight} {Q : α → Sight → Prop} {c c' : Cursor}
    {made : TypeSpecifier}
    (h : (Rule.attempt Nonterminal.constructorType k).Guarded n s Q) (hs : s.Matches c)
    (hmade : (moduleGrammar options).parse depth .constructorType c = some (.accepted made c')) :
    (k (some made)).Guarded n (.after c.current) Q ∧
      c.upcoming = c.current :: c.upcoming.tail ∧ c'.upcoming <:+ c.upcoming.tail := by
  obtain ⟨hname, -, hsome, -⟩ := h
  cases s with
  | facing t =>
    obtain rfl : c.current = t := hs
    obtain ⟨name, hname⟩ := hname
    obtain ⟨rfl, hpast⟩ :=
      Nonterminal.constructorType_of_name options hname (Nonterminal.outcome_of_parse hmade)
    exact ⟨hsome c.current made rfl hname, Cursor.upcoming_eq_of_name hname, hpast⟩
  | behind closed | after t => exact hname.elim

end Wgsl
