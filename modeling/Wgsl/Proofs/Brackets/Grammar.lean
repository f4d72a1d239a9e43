import Wgsl.Proofs.Brackets.Nested
import Wgsl.Proofs.Discipline

/-!
# Modules have nested brackets

Dozens of rules open and close brackets, leave lists early or go back. Yet that a rule closes what
it opens can be seen from the rule alone, whatever is open before it (`Rule.Nests`), if the
nonterminals that it reads do. A token is taken only after a look at it, so it is known what it
opens or closes. What is tried and refused takes nothing, so nothing has to be known of where it
stopped.

`Nonterminal.outcome_nests` is the invariant of reading: where something is accepted, the tokens
that it took leave open what was open. So the tokens that were upcoming before and those behind come
to the same open brackets, from any. Behind a module no tokens are upcoming.
-/

namespace Wgsl

/-! ## Tokens that are no brackets -/

namespace TokenKind

variable {o : List Bracket} {k : TokenKind}

@[simp] theorem nest_identifier (name : String) : (identifier name).nest o = some o := rfl

@[simp] theorem nest_number (spelling : String) : (number spelling).nest o = some o := rfl

@[simp] theorem nest_keyword (word : Keyword) : (keyword word).nest o = some o := rfl

@[simp] theorem nest_symbol (mark : Symbol) :
    (symbol mark).nest o =
      match mark.opens?, mark.closes? with
      | some b, _ => some (b :: o)
      | none, some b => if o.head? = some b then some o.tail else none
      | none, none => some o := rfl

/-- The name of an attribute is no bracket. -/
theorem nest_of_attributeName? {name : String} (h : k.attributeName? = some name) :
    k.nest o = some o := by
  cases k <;> simp_all [attributeName?]

/-- An operator between operands is no bracket. -/
theorem nest_of_infix? {op : InfixOperator} (h : k.infix? = some op) : k.nest o = some o := by
  rw [infix?_eq_some_iff.1 h]
  cases op with
  | logical op | binary op => cases op <;> rfl

/-- A prefix operator is no bracket. -/
theorem nest_of_unary? {op : UnaryOperator} (h : k.unary? = some op) : k.nest o = some o := by
  rw [unary?_eq_some_iff.1 h]
  cases op <;> rfl

private theorem nest_of_assignment? {op : AssignmentOperator} (h : k.assignment? = some op) :
    k.nest o = some o := by
  rw [assignment?_eq_some_iff.1 h]
  cases op <;> rfl

private theorem nest_of_step? {op : StepOperator} (h : k.step? = some op) : k.nest o = some o := by
  rw [step?_eq_some_iff.1 h]
  cases op <;> rfl

private theorem nest_of_variableKind? {kind : VariableKind} (h : k.variableKind? = some kind) :
    k.nest o = some o := by
  rw [variableKind?_eq_some_iff.1 h, nest_keyword]

private theorem nest_of_localVariableKind? {kind : VariableKind}
    (h : k.localVariableKind? = some kind) : k.nest o = some o := by
  rw [(localVariableKind?_eq_some_iff.1 h).1, nest_keyword]

end TokenKind

/-- A split leaves no bracket and takes none. -/
theorem Token.nest_afterAngles (t : Token) (n : Nat) :
    (t.afterAngles n).kind.nest = t.kind.nest := by
  refine t.afterAngles_kind_congr TokenKind.nest (fun mark left h => ?_) n
  cases mark <;> cases h <;> rfl

/-! ## Rules -/

namespace Rule

variable {α β : Type}

/-- Where brackets are open, a rule takes only what may stand there, and leaves others open. -/
def Nests : Production α → Sight → List Bracket → (α → Sight → List Bracket → Prop) → Prop
  | .done a, s, o, Q => Q a s o
  | .fail _, _, _, _ => True
  | .look k, s, o, Q => ∀ t, s.Admits t → (k t).Nests (.facing t) o Q
  | .lookBehind k, s, o, Q => ∀ kind, (k kind).Nests s o Q
  | .advance k, s, o, Q =>
    ∃ t, s = .facing t ∧ ∃ o', t.kind.nest o = some o' ∧ k.Nests (.behind false) o' Q
  | .split k, _, o, Q => k.Nests (.behind false) o Q
  | .read _ k, _, o, Q => ∀ a, (k a).Nests (.behind false) o Q
  | .attempt _ k, s, o, Q =>
    (∀ a, (k (some a)).Nests (.behind false) o Q) ∧ (k none).Nests s o Q

variable {s : Sight} {o : List Bracket}

@[simp] theorem nests_bind {r : Production α} {f : α → Production β}
    {Q : β → Sight → List Bracket → Prop} :
    (r.bind f).Nests s o Q ↔ r.Nests s o fun a s' o' => (f a).Nests s' o' Q := by
  induction r generalizing s o <;> simp_all [bind, Nests]

@[simp] theorem nests_done {a : α} {Q : α → Sight → List Bracket → Prop} :
    (done a : Production α).Nests s o Q ↔ Q a s o := .rfl

@[simp] theorem nests_fail {e : ParseError} {Q : α → Sight → List Bracket → Prop} :
    (fail e : Production α).Nests s o Q := trivial

@[simp] theorem nests_read {m : Nonterminal} {k : m.Result → Production α}
    {Q : α → Sight → List Bracket → Prop} :
    (Rule.read m k).Nests s o Q ↔ ∀ a, (k a).Nests (.behind false) o Q := .rfl

@[simp] theorem nests_attempt {m : Nonterminal} {k : Option m.Result → Production α}
    {Q : α → Sight → List Bracket → Prop} :
    (Rule.attempt m k).Nests s o Q ↔
      (∀ a, (k (some a)).Nests (.behind false) o Q) ∧ (k none).Nests s o Q := .rfl

@[simp] theorem nests_current {Q : Token → Sight → List Bracket → Prop} :
    (current : Production Token).Nests s o Q ↔ ∀ t, s.Admits t → Q t (.facing t) o := .rfl

@[simp] theorem nests_following {Q : TokenKind → Sight → List Bracket → Prop} :
    (following : Production TokenKind).Nests s o Q ↔ ∀ kind, Q kind s o := .rfl

@[simp] theorem nests_skip {Q : Unit → Sight → List Bracket → Prop} :
    (skip : Production Unit).Nests s o Q ↔
      ∃ t, s = .facing t ∧ ∃ o', t.kind.nest o = some o' ∧ Q () (.behind false) o' := .rfl

@[simp] theorem nests_unexpected {expected : Expectation} {Q : α → Sight → List Bracket → Prop} :
    (unexpected expected : Production α).Nests s o Q := fun _ _ => trivial

@[simp] theorem nests_sees {mark : Symbol} {Q : Bool → Sight → List Bracket → Prop} :
    (sees mark : Production Bool).Nests s o Q ↔
      ∀ t, s.Admits t → Q (t.kind = .symbol mark) (.facing t) o := .rfl

@[simp] theorem nests_ite {p : Prop} [Decidable p] {r r' : Production α}
    {Q : α → Sight → List Bracket → Prop} :
    (if p then r else r').Nests s o Q ↔ (p → r.Nests s o Q) ∧ (¬p → r'.Nests s o Q) := by
  split <;> simp_all

@[simp] theorem nests_accept {mark : Symbol} {Q : Bool → Sight → List Bracket → Prop} :
    (accept mark : Production Bool).Nests s o Q ↔
      ∀ t, s.Admits t →
        (t.kind = .symbol mark →
          ∃ o', (TokenKind.symbol mark).nest o = some o' ∧ Q true (.behind false) o') ∧
        (t.kind ≠ .symbol mark → Q false (.facing t) o) := by
  simp only [accept, bind_eq, pure_eq, nests_bind, nests_current, nests_ite, nests_skip, nests_done]
  grind

@[simp] theorem nests_expect {mark : Symbol} {place : String}
    {Q : Unit → Sight → List Bracket → Prop} :
    (expect mark place : Production Unit).Nests s o Q ↔
      ∀ t, s.Admits t → t.kind = .symbol mark →
        ∃ o', (TokenKind.symbol mark).nest o = some o' ∧ Q () (.behind false) o' := by
  simp only [expect, bind_eq, nests_bind, nests_current, nests_ite, nests_skip, nests_unexpected]
  grind

@[simp] theorem nests_identifier {expected : Expectation}
    {Q : String → Sight → List Bracket → Prop} :
    (identifier expected : Production String).Nests s o Q ↔
      ∀ t name, s.Admits t → t.kind = .identifier name → Q name (.behind false) o := by
  simp only [identifier, bind_eq, nests_bind, nests_current]
  constructor
  · intro h t name ht hname
    have := h t ht
    simp_all
  · intro h t ht
    split
    · rename_i name hname
      simpa [hname] using h t name ht hname
    · simp

/-- What closes an angle is no bracket. -/
@[simp] theorem nests_closeAngle {expected : Expectation} {Q : Unit → Sight → List Bracket → Prop}
    (h : Q () (.behind false) o) : (closeAngle expected : Production Unit).Nests s o Q := by
  simp only [closeAngle, bind_eq, nests_bind, nests_current, nests_ite, nests_skip,
    nests_unexpected, Sight.facing.injEq, exists_eq_left']
  intro t _
  exact ⟨fun hsingle => ⟨o, by rw [hsingle]; rfl, h⟩, fun _ => ⟨fun _ => h, fun _ => trivial⟩⟩

/-- When each step of a rule nests. -/
theorem nests_steps :
    type_of% @bind_eq ∧ type_of% @pure_eq ∧ type_of% @nests_bind ∧ type_of% @nests_done ∧
    type_of% @nests_fail ∧ type_of% @nests_read ∧ type_of% @nests_attempt ∧
    type_of% @nests_current ∧ type_of% @nests_following ∧ type_of% @nests_skip ∧
    type_of% @nests_unexpected ∧ type_of% @nests_sees ∧ type_of% @nests_ite ∧
    type_of% @nests_accept ∧ type_of% @nests_expect ∧ type_of% @nests_identifier ∧
    type_of% @nests_closeAngle :=
  ⟨bind_eq, pure_eq, nests_bind, nests_done, nests_fail, nests_read, nests_attempt, nests_current,
    nests_following, nests_skip, nests_unexpected, nests_sees, nests_ite, nests_accept,
    nests_expect, nests_identifier, nests_closeAngle⟩

end Rule

/-- The rule of a nonterminal closes what it opens, whatever is open before it. -/
abbrev Nonterminal.Balanced (n : Nonterminal) (r : Production n.Result) : Prop :=
  ∀ o, r.Nests (.behind false) o fun _ _ o' => o' = o

namespace Production

open Rule Nonterminal TokenKind

variable (options : ReadOptions)

private theorem balanced_attribute : Balanced .attribute (ofNonterminal options .attribute) := by
  intro o
  simp only [ofNonterminal, singleAttribute, nests_steps, nest_symbol, Symbol.opens?,
    Symbol.closes?, Option.some.injEq, Sight.admits_behind, true_implies, exists_eq_left',
    Sight.admits_facing, forall_eq]
  intro t _ t'
  split
  · simp
  · rename_i name hname
    simp [nest_of_attributeName? hname]

private theorem balanced_attributes : Balanced .attributes (ofNonterminal options .attributes) := by
  intro o
  simp [attributes]

private theorem balanced_type : Balanced .type (ofNonterminal options .type) := by
  intro o
  simp [type]

private theorem balanced_typeParameters (typeName : String) :
    Balanced (.typeParameters typeName) (ofNonterminal options (.typeParameters typeName)) := by
  intro o
  simp [typeParameters, furtherParameter, closeParameters]

private theorem balanced_constructorType :
    Balanced .constructorType (ofNonterminal options .constructorType) := by
  intro o
  simp [constructorType]

private theorem balanced_expression (inAngles : Bool) :
    Balanced (.expression inAngles) (ofNonterminal options (.expression inAngles)) := by
  intro o
  simp [expression]

private theorem balanced_operations (inAngles : Bool) :
    Balanced (.operations inAngles) (ofNonterminal options (.operations inAngles)) := by
  intro o
  simp only [ofNonterminal, operations, nests_steps]
  intro t
  split
  · simp
  · rename_i op hop
    simp [nest_of_infix? hop]

private theorem balanced_unary : Balanced .unary (ofNonterminal options .unary) := by
  intro o
  simp only [ofNonterminal, unary, nests_steps, Sight.admits_behind, true_implies]
  intro t
  split
  · simp
  · rename_i op hop
    simp [nest_of_unary? hop]

private theorem balanced_suffixed : Balanced .suffixed (ofNonterminal options .suffixed) := by
  intro o
  simp [suffixed]

private theorem balanced_suffixes (base : Expression) :
    Balanced (.suffixes base) (ofNonterminal options (.suffixes base)) := by
  intro o
  simp only [ofNonterminal, suffixes, nests_steps, Sight.admits_behind, true_implies]
  intro t
  split
  · simp [*]
  · simp [*]
  · split <;> simp
  · simp

private theorem balanced_primary : Balanced .primary (ofNonterminal options .primary) := by
  intro o
  simp only [ofNonterminal, primary, nests_steps, Sight.admits_behind, true_implies]
  intro t
  split
  · simp [*]
  · simp [*]
  · simp [*]
  · simp [*]
  · rename_i name hname
    simp only [nests_bind, nests_following]
    intro kind
    split <;> simp [hname]
  · simp

private theorem balanced_expressions :
    Balanced .expressions (ofNonterminal options .expressions) := by
  intro o
  simp [expressions]

private theorem balanced_arguments : Balanced .arguments (ofNonterminal options .arguments) := by
  intro o
  simp [arguments]

private theorem balanced_construction (type : TypeSpecifier) (location : Location) :
    Balanced (.construction type location)
      (ofNonterminal options (.construction type location)) := by
  intro o
  simp only [ofNonterminal, construction, nests_steps]
  intro arguments
  split <;> simp

private theorem balanced_block (place : String) :
    Balanced (.block place) (ofNonterminal options (.block place)) := by
  intro o
  simp [block]

private theorem balanced_storage (kind : VariableKind) :
    Balanced (.storage kind) (ofNonterminal options (.storage kind)) := by
  intro o
  simp [storage]

private theorem balanced_ascription : Balanced .ascription (ofNonterminal options .ascription) := by
  intro o
  simp [ascription]

private theorem balanced_initializer (kind : VariableKind) :
    Balanced (.initializer kind) (ofNonterminal options (.initializer kind)) := by
  intro o
  simp [initializer]

private theorem balanced_variable (kind : VariableKind) (location : Location) :
    Balanced (.variable kind location) (ofNonterminal options (.variable kind location)) := by
  intro o
  simp [variableDeclaration]

private theorem balanced_simpleStatement :
    Balanced .simpleStatement (ofNonterminal options .simpleStatement) := by
  intro o
  simp only [ofNonterminal, simpleStatement, nests_steps, Sight.admits_behind, true_implies]
  intro _ target t
  split
  · rename_i op hop
    simp [nest_of_assignment? hop]
  · rename_i op hop
    simp [nest_of_step? hop]
  · simp
  · simp

private theorem balanced_plainStatement :
    Balanced .plainStatement (ofNonterminal options .plainStatement) := by
  intro o
  simp only [ofNonterminal, plainStatement, condition, nests_steps]
  intro t
  split
  · simp [*]
  · simp +contextual [*]
  · simp [*]
  · simp [*]
  · simp [*]
  · simp [*]
  · split
    · rename_i kind hkind
      simp [nest_of_localVariableKind? hkind]
    · simp

private theorem balanced_statement : Balanced .statement (ofNonterminal options .statement) := by
  intro o
  simp only [ofNonterminal, statement, nests_steps]
  intro attributes t
  split <;> simp [*]

private theorem balanced_statements : Balanced .statements (ofNonterminal options .statements) := by
  intro o
  simp only [ofNonterminal, statements, nests_steps, Sight.admits_behind, true_implies]
  intro t
  split <;> simp [*]

private theorem balanced_conditional :
    Balanced .conditional (ofNonterminal options .conditional) := by
  intro o
  simp [conditional, condition]

private theorem balanced_alternatives :
    Balanced .alternatives (ofNonterminal options .alternatives) := by
  intro o
  simp only [ofNonterminal, alternatives, condition]
  intro t ht
  simp +contextual

private theorem balanced_selection : Balanced .selection (ofNonterminal options .selection) := by
  intro o
  simp [selection, condition]

private theorem balanced_clauses (hasDefault : Bool) :
    Balanced (.clauses hasDefault) (ofNonterminal options (.clauses hasDefault)) := by
  intro o
  simp only [ofNonterminal, clauses, nests_steps, Sight.admits_behind, true_implies]
  intro t
  split <;> simp [*]

private theorem balanced_selectors : Balanced .selectors (ofNonterminal options .selectors) := by
  intro o
  simp [selectors]

private theorem balanced_forInitializer :
    Balanced .forInitializer (ofNonterminal options .forInitializer) := by
  intro o
  simp only [ofNonterminal, forInitializer, nests_steps]
  intro t _
  split
  · rename_i kind hkind
    simp [nest_of_localVariableKind? hkind]
  · simp

private theorem balanced_forCondition :
    Balanced .forCondition (ofNonterminal options .forCondition) := by
  intro o
  simp [forCondition]

private theorem balanced_forUpdate : Balanced .forUpdate (ofNonterminal options .forUpdate) := by
  intro o
  simp [forUpdate]

private theorem balanced_iteration : Balanced .iteration (ofNonterminal options .iteration) := by
  intro o
  simp [iteration]

private theorem balanced_repetition : Balanced .repetition (ofNonterminal options .repetition) := by
  intro o
  simp [repetition, condition]

private theorem balanced_loop : Balanced .loop (ofNonterminal options .loop) := by
  intro o
  simp [loop]

private theorem balanced_loopBody : Balanced .loopBody (ofNonterminal options .loopBody) := by
  intro o
  simp only [ofNonterminal, loopBody, nests_steps, Sight.admits_behind, true_implies]
  intro t
  split <;> simp [*]

private theorem balanced_furtherNames :
    Balanced .furtherNames (ofNonterminal options .furtherNames) := by
  intro o
  simp [furtherNames]

private theorem balanced_bindings (role : BindingRole) :
    Balanced (.bindings role) (ofNonterminal options (.bindings role)) := by
  intro o
  simp [bindings]

private theorem balanced_functionResult :
    Balanced .functionResult (ofNonterminal options .functionResult) := by
  intro o
  simp [functionResult]

private theorem balanced_function : Balanced .function (ofNonterminal options .function) := by
  intro o
  simp [function]

private theorem balanced_item : Balanced .item (ofNonterminal options .item) := by
  intro o
  simp only [ofNonterminal, item, condition, nests_steps]
  intro t
  split
  · simp [*]
  · simp [*]
  · simp [*]
  · simp [*]
  · simp [*]
  · simp [*]
  · simp
  · simp
  · simp
  · split
    · rename_i kind hkind
      simp [nest_of_variableKind? hkind]
    · simp

private theorem balanced_declaration :
    Balanced .declaration (ofNonterminal options .declaration) := by
  intro o
  simp [declaration]

private theorem balanced_declarations :
    Balanced .declarations (ofNonterminal options .declarations) := by
  intro o
  simp only [ofNonterminal, declarations, nests_steps, Sight.admits_behind, true_implies]
  intro t
  split <;> simp [*]

/-- The rule of every nonterminal closes what it opens. -/
theorem balanced (n : Nonterminal) : n.Balanced (ofNonterminal options n) :=
  match n with
  | .attribute => balanced_attribute options
  | .attributes => balanced_attributes options
  | .type => balanced_type options
  | .typeParameters typeName => balanced_typeParameters options typeName
  | .constructorType => balanced_constructorType options
  | .expression inAngles => balanced_expression options inAngles
  | .operations inAngles => balanced_operations options inAngles
  | .unary => balanced_unary options
  | .suffixed => balanced_suffixed options
  | .suffixes base => balanced_suffixes options base
  | .primary => balanced_primary options
  | .expressions => balanced_expressions options
  | .arguments => balanced_arguments options
  | .construction type location => balanced_construction options type location
  | .block place => balanced_block options place
  | .storage kind => balanced_storage options kind
  | .ascription => balanced_ascription options
  | .initializer kind => balanced_initializer options kind
  | .variable kind location => balanced_variable options kind location
  | .simpleStatement => balanced_simpleStatement options
  | .plainStatement => balanced_plainStatement options
  | .statement => balanced_statement options
  | .statements => balanced_statements options
  | .conditional => balanced_conditional options
  | .alternatives => balanced_alternatives options
  | .selection => balanced_selection options
  | .clauses hasDefault => balanced_clauses options hasDefault
  | .selectors => balanced_selectors options
  | .forInitializer => balanced_forInitializer options
  | .forCondition => balanced_forCondition options
  | .forUpdate => balanced_forUpdate options
  | .iteration => balanced_iteration options
  | .repetition => balanced_repetition options
  | .loop => balanced_loop options
  | .loopBody => balanced_loopBody options
  | .furtherNames => balanced_furtherNames options
  | .bindings role => balanced_bindings options role
  | .functionResult => balanced_functionResult options
  | .function => balanced_function options
  | .item => balanced_item options
  | .declaration => balanced_declaration options
  | .declarations => balanced_declarations options

end Production

/-! ## What is accepted -/

namespace Cursor

/-- The kinds of the upcoming tokens. -/
def kinds (c : Cursor) : List TokenKind := c.upcoming.map (·.kind)

/-- The tokens from a cursor up to another lead from open brackets to open brackets. -/
def Nests (c : Cursor) (o : List Bracket) (c' : Cursor) (o' : List Bracket) : Prop :=
  ∃ ks, c.kinds = ks ++ c'.kinds ∧ nest o ks = some o'

variable {c c' c'' : Cursor} {o o' o'' : List Bracket}

namespace Nests

/-- No tokens leave the brackets as they are. -/
theorem refl (c : Cursor) (o : List Bracket) : c.Nests o c o := ⟨[], rfl, rfl⟩

/-- The tokens of two stretches do what the one does and then the other. -/
theorem trans (h : c.Nests o c' o') (h' : c'.Nests o' c'' o'') : c.Nests o c'' o'' := by
  obtain ⟨ks, hks, ho'⟩ := h
  obtain ⟨ks', hks', ho''⟩ := h'
  exact ⟨ks ++ ks', by rw [hks, hks', List.append_assoc], by rw [nest_append, ho']; exact ho''⟩

/-- What opens or closes at a token has done so behind it. -/
theorem advance (h : c.current.kind.nest o = some o') : c.Nests o c.advance o' := by
  cases hu : c.upcoming with
  | nil =>
    obtain rfl : o = o' := by simpa [current, hu, TokenKind.nest] using h
    exact ⟨[], by simp [Cursor.advance, hu], rfl⟩
  | cons t ts =>
    rw [current, hu, Token.nest_afterAngles] at h
    exact ⟨[t.kind], by simp [kinds, Cursor.advance, hu], by simp [nest, h]⟩

/-- Splitting a token takes none. -/
theorem split (c : Cursor) (o : List Bracket) : c.Nests o c.split o :=
  ⟨[], by rw [kinds, kinds, upcoming_split, List.nil_append], rfl⟩

end Nests

end Cursor

/-- Where a rule is accepted, the brackets it leaves open are those that the tokens it took do, if
what it reads closes what it opens. -/
theorem Rule.Nests.of_run {α : Type} {r : Production α} {s : Sight} {o : List Bracket}
    {Q : α → Sight → List Bracket → Prop} {c c' : Cursor} {a : α}
    {parse : (n : Nonterminal) → Cursor → Option (Outcome n.Result)}
    (hparse : ∀ n c (a : n.Result) c', parse n c = some (.accepted a c') → ∀ o, c.Nests o c' o)
    (hr : r.Nests s o Q) (hs : s.Matches c) (h : r.run parse c = some (.accepted a c')) :
    ∃ s' o', Q a s' o' ∧ c.Nests o c' o' := by
  induction r generalizing s o c with
  | done b =>
    cases h
    exact ⟨s, o, hr, .refl _ o⟩
  | fail e => cases h
  | look k ih => exact ih _ (hr _ hs.admits) rfl h
  | lookBehind k ih => exact ih _ (hr _) hs h
  | advance k ih =>
    obtain ⟨t, rfl, o', ho', hk⟩ := hr
    obtain rfl : c.current = t := hs
    obtain ⟨s'', o'', hQ, hnests⟩ := ih hk trivial h
    exact ⟨s'', o'', hQ, (Cursor.Nests.advance ho').trans hnests⟩
  | split k ih =>
    obtain ⟨s'', o'', hQ, hnests⟩ := ih hr trivial h
    exact ⟨s'', o'', hQ, (Cursor.Nests.split c o).trans hnests⟩
  | read m k ih =>
    rw [run] at h
    cases hm : parse m c with
    | none => simp [hm] at h
    | some outcome =>
      rw [hm] at h
      cases outcome with
      | accepted b d =>
        obtain ⟨s'', o'', hQ, hnests⟩ := ih b (hr b) trivial h
        exact ⟨s'', o'', hQ, (hparse m c b d hm o).trans hnests⟩
      | rejected e d => cases h
  | attempt m k ih =>
    rw [run] at h
    cases hm : parse m c with
    | none => simp [hm] at h
    | some outcome =>
      rw [hm] at h
      cases outcome with
      | accepted b d =>
        obtain ⟨s'', o'', hQ, hnests⟩ := ih (some b) (hr.1 b) trivial h
        exact ⟨s'', o'', hQ, (hparse m c b d hm o).trans hnests⟩
      | rejected e d => exact ih none hr.2 hs h

namespace Nonterminal

/-- What is accepted closes what it opens, and nothing that was open before it. -/
theorem parse_nests {options : ReadOptions} {depth : Nat} {n : Nonterminal} {c c' : Cursor}
    {a : n.Result} (h : (moduleGrammar options).parse depth n c = some (.accepted a c'))
    (o : List Bracket) : c.Nests o c' o := by
  induction depth generalizing n c c' o with
  | zero => simp [Grammar.parse] at h
  | succ depth ih =>
    obtain ⟨_, o', rfl, hnests⟩ :=
      (Production.balanced options n o).of_run (fun _ _ _ _ h' => ih h') trivial h
    exact hnests

/-- From any open brackets, what is accepted leads back to the same. -/
theorem outcome_nests {options : ReadOptions} {n : Nonterminal} {c c' : Cursor} {a : n.Result}
    (h : n.outcome options c = .accepted a c') (o : List Bracket) : c.Nests o c' o :=
  parse_nests ((parse_eq_outcome options n c).trans (congrArg some h)) o

/-- From any open brackets, the tokens that were upcoming before it and those behind it come to the
same. -/
theorem outcome_nest {options : ReadOptions} {n : Nonterminal} {c c' : Cursor} {a : n.Result}
    (h : n.outcome options c = .accepted a c') (o : List Bracket) :
    nest o c.kinds = nest o c'.kinds := by
  obtain ⟨ks, hks, ho⟩ := outcome_nests h o
  rw [hks, nest_append, ho, Option.bind_some]

end Nonterminal

/-- The brackets of a module are nested, up to the end of the file. -/
theorem Module.nested_of_ofTokens {tokens : List Token} {options : ReadOptions} {m : Module}
    (h : Module.ofTokens tokens options = .ok m) :
    Nested (brackets tokens) := by
  obtain ⟨c', hm⟩ := ofTokens_eq_ok_iff.1 h
  have hend : c'.upcoming = [] :=
    Nonterminal.upcoming_declarations (Cursor.lacks_endOfFile_ofTokens tokens) hm
  refine nested_iff.2 ?_
  calc nest [] (Cursor.ofTokens tokens).kinds
      = nest [] c'.kinds := Nonterminal.outcome_nest hm []
    _ = some [] := by rw [Cursor.kinds, hend]; rfl

/-- In `let x = f(a < b[(0)]);` a type is tried at `a` and given up before the `[`. The `(` behind
the end of the file is no part of the module. -/
theorem Module.nested_of_ofTokens_comparison :
    ∃ m, Module.ofTokens (tokenize "let x = f(a < b[(0)]);" ++ [⟨.symbol .parenLeft, .start⟩]) =
        .ok m ∧
      Nested (brackets (tokenize "let x = f(a < b[(0)]);" ++ [⟨.symbol .parenLeft, .start⟩])) := by
  obtain ⟨m, hm⟩ := @exists_eq_ok (Module.ofTokens
    (tokenize "let x = f(a < b[(0)]);" ++ [⟨.symbol .parenLeft, .start⟩])) (by decide +kernel)
  exact ⟨m, hm, nested_of_ofTokens hm⟩

end Wgsl
