import Wgsl.Proofs.Relocation.Rule
import Wgsl.Proofs.WholeFile

/-!
# The module grammar does not look at locations

A rule for each nonterminal, in the order of the grammar: what it reads and what it looks at is
gone through step by step, and at each end stands the value that the relocated parts make.

`Module.ofTokens_relocate` is what comes of it for whole files. Relocated tokens are read as the
relocated module or refused with the relocated error. And where the same kinds of tokens stand, at
whatever locations, both readings are relocated from one, that of tokens which stand each on a line
of its own (`inLines`).
-/

namespace Wgsl

namespace Production

open Rule

variable {f : Location → Location} {options : ReadOptions}

/-- The rule of the nonterminal does not look at locations. -/
abbrev RelocatesTo (f : Location → Location) (options : ReadOptions) (n : Nonterminal) : Prop :=
  Relocates f (n.relocated f) (ofNonterminal options n) (ofNonterminal options (n.relocate f))

/-! ## Attributes and types -/

private theorem relocates_attributes : RelocatesTo f options .attributes :=
  (Relocates.sees .attr).bind fun _ => .ite
    ((Relocates.parse .attribute).bind fun _ => (Relocates.parse .attributes).bind fun _ =>
      .pure _ rfl)
    (.pure [] rfl)

private theorem relocates_attribute : RelocatesTo f options .attribute := by
  refine Relocates.current.bind fun opening => (Relocates.expect _ _).bind fun _ =>
    Relocates.current.bind fun token => ?_
  dsimp only [Token.relocate]
  split
  · exact .unexpected _
  · exact Relocates.skip.bind fun _ => (Relocates.accept _).bind fun _ => .ite
      ((Relocates.parse .expressions).bind fun _ => (Relocates.expect _ _).bind fun _ =>
        .pure _ rfl)
      (.pure _ rfl)

private theorem relocates_type : RelocatesTo f options .type :=
  (Relocates.parse .attributes).bind fun _ => Relocates.current.bind fun _ =>
    (Relocates.identifier _).bind fun _ => (Relocates.accept _).bind fun _ => .ite
      ((Relocates.parse (.typeParameters _)).bind fun _ => .pure _ rfl)
      (.pure _ rfl)

private theorem relocates_furtherParameter : Relocates f id furtherParameter furtherParameter :=
  (Relocates.accept _).bind fun _ => .ite (Relocates.current.bind fun _ => .pure _ rfl)
    (.pure _ rfl)

private theorem relocates_closeParameters (hf : ∀ l, f (l.rightBy 1) = (f l).rightBy 1)
    (typeName : String) :
    Relocates f id (closeParameters typeName) (closeParameters typeName) :=
  (Relocates.accept _).bind fun _ => .closeAngle hf _

private theorem relocates_typeParameters (hf : ∀ l, f (l.rightBy 1) = (f l).rightBy 1)
    (typeName : String) : RelocatesTo f options (.typeParameters typeName) := by
  have hclose := relocates_closeParameters hf typeName
  refine .ite ?pointer ?other
  case pointer =>
    exact (Relocates.identifier _).bind fun _ => (Relocates.expect _ _).bind fun _ =>
      (Relocates.parse .type).bind fun _ => relocates_furtherParameter.bind fun _ => .ite
        ((Relocates.identifier _).bind fun _ => hclose.bind fun _ => .pure _ rfl)
        (hclose.bind fun _ => .pure _ rfl)
  case other =>
    exact (Relocates.parse .type).bind fun _ => relocates_furtherParameter.bind fun _ => .ite
      (Relocates.current.bind fun _ => .ite
        ((Relocates.parse (.expression true)).bind fun _ => hclose.bind fun _ => .pure _ rfl)
        ((Relocates.identifier _).bind fun _ => hclose.bind fun _ => .pure _ rfl))
      (hclose.bind fun _ => .pure _ rfl)

private theorem relocates_constructorType : RelocatesTo f options .constructorType :=
  (Relocates.parse .type).bind fun type => (Relocates.sees _).bind fun _ => .ite (.pure type rfl)
    (.unexpected _)

/-! ## Expressions -/

private theorem relocates_condition : Relocates f (Expression.relocate f) condition condition :=
  (Relocates.parse (.expression false)).bind fun e => .pure _ e.withoutParentheses_relocate

private theorem relocates_expression (inAngles : Bool) :
    RelocatesTo f options (.expression inAngles) :=
  (Relocates.parse .unary).bind fun first => (Relocates.parse (.operations inAngles)).bind
    fun chain => .pure _ (Expression.ofChain_relocate first chain)

private theorem relocates_operations (inAngles : Bool) :
    RelocatesTo f options (.operations inAngles) := by
  refine Relocates.current.bind fun token => ?_
  dsimp only [Token.relocate]
  split
  · exact .pure _ rfl
  · exact .ite (.pure _ rfl) (Relocates.skip.bind fun _ => (Relocates.parse .unary).bind fun _ =>
      (Relocates.parse (.operations inAngles)).bind fun _ => .pure _ rfl)

private theorem relocates_unary : RelocatesTo f options .unary := by
  refine Relocates.current.bind fun token => ?_
  dsimp only [Token.relocate]
  split
  · exact .parse .suffixed
  · exact Relocates.skip.bind fun _ => (Relocates.parse .unary).bind fun _ => .pure _ rfl

private theorem relocates_suffixed : RelocatesTo f options .suffixed :=
  (Relocates.parse .primary).bind fun base => .parse (.suffixes base)

private theorem relocates_suffixes (base : Expression) :
    RelocatesTo f options (.suffixes base) := by
  refine Relocates.current.bind fun token => ?_
  dsimp only [Token.relocate]
  split
  · exact Relocates.skip.bind fun _ => (Relocates.parse (.expression false)).bind fun index =>
      (Relocates.expect _ _).bind fun _ => .parse (.suffixes (.index base index token.location))
  · exact Relocates.skip.bind fun _ => (Relocates.identifier _).bind fun name =>
      .parse (.suffixes (.member base name token.location))
  · cases base with
    | identifier callee location =>
      exact (Relocates.parse .arguments).bind fun arguments =>
        .parse (.suffixes (.call callee arguments location))
    | _ => exact .unexpected _
  · exact .pure base rfl

private theorem relocates_construction (type : TypeSpecifier) (l : Location) :
    RelocatesTo f options (.construction type l) := by
  refine (Relocates.parse .arguments).bind fun arguments => ?_
  rw [type.bitcastTarget?_relocate]
  cases type.bitcastTarget? with
  | none => exact .pure _ rfl
  | some target =>
    rcases arguments with _ | ⟨value, _ | ⟨further, rest⟩⟩
    · exact .fail (.bitcastArguments 0 l)
    · exact .pure _ rfl
    · have hlength := length_relocateExpressions (f := f) (value :: further :: rest)
      simp only [Option.map_some, Nonterminal.relocated, relocateExpressions] at hlength ⊢
      rw [hlength]
      exact .fail (.bitcastArguments _ l)

private theorem relocates_primary : RelocatesTo f options .primary := by
  refine Relocates.current.bind fun token => ?_
  dsimp only [Token.relocate]
  split
  · exact Relocates.skip.bind fun _ => .pure _ rfl
  · exact Relocates.skip.bind fun _ => .pure _ rfl
  · exact Relocates.skip.bind fun _ => .pure _ rfl
  · refine Relocates.skip.bind fun _ => (Relocates.parse (.expression false)).bind fun inner =>
      (Relocates.expect _ _).bind fun _ => .pure _ ?_
    exact (apply_ite (Expression.relocate f) _ (.grouped inner token.location) inner).symm
  · rename_i name _
    refine Relocates.following.bind fun behind => ?_
    dsimp only [id]
    split
    · refine (Relocates.parse? .constructorType).bind fun type => ?_
      cases type with
      | some type => exact .parse (.construction type token.location)
      | none => exact Relocates.skip.bind fun _ => .pure _ rfl
    · exact Relocates.skip.bind fun _ => .ite
        ((Relocates.parse .arguments).bind fun _ => .pure _ rfl) (.pure _ rfl)
    · exact Relocates.skip.bind fun _ => .pure _ rfl
  · exact .unexpected _

private theorem relocates_expressions : RelocatesTo f options .expressions :=
  (Relocates.sees _).bind fun _ => .ite (.pure [] rfl)
    ((Relocates.parse (.expression false)).bind fun _ => (Relocates.accept _).bind fun _ => .ite
      ((Relocates.parse .expressions).bind fun _ => .pure _ rfl) (.pure _ rfl))

private theorem relocates_arguments : RelocatesTo f options .arguments :=
  (Relocates.expect _ _).bind fun _ => (Relocates.parse .expressions).bind fun _ =>
    (Relocates.expect _ _).bind fun _ => .pure _ rfl

/-! ## Variables -/

private theorem relocates_block (place : String) : RelocatesTo f options (.block place) :=
  (Relocates.expect _ _).bind fun _ => (Relocates.parse .statements).bind fun _ =>
    (Relocates.expect _ _).bind fun _ => .pure _ rfl

private theorem relocates_storage (hf : ∀ l, f (l.rightBy 1) = (f l).rightBy 1)
    (kind : VariableKind) :
    RelocatesTo f options (.storage kind) :=
  .ite
    ((Relocates.accept _).bind fun _ => .ite
      ((Relocates.identifier _).bind fun _ => (Relocates.accept _).bind fun _ => .ite
        ((Relocates.identifier _).bind fun _ => (Relocates.closeAngle hf _).bind fun _ =>
          .pure _ rfl)
        ((Relocates.closeAngle hf _).bind fun _ => .pure _ rfl))
      (.pure _ rfl))
    (.pure _ rfl)

private theorem relocates_ascription : RelocatesTo f options .ascription :=
  (Relocates.accept _).bind fun _ => .ite ((Relocates.parse .type).bind fun _ => .pure _ rfl)
    (.pure _ rfl)

private theorem relocates_initializer (kind : VariableKind) :
    RelocatesTo f options (.initializer kind) :=
  (Relocates.accept _).bind fun _ => .ite
    ((Relocates.parse (.expression false)).bind fun _ => .pure _ rfl)
    (.ite (.unexpected _) (.pure _ rfl))

private theorem relocates_variable (kind : VariableKind) (l : Location) :
    RelocatesTo f options (.variable kind l) := by
  refine (Relocates.parse (.storage kind)).bind fun storage => (Relocates.identifier _).bind
    fun name => (Relocates.parse .ascription).bind fun type =>
    (Relocates.parse (.initializer kind)).bind fun initializer => ?_
  rw [Nonterminal.relocated, Nonterminal.relocated, Option.isNone_map, Option.isNone_map]
  exact .ite (.unexpected _) (.pure _ rfl)

/-! ## Statements -/

private theorem relocates_simpleStatement : RelocatesTo f options .simpleStatement := by
  refine Relocates.current.bind fun start => (Relocates.parse .unary).bind fun target =>
    Relocates.current.bind fun token => ?_
  dsimp only [Token.relocate]
  cases token.kind.assignment? with
  | some op =>
    exact Relocates.skip.bind fun _ => (Relocates.parse (.expression false)).bind fun _ =>
      .pure _ rfl
  | none =>
    cases token.kind.step? with
    | some op => exact Relocates.skip.bind fun _ => .pure _ rfl
    | none =>
      cases target with
      | call => exact .pure _ rfl
      | _ => exact .unexpected _

private theorem relocates_plainStatement : RelocatesTo f options .plainStatement := by
  refine Relocates.current.bind fun token => ?_
  dsimp only [Token.relocate]
  split
  · exact Relocates.skip.bind fun _ => (Relocates.accept _).bind fun _ => .ite (.pure _ rfl)
      ((Relocates.parse (.expression false)).bind fun _ => (Relocates.expect _ _).bind fun _ =>
        .pure _ rfl)
  · exact Relocates.skip.bind fun _ => Relocates.current.bind fun _ => .ite
      (Relocates.skip.bind fun _ => relocates_condition.bind fun _ =>
        (Relocates.expect _ _).bind fun _ => .pure _ rfl)
      ((Relocates.expect _ _).bind fun _ => .pure _ rfl)
  · exact Relocates.skip.bind fun _ => (Relocates.expect _ _).bind fun _ => .pure _ rfl
  · exact Relocates.skip.bind fun _ => (Relocates.expect _ _).bind fun _ => .pure _ rfl
  · exact Relocates.skip.bind fun _ => relocates_condition.bind fun _ =>
      (Relocates.expect _ _).bind fun _ => .pure _ rfl
  · exact Relocates.skip.bind fun _ => relocates_condition.bind fun _ =>
      (Relocates.expect _ _).bind fun _ => .pure _ rfl
  · split
    · exact Relocates.skip.bind fun _ => (Relocates.parse (.variable _ token.location)).bind
        fun _ => (Relocates.expect _ _).bind fun _ => .pure _ rfl
    · exact (Relocates.parse .simpleStatement).bind fun _ => (Relocates.expect _ _).bind fun _ =>
        .pure _ rfl

private theorem relocates_statement : RelocatesTo f options .statement := by
  refine (Relocates.parse .attributes).bind fun attributes => Relocates.current.bind
    fun token => ?_
  dsimp only [Token.relocate]
  split
  · exact Relocates.skip.bind fun _ => (Relocates.parse .conditional).bind fun _ => .pure _ rfl
  · exact Relocates.skip.bind fun _ => (Relocates.parse .selection).bind fun _ => .pure _ rfl
  · exact Relocates.skip.bind fun _ => (Relocates.parse .iteration).bind fun _ => .pure _ rfl
  · exact Relocates.skip.bind fun _ => (Relocates.parse .loop).bind fun _ => .pure _ rfl
  · exact Relocates.skip.bind fun _ => (Relocates.parse .repetition).bind fun _ => .pure _ rfl
  · exact (Relocates.parse (.block _)).bind fun _ => .pure _ (by simp)
  · rw [Nonterminal.relocated, isEmpty_relocateAttributes]
    exact .ite (.parse .plainStatement) (.unexpected _)

private theorem relocates_statements : RelocatesTo f options .statements := by
  refine Relocates.current.bind fun token => ?_
  dsimp only [Token.relocate]
  split
  · exact Relocates.skip.bind fun _ => .parse .statements
  · exact .pure _ rfl
  · exact .pure _ rfl
  · exact (Relocates.parse .statement).bind fun _ => (Relocates.parse .statements).bind fun _ =>
      .pure _ rfl

/-! ## Compound statements -/

private theorem relocates_conditional : RelocatesTo f options .conditional :=
  relocates_condition.bind fun _ => (Relocates.parse (.block _)).bind fun _ =>
    (Relocates.parse .alternatives).bind fun _ => .pure _ (by simp)

private theorem relocates_alternatives : RelocatesTo f options .alternatives :=
  Relocates.current.bind fun _ => .ite
    (Relocates.skip.bind fun _ => Relocates.current.bind fun _ => .ite
      (Relocates.skip.bind fun _ => relocates_condition.bind fun _ =>
        (Relocates.parse (.block _)).bind fun _ => (Relocates.parse .alternatives).bind fun _ =>
          .pure _ rfl)
      ((Relocates.parse (.block _)).bind fun _ => .pure _ rfl))
    (.pure _ rfl)

private theorem relocates_selection : RelocatesTo f options .selection :=
  relocates_condition.bind fun _ => (Relocates.expect _ _).bind fun _ =>
    (Relocates.parse (.clauses false)).bind fun _ => (Relocates.expect _ _).bind fun _ =>
      .pure _ rfl

private theorem relocates_clauses (hasDefault : Bool) :
    RelocatesTo f options (.clauses hasDefault) := by
  refine Relocates.current.bind fun token => ?_
  dsimp only [Token.relocate]
  split
  · exact .pure _ rfl
  · exact Relocates.skip.bind fun _ => (Relocates.parse .selectors).bind fun _ =>
      (Relocates.accept _).bind fun _ => (Relocates.parse (.block _)).bind fun _ =>
        (Relocates.parse (.clauses hasDefault)).bind fun _ => .pure _ rfl
  · exact .ite (.unexpected _)
      (Relocates.skip.bind fun _ => (Relocates.accept _).bind fun _ =>
        (Relocates.parse (.block _)).bind fun _ => (Relocates.parse (.clauses true)).bind fun _ =>
          .pure _ rfl)
  · exact .unexpected _

private theorem relocates_selectors : RelocatesTo f options .selectors :=
  (Relocates.parse (.expression false)).bind fun _ => (Relocates.accept _).bind fun _ => .ite
    (Relocates.current.bind fun _ => .ite (.pure _ rfl)
      ((Relocates.parse .selectors).bind fun _ => .pure _ rfl))
    (.pure _ rfl)

private theorem relocates_forInitializer : RelocatesTo f options .forInitializer := by
  refine Relocates.current.bind fun token => .ite (.pure _ rfl) ?_
  dsimp only [Token.relocate]
  split
  · exact Relocates.skip.bind fun _ => (Relocates.parse (.variable _ token.location)).bind
      fun _ => .pure _ rfl
  · exact (Relocates.parse .simpleStatement).bind fun _ => .pure _ rfl

private theorem relocates_forCondition : RelocatesTo f options .forCondition :=
  (Relocates.sees _).bind fun _ => .ite (.pure _ rfl)
    ((Relocates.parse (.expression false)).bind fun _ => .pure _ rfl)

private theorem relocates_forUpdate : RelocatesTo f options .forUpdate :=
  (Relocates.sees _).bind fun _ => .ite (.pure _ rfl)
    ((Relocates.parse .simpleStatement).bind fun _ => .pure _ rfl)

private theorem relocates_iteration : RelocatesTo f options .iteration :=
  (Relocates.expect _ _).bind fun _ => (Relocates.parse .forInitializer).bind fun _ =>
    (Relocates.expect _ _).bind fun _ => (Relocates.parse .forCondition).bind fun _ =>
    (Relocates.expect _ _).bind fun _ => (Relocates.parse .forUpdate).bind fun _ =>
    (Relocates.expect _ _).bind fun _ => (Relocates.parse (.block _)).bind fun _ =>
      .pure _ (by simp)

private theorem relocates_repetition : RelocatesTo f options .repetition :=
  relocates_condition.bind fun _ => (Relocates.parse (.block _)).bind fun _ => .pure _ (by simp)

private theorem relocates_loop : RelocatesTo f options .loop :=
  (Relocates.expect _ _).bind fun _ => (Relocates.parse .loopBody).bind fun _ =>
    (Relocates.expect _ _).bind fun _ => .pure _ (by simp)

private theorem relocates_loopBody : RelocatesTo f options .loopBody := by
  refine Relocates.current.bind fun token => ?_
  dsimp only [Token.relocate]
  split
  · exact Relocates.skip.bind fun _ => .parse .loopBody
  · exact .pure _ rfl
  · exact Relocates.skip.bind fun _ => (Relocates.parse (.block _)).bind fun _ => .pure _ rfl
  · exact (Relocates.parse .statement).bind fun _ => (Relocates.parse .loopBody).bind fun _ =>
      .pure _ rfl

/-! ## Declarations -/

private theorem relocates_furtherNames : RelocatesTo f options .furtherNames :=
  (Relocates.accept _).bind fun _ => .ite
    ((Relocates.sees _).bind fun _ => .ite (.pure _ rfl)
      ((Relocates.identifier _).bind fun _ => (Relocates.parse .furtherNames).bind fun _ =>
        .pure _ rfl))
    (.pure _ rfl)

private theorem relocates_bindings (role : BindingRole) : RelocatesTo f options (.bindings role) :=
  (Relocates.sees _).bind fun _ => .ite (.pure _ rfl)
    ((Relocates.parse .attributes).bind fun _ => Relocates.current.bind fun _ =>
      (Relocates.identifier _).bind fun _ => (Relocates.expect _ _).bind fun _ =>
      (Relocates.parse .type).bind fun _ => (Relocates.accept _).bind fun _ => .ite
        ((Relocates.parse (.bindings role)).bind fun _ => .pure _ rfl)
        (.pure _ rfl))

private theorem relocates_functionResult : RelocatesTo f options .functionResult :=
  (Relocates.accept _).bind fun _ => .ite
    ((Relocates.parse .attributes).bind fun _ => (Relocates.parse .type).bind fun _ => .pure _ rfl)
    (.pure _ rfl)

private theorem relocates_function : RelocatesTo f options .function :=
  Relocates.current.bind fun _ => (Relocates.identifier _).bind fun _ =>
    (Relocates.expect _ _).bind fun _ => (Relocates.parse (.bindings .parameter)).bind fun _ =>
    (Relocates.expect _ _).bind fun _ => (Relocates.parse .functionResult).bind fun _ =>
    (Relocates.parse (.block _)).bind fun _ => .pure _ rfl

private theorem relocates_item : RelocatesTo f options .item := by
  refine Relocates.current.bind fun token => ?_
  dsimp only [Token.relocate]
  split
  · exact Relocates.skip.bind fun _ => (Relocates.identifier _).bind fun _ =>
      (Relocates.parse .furtherNames).bind fun _ => (Relocates.expect _ _).bind fun _ =>
        .pure _ rfl
  · exact Relocates.skip.bind fun _ => (Relocates.identifier _).bind fun _ =>
      (Relocates.expect _ _).bind fun _ => (Relocates.parse .type).bind fun _ =>
      (Relocates.expect _ _).bind fun _ => .pure _ rfl
  · exact Relocates.skip.bind fun _ => (Relocates.identifier _).bind fun _ =>
      (Relocates.expect _ _).bind fun _ => (Relocates.parse (.bindings .member)).bind fun _ =>
      (Relocates.expect _ _).bind fun _ => .pure _ rfl
  · exact Relocates.skip.bind fun _ => (Relocates.parse .function).bind fun _ => .pure _ rfl
  · exact Relocates.skip.bind fun _ => relocates_condition.bind fun _ =>
      (Relocates.expect _ _).bind fun _ => .pure _ rfl
  · exact Relocates.skip.bind fun _ => relocates_condition.bind fun _ =>
      (Relocates.expect _ _).bind fun _ => .pure _ rfl
  · exact .fail (.unsupported _ token.location)
  · exact .fail (.unsupported _ token.location)
  · exact .fail (.unsupported _ token.location)
  · split
    · exact Relocates.skip.bind fun _ => (Relocates.parse (.variable _ token.location)).bind
        fun _ => (Relocates.expect _ _).bind fun _ => .pure _ rfl
    · exact .unexpected _

private theorem relocates_declaration : RelocatesTo f options .declaration :=
  (Relocates.parse .attributes).bind fun _ => (Relocates.parse .item).bind fun _ => .pure _ rfl

private theorem relocates_declarations : RelocatesTo f options .declarations := by
  refine Relocates.current.bind fun token => ?_
  dsimp only [Token.relocate]
  split
  · exact Relocates.skip.bind fun _ => .parse .declarations
  · exact .pure _ rfl
  · exact (Relocates.parse .declaration).bind fun _ => (Relocates.parse .declarations).bind
      fun _ => .pure _ rfl

/-- No rule of the grammar looks at locations. -/
theorem relocates_ofNonterminal (hf : ∀ l, f (l.rightBy 1) = (f l).rightBy 1) :
    (n : Nonterminal) → RelocatesTo f options n
  | .attribute => relocates_attribute
  | .attributes => relocates_attributes
  | .type => relocates_type
  | .typeParameters typeName => relocates_typeParameters hf typeName
  | .constructorType => relocates_constructorType
  | .expression inAngles => relocates_expression inAngles
  | .operations inAngles => relocates_operations inAngles
  | .unary => relocates_unary
  | .suffixed => relocates_suffixed
  | .suffixes base => relocates_suffixes base
  | .primary => relocates_primary
  | .expressions => relocates_expressions
  | .arguments => relocates_arguments
  | .construction type l => relocates_construction type l
  | .block place => relocates_block place
  | .storage kind => relocates_storage hf kind
  | .ascription => relocates_ascription
  | .initializer kind => relocates_initializer kind
  | .variable kind l => relocates_variable kind l
  | .simpleStatement => relocates_simpleStatement
  | .plainStatement => relocates_plainStatement
  | .statement => relocates_statement
  | .statements => relocates_statements
  | .conditional => relocates_conditional
  | .alternatives => relocates_alternatives
  | .selection => relocates_selection
  | .clauses hasDefault => relocates_clauses hasDefault
  | .selectors => relocates_selectors
  | .forInitializer => relocates_forInitializer
  | .forCondition => relocates_forCondition
  | .forUpdate => relocates_forUpdate
  | .iteration => relocates_iteration
  | .repetition => relocates_repetition
  | .loop => relocates_loop
  | .loopBody => relocates_loopBody
  | .furtherNames => relocates_furtherNames
  | .bindings role => relocates_bindings role
  | .functionResult => relocates_functionResult
  | .function => relocates_function
  | .item => relocates_item
  | .declaration => relocates_declaration
  | .declarations => relocates_declarations

end Production

/-! ## Outcomes -/

variable {f : Location → Location}

/-- What a nonterminal comes to is relocated with the tokens. -/
theorem Nonterminal.outcome_relocate (hf : ∀ l, f (l.rightBy 1) = (f l).rightBy 1)
    (options : ReadOptions) (n : Nonterminal) (c : Cursor) :
    (n.relocate f).outcome options (c.relocate f) =
      (n.outcome options c).relocate f (n.relocated f) := by
  have hparse := Grammar.parse_relocate (g := moduleGrammar options)
    (fun n => Production.relocates_ofNonterminal hf n) hf (n.weight c + 1) n c
  rw [parse_eq_outcome] at hparse
  exact outcome_of_parse hparse

/-! ## Modules -/

namespace Module

/-- Relocate every location of a module, or that of the error. -/
def relocate (f : Location → Location) (m : Except ParseError Module) : Except ParseError Module :=
  (m.map (List.map (Declaration.relocate f))).mapError (ParseError.relocate f)

/-- Two changes of what a module comes to are one. -/
theorem relocate_relocate {g : Location → Location} (m : Except ParseError Module) :
    relocate g (relocate f m) = relocate (g ∘ f) m := by
  cases m with
  | ok declarations =>
    have hdeclaration : Declaration.relocate g ∘ Declaration.relocate f =
        Declaration.relocate (g ∘ f) := funext fun d => d.relocate_relocate
    simp only [relocate, Except.map, Except.mapError, List.map_map, hdeclaration]
  | error e => cases e <;> rfl

/-- The end of a file is relocated with its tokens, if there are any. -/
theorem finishOf_map_relocate (tokens : List Token) (last : Location) :
    Cursor.finishOf (f last) (tokens.map (Token.relocate f)) = f (Cursor.finishOf last tokens) := by
  induction tokens generalizing last with
  | nil => rfl
  | cons t tokens ih =>
    rw [List.map_cons, Cursor.finishOf, Cursor.finishOf, apply_ite f, ← ih]
    rfl

private theorem ofTokens_map_relocate (hf : ∀ l, f (l.rightBy 1) = (f l).rightBy 1)
    (options : ReadOptions) (tokens : List Token) :
    ofTokens (tokens.map (Token.relocate f)) options = relocate f (ofTokens tokens options) := by
  cases tokens with
  | nil =>
    -- without tokens the file ends where every file begins, and that is not relocated
    have hempty : ofTokens [] options = .ok [] :=
      ofTokens_eq_ok_iff.2 ⟨_, Nonterminal.declarations_of_endOfFile rfl⟩
    rw [List.map_nil, hempty]
    rfl
  | cons t tokens =>
    have hcursor : Cursor.ofTokens ((t :: tokens).map (Token.relocate f)) =
        (Cursor.ofTokens (t :: tokens)).relocate f := by
      have hupcoming (ts : List Token) :
          (ts.map (Token.relocate f)).takeWhile (·.kind ≠ .endOfFile) =
            (ts.takeWhile (·.kind ≠ .endOfFile)).map (Token.relocate f) := by
        rw [List.takeWhile_map]
        rfl
      have hfinish : Cursor.finishOf .start ((t :: tokens).map (Token.relocate f)) =
          f (Cursor.finishOf .start (t :: tokens)) := by
        rw [List.map_cons, Cursor.finishOf, Cursor.finishOf, apply_ite f,
          ← finishOf_map_relocate (f := f)]
        rfl
      simp only [Cursor.ofTokens, Cursor.relocate, hupcoming, hfinish]
    have houtcome := Nonterminal.declarations.outcome_relocate hf options
      (Cursor.ofTokens (t :: tokens))
    rw [ofTokens, ofTokens, Reader.next, Reader.next, Reader.ofTokens, Reader.ofTokens, hcursor]
    cases ho : Nonterminal.declarations.outcome options (.ofTokens (t :: tokens)) with
    | accepted declarations c =>
      rw [ho] at houtcome
      simp only [Nonterminal.relocate] at houtcome
      simp only [houtcome, Outcome.relocate]
      rfl
    | rejected e c =>
      rw [ho] at houtcome
      simp only [Nonterminal.relocate] at houtcome
      simp only [houtcome, Outcome.relocate]
      rfl

/-! ## Tokens of the same kinds -/

/-- Tokens of some kinds, each at the beginning of a line of its own. -/
def inLines (kinds : List TokenKind) : List Token := kinds.mapIdx fun i kind => ⟨kind, ⟨i, 0⟩⟩

/-- From there to where some tokens stand: the columns of a line are those behind its token. -/
def fromLines (tokens : List Token) (l : Location) : Location :=
  ((tokens[l.line]?).elim .start Token.location).rightBy l.column

/-- One column to the right on a line of its own is one column to the right in the source. -/
theorem fromLines_rightBy (tokens : List Token) (l : Location) :
    fromLines tokens (l.rightBy 1) = (fromLines tokens l).rightBy 1 := by
  rw [fromLines, fromLines, Location.rightBy_rightBy]
  rfl

/-- Tokens on lines of their own are taken back to where they stood. -/
theorem inLines_map_relocate (tokens : List Token) :
    (inLines (tokens.map Token.kind)).map (Token.relocate (fromLines tokens)) = tokens := by
  refine List.ext_getElem (by simp [inLines]) fun i hi hi' => ?_
  simp [inLines, Token.relocate, fromLines, hi']

/-- Where tokens of the same kinds stand, the same module is read or the same error found, but for
the locations in it. -/
theorem relocate_ofTokens_congr {tokens tokens' : List Token}
    (h : tokens.map Token.kind = tokens'.map Token.kind) (options : ReadOptions) :
    relocate (fun _ => .start) (ofTokens tokens options) =
      relocate (fun _ => .start) (ofTokens tokens' options) := by
  have hlines (ts : List Token) : relocate (fun _ => .start) (ofTokens ts options) =
      relocate (fun _ => .start) (ofTokens (inLines (ts.map Token.kind)) options) := by
    conv_lhs => rw [← inLines_map_relocate ts]
    rw [ofTokens_map_relocate (fromLines_rightBy ts), relocate_relocate]
    rfl
  rw [hlines tokens, hlines tokens', h]

/-- Locations never decide what is read. Where tokens of the same kinds stand, the same module is
read or the same error found, but for the locations in it. And where a change of locations agrees
with going one column to the right, changing those of the tokens changes those of the result and
nothing else. -/
theorem ofTokens_relocate (options : ReadOptions) :
    (∀ tokens tokens' : List Token, tokens.map Token.kind = tokens'.map Token.kind →
      relocate (fun _ => .start) (ofTokens tokens options) =
        relocate (fun _ => .start) (ofTokens tokens' options)) ∧
    ∀ f : Location → Location, (∀ l, f (l.rightBy 1) = (f l).rightBy 1) → ∀ tokens : List Token,
      ofTokens (tokens.map (Token.relocate f)) options = relocate f (ofTokens tokens options) :=
  ⟨fun _ _ hkinds => relocate_ofTokens_congr hkinds options,
    fun _ hf => ofTokens_map_relocate hf options⟩

/-- Two closing angles in one token are split, wherever the token stands. -/
theorem ofTokens_relocate_nested_vectors :
    relocate (fun _ => .start) (ofSource "alias m = vec2<vec2<f32>>;") =
        relocate (fun _ => .start) (ofSource "alias m\n= vec2 < vec2 < f32 >> ;") ∧
      ofTokens ((tokenize "alias m = vec2<vec2<f32>>;").map (Token.relocate (·.rightBy 4))) =
        relocate (·.rightBy 4) (ofSource "alias m = vec2<vec2<f32>>;") :=
  ⟨(ofTokens_relocate {}).1 (tokenize _) (tokenize _) (by decide +kernel),
    (ofTokens_relocate {}).2 (·.rightBy 4) (fun l => by simp) (tokenize _)⟩

end Module

end Wgsl
