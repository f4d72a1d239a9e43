import Wgsl.Proofs.Prefix.Viable

/-!
# Every rule can be completed

The rule of every nonterminal that is read takes its sample, and can be completed wherever a reader
may be refused (`Production.viable`). There is one lemma for each rule, which follows it step by
step. Where the proof says nothing but `simp`, the tokens that may follow, and those that complete
the rule, are compared.

A primary expression is left out: a name in it may begin a type, and whether that is tried is a
question of the tokens behind the name. It takes its sample like the others. So all samples are read
(`Nonterminal.readsSample`), and no rule begins by splitting a token (`Production.stays`).
-/

namespace Wgsl

open scoped Rule.Steps

namespace Nonterminal

/-- The rule of the nonterminal takes its sample, and can be completed wherever it may be
interrupted. -/
abbrev IsViable (options : ReadOptions) (n : Nonterminal) : Prop :=
  (Production.ofNonterminal options n).Goes options n.followers n.Yields n.sample

end Nonterminal

namespace Production

open Rule Nonterminal

variable (options : ReadOptions)

attribute [local simp] BindingRole.closing

/-- A condition is read as an expression. -/
theorem viable_condition {α : Type} {F w : List TokenKind} {Y : α → Prop}
    {f : Expression → Production α}
    (hf : (∀ kind ∈ F, kind ∈ TokenKind.enders) ∧ (Nonterminal.expression false).StandsBefore F w ∧
      Tame w ∧ ∀ e, (f e).Stays)
    (h : ∀ e, (f e).Goes options F Y w) :
    (condition >>= f).Goes options F Y (.someName :: w) := by
  have htree : (condition >>= f : Production α) =
      parse (.expression false) >>= fun e => f e.withoutParentheses := by
    rw [condition, bind_eq, bind_eq, Rule.bind_assoc]
    rfl
  obtain ⟨hF, hw, htame, hstays⟩ := hf
  rw [htree]
  exact Goes.parse ⟨trivial, .inl hF, hw, by simpa using htame,
    .inl fun e => hstays _⟩ fun e => h _

private theorem viable_attributes : IsViable options .attributes :=
  .sees_not (by simp) (by simp) (by simp) (.parse (by simp) fun a => .parse (by simp) fun rest =>
    .done trivial) (.done trivial) (by simp)

private theorem viable_type : IsViable options .type :=
  .parse (by simp) fun attributes => .current (steady_of_moves (by simp)) (by simp) fun start =>
    .identifier fun name => .accept (by simp) rfl
      (.parse (by by_cases h : name = "ptr" <;> simp [h, StandsBefore, Rule.Stays])
        fun parameters => .done trivial)
      (.done trivial) (by simp)

private theorem viable_typeParameters (typeName : String) :
    IsViable options (.typeParameters typeName) := by
  have close : ∀ parameters : TypeParameters,
      (closeParameters typeName >>= fun _ => pure parameters).Shuts options
        (Nonterminal.typeParameters typeName).followers
        (Nonterminal.typeParameters typeName).Yields :=
    fun parameters => .closeParameters (by simp) rfl trivial
  by_cases hptr : typeName = "ptr"
  · subst hptr
    exact .identifier fun storageClass => .expect rfl <| .parse (by simp) fun target =>
      (Shuts.furtherParameter (by simp) (close _)
        (.identifier fun accessMode => (close _).toGoes) (by simp)).toGoes
  · simp only [IsViable, ofNonterminal, typeParameters, hptr, sample]
    exact .parse (by simp) fun element => (Shuts.furtherParameter (by simp) (close _)
      (.current (steady_of_moves (by simp)) (by simp) fun t =>
        .ite (fun _ => .parse (by simp) fun count => (close _).toGoes)
          fun _ => .identifier fun accessMode => (close _).toGoes) (by simp)).toGoes

private theorem viable_expression (inAngles : Bool) : IsViable options (.expression inAngles) := by
  cases inAngles
  · exact .parse (by simp) fun first => .parse (by simp) fun chain => .done trivial
  · exact .parse (by simp) fun first => .parse (by simp) fun chain => .done trivial

private theorem viable_suffixed : IsViable options .suffixed :=
  .parse (by simp) fun base => .parse (by simp) fun e => .done trivial

private theorem viable_expressions : IsViable options .expressions :=
  .sees_end (by simp) (by simp) (by simp) (.done trivial) <| .parse (by simp) fun e =>
    .accept (by simp) rfl (.parse (by simp) fun rest => .done trivial) (.done trivial) (by simp)

private theorem viable_arguments : IsViable options .arguments :=
  .expect rfl <| .parse (by simp) fun arguments => .expect rfl <| .done trivial

private theorem viable_construction {made : TypeSpecifier} (hmade : made.bitcastTarget? = none)
    (l : Location) : IsViable options (.construction made l) := by
  refine .parse (by simp [hmade]) fun arguments => ?_
  simp only [hmade]
  exact .done trivial

private theorem viable_block (place : String) : IsViable options (.block place) :=
  .expect rfl <| .parse (by simp) fun statements => .expect rfl <| .done trivial

private theorem viable_storage (kind : VariableKind) : IsViable options (.storage kind) := by
  have close : ∀ storage : Storage,
      (closeAngle (.symbol .greaterThan "after variable storage class") >>= fun _ =>
        pure (some storage)).Shuts options (Nonterminal.storage kind).followers
        (Nonterminal.storage kind).Yields := fun storage => .closeAngle rfl trivial
  exact .ite (fun _ => .accept (by simp) rfl (.identifier fun storageClass =>
    .accept (by simp) rfl (.identifier fun accessMode => (close _).toGoes) (close _).toGoes
      (by simp)) (.done trivial) (by simp)) fun _ => .done trivial

private theorem viable_ascription : IsViable options .ascription :=
  .accept (by simp) rfl (.parse (by simp) fun type => .done trivial) (.done trivial) (by simp)

private theorem viable_initializer (kind : VariableKind) : IsViable options (.initializer kind) :=
  .accept_taken (.inl (by simp)) rfl (.parse (by simp) fun e => .done rfl) (by simp) fun seen =>
    viable_ite.2 ⟨by simp, fun _ => viable_ite.2 ⟨fun _ => viable_unexpected, fun _ => trivial⟩⟩

private theorem viable_variable (kind : VariableKind) (l : Location) :
    IsViable options (.variable kind l) :=
  .parse (by simp) fun storage => .identifier fun name => .parse (by simp) fun type =>
    .parse_yields (by simp) (by rintro (_ | e) <;> simp) fun initializer =>
      viable_ite.2 ⟨fun _ => viable_unexpected, fun _ => trivial⟩

private theorem viable_conditional : IsViable options .conditional :=
  viable_condition options (by simp) fun condition =>
    .parse (by simp) fun body => .parse (by simp) fun rest => .done trivial

private theorem viable_selection : IsViable options .selection :=
  viable_condition options (by simp) fun condition => .expect rfl <|
    .parse (by simp) fun clauses => .expect rfl <| .done trivial

private theorem viable_iteration : IsViable options .iteration :=
  .expect rfl <| .parse (by simp) fun initializer => .expect rfl <|
    .parse (by simp) fun condition => .expect rfl <| .parse (by simp) fun update =>
      .expect rfl <| .parse (by simp) fun body => .done trivial

private theorem viable_repetition : IsViable options .repetition :=
  viable_condition options (by simp) fun condition => .parse (by simp) fun body => .done trivial

private theorem viable_loop : IsViable options .loop :=
  .expect rfl <| .parse (by simp) fun body => .expect rfl <| .done trivial

private theorem viable_furtherNames : IsViable options .furtherNames :=
  .accept (by simp) rfl (.sees_end (by simp) (by simp) (by simp) (.done trivial) <|
    .identifier fun name => .parse (by simp) fun rest => .done trivial) (.done trivial) (by simp)

private theorem viable_bindings (role : BindingRole) : IsViable options (.bindings role) := by
  cases role <;>
  exact .sees_end (by simp) (by simp) (by simp) (.done trivial) <|
    .parse (by simp) fun attributes => .current (steady_of_moves (by simp)) (by simp) fun start =>
      .identifier fun name => .expect rfl <| .parse (by simp) fun type =>
        .accept (by simp) rfl (.parse (by simp) fun rest => .done trivial) (.done trivial) (by simp)

private theorem viable_functionResult : IsViable options .functionResult :=
  .accept (by simp) rfl (.parse (by simp) fun attributes => .parse (by simp) fun type =>
    .done trivial) (.done trivial) (by simp)

private theorem viable_function : IsViable options .function :=
  .current (steady_of_moves (by simp)) (by simp) fun start => .identifier fun name => .expect rfl <|
    .parse (by simp) fun parameters => .expect rfl <| .parse (by simp) fun result =>
      .parse (by simp) fun body => .done trivial

private theorem viable_attribute : IsViable options .attribute := by
  refine .current (steady_of_moves (by simp)) (by simp) fun opening => .expect rfl <|
    .look (steady_of_moves fun t => ?_) (by simp [TokenKind.attributeName?]) (by simp)
      (fun t => ?_) fun t => ?_
  · split <;> simp
  · split <;> simp
  · split
    · exact viable_unexpected
    · rename_i name hname
      have hangles := TokenKind.isAngles_of_attributeName? hname
      exact .skip (by simp [hangles, TokenKind.ne_endOfFile_of_attributeName? hname]) (by simp) <|
        .accept (by simp) rfl (.parse (by simp) fun arguments => .expect rfl <| .done trivial)
          (.done trivial) (by simp)

private theorem viable_operations (inAngles : Bool) : IsViable options (.operations inAngles) := by
  have ends : ∀ kind ∈ (Nonterminal.operations inAngles).followers,
      kind.infix? = none ∨ inAngles ∧ kind.closesAngle := by
    cases inAngles <;> simp [TokenKind.infix?, InfixOperator.ofSymbol?, TokenKind.closesAngle]
  refine .look (steady_of_eq (.done []) (fun kind hkind l => ?_) fun t => ?_)
    (by cases inAngles <;>
      simp [Rule.Takes, TokenKind.infix?, InfixOperator.ofSymbol?, TokenKind.closesAngle])
    (by simp) (fun t => ?_) fun t => ?_
  · rcases ends kind hkind with h | ⟨hangles, hcloses⟩
    · simp [h]
    · simp only [hangles, hcloses]
      split <;> rfl
  · split
    · exact .inl rfl
    · split
      · exact .inl rfl
      · exact .inr trivial
  · split <;> simp
  · split
    · trivial
    · rename_i op hop
      have hend := TokenKind.ne_endOfFile_of_infix? hop
      refine viable_ite.2 ⟨fun _ => trivial, fun _ => ?_⟩
      cases inAngles <;>
      exact .skip (by simp [hend]) (by simp) <| .parse (by simp) fun operand =>
        .parse (by simp) fun rest => .done trivial

private theorem viable_unary : IsViable options .unary := by
  refine .look (steady_of_moves fun t => ?_) (by simp [TokenKind.unary?]) (by simp) (fun t => ?_)
    fun t => ?_
  · split <;> simp
  · split <;> simp
  · split
    · exact .parse [] (by simp) fun e => .done trivial
    · rename_i op hop
      exact .skip (by simp [TokenKind.ne_endOfFile_of_unary? hop]) (by simp) <|
        .parse (by simp) fun operand => .done trivial

private theorem viable_suffixes (base : Expression) : IsViable options (.suffixes base) := by
  refine .look (steady_of_eq (.done base) (by simp) fun t => ?_) (by simp) (by simp) (fun t => ?_)
    fun t => ?_
  · split
    · exact .inr trivial
    · exact .inr trivial
    · split <;> simp
    · exact .inl rfl
  · split
    · simp
    · simp
    · split <;> simp
    · simp
  · split
    · rename_i hkind
      exact .skip_of_kind hkind (by simp) rfl <| .parse (by simp) fun index => .expect rfl <|
        .parse (by simp) fun e => .done trivial
    · rename_i hkind
      exact .skip_of_kind hkind (by simp) rfl <| .identifier fun name =>
        .parse (by simp) fun e => .done trivial
    · split
      · exact .parse [] (by simp) fun arguments => .parse (by simp) fun e => .done trivial
      · exact viable_unexpected
    · trivial

private theorem viable_simpleStatement : IsViable options .simpleStatement := by
  refine .current (steady_of_moves (by simp)) (by simp) fun start => .parse (by simp) fun target =>
    .look (w := [.symbol .equal, .someName]) (fun t kind hkind l => ?_)
      (by simp [TokenKind.assignment?, AssignmentOperator.ofSymbol?]) (by simp) (fun t => ?_)
      fun t => ?_
  · have hnone : kind.assignment? = none ∧ kind.step? = none := by
      simp only [followers, List.mem_cons, List.not_mem_nil, or_false] at hkind
      rcases hkind with rfl | rfl <;> exact ⟨rfl, rfl⟩
    dsimp only
    rw [hnone.1, hnone.2]
    split
    · exact .inr (.inl trivial)
    · exact .inr (.inl trivial)
    · exact .inl rfl
    · exact .inl rfl
  · split <;> simp
  · split
    · rename_i op hop
      exact .skip (by simp [TokenKind.ne_endOfFile_of_assignment? hop]) (by simp) <|
        .parse (by simp) fun value => .done trivial
    · rename_i op _ _ hop
      exact .skip (by simp [TokenKind.ne_endOfFile_of_step? hop]) (by simp) <| .done trivial
    · trivial
    · exact viable_unexpected

private theorem viable_plainStatement : IsViable options .plainStatement := by
  refine .look (steady_of_moves fun t => ?_) (by simp) (by simp) (fun t => ?_) fun t => ?_
  · split
    case h_7 => split <;> simp only [steps_eq, Moves, takesToken, moves_ite, implies_true, and_self,
      or_self]
    all_goals simp
  · split
    case h_7 => split <;> simp only [steps_eq, Rule.Stays, takesToken, stays_ite, implies_true,
      and_self, or_self]
    all_goals simp
  · split
    · rename_i hkind
      refine .skip_of_kind (w := [.symbol .semicolon]) hkind (by simp) rfl ?_
      refine .accept_taken (.inr (by simp)) rfl (.done trivial) (by simp) fun _ => ?_
      exact .parse [.symbol .semicolon] (by simp) fun value => .expect rfl <| .done trivial
    · rename_i hkind
      refine .skip_of_kind (w := [.symbol .semicolon]) hkind (by simp) rfl <|
        .look (steady_of_moves (by simp)) (by simp) (by simp) (by simp) fun t' =>
          viable_ite.2 ⟨fun hif => ?_, fun _ => ?_⟩
      · exact .skip_of_kind hif (by simp) rfl <| viable_condition options (by simp)
          fun condition => .expect rfl <| .done trivial
      · exact .expect [] rfl <| .done trivial
    · rename_i hkind
      exact .skip_of_kind hkind (by simp) rfl <| .expect rfl <| .done trivial
    · rename_i hkind
      exact .skip_of_kind hkind (by simp) rfl <| .expect rfl <| .done trivial
    · rename_i hkind
      exact .skip_of_kind hkind (by simp) rfl <| viable_condition options (by simp)
        fun condition => .expect rfl <| .done trivial
    · rename_i hkind
      exact .skip_of_kind hkind (by simp) rfl <| viable_condition options (by simp)
        fun condition => .expect rfl <| .done trivial
    · split
      · rename_i kind hkind
        have hword := (TokenKind.localVariableKind?_eq_some_iff.1 hkind).1
        exact .skip_of_kind hword (by simp) rfl <| .parse (by simp) fun declared => .expect rfl <|
          .done trivial
      · exact .parse [.symbol .semicolon] (by simp) fun statement => .expect rfl <| .done trivial

private theorem viable_statement : IsViable options .statement := by
  refine .parse ⟨trivial, .inl (by simp), by simp, by simp, .inl fun attributes t _ => ?_⟩
    fun attributes => .look (steady_of_moves fun t => ?_) (by simp) (by simp) (fun t => ?_)
      fun t => ?_
  · simp only [Rule.bind]
    split <;> simp
  · split <;> simp
  · split <;> simp
  · split
    · rename_i hkind
      exact .skip_of_kind hkind (by simp) rfl <| .parse (by simp) fun form => .done trivial
    · rename_i hkind
      exact .skip_of_kind hkind (by simp) rfl <| .parse (by simp) fun form => .done trivial
    · rename_i hkind
      exact .skip_of_kind hkind (by simp) rfl <| .parse (by simp) fun form => .done trivial
    · rename_i hkind
      exact .skip_of_kind hkind (by simp) rfl <| .parse (by simp) fun form => .done trivial
    · rename_i hkind
      exact .skip_of_kind hkind (by simp) rfl <| .parse (by simp) fun form => .done trivial
    · exact .parse [] (by simp) fun statements => .done trivial
    · exact viable_ite.2 ⟨fun _ => .parse [] (by simp) fun s => .done trivial,
        fun _ => viable_unexpected⟩

private theorem viable_statements : IsViable options .statements := by
  refine .look (steady_of_eq (.done []) (by simp) fun t => ?_) (by simp) (by simp) (fun t => ?_)
    fun t => ?_
  · split <;> simp
  · split <;> simp
  · split
    · rename_i hkind
      exact .skip_of_kind hkind (by simp) rfl <| .parse (by simp) fun s => .done trivial
    · trivial
    · trivial
    · exact .parse [] (by simp) fun s => .parse (by simp) fun rest => .done trivial

private theorem viable_alternatives : IsViable options .alternatives := by
  refine .look (steady_of_eq (.done ([], none)) (by simp) fun t => ?_) (by simp) (by simp)
    (fun t => ?_) fun t => viable_ite.2 ⟨fun hkind => ?_, fun _ => trivial⟩
  · split <;> simp
  · split <;> simp
  · refine .skip_of_kind (w := [.symbol .braceLeft, .symbol .braceRight]) hkind (by simp) rfl <|
      .look (steady_of_moves fun t => ?_) (by simp) (by simp) (fun t => ?_) fun t =>
        viable_ite.2 ⟨fun hkind => ?_, fun _ => ?_⟩
    · split <;> simp
    · split <;> simp
    · exact .skip_of_kind hkind (by simp) rfl <| viable_condition options (by simp)
        fun condition => .parse (by simp) fun body => .parse (by simp) fun rest => .done trivial
    · exact .parse [] (by simp) fun body => .done trivial

private theorem viable_clauses (hasDefault : Bool) : IsViable options (.clauses hasDefault) := by
  refine .look (steady_of_eq (.done []) (by simp) fun t => ?_) (by simp) (by simp) (fun t => ?_)
    fun t => ?_
  · split
    · simp
    · simp
    · split <;> simp
    · simp
  · split
    · simp
    · simp
    · split <;> simp
    · simp
  · have body : ∀ place again (f : List Statement → List Clause → List Clause),
        (parse (.block place) >>= fun body => parse (.clauses again) >>= fun rest =>
          pure (f body rest)).Goes options (Nonterminal.clauses hasDefault).followers
          (Nonterminal.clauses hasDefault).Yields [.symbol .braceLeft, .symbol .braceRight] :=
      fun place again f => .parse (by simp) fun body => .parse (by simp) fun rest => .done trivial
    split
    · trivial
    · rename_i hkind
      exact .skip_of_kind hkind (by simp) rfl <| .parse (by simp) fun selectors =>
        .accept (by simp) rfl (body _ _ _) (body _ _ _) (by simp)
    · rename_i hkind
      refine viable_ite.2 ⟨fun _ => viable_unexpected, fun _ => ?_⟩
      exact .skip_of_kind hkind (by simp) rfl <|
        .accept (by simp) rfl (body _ _ _) (body _ _ _) (by simp)
    · exact viable_unexpected

private theorem viable_selectors : IsViable options .selectors := by
  have further : ∀ e : Expression, (current >>= fun t =>
      if t.kind = .symbol .colon ∨ t.kind = .symbol .braceLeft then pure [e]
      else parse .selectors >>= fun rest => pure (e :: rest)).Goes options
        Nonterminal.selectors.followers Nonterminal.selectors.Yields [] := by
    refine fun e => .look (steady_of_eq (.done [e]) (by simp) fun t => ?_) (by simp) (by simp)
      (by simp) fun t => ?_
    · split <;> simp
    · exact viable_ite.2 ⟨fun _ => trivial, fun _ => .parse [] (by simp) fun rest => .done trivial⟩
  exact .parse (by simp) fun e => .accept (by simp) rfl (further e) (.done trivial) (by simp)

private theorem viable_forInitializer : IsViable options .forInitializer := by
  refine .look (steady_of_eq (.done none) (by simp) fun t => ?_) (by simp) (by simp) (fun t => ?_)
    fun t => viable_ite.2 ⟨fun _ => trivial, fun _ => ?_⟩
  · split
    · exact .inl rfl
    · split <;> simp
  · split
    · simp
    · split <;> simp
  · split
    · rename_i kind hkind
      have hword := (TokenKind.localVariableKind?_eq_some_iff.1 hkind).1
      exact .skip_of_kind hword (by simp) rfl <| .parse (by simp) fun declared => .done trivial
    · exact .parse [] (by simp) fun statement => .done trivial

private theorem viable_forCondition : IsViable options .forCondition :=
  .sees_end (by simp) (by simp) (by simp) (.done trivial) <| .parse (by simp) fun condition =>
    .done trivial

private theorem viable_forUpdate : IsViable options .forUpdate :=
  .sees_end (by simp) (by simp) (by simp) (.done trivial) <| .parse (by simp) fun statement =>
    .done trivial

private theorem viable_loopBody : IsViable options .loopBody := by
  refine .look (steady_of_eq (.done ([], none)) (by simp) fun t => ?_) (by simp) (by simp)
    (fun t => ?_) fun t => ?_
  · split <;> simp
  · split <;> simp
  · split
    · rename_i hkind
      exact .skip_of_kind hkind (by simp) rfl <| .parse (by simp) fun body => .done trivial
    · trivial
    · rename_i hkind
      exact .skip_of_kind hkind (by simp) rfl <| .parse (by simp) fun body => .done trivial
    · exact .parse [] (by simp) fun s => .parse (by simp) fun rest => .done trivial

private theorem viable_item : IsViable options .item := by
  refine .look (steady_of_moves fun t => ?_) (by simp) (by simp) (fun t => ?_) fun t => ?_
  · split
    case h_10 => split <;> simp only [steps_eq, Moves, String.reduceAppend, implies_true]
    all_goals simp
  · split
    case h_10 => split <;> simp only [steps_eq, Rule.Stays, String.reduceAppend, implies_true]
    all_goals simp
  · split
    · rename_i hkind
      exact .skip_of_kind hkind (by simp) rfl <| .identifier fun name =>
        .parse (by simp) fun names => .expect rfl <| .done trivial
    · rename_i hkind
      exact .skip_of_kind hkind (by simp) rfl <| .identifier fun name => .expect rfl <|
        .parse (by simp) fun type => .expect rfl <| .done trivial
    · rename_i hkind
      exact .skip_of_kind hkind (by simp) rfl <| .identifier fun name => .expect rfl <|
        .parse (by simp) fun members => .expect rfl <| .done trivial
    · rename_i hkind
      exact .skip_of_kind hkind (by simp) rfl <| .parse (by simp) fun function => .done trivial
    · rename_i hkind
      exact .skip_of_kind hkind (by simp) rfl <| viable_condition options (by simp)
        fun condition => .expect rfl <| .done trivial
    · rename_i hkind
      exact .skip_of_kind hkind (by simp) rfl <| viable_condition options (by simp)
        fun condition => .expect rfl <| .done trivial
    · trivial
    · trivial
    · trivial
    · split
      · rename_i kind hkind
        have hword := TokenKind.variableKind?_eq_some_iff.1 hkind
        exact .skip_of_kind hword (by simp) rfl <| .parse (by simp) fun declared => .expect rfl <|
          .done trivial
      · exact viable_unexpected

private theorem viable_declarations : IsViable options .declarations := by
  refine .look (steady_of_eq (.done []) (by simp) fun t => ?_) (by simp) (by simp) (fun t => ?_)
    fun t => ?_
  · split <;> simp
  · split <;> simp
  · split
    · rename_i hkind
      exact .skip_of_kind hkind (by simp) rfl <| .parse (by simp) fun s => .done trivial
    · trivial
    · exact .parse [] (by simp) fun d => .parse (by simp) fun rest => .done trivial

private theorem viable_declaration : IsViable options .declaration :=
  .parse (by simp) fun attributes => .parse (by simp) fun item => .done trivial

/-- No rule begins by splitting a closing angle off a token. -/
theorem stays (n : Nonterminal) : (ofNonterminal options n).Stays := by
  cases n with
  | «attribute» | attributes | type | typeParameters | constructorType | expression | suffixed
  | expressions | arguments | construction | block | storage | ascription | initializer | «variable»
  | simpleStatement | conditional | selection | selectors | forCondition | forUpdate
  | iteration | repetition | loop | furtherNames | bindings | functionResult | function
  | declaration =>
    simp [singleAttribute, attributes, type, typeParameters, constructorType, expression, suffixed,
      expressions, arguments, construction, block, storage, ascription, initializer,
      variableDeclaration, simpleStatement, conditional, condition, selection, selectors,
      forCondition, forUpdate, iteration, repetition, loop, furtherNames, bindings, functionResult,
      function, declaration]
  | primary =>
    simp only [ofNonterminal, primary, steps_eq, Rule.Stays]
    intro t hclose
    split
    case h_5 name hname => simp [hname, TokenKind.closesAngle] at hclose
    all_goals simp
  | operations | unary | suffixes | plainStatement | statement | statements | alternatives
  | clauses | forInitializer | loopBody | item | declarations =>
    simp only [ofNonterminal, operations, steps_eq, Rule.Stays, unary, suffixes, plainStatement,
      Bool.false_eq_true, statement, takesToken, false_or, statements, alternatives, clauses,
      forInitializer, loopBody, item, declarations]
    all_goals
      intros
      repeat' split
      all_goals first | trivial | simp

/-- The rule of every nonterminal that is read can be completed, but for that of a primary
expression, which may try a type. -/
theorem viable {n : Nonterminal} (hn : n.IsRead) (hprimary : n ≠ .primary) : IsViable options n :=
  match n, hn, hprimary with
  | .attribute, _, _ => viable_attribute options
  | .attributes, _, _ => viable_attributes options
  | .type, _, _ => viable_type options
  | .typeParameters typeName, _, _ => viable_typeParameters options typeName
  | .expression inAngles, _, _ => viable_expression options inAngles
  | .operations inAngles, _, _ => viable_operations options inAngles
  | .unary, _, _ => viable_unary options
  | .suffixed, _, _ => viable_suffixed options
  | .suffixes base, _, _ => viable_suffixes options base
  | .expressions, _, _ => viable_expressions options
  | .arguments, _, _ => viable_arguments options
  | .construction _ l, hmade, _ => viable_construction options hmade l
  | .block place, _, _ => viable_block options place
  | .storage kind, _, _ => viable_storage options kind
  | .ascription, _, _ => viable_ascription options
  | .initializer kind, _, _ => viable_initializer options kind
  | .variable kind l, _, _ => viable_variable options kind l
  | .simpleStatement, _, _ => viable_simpleStatement options
  | .plainStatement, _, _ => viable_plainStatement options
  | .statement, _, _ => viable_statement options
  | .statements, _, _ => viable_statements options
  | .conditional, _, _ => viable_conditional options
  | .alternatives, _, _ => viable_alternatives options
  | .selection, _, _ => viable_selection options
  | .clauses hasDefault, _, _ => viable_clauses options hasDefault
  | .selectors, _, _ => viable_selectors options
  | .forInitializer, _, _ => viable_forInitializer options
  | .forCondition, _, _ => viable_forCondition options
  | .forUpdate, _, _ => viable_forUpdate options
  | .iteration, _, _ => viable_iteration options
  | .repetition, _, _ => viable_repetition options
  | .loop, _, _ => viable_loop options
  | .loopBody, _, _ => viable_loopBody options
  | .furtherNames, _, _ => viable_furtherNames options
  | .bindings role, _, _ => viable_bindings options role
  | .functionResult, _, _ => viable_functionResult options
  | .function, _, _ => viable_function options
  | .item, _, _ => viable_item options
  | .declaration, _, _ => viable_declaration options
  | .declarations, _, _ => viable_declarations options

/-- A name stands for itself. -/
theorem takes_primary : (ofNonterminal options .primary).Takes Nonterminal.primary.followers
    Nonterminal.primary.Yields Nonterminal.primary.sample := by
  simp [primary]

/-- The rule of every nonterminal that is read takes its sample. -/
theorem takes_sample {n : Nonterminal} (hn : n.IsRead) :
    (ofNonterminal options n).Takes n.followers n.Yields n.sample := by
  by_cases hprimary : n = .primary
  · subst hprimary
    exact takes_primary options
  · exact (viable options hn hprimary).takes

end Production

/-! ## Samples are read -/

section

variable {options : ReadOptions} {l : Location}

private theorem Nonterminal.readsSample (n : Nonterminal) (c : Cursor) :
    n.ReadsSample options l c := by
  refine outcome_induction options (fun n c ha => ?_) n c
  rintro hn ts rfl hts
  rw [outcome_eq]
  exact (Production.takes_sample options hn).comesTo hts ha

/-- What takes some tokens is accepted before them. -/
theorem Rule.Takes.exists_accepted {α : Type} {r : Production α} {F w : List TokenKind}
    {Y : α → Prop} {ts : List Token} (hr : r.Takes F Y w)
    (hts : (Cursor.before ts l).current.kind ∈ F) :
    ∃ a, Y a ∧ r.comesTo options (.before (tokensOf w ++ ts) l) = .accepted a (.before ts l) :=
  hr.comesTo hts (along_of_forall (fun n c => n.readsSample c) r _)

end

end Wgsl
