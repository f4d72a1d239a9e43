import Wgsl.Proofs.Precedence.Tree
import Wgsl.Proofs.Speculation.Enclosed

/-!
# Reading a chain

A chain is written with numbers and expressions in parentheses, and operators between them
(`Operand`, `Link`). Whatever the operators, and however many there are, it is read as its first
operand and the operations behind it, and so as the tree that the chain means
(`expression_outcome_of_links`). In angle brackets the same is read, if no operator begins with a
`>` that would close them.

What is in the parentheses of an operand is given as what the parser accepts there, in whatever
surroundings it does. That it accepts the same between these parentheses is the work of the modules
on speculation: an expression is the same before every `)`.
-/

namespace Wgsl

/-! ## What is taken -/

/-- Tokens have been taken from the one cursor to the other, none of them the end of the file. -/
def Cursor.Taken (c d : Cursor) : Prop :=
  ∃ us, c.upcoming = us ++ d.upcoming ∧ ∀ t ∈ us, t.kind ≠ .endOfFile

namespace Cursor.Taken

variable {c d e : Cursor}

/-- Nothing is taken where the cursor stays. -/
theorem refl (c : Cursor) : c.Taken c := ⟨[], rfl, by simp⟩

/-- What is taken in two steps. -/
theorem trans (h : c.Taken d) (h' : d.Taken e) : c.Taken e := by
  obtain ⟨us, hus, hkinds⟩ := h
  obtain ⟨us', hus', hkinds'⟩ := h'
  refine ⟨us ++ us', by rw [hus, hus', List.append_assoc], fun t ht => ?_⟩
  exact (List.mem_append.1 ht).elim (hkinds t) (hkinds' t)

/-- One token is taken that is not the end of the file. -/
theorem advance (h : c.current.kind ≠ .endOfFile) : c.Taken c.advance := by
  obtain ⟨t, rest, hu, hc⟩ := exists_upcoming_eq_cons h
  refine ⟨[t], by simp [upcoming_advance, hu], ?_⟩
  simp only [List.mem_singleton, forall_eq]
  intro hend
  rw [hc, Token.afterAngles_of_none (by simp [Token.afterAngle?, hend])] at h
  exact h hend

/-- No whole token is taken by a split. -/
theorem split (c : Cursor) : c.Taken c.split := ⟨[], by rw [upcoming_split]; rfl, by simp⟩

end Cursor.Taken

/-- What a rule accepts it has taken, if what it reads has been. -/
theorem Rule.Guarded.taken {α : Type} {options : ReadOptions} {depth : Nat} {n : Nonterminal}
    {r : Production α} {s : Sight} {Q : α → Sight → Prop} {c d : Cursor} {a : α}
    (hparse : ∀ m c b e, (moduleGrammar options).parse depth m c = some (.accepted b e) → c.Taken e)
    (hr : r.Guarded n s Q) (hs : s.Matches c)
    (ho : r.run ((moduleGrammar options).parse depth) c = some (.accepted a d)) : c.Taken d := by
  induction r generalizing s c with
  | done a =>
    cases ho
    exact .refl _
  | fail e => cases ho
  | look k ih => exact ih _ (hr _ hs.admits) rfl ho
  | lookBehind k ih => exact ih _ (hr.2 _) hs ho
  | advance k ih =>
    obtain ⟨t, rfl, ⟨hend, -⟩, hk⟩ := hr
    obtain rfl : c.current = t := hs
    exact (Cursor.Taken.advance hend).trans (ih hk trivial ho)
  | split k ih =>
    obtain ⟨t, rfl, -, hk⟩ := hr
    exact (Cursor.Taken.split c).trans (ih hk trivial ho)
  | read m k ih =>
    rw [run] at ho
    cases hp : (moduleGrammar options).parse depth m c with
    | none => simp [hp] at ho
    | some o =>
      rw [hp] at ho
      cases o with
      | accepted b e => exact (hparse m c b e hp).trans (ih b (hr.2 b) trivial ho)
      | rejected err e => cases ho
  | attempt m k ih =>
    obtain rfl : m = .constructorType := hr.2.1
    rw [run] at ho
    cases hp : (moduleGrammar options).parse depth .constructorType c with
    | none => simp [hp] at ho
    | some o =>
      rw [hp] at ho
      cases o with
      | accepted b e =>
        exact (hparse _ c b e hp).trans (ih _ (hr.of_accepted hs hp).1 trivial ho)
      | rejected err e => exact ih _ hr.2.2.2 hs ho

/-- What a nonterminal accepts it takes from the tokens before the end of the file. -/
theorem Nonterminal.outcome_taken {options : ReadOptions} {n : Nonterminal} {c d : Cursor}
    {a : n.Result} (h : n.outcome options c = .accepted a d) : c.Taken d := by
  have hparse : ∀ depth m c b e,
      (moduleGrammar options).parse depth m c = some (.accepted b e) → c.Taken e := by
    intro depth
    induction depth with
    | zero => exact fun _ _ _ _ h => by simp [Grammar.parse] at h
    | succ depth ih => exact fun m _ _ _ h => (Production.disciplined options m).taken ih trivial h
  exact hparse _ n c a d ((parse_eq_outcome options n c).trans (congrArg some h))

/-! ## Operands -/

/-- Somewhere before a `)`, the tokens are read as the expression. -/
def ReadInside (us : List Token) (e : Expression) : Prop :=
  ∃ (closing : Token) (ts : List Token) (l : Location), closing.kind = .symbol .parenRight ∧
    (Nonterminal.expression false).outcome {} (.before (us ++ closing :: ts) l) =
      .accepted e (.before (closing :: ts) l)

/-- An operand as it is written: a number, or an expression in parentheses. -/
inductive Operand
  | number (spelling : String) (location : Location)
  | parenthesized (opening closing : Location) (inner : List Token) (value : Expression)
      (reads : ReadInside inner value)

namespace Operand

/-- The tokens that write the operand. -/
def tokens : Operand → List Token
  | number spelling l => [⟨.number spelling, l⟩]
  | parenthesized l l' inner _ _ =>
    ⟨.symbol .parenLeft, l⟩ :: (inner ++ [⟨.symbol .parenRight, l'⟩])

/-- What an operand means; parentheses mean nothing by themselves. -/
def value : Operand → Expression
  | number spelling l => .literal spelling (.ofSpelling spelling) l
  | parenthesized _ _ _ value _ => value

end Operand

section Operand

variable {us ts : List Token} {e : Expression} {l : Location}

/-- What is read before one `)` is read before every other, wherever the file ends. -/
theorem ReadInside.outcome (h : ReadInside us e) {closing : Token}
    (hclosing : closing.kind = .symbol .parenRight) (ts : List Token) (l : Location) :
    (Nonterminal.expression false).outcome {} (.before (us ++ closing :: ts) l) =
      .accepted e (.before (closing :: ts) l) := by
  obtain ⟨closing', ts', l', hclosing', ho⟩ := h
  -- with a `;` behind the parenthesis, the end of the file can be moved
  let semicolon : Token := ⟨.symbol .semicolon, l⟩
  have hinner := expression_outcome_of_enclosed (List.cons_ne_nil _ _) hclosing' ho [semicolon]
  have hopen : (Cursor.before (us ++ closing' :: [semicolon]) l').Open :=
    ⟨semicolon, by simp [Cursor.before], rfl⟩
  have hmoved := (Nonterminal.parse_append_of_open [] l rfl hopen
    ((Nonterminal.parse_eq_outcome {} _ _).trans (congrArg some hinner))).1
  rw [Cursor.before_append, Outcome.append, Cursor.before_append, List.append_nil,
    List.append_nil] at hmoved
  exact expression_outcome_of_enclosed (List.cons_ne_nil _ _) hclosing
    (Nonterminal.outcome_of_parse hmoved) ts

/-- An operand does not have the end of the file in it. -/
theorem Operand.ne_endOfFile (u : Operand) : ∀ t ∈ u.tokens, t.kind ≠ .endOfFile := by
  cases u with
  | number spelling l => simp [tokens]
  | parenthesized opening closing inner value reads =>
    obtain ⟨us, hus, hkinds⟩ := Nonterminal.outcome_taken
      (@ReadInside.outcome _ _ reads ⟨.symbol .parenRight, closing⟩ rfl [] closing)
    obtain rfl := List.append_cancel_right hus
    simpa [tokens, or_imp, forall_and] using hkinds

/-- An operand is read where no suffix stands behind it. -/
theorem Operand.unary_outcome (u : Operand)
    (hsuffix : (Cursor.before ts l).current.kind.isSuffix = false) :
    Nonterminal.unary.outcome {} (.before (u.tokens ++ ts) l) =
      .accepted u.value (.before ts l) := by
  cases u with
  | number spelling l' =>
    refine Nonterminal.unary_outcome_of_primary rfl ?_ hsuffix
    rw [Nonterminal.outcome_eq]
    simp [tokens, value, Production.primary]
  | parenthesized opening closing inner value reads =>
    rw [tokens, List.cons_append, List.append_assoc, List.singleton_append]
    have hinner := @ReadInside.outcome _ _ reads ⟨.symbol .parenRight, closing⟩ rfl [] l
    exact unary_outcome_of_enclosed (List.cons_ne_nil _ _) rfl hinner rfl hsuffix

end Operand

/-! ## Chains -/

/-- An operator as it is written, with the operand to its right. -/
structure Link where
  op : InfixOperator
  location : Location
  operand : Operand

namespace Link

/-- The tokens that write the link. -/
def tokens (k : Link) : List Token := ⟨.symbol k.op.symbol, k.location⟩ :: k.operand.tokens

/-- What the link means in a chain. -/
def operation (k : Link) : Operation := ⟨k.op, k.location, k.operand.value⟩

end Link

/-- A chain as it is written, first operand and links. -/
def chainTokens (first : Operand) (links : List Link) : List Token :=
  first.tokens ++ links.flatMap Link.tokens

section Chain

variable {inAngles : Bool} {links : List Link} {ts : List Token} {l : Location}

/-- No operator between operands goes on with the left one. -/
theorem InfixOperator.isSuffix_symbol (op : InfixOperator) :
    (TokenKind.symbol op.symbol).isSuffix = false := by
  rcases op with op | op <;> cases op <;> rfl

/-- Behind an operand stands an operator or what is behind the chain, and neither is a suffix. -/
theorem current_isSuffix_of_links (hsuffix : (Cursor.before ts l).current.kind.isSuffix = false) :
    (Cursor.before (links.flatMap Link.tokens ++ ts) l).current.kind.isSuffix = false := by
  cases links with
  | nil => exact hsuffix
  | cons k links => exact k.op.isSuffix_symbol

/-- Links are read as the operations they mean, up to what ends an expression. -/
theorem operations_outcome_of_links
    (hcloses : ∀ k ∈ links, ¬(inAngles ∧ (TokenKind.symbol k.op.symbol).closesAngle))
    (hends : (Cursor.before ts l).current.kind.Ends inAngles)
    (hsuffix : (Cursor.before ts l).current.kind.isSuffix = false) :
    (Nonterminal.operations inAngles).outcome {} (.before (links.flatMap Link.tokens ++ ts) l) =
      .accepted (links.map Link.operation) (.before ts l) := by
  induction links with
  | nil => exact Nonterminal.operations_outcome_of_ends hends
  | cons k links ih =>
    obtain ⟨hk, hlinks⟩ := List.forall_mem_cons.1 hcloses
    let mark : Token := ⟨.symbol k.op.symbol, k.location⟩
    let behind := k.operand.tokens ++ (links.flatMap Link.tokens ++ ts)
    have hcursor : Cursor.before ((k :: links).flatMap Link.tokens ++ ts) l =
        .before (mark :: behind) l := by
      simp [Link.tokens, mark, behind]
    have hop : (Cursor.before (mark :: behind) l).current.kind.infix? = some k.op :=
      TokenKind.infix?_eq_some_iff.2 rfl
    rw [hcursor, Nonterminal.operations_outcome_of_operator hop hk, Cursor.advance_before,
      k.operand.unary_outcome (current_isSuffix_of_links hsuffix), Outcome.accepted_bind,
      ih hlinks, Outcome.accepted_bind]
    rfl

/-- A chain is read as the tree that it means. -/
theorem expression_outcome_of_links (first : Operand)
    (hcloses : ∀ k ∈ links, ¬(inAngles ∧ (TokenKind.symbol k.op.symbol).closesAngle))
    (hends : (Cursor.before ts l).current.kind.Ends inAngles)
    (hsuffix : (Cursor.before ts l).current.kind.isSuffix = false) :
    (Nonterminal.expression inAngles).outcome {} (.before (chainTokens first links ++ ts) l) =
      .accepted (.ofChain first.value (links.map Link.operation)) (.before ts l) := by
  rw [Nonterminal.expression_outcome_eq, chainTokens, List.append_assoc,
    first.unary_outcome (current_isSuffix_of_links hsuffix), Outcome.accepted_bind,
    operations_outcome_of_links hcloses hends hsuffix, Outcome.accepted_bind]

/-- A chain is an operand of another in parentheses. -/
theorem readInside_chainTokens (first : Operand) (links : List Link) :
    ReadInside (chainTokens first links) (.ofChain first.value (links.map Link.operation)) :=
  ⟨⟨.symbol .parenRight, .start⟩, [], .start, rfl,
    expression_outcome_of_links first (by simp) (.inl rfl) rfl⟩

/-- A chain does not have the end of the file in it. -/
theorem ne_endOfFile_of_mem_chainTokens {first : Operand} :
    ∀ t ∈ chainTokens first links, t.kind ≠ .endOfFile := by
  intro t ht
  rcases List.mem_append.1 ht with ht | ht
  · exact first.ne_endOfFile t ht
  · obtain ⟨k, -, ht⟩ := List.mem_flatMap.1 ht
    rcases List.mem_cons.1 ht with rfl | ht
    · exact nofun
    · exact k.operand.ne_endOfFile t ht

end Chain

/-! ## Chains in a module -/

section Module

variable {first : Operand} {links : List Link} {tree : Expression} {l : Location}

/-- The tokens up to the end of the file are those before a token for it. -/
theorem Cursor.ofTokens_eq_before {front behind : List Token}
    (hfront : ∀ t ∈ front, t.kind ≠ .endOfFile)
    (hbehind : ∀ t ∈ behind.head?, t.kind = .endOfFile) :
    ofTokens (front ++ behind) = before front (finishOf .start (front ++ behind)) := by
  have hnone : behind.takeWhile (·.kind ≠ .endOfFile) = [] := by
    cases behind with
    | nil => rfl
    | cons t rest => simp [hbehind t rfl]
  have hall : (front ++ behind).takeWhile (·.kind ≠ .endOfFile) = front := by
    rw [List.takeWhile_append_of_pos (by simpa using hfront), hnone, List.append_nil]
  rw [ofTokens, before]
  simp only [hall]

/-- A constant is declared with the value that is read behind its name. -/
theorem Nonterminal.declaration_outcome_of_const {name : String}
    {keyword mark equal semicolon : Token} {us ts : List Token}
    (hkeyword : keyword.kind = .keyword .const) (hmark : mark.kind = .identifier name)
    (hequal : equal.kind = .symbol .equal) (hsemicolon : semicolon.kind = .symbol .semicolon)
    (ho : (Nonterminal.expression false).outcome {} (.before (us ++ semicolon :: ts) l) =
      .accepted tree (.before (semicolon :: ts) l)) :
    Nonterminal.declaration.outcome {}
        (.before (keyword :: mark :: equal :: (us ++ semicolon :: ts)) l) =
      .accepted ⟨[], .variable ⟨.const, none, name, none, some tree, keyword.location⟩⟩
        (.before ts l) := by
  have hattributes : Nonterminal.attributes.outcome {}
      (.before (keyword :: mark :: equal :: (us ++ semicolon :: ts)) l) =
        .accepted [] (.before (keyword :: mark :: equal :: (us ++ semicolon :: ts)) l) := by
    rw [Nonterminal.outcome_eq]
    simp [Production.attributes, hkeyword]
  have hstorage : (Nonterminal.storage .const).outcome {}
      (.before (mark :: equal :: (us ++ semicolon :: ts)) l) =
        .accepted none (.before (mark :: equal :: (us ++ semicolon :: ts)) l) := by
    rw [Nonterminal.outcome_eq]
    simp [Production.storage]
  have hascription : Nonterminal.ascription.outcome {}
      (.before (equal :: (us ++ semicolon :: ts)) l) =
        .accepted none (.before (equal :: (us ++ semicolon :: ts)) l) := by
    rw [Nonterminal.outcome_eq]
    simp [Production.ascription, hequal]
  have hinitializer : (Nonterminal.initializer .const).outcome {}
      (.before (equal :: (us ++ semicolon :: ts)) l) =
        .accepted (some tree) (.before (semicolon :: ts) l) := by
    rw [Nonterminal.outcome_eq]
    simp [Production.initializer, hequal, ho]
  have hvariable : (Nonterminal.variable .const keyword.location).outcome {}
      (.before (mark :: equal :: (us ++ semicolon :: ts)) l) =
        .accepted ⟨.const, none, name, none, some tree, keyword.location⟩
          (.before (semicolon :: ts) l) := by
    rw [Nonterminal.outcome_eq]
    simp [Production.variableDeclaration, hstorage, hmark, hascription, hinitializer]
  have hitem : Nonterminal.item.outcome {}
      (.before (keyword :: mark :: equal :: (us ++ semicolon :: ts)) l) =
        .accepted (.variable ⟨.const, none, name, none, some tree, keyword.location⟩)
          (.before ts l) := by
    rw [Nonterminal.outcome_eq]
    simp [Production.item, hkeyword, TokenKind.variableKind?, VariableKind.ofKeyword?, hvariable,
      hsemicolon]
  rw [Nonterminal.outcome_eq]
  simp [Production.declaration, hattributes, hitem]

/-- A type by name alone, where no parameters follow. -/
theorem Nonterminal.type_outcome_of_name {element : String} {name : Token} {ts : List Token}
    (hname : name.kind = .identifier element)
    (hless : (Cursor.before ts l).current.kind ≠ .symbol .lessThan) :
    Nonterminal.type.outcome {} (.before (name :: ts) l) =
      .accepted ⟨[], element, .none, name.location⟩ (.before ts l) := by
  have hcurrent : (Cursor.before (name :: ts) l).current.kind = .identifier element := hname
  rw [type_outcome_eq, attributes_outcome_of_name {} hcurrent, Outcome.accepted_bind,
    namedOutcome_of_not_less hcurrent hless]
  rfl

/-- An array type has the count that is read behind its element type. -/
theorem Nonterminal.type_outcome_of_array {element : String}
    {array less name comma greater : Token} {us ts : List Token}
    (harray : array.kind = .identifier "array") (hless : less.kind = .symbol .lessThan)
    (hname : name.kind = .identifier element) (hcomma : comma.kind = .symbol .comma)
    (hgreater : greater.kind = .symbol .greaterThan)
    (hus : (Cursor.before (us ++ greater :: ts) l).current.kind.closesAngle = false)
    (ho : (Nonterminal.expression true).outcome {} (.before (us ++ greater :: ts) l) =
      .accepted tree (.before (greater :: ts) l)) :
    Nonterminal.type.outcome {}
        (.before (array :: less :: name :: comma :: (us ++ greater :: ts)) l) =
      .accepted ⟨[], "array", .counted ⟨[], element, .none, name.location⟩ tree, array.location⟩
        (.before ts l) := by
  have hcurrent : (Cursor.before (array :: less :: name :: comma :: (us ++ greater :: ts))
      l).current.kind = .identifier "array" := harray
  have helement : Nonterminal.type.outcome {}
      (.before (name :: comma :: (us ++ greater :: ts)) l) =
        .accepted ⟨[], element, .none, name.location⟩
          (.before (comma :: (us ++ greater :: ts)) l) :=
    type_outcome_of_name hname (by simp [hcomma])
  have hparameters : (Nonterminal.typeParameters "array").outcome {}
      (.before (name :: comma :: (us ++ greater :: ts)) l) =
        .accepted (.counted ⟨[], element, .none, name.location⟩ tree) (.before ts l) := by
    rw [outcome_eq]
    simp [Production.typeParameters, Production.closeParameters, helement, hcomma, hus, ho,
      hgreater, namesArray]
  rw [type_outcome_eq, attributes_outcome_of_name {} hcurrent, Outcome.accepted_bind,
    namedOutcome_of_less hcurrent hless]
  simp [hparameters]

end Module

/-- The operators that a `>` does not begin. -/
theorem InfixOperator.closesAngle_symbol {op : InfixOperator} (hgreater : op ≠ .binary .greater)
    (hequal : op ≠ .binary .greaterEqual) (hshift : op ≠ .binary .shiftRight) :
    (TokenKind.symbol op.symbol).closesAngle = false := by
  rcases op with op | op <;> cases op <;> simp_all [symbol, TokenKind.closesAngle]

/-- A chain does not begin with a closing angle. -/
theorem chainTokens_current_closesAngle (first : Operand) (links : List Link) (ts : List Token)
    (l : Location) :
    (Cursor.before (chainTokens first links ++ ts) l).current.kind.closesAngle = false := by
  cases first <;> rfl

/-- A chain of any length means one tree: that of cutting it, again and again, at the last of its
loosest operators. A constant that is declared with the chain has that tree as its value. And where
no operator begins with a `>`, an array type that is counted by the chain has it as its count. -/
theorem Module.ofTokens_chain (first : Operand) (links : List Link) : ∃ tree,
    (∀ t, ChainTree first.value (links.map Link.operation) t ↔ t = tree) ∧
    (∀ (name : String) (keyword mark equal semicolon : Location) (behind : List Token),
      (∀ t ∈ behind.head?, t.kind = .endOfFile) →
      Module.ofTokens (⟨.keyword .const, keyword⟩ :: ⟨.identifier name, mark⟩ ::
          ⟨.symbol .equal, equal⟩ ::
            (chainTokens first links ++ ⟨.symbol .semicolon, semicolon⟩ :: behind)) =
        .ok [⟨[], .variable ⟨.const, none, name, none, some tree, keyword⟩⟩]) ∧
    ((∀ k ∈ links, k.op ≠ .binary .greater ∧ k.op ≠ .binary .greaterEqual ∧
        k.op ≠ .binary .shiftRight) →
      ∀ (array less element comma greater finish : Location) (behind : List Token),
        Nonterminal.type.outcome {} (.before (⟨.identifier "array", array⟩ ::
            ⟨.symbol .lessThan, less⟩ :: ⟨.identifier "f32", element⟩ ::
              ⟨.symbol .comma, comma⟩ ::
                (chainTokens first links ++ ⟨.symbol .greaterThan, greater⟩ :: behind)) finish) =
          .accepted ⟨[], "array", .counted ⟨[], "f32", .none, element⟩ tree, array⟩
            (.before behind finish)) := by
  refine ⟨.ofChain first.value (links.map Link.operation), fun t => chainTree_iff, ?_, ?_⟩
  · intro name keyword mark equal semicolon behind hbehind
    let front : List Token := ⟨.keyword .const, keyword⟩ :: ⟨.identifier name, mark⟩ ::
      ⟨.symbol .equal, equal⟩ :: (chainTokens first links ++ [⟨.symbol .semicolon, semicolon⟩])
    have hfront : ∀ t ∈ front, t.kind ≠ .endOfFile := by
      simpa [front, or_imp, forall_and] using ne_endOfFile_of_mem_chainTokens
    have hsplit : ⟨.keyword .const, keyword⟩ :: ⟨.identifier name, mark⟩ ::
        ⟨.symbol .equal, equal⟩ :: (chainTokens first links ++
          ⟨.symbol .semicolon, semicolon⟩ :: behind) = front ++ behind := by
      simp [front]
    rw [hsplit, ofTokens_eq_ok_iff, Cursor.ofTokens_eq_before hfront hbehind]
    generalize Cursor.finishOf .start (front ++ behind) = finish
    have hvalue := @expression_outcome_of_links false links [⟨.symbol .semicolon, semicolon⟩] finish
      first (by simp) (.inl rfl) rfl
    have hdeclaration := @Nonterminal.declaration_outcome_of_const _ _ name
      ⟨.keyword .const, keyword⟩ ⟨.identifier name, mark⟩ ⟨.symbol .equal, equal⟩ _ _ _ rfl rfl rfl
      rfl hvalue
    refine ⟨.before [] finish, ?_⟩
    rw [Nonterminal.declarations_of_declaration (by simp [front]) (by simp [front]),
      hdeclaration, Outcome.accepted_bind,
      Nonterminal.declarations_of_endOfFile rfl, Outcome.accepted_bind]
  · intro hlinks array less element comma greater finish behind
    have hcloses : ∀ k ∈ links, ¬(true ∧ (TokenKind.symbol k.op.symbol).closesAngle) :=
      fun k hk => by
        obtain ⟨hgreater, hequal, hshift⟩ := hlinks k hk
        simp [InfixOperator.closesAngle_symbol hgreater hequal hshift]
    exact Nonterminal.type_outcome_of_array rfl rfl rfl rfl rfl
      (chainTokens_current_closesAngle first links _ finish)
      (expression_outcome_of_links first hcloses (.inr ⟨rfl, rfl⟩) rfl)

/-- In `const x = 1 - (2 + 3) - 4 * 5;` the second `-` is the root. -/
theorem Module.ofTokens_chain_of_differences :
    Module.ofTokens ([.keyword .const, .identifier "x", .symbol .equal, .number "1",
        .symbol .minus, .symbol .parenLeft, .number "2", .symbol .plus, .number "3",
        .symbol .parenRight, .symbol .minus, .number "4", .symbol .star, .number "5",
        .symbol .semicolon].map fun k => ⟨k, .start⟩) =
      .ok [⟨[], .variable ⟨.const, none, "x", none, some
        (.binary .subtract
          (.binary .subtract (.literal "1" .abstractInt .start)
            (.binary .add (.literal "2" .abstractInt .start) (.literal "3" .abstractInt .start)
              .start) .start)
          (.binary .multiply (.literal "4" .abstractInt .start) (.literal "5" .abstractInt .start)
            .start) .start), .start⟩⟩] := by
  have hsum :=
    readInside_chainTokens (.number "2" .start) [⟨.binary .add, .start, .number "3" .start⟩]
  obtain ⟨tree, htree, hread, -⟩ := Module.ofTokens_chain (.number "1" .start)
    [⟨.binary .subtract, .start, .parenthesized .start .start _ _ hsum⟩,
      ⟨.binary .subtract, .start, .number "4" .start⟩,
      ⟨.binary .multiply, .start, .number "5" .start⟩]
  obtain rfl := (htree _).1 (chainTree_iff.2 rfl)
  exact hread "x" .start .start .start .start [] (by simp)

end Wgsl
