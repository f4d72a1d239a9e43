import Wgsl.Proofs.Spelling.ReadBack.Expression

/-!
# What is spelled is read back: variables and statements

Statements end with their own last token, so what stands behind them does not matter, but for one
word: an `else` behind an `if` would belong to it.
-/

namespace Wgsl

open Spelling Nonterminal

variable {c d c' : Cursor}

/-! ## Conditions and variables -/

/-- A tree that can be written in full has no parentheses to lose. -/
theorem Expression.WellShaped.withoutParentheses {e : Expression} (he : e.WellShaped) :
    e.withoutParentheses = e := by
  cases e with
  | grouped => exact he.elim
  | _ => rfl

/-- An expression that can be written is read up to where it ends. -/
theorem expression_outcome_of_wellShaped {e : Expression} (he : e.WellShaped)
    (h : c.Reads (e.spellings .parenthesized) c') (hc' : c'.current.kind.EndsExpression false) :
    (expression false).outcome {} c = .accepted e c' :=
  (expression_readBack e he).outcome h hc'

/-- A condition is read back from its spellings, with parentheses or without. -/
theorem follow_condition {e : Expression} (he : e.WellShaped)
    (h : c.Reads (conditionSpellings .parenthesized e) c')
    (hc' : c'.current.kind.EndsExpression false) :
    Production.condition.follow (fun n c => n.outcome {} c) c = .accepted e c' := by
  have houtcome : (expression false).outcome {} c = .accepted e c' := by
    rcases Cursor.reads_add.1 h with hbare | hparenthesized
    · exact expression_outcome_of_wellShaped he hbare hc'
    · exact (expression_readBack e he).parenthesized_outcome hparenthesized hc'
  simp [Production.condition, houtcome, he.withoutParentheses]

/-- A storage is read, if there is one. -/
theorem storage_outcome {kind : VariableKind} {s : Option Storage} (hs : s.isSome → kind = .var)
    (h : c.Reads (storageSpellings s) c') (hc' : c'.current.kind ≠ .symbol .lessThan) :
    (storage kind).outcome {} c = .accepted s c' := by
  rw [outcome_eq]
  cases s with
  | none =>
    obtain rfl : c = c' := Cursor.reads_one.1 h
    by_cases hkind : kind = .var
    · simp [Production.ofNonterminal, Production.storage, hkind, hc']
    · simp [Production.ofNonterminal, Production.storage, hkind]
  | some s =>
    obtain ⟨storageClass, accessMode⟩ := s
    simp only [storageSpellings, Cursor.reads_mul, Cursor.reads_mark, Cursor.reads_named] at h
    obtain ⟨d, ⟨_, ⟨_, ⟨hopen, rfl⟩, hclass, rfl⟩, haccess⟩, hangle⟩ := h
    have hclose := fun expected =>
      @follow_closeAngle_of_reads _ _ (fun n c => n.outcome {} c) expected hangle
    cases accessMode with
    | none =>
      obtain rfl := Cursor.reads_one.1 haccess
      have hcomma : c.advance.advance.current.kind ≠ .symbol .comma := by
        intro hcomma
        rcases Cursor.reads_angle.1 hangle with ⟨hangle, -⟩ | ⟨hsplit, -⟩
        · simp [hcomma] at hangle
        · simp [hcomma, Token.afterAngle?, Symbol.afterAngle?] at hsplit
      simp [Production.ofNonterminal, Production.storage, hs rfl, hopen, hcomma, hclose,
        hclass, -Rule.follow_closeAngle]
    | some mode =>
      simp only [furtherNameSpellings, Cursor.reads_mul, Cursor.reads_mark, Cursor.reads_named]
        at haccess
      obtain ⟨_, ⟨hcomma, rfl⟩, hmode, rfl⟩ := haccess
      simp [Production.ofNonterminal, Production.storage, hs rfl, hopen, hcomma, hclose,
        hclass, hmode,
        -Rule.follow_closeAngle]

/-- The type of a variable is read, if there is one. -/
theorem ascription_outcome {t : Option TypeSpecifier} (ht : ∀ t' ∈ t, t'.WellShaped)
    (h : c.Reads (ascriptionSpellings .parenthesized t) c')
    (hcolon : c'.current.kind ≠ .symbol .colon) (hangle : c'.current.kind ≠ .symbol .lessThan) :
    ascription.outcome {} c = .accepted t c' := by
  rw [outcome_eq]
  cases t with
  | none =>
    obtain rfl : c = c' := Cursor.reads_one.1 h
    simp [Production.ofNonterminal, Production.ascription, hcolon]
  | some t =>
    simp only [ascriptionSpellings, Cursor.reads_mul, Cursor.reads_mark] at h
    obtain ⟨_, ⟨hcolon, rfl⟩, h⟩ := h
    have htype := (type_readBack t (ht t rfl)).1 _ _ h hangle
    simp [Production.ofNonterminal, Production.ascription, hcolon, htype]

/-- The value of a variable is read, if there is one. -/
theorem initializer_outcome {kind : VariableKind} {e : Option Expression}
    (hkind : kind = .let ∨ kind = .const → e.isSome) (he : ∀ e' ∈ e, e'.WellShaped)
    (h : c.Reads (initializerSpellings .parenthesized e) c')
    (hc' : c'.current.kind = .symbol .semicolon) :
    (initializer kind).outcome {} c = .accepted e c' := by
  rw [outcome_eq]
  cases e with
  | none =>
    obtain rfl : c = c' := Cursor.reads_one.1 h
    have hneither : ¬(kind = .let ∨ kind = .const) := by simpa using hkind
    simp [Production.ofNonterminal, Production.initializer, hc', hneither]
  | some e =>
    simp only [initializerSpellings, Cursor.reads_mul, Cursor.reads_mark] at h
    obtain ⟨_, ⟨hequal, rfl⟩, h⟩ := h
    have hvalue := expression_outcome_of_wellShaped (he e rfl) h (by rw [hc']; decide)
    simp [Production.ofNonterminal, Production.initializer, hequal, hvalue]

/-- A variable before a semicolon is read back, behind its introducing word. -/
theorem variable_outcome {v : Variable} (hv : v.WellShaped)
    (h : c.Reads (v.spellings .parenthesized) c') (hc' : c'.current.kind = .symbol .semicolon) :
    c.current = ⟨.keyword v.kind.keyword, v.location⟩ ∧
      (Nonterminal.variable v.kind v.location).outcome {} c.advance = .accepted v c' := by
  simp only [Variable.spellings, Cursor.reads_mul, Cursor.reads_keyword, Cursor.reads_named] at h
  obtain ⟨g, ⟨_, ⟨f, ⟨_, ⟨hword, rfl⟩, hstorage⟩, hname, rfl⟩, htype⟩, hvalue⟩ := h
  have hg : g.current.kind = .symbol .equal ∨ g.current.kind = .symbol .semicolon := by
    cases hv' : v.initializer with
    | none =>
      rw [hv'] at hvalue
      exact .inr (Cursor.reads_one.1 hvalue ▸ hc')
    | some e =>
      rw [hv'] at hvalue
      simp only [initializerSpellings, Cursor.reads_mul, Cursor.reads_mark] at hvalue
      obtain ⟨_, ⟨hequal, -⟩, -⟩ := hvalue
      exact .inl hequal
  have hstorage := storage_outcome hv.storage hstorage (by simp [hname])
  have htype := ascription_outcome hv.ofType htype (by rcases hg with hg | hg <;> simp [hg])
    (by rcases hg with hg | hg <;> simp [hg])
  have hvalue := initializer_outcome hv.initializer hv.ofInitializer hvalue hc'
  have hneither : ¬(v.type = none ∧ v.initializer = none) := by
    rintro ⟨htype, hvalue⟩
    simpa [htype, hvalue] using hv.typeOrInitializer
  refine ⟨hword, ?_⟩
  rw [outcome_eq]
  simp [Production.ofNonterminal, Production.variableDeclaration, hstorage,
    hname, htype, hvalue, hneither]

/-! ## Statements -/

/-- A statement that may stand in the head of a `for` is read back, before what ends it. -/
theorem simpleStatement_outcome {s : SimpleStatement} (hs : s.WellShaped)
    (h : c.Reads (s.spellings .parenthesized) c')
    (hc' : c'.current.kind = .symbol .semicolon ∨ c'.current.kind = .symbol .parenRight) :
    simpleStatement.outcome {} c = .accepted s c' := by
  have hends : c'.current.kind.EndsExpression false := by
    rcases hc' with hc' | hc' <;> (rw [hc']; decide)
  rw [outcome_eq]
  cases s with
  | assign target op value l =>
    obtain ⟨h, hl⟩ := Cursor.current_of_reads_startingAt h
    simp only [OperandStyle.operand, Cursor.reads_mul, Cursor.reads_mark] at h
    obtain ⟨_, ⟨d, htarget, hop, rfl⟩, hvalue⟩ := h
    have hassign := TokenKind.assignment?_eq_some_iff.2 hop
    have hoperand := (expression_readBack target hs.1).unary_parenthesized htarget (by
      rw [hop]
      cases op <;> decide)
    have hvalue := expression_outcome_of_wellShaped hs.2 hvalue hends
    simp [Production.ofNonterminal, Production.simpleStatement, hoperand, hassign, hvalue, hl]
  | step target op l =>
    obtain ⟨h, hl⟩ := Cursor.current_of_reads_startingAt h
    simp only [OperandStyle.operand, Cursor.reads_mul, Cursor.reads_mark] at h
    obtain ⟨d, htarget, hop, rfl⟩ := h
    have hassign : d.current.kind.assignment? = none := by
      rw [hop]
      cases op <;> rfl
    have hstep := TokenKind.step?_eq_some_iff.2 hop
    have hoperand := (expression_readBack target hs).unary_parenthesized htarget (by
      rw [hop]
      cases op <;> decide)
    simp [Production.ofNonterminal, Production.simpleStatement, hoperand, hassign, hstep, hl]
  | call callee arguments l =>
    have hcall := unary_call hs.1 (expressions_readBack arguments hs.2) h hends.1
    have hl : c.current.location = l := by
      obtain ⟨_, hword, -⟩ := Cursor.reads_mul.1 h
      rw [(Cursor.reads_word.1 hword).1]
    have hassign : c'.current.kind.assignment? = none := by
      rcases hc' with hc' | hc' <;> (rw [hc']; rfl)
    have hstep : c'.current.kind.step? = none := by
      rcases hc' with hc' | hc' <;> (rw [hc']; rfl)
    simp [Production.ofNonterminal, Production.simpleStatement, hcall, hassign, hstep, hl]

/-- From every spelling the statement is read, where no `else` stands behind it. -/
def Statement.ReadBack (s : Statement) : Prop :=
  ∀ c c' : Cursor, c.Reads (s.spellings .parenthesized) c' →
    c'.current.kind ≠ .keyword .else → statement.outcome {} c = .accepted s c'

/-- A statement without attributes that has no form of its own is a plain one. -/
theorem Statement.ReadBack.of_plain {s : Statement}
    (h : ∀ c c', c.Reads (s.spellings .parenthesized) c' →
      (c.current.kind ≠ .symbol .attr ∧ ¬c.current.kind.StartsForm) ∧
        plainStatement.outcome {} c = .accepted s c') : s.ReadBack := by
  intro c c' hreads _
  obtain ⟨⟨hattribute, hc⟩, hplain⟩ := h c c' hreads
  simp only [TokenKind.StartsForm, List.mem_cons, List.not_mem_nil, or_false, not_or] at hc
  obtain ⟨hbrace, hif, hswitch, hfor, hwhile, hloop⟩ := hc
  have hnone : Nonterminal.attributes.outcome {} c = .accepted [] c := by
    rw [outcome_eq]
    simp [Production.ofNonterminal, Production.attributes, hattribute]
  rw [outcome_eq]
  simp [Production.ofNonterminal, Production.statement, hnone, hplain]

/-- A local variable reads back. -/
theorem Statement.readBack_variable {v : Variable} (hv : v.Local) :
    (Statement.variable v).ReadBack := by
  refine .of_plain fun c c' h => ?_
  simp only [Statement.spellings, Cursor.reads_mul, Cursor.reads_mark] at h
  obtain ⟨d, h, hend, rfl⟩ := h
  obtain ⟨hword, hvariable⟩ := variable_outcome hv.2 h hend
  have hkind : c.current.kind = .keyword v.kind.keyword := by rw [hword]
  have hl : c.current.location = v.location := by rw [hword]
  constructor
  · rw [hkind]
    cases v.kind <;> exact ⟨by decide, by decide⟩
  · rw [outcome_eq]
    have hlocal := TokenKind.localVariableKind?_eq_some_iff.2 ⟨rfl, hv.1⟩
    cases hk : v.kind with
    | override => exact absurd hk hv.1
    | _ =>
      rw [hk] at hkind hvariable hlocal
      simp_all [Production.ofNonterminal, Production.plainStatement, VariableKind.keyword]

/-- What begins an expression introduces no variable. -/
theorem TokenKind.StartsExpression.localVariableKind? {k : TokenKind} (h : k.StartsExpression) :
    k.localVariableKind? = none := by
  cases k with
  | keyword word => cases word <;> first | rfl | exact h.elim
  | _ => rfl

/-- What begins an expression begins no compound statement. -/
theorem TokenKind.StartsExpression.not_startsForm {k : TokenKind} (h : k.StartsExpression) :
    ¬k.StartsForm := by
  intro hk
  simp only [StartsForm, List.mem_cons, List.not_mem_nil, or_false] at hk
  rcases hk with rfl | rfl | rfl | rfl | rfl | rfl <;> exact h

/-- An assignment, a step or a call reads back. -/
theorem Statement.readBack_simple {s : SimpleStatement} (hs : s.WellShaped) :
    (Statement.simple s).ReadBack := by
  refine .of_plain fun c c' h => ?_
  simp only [Statement.spellings, Cursor.reads_mul, Cursor.reads_mark] at h
  obtain ⟨d, h, hend, rfl⟩ := h
  have hstart := (s.begins_spellings _).reads h
  refine ⟨⟨hstart.ne_of_not id, hstart.not_startsForm⟩, ?_⟩
  have hlocal := hstart.localVariableKind?
  have hsimple := simpleStatement_outcome hs h (.inl hend)
  have hne : ∀ word, word ≠ .true → word ≠ .false → c.current.kind ≠ .keyword word :=
    fun word htrue hfalse =>
      hstart.ne_of_not (by cases word <;> simp_all [TokenKind.StartsExpression])
  have hreturn := hne .return (by decide) (by decide)
  have hbreak := hne .break (by decide) (by decide)
  have hcontinue := hne .continue (by decide) (by decide)
  have hdiscard := hne .discard (by decide) (by decide)
  have hstatic := hne .staticAssert (by decide) (by decide)
  have hconst := hne .constAssert (by decide) (by decide)
  rw [outcome_eq]
  simp [Production.ofNonterminal, Production.plainStatement, hlocal, hsimple, hend]

/-- A `return` reads back, with a value or without. -/
theorem Statement.readBack_return {value : Option Expression} {l : Location}
    (hvalue : ∀ e ∈ value, e.WellShaped) : (Statement.return value l).ReadBack := by
  refine .of_plain fun c c' h => ?_
  simp only [Statement.spellings, Cursor.reads_mul, Cursor.reads_keyword, Cursor.reads_mark] at h
  obtain ⟨d, ⟨_, ⟨hc, rfl⟩, h⟩, hend, rfl⟩ := h
  have hkind : c.current.kind = .keyword .return := by rw [hc]
  refine ⟨by rw [hkind]; exact ⟨by decide, by decide⟩, ?_⟩
  rw [outcome_eq]
  cases value with
  | none =>
    obtain rfl := Cursor.reads_one.1 h
    simp [Production.ofNonterminal, Production.plainStatement, hc, hend]
  | some e =>
    have hstart : c.advance.current.kind ≠ .symbol .semicolon :=
      ((e.begins_spellings _).reads h).ne_of_not id
    have he := expression_outcome_of_wellShaped (hvalue e rfl) h (by rw [hend]; decide)
    simp [Production.ofNonterminal, Production.plainStatement, hc, hstart, he, hend]

/-- A `break` reads back. -/
theorem Statement.readBack_break {l : Location} : (Statement.break l).ReadBack := by
  refine .of_plain fun c c' h => ?_
  simp only [Statement.spellings, Cursor.reads_mul, Cursor.reads_keyword, Cursor.reads_mark] at h
  obtain ⟨_, ⟨hc, rfl⟩, hend, rfl⟩ := h
  have hkind : c.current.kind = .keyword .break := by rw [hc]
  refine ⟨by rw [hkind]; exact ⟨by decide, by decide⟩, ?_⟩
  rw [outcome_eq]
  simp [Production.ofNonterminal, Production.plainStatement, hc, hend]

/-- A `break if` reads back. -/
theorem Statement.readBack_breakIf {e : Expression} {l : Location} (he : e.WellShaped) :
    (Statement.breakIf e l).ReadBack := by
  refine .of_plain fun c c' h => ?_
  simp only [Statement.spellings, Cursor.reads_mul, Cursor.reads_keyword, Cursor.reads_reserved,
    Cursor.reads_mark] at h
  obtain ⟨d, ⟨_, ⟨_, ⟨hc, rfl⟩, hif, rfl⟩, h⟩, hend, rfl⟩ := h
  have hkind : c.current.kind = .keyword .break := by rw [hc]
  refine ⟨by rw [hkind]; exact ⟨by decide, by decide⟩, ?_⟩
  have hcondition := follow_condition he h (by rw [hend]; decide)
  rw [outcome_eq]
  simp [Production.ofNonterminal, Production.plainStatement, hc, hif, hcondition, hend]

/-- A `continue` reads back. -/
theorem Statement.readBack_continue {l : Location} : (Statement.continue l).ReadBack := by
  refine .of_plain fun c c' h => ?_
  simp only [Statement.spellings, Cursor.reads_mul, Cursor.reads_keyword, Cursor.reads_mark] at h
  obtain ⟨_, ⟨hc, rfl⟩, hend, rfl⟩ := h
  have hkind : c.current.kind = .keyword .continue := by rw [hc]
  refine ⟨by rw [hkind]; exact ⟨by decide, by decide⟩, ?_⟩
  rw [outcome_eq]
  simp [Production.ofNonterminal, Production.plainStatement, hc, hend]

/-- A `discard` reads back. -/
theorem Statement.readBack_discard {l : Location} : (Statement.discard l).ReadBack := by
  refine .of_plain fun c c' h => ?_
  simp only [Statement.spellings, Cursor.reads_mul, Cursor.reads_keyword, Cursor.reads_mark] at h
  obtain ⟨_, ⟨hc, rfl⟩, hend, rfl⟩ := h
  have hkind : c.current.kind = .keyword .discard := by rw [hc]
  refine ⟨by rw [hkind]; exact ⟨by decide, by decide⟩, ?_⟩
  rw [outcome_eq]
  simp [Production.ofNonterminal, Production.plainStatement, hc, hend]

/-- An assertion is a word, a condition and a semicolon, in a function body as in a module. -/
theorem Cursor.Reads.assertion {e : Expression} {l : Location} (he : e.WellShaped)
    (h : c.Reads (assertionSpellings .parenthesized e l) c') :
    (c.current = ⟨.keyword .staticAssert, l⟩ ∨ c.current = ⟨.keyword .constAssert, l⟩) ∧
      ∃ d, Production.condition.follow (fun n c => n.outcome {} c) c.advance = .accepted e d ∧
        d.current.kind = .symbol .semicolon ∧ d.advance = c' := by
  simp only [assertionSpellings, reads_mul, reads_add, reads_keyword, reads_mark] at h
  obtain ⟨d, ⟨f, hword, h⟩, hend, rfl⟩ := h
  obtain rfl : c.advance = f := hword.elim And.right And.right
  refine ⟨hword.imp And.left And.left, d, ?_, hend, rfl⟩
  exact follow_condition he h (by rw [hend]; decide)

/-- An assertion reads back, whichever of its words it is written with. -/
theorem Statement.readBack_assertion {e : Expression} {l : Location} (he : e.WellShaped) :
    (Statement.assertion e l).ReadBack := by
  refine .of_plain fun c c' h => ?_
  obtain ⟨hc, d, hcondition, hend, rfl⟩ := Cursor.Reads.assertion he h
  have hkind : c.current.kind = .keyword .staticAssert ∨
      c.current.kind = .keyword .constAssert := by
    rcases hc with hc | hc <;> simp [hc]
  refine ⟨by rcases hkind with hkind | hkind <;> (rw [hkind]; exact ⟨by decide, by decide⟩), ?_⟩
  rw [outcome_eq]
  rcases hc with hc | hc
  · simp [Production.ofNonterminal, Production.plainStatement, hc, hcondition, hend]
  · simp [Production.ofNonterminal, Production.plainStatement, hc, hcondition, hend]

/-! ## Bodies -/

/-- Statements begin with a semicolon or a statement, if with anything. -/
theorem Cursor.Reads.statements_current {ss : List Statement}
    (h : c.Reads (statementsSpellings .parenthesized ss) c') :
    c = c' ∨ c.current.kind = .symbol .semicolon ∨ c.current.kind.StartsStatement := by
  cases ss with
  | nil => exact (reads_semicolons.1 h).imp id fun h => .inl h.1
  | cons s ss =>
    simp only [statementsSpellings, reads_mul] at h
    obtain ⟨_, ⟨d, hsemicolons, hs⟩, -⟩ := h
    rcases reads_semicolons.1 hsemicolons with rfl | ⟨hsemicolon, -⟩
    · exact .inr (.inr ((s.begins_spellings _).reads hs))
    · exact .inr (.inl hsemicolon)

/-- What stands behind a statement of a body is no `else`. -/
theorem Cursor.Reads.statements_ne_else {ss : List Statement}
    (h : c.Reads (statementsSpellings .parenthesized ss) c')
    (hc' : c'.current.kind ≠ .keyword .else) : c.current.kind ≠ .keyword .else := by
  rcases h.statements_current with rfl | hsemicolon | hstart
  · exact hc'
  · simp [hsemicolon]
  · exact hstart.2.2.1

/-- Semicolons before statements mean nothing. -/
theorem statements_semicolons (h : c.Reads semicolons d) :
    statements.outcome {} c = statements.outcome {} d := by
  refine @Cursor.Reads.semicolons_induction c d
    (fun c => statements.outcome {} c = statements.outcome {} d) h rfl fun b hb ih => ?_
  rw [← ih, outcome_eq]
  simp [Production.ofNonterminal, Production.statements, hb]

/-- Statements that read back are read up to the closing brace, with any semicolons between. -/
theorem statements_outcome {ss : List Statement} (hss : ∀ s ∈ ss, s.ReadBack)
    (h : c.Reads (statementsSpellings .parenthesized ss) c')
    (hc' : c'.current.kind = .symbol .braceRight) :
    statements.outcome {} c = .accepted ss c' := by
  induction ss generalizing c with
  | nil =>
    rw [statements_semicolons h, outcome_eq]
    simp [Production.ofNonterminal, Production.statements, hc']
  | cons s ss ih =>
    simp only [statementsSpellings, Cursor.reads_mul] at h
    obtain ⟨d, ⟨b, hsemicolons, hs⟩, hrest⟩ := h
    obtain ⟨hsemicolon, hbrace, -, -, hend⟩ := (s.begins_spellings _).reads hs
    have hhead := hss s List.mem_cons_self b d hs (hrest.statements_ne_else (by simp [hc']))
    have htail := ih (fun s hs => hss s (List.mem_cons_of_mem _ hs)) hrest
    rw [statements_semicolons hsemicolons, outcome_eq]
    simp [Production.ofNonterminal, Production.statements, hhead, htail]

/-- A block is read if its statements read back. -/
theorem block_outcome {ss : List Statement} (hss : ∀ s ∈ ss, s.ReadBack) (place : String)
    (h : c.Reads (braced (statementsSpellings .parenthesized ss)) c') :
    (block place).outcome {} c = .accepted ss c' := by
  obtain ⟨hopen, d, hbody, hclose, rfl⟩ := Cursor.reads_braced.1 h
  rw [outcome_eq]
  simp [Production.ofNonterminal, Production.block, hopen, statements_outcome hss hbody hclose,
    hclose]

/-- Semicolons in the body of a loop mean nothing. -/
theorem loopBody_semicolons (h : c.Reads semicolons d) :
    loopBody.outcome {} c = loopBody.outcome {} d := by
  refine @Cursor.Reads.semicolons_induction c d
    (fun c => loopBody.outcome {} c = loopBody.outcome {} d) h rfl fun b hb ih => ?_
  rw [← ih, outcome_eq]
  simp [Production.ofNonterminal, Production.loopBody, hb]

/-- The body of a `loop` is read with its `continuing` block, if there is one. -/
theorem loopBody_outcome {body : List Statement} {continuing : Option (List Statement)}
    (hbody : ∀ s ∈ body, s.ReadBack) (hcontinuing : ∀ ss ∈ continuing, ∀ s ∈ ss, s.ReadBack)
    (h : c.Reads (statementsSpellings .parenthesized body *
      continuingSpellings .parenthesized continuing) c')
    (hc' : c'.current.kind = .symbol .braceRight) :
    loopBody.outcome {} c = .accepted (body, continuing) c' := by
  obtain ⟨f, h, hlast⟩ := Cursor.reads_mul.1 h
  have hf : f.current.kind ≠ .keyword .else := by
    cases continuing with
    | none =>
      obtain rfl := Cursor.reads_one.1 hlast
      simp [hc']
    | some ss =>
      simp only [continuingSpellings, Cursor.reads_mul, Cursor.reads_reserved] at hlast
      obtain ⟨_, ⟨hword, -⟩, -⟩ := hlast
      simp [hword]
  induction body generalizing c with
  | nil =>
    rw [loopBody_semicolons h, outcome_eq]
    cases continuing with
    | none =>
      obtain rfl := Cursor.reads_one.1 hlast
      simp [Production.ofNonterminal, Production.loopBody, hc']
    | some ss =>
      simp only [continuingSpellings, Cursor.reads_mul, Cursor.reads_reserved] at hlast
      obtain ⟨_, ⟨hword, rfl⟩, hlast⟩ := hlast
      simp [Production.ofNonterminal, Production.loopBody, hword,
        block_outcome (hcontinuing ss rfl) _ hlast]
  | cons s ss ih =>
    simp only [statementsSpellings, Cursor.reads_mul] at h
    obtain ⟨d, ⟨b, hsemicolons, hs⟩, hrest⟩ := h
    obtain ⟨hsemicolon, hbrace, -, hword, -⟩ := (s.begins_spellings _).reads hs
    have hhead := hbody s List.mem_cons_self b d hs (hrest.statements_ne_else hf)
    have htail := ih (fun s hs => hbody s (List.mem_cons_of_mem _ hs))
      (Cursor.reads_mul.2 ⟨f, hrest, hlast⟩) hrest
    rw [loopBody_semicolons hsemicolons, outcome_eq]
    simp [Production.ofNonterminal, Production.loopBody, hhead, htail]

/-! ## Compound statements -/

/-- From every spelling the compound statement is read behind its attributes, where no `else` stands
behind it. -/
def CompoundStatement.ReadBack (form : CompoundStatement) : Prop :=
  ∀ (as : List Attribute) (l : Location) (b c c' : Cursor),
    attributes.outcome {} b = .accepted as c → c.Reads (form.spellings .parenthesized l) c' →
      c'.current.kind ≠ .keyword .else →
        Nonterminal.statement.outcome {} b = .accepted (.compound as form l) c'

/-- A compound statement reads back behind its attributes. -/
theorem Statement.readBack_compound {as : List Attribute} {form : CompoundStatement} {l : Location}
    (has : attributesWellShaped as) (hform : form.ReadBack) :
    (Statement.compound as form l).ReadBack := by
  intro b c' h hc'
  simp only [Statement.spellings, Cursor.reads_mul] at h
  obtain ⟨c, hattributes, h⟩ := h
  have hstart := (form.begins_spellings _ l).reads h
  have hne : c.current.kind ≠ .symbol .attr ∧ c.current.kind ≠ .symbol .parenLeft := by
    refine ⟨?_, ?_⟩
    · intro hc
      rw [hc] at hstart
      exact absurd hstart (by decide)
    · intro hc
      rw [hc] at hstart
      exact absurd hstart (by decide)
  exact hform as l b c c' (attributes_outcome (attributes_readBack as has) hattributes hne.1 hne.2)
    h hc'

/-- A block reads back if its statements do. -/
theorem CompoundStatement.readBack_block {ss : List Statement} (hss : ∀ s ∈ ss, s.ReadBack) :
    (CompoundStatement.block ss).ReadBack := by
  intro as l b c c' has h _
  simp only [CompoundStatement.spellings, Cursor.reads_mul, Cursor.reads_symbol, Cursor.reads_mark]
    at h
  obtain ⟨d, ⟨_, ⟨hc, rfl⟩, hbody⟩, hclose⟩ := h
  have hkind : c.current.kind = .symbol .braceLeft := by rw [hc]
  have hblock := block_outcome hss "for block" (Cursor.reads_braced.2 ⟨hkind, d, hbody, hclose⟩)
  rw [outcome_eq]
  simp [Production.ofNonterminal, Production.statement, has, hc, hblock]

/-- A `while` reads back if its body does. -/
theorem CompoundStatement.readBack_while {e : Expression} {body : List Statement}
    (he : e.WellShaped) (hbody : ∀ s ∈ body, s.ReadBack) :
    (CompoundStatement.while e body).ReadBack := by
  intro as l b c c' has h _
  simp only [CompoundStatement.spellings, Cursor.reads_mul, Cursor.reads_keyword] at h
  obtain ⟨d, ⟨_, ⟨hc, rfl⟩, hcondition⟩, h⟩ := h
  have hopen := (Cursor.reads_braced.1 h).1
  have hcondition := follow_condition he hcondition (by rw [hopen]; decide)
  have hrepetition : repetition.outcome {} c.advance = .accepted (.while e body) c' := by
    rw [outcome_eq]
    simp [Production.ofNonterminal, Production.repetition, hcondition, block_outcome hbody _ h]
  rw [outcome_eq]
  simp [Production.ofNonterminal, Production.statement, has, hc, hrepetition]

/-- A `loop` reads back if its two blocks do. -/
theorem CompoundStatement.readBack_loop {body : List Statement}
    {continuing : Option (List Statement)} (hbody : ∀ s ∈ body, s.ReadBack)
    (hcontinuing : ∀ ss ∈ continuing, ∀ s ∈ ss, s.ReadBack) :
    (CompoundStatement.loop body continuing).ReadBack := by
  intro as l b c c' has h _
  obtain ⟨_, hword, h⟩ := Cursor.reads_mul.1 h
  obtain ⟨hc, rfl⟩ := Cursor.reads_keyword.1 hword
  obtain ⟨hopen, d, hinner, hclose, rfl⟩ := Cursor.reads_braced.1 h
  have hloop : Nonterminal.loop.outcome {} c.advance =
      .accepted (.loop body continuing) d.advance := by
    rw [outcome_eq]
    simp [Production.ofNonterminal, Production.loop, hopen,
      loopBody_outcome hbody hcontinuing hinner hclose, hclose]
  rw [outcome_eq]
  simp [Production.ofNonterminal, Production.statement, has, hc, hloop]

/-! ### The head of a `for` -/

/-- What a `for` does first is read, if there is something. -/
theorem forInitializer_outcome {i : Option ForInitializer} (hi : ∀ i' ∈ i, i'.WellShaped)
    (h : c.Reads (forInitializerSpellings .parenthesized i) c')
    (hc' : c'.current.kind = .symbol .semicolon) :
    forInitializer.outcome {} c = .accepted i c' := by
  rw [outcome_eq]
  cases i with
  | none =>
    obtain rfl : c = c' := Cursor.reads_one.1 h
    simp [Production.ofNonterminal, Production.forInitializer, hc']
  | some i =>
    have hshape := hi i rfl
    rcases i with v | s
    · obtain ⟨hword, hvariable⟩ := variable_outcome hshape.2 h hc'
      have hlocal : c.current.kind.localVariableKind? = some v.kind :=
        TokenKind.localVariableKind?_eq_some_iff.2 ⟨by rw [hword], hshape.1⟩
      have hne : c.current.kind ≠ .symbol .semicolon := by simp [hword]
      have hl : c.current.location = v.location := by rw [hword]
      rw [← hl] at hvariable
      simp [Production.ofNonterminal, Production.forInitializer, hne, hlocal, hvariable]
    · have hstart := (s.begins_spellings _).reads h
      have hne : c.current.kind ≠ .symbol .semicolon := hstart.ne_of_not id
      simp [Production.ofNonterminal, Production.forInitializer, hne, hstart.localVariableKind?,
        simpleStatement_outcome hshape h (.inl hc')]

/-- What a `for` tests is read, if there is something. -/
theorem forCondition_outcome {e : Option Expression} (he : ∀ e' ∈ e, e'.WellShaped)
    (h : c.Reads (valueSpellings .parenthesized e) c')
    (hc' : c'.current.kind = .symbol .semicolon) :
    forCondition.outcome {} c = .accepted e c' := by
  rw [outcome_eq]
  cases e with
  | none =>
    obtain rfl : c = c' := Cursor.reads_one.1 h
    simp [Production.ofNonterminal, Production.forCondition, hc']
  | some e =>
    have hne : c.current.kind ≠ .symbol .semicolon := ((e.begins_spellings _).reads h).ne_of_not id
    have houtcome := expression_outcome_of_wellShaped (he e rfl) h (by rw [hc']; decide)
    simp [Production.ofNonterminal, Production.forCondition, hne, houtcome]

/-- What a `for` does after a round is read, if there is something. -/
theorem forUpdate_outcome {s : Option SimpleStatement} (hs : ∀ s' ∈ s, s'.WellShaped)
    (h : c.Reads (forUpdateSpellings .parenthesized s) c')
    (hc' : c'.current.kind = .symbol .parenRight) :
    forUpdate.outcome {} c = .accepted s c' := by
  rw [outcome_eq]
  cases s with
  | none =>
    obtain rfl : c = c' := Cursor.reads_one.1 h
    simp [Production.ofNonterminal, Production.forUpdate, hc']
  | some s =>
    have hne : c.current.kind ≠ .symbol .parenRight := ((s.begins_spellings _).reads h).ne_of_not id
    simp [Production.ofNonterminal, Production.forUpdate, hne,
      simpleStatement_outcome (hs s rfl) h (.inr hc')]

/-- A `for` reads back if its body does. -/
theorem CompoundStatement.readBack_for {i : Option ForInitializer} {e : Option Expression}
    {u : Option SimpleStatement} {body : List Statement} (hi : ∀ i' ∈ i, i'.WellShaped)
    (he : ∀ e' ∈ e, e'.WellShaped) (hu : ∀ s ∈ u, s.WellShaped) (hbody : ∀ s ∈ body, s.ReadBack) :
    (CompoundStatement.for i e u body).ReadBack := by
  intro as l b c c' has h _
  obtain ⟨f, h, hblock⟩ := Cursor.reads_mul.1 h
  obtain ⟨_, hword, hhead⟩ := Cursor.reads_mul.1 h
  obtain ⟨hc, rfl⟩ := Cursor.reads_keyword.1 hword
  obtain ⟨hopen, d, hclauses, hclose, rfl⟩ := Cursor.reads_parenthesized.1 hhead
  simp only [Cursor.reads_mul, Cursor.reads_mark] at hclauses
  obtain ⟨_, ⟨g, ⟨_, ⟨k, hfirst, hk, rfl⟩, hsecond⟩, hg, rfl⟩, hthird⟩ := hclauses
  have hiteration : iteration.outcome {} c.advance = .accepted (.for i e u body) c' := by
    rw [outcome_eq]
    simp [Production.ofNonterminal, Production.iteration, hopen,
      forInitializer_outcome hi hfirst hk, hk, forCondition_outcome he hsecond hg, hg,
      forUpdate_outcome hu hthird hclose, hclose, block_outcome hbody _ hblock]
  rw [outcome_eq]
  simp [Production.ofNonterminal, Production.statement, has, hc, hiteration]

/-! ### Alternatives -/

/-- What the bodies of further conditions need to be read back. -/
def Alternative.ReadBack (a : Alternative) : Prop :=
  a.condition.WellShaped ∧ ∀ s ∈ a.body, s.ReadBack

/-- The `else` parts of an `if` are read one by one. -/
theorem alternatives_outcome {as : List Alternative} {otherwise : Option (List Statement)}
    (has : ∀ a ∈ as, a.ReadBack) (hotherwise : ∀ ss ∈ otherwise, ∀ s ∈ ss, s.ReadBack)
    (h : c.Reads (alternativesSpellings .parenthesized as *
      otherwiseSpellings .parenthesized otherwise) c')
    (hc' : c'.current.kind ≠ .keyword .else) :
    alternatives.outcome {} c = .accepted (as, otherwise) c' := by
  obtain ⟨f, h, hlast⟩ := Cursor.reads_mul.1 h
  induction as generalizing c with
  | nil =>
    obtain rfl : c = f := Cursor.reads_one.1 h
    rw [outcome_eq]
    cases otherwise with
    | none =>
      obtain rfl : c = c' := Cursor.reads_one.1 hlast
      simp [Production.ofNonterminal, Production.alternatives, hc']
    | some ss =>
      simp only [otherwiseSpellings, Cursor.reads_mul, Cursor.reads_reserved] at hlast
      obtain ⟨_, ⟨hword, rfl⟩, hbody⟩ := hlast
      have hopen := (Cursor.reads_braced.1 hbody).1
      simp [Production.ofNonterminal, Production.alternatives, hword, hopen,
        block_outcome (hotherwise ss rfl) _ hbody]
  | cons a as ih =>
    obtain ⟨e, body, l⟩ := a
    simp only [alternativesSpellings, Alternative.spellings, Cursor.reads_mul,
      Cursor.reads_reserved, Cursor.reads_keyword] at h
    obtain ⟨g, ⟨k, ⟨_, ⟨_, ⟨helse, rfl⟩, hif, rfl⟩, hcondition⟩, hbody⟩, hrest⟩ := h
    obtain ⟨he, hss⟩ := has _ List.mem_cons_self
    have hopen := (Cursor.reads_braced.1 hbody).1
    have hcondition := follow_condition he hcondition (by rw [hopen]; decide)
    have htail := ih (fun a ha => has a (List.mem_cons_of_mem _ ha))
      (Cursor.reads_mul.2 ⟨f, hrest, hlast⟩) hrest
    rw [outcome_eq]
    simp [Production.ofNonterminal, Production.alternatives, helse, hif, hcondition,
      block_outcome hss _ hbody, htail]

/-- An `if` reads back if all its bodies do. -/
theorem CompoundStatement.readBack_if {e : Expression} {body : List Statement}
    {as : List Alternative} {otherwise : Option (List Statement)} (he : e.WellShaped)
    (hbody : ∀ s ∈ body, s.ReadBack) (has : ∀ a ∈ as, a.ReadBack)
    (hotherwise : ∀ ss ∈ otherwise, ∀ s ∈ ss, s.ReadBack) :
    (CompoundStatement.if e body as otherwise).ReadBack := by
  intro attributes l b c c' hattributes h hc'
  simp only [CompoundStatement.spellings, Cursor.reads_mul, Cursor.reads_keyword] at h
  obtain ⟨g, ⟨f, ⟨d, ⟨_, ⟨hc, rfl⟩, hcondition⟩, hblock⟩, hfurther⟩, hlast⟩ := h
  have hopen := (Cursor.reads_braced.1 hblock).1
  have hcondition := follow_condition he hcondition (by rw [hopen]; decide)
  have hrest := alternatives_outcome has hotherwise (Cursor.reads_mul.2 ⟨g, hfurther, hlast⟩) hc'
  have hconditional : conditional.outcome {} c.advance =
      .accepted (.if e body as otherwise) c' := by
    rw [outcome_eq]
    simp [Production.ofNonterminal, Production.conditional, hcondition,
      block_outcome hbody _ hblock, hrest]
  rw [outcome_eq]
  simp [Production.ofNonterminal, Production.statement, hattributes, hc, hconditional]

/-! ### Clauses -/

/-- What a clause needs to be read back. -/
def Clause.ReadBack : Clause → Prop
  | .case es body _ => es ≠ [] ∧ expressionsWellShaped es ∧ ∀ s ∈ body, s.ReadBack
  | .default body _ => ∀ s ∈ body, s.ReadBack

/-- The selectors of a case are read up to its colon or its body. -/
theorem selectors_outcome {es : List Expression} (hne : es ≠ []) (hes : expressionsWellShaped es)
    (h : c.Reads (expressionsSpellings .parenthesized es) c')
    (hc' : c'.current.kind = .symbol .colon ∨ c'.current.kind = .symbol .braceLeft) :
    selectors.outcome {} c = .accepted es c' := by
  induction es generalizing c with
  | nil => exact absurd rfl hne
  | cons e es ih =>
    simp only [expressionsSpellings, Cursor.reads_mul, Cursor.reads_add, Cursor.reads_when,
      Cursor.reads_mark] at h
    obtain ⟨d, he, hrest⟩ := h
    rw [outcome_eq]
    rcases hrest with ⟨rfl, rfl⟩ | ⟨_, ⟨hcomma, rfl⟩, hrest⟩
    · have hends : d.current.kind.EndsExpression false ∧ d.current.kind ≠ .symbol .comma := by
        rcases hc' with hc' | hc' <;> (rw [hc']; exact ⟨by decide, by decide⟩)
      have hhead := expression_outcome_of_wellShaped hes.1 he hends.1
      simp [Production.ofNonterminal, Production.selectors, hhead, hends.2]
    · have hhead := expression_outcome_of_wellShaped hes.1 he (by rw [hcomma]; decide)
      cases es with
      | nil =>
        obtain rfl := Cursor.reads_one.1 hrest
        simp [Production.ofNonterminal, Production.selectors, hhead, hcomma, hc']
      | cons e' es =>
        have htail := ih (by simp) hes.2 hrest
        obtain ⟨_, he', -⟩ := Cursor.reads_mul.1 hrest
        have hstart := (e'.begins_spellings _).reads he'
        have hcolon : d.advance.current.kind ≠ .symbol .colon := hstart.ne_of_not id
        have hbrace : d.advance.current.kind ≠ .symbol .braceLeft := hstart.ne_of_not id
        simp [Production.ofNonterminal, Production.selectors, hhead, hcomma, hcolon, hbrace,
          htail]

/-- The colon of a clause may be missing before its body. -/
theorem follow_accept_colon {outcome : (n : Nonterminal) → Cursor → Outcome n.Result}
    (h : c.Reads (optional (mark .colon)) d) (hd : d.current.kind = .symbol .braceLeft) :
    ∃ seen, (Rule.accept .colon : Production Bool).follow outcome c = .accepted seen d := by
  rcases Cursor.reads_optional.1 h with rfl | hcolon
  · exact ⟨false, by simp [hd]⟩
  · obtain ⟨hkind, rfl⟩ := Cursor.reads_mark.1 hcolon
    exact ⟨true, by simp [hkind]⟩

/-- Clauses are read one by one, among them one default at most. -/
theorem clauses_outcome {cs : List Clause} (hcs : ∀ k ∈ cs, k.ReadBack) (hasDefault : Bool)
    (hcount : cs.countP Clause.isDefault + hasDefault.toNat ≤ 1)
    (h : c.Reads (clausesSpellings .parenthesized cs) c')
    (hc' : c'.current.kind = .symbol .braceRight) :
    (clauses hasDefault).outcome {} c = .accepted cs c' := by
  induction cs generalizing c hasDefault with
  | nil =>
    obtain rfl : c = c' := Cursor.reads_one.1 h
    rw [outcome_eq]
    simp [Production.ofNonterminal, Production.clauses, hc']
  | cons k cs ih =>
    obtain ⟨g, hk, hrest⟩ := Cursor.reads_mul.1 h
    have hshape := hcs k List.mem_cons_self
    have hcs' : ∀ k ∈ cs, k.ReadBack := fun k hk => hcs k (List.mem_cons_of_mem _ hk)
    cases k with
    | case es body l =>
      simp only [Clause.spellings, Cursor.reads_mul, Cursor.reads_keyword] at hk
      obtain ⟨f, ⟨d, ⟨_, ⟨hc, rfl⟩, hes⟩, hcolon⟩, hbody⟩ := hk
      have hopen := (Cursor.reads_braced.1 hbody).1
      have hd : d.current.kind = .symbol .colon ∨ d.current.kind = .symbol .braceLeft := by
        rcases Cursor.reads_optional.1 hcolon with rfl | hcolon
        · exact .inr hopen
        · exact .inl (Cursor.reads_mark.1 hcolon).1
      obtain ⟨seen, haccept⟩ :=
        @follow_accept_colon d f (fun n c => n.outcome {} c) hcolon hopen
      have hselectors := selectors_outcome hshape.1 hshape.2.1 hes hd
      have htail := ih hcs' hasDefault (by simpa [Clause.isDefault] using hcount) hrest
      rw [outcome_eq]
      simp [Production.ofNonterminal, Production.clauses, hc, hselectors, haccept,
        block_outcome hshape.2.2 _ hbody, htail, -Rule.follow_accept]
    | default body l =>
      simp only [Clause.spellings, Cursor.reads_mul, Cursor.reads_keyword] at hk
      obtain ⟨f, ⟨_, ⟨hc, rfl⟩, hcolon⟩, hbody⟩ := hk
      have hopen := (Cursor.reads_braced.1 hbody).1
      obtain ⟨seen, haccept⟩ :=
        @follow_accept_colon c.advance f (fun n c => n.outcome {} c) hcolon hopen
      obtain rfl : hasDefault = false := by
        cases hasDefault with
        | false => rfl
        | true => simp [Clause.isDefault] at hcount
      rw [List.countP_cons_of_pos rfl] at hcount
      have htail := ih hcs' true hcount hrest
      rw [outcome_eq]
      simp [Production.ofNonterminal, Production.clauses, hc, haccept,
        block_outcome hshape _ hbody, htail, -Rule.follow_accept]

/-- A `switch` reads back if the bodies of its clauses do. -/
theorem CompoundStatement.readBack_switch {e : Expression} {cs : List Clause} (he : e.WellShaped)
    (hcount : cs.countP Clause.isDefault ≤ 1) (hcs : ∀ k ∈ cs, k.ReadBack) :
    (CompoundStatement.switch e cs).ReadBack := by
  intro as l b c c' has h _
  simp only [CompoundStatement.spellings, Cursor.reads_mul, Cursor.reads_keyword] at h
  obtain ⟨d, ⟨_, ⟨hc, rfl⟩, hcondition⟩, hbody⟩ := h
  obtain ⟨hopen, f, hclauses, hclose, rfl⟩ := Cursor.reads_braced.1 hbody
  have hcondition := follow_condition he hcondition (by rw [hopen]; decide)
  have hselection : selection.outcome {} c.advance = .accepted (.switch e cs) f.advance := by
    rw [outcome_eq]
    simp [Production.ofNonterminal, Production.selection, hcondition, hopen,
      clauses_outcome hcs false (by simpa using hcount) hclauses hclose, hclose]
  rw [outcome_eq]
  simp [Production.ofNonterminal, Production.statement, has, hc, hselection]

/-! ## Every statement -/

mutual

/-- A well-shaped statement is read back from its spellings. -/
theorem statement_readBack : (s : Statement) → s.WellShaped → s.ReadBack
  | .variable _, h => Statement.readBack_variable h
  | .simple _, h => Statement.readBack_simple h
  | .return _ _, h => Statement.readBack_return h
  | .break _, _ => Statement.readBack_break
  | .breakIf _ _, h => Statement.readBack_breakIf h
  | .continue _, _ => Statement.readBack_continue
  | .discard _, _ => Statement.readBack_discard
  | .assertion _ _, h => Statement.readBack_assertion h
  | .compound _ form _, h => Statement.readBack_compound h.1 (compoundStatement_readBack form h.2)

private theorem compoundStatement_readBack :
    (form : CompoundStatement) → form.WellShaped → form.ReadBack
  | .block ss, h => CompoundStatement.readBack_block (statements_readBack ss h)
  | .if _ body as otherwise, ⟨he, hbody, has, hotherwise⟩ =>
    CompoundStatement.readBack_if he (statements_readBack body hbody)
      (alternatives_readBack as has) (optional_readBack otherwise hotherwise)
  | .switch _ cs, ⟨he, hcount, hcs⟩ =>
    CompoundStatement.readBack_switch he hcount (clauses_readBack cs hcs)
  | .for _ _ _ body, ⟨hi, he, hu, hbody⟩ =>
    CompoundStatement.readBack_for hi he hu (statements_readBack body hbody)
  | .while _ body, ⟨he, hbody⟩ =>
    CompoundStatement.readBack_while he (statements_readBack body hbody)
  | .loop body continuing, ⟨hbody, hcontinuing⟩ =>
    CompoundStatement.readBack_loop (statements_readBack body hbody)
      (optional_readBack continuing hcontinuing)

private theorem alternative_readBack : (a : Alternative) → a.WellShaped → a.ReadBack
  | ⟨_, body, _⟩, ⟨he, hbody⟩ => ⟨he, statements_readBack body hbody⟩

private theorem clause_readBack : (k : Clause) → k.WellShaped → k.ReadBack
  | .case _ body _, ⟨hne, hes, hbody⟩ => ⟨hne, hes, statements_readBack body hbody⟩
  | .default body _, h => statements_readBack body h

/-- Each of the statements of a well-shaped list is read back. -/
theorem statements_readBack : (ss : List Statement) → statementsWellShaped ss →
    ∀ s ∈ ss, s.ReadBack
  | [], _ => by simp
  | s :: ss, h => by
    have hhead := statement_readBack s h.1
    have htail := statements_readBack ss h.2
    simpa using ⟨hhead, htail⟩

private theorem alternatives_readBack : (as : List Alternative) → alternativesWellShaped as →
    ∀ a ∈ as, a.ReadBack
  | [], _ => by simp
  | a :: as, h => by
    have hhead := alternative_readBack a h.1
    have htail := alternatives_readBack as h.2
    simpa using ⟨hhead, htail⟩

private theorem clauses_readBack : (cs : List Clause) → clausesWellShaped cs → ∀ k ∈ cs, k.ReadBack
  | [], _ => by simp
  | k :: cs, h => by
    have hhead := clause_readBack k h.1
    have htail := clauses_readBack cs h.2
    simpa using ⟨hhead, htail⟩

private theorem optional_readBack : (body : Option (List Statement)) → optionalWellShaped body →
    ∀ ss ∈ body, ∀ s ∈ ss, s.ReadBack
  | none, _ => by simp
  | some ss, h => by
    have hss := statements_readBack ss h
    simpa using hss

end

end Wgsl
