import Wgsl.Proofs.Spelling.Written.Expression

/-!
# What is read is spelled: variables and statements

A location that the tree keeps is that of the token where the rule began, which is also the first
token of what the rule read (`Begins.reads_startingAt`). Conditions have lost a pair of
parentheses, and may be written with or without.
-/

namespace Wgsl

open Spelling

namespace Production

open Rule Nonterminal

variable {c c' : Cursor}

/-- What was read for a condition is written like one. -/
theorem reads_condition {e : Expression} (h : c.Reads (e.spellings .bare) c') :
    c.Reads (conditionSpellings .bare e.withoutParentheses) c' := by
  cases e with
  | grouped inner l =>
    simp only [Expression.spellings, Cursor.reads_mul, Cursor.reads_symbol, Cursor.reads_mark] at h
    simp only [conditionSpellings, parenthesized, Cursor.reads_add, Cursor.reads_mul,
      Cursor.reads_mark]
    obtain ⟨d, ⟨_, ⟨hopen, hadvance⟩, hinner⟩, hclose⟩ := h
    exact .inr ⟨d, ⟨_, ⟨by simp [hopen], hadvance⟩, hinner⟩, hclose⟩
  | _ => exact Cursor.reads_add.2 (.inl h)

/-- What was read for an assertion is written like one, with either of its two words. -/
theorem reads_assertion {e : Expression} {d : Cursor}
    (hword : c.current.kind = .keyword .staticAssert ∨ c.current.kind = .keyword .constAssert)
    (he : c.advance.Reads (e.spellings .bare) d) (hend : d.current.kind = .symbol .semicolon) :
    c.Reads (assertionSpellings .bare e.withoutParentheses c.current.location) d.advance := by
  have hcurrent : c.Reads (keyword .staticAssert c.current.location +
      keyword .constAssert c.current.location) c.advance := by
    simpa only [Cursor.reads_add, Cursor.reads_keyword, Token.eq_mk_location, and_true] using hword
  simp only [assertionSpellings, Cursor.reads_mul]
  exact ⟨d, ⟨_, hcurrent, reads_condition he⟩, Cursor.reads_mark.2 ⟨hend, rfl⟩⟩

theorem writes_block (place : String) : Writes (.block place) := by
  intro c _
  simp only [ofNonterminal, block, yields_steps, given_iff, and_imp]
  intro hopen statements d _ _ hstatements hclose
  simpa [braced, hopen] using ⟨d, hstatements, hclose, rfl⟩

/-! ## Variables -/

theorem writes_storage (kind : VariableKind) : Writes (.storage kind) := by
  intro c _
  simp only [ofNonterminal, storage, yields_steps, Bool.not_eq_true, true_implies,
    Bool.true_eq_false, false_implies, and_true, Bool.false_eq_true, true_and]
  refine ⟨fun _ => ⟨fun hopen storageClass hclass => ⟨fun hcomma accessMode haccess => ?_,
    fun _ => ?_⟩, fun _ => ?_⟩, fun _ => ?_⟩
  · refine ⟨fun hangle => ?_, fun hangle => ?_⟩
    · simp [storageSpellings, furtherNameSpellings, hopen, hclass, hcomma, haccess, hangle]
    · simp [storageSpellings, furtherNameSpellings, hopen, hclass, hcomma, haccess, hangle]
  · refine ⟨fun hangle => ?_, fun hangle => ?_⟩
    · simp [storageSpellings, furtherNameSpellings, hopen, hclass, hangle]
    · simp [storageSpellings, furtherNameSpellings, hopen, hclass, hangle]
  · simp [storageSpellings]
  · simp [storageSpellings]

theorem writes_ascription : Writes .ascription := by
  intro c _
  simp only [ofNonterminal, ascription, yields_steps, Written, given_iff, and_imp, Bool.not_eq_true,
    Bool.true_eq_false, false_implies, and_true]
  refine ⟨fun hcolon _ _ _ _ _ _ => ?_, fun _ => ?_⟩
  · simp [ascriptionSpellings, hcolon]
  · simp [ascriptionSpellings]

theorem writes_initializer (kind : VariableKind) : Writes (.initializer kind) := by
  intro c _
  simp only [ofNonterminal, initializer, yields_steps, given_iff, and_imp, Bool.not_eq_true,
    implies_true, true_and, Bool.true_eq_false, false_implies, and_true, Bool.false_eq_true]
  refine ⟨fun hequal _ _ _ _ _ => ?_, fun _ _ _ => ?_⟩
  · simp [initializerSpellings, hequal]
  · simp [initializerSpellings]

theorem writes_variable (kind : VariableKind) (l : Location) : Writes (.variable kind l) := by
  intro c _
  simp only [ofNonterminal, variableDeclaration, yields_steps, implies_true, Written,
    Cursor.reads_keyword, and_imp, true_and, given_iff]
  intro s d _ _ hstorage name hname type e _ _ htype value c' _ _ hvalue _ b hcurrent hadvance
  simp only [Variable.spellings, Cursor.reads_mul, Cursor.reads_named, Cursor.reads_keyword]
  exact ⟨e, ⟨_, ⟨d, ⟨c, ⟨hcurrent, hadvance⟩, hstorage⟩, hname, rfl⟩, htype⟩, hvalue⟩

/-! ## Simple statements -/

theorem writes_simpleStatement : Writes .simpleStatement := by
  intro c _
  simp only [ofNonterminal, simpleStatement, yields_steps, given_iff, Written, and_imp]
  intro target d _ _ htarget
  have hbegins : Begins (fun t => t.kind.StartsExpression) (target.spellings .bare) :=
    target.begins_spellings .bare
  split
  · rename_i op _ hop
    simp only [yields_steps, Written, given_iff, and_imp]
    intro value c' _ _ hvalue
    refine ((hbegins.mul _).mul _).reads_startingAt.2 ⟨?_, rfl⟩
    simp only [Cursor.reads_mul, Cursor.reads_mark]
    exact ⟨_, ⟨d, htarget, TokenKind.assignment?_eq_some_iff.1 hop, rfl⟩, hvalue⟩
  · rename_i op _ hop
    simp only [yields_steps, Written]
    refine (hbegins.mul _).reads_startingAt.2 ⟨?_, rfl⟩
    simp only [Cursor.reads_mul, Cursor.reads_mark]
    exact ⟨d, htarget, TokenKind.step?_eq_some_iff.1 hop, rfl⟩
  · rename_i callee arguments l _ _
    have hword := htarget
    simp only [Expression.spellings, Cursor.reads_mul, Cursor.reads_word] at hword
    obtain ⟨_, ⟨hcurrent, -⟩, -⟩ := hword
    simp only [hcurrent, yields_steps, Written]
    exact htarget
  · simp

/-! ## Statements -/

theorem writes_plainStatement : Writes .plainStatement := by
  intro c _
  simp only [ofNonterminal, plainStatement, yields_steps]
  split
  · rename_i hreturn
    simp only [yields_steps, Written, Statement.spellings, Cursor.reads_mul, Cursor.reads_keyword,
      Token.eq_mk_location, ↓existsAndEq, and_true, Cursor.reads_mark, Bool.not_eq_true, given_iff,
      and_imp, true_implies, false_implies, Bool.false_eq_true, true_and]
    refine ⟨fun hend => ?_, fun _ value d _ _ hvalue hend => ?_⟩
    · simp [valueSpellings, hreturn, hend]
    · exact ⟨d, ⟨hreturn, hvalue⟩, hend, rfl⟩
  · rename_i hbreak
    simp only [condition, yields_steps, Written, Statement.spellings, Cursor.reads_mul,
      Cursor.reads_keyword, Token.eq_mk_location, Cursor.reads_reserved, ↓existsAndEq, and_true,
      Cursor.reads_mark, given_iff, and_imp]
    refine ⟨fun hif e d _ _ he hend => ?_, fun _ hend => ?_⟩
    · exact ⟨d, ⟨⟨hbreak, hif⟩, reads_condition he⟩, hend, rfl⟩
    · simp [hbreak, hend]
  · rename_i hcontinue
    simp [Statement.spellings, hcontinue]
  · rename_i hdiscard
    simp [Statement.spellings, hdiscard]
  · rename_i hassert
    simp only [condition, yields_steps, Written, Statement.spellings, given_iff, and_imp]
    exact fun e d _ _ he hend => reads_assertion (.inl hassert) he hend
  · rename_i hassert
    simp only [condition, yields_steps, Written, Statement.spellings, given_iff, and_imp]
    exact fun e d _ _ he hend => reads_assertion (.inr hassert) he hend
  · split
    · rename_i kind hkind
      simp only [yields_steps, Written, Statement.spellings, Cursor.reads_mul, Cursor.reads_mark,
        given_iff, Cursor.reads_keyword, and_imp]
      intro v d _ _ hv hend
      have hword : c.current.kind = .keyword kind.keyword :=
        (TokenKind.localVariableKind?_eq_some_iff.1 hkind).1
      exact ⟨d, hv c (Token.eq_mk_location.2 hword) rfl, hend, rfl⟩
    · simp only [yields_steps, Written, Statement.spellings, Cursor.reads_mul, Cursor.reads_mark,
        given_iff, and_imp]
      intro s d _ _ hs hend
      exact ⟨d, hs, hend, rfl⟩

theorem writes_statement : Writes .statement := by
  intro c _
  simp only [ofNonterminal, statement, List.isEmpty_iff, yields_steps, given_iff, and_imp]
  intro attributes d _ _ hattributes
  have hcompound : ∀ (word : Keyword) (form : CompoundStatement) (c' : Cursor),
      d.current.kind = .keyword word →
      (∀ (b : Cursor) l, b.Reads (keyword word l) d.advance → b.Reads (form.spellings .bare l) c') →
        Written .statement c (.compound attributes form d.current.location) c' := by
    intro word form c' hword hform
    simp only [Written, Statement.spellings, Cursor.reads_mul]
    refine ⟨d, hattributes, hform d _ ?_⟩
    simp [hword]
  split
  · rename_i hword
    simp only [yields_steps, given_iff, and_imp]
    exact fun form c' _ _ h => hcompound .if form c' hword h
  · rename_i hword
    simp only [yields_steps, given_iff, and_imp]
    exact fun form c' _ _ h => hcompound .switch form c' hword h
  · rename_i hword
    simp only [yields_steps, given_iff, and_imp]
    exact fun form c' _ _ h => hcompound .for form c' hword h
  · rename_i hword
    simp only [yields_steps, given_iff, and_imp]
    exact fun form c' _ _ h => hcompound .loop form c' hword h
  · rename_i hword
    simp only [yields_steps, given_iff, and_imp]
    exact fun form c' _ _ h => hcompound .while form c' hword h
  · rename_i hopen
    simp only [yields_steps, Written, Statement.spellings, CompoundStatement.spellings,
      Cursor.reads_mul, Cursor.reads_symbol, ↓existsAndEq, and_true, Cursor.reads_mark, given_iff,
      braced, and_imp, forall_exists_index]
    intro statements c' _ _ e _ hstatements hclose hadvance
    exact ⟨d, hattributes, e, ⟨Token.eq_mk_location.2 hopen, hstatements⟩, hclose, hadvance⟩
  · simp only [yields_steps, given_iff, and_imp, implies_true, and_true]
    intro hnil s c' _ _ hs
    subst hnil
    obtain rfl : c = d := Cursor.reads_one.1 hattributes
    exact hs

/-- Statements may have a semicolon before them. -/
theorem reads_statements_of_semicolon {ss : List Statement}
    (hc : c.current.kind = .symbol .semicolon)
    (h : c.advance.Reads (statementsSpellings .bare ss) c') :
    c.Reads (statementsSpellings .bare ss) c' := by
  cases ss with
  | nil => exact Cursor.reads_semicolons.2 (.inr ⟨hc, h⟩)
  | cons s ss =>
    rw [statementsSpellings, mul_assoc] at h ⊢
    exact Cursor.reads_semicolons_mul hc h

/-- Statements need no semicolon before them. -/
theorem reads_statements_cons {d : Cursor} {s : Statement} {ss : List Statement}
    (hs : c.Reads (s.spellings .bare) d) (hss : d.Reads (statementsSpellings .bare ss) c') :
    c.Reads (statementsSpellings .bare (s :: ss)) c' := by
  simp only [statementsSpellings, Cursor.reads_mul]
  exact ⟨d, ⟨c, Cursor.reads_no_semicolons, hs⟩, hss⟩

theorem writes_statements : Writes .statements := by
  intro c _
  simp only [ofNonterminal, statements, yields_steps]
  split
  · rename_i hsemicolon
    simp only [yields_steps, given_iff, Written, and_imp]
    intro ss c' _ _ hss
    exact reads_statements_of_semicolon hsemicolon hss
  · simp [statementsSpellings, Cursor.reads_no_semicolons]
  · simp [statementsSpellings, Cursor.reads_no_semicolons]
  · simp only [yields_steps, Written, given_iff, and_imp]
    intro s d _ _ hs ss c' _ _ hss
    exact reads_statements_cons hs hss

/-! ## Compound statements -/

theorem writes_conditional : Writes .conditional := by
  intro c _
  simp only [ofNonterminal, conditional, condition, yields_steps, Written, Cursor.reads_keyword,
    and_imp, given_iff, Cursor.reads_mul, forall_exists_index, Prod.forall]
  intro e d _ _ he body f _ _ hbody alternatives otherwise c' _ _ g halternatives hotherwise b l
    hcurrent hadvance
  simp only [CompoundStatement.spellings, Cursor.reads_mul, Cursor.reads_keyword]
  exact ⟨g, ⟨f, ⟨d, ⟨c, ⟨hcurrent, hadvance⟩, reads_condition he⟩, hbody⟩, halternatives⟩,
    hotherwise⟩

theorem writes_alternatives : Writes .alternatives := by
  intro c _
  simp only [ofNonterminal, alternatives, condition, yields_steps, Written, Cursor.reads_mul,
    given_iff, and_imp, forall_exists_index, Prod.forall]
  refine ⟨fun helse => ⟨?_, fun _ body c' _ _ hbody => ?_⟩, fun _ => ?_⟩
  · intro hif e d _ _ he body f _ _ hbody alternatives otherwise c' _ _ g halternatives hotherwise
    simp only [alternativesSpellings, Alternative.spellings, Cursor.reads_mul,
      Cursor.reads_reserved, Cursor.reads_keyword]
    exact ⟨g, ⟨f, ⟨d, ⟨_, ⟨_, ⟨helse, rfl⟩, Token.eq_mk_location.2 hif, rfl⟩, reads_condition he⟩,
      hbody⟩, halternatives⟩, hotherwise⟩
  · simpa [alternativesSpellings, otherwiseSpellings, helse] using hbody
  · simp [alternativesSpellings, otherwiseSpellings]

theorem writes_selection : Writes .selection := by
  intro c _
  simp only [ofNonterminal, selection, condition, yields_steps, Written, Cursor.reads_keyword,
    and_imp, given_iff]
  intro e d _ _ he hopen clauses f _ _ hclauses hclose b l hcurrent hadvance
  simp only [CompoundStatement.spellings, braced, Cursor.reads_mul, Cursor.reads_keyword,
    Cursor.reads_mark]
  exact ⟨d, ⟨c, ⟨hcurrent, hadvance⟩, reads_condition he⟩, f, ⟨_, ⟨hopen, rfl⟩, hclauses⟩, hclose,
    rfl⟩

theorem writes_clauses (hasDefault : Bool) : Writes (.clauses hasDefault) := by
  intro c _
  simp only [ofNonterminal, clauses, yields_steps]
  split
  · simp [clausesSpellings]
  · rename_i hcase
    simp only [yields_steps, Written, clausesSpellings, Clause.spellings, Cursor.reads_mul,
      Cursor.reads_keyword, Token.eq_mk_location, hcase, true_and, exists_eq_left',
      Cursor.reads_optional, Cursor.reads_mark, given_iff, and_imp]
    intro selectors d _ _ hselectors
    refine ⟨fun hcolon body e _ _ hbody rest c' _ _ hrest => ?_,
      fun _ body e _ _ hbody rest c' _ _ hrest => ?_⟩
    · exact ⟨e, ⟨_, ⟨d, hselectors, .inr ⟨hcolon, rfl⟩⟩, hbody⟩, hrest⟩
    · exact ⟨e, ⟨d, ⟨d, hselectors, .inl rfl⟩, hbody⟩, hrest⟩
  · rename_i hdefault
    simp only [yields_steps, implies_true, Written, clausesSpellings, Clause.spellings,
      Cursor.reads_mul, Cursor.reads_keyword, Token.eq_mk_location, hdefault, true_and,
      Cursor.reads_optional, Cursor.reads_mark, exists_eq_or_imp', ↓existsAndEq, and_true,
      given_iff, and_imp]
    refine fun _ => ⟨fun hcolon body e _ _ hbody rest c' _ _ hrest => ?_,
      fun _ body e _ _ hbody rest c' _ _ hrest => ?_⟩
    · exact ⟨e, .inr ⟨hcolon, hbody⟩, hrest⟩
    · exact ⟨e, .inl hbody, hrest⟩
  · simp

theorem writes_selectors : Writes .selectors := by
  intro c _
  simp only [ofNonterminal, selectors, yields_steps, Written, not_or, given_iff, and_imp,
    Bool.not_eq_true, true_implies, Bool.true_eq_false, false_implies, and_true]
  intro e d _ _ he
  refine ⟨fun hcomma => ⟨fun _ => ?_, fun _ _ es c' _ _ hes => ?_⟩, fun _ => ?_⟩
  · simpa [expressionsSpellings] using ⟨d, he, .inr ⟨hcomma, rfl⟩⟩
  · simp only [expressionsSpellings, Cursor.reads_mul, Cursor.reads_add, Cursor.reads_mark,
      ↓existsAndEq, and_true]
    exact ⟨d, he, .inr ⟨hcomma, hes⟩⟩
  · simpa [expressionsSpellings] using ⟨d, he, .inl rfl⟩

/-! ## Loops -/

theorem writes_forInitializer : Writes .forInitializer := by
  intro c _
  simp only [ofNonterminal, forInitializer, yields_steps, Written]
  refine ⟨fun _ => ?_, fun _ => ?_⟩
  · simp [forInitializerSpellings]
  · split
    · rename_i kind hkind
      simp only [yields_steps, Written, given_iff, Cursor.reads_keyword, and_imp]
      intro v c' _ _ hv
      have hword : c.current.kind = .keyword kind.keyword :=
        (TokenKind.localVariableKind?_eq_some_iff.1 hkind).1
      exact hv c (Token.eq_mk_location.2 hword) rfl
    · simp [forInitializerSpellings, ForInitializer.spellings]

theorem writes_forCondition : Writes .forCondition := by
  intro c _
  simp only [ofNonterminal, forCondition, yields_steps, given_iff, and_imp]
  refine ⟨fun _ => ?_, fun _ e c' _ _ he => ?_⟩
  · simp [valueSpellings]
  · exact he

theorem writes_forUpdate : Writes .forUpdate := by
  intro c _
  simp only [ofNonterminal, forUpdate, yields_steps, given_iff, and_imp]
  refine ⟨fun _ => ?_, fun _ s c' _ _ hs => ?_⟩
  · simp [forUpdateSpellings]
  · exact hs

theorem writes_iteration : Writes .iteration := by
  intro c _
  simp only [ofNonterminal, iteration, yields_steps, Written, Cursor.reads_keyword, and_imp,
    given_iff]
  intro hopen initializer d _ _ hinitializer hfirst condition e _ _ hcondition hsecond update f _ _
    hupdate hclose body c' _ _ hbody b l hcurrent hadvance
  have hclauses : c.advance.Reads (forInitializerSpellings .bare initializer * mark .semicolon *
      valueSpellings .bare condition * mark .semicolon * forUpdateSpellings .bare update) f := by
    simp only [Cursor.reads_mul, Cursor.reads_mark]
    exact ⟨_, ⟨e, ⟨_, ⟨d, hinitializer, hfirst, rfl⟩, hcondition⟩, hsecond, rfl⟩, hupdate⟩
  have hhead := Cursor.reads_parenthesized.2 ⟨hopen, f, hclauses, hclose, rfl⟩
  have hword := Cursor.reads_keyword.2 ⟨hcurrent, hadvance⟩
  rw [CompoundStatement.spellings, Cursor.reads_mul]
  exact ⟨_, Cursor.reads_mul.2 ⟨c, hword, hhead⟩, hbody⟩

theorem writes_repetition : Writes .repetition := by
  intro c _
  simp only [ofNonterminal, repetition, condition, yields_steps, Written, Cursor.reads_keyword,
    and_imp, given_iff]
  intro e d _ _ he body c' _ _ hbody b l hcurrent hadvance
  simp only [CompoundStatement.spellings, Cursor.reads_mul, Cursor.reads_keyword]
  exact ⟨d, ⟨c, ⟨hcurrent, hadvance⟩, reads_condition he⟩, hbody⟩

theorem writes_loop : Writes .loop := by
  intro c _
  simp only [ofNonterminal, loop, yields_steps, Written, Cursor.reads_keyword, and_imp, given_iff,
    Cursor.reads_mul, forall_exists_index, Prod.forall]
  intro hopen body continuing d _ _ e hbody hcontinuing hclose b l hcurrent hadvance
  simp only [CompoundStatement.spellings, braced, Cursor.reads_mul, Cursor.reads_keyword,
    Cursor.reads_mark]
  exact ⟨c, ⟨hcurrent, hadvance⟩, d, ⟨_, ⟨hopen, rfl⟩, e, hbody, hcontinuing⟩, hclose, rfl⟩

theorem writes_loopBody : Writes .loopBody := by
  intro c _
  simp only [ofNonterminal, loopBody, yields_steps]
  split
  · rename_i hsemicolon
    simp only [yields_steps, given_iff, Written, Cursor.reads_mul, and_imp, forall_exists_index,
      Prod.forall]
    intro ss continuing c' _ _ d hss hcontinuing
    exact ⟨d, reads_statements_of_semicolon hsemicolon hss, hcontinuing⟩
  · simp [statementsSpellings, continuingSpellings, Cursor.reads_no_semicolons]
  · rename_i hcontinuing
    simp only [yields_steps, Written, Cursor.reads_mul, given_iff, and_imp]
    intro body c' _ _ hbody
    refine ⟨c, Cursor.reads_no_semicolons, ?_⟩
    simpa [continuingSpellings, hcontinuing] using hbody
  · simp only [yields_steps, Written, Cursor.reads_mul, given_iff, and_imp, forall_exists_index,
      Prod.forall]
    intro s d _ _ hs ss continuing c' _ _ e hss hcontinuing
    exact ⟨e, reads_statements_cons hs hss, hcontinuing⟩

end Production

end Wgsl
