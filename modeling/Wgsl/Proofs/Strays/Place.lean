import Wgsl.Proofs.Redundant.Path
import Wgsl.Proofs.Strays.Ending

/-!
# Places between items

The declarations of a module, and the statements in braces, are items that stand one behind the
other, and a `;` among them means nothing. A place among items is reached over items and `;` alone
(`Nonterminal.Passes`), from the beginning of the module or from behind the `{` of a body that is
read somewhere in the module: directly behind the `{`, between two items or before the `}`
(`Boundary`). The `}` itself stands at such a place, and in a `loop` the word `continuing` does
(`passes_of_block`, `passes_of_loop`).

Only behind the continuing block of a `loop` no `;` is passed over: there the loop is read up to its
`}` (`BehindContinuing`).
-/

namespace Wgsl

open scoped Rule.Steps

namespace Nonterminal

variable {options : ReadOptions} {c d e place : Cursor}

/-! ## What items begin with -/

/-- Where no attribute begins, there are none. -/
theorem attributes_outcome_of_ne (h : c.current.kind ≠ .symbol .attr) :
    attributes.outcome options c = .accepted [] c := by
  rw [outcome_eq]
  simp [Production.attributes, h]

/-- An assignment, a step or a call begins with an operand. -/
theorem beginsOperand_of_simpleStatement {s : SimpleStatement}
    (ho : simpleStatement.outcome options c = .accepted s d) :
    c.current.kind.beginsOperand = true := by
  cases hunary : unary.outcome options c with
  | accepted e x => exact beginsOperand options .unary c e x hunary
  | rejected err x =>
    rw [outcome_eq] at ho
    simp [Production.simpleStatement, hunary] at ho

/-- A statement does not begin with what may stand behind the last one. -/
theorem current_of_statement {s : Statement} (ho : statement.outcome options c = .accepted s d) :
    c.current.kind ≠ .symbol .semicolon ∧ c.current.kind ≠ .symbol .braceRight ∧
      c.current.kind ≠ .keyword .continuing ∧ c.current.kind ≠ .endOfFile := by
  by_contra hnot
  have hkind : c.current.kind = .symbol .semicolon ∨ c.current.kind = .symbol .braceRight ∨
      c.current.kind = .keyword .continuing ∨ c.current.kind = .endOfFile := by
    simpa [or_iff_not_imp_left] using hnot
  have hattributes : attributes.outcome options c = .accepted [] c :=
    attributes_outcome_of_ne fun hattr => by simp [hattr] at hkind
  cases hsimple : simpleStatement.outcome options c with
  | accepted s x =>
    have hbegins := beginsOperand_of_simpleStatement hsimple
    rcases hkind with h | h | h | h <;> rw [h] at hbegins <;> cases hbegins
  | rejected err x =>
    have hplain : plainStatement.outcome options c = .rejected err x := by
      rw [outcome_eq]
      rcases hkind with h | h | h | h <;>
        simp [Production.plainStatement, TokenKind.localVariableKind?, TokenKind.variableKind?,
          VariableKind.ofKeyword?, h, hsimple]
    rw [outcome_eq] at ho
    rcases hkind with h | h | h | h <;>
      simp [Production.statement, hattributes, h, hplain] at ho

/-- A declaration does not begin with a `;` or the end of the file. -/
theorem current_of_declaration {m : Declaration}
    (ho : declaration.outcome options c = .accepted m d) :
    c.current.kind ≠ .symbol .semicolon ∧ c.current.kind ≠ .endOfFile := by
  by_contra hnot
  have hkind : c.current.kind = .symbol .semicolon ∨ c.current.kind = .endOfFile := by
    simpa [or_iff_not_imp_left] using hnot
  have hattributes : attributes.outcome options c = .accepted [] c :=
    attributes_outcome_of_ne fun hattr => by simp [hattr] at hkind
  cases hitem : item.outcome options c with
  | accepted a x =>
    rw [outcome_eq] at hitem
    rcases hkind with h | h <;> simp [Production.item, h, TokenKind.variableKind?] at hitem
  | rejected err x =>
    rw [outcome_eq] at ho
    simp [Production.declaration, hattributes, hitem] at ho

/-! ## Lists of entries -/

/-- The nonterminal reads entries one behind the other, and passes over a `;` among them. -/
structure Lists (options : ReadOptions) (list entry : Nonterminal) : Prop where
  semicolon : ∀ c, c.current.kind = .symbol .semicolon →
    list.outcome options c = list.outcome options c.advance
  entry : ∀ a : entry.Result, ∃ cons : list.Result → list.Result, ∀ c d,
    entry.outcome options c = .accepted a d →
      list.outcome options c = (list.outcome options d).bind fun rest e => .accepted (cons rest) e

/-- Declarations are a list of declarations. -/
theorem lists_declarations (options : ReadOptions) : Lists options .declarations .declaration where
  semicolon _ := declarations_of_semicolon
  entry m := by
    refine ⟨(m :: ·), fun c d ho => ?_⟩
    obtain ⟨hsemicolon, hend⟩ := current_of_declaration ho
    rw [declarations_of_declaration hsemicolon hend, ho, Outcome.accepted_bind]

/-- Statements are a list of statements. -/
theorem lists_statements (options : ReadOptions) : Lists options .statements .statement where
  semicolon c hc := by
    rw [outcome_eq]
    simp [Production.statements, hc]
  entry s := by
    refine ⟨(s :: ·), fun c d ho => ?_⟩
    obtain ⟨hsemicolon, hclose, hcontinuing, hend⟩ := current_of_statement ho
    rw [outcome_eq]
    simp [Production.statements, ho]

/-- The body of a `loop` is a list of statements, up to its `continuing` block. -/
theorem lists_loopBody (options : ReadOptions) : Lists options .loopBody .statement where
  semicolon c hc := by
    rw [outcome_eq]
    simp [Production.loopBody, hc]
  entry s := by
    refine ⟨fun rest => (s :: rest.1, rest.2), fun c d ho => ?_⟩
    obtain ⟨hsemicolon, hclose, hcontinuing, hend⟩ := current_of_statement ho
    rw [outcome_eq]
    simp [Production.loopBody, ho]

/-- From the cursor, entries and `;` lead to a place. -/
inductive Passes (options : ReadOptions) (entry : Nonterminal) (place : Cursor) : Cursor → Prop
  | here : Passes options entry place place
  | semicolon {c : Cursor} (hc : c.current.kind = .symbol .semicolon)
    (h : Passes options entry place c.advance) : Passes options entry place c
  | entry {c d : Cursor} {a : entry.Result} (ho : entry.outcome options c = .accepted a d)
    (h : Passes options entry place d) : Passes options entry place c

/-- What passes over a place reaches the place. -/
theorem Passes.reaches {entry : Nonterminal} (h : entry.Passes options place c) :
    c.Reaches place := by
  induction h with
  | here => exact .refl place
  | semicolon _ _ ih => exact ih.of_advance
  | @entry c _ _ ho _ ih =>
    have hreaches := entry.outcome_reaches options c
    rw [ho] at hreaches
    exact hreaches.trans ih

/-- Where tokens are left, the place is where it began, or behind a `;` or a `}`. -/
theorem Passes.eq_or_behindClosing {entry : Nonterminal} (hends : entry.endsStatement)
    (htakes : entry.takesToken) (hplace : place.upcoming ≠ [])
    (h : entry.Passes options place c) : place = c ∨ place.BehindClosing c.upcoming := by
  induction h with
  | here => exact .inl rfl
  | @semicolon c hc _ ih =>
    refine .inr ?_
    rcases ih with rfl | hbehind
    · exact Cursor.behindClosing_advance (by rw [hc]; rfl)
    · exact hbehind.of_suffix (Cursor.suffix_advance List.suffix_rfl)
  | @entry c d a ho h ih =>
    refine .inr ?_
    rcases ih with rfl | hbehind
    · rcases stopsBehind entry c hends a place hplace ho with rfl | hbehind
      · have hwithin := @outcome_within options entry place
        rw [ho, htakes] at hwithin
        simp at hwithin
      · exact hbehind
    · have hsuffix := entry.outcome_suffix options (List.suffix_refl c.upcoming)
      rw [ho] at hsuffix
      exact hbehind.of_suffix hsuffix

/-! ## Bodies -/

/-- The nonterminal is statements in braces. -/
@[simp] def isBody : Nonterminal → Bool
  | .block _ | .loop => true
  | _ => false

/-- Behind its brace a block is its statements and a brace. -/
theorem block_of_braceLeft {place : String} (hc : c.current.kind = .symbol .braceLeft) :
    (block place).outcome options c =
      (statements.outcome options c.advance).bind fun ss d =>
        if d.current.kind = .symbol .braceRight then .accepted ss d.advance
        else .rejected (.ofToken (.symbol .braceRight "to close block") d.current) d := by
  rw [outcome_eq]
  simp [Production.block, hc, Rule.follow_ite]

/-- Behind its brace a `loop` is its body and a brace. -/
theorem loop_of_braceLeft (hc : c.current.kind = .symbol .braceLeft) :
    loop.outcome options c =
      (loopBody.outcome options c.advance).bind fun parts d =>
        if d.current.kind = .symbol .braceRight then .accepted (.loop parts.1 parts.2) d.advance
        else .rejected (.ofToken (.symbol .braceRight "after loop body") d.current) d := by
  rw [outcome_eq]
  simp [Production.loop, hc, Rule.follow_ite]

/-- A `continuing` block is the last of a `loop`. -/
theorem loopBody_of_continuing (hc : c.current.kind = .keyword .continuing) :
    loopBody.outcome options c =
      ((block "for 'continuing' body").outcome options c.advance).bind fun ss d =>
        .accepted ([], some ss) d := by
  rw [outcome_eq]
  simp [Production.loopBody, hc]

/-- What is read of statements in braces is passed over, and the continuing block behind them. -/
@[simp] def PassesStatements (options : ReadOptions) :
    (n : Nonterminal) → Cursor → Outcome n.Result → Prop
  | .statements, c, o => o.IfAccepted fun _ d => statement.Passes options d c
  | .loopBody, c, o => o.IfAccepted fun _ d => statement.Passes options d c ∨
      ∃ e ss, statement.Passes options e c ∧ e.current.kind = .keyword .continuing ∧
        (block "for 'continuing' body").outcome options e.advance = .accepted ss d
  | _, _, _ => True

/-- Every block that is read passes over its statements. -/
theorem passesStatements (options : ReadOptions) (n : Nonterminal) (c : Cursor) :
    n.PassesStatements options c (n.outcome options c) := by
  refine outcome_of_holds (fun n c => ?_) n c
  cases n with
  | statements =>
    simp only [Production.ofNonterminal, Production.statements, Rule.steps_eq, Rule.holds_tree]
    split
    · rename_i hsemicolon
      simpa using fun _ _ _ => .semicolon hsemicolon
    · simpa using .here
    · simpa using .here
    · simpa using fun s d ho _ _ _ => .entry ho
  | loopBody =>
    simp only [Production.ofNonterminal, Production.loopBody, Rule.steps_eq, Rule.holds_tree]
    split
    · rename_i hsemicolon
      simp only [Rule.holds_tree, Rule.holds_steps, Outcome.ifAccepted_accepted, PassesStatements,
        exists_and_left, and_imp, Prod.forall, Outcome.ifAccepted_rejected, and_true, implies_true,
        true_and]
      rintro rest continuing d - (h | ⟨e, h, hcontinuing, hblock⟩)
      · exact .inl (.semicolon hsemicolon h)
      · exact .inr ⟨e, .semicolon hsemicolon h, hcontinuing, hblock⟩
    · simpa using .inl .here
    · rename_i hcontinuing
      simpa using fun ss d ho => .inr ⟨c, .here, hcontinuing, ss, ho⟩
    · simp only [Rule.holds_steps, and_true, Outcome.ifAccepted_accepted, PassesStatements,
        exists_and_left, and_imp, Prod.forall, Outcome.ifAccepted_rejected, implies_true, true_and]
      rintro s d ho rest continuing place - (h | ⟨e, h, hcontinuing, hblock⟩)
      · exact .inl (.entry ho h)
      · exact .inr ⟨e, .entry ho h, hcontinuing, hblock⟩
  | _ => exact Rule.Holds.trivial _ c

/-- The `}` of a block stands behind statements and `;`. -/
theorem passes_of_block {role : String} {ss : List Statement}
    (hc : c.current.kind = .symbol .braceLeft)
    (ho : (block role).outcome options c = .accepted ss d) :
    ∃ e, statement.Passes options e c.advance ∧ e.current.kind = .symbol .braceRight ∧
      d = e.advance := by
  rw [block_of_braceLeft hc] at ho
  cases hs : statements.outcome options c.advance with
  | rejected err e => simp [hs] at ho
  | accepted ss' e =>
    have hpasses := passesStatements options .statements c.advance ss' e hs
    by_cases hclose : e.current.kind = .symbol .braceRight
    · simp only [hs, Outcome.accepted_bind, hclose, ↓reduceIte, Outcome.accepted.injEq] at ho
      exact ⟨e, hpasses, hclose, ho.2.symm⟩
    · simp [hs, hclose] at ho

/-- The `}` of a `loop` stands behind statements and `;`, or directly behind the continuing block
that stands there. -/
theorem passes_of_loop {form : CompoundStatement} (hc : c.current.kind = .symbol .braceLeft)
    (ho : loop.outcome options c = .accepted form d) :
    ∃ e, e.current.kind = .symbol .braceRight ∧ d = e.advance ∧
      (statement.Passes options e c.advance ∨
        ∃ e' ss, statement.Passes options e' c.advance ∧
          e'.current.kind = .keyword .continuing ∧
          (block "for 'continuing' body").outcome options e'.advance = .accepted ss e) := by
  rw [loop_of_braceLeft hc] at ho
  cases hs : loopBody.outcome options c.advance with
  | rejected err e => simp [hs] at ho
  | accepted parts e =>
    have hpasses := passesStatements options .loopBody c.advance parts e hs
    by_cases hclose : e.current.kind = .symbol .braceRight
    · simp only [hs, Outcome.accepted_bind, hclose, ↓reduceIte, Outcome.accepted.injEq] at ho
      exact ⟨e, hclose, ho.2.symm, hpasses⟩
    · simp [hs, hclose] at ho

/-- In its braces, a body reads a list of statements. -/
theorem exists_lists_of_isBody {body : Nonterminal} (hbody : body.isBody) :
    ∃ list, Lists options list .statement ∧ ∃ close : list.Result → Cursor → Outcome body.Result,
      ∀ c, c.current.kind = .symbol .braceLeft →
        body.outcome options c = (list.outcome options c.advance).bind close := by
  cases body with
  | block place => exact ⟨_, lists_statements options, _, fun c hc => block_of_braceLeft hc⟩
  | loop => exact ⟨_, lists_loopBody options, _, fun c hc => loop_of_braceLeft hc⟩
  | _ => cases hbody

/-- Reading the nonterminal from a cursor reads another from another cursor: it is the other, or
what it reads for itself does. -/
inductive ReadsAt (options : ReadOptions) (target : Nonterminal) (d : Cursor) :
    Nonterminal → Cursor → Prop
  | here : ReadsAt options target d target d
  | read {n m : Nonterminal} {c e : Cursor} {k : m.Result → Production n.Result}
    (h : Production.Remains options (Rule.read m k) e (Production.ofNonterminal options n) c)
    (hm : ReadsAt options target d m e) : ReadsAt options target d n c

/-- What is read at a place is reached from where its reader began. -/
theorem ReadsAt.reaches {n target : Nonterminal} (h : ReadsAt options target d n c) :
    c.Reaches d := by
  induction h with
  | here => exact .refl d
  | read h _ ih => exact (h.reaches fun n c => n.outcome_reaches options c).trans ih

/-- What is read within what is read. -/
theorem ReadsAt.trans {n m target : Nonterminal} (h : ReadsAt options m d n c)
    (h' : ReadsAt options target e m d) : ReadsAt options target e n c := by
  induction h with
  | here => exact h'
  | read hremains _ ih => exact .read hremains ih

end Nonterminal

open Nonterminal in
/-- A place among the declarations of a module that begins at the start, or among the statements of
a body in it. -/
inductive Boundary (options : ReadOptions) (start place : Cursor) : Prop
  | inModule (h : declaration.Passes options place start)
  | inBody {body : Nonterminal} {d : Cursor} (hbody : body.isBody)
    (hread : ReadsAt options body d .declarations start)
    (hbrace : d.current.kind = .symbol .braceLeft)
    (h : statement.Passes options place d.advance)

open Nonterminal in
/-- The place between the continuing block of a `loop` and the `}` of the `loop`. -/
inductive BehindContinuing (options : ReadOptions) (start place : Cursor) : Prop
  | intro {d e : Cursor} {ss : List Statement} (hread : ReadsAt options .loop d .declarations start)
    (hbrace : d.current.kind = .symbol .braceLeft)
    (h : statement.Passes options e d.advance)
    (hcontinuing : e.current.kind = .keyword .continuing)
    (ho : (block "for 'continuing' body").outcome options e.advance = .accepted ss place)
    (hclose : place.current.kind = .symbol .braceRight)

open Nonterminal in
/-- The `}` of a body that is read in a module stands at one of these places. -/
theorem exists_place_of_isBody {options : ReadOptions} {body : Nonterminal} {start d e : Cursor}
    {a : body.Result} (hbody : body.isBody) (hread : ReadsAt options body d .declarations start)
    (hbrace : d.current.kind = .symbol .braceLeft) (ho : body.outcome options d = .accepted a e) :
    ∃ place, place.current.kind = .symbol .braceRight ∧ e = place.advance ∧
      (Boundary options start place ∨ BehindContinuing options start place) := by
  cases body with
  | block role =>
    obtain ⟨place, hpasses, hclose, rfl⟩ := passes_of_block hbrace ho
    exact ⟨place, hclose, rfl, .inl (.inBody hbody hread hbrace hpasses)⟩
  | loop =>
    obtain ⟨place, hclose, rfl, hpasses | ⟨e, ss, hpasses, hcontinuing, hblock⟩⟩ :=
      passes_of_loop hbrace ho
    · exact ⟨place, hclose, rfl, .inl (.inBody hbody hread hbrace hpasses)⟩
    · exact ⟨place, hclose, rfl, .inr (.intro hread hbrace hpasses hcontinuing hblock hclose)⟩
  | _ => cases hbody

end Wgsl
