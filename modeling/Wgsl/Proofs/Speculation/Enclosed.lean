import Wgsl.Proofs.Brackets.Grammar
import Wgsl.Proofs.Speculation.Ending

/-!
# Expressions in parentheses

An expression that ends before some tokens is the same expression before a `)`, whatever follows
that (`expression_outcome_of_enclosed`); so in parentheses it is an operand
(`unary_outcome_of_enclosed`). Inside angle brackets an expression ends before a `>`, and between
parentheses it would go on there. But it is not a `>` that follows now, so no more is read.

That as much is read before the `)` rests on attempts to read a type, which look as far as they
like: each is accepted before both or before neither (`beginsType_append_iff`). What is accepted in
front of the first tokens ends in the expression, since the expression has read past its name. What
is accepted before a `)` does not go past it, since the brackets of an expression are closed.
-/

namespace Wgsl

variable {options : ReadOptions} {us ts ts' : List Token} {l : Location} {n : Nonterminal}
variable {c : Cursor}

/-- What is read up to the end of the first tokens is read before a `)` as well. -/
theorem Nonterminal.outcome_before (hparted : Cursor.Parted us ts l)
    (hparted' : Cursor.Parted us ts' l) (hts : ts ≠ [])
    (hts' : (Cursor.before ts' l).current.kind = .symbol .parenRight) (hn : n.endsExpression)
    (hne : c.upcoming ≠ []) (hc : c.upcoming <:+ us) (hfresh : c.Fresh us)
    (hagrees : c.Agrees options us ts' ts l) {a : n.Result}
    (ho : n.outcome options (c.append ts l) = .accepted a (.before ts l)) :
    n.outcome options (c.append ts' l) = .accepted a (.before ts' l) :=
  outcome_before_of hparted hparted' hts (.inr hts')
    (fun _ hp => (Production.rests options hp).mono fun _ _ => Rule.restsAt_iff.1) hn hne hc hfresh
    hagrees ho

/-! ## Operations -/

namespace Nonterminal

variable {options : ReadOptions} {inAngles : Bool} {c d e : Cursor}

/-- Without a suffix, nothing more is read. -/
theorem suffixes_outcome_of_not_isSuffix {base : Expression}
    (h : c.current.kind.isSuffix = false) :
    (suffixes base).outcome options c = .accepted base c := by
  rw [outcome_eq]
  simp only [Production.suffixes, Production.ofNonterminal, Rule.bind_eq, Rule.current_eq,
    Rule.look_bind, Rule.done_bind, Rule.follow_look]
  split
  · simp_all
  · simp_all
  · simp_all
  · rfl

/-- A primary expression without a suffix is an operand. -/
theorem unary_outcome_of_primary {e : Expression} (hunary : c.current.kind.unary? = none)
    (ho : primary.outcome options c = .accepted e d) (hsuffix : d.current.kind.isSuffix = false) :
    unary.outcome options c = .accepted e d := by
  have hsuffixed : suffixed.outcome options c = .accepted e d := by
    rw [outcome_eq]
    simpa [Production.suffixed, ho] using suffixes_outcome_of_not_isSuffix hsuffix
  rw [outcome_eq]
  simpa [Production.unary, hunary] using hsuffixed

/-- An expression is an operand and the operations behind it. -/
theorem expression_outcome_eq (options : ReadOptions) (inAngles : Bool) (c : Cursor) :
    (expression inAngles).outcome options c =
      (unary.outcome options c).bind fun first d =>
        ((operations inAngles).outcome options d).bind fun chain e =>
          .accepted (.ofChain first chain) e := by
  rw [outcome_eq]
  simp [Production.expression, Rule.follow_read]

/-- Operations are an operator, an operand and further operations, or none. -/
theorem operations_outcome_of_operator {op : InfixOperator}
    (hop : c.current.kind.infix? = some op) (hcloses : ¬(inAngles ∧ c.current.kind.closesAngle)) :
    (operations inAngles).outcome options c =
      (unary.outcome options c.advance).bind fun operand d =>
        ((operations inAngles).outcome options d).bind fun chain e =>
          .accepted (⟨op, c.current.location, operand⟩ :: chain) e := by
  rw [outcome_eq]
  simp [Production.operations, Rule.follow_read, hop, hcloses]

/-- Where an expression ends no operator follows. -/
theorem operations_outcome_of_ends (h : c.current.kind.Ends inAngles) :
    (operations inAngles).outcome options c = .accepted [] c := by
  rw [outcome_eq]
  rcases h with hnone | ⟨hangles, hcloses⟩
  · simp [Production.operations, hnone]
  · simp only [Production.operations, Production.ofNonterminal, Rule.bind_eq, Rule.current_eq,
      Rule.look_bind, Rule.follow_look, Rule.done_bind]
    split <;> simp [hangles, hcloses]

/-- Operations that end at a place, and those that go on from there, are operations. -/
theorem operations_outcome_append {chain rest : List Operation}
    (ho : (operations inAngles).outcome options c = .accepted chain d)
    (hrest : (operations false).outcome options d = .accepted rest e) :
    (operations false).outcome options c = .accepted (chain ++ rest) e := by
  induction hm : c.measure using Nat.strongRecOn generalizing c chain with
  | ind m ih =>
    by_cases hends : c.current.kind.Ends inAngles
    · rw [operations_outcome_of_ends hends] at ho
      cases ho
      exact hrest
    · obtain ⟨hop, hcloses⟩ := not_or.1 hends
      obtain ⟨op, hop⟩ := Option.ne_none_iff_exists'.1 hop
      rw [operations_outcome_of_operator hop hcloses] at ho
      rw [operations_outcome_of_operator hop (by simp)]
      cases hunary : unary.outcome options c.advance with
      | rejected err f => simp [hunary] at ho
      | accepted operand f =>
        rw [hunary, Outcome.accepted_bind] at ho
        cases hmore : (operations inAngles).outcome options f with
        | rejected err g => simp [hmore] at ho
        | accepted more g =>
          rw [hmore, Outcome.accepted_bind] at ho
          cases ho
          have hreaches := unary.outcome_reaches options c.advance
          rw [hunary] at hreaches
          have hlt := Cursor.measure_advance_lt (TokenKind.ne_endOfFile_of_infix? hop)
          have := hreaches.measure_le
          simp only [Outcome.cursor_accepted] at this
          rw [Outcome.accepted_bind, ih f.measure (by omega) hmore rfl, Outcome.accepted_bind,
            List.cons_append]

end Nonterminal

/-! ## Types in an expression -/

/-- What ends an expression and is no suffix is no `<` or `(`. -/
theorem TokenKind.Ends.parts {inAngles : Bool} {k : TokenKind} (h : k.Ends inAngles)
    (hsuffix : k.isSuffix = false) : k.parts = false := by
  cases k with
  | symbol mark => cases mark <;> simp_all [Ends, infix?, closesAngle, InfixOperator.ofSymbol?]
  | _ => rfl

/-- A closing bracket closes nothing where nothing is open. -/
theorem nest_nil_of_parenRight (ks : List TokenKind) :
    nest [] (.symbol .parenRight :: ks) = none := by
  rw [nest, List.foldlM_cons]
  rfl

/-- What is accepted among tokens with nested brackets does not go past a `)` behind them. -/
theorem Nonterminal.eq_before_of_outcome {closing : Token} {d : Cursor} {a : n.Result}
    (hnest : nest [] (us.map (·.kind)) = some []) (hc : c.upcoming <:+ us)
    (hclosing : closing.kind = .symbol .parenRight)
    (ho : n.outcome options (c.append (closing :: ts) l) = .accepted a d)
    (hle : d.upcoming.length ≤ (closing :: ts).length) : d = .before (closing :: ts) l := by
  have hreaches := n.outcome_reaches options (c.append (closing :: ts) l)
  rw [ho] at hreaches
  have hsplit : (Cursor.before (closing :: ts) l).current.afterAngle? = none := by
    simp [Token.afterAngle?, hclosing, Symbol.afterAngle?]
  refine (((hreaches.of_before hle).eq_or_advance hsplit).resolve_right fun hbeyond => ?_).symm
  obtain ⟨past, hpast⟩ := hc
  obtain ⟨mid, hmid⟩ : d.upcoming <:+ ts := hbeyond.suffix
  rw [← hpast, List.map_append, nest_append] at hnest
  obtain ⟨o, -, hopen⟩ := Option.bind_eq_some_iff.1 hnest
  obtain ⟨ks, hks, hclosed⟩ := outcome_nests ho o
  have hks' : ks = c.kinds ++ (.symbol .parenRight :: mid.map (·.kind)) := by
    refine List.append_cancel_right (hks.symm.trans ?_)
    simp only [Cursor.kinds, Cursor.upcoming_append, ← hmid, ← hclosing]
    simp
  rw [hks', nest_append, Cursor.kinds, hopen, Option.bind_some, nest_nil_of_parenRight] at hclosed
  cases hclosed

section Types

variable {inAngles : Bool} {v : Expression} {closing : Token}
variable (hts : ts ≠ []) (hclosing : closing.kind = .symbol .parenRight)
variable (ho : (Nonterminal.expression inAngles).outcome options (.before (us ++ ts) l) =
  .accepted v (.before ts l))

section

include hclosing

/-- A `)` is no `<` or `(`, whatever it follows. -/
theorem parted_of_parenRight : Cursor.Parted us (closing :: ts') l := fun t _ _ => by
  simp [hclosing]

end

include ho

/-- Nor is what ends an expression. -/
theorem parted_of_expression : Cursor.Parted us ts l := by
  intro t _ _
  obtain ⟨hsuffix, hends⟩ := Nonterminal.endsBefore options (.expression inAngles) _ _ _ ho
  exact hends.parts hsuffix

/-- An expression has tokens. -/
theorem ne_nil_of_expression : us ≠ [] := by
  rintro rfl
  have hwithin := @Nonterminal.outcome_within options (.expression inAngles) (.before ts l)
  rw [List.nil_append] at ho
  simp [ho] at hwithin

/-- The brackets among the tokens of an expression are closed. -/
theorem nest_of_expression : nest [] (us.map (·.kind)) = some [] := by
  obtain ⟨ks, hks, hnest⟩ := Nonterminal.outcome_nests ho []
  simp only [Cursor.kinds, Cursor.before, List.map_append] at hks
  rwa [List.append_cancel_right hks]

/-- A type that is accepted in an expression ends in it. -/
theorem exists_append_of_constructorType {x y : Cursor} {made : TypeSpecifier}
    (hx : (Cursor.before us l).Reaches x) (hdoubtful : x.Doubtful us)
    (hmade : Nonterminal.constructorType.outcome options (x.append ts l) = .accepted made y) :
    ∃ d : Cursor, y = d.append ts l ∧ d.upcoming ≠ [] := by
  have hlength := Cursor.length_lt_append ts l hdoubtful.ne_nil
  have hbegin : (Cursor.before (us ++ ts) l).Reaches (x.append ts l) := by
    rw [← Cursor.before_append us ts l l]
    exact hx.append hdoubtful.ne_nil
  have hne : x.append ts l ≠ .before ts l := fun heq => by simp [heq, Cursor.before] at hlength
  have hpasses := (Nonterminal.expression inAngles).outcome_comesPast options (us ++ ts)
    (.before (us ++ ts) l) (List.suffix_refl _) (Cursor.fresh_before _ l) _ y made
    (hdoubtful.append ts l) hmade hbegin
  rw [ho] at hpasses
  have hy : y.Reaches (.before ts l) := by
    refine (hpasses (x.reaches_before ts l) hne).resolve_right fun h => ?_
    cases h.2 v _ rfl
  obtain ⟨hsuffix, -⟩ := Nonterminal.endsBefore options (.expression inAngles) _ _ _ ho
  have hparen := (Nonterminal.constructorType_eq_accepted.1 hmade).2
  have hbefore : y ≠ .before ts l := by
    rintro rfl
    simp [hparen] at hsuffix
  have hlt := hy.measure_lt hbefore
  have hreaches := Nonterminal.constructorType.outcome_reaches options (x.append ts l)
  rw [hmade] at hreaches
  obtain ⟨d, rfl, hd, -⟩ := hreaches.exists_append (by
    simp only [Cursor.measure, Cursor.before] at hlt
    change ts.length < y.upcoming.length
    omega)
  exact ⟨d, rfl, hd⟩

include hclosing

/-- In an expression, a type is accepted before what follows it if one is before a `)`. -/
theorem beginsType_append_iff {x : Cursor} (hx : (Cursor.before us l).Reaches x)
    (hdoubtful : x.Doubtful us) :
    (x.append ts l).BeginsType options ↔ (x.append (closing :: ts') l).BeginsType options := by
  have hparted := parted_of_expression ho
  have hparted' : Cursor.Parted us (closing :: ts') l := parted_of_parenRight hclosing
  induction hm : x.measure using Nat.strongRecOn generalizing x with
  | ind m ih =>
    have hlater : ∀ y, x.advance.advance.Reaches y → y.Doubtful us →
        ((y.append ts l).BeginsType options ↔
          (y.append (closing :: ts') l).BeginsType options) := by
      intro y hy hdoubtful'
      have hlt := hy.measure_le
      obtain ⟨name, hname⟩ := hdoubtful.exists_name
      have := Cursor.measure_advance_lt (c := x) (by simp [hname])
      have := Cursor.measure_advance_le x.advance
      exact ih y.measure (by omega) (hx.trans hy.of_advance.of_advance) hdoubtful' rfl
    have hsuffix : x.upcoming <:+ us := hx.suffix
    constructor
    · rintro ⟨made, y, hmade⟩
      obtain ⟨d, rfl, hd⟩ := exists_append_of_constructorType ho hx hdoubtful hmade
      exact ⟨made, _, Nonterminal.constructorType_append hparted hparted' hsuffix hdoubtful
        (fun y hy _ hdoubtful' => (hlater y hy hdoubtful').2) hd hmade⟩
    · rintro ⟨made, y, hmade⟩
      have hreaches := Nonterminal.constructorType.outcome_reaches options
        (x.append (closing :: ts') l)
      rw [hmade] at hreaches
      have hlt : (closing :: ts').length < y.upcoming.length := by
        by_contra hle
        obtain rfl := Nonterminal.eq_before_of_outcome (nest_of_expression ho) hsuffix hclosing
          hmade (Nat.le_of_not_lt hle)
        have hparen := (Nonterminal.constructorType_eq_accepted.1 hmade).2
        simp [hclosing] at hparen
      obtain ⟨d, rfl, hd, -⟩ := hreaches.exists_append hlt
      exact ⟨made, _, Nonterminal.constructorType_append hparted' hparted hsuffix hdoubtful
        (fun y hy _ hdoubtful' => (hlater y hy hdoubtful').1) hd hmade⟩

include hts

/-- What an expression is, it is before a `)`, and outside of angle brackets. -/
theorem expression_outcome_of_enclosed (ts' : List Token) :
    (Nonterminal.expression false).outcome options (.before (us ++ closing :: ts') l) =
      .accepted v (.before (closing :: ts') l) := by
  have hne := ne_nil_of_expression ho
  have hsame : (Nonterminal.expression inAngles).outcome options
      (.before (us ++ closing :: ts') l) = .accepted v (.before (closing :: ts') l) := by
    have hparted := parted_of_expression ho
    have hagrees : (Cursor.before us l).Agrees options us (closing :: ts') ts l :=
      fun x hx _ hdoubtful => (beginsType_append_iff hclosing ho hx hdoubtful).2
    rw [← Cursor.before_append us _ l l] at ho ⊢
    exact Nonterminal.outcome_before hparted (parted_of_parenRight hclosing) hts hclosing rfl hne
      (List.suffix_refl _) (Cursor.fresh_before us l) hagrees ho
  rw [Nonterminal.expression_outcome_eq] at hsame ⊢
  cases hunary : Nonterminal.unary.outcome options (.before (us ++ closing :: ts') l) with
  | rejected err d => simp [hunary] at hsame
  | accepted first d =>
    rw [hunary, Outcome.accepted_bind] at hsame
    cases hmore : (Nonterminal.operations inAngles).outcome options d with
    | rejected err d => simp [hmore] at hsame
    | accepted chain e =>
      rw [hmore, Outcome.accepted_bind] at hsame
      cases hsame
      have hend : (Nonterminal.operations false).outcome options (.before (closing :: ts') l) =
          .accepted [] (.before (closing :: ts') l) :=
        Nonterminal.operations_outcome_of_ends (.inl (by rw [Cursor.current_before, hclosing]; rfl))
      rw [Outcome.accepted_bind, Nonterminal.operations_outcome_append hmore hend,
        Outcome.accepted_bind, List.append_nil]

/-- In parentheses, it is an operand, where no suffix stands behind them. They are seen on it if
they are kept. -/
theorem unary_outcome_of_enclosed {opening : Token} (hopening : opening.kind = .symbol .parenLeft)
    (hsuffix : (Cursor.before ts' l).current.kind.isSuffix = false) :
    Nonterminal.unary.outcome options (.before (opening :: (us ++ closing :: ts')) l) =
      .accepted (if options.keepParentheses then .grouped v opening.location else v)
        (.before ts' l) := by
  have hinner := expression_outcome_of_enclosed hts hclosing ho ts'
  refine Nonterminal.unary_outcome_of_primary ?_ ?_ hsuffix
  · rw [Cursor.current_before, hopening]
    rfl
  · rw [Nonterminal.outcome_eq]
    simp [Production.primary, hopening, hinner, hclosing]

end Types

end Wgsl
