import Wgsl.Proofs.Origin
import Wgsl.Proofs.Redundant.Filling
import Wgsl.Proofs.Spelling.Piece

/-!
# What a bitcast is written with

A bitcast is read as a type named `bitcast`, and only then is its target taken from the parameters.
So it is written as any type with parameters may be: behind the target there may stand a further
argument, a name or an expression that begins with a number, and of that the tree keeps nothing
(`Nonterminal.constructs_bitcast_iff`). Apart from it nothing is lost. Every bitcast of a module
stands somewhere in the tokens with exactly its target and its value between the word, the angles
and the parentheses (`Module.writesBitcast_of_ofTokens`).
-/

namespace Wgsl

open Spelling

/-- A further argument of type parameters stands between two places: behind a comma a name, or an
expression that begins with a number. -/
inductive FurtherArgument (options : ReadOptions) (c : Cursor) : Cursor → Prop
  | name {n : String} (hcomma : c.current.kind = .symbol .comma)
      (hname : c.advance.current.kind = .identifier n) :
      FurtherArgument options c c.advance.advance
  | count {e : Expression} {c' : Cursor} (hcomma : c.current.kind = .symbol .comma)
      (hnumber : c.advance.current.kind.isNumber)
      (hcount : (Nonterminal.expression true).outcome options c.advance = .accepted e c') :
      FurtherArgument options c c'

private theorem furtherArgument_iff_of_number {options : ReadOptions} {c c' : Cursor}
    (hcomma : c.current.kind = .symbol .comma) (hnumber : c.advance.current.kind.isNumber) :
    FurtherArgument options c c' ↔
      ∃ e, (Nonterminal.expression true).outcome options c.advance = .accepted e c' := by
  constructor
  · rintro (⟨-, hname⟩ | ⟨-, -, hcount⟩)
    · simp [hname, TokenKind.isNumber] at hnumber
    · exact ⟨_, hcount⟩
  · rintro ⟨e, hcount⟩
    exact .count hcomma hnumber hcount

private theorem furtherArgument_iff_of_not_number {options : ReadOptions} {c c' : Cursor}
    (hcomma : c.current.kind = .symbol .comma) (hnumber : ¬c.advance.current.kind.isNumber) :
    FurtherArgument options c c' ↔
      ∃ n, c.advance.current.kind = .identifier n ∧ c.advance.advance = c' := by
  constructor
  · rintro (⟨-, hname⟩ | ⟨-, h, -⟩)
    · exact ⟨_, hname, rfl⟩
    · exact absurd h hnumber
  · rintro ⟨n, hname, rfl⟩
    exact .name hcomma hname

/-- A bitcast is written between two places: the word with an angle, the tokens of the target, what
may stand `behindTarget`, the closing angle and a parenthesis, the tokens of the value, and the
closing parenthesis. Before each closing bracket there may be a comma. -/
def Cursor.WritesBitcast (options : ReadOptions) (behindTarget : Cursor → Cursor → Prop)
    (target : TypeSpecifier) (value : Expression) (l : Location) (c c' : Cursor) : Prop :=
  ∃ opened targetEnd closed valueBegin valueEnd,
    c.Reads (word "bitcast" l * mark .lessThan) opened ∧
    Nonterminal.type.outcome options opened = .accepted target targetEnd ∧
    behindTarget targetEnd closed ∧
    closed.Reads (closing * mark .parenLeft) valueBegin ∧
    (Nonterminal.expression false).outcome options valueBegin = .accepted value valueEnd ∧
    valueEnd.Reads (optional (mark .comma) * mark .parenRight) c'

namespace Nonterminal

variable {options : ReadOptions} {c c' : Cursor}

/-! ## Parameters -/

private theorem closeAngle_eq_accepted_iff {e : ParseError} :
    (if c.current.kind = .symbol .greaterThan then Outcome.accepted () c.advance
      else if c.current.afterAngle?.isSome then .accepted () c.split else .rejected e c) =
        .accepted () c' ↔
      c.current.kind = .symbol .greaterThan ∧ c.advance = c' ∨
        c.current.afterAngle?.isSome ∧ c.split = c' := by
  by_cases hangle : c.current.kind = .symbol .greaterThan
  · have hnone : c.current.afterAngle? = none := by
      simp [Token.afterAngle?, hangle, Symbol.afterAngle?]
    simp [hangle, hnone]
  · by_cases hsplit : c.current.afterAngle?.isSome
    · simp [hangle, hsplit]
    · simp [hangle, hsplit]

private theorem follow_closeParameters_iff {name : String} :
    (Production.closeParameters name).follow (fun n c => n.outcome options c) c = .accepted () c' ↔
      c.Reads closing c' := by
  by_cases hcomma : c.current.kind = .symbol .comma
  · have hangle : c.current.afterAngle? = none := by
      simp [Token.afterAngle?, hcomma, Symbol.afterAngle?]
    simp only [Production.closeParameters, Rule.follow_steps, hcomma, closing, Cursor.reads_mul,
      Cursor.reads_optional, Cursor.reads_mark, true_and, Cursor.reads_angle, exists_eq_or_imp',
      TokenKind.symbol.injEq, reduceCtorEq, false_and, hangle, Option.isSome_none, ↓existsAndEq,
      false_or]
    exact closeAngle_eq_accepted_iff
  · simp only [Production.closeParameters, Rule.follow_steps, hcomma, closing, Cursor.reads_mul,
      Cursor.reads_optional, Cursor.reads_mark, false_and, or_false, Cursor.reads_angle,
      exists_eq_left']
    exact closeAngle_eq_accepted_iff

/-- Behind a comma, only a closing angle closes parameters. -/
theorem reads_closing_of_comma_iff (hcomma : c.current.kind = .symbol .comma) :
    c.Reads closing c' ↔ c.advance.Reads angle c' := by
  have hangle : c.current.afterAngle? = none := by
    simp [Token.afterAngle?, hcomma, Symbol.afterAngle?]
  simp [closing, hcomma, hangle]

private theorem closesAngle_of_reads_angle (h : c.Reads angle c') : c.current.kind.closesAngle := by
  rcases Cursor.reads_angle.1 h with ⟨hangle, -⟩ | ⟨hangle, -⟩
  · simp [hangle, TokenKind.closesAngle]
  · obtain ⟨rest, hrest⟩ := Option.isSome_iff_exists.1 hangle
    obtain ⟨mark, left, hmark, hleft, -⟩ := Token.afterAngle?_eq_some_iff.1 hrest
    rw [hmark]
    cases mark <;> first | rfl | cases hleft

/-- The comma before a closing angle may be left out. -/
theorem reads_closing_advance (hcomma : c.current.kind = .symbol .comma)
    (hcloses : c.advance.current.kind.closesAngle) :
    c.advance.Reads closing c' ↔ c.Reads closing c' := by
  have hne : c.advance.current.kind ≠ .symbol .comma := by
    intro hcomma'
    simp [hcomma', TokenKind.closesAngle] at hcloses
  rw [reads_closing_of_comma_iff hcomma]
  simp [closing, hne]

private theorem follow_closeParameters_bind_iff {name : String} {p q : TypeParameters} :
    (((Production.closeParameters name).follow (fun n c => n.outcome options c) c).bind
      fun _ c' => .accepted p c') = .accepted q c' ↔ p = q ∧ c.Reads closing c' := by
  rw [← @follow_closeParameters_iff options c c' name]
  cases (Production.closeParameters name).follow (fun n c => n.outcome options c) c <;>
    simp [and_comm]

/-- No further argument stands where a comma, if there is one, stands before the closing angle. -/
private theorem not_furtherArgument_of_ended {closed : Cursor}
    (hended : c.current.kind = .symbol .comma → c.advance.current.kind.closesAngle) :
    ¬FurtherArgument options c closed := by
  rintro (⟨hcomma, hname⟩ | ⟨hcomma, hnumber, -⟩)
  · simpa [hname, TokenKind.closesAngle] using hended hcomma
  · have hcloses := hended hcomma
    cases hkind : c.advance.current.kind <;>
      simp [hkind, TokenKind.closesAngle, TokenKind.isNumber] at hcloses hnumber

section Element

variable {name : String} {element target : TypeSpecifier} {d : Cursor}

/-- Where no comma stands behind the first parameter, or only one before the closing angle, the
parameters end there. -/
private theorem typeParameters_of_ended (hpointer : name ≠ "ptr")
    (helement : Nonterminal.type.outcome options c = .accepted element d)
    (hended : d.current.kind = .symbol .comma → d.advance.current.kind.closesAngle) :
    (∃ p, (typeParameters name).outcome options c = .accepted p c' ∧ p.type? = some target) ↔
      element = target ∧ d.Reads closing c' := by
  rw [outcome_eq]
  by_cases hcomma : d.current.kind = .symbol .comma
  · have hcloses := hended hcomma
    simp only [Production.ofNonterminal, Production.typeParameters, hpointer, ↓reduceIte,
      Rule.follow_steps, helement, Production.follow_furtherParameter, hcomma, hcloses,
      Bool.not_true, Bool.false_eq_true, follow_closeParameters_bind_iff,
      reads_closing_advance hcomma hcloses, ↓existsAndEq, TypeParameters.type?, Option.some.injEq,
      true_and]
    exact and_comm
  · simp only [Production.ofNonterminal, Production.typeParameters, hpointer, ↓reduceIte,
      Rule.follow_steps, helement, Production.follow_furtherParameter, hcomma, Bool.false_eq_true,
      follow_closeParameters_bind_iff, ↓existsAndEq, TypeParameters.type?, Option.some.injEq,
      true_and]
    exact and_comm

/-- Where a comma behind the first parameter does not close the parameters, a further argument
follows it. -/
private theorem typeParameters_of_comma (hpointer : name ≠ "ptr")
    (harray : namesArray name = false)
    (helement : Nonterminal.type.outcome options c = .accepted element d)
    (hcomma : d.current.kind = .symbol .comma) (hcloses : ¬d.advance.current.kind.closesAngle) :
    (∃ p, (typeParameters name).outcome options c = .accepted p c' ∧ p.type? = some target) ↔
      element = target ∧ ∃ closed, FurtherArgument options d closed ∧ closed.Reads closing c' := by
  rw [outcome_eq]
  by_cases hnumber : d.advance.current.kind.isNumber
  · have hfurther := @furtherArgument_iff_of_number options d
    cases hcount : (expression true).outcome options d.advance with
    | rejected e d' =>
      simp [Production.typeParameters, hpointer, helement, hcomma, hcloses, hnumber, hcount,
        hfurther]
    | accepted count d' =>
      simp only [Production.ofNonterminal, Production.typeParameters, hpointer, ↓reduceIte,
        Bool.or_eq_true, Rule.follow_steps, helement, Production.follow_furtherParameter, hcomma,
        hcloses, Bool.not_false, hnumber, or_true, hcount, follow_closeParameters_bind_iff,
        TypeParameters.type?, ↓existsAndEq, Option.some.injEq, true_and, hfurther hcomma hnumber,
        Outcome.accepted.injEq]
      exact and_comm
  · have hfurther (closed : Cursor) :=
      @furtherArgument_iff_of_not_number options d closed hcomma hnumber
    cases hkind : d.advance.current.kind with
    | identifier n =>
      simp only [hkind, TokenKind.identifier.injEq, exists_eq_left'] at hfurther
      rw [hkind] at hcloses hnumber
      simp only [Production.ofNonterminal, Production.typeParameters, hpointer, ↓reduceIte,
        harray, Bool.false_or, Rule.follow_steps, helement, Production.follow_furtherParameter,
        hcomma, hkind, hcloses, Bool.not_false, hnumber, Bool.false_eq_true,
        follow_closeParameters_bind_iff, TypeParameters.type?, ↓existsAndEq, Option.some.injEq,
        true_and, hfurther]
      exact and_comm
    | _ =>
      rw [hkind] at hcloses hnumber
      simp [Production.typeParameters, hpointer, helement, hcomma, hcloses, harray, hnumber, hkind,
        Rule.follow_ite, hfurther]

/-- The parameters of a type that is no pointer and no array are one type, perhaps with a further
argument. -/
theorem typeParameters_eq_element_iff (hpointer : name ≠ "ptr") (harray : namesArray name = false) :
    (∃ p, (typeParameters name).outcome options c = .accepted p c' ∧ p.type? = some target) ↔
      ∃ d closed, Nonterminal.type.outcome options c = .accepted target d ∧
        (closed = d ∨ FurtherArgument options d closed) ∧ closed.Reads closing c' := by
  cases helement : Nonterminal.type.outcome options c with
  | rejected e d =>
    rw [outcome_eq]
    simp [Production.typeParameters, hpointer, helement]
  | accepted element d =>
    simp only [Outcome.accepted.injEq, and_assoc, ↓existsAndEq, true_and]
    by_cases hended : d.current.kind = .symbol .comma → d.advance.current.kind.closesAngle
    · have hnone (closed : Cursor) : ¬FurtherArgument options d closed :=
        not_furtherArgument_of_ended hended
      simp [typeParameters_of_ended hpointer helement hended, hnone]
    · obtain ⟨hcomma, hcloses⟩ := Classical.not_imp.1 hended
      have hnone : ¬d.Reads closing c' := fun h => hcloses (closesAngle_of_reads_angle
        ((reads_closing_of_comma_iff hcomma).1 h))
      simp [typeParameters_of_comma hpointer harray helement hcomma hcloses, or_and_right,
        exists_or, hnone]

end Element

/-! ## Arguments -/

/-- No expressions are read before a closing parenthesis, and only there. -/
theorem expressions_eq_nil_iff :
    Nonterminal.expressions.outcome options c = .accepted [] c' ↔
      c.current.kind = .symbol .parenRight ∧ c = c' := by
  rw [outcome_eq]
  by_cases hclose : c.current.kind = .symbol .parenRight
  · simp [Production.expressions, hclose]
  · simp only [Production.ofNonterminal, Production.expressions, Rule.follow_steps, hclose,
      decide_false, Bool.false_eq_true, ↓reduceIte]
    cases (Nonterminal.expression false).outcome options c with
    | accepted e d =>
      by_cases hcomma : d.current.kind = .symbol .comma
      · cases hes : Nonterminal.expressions.outcome options d.advance <;> simp [hcomma, hes]
      · simp [hcomma]
    | rejected e d => simp

private theorem expressions_eq_singleton_iff {e : Expression} :
    Nonterminal.expressions.outcome options c = .accepted [e] c' ↔
      c.current.kind ≠ .symbol .parenRight ∧ ∃ d,
        (Nonterminal.expression false).outcome options c = .accepted e d ∧
        (d.current.kind ≠ .symbol .comma ∧ d = c' ∨
          d.current.kind = .symbol .comma ∧
            Nonterminal.expressions.outcome options d.advance = .accepted [] c') := by
  rw [outcome_eq]
  by_cases hclose : c.current.kind = .symbol .parenRight
  · simp [Production.expressions, hclose]
  · cases he : (Nonterminal.expression false).outcome options c with
    | accepted e d =>
      by_cases hcomma : d.current.kind = .symbol .comma
      · cases hes : Nonterminal.expressions.outcome options d.advance with
        | accepted es d' =>
          simp only [Production.ofNonterminal, Production.expressions, Rule.follow_steps, hclose,
            decide_false, Bool.false_eq_true, ↓reduceIte, he, hcomma, hes]
          grind
        | rejected e' d' => simp [Production.expressions, hclose, he, hcomma, hes]
      · simp [Production.expressions, hclose, he, hcomma]
    | rejected e d => simp [Production.expressions, hclose, he]

/-- One argument in parentheses may have a comma behind it. -/
theorem arguments_eq_singleton_iff {e : Expression} :
    Nonterminal.arguments.outcome options c = .accepted [e] c' ↔
      c.current.kind = .symbol .parenLeft ∧ ∃ d,
        (Nonterminal.expression false).outcome options c.advance = .accepted e d ∧
          d.Reads (optional (mark .comma) * mark .parenRight) c' := by
  rw [arguments_eq_accepted_iff]
  refine and_congr_right fun _ => ?_
  constructor
  · rintro ⟨d, hsingle, hclose, rfl⟩
    obtain ⟨-, d', he, ⟨-, rfl⟩ | ⟨hcomma, hnil⟩⟩ := expressions_eq_singleton_iff.1 hsingle
    · exact ⟨_, he, by simp [hclose]⟩
    · obtain ⟨hclose, rfl⟩ := expressions_eq_nil_iff.1 hnil
      exact ⟨d', he, by simp [hcomma, hclose]⟩
  · rintro ⟨d, he, hclose⟩
    have hparen : (TokenKind.symbol .parenRight).beginsOperand = false := rfl
    have hbegins := TokenKind.ne_symbol_of_beginsOperand
      (beginsOperand options (.expression false) _ _ _ he) hparen
    rw [Cursor.reads_mul] at hclose
    simp only [Cursor.reads_optional, Cursor.reads_mark] at hclose
    obtain ⟨d', rfl | ⟨hcomma, rfl⟩, hclose, rfl⟩ := hclose
    · have hends : d.current.kind ≠ .symbol .comma := by simp [hclose]
      exact ⟨d, expressions_eq_singleton_iff.2 ⟨hbegins, d, he, .inl ⟨hends, rfl⟩⟩, hclose, rfl⟩
    · have hnil := (@expressions_eq_nil_iff options d.advance _).2 ⟨hclose, rfl⟩
      exact ⟨d.advance, expressions_eq_singleton_iff.2 ⟨hbegins, d, he, .inr ⟨hcomma, hnil⟩⟩,
        hclose, rfl⟩

/-! ## Bitcasts -/

private theorem construction_eq_bitcast_iff {made target : TypeSpecifier} {value : Expression}
    {l l' : Location} :
    (Nonterminal.construction made l).outcome options c = .accepted (.bitcast target value l') c' ↔
      made.bitcastTarget? = some target ∧
        Nonterminal.arguments.outcome options c = .accepted [value] c' ∧ l = l' := by
  rw [outcome_eq]
  cases hes : Nonterminal.arguments.outcome options c with
  | rejected e d => simp [Production.construction, hes]
  | accepted es d =>
    cases htarget : made.bitcastTarget? with
    | none => simp [Production.construction, hes, htarget]
    | some t =>
      rcases es with _ | ⟨e, _ | ⟨e', es⟩⟩
      · simp [Production.construction, hes, htarget]
      · simp only [Production.ofNonterminal, Production.construction, htarget, Rule.follow_steps,
          hes]
        grind
      · simp [Production.construction, hes, htarget]

/-- A bitcast is built exactly where it is written, with or without a further argument. -/
theorem constructs_bitcast_iff {target : TypeSpecifier} {value : Expression} {l : Location} :
    Constructs options c (.bitcast target value l) c' ↔
      c.WritesBitcast options Eq target value l c' ∨
        c.WritesBitcast options (FurtherArgument options) target value l c' := by
  constructor
  · rintro ⟨⟨n, hname⟩, hless, made, d, hmade, hbuilt⟩
    rw [Cursor.following_eq] at hless
    obtain ⟨htarget, harguments, hl⟩ := construction_eq_bitcast_iff.1 hbuilt
    obtain ⟨⟨p, hp, rfl⟩, hopen⟩ := (constructorType_eq_accepted_of_less hname hless).1 hmade
    obtain ⟨rfl, htype⟩ := TypeSpecifier.bitcastTarget?_eq_some_iff.1 htarget
    obtain ⟨typed, closed, ht, hbehind, hclosing⟩ :=
      (typeParameters_eq_element_iff (by decide) rfl).1 ⟨p, hp, htype⟩
    obtain ⟨-, valued, hvalue, hend⟩ := arguments_eq_singleton_iff.1 harguments
    have hword : c.Reads (word "bitcast" l * mark .lessThan) c.advance.advance := by
      simpa [hless] using hl ▸ Token.eq_mk_location.2 hname
    have hclosed : closed.Reads (closing * mark .parenLeft) d.advance := by
      rw [Cursor.reads_mul]
      exact ⟨d, hclosing, Cursor.reads_mark.2 ⟨hopen, rfl⟩⟩
    rcases hbehind with rfl | hbehind
    · exact .inl ⟨_, _, _, _, _, hword, ht, rfl, hclosed, hvalue, hend⟩
    · exact .inr ⟨_, _, _, _, _, hword, ht, hbehind, hclosed, hvalue, hend⟩
  · intro h
    -- whatever stands behind the target, the parameters are read to the closing angle
    obtain ⟨opened, typed, closed, begun, valued, hword, ht, hbehind, hclosed, hvalue, hend⟩ :
        c.WritesBitcast options (fun d e => e = d ∨ FurtherArgument options d e) target value l
          c' := by
      rcases h with ⟨o, t, _, v, w, hword, ht, rfl, h⟩ | ⟨o, t, p, v, w, hword, ht, hfurther, h⟩
      · exact ⟨o, t, t, v, w, hword, ht, .inl rfl, h⟩
      · exact ⟨o, t, p, v, w, hword, ht, .inr hfurther, h⟩
    simp only [Cursor.reads_mul, Cursor.reads_word, Cursor.reads_mark] at hword hclosed
    obtain ⟨_, ⟨hcurrent, rfl⟩, hless, rfl⟩ := hword
    obtain ⟨d, hclosing, hopen, rfl⟩ := hclosed
    have hname : c.current.kind = .identifier "bitcast" := by rw [hcurrent]
    have hpointer : "bitcast" ≠ "ptr" := by decide
    obtain ⟨p, hp, htype⟩ :=
      (typeParameters_eq_element_iff hpointer rfl).2 ⟨typed, closed, ht, hbehind, hclosing⟩
    refine ⟨⟨_, hname⟩, (Cursor.following_eq c).trans hless, _, d,
      (constructorType_eq_accepted_of_less hname hless).2 ⟨⟨p, hp, rfl⟩, hopen⟩, ?_⟩
    exact construction_eq_bitcast_iff.2 ⟨TypeSpecifier.bitcastTarget?_eq_some_iff.2 ⟨rfl, htype⟩,
      arguments_eq_singleton_iff.2 ⟨hopen, valued, hvalue, hend⟩, by rw [hcurrent]⟩

end Nonterminal

namespace Module

/-- Every bitcast of a module stands somewhere in the tokens with exactly its target and its value,
or with those and one further argument, which is dropped. -/
theorem writesBitcast_of_ofTokens {tokens : List Token} {options : ReadOptions} {m : Module}
    (h : Module.ofTokens tokens options = .ok m) {d : Declaration} (hd : d ∈ m)
    {target : TypeSpecifier} {value : Expression} {l : Location}
    (hn : (Node.expression (.bitcast target value l)).Occurs (.declaration d)) :
    ∃ c c', (Cursor.ofTokens tokens).Reaches c ∧
      (c.WritesBitcast options Eq target value l c' ∨
        c.WritesBitcast options (FurtherArgument options) target value l c') := by
  obtain ⟨c, c', hreach, hbuilt⟩ := builtFrom_of_ofTokens h hd _ hn
  exact ⟨c, c', hreach, Nonterminal.constructs_bitcast_iff.1 hbuilt⟩

/-- A module of one variable whose value is a negated bitcast has been read. -/
def readsNegatedBitcast : Except ParseError Module → Bool
  | .ok [⟨_, .variable ⟨_, _, _, _, some (.unary _ (.bitcast ..) _), _⟩⟩] => true
  | _ => false

/-- In `let x = -bitcast<vec2<f32>>(y,);` the angle of the bitcast is the rest of a token. -/
theorem writesBitcast_of_ofTokens_nested :
    ∃ d target value l,
      Module.ofTokens (tokenize "let x = -bitcast<vec2<f32>>(y,);") = .ok [d] ∧
        (Node.expression (.bitcast target value l)).Occurs (.declaration d) ∧
        ∃ c c', (Cursor.ofTokens (tokenize "let x = -bitcast<vec2<f32>>(y,);")).Reaches c ∧
          (c.WritesBitcast {} Eq target value l c' ∨
            c.WritesBitcast {} (FurtherArgument {}) target value l c') := by
  have hread : readsNegatedBitcast
      (Module.ofTokens (tokenize "let x = -bitcast<vec2<f32>>(y,);")) = true := by
    decide +kernel
  unfold readsNegatedBitcast at hread
  split at hread
  · rename_i attributes kind storage name type op target value l l' l'' hm
    have hoccurs : (Node.expression (.bitcast target value l)).Occurs (.declaration
        ⟨attributes, .variable ⟨kind, storage, name, type,
          some (.unary op (.bitcast target value l) l'), l''⟩⟩) :=
      .inside (List.mem_append_right _ (List.mem_singleton_self _))
        (.inside (List.mem_singleton_self _)
          (.inside (List.mem_append_right _ (List.mem_singleton_self _))
            (.inside (List.mem_singleton_self _) .here)))
    exact ⟨_, target, value, l, hm, hoccurs,
      writesBitcast_of_ofTokens hm List.mem_cons_self hoccurs⟩
  · cases hread

/-- A count behind the target of a bitcast leaves no trace: with blanks in its place the module is
the same. -/
theorem bitcast_drops_count :
    ∃ m, Module.ofSource "const x = bitcast<f32, 3>(1);" = .ok m ∧
      Module.ofSource "const x = bitcast<f32   >(1);" = .ok m := by
  have hcount : tokenize "const x = bitcast<f32, 3>(1);" =
      [⟨.keyword .const, ⟨1, 1⟩⟩, ⟨.identifier "x", ⟨1, 7⟩⟩, ⟨.symbol .equal, ⟨1, 9⟩⟩,
        ⟨.identifier "bitcast", ⟨1, 11⟩⟩, ⟨.symbol .lessThan, ⟨1, 18⟩⟩,
        ⟨.identifier "f32", ⟨1, 19⟩⟩, ⟨.symbol .comma, ⟨1, 22⟩⟩, ⟨.number "3", ⟨1, 24⟩⟩,
        ⟨.symbol .greaterThan, ⟨1, 25⟩⟩, ⟨.symbol .parenLeft, ⟨1, 26⟩⟩, ⟨.number "1", ⟨1, 27⟩⟩,
        ⟨.symbol .parenRight, ⟨1, 28⟩⟩, ⟨.symbol .semicolon, ⟨1, 29⟩⟩, ⟨.endOfFile, ⟨1, 30⟩⟩] := by
    decide +kernel
  have hblank : tokenize "const x = bitcast<f32   >(1);" =
      [⟨.keyword .const, ⟨1, 1⟩⟩, ⟨.identifier "x", ⟨1, 7⟩⟩, ⟨.symbol .equal, ⟨1, 9⟩⟩,
        ⟨.identifier "bitcast", ⟨1, 11⟩⟩, ⟨.symbol .lessThan, ⟨1, 18⟩⟩,
        ⟨.identifier "f32", ⟨1, 19⟩⟩, ⟨.symbol .greaterThan, ⟨1, 25⟩⟩,
        ⟨.symbol .parenLeft, ⟨1, 26⟩⟩, ⟨.number "1", ⟨1, 27⟩⟩, ⟨.symbol .parenRight, ⟨1, 28⟩⟩,
        ⟨.symbol .semicolon, ⟨1, 29⟩⟩, ⟨.endOfFile, ⟨1, 30⟩⟩] := by
    decide +kernel
  refine ⟨[⟨[], .variable ⟨.const, none, "x", none, some (.bitcast ⟨[], "f32", .none, ⟨1, 19⟩⟩
    (.literal "1" .abstractInt ⟨1, 27⟩) ⟨1, 11⟩), ⟨1, 1⟩⟩⟩], ?_, ?_⟩
  · rw [Module.ofSource, hcount]
    rfl
  · rw [Module.ofSource, hblank]
    rfl

end Module

end Wgsl
