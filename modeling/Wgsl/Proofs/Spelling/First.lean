import Wgsl.Proofs.TokenKind

/-!
# What spellings begin with

The first token of a tree's spelling is all that the reader sees when it decides what to read. An
expression begins with one of few tokens (`TokenKind.StartsExpression`), whatever its operands are
written like, and an attribute with its mark.
-/

namespace Wgsl

open Spelling

/-- Every list of the language begins with a token of the property. -/
def Spelling.Begins (p : Token → Prop) (L : Language Piece) : Prop :=
  ∀ ps ∈ L, ∃ t rest, p t ∧ ps = .token t :: rest

namespace Spelling.Begins

variable {p q : Token → Prop} {L M : Language Piece}

/-- Less may be said of the first token. -/
theorem mono (h : Begins p L) (hpq : ∀ t, p t → q t) : Begins q L := by
  intro ps hps
  obtain ⟨t, rest, ht, rfl⟩ := h ps hps
  exact ⟨t, rest, hpq t ht, rfl⟩

/-- A token begins as it is. -/
theorem token (p : Token → Prop) : Begins p (Spelling.token p) := by
  rintro _ ⟨t, ht, rfl⟩
  exact ⟨t, [], ht, rfl⟩

section

variable {q : TokenKind → Prop} (l : Location)

theorem symbol {m : Symbol} (h : q (.symbol m)) :
    Begins (fun t => q t.kind) (Spelling.symbol m l) :=
  (token _).mono fun _ ht => ht ▸ h

theorem keyword {word : Keyword} (h : q (.keyword word)) :
    Begins (fun t => q t.kind) (Spelling.keyword word l) :=
  (token _).mono fun _ ht => ht ▸ h

theorem word {n : String} (h : q (.identifier n)) :
    Begins (fun t => q t.kind) (Spelling.word n l) :=
  (token _).mono fun _ ht => ht ▸ h

end

/-- What begins in a certain way does so with anything behind it. -/
theorem mul (h : Begins p L) (M : Language Piece) : Begins p (L * M) := by
  intro ps hps
  obtain ⟨a, ha, b, -, rfl⟩ := Language.mem_mul.1 hps
  obtain ⟨t, rest, ht, rfl⟩ := h a ha
  exact ⟨t, rest ++ b, ht, rfl⟩

/-- The condition may be used for what stands behind it. -/
theorem when_mul {c : Prop} (h : c → Begins p L) : Begins p (when c * L) := by
  intro ps hps
  obtain ⟨_, ⟨hc, rfl⟩, b, hb, rfl⟩ := Language.mem_mul.1 hps
  exact h hc b hb

/-- Of two languages, what both begin with. -/
theorem add (hL : Begins p L) (hM : Begins p M) : Begins p (L + M) := by
  intro ps hps
  exact hps.elim (hL ps) (hM ps)

/-- Where it begins does not matter to what it begins with. -/
theorem startingAt (h : Begins p L) (l : Location) : Begins p (Spelling.startingAt l L) :=
  fun ps hps => h ps hps.1

/-- What is read has the first token that it begins with. -/
theorem reads {c c' : Cursor} (h : Begins p L) (hr : c.Reads L c') : p c.current := by
  obtain ⟨ps, hps, hpasses⟩ := hr
  obtain ⟨t, rest, ht, rfl⟩ := h ps hps
  exact hpasses.1.1 ▸ ht

/-- To read from a location on is to read, with the first token there. -/
theorem reads_startingAt {c c' : Cursor} {l : Location} (h : Begins p L) :
    c.Reads (Spelling.startingAt l L) c' ↔ c.Reads L c' ∧ c.current.location = l := by
  refine ⟨Cursor.current_of_reads_startingAt, ?_⟩
  rintro ⟨⟨ps, hps, hpasses⟩, hl⟩
  obtain ⟨t, rest, -, rfl⟩ := h ps hps
  exact ⟨_, ⟨hps, t, rest, rfl, hpasses.1.1 ▸ hl⟩, hpasses⟩

end Spelling.Begins

/-- The tokens that an expression can begin with. -/
def TokenKind.StartsExpression : TokenKind → Prop
  | .number _ | .identifier _ | .keyword .true | .keyword .false | .symbol .parenLeft
  | .symbol .minus | .symbol .bang | .symbol .tilde | .symbol .star | .symbol .and => True
  | _ => False

namespace TokenKind

/-- A prefix operator begins an expression. -/
theorem startsExpression_unary (op : UnaryOperator) :
    (TokenKind.symbol op.symbol).StartsExpression := by
  cases op <;> exact True.intro

/-- A literal begins an expression. -/
theorem startsExpression_of_literal? {k : TokenKind} {literal : String × LiteralKind}
    (h : k.literal? = some literal) : k.StartsExpression := by
  cases k with
  | number => exact True.intro
  | keyword word => cases word <;> first | exact True.intro | simp [literal?] at h
  | _ => simp [literal?] at h

variable {k : TokenKind}

/-- What begins an expression is none of the tokens that do not. -/
theorem StartsExpression.ne_of_not {k' : TokenKind} (h : k.StartsExpression)
    (hk' : ¬k'.StartsExpression) : k ≠ k' := by
  rintro rfl
  exact hk' h

/-- No expression begins with a closing angle. -/
theorem StartsExpression.closesAngle (h : k.StartsExpression) : k.closesAngle = false := by
  cases k with
  | symbol mark => cases mark <;> first | rfl | exact h.elim
  | _ => rfl

end TokenKind

variable (style : OperandStyle)

/-- What is in parentheses can begin an expression. -/
theorem Spelling.begins_parenthesized (L : Language Piece) :
    Begins (fun t => t.kind.StartsExpression) (parenthesized L) := by
  refine Begins.mul (Begins.mul ((Begins.token _).mono fun t ht => ?_) _) _
  rw [ht]
  exact True.intro

/-- An operand begins as its expression does, or with a parenthesis. -/
theorem OperandStyle.begins_operand {L : Language Piece}
    (h : Begins (fun t => t.kind.StartsExpression) L) :
    Begins (fun t => t.kind.StartsExpression) (style.operand L) := by
  cases style with
  | bare => exact h
  | parenthesized => exact begins_parenthesized L

/-- So does a number of elements. -/
theorem OperandStyle.begins_count {count : Expression} {L : Language Piece}
    (h : Begins (fun t => t.kind.StartsExpression) L) :
    Begins (fun t => t.kind.StartsExpression) (style.count count L) := by
  cases style with
  | bare => exact h
  | parenthesized =>
    cases count with
    | binary => exact begins_parenthesized L
    | logical => exact begins_parenthesized L
    | _ => exact h.add (begins_parenthesized L)

/-- A type without attributes begins with its name. -/
theorem TypeSpecifier.begins_spellings {type : TypeSpecifier} (h : type.attributes = []) :
    Begins (fun t => t = ⟨.identifier type.name, type.location⟩) (type.spellings style) := by
  obtain ⟨attributes, n, parameters, l⟩ := type
  obtain rfl : attributes = [] := h
  have hword : Begins (fun t => t = ⟨.identifier n, l⟩) (Spelling.word n l) := Begins.token _
  simpa only [TypeSpecifier.spellings, attributesSpellings, one_mul] using hword.mul _

/-- Every attribute begins with its sign. -/
theorem Attribute.begins_spellings (a : Attribute) :
    Begins (fun t => t.kind = .symbol .attr) (a.spellings style) := by
  cases a
  exact (((Begins.token _).mono fun _ ht => ht ▸ rfl).mul _).mul _

/-- An expression begins with a token that an expression can begin with. -/
theorem Expression.begins_spellings (e : Expression) :
    Begins (fun t => t.kind.StartsExpression) (e.spellings style) := by
  cases e with
  | literal =>
    exact (Begins.token _).mono fun _ ht => TokenKind.startsExpression_of_literal? ht.1
  | identifier _ l => exact .word l True.intro
  | unary op _ l => exact (Begins.symbol l (TokenKind.startsExpression_unary op)).mul _
  | binary _ left => exact ((style.begins_operand left.begins_spellings).mul _).mul _
  | logical _ left => exact ((style.begins_operand left.begins_spellings).mul _).mul _
  | member object => exact ((style.begins_operand object.begins_spellings).mul _).mul _
  | index object => exact (((style.begins_operand object.begins_spellings).mul _).mul _).mul _
  | call _ _ l => exact (Begins.word l True.intro).mul _
  | construct =>
    exact (Begins.when_mul fun h =>
      (TypeSpecifier.begins_spellings style h.1).mono fun _ ht => ht ▸ True.intro).mul _
  | bitcast _ _ l => exact ((((Begins.word l True.intro).mul _).mul _).mul _).mul _
  | grouped _ l => exact ((Begins.symbol l True.intro).mul _).mul _

/-- An assignment, a step and a call begin as an expression does. -/
theorem SimpleStatement.begins_spellings : (s : SimpleStatement) →
    Begins (fun t => t.kind.StartsExpression) (s.spellings style)
  | .assign target _ _ l =>
    (((style.begins_operand (target.begins_spellings style)).mul _).mul _).startingAt l
  | .step target _ l => ((style.begins_operand (target.begins_spellings style)).mul _).startingAt l
  | .call _ _ l => (Begins.word l True.intro).mul _

/-- The token can begin a statement: it is none that ends statements or stands between them. -/
def TokenKind.StartsStatement (k : TokenKind) : Prop :=
  k ≠ .symbol .semicolon ∧ k ≠ .symbol .braceRight ∧ k ≠ .keyword .else ∧
    k ≠ .keyword .continuing ∧ k ≠ .endOfFile

instance (k : TokenKind) : Decidable k.StartsStatement := by
  unfold TokenKind.StartsStatement
  infer_instance

/-- What begins an expression begins a statement. -/
theorem TokenKind.StartsExpression.startsStatement {k : TokenKind} (h : k.StartsExpression) :
    k.StartsStatement :=
  ⟨h.ne_of_not id, h.ne_of_not id, h.ne_of_not id, h.ne_of_not id, h.ne_of_not id⟩

/-- The token begins a compound statement behind its attributes. -/
def TokenKind.StartsForm (k : TokenKind) : Prop :=
  k ∈ [.symbol .braceLeft, .keyword .if, .keyword .switch, .keyword .for, .keyword .while,
    .keyword .loop]

instance (k : TokenKind) : Decidable k.StartsForm := by
  unfold TokenKind.StartsForm
  infer_instance

/-- What begins a compound statement begins a statement. -/
theorem TokenKind.StartsForm.startsStatement {k : TokenKind} (h : k.StartsForm) :
    k.StartsStatement := by
  simp only [StartsForm, List.mem_cons, List.not_mem_nil, or_false] at h
  rcases h with rfl | rfl | rfl | rfl | rfl | rfl <;> decide

/-- A compound statement begins with its word, or with a brace. -/
theorem CompoundStatement.begins_spellings (l : Location) (form : CompoundStatement) :
    Begins (fun t => t.kind.StartsForm) (form.spellings style l) := by
  cases form with
  | block => exact ((Begins.symbol l (by decide)).mul _).mul _
  | «if» => exact ((((Begins.keyword l (by decide)).mul _).mul _).mul _).mul _
  | switch => exact ((Begins.keyword l (by decide)).mul _).mul _
  | «for» => exact ((Begins.keyword l (by decide)).mul _).mul _
  | «while» => exact ((Begins.keyword l (by decide)).mul _).mul _
  | loop => exact (Begins.keyword l (by decide)).mul _

/-- A variable begins with the word that introduces it. -/
theorem Variable.begins_spellings (v : Variable) :
    Begins (fun t => t = ⟨.keyword v.kind.keyword, v.location⟩) (v.spellings style) :=
  ((((Begins.token _).mul _).mul _).mul _).mul _

/-- A statement begins with a token that a statement can begin with. -/
theorem Statement.begins_spellings : (s : Statement) →
    Begins (fun t => t.kind.StartsStatement) (s.spellings style)
  | .variable v => by
    refine ((v.begins_spellings style).mono fun t ht => ?_).mul _
    have hstarts : (TokenKind.keyword v.kind.keyword).StartsStatement := by
      cases v.kind <;> decide
    exact ht ▸ hstarts
  | .simple s => ((s.begins_spellings style).mono fun _ ht => ht.startsStatement).mul _
  | .return _ l => ((Begins.keyword l (by decide)).mul _).mul _
  | .break l => (Begins.keyword l (by decide)).mul _
  | .breakIf _ l => (((Begins.keyword l (by decide)).mul _).mul _).mul _
  | .continue l => (Begins.keyword l (by decide)).mul _
  | .discard l => (Begins.keyword l (by decide)).mul _
  | .assertion _ l =>
    (((Begins.keyword l (by decide)).add (.keyword l (by decide))).mul _).mul _
  | .compound [] form l => by
    simpa only [Statement.spellings, attributesSpellings, one_mul] using
      (form.begins_spellings style l).mono fun _ ht => ht.startsStatement
  | .compound (a :: _) _ _ => by
    refine (((a.begins_spellings style).mono fun t ht => ?_).mul _).mul _
    rw [ht]
    decide

private theorem Spelling.begins_isKeyword (word : Keyword) (l : Location) :
    Begins (fun t => t.kind.isKeyword) (keyword word l) :=
  (Begins.token _).mono fun t ht => by simp [ht]

/-- An item begins with a keyword. -/
theorem Item.begins_spellings : (i : Item) →
    Begins (fun t => t.kind.isKeyword) (i.spellings style)
  | .enable _ _ l => (((begins_isKeyword _ l).mul _).mul _).mul _
  | .alias _ _ l => ((((begins_isKeyword _ l).mul _).mul _).mul _).mul _
  | .struct _ _ l => ((begins_isKeyword _ l).mul _).mul _
  | .function _ => by
    refine Begins.mul (Begins.mul (Begins.mul (Begins.mul ?_ _) _) _) _
    exact (Begins.token _).mono fun t ht => by simp [ht]
  | .variable v =>
    ((v.begins_spellings style).mono fun _ ht => ht ▸ TokenKind.isKeyword_keyword _).mul _
  | .assertion _ l => (((begins_isKeyword _ l).add (begins_isKeyword _ l)).mul _).mul _

/-- A declaration begins with an attribute or a keyword. -/
theorem Declaration.begins_spellings : (d : Declaration) →
    Begins (fun t => t.kind = .symbol .attr ∨ t.kind.isKeyword) (d.spellings style)
  | ⟨[], i⟩ => by
    simpa only [Declaration.spellings, attributesSpellings, one_mul] using
      (i.begins_spellings style).mono fun _ => .inr
  | ⟨a :: _, _⟩ => (((a.begins_spellings style).mono fun _ => .inl).mul _).mul _

namespace Cursor

variable {style} {c c' : Cursor}

/-- Where there is no attribute mark, there are no attributes. -/
theorem Reads.attributes_eq_nil {as : List Attribute}
    (h : c.Reads (attributesSpellings style as) c') (hc : c.current.kind ≠ .symbol .attr) :
    as = [] ∧ c = c' := by
  cases as with
  | nil => exact ⟨rfl, reads_one.1 h⟩
  | cons a as =>
    obtain ⟨d, ha, -⟩ := reads_mul.1 h
    exact absurd ((a.begins_spellings style).reads ha) hc

/-- A type that begins with a name has no attributes of its own, and the name is the type's. -/
theorem Reads.type_of_identifier {type : TypeSpecifier} {n : String}
    (h : c.Reads (type.spellings style) c') (hc : c.current.kind = .identifier n) :
    type.attributes = [] ∧ c.current = ⟨.identifier type.name, type.location⟩ := by
  have hnil : type.attributes = [] := by
    obtain ⟨attributes, name, parameters, l⟩ := type
    simp only [TypeSpecifier.spellings, reads_mul] at h
    obtain ⟨_, ⟨_, ha, -⟩, -⟩ := h
    exact (ha.attributes_eq_nil (by simp [hc])).1
  exact ⟨hnil, (TypeSpecifier.begins_spellings style hnil).reads h⟩

end Cursor

end Wgsl
