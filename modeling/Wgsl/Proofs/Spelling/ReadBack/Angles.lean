import Wgsl.Proofs.Relocation.Grammar
import Wgsl.Proofs.Spelling.Laid
import Wgsl.Proofs.Spelling.ReadBack.Declaration

/-!
# Closing angles, however they are written

The angles that close type parameters may be written one behind the other, and an `=` behind them.
Which tokens that makes depends on how many they are: `>>>=` is `>>` and `>=`. A module is read back
all the same, up to the locations in it (`Module.relocate_ofSource_of_readable`), since whatever the
tokens are, they spell its pieces.

That is said of the places that a whole type can stand at in a declaration: before the value of a
variable, before the end of an alias, and before the arguments that build a value
(`Module.relocate_ofSource_type`). A type ends with an angle or with a name, and both may stand
directly before an `=`, a `;` and a `(`.
-/

namespace Wgsl

open Spelling Text

/-! ## What types begin and end with -/

/-- Every list of the language ends with a piece of the property. -/
def Spelling.Ends (p : Piece → Prop) (L : Language Piece) : Prop :=
  ∀ ps ∈ L, ∃ q ∈ ps.getLast?, p q

/-- How the second of two languages ends decides how both end. -/
theorem Spelling.Ends.mul {p : Piece → Prop} {M : Language Piece} (h : Ends p M)
    (L : Language Piece) : Ends p (L * M) := by
  intro ps hps
  obtain ⟨a, -, b, hb, rfl⟩ := Language.mem_mul.1 hps
  obtain ⟨q, hq, hpq⟩ := h b hb
  rw [Option.mem_def] at hq
  exact ⟨q, by simp [List.getLast?_append, hq], hpq⟩

/-- The piece is an angle or a name. -/
def Piece.EndsType (p : Piece) : Prop := p = .angle ∨ ∃ n, p.kind = .identifier n

namespace TypeSpecifier

variable (style : OperandStyle)

/-- A type begins with an attribute or a name. -/
theorem begins_spellings_attribute_or_name (type : TypeSpecifier) :
    Begins (fun t => t.kind = .symbol .attr ∨ ∃ n, t.kind = .identifier n)
      (type.spellings style) := by
  obtain ⟨attributes, n, parameters, l⟩ := type
  cases attributes with
  | nil => exact (begins_spellings style rfl).mono fun _ ht => .inr ⟨n, by rw [ht]⟩
  | cons a as => exact ((((a.begins_spellings style).mono fun _ => .inl).mul _).mul _).mul _

/-- A type ends with a name or with a closing angle. -/
theorem ends_spellings (type : TypeSpecifier) : Ends Piece.EndsType (type.spellings style) := by
  obtain ⟨attributes, n, parameters, l⟩ := type
  have hname : Ends Piece.EndsType (word n l) := by
    rintro _ ⟨t, rfl, rfl⟩
    exact ⟨_, rfl, .inr ⟨n, rfl⟩⟩
  have hclosing : Ends Piece.EndsType closing := by
    have hangle : Ends Piece.EndsType angle := by
      rintro _ rfl
      exact ⟨_, rfl, .inl rfl⟩
    exact hangle.mul _
  cases parameters with
  | none => simpa only [spellings, TypeParameters.spellings, mul_one] using hname.mul _
  | pointer => exact (hclosing.mul _).mul _
  | element => exact (hclosing.mul _).mul _
  | counted => exact (hclosing.mul _).mul _

end TypeSpecifier

/-! ## Characters that end tokens -/

namespace TokenKind

variable {kind : TokenKind}

instance (kind : TokenKind) (c : Char) : Decidable (kind.EndsBefore c) := by
  cases kind with
  | symbol mark =>
    refine decidable_of_iff ((∀ longer ∈ Symbol.all,
      ¬mark.lexeme.toList ++ [c] <+: longer.lexeme.toList) ∧
        (mark = .slash → c ≠ '/' ∧ c ≠ '*') ∧ (mark = .period → c.isDigit = false)) ?_
    exact and_congr_left fun _ => ⟨fun h longer => h longer (Symbol.mem_all longer),
      fun h longer _ => h longer⟩
  | invalid | endOfFile => exact .isFalse id
  | _ => exact inferInstanceAs (Decidable (_ = false))

/-- A symbol that no longer one begins with ends before every text. -/
theorem endsBeforeText_of_alone {mark : Symbol} (hmark : mark ≠ .slash ∧ mark ≠ .period)
    (halone : ∀ longer ∈ Symbol.all, mark.lexeme.toList <+: longer.lexeme.toList → longer = mark)
    (text : List Char) : (TokenKind.symbol mark).EndsBeforeText text :=
  fun c _ => Symbol.endsBefore_of_alone hmark halone c

/-- An equals sign ends before all but another. -/
theorem endsBefore_equal {c : Char} (hc : c ≠ '=') : (TokenKind.symbol .equal).EndsBefore c := by
  refine ⟨?_, by rintro ⟨⟩, by rintro ⟨⟩⟩
  rintro longer ⟨more, hmore⟩
  cases longer <;> cases hmore
  exact hc rfl

/-- No word and no number begins with `=`. -/
theorem Spellable.endsBeforeText_equal (hkind : kind.Spellable)
    (hmark : ∀ mark, kind ≠ .symbol mark) :
    (TokenKind.symbol .equal).EndsBeforeText kind.text.toList := by
  have hword {word : List Char} (hw : IsWord word) :
      (TokenKind.symbol .equal).EndsBeforeText word := by
    obtain ⟨d, tail, rfl, hd⟩ := hw.exists_cons
    rintro _ ⟨⟩
    refine endsBefore_equal ?_
    rintro rfl
    exact absurd hd (by decide)
  cases kind with
  | keyword word => exact hword word.isWord_lexeme
  | symbol mark => exact absurd rfl (hmark mark)
  | identifier name => exact hword hkind.1
  | number spelling =>
    have hbegins := (Numeral.scan_literal_append hkind stops_nil).1
    rw [List.append_nil] at hbegins
    intro c hc
    refine endsBefore_equal ?_
    rintro rfl
    obtain ⟨tail, htail⟩ := List.head?_eq_some_iff.1 hc
    rw [text] at htail
    rw [htail] at hbegins
    exact absurd hbegins (by simp [Numeral.begins])
  | invalid | endOfFile => exact hkind.elim

/-- Words and numbers end before a `;`, a `:` and a closing parenthesis, and words before an `=` and
an opening parenthesis, too. -/
theorem Spellable.endsBefore {c : Char} (hkind : kind.Spellable)
    (hmark : ∀ mark, kind ≠ .symbol mark) (hc : Numeral.goesOn c = false) : kind.EndsBefore c := by
  have hword : continuesWord c = false := by
    rw [Numeral.goesOn, Bool.or_eq_false_iff] at hc
    exact hc.1
  cases kind with
  | keyword | identifier => exact hword
  | symbol mark => exact absurd rfl (hmark mark)
  | number => exact hc
  | invalid | endOfFile => exact hkind.elim

/-- A literal is no symbol. -/
theorem ne_symbol_of_literal? {literal : String × LiteralKind} (h : kind.literal? = some literal) :
    ∀ mark, kind ≠ .symbol mark := by
  rintro mark rfl
  cases h

end TokenKind

/-! ## Readable layouts -/

namespace Laid

variable {a b : Laid} {laid laid' : List Laid}

/-- Behind white space anything follows. -/
theorem follows_of_blank (h : b.before ≠ []) : a.Follows b := fun hb => absurd hb h

/-- What ends before the next piece's text may be followed by it. -/
theorem follows_of_ends (h : a.piece.kind.EndsBeforeText b.piece.kind.text.toList) : a.Follows b :=
  fun _ => .inr h

/-- For a symbol of one character, that character decides. -/
theorem follows_of_endsBefore {m : Symbol} {c : Char} (hb : b.piece.kind = .symbol m)
    (hm : m.lexeme.toList = [c]) (h : a.piece.kind.EndsBefore c) : a.Follows b := by
  refine follows_of_ends ?_
  rw [hb, TokenKind.text, hm]
  exact TokenKind.endsBeforeText_cons.2 h

/-- What is legible is readable. -/
theorem Legible.readable (h : Legible laid) : Readable laid :=
  ⟨h.blank, h.spellable, h.meets.imp fun _ _ => Meets.follows⟩

/-- Readable pieces behind readable ones, where the first of them may follow the last. -/
theorem Readable.append (h : Readable laid) (h' : Readable laid')
    (hfollows : ∀ a ∈ laid.getLast?, ∀ b ∈ laid'.head?, a.Follows b) :
    Readable (laid ++ laid') where
  blank a ha := (List.mem_append.1 ha).elim (h.blank a) (h'.blank a)
  spellable a ha := (List.mem_append.1 ha).elim (h.spellable a) (h'.spellable a)
  follows := List.isChain_append.2 ⟨h.follows, h'.follows, hfollows⟩

/-- Behind a type an `=`, a `;` and a `(` may be written without white space. -/
theorem follows_of_type {style : OperandStyle} {type : TypeSpecifier}
    (h : laid.map Laid.piece ∈ type.spellings style) (hb : b.piece = .token equal ∨
      b.piece.kind = .symbol .semicolon ∨ b.piece.kind = .symbol .parenLeft) :
    ∀ a ∈ laid.getLast?, a.Follows b := by
  intro a ha
  obtain ⟨q, hq, hends⟩ := type.ends_spellings style _ h
  rw [List.getLast?_map, ha] at hq
  obtain rfl : a.piece = q := Option.some.inj hq
  rcases hends with hangle | ⟨n, hn⟩
  · rcases hb with hb | hb | hb
    · exact fun _ => .inl ⟨hangle, .inr hb⟩
    · refine follows_of_ends ?_
      rw [hangle, hb]
      exact TokenKind.endsBeforeText_cons.2 (by decide +kernel)
    · refine follows_of_ends ?_
      rw [hangle, hb]
      exact TokenKind.endsBeforeText_cons.2 (by decide +kernel)
  · have hname {c : Char} (hc : continuesWord c = false) : a.piece.kind.EndsBeforeText [c] := by
      rw [hn]
      exact TokenKind.endsBeforeText_cons.2 hc
    refine follows_of_ends ?_
    rcases hb with hb | hb | hb <;> rw [hb] <;> exact hname (by decide)

/-- A type may be written behind an `=` without white space. -/
theorem follows_equal_of_type {style : OperandStyle} {type : TypeSpecifier}
    (h : laid.map Laid.piece ∈ type.spellings style) (hlaid : Readable laid)
    (ha : a.piece.kind = .symbol .equal) : ∀ b ∈ laid.head?, a.Follows b := by
  intro b hb
  obtain ⟨t, rest, ht, hps⟩ := type.begins_spellings_attribute_or_name style _ h
  obtain ⟨laid', rfl⟩ := List.head?_eq_some_iff.1 hb
  obtain ⟨hpiece, -⟩ := List.cons.inj hps
  have hkind : b.piece.kind = t.kind := by rw [hpiece]; rfl
  refine follows_of_ends ?_
  rw [ha]
  rcases ht with ht | ⟨n, ht⟩
  · rw [hkind, ht]
    rintro _ ⟨⟩
    decide +kernel
  · exact (hlaid.spellable b List.mem_cons_self).endsBeforeText_equal (by simp [hkind, ht])

/-! ### Tokens around a type -/

section

variable {name : String} {literal : TokenKind} {gap : Nat → List Char}

/-- A token that stands at the start, wherever it is written. -/
def lone (before : List Char) (kind : TokenKind) : Laid := ⟨before, .token ⟨kind, .start⟩⟩

/-- The beginning of the declaration is readable. -/
theorem readable_front (hname : (TokenKind.identifier name).Spellable)
    (hgap : ∀ i, ∀ c ∈ gap i, isWhiteSpace c = true) (hfirst : gap 1 ≠ []) (word : Keyword)
    {m : Symbol} (hm : m = .colon ∨ m = .equal) :
    Readable [lone (gap 0) (.keyword word), lone (gap 1) (.identifier name),
      lone (gap 2) (.symbol m)] where
  blank := by simpa [lone] using ⟨hgap 0, hgap 1, hgap 2⟩
  spellable := by
    simp only [List.forall_mem_cons]
    exact ⟨trivial, hname, trivial, by simp⟩
  follows := by
    refine .cons_cons (follows_of_blank hfirst) (.cons_cons ?_ (.singleton _))
    rcases hm with rfl | rfl
    · exact follows_of_endsBefore rfl rfl (hname.endsBefore (c := ':') (by simp) (by decide))
    · exact follows_of_endsBefore rfl rfl (hname.endsBefore (c := '=') (by simp) (by decide))

/-- Between an `=` and a `;`. -/
theorem readable_initializer (hvalue : literal.Spellable) (hmark : ∀ m, literal ≠ .symbol m)
    (hgap : ∀ i, ∀ c ∈ gap i, isWhiteSpace c = true) :
    Readable [⟨gap 3, .token equal⟩, lone (gap 4) literal, lone (gap 5) (.symbol .semicolon)] where
  blank := by simpa [lone] using ⟨hgap 3, hgap 4, hgap 5⟩
  spellable := by
    simp only [List.forall_mem_cons]
    exact ⟨trivial, hvalue, trivial, by simp⟩
  follows := by
    refine .cons_cons (follows_of_ends (hvalue.endsBeforeText_equal hmark)) ?_
    have hends := hvalue.endsBefore (c := ';') hmark (by decide)
    exact .cons_cons (follows_of_endsBefore rfl rfl hends) (.singleton _)

/-- In parentheses. -/
theorem readable_argument (hvalue : literal.Spellable) (hmark : ∀ m, literal ≠ .symbol m)
    (hgap : ∀ i, ∀ c ∈ gap i, isWhiteSpace c = true) :
    Readable [lone (gap 3) (.symbol .parenLeft), lone (gap 4) literal,
      lone (gap 5) (.symbol .parenRight), lone (gap 6) (.symbol .semicolon)] where
  blank := by simpa [lone] using ⟨hgap 3, hgap 4, hgap 5, hgap 6⟩
  spellable := by
    simp only [List.forall_mem_cons]
    exact ⟨trivial, hvalue, trivial, trivial, by simp⟩
  follows := by
    have hopen : (TokenKind.symbol .parenLeft).EndsBeforeText literal.text.toList :=
      TokenKind.endsBeforeText_of_alone (by decide) (by decide +kernel) _
    have hclose : (TokenKind.symbol .parenRight).EndsBefore ';' := by decide +kernel
    have hends := hvalue.endsBefore (c := ')') hmark (by decide)
    exact .cons_cons (follows_of_ends hopen) (.cons_cons (follows_of_endsBefore rfl rfl hends)
      (.cons_cons (follows_of_endsBefore rfl rfl hclose) (.singleton _)))

end

end Laid

namespace Module

/-- A well-shaped module that is laid out as a text is read from it, up to locations. -/
theorem relocate_ofSource_of_readable {m : Module} (hm : m.WellShaped) {laid : List Laid}
    (hspelled : laid.map Laid.piece ∈ declarationsSpellings .parenthesized m)
    (hlaid : Laid.Readable laid) {behind : List Char}
    (hbehind : ∀ c ∈ behind, isWhiteSpace c = true) :
    relocate (fun _ => .start) (ofSource (String.ofList (Laid.textOf laid behind))) =
      relocate (fun _ => .start) (.ok m) := by
  obtain ⟨ts, hjoins, htokens, hkinds⟩ := Laid.exists_readAs hbehind laid hlaid
  have hsame : (tokenize (String.ofList (Laid.textOf laid behind))).map Token.kind =
      (ts ++ [(⟨.endOfFile, .start⟩ : Token)]).map Token.kind := by
    rw [tokenize, Place.ofSource, String.toList_ofList, hkinds, List.map_append]
    rfl
  have hupTo : (ts ++ [(⟨.endOfFile, .start⟩ : Token)]).takeWhile (·.kind ≠ .endOfFile) = ts := by
    rw [List.takeWhile_append_of_pos (by simpa using htokens)]
    simp
  rw [ofSource, relocate_ofTokens_congr hsame]
  exact congrArg _ (ofTokens_of_joins hm hspelled (hupTo.symm ▸ hjoins))

/-- An item with a type in it is read, where an `=`, a `;` or a `(` follows the type. -/
theorem relocate_ofSource_between {item : Item} (hitem : item.WellShaped) {type : TypeSpecifier}
    {front laid back : List Laid} {behind : List Char}
    (hspelled : (front ++ laid ++ back).map Laid.piece ∈ item.spellings .parenthesized)
    (htype : laid.map Laid.piece ∈ type.spellings .parenthesized) (hlaid : Laid.Legible laid)
    (hfront : Laid.Readable front) (hback : Laid.Readable back)
    (hbefore : ∀ a ∈ front.getLast?, a.piece.kind = .symbol .colon ∨ a.piece.kind = .symbol .equal)
    (hafter : ∀ b ∈ back.head?, b.piece = .token Laid.equal ∨
      b.piece.kind = .symbol .semicolon ∨ b.piece.kind = .symbol .parenLeft)
    (hbehind : ∀ c ∈ behind, isWhiteSpace c = true) :
    relocate (fun _ => .start)
        (ofSource (String.ofList (Laid.textOf (front ++ laid ++ back) behind))) =
      relocate (fun _ => .start) (.ok [⟨[], item⟩]) := by
  have hmodule : (front ++ laid ++ back).map Laid.piece ∈
      declarationsSpellings .parenthesized [⟨[], item⟩] := by
    have hdeclaration := Language.append_mem_mul (Language.append_mem_mul
      (Language.nil_mem_kstar (mark .semicolon))
      (Language.append_mem_mul Language.nil_mem_one hspelled))
      (Language.nil_mem_kstar (mark .semicolon))
    rwa [List.nil_append, List.nil_append, List.append_nil] at hdeclaration
  have hshape : Module.WellShaped [⟨[], item⟩] := by
    simpa [WellShaped, Declaration.WellShaped, attributesWellShaped] using hitem
  refine relocate_ofSource_of_readable hshape hmodule ((hfront.append hlaid.readable ?_).append
    hback ?_) hbehind
  · intro a ha b hb
    rcases hbefore a ha with hcolon | hequal
    · refine Laid.follows_of_ends ?_
      rw [hcolon]
      exact TokenKind.endsBeforeText_of_alone (by decide) (by decide +kernel) _
    · exact Laid.follows_equal_of_type htype hlaid.readable hequal b hb
  · intro a ha b hb
    -- a type is not empty, so the last piece before is one of it
    obtain ⟨d, hd⟩ : ∃ d, laid.getLast? = some d := by
      obtain ⟨q, hq, -⟩ := type.ends_spellings .parenthesized _ htype
      rw [List.getLast?_map] at hq
      obtain ⟨d, hd, -⟩ := Option.map_eq_some_iff.1 hq
      exact ⟨d, hd⟩
    rw [List.getLast?_append, hd, Option.some_or] at ha
    obtain rfl : d = a := Option.some.inj ha
    exact Laid.follows_of_type htype (hafter b hb) d hd

section

variable {type : TypeSpecifier} {laid : List Laid} {name spelling : String} {kind : LiteralKind}
  {literal : TokenKind} {gap : Nat → List Char}

/-- A symbol with layout before it is written as that symbol. -/
theorem lone_mem_mark (before : List Char) (m : Symbol) :
    [(Laid.lone before (.symbol m)).piece] ∈ mark m := ⟨_, rfl, rfl⟩

/-- A name with layout before it is written as that name. -/
theorem lone_mem_named (before : List Char) :
    [(Laid.lone before (.identifier name)).piece] ∈ named name := ⟨_, rfl, rfl⟩

/-- A keyword with layout before it is written as that keyword. -/
theorem lone_mem_keyword (before : List Char) (word : Keyword) :
    [(Laid.lone before (.keyword word)).piece] ∈ keyword word .start := ⟨_, rfl, rfl⟩

/-- A literal with layout before it is written as that literal. -/
theorem lone_mem_literal (before : List Char)
    (hliteral : literal.literal? = some (spelling, kind)) : [(Laid.lone before literal).piece] ∈
      (Expression.literal spelling kind .start).spellings .parenthesized :=
  ⟨_, ⟨hliteral, rfl⟩, rfl⟩

/-- The pieces of `var name: type = literal;`. -/
theorem initialized_mem (name : String)
    (hspelled : laid.map Laid.piece ∈ type.spellings .parenthesized)
    (hliteral : literal.literal? = some (spelling, kind)) :
    ([Laid.lone (gap 0) (.keyword .var), Laid.lone (gap 1) (.identifier name),
        Laid.lone (gap 2) (.symbol .colon)] ++ laid ++
      [(⟨gap 3, .token Laid.equal⟩ : Laid), Laid.lone (gap 4) literal,
        Laid.lone (gap 5) (.symbol .semicolon)]).map Laid.piece ∈
      (Item.variable ⟨.var, none, name, some type, some (.literal spelling kind .start),
        .start⟩).spellings .parenthesized := by
  have hequal : [Piece.token Laid.equal] ∈ mark .equal := ⟨_, rfl, rfl⟩
  have hmem : _ ∈ (Item.variable ⟨.var, none, name, some type,
      some (.literal spelling kind .start), .start⟩).spellings .parenthesized :=
    Language.append_mem_mul (Language.append_mem_mul (Language.append_mem_mul
      (Language.append_mem_mul (Language.append_mem_mul (lone_mem_keyword (gap 0) .var)
        Language.nil_mem_one) (lone_mem_named (gap 1)))
      (Language.append_mem_mul (lone_mem_mark (gap 2) .colon) hspelled))
      (Language.append_mem_mul hequal (lone_mem_literal (gap 4) hliteral)))
      (lone_mem_mark (gap 5) .semicolon)
  simpa only [List.map_append, List.map_cons, List.map_nil, List.append_assoc,
    List.cons_append, List.nil_append, List.append_nil] using hmem

/-- The pieces of `alias name = type;`. -/
theorem alias_mem (name : String) (hspelled : laid.map Laid.piece ∈ type.spellings .parenthesized) :
    ([Laid.lone (gap 0) (.keyword .alias), Laid.lone (gap 1) (.identifier name),
        Laid.lone (gap 2) (.symbol .equal)] ++ laid ++
      [Laid.lone (gap 3) (.symbol .semicolon)]).map Laid.piece ∈
      (Item.alias name type .start).spellings .parenthesized := by
  have hmem : _ ∈ (Item.alias name type .start).spellings .parenthesized :=
    Language.append_mem_mul (Language.append_mem_mul (Language.append_mem_mul
      (Language.append_mem_mul (lone_mem_keyword (gap 0) .alias) (lone_mem_named (gap 1)))
      (lone_mem_mark (gap 2) .equal)) hspelled) (lone_mem_mark (gap 3) .semicolon)
  simpa only [List.map_append, List.map_cons, List.map_nil, List.append_assoc,
    List.cons_append, List.nil_append, List.append_nil] using hmem

/-- The pieces of `const name = type(literal);`. -/
theorem constructed_mem (name : String)
    (hspelled : laid.map Laid.piece ∈ type.spellings .parenthesized)
    (hattributes : type.attributes = []) (hliteral : literal.literal? = some (spelling, kind)) :
    ([Laid.lone (gap 0) (.keyword .const), Laid.lone (gap 1) (.identifier name),
        Laid.lone (gap 2) (.symbol .equal)] ++ laid ++
      [Laid.lone (gap 3) (.symbol .parenLeft), Laid.lone (gap 4) literal,
        Laid.lone (gap 5) (.symbol .parenRight),
        Laid.lone (gap 6) (.symbol .semicolon)]).map Laid.piece ∈
      (Item.variable ⟨.const, none, name, none,
        some (.construct type [.literal spelling kind .start] type.location),
        .start⟩).spellings .parenthesized := by
  have hlist : [(Laid.lone (gap 4) literal).piece] ++ [] ∈
      expressionsSpellings .parenthesized [.literal spelling kind .start] :=
    Language.append_mem_mul (lone_mem_literal (gap 4) hliteral) (.inl ⟨rfl, rfl⟩)
  have hbare : [] ∈ Spelling.when (type.attributes = [] ∧ type.location = type.location) :=
    ⟨⟨hattributes, rfl⟩, rfl⟩
  have hvalue : _ ∈ (Expression.construct type [.literal spelling kind .start]
      type.location).spellings .parenthesized :=
    Language.append_mem_mul (Language.append_mem_mul hbare hspelled)
      (Language.append_mem_mul (Language.append_mem_mul (lone_mem_mark (gap 3) .parenLeft) hlist)
        (lone_mem_mark (gap 5) .parenRight))
  have hmem : _ ∈ (Item.variable ⟨.const, none, name, none,
      some (.construct type [.literal spelling kind .start] type.location),
      .start⟩).spellings .parenthesized :=
    Language.append_mem_mul (Language.append_mem_mul (Language.append_mem_mul
      (Language.append_mem_mul (Language.append_mem_mul (lone_mem_keyword (gap 0) .const)
        Language.nil_mem_one) (lone_mem_named (gap 1))) Language.nil_mem_one)
      (Language.append_mem_mul (lone_mem_mark (gap 2) .equal) hvalue))
      (lone_mem_mark (gap 6) .semicolon)
  simpa only [List.map_append, List.map_cons, List.map_nil, List.append_assoc,
    List.cons_append, List.nil_append, List.append_nil] using hmem

/-- Closing angles are read as such however they are written, directly behind one another and before
the `=` that follows them, or with any white space between them: a type is read from every layout of
it where it gives the type of a variable, where it is given a name, and where a value of it is
built. -/
theorem relocate_ofSource_type (htype : type.WellShaped)
    (hspelled : laid.map Laid.piece ∈ type.spellings .parenthesized) (hlaid : Laid.Legible laid)
    (hliteral : literal.literal? = some (spelling, kind)) (hvalue : literal.Spellable)
    (hname : (TokenKind.identifier name).Spellable)
    (hgap : ∀ i, ∀ c ∈ gap i, isWhiteSpace c = true) (hfirst : gap 1 ≠ []) :
    relocate (fun _ => .start) (ofSource (String.ofList (Spaced.textOf
        ([⟨gap 0, .keyword .var⟩, ⟨gap 1, .identifier name⟩, ⟨gap 2, .symbol .colon⟩] ++
          laid.map Laid.spaced ++
          [⟨gap 3, .symbol .equal⟩, ⟨gap 4, literal⟩, ⟨gap 5, .symbol .semicolon⟩]) (gap 6)))) =
      relocate (fun _ => .start) (.ok [⟨[], .variable ⟨.var, none, name, some type,
        some (.literal spelling kind .start), .start⟩⟩]) ∧
    relocate (fun _ => .start) (ofSource (String.ofList (Spaced.textOf
        ([⟨gap 0, .keyword .alias⟩, ⟨gap 1, .identifier name⟩, ⟨gap 2, .symbol .equal⟩] ++
          laid.map Laid.spaced ++ [⟨gap 3, .symbol .semicolon⟩]) (gap 4)))) =
      relocate (fun _ => .start) (.ok [⟨[], .alias name type .start⟩]) ∧
    (type.parameters ≠ .none → type.name ≠ "bitcast" → type.attributes = [] →
      relocate (fun _ => .start) (ofSource (String.ofList (Spaced.textOf
          ([⟨gap 0, .keyword .const⟩, ⟨gap 1, .identifier name⟩, ⟨gap 2, .symbol .equal⟩] ++
            laid.map Laid.spaced ++
            [⟨gap 3, .symbol .parenLeft⟩, ⟨gap 4, literal⟩, ⟨gap 5, .symbol .parenRight⟩,
              ⟨gap 6, .symbol .semicolon⟩]) (gap 7)))) =
        relocate (fun _ => .start) (.ok [⟨[], .variable ⟨.const, none, name, none,
          some (.construct type [.literal spelling kind .start] type.location), .start⟩⟩])) := by
  have hmark := TokenKind.ne_symbol_of_literal? hliteral
  have hfront (word : Keyword) {m : Symbol} (hm : m = .colon ∨ m = .equal) :=
    Laid.readable_front hname hgap hfirst word hm
  refine ⟨?_, ?_, fun hparameters hbitcast hattributes => ?_⟩
  · have hshape : (Item.variable ⟨.var, none, name, some type,
        some (.literal spelling kind .start), .start⟩).WellShaped :=
      Variable.WellShaped.mk (by simp) (by simp) (by simp) (by simpa using htype)
        (by simp [Expression.WellShaped])
    have h := relocate_ofSource_between hshape
      (initialized_mem name hspelled hliteral) hspelled hlaid (hfront .var (.inl rfl))
      (Laid.readable_initializer hvalue hmark hgap)
      (by simp [Laid.lone, Piece.kind]) (by simp) (hgap 6)
    rwa [Laid.textOf, List.map_append, List.map_append] at h
  · have hback : Laid.Readable [Laid.lone (gap 3) (.symbol .semicolon)] :=
      ⟨by simpa [Laid.lone] using hgap 3, by simp [Laid.lone, Piece.kind, TokenKind.Spellable],
        .singleton _⟩
    have hshape : (Item.alias name type .start).WellShaped := htype
    have h := relocate_ofSource_between hshape (alias_mem name hspelled) hspelled hlaid
      (hfront .alias (.inr rfl)) hback
      (by simp [Laid.lone, Piece.kind]) (by simp [Laid.lone, Piece.kind]) (hgap 4)
    rwa [Laid.textOf, List.map_append, List.map_append] at h
  · have hbegins : type.BeginsValue := by
      refine ⟨hattributes, ?_⟩
      cases hp : type.parameters with
      | none => exact absurd hp hparameters
      | _ => exact hbitcast
    have hvalue' : (Expression.construct type [.literal spelling kind .start]
        type.location).WellShaped := ⟨hbegins, htype, trivial, trivial⟩
    have hshape : (Item.variable ⟨.const, none, name, none,
        some (.construct type [.literal spelling kind .start] type.location), .start⟩).WellShaped :=
      Variable.WellShaped.mk (by simp) (by simp) (by simp) (by simp) (by simpa using hvalue')
    have h := relocate_ofSource_between hshape
      (constructed_mem name hspelled hattributes hliteral) hspelled hlaid
      (hfront .const (.inr rfl)) (Laid.readable_argument hvalue hmark hgap)
      (by simp [Laid.lone, Piece.kind]) (by simp [Laid.lone, Piece.kind]) (hgap 7)
    rwa [Laid.textOf, List.map_append, List.map_append] at h

/-- In `var v:array<vec2<f32>>=1;` both angles and the `=` are one token. -/
theorem relocate_ofSource_type_of_vectors :
    relocate (fun _ => .start) (ofSource "var v:array<vec2<f32>>=1;") =
      relocate (fun _ => .start) (.ok [⟨[], .variable ⟨.var, none, "v",
        some ⟨[], "array", .element ⟨[], "vec2", .element ⟨[], "f32", .none, .start⟩ none, .start⟩
          none, .start⟩,
        some (.literal "1" .abstractInt .start), .start⟩⟩]) ∧
    relocate (fun _ => .start) (ofSource "alias v=array<vec2<f32>>;") =
      relocate (fun _ => .start) (.ok [⟨[], .alias "v" ⟨[], "array", .element ⟨[], "vec2",
        .element ⟨[], "f32", .none, .start⟩ none, .start⟩ none, .start⟩ .start⟩]) ∧
    relocate (fun _ => .start) (ofSource "const v=array<vec2<f32>>(1);") =
      relocate (fun _ => .start) (.ok [⟨[], .variable ⟨.const, none, "v", none,
        some (.construct ⟨[], "array", .element ⟨[], "vec2",
          .element ⟨[], "f32", .none, .start⟩ none, .start⟩ none, .start⟩
          [.literal "1" .abstractInt .start] .start), .start⟩⟩]) := by
  let pieces : List Laid := [.lone [] (.identifier "array"), .lone [] (.symbol .lessThan),
    .lone [] (.identifier "vec2"), .lone [] (.symbol .lessThan), .lone [] (.identifier "f32"),
    ⟨[], .angle⟩, ⟨[], .angle⟩]
  have hname (n : String) : [(Laid.lone [] (.identifier n)).piece] ∈ word n .start := ⟨_, rfl, rfl⟩
  have helement {t : TypeSpecifier} {ps : List Piece} (n : String)
      (h : ps ∈ t.spellings .parenthesized) :
      _ ∈ (⟨[], n, .element t none, .start⟩ : TypeSpecifier).spellings .parenthesized :=
    Language.append_mem_mul (Language.append_mem_mul Language.nil_mem_one (hname n))
      (Language.append_mem_mul (Language.append_mem_mul (Language.append_mem_mul
        (lone_mem_mark [] .lessThan) h) Language.nil_mem_one)
        (Language.append_mem_mul (.inl rfl) (rfl : [Piece.angle] ∈ angle)))
  have hf32 : _ ∈ (⟨[], "f32", .none, .start⟩ : TypeSpecifier).spellings .parenthesized :=
    Language.append_mem_mul (Language.append_mem_mul Language.nil_mem_one (hname "f32"))
      Language.nil_mem_one
  have hspelled : pieces.map Laid.piece ∈ _ := helement "array" (helement "vec2" hf32)
  have hlegible : Laid.Legible pieces := by
    refine ⟨by simp [pieces, Laid.lone], ?_, ?_⟩
    · simp only [pieces, List.forall_mem_cons]
      exact ⟨⟨⟨rfl, rfl⟩, by decide⟩, trivial, ⟨⟨rfl, rfl⟩, by decide⟩, trivial,
        ⟨⟨rfl, rfl⟩, by decide⟩, trivial, trivial, by simp⟩
    · have hopens (n : String) {c : Char} (hfirst : n.toList.head? = some c)
          (hn : (TokenKind.symbol .lessThan).EndsBefore c) :
          (Laid.lone [] (.symbol .lessThan)).Meets (.lone [] (.identifier n)) :=
        fun _ => .inr fun c' hc' => by
          cases hfirst.symm.trans hc'
          exact hn
      have hends (n : String) {b : Laid} {c : Char}
          (hfirst : b.piece.kind.text.toList.head? = some c) (hb : continuesWord c = false) :
          (Laid.lone [] (.identifier n)).Meets b :=
        fun _ => .inr fun c' hc' => by
          cases hfirst.symm.trans hc'
          exact hb
      exact .cons_cons (hends _ rfl rfl) (.cons_cons (hopens _ rfl (by decide +kernel))
        (.cons_cons (hends _ rfl rfl) (.cons_cons (hopens _ rfl (by decide +kernel))
        (.cons_cons (hends _ rfl rfl) (.cons_cons (fun _ => .inl ⟨rfl, rfl⟩)
        (.singleton _))))))
  have hone : (TokenKind.number "1").Spellable :=
    .inl (.inl (.inl ⟨['1'], ⟨by simp, List.all_eq_true.1 rfl⟩, [], .inl rfl, rfl⟩))
  have htype : TypeSpecifier.WellShaped ⟨[], "array", .element ⟨[], "vec2",
      .element ⟨[], "f32", .none, .start⟩ none, .start⟩ none, .start⟩ := by
    simp [TypeSpecifier.WellShaped, TypeParameters.WellShaped, attributesWellShaped]
  have hliteral : (TokenKind.number "1").literal? = some ("1", .abstractInt) := rfl
  have hv : (TokenKind.identifier "v").Spellable := ⟨⟨rfl, rfl⟩, by decide⟩
  have hgap : ∀ i : Nat, ∀ c ∈ (if i = 1 then [' '] else []), isWhiteSpace c = true := by
    intro i
    split
    · exact List.forall_mem_singleton.2 rfl
    · exact List.forall_mem_nil _
  have h := relocate_ofSource_type htype hspelled hlegible hliteral hone hv hgap (by simp)
  exact ⟨h.1, h.2.1, h.2.2 (by simp) (by decide) rfl⟩

end

end Module

end Wgsl
