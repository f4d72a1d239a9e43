import Wgsl.Proofs.Lexical.Longest

/-!
# Tokens without white space between them

Tokens may be written directly behind one another where the first one ends before the character that
the second begins with (`TokenKind.EndsBefore`). Only that one character decides: whether a word or
a number goes on with it, and whether a symbol and it begin a longer symbol, a comment or a number.
A token that can be spelled is then read up to there and no further (`tokensFrom_of_endsBefore`).
-/

namespace Wgsl

open Text

/-- A token of the kind does not go on with the character. -/
def TokenKind.EndsBefore (kind : TokenKind) (c : Char) : Prop :=
  match kind with
  | .identifier _ | .keyword _ => continuesWord c = false
  | .number _ => Numeral.goesOn c = false
  | .symbol mark =>
    (∀ longer : Symbol, ¬mark.lexeme.toList ++ [c] <+: longer.lexeme.toList) ∧
      (mark = .slash → c ≠ '/' ∧ c ≠ '*') ∧ (mark = .period → c.isDigit = false)
  | .invalid _ _ | .endOfFile => False

/-- A token of the kind ends before the text. -/
def TokenKind.EndsBeforeText (kind : TokenKind) (text : List Char) : Prop :=
  ∀ c ∈ text.head?, kind.EndsBefore c

/-! ## Symbols -/

/-- Two characters that begin a text are in its first part, or the first part is one of them. -/
theorem prefix_append_or {a b : Char} {text rest : List Char} (hne : text ≠ [])
    (h : [a, b] <+: text ++ rest) : [a, b] <+: text ∨ text = [a] ∧ b ∈ rest.head? := by
  obtain ⟨c, tail, rfl⟩ := List.exists_cons_of_ne_nil hne
  rw [List.cons_append, List.cons_prefix_cons] at h
  obtain ⟨rfl, h⟩ := h
  cases tail with
  | nil =>
    obtain ⟨more, rfl⟩ := h
    exact .inr ⟨rfl, rfl⟩
  | cons d tail =>
    rw [List.cons_append, List.cons_prefix_cons] at h
    exact .inl (by simp [h.1])

namespace Symbol

variable {mark : Symbol} {rest : List Char}

/-- A symbol that ends before the rest is the longest there. -/
theorem scan_append_of_endsBefore (h : (TokenKind.symbol mark).EndsBeforeText rest) :
    scan (mark.lexeme.toList ++ rest) = some (mark, rest) := by
  refine scan_eq_some_iff.2 ⟨rfl, fun other hother => ?_⟩
  rcases List.prefix_or_prefix_of_prefix hother (List.prefix_append _ rest) with hle | hgoes
  · exact hle.length_le
  · -- a longer one would go on with the rest
    obtain ⟨more, hmore⟩ := hgoes
    rw [← hmore] at hother ⊢
    cases more with
    | nil => rw [List.append_nil]
    | cons c more =>
      obtain ⟨behind, rfl⟩ := (List.prefix_append_right_inj _).1 hother
      exact absurd ⟨more, by rw [← hmore, List.append_assoc]; rfl⟩ ((h c rfl).1 other)

/-- A symbol that ends where it does begins no number with what follows. -/
theorem begins_of_endsBefore (h : (TokenKind.symbol mark).EndsBeforeText rest) :
    Numeral.begins (mark.lexeme.toList ++ rest) = false := by
  have hdigit := mark.isDigit_lexeme
  obtain ⟨c, tail, hlexeme⟩ := List.exists_cons_of_ne_nil mark.lexeme_ne_nil
  rw [hlexeme, List.cons_append, Numeral.begins, hdigit c (hlexeme ▸ List.mem_cons_self),
    Bool.false_or, Bool.and_eq_false_iff]
  by_cases hpoint : c = '.'
  · subst hpoint
    refine .inr ?_
    cases tail with
    | nil =>
      have hperiod : mark = .period := lexeme_injective (String.toList_inj.1 hlexeme)
      rw [List.nil_append, Option.any_eq_false]
      exact fun d hd => by simpa using (h d hd).2.2 hperiod
    | cons d tail =>
      simpa using hdigit d (hlexeme ▸ List.mem_cons_of_mem _ List.mem_cons_self)
  · exact .inl (by simpa using hpoint)

end Symbol

/-! ## Every token -/

namespace TokenKind

variable {kind : TokenKind} {rest : List Char}

@[simp] theorem endsBeforeText_nil : kind.EndsBeforeText [] := by simp [EndsBeforeText]

@[simp] theorem endsBeforeText_cons {c : Char} :
    kind.EndsBeforeText (c :: rest) ↔ kind.EndsBefore c := by
  simp [EndsBeforeText]

/-- A token that can be spelled begins no comment with what it ends before. -/
theorem Spellable.not_comment (hkind : kind.Spellable) (h : kind.EndsBeforeText rest) :
    ¬['/', '/'] <+: kind.text.toList ++ rest ∧ ¬['/', '*'] <+: kind.text.toList ++ rest := by
  have hparted : Parted [] := by simp [Parted]
  have hread := hkind.scanToken_append hparted
  obtain ⟨-, hline, hblock⟩ := hkind.not_layout hparted
  rw [List.append_nil] at hread hline hblock
  -- the only token that is spelled with the first character of a comment is the slash
  have hslash (htext : kind.text.toList = ['/']) : kind = .symbol .slash := by
    have hslash : scanToken ['/'] = some (.symbol .slash, []) := by decide +kernel
    rw [htext, hslash] at hread
    exact (Prod.mk.inj (Option.some.inj hread)).1.symm
  constructor
  · intro hbegins
    rcases prefix_append_or (scanToken_text_ne_nil hread) hbegins with hin | ⟨htext, hrest⟩
    · exact hline hin
    · obtain rfl := hslash htext
      exact ((h _ hrest).2.1 rfl).1 rfl
  · intro hbegins
    rcases prefix_append_or (scanToken_text_ne_nil hread) hbegins with hin | ⟨htext, hrest⟩
    · exact hblock hin
    · obtain rfl := hslash htext
      exact ((h _ hrest).2.1 rfl).2 rfl

/-- A token that can be spelled is no layout. -/
theorem Spellable.skip_of_endsBefore (hkind : kind.Spellable) (h : kind.EndsBeforeText rest)
    (l : Location) : Layout.skip ⟨l, kind.text.toList ++ rest⟩ = ⟨l, kind.text.toList ++ rest⟩ := by
  obtain ⟨hline, hblock⟩ := hkind.not_comment h
  have hparted : Parted [] := by simp [Parted]
  have hblank := (hkind.not_layout hparted).1
  have hread := hkind.scanToken_append hparted
  rw [List.append_nil] at hblank
  exact Layout.skip_eq_self (hblank.append_of_ne_nil (scanToken_text_ne_nil hread) rest) hline
    hblock l

/-- A token that can be spelled is read where it ends before the rest. -/
theorem Spellable.scanToken_of_endsBefore (hkind : kind.Spellable) (h : kind.EndsBeforeText rest) :
    scanToken (kind.text.toList ++ rest) = some (kind, rest) := by
  have hblock := (hkind.not_comment h).2
  cases kind with
  | keyword word =>
    have hwordKind : wordKind word.lexeme = .keyword word := by
      rw [wordKind, Keyword.ofWord?_eq_some_iff.2 rfl]
    simpa [text, hwordKind] using scanToken_word word.isWord_lexeme h
  | symbol mark =>
    have hscan := Symbol.scan_append_of_endsBefore h
    have hnumber := Symbol.begins_of_endsBefore h
    obtain ⟨c, tail, hlexeme⟩ := List.exists_cons_of_ne_nil mark.lexeme_ne_nil
    rw [text] at hblock ⊢
    rw [hlexeme, List.cons_append] at hscan hnumber hblock ⊢
    rw [scanToken]
    · rw [hnumber, mark.startsWord_lexeme c (hlexeme ▸ List.mem_cons_self), hscan]
      rfl
    · rintro more rfl hmore
      exact hblock ⟨more, by simp [hmore]⟩
  | identifier name =>
    have hwordKind : wordKind name = .identifier name := by rw [wordKind, hkind.2]
    simpa [text, hwordKind] using scanToken_word hkind.1 h
  | number spelling => simpa [text] using scanToken_literal hkind h
  | invalid | endOfFile => exact hkind.elim

/-- White space goes on no token. -/
theorem Spellable.endsBefore_of_isWhiteSpace (hkind : kind.Spellable) {c : Char}
    (hc : isWhiteSpace c = true) : kind.EndsBefore c := by
  have hword := continuesWord_of_isWhiteSpace hc
  have hplain {d : Char} (hd : isWhiteSpace d = false) : c ≠ d := by
    rintro rfl
    rw [hc] at hd
    cases hd
  cases kind with
  | keyword | identifier => exact hword
  | number => simpa [EndsBefore, Numeral.goesOn, hword] using hplain (d := '.') (by decide)
  | symbol mark =>
    refine ⟨?_, fun _ => ⟨hplain (by decide), hplain (by decide)⟩, fun _ => ?_⟩
    · rintro longer ⟨more, hmore⟩
      have hnone := longer.isWhiteSpace_lexeme
      rw [← hmore] at hnone
      simp [hc] at hnone
    · by_contra hdigit
      rw [continuesWord_of_isAlphanum (by simp [Char.isAlphanum, hdigit])] at hword
      cases hword
  | invalid | endOfFile => exact hkind.elim

end TokenKind

/-- White space separates. -/
theorem Layout.mem_separators_of_blank {before : List Char}
    (hblank : ∀ c ∈ before, isWhiteSpace c = true) : before ∈ separators := by
  induction before with
  | nil => exact nil_mem_separators
  | cons c before ih =>
    obtain ⟨hc, hbefore⟩ := List.forall_mem_cons.1 hblank
    exact append_mem_separators (a := [c]) (.inl (.inl ⟨c, hc, rfl⟩)) (ih hbefore)

/-- Behind white space, a token that can be spelled is the first to be read. -/
theorem tokensFrom_of_endsBefore {kind : TokenKind} {before rest : List Char}
    (hblank : ∀ c ∈ before, isWhiteSpace c = true) (hkind : kind.Spellable)
    (h : kind.EndsBeforeText rest) (l : Location) :
    tokensFrom ⟨l, before ++ (kind.text.toList ++ rest)⟩ = ⟨kind, l.after before⟩ ::
      tokensFrom ⟨(l.after before).after kind.text.toList, rest⟩ := by
  have hskip : Layout.skip ⟨l, before ++ (kind.text.toList ++ rest)⟩ =
      ⟨l.after before, kind.text.toList ++ rest⟩ := by
    rw [Layout.skip_separators (Layout.mem_separators_of_blank hblank), hkind.skip_of_endsBefore h]
  exact tokensFrom_of_scanToken hskip (hkind.scanToken_of_endsBefore h)

/-- Where only white space is left, the file ends. -/
theorem tokensFrom_blank {text : List Char} (hblank : ∀ c ∈ text, isWhiteSpace c = true)
    (l : Location) : tokensFrom ⟨l, text⟩ = [⟨.endOfFile, l.after text⟩] := by
  have hskip := Layout.skip_separators (Layout.mem_separators_of_blank hblank) l []
  have hend : Layout.skip ⟨l.after text, []⟩ = ⟨l.after text, []⟩ := by rw [Layout.skip]
  rw [List.append_nil, hend] at hskip
  rw [tokensFrom, hskip]
  rfl

end Wgsl
