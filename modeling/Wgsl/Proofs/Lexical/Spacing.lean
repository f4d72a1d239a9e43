import Wgsl.Proofs.Lexical.Division
import Wgsl.Proofs.Lexical.Literal

/-!
# Reading what was spelled

A text that is written with tokens and separators is divided into the same tokens again, where each
token can be spelled (`TokenKind.Spellable`) and the separators behind it, if there are any, begin
with white space (`tokenize_textOf`).

Of the text behind a token only that is used: it is empty, or white space comes first
(`Text.Parted`). White space occurs in no token, so no mark reaches beyond the token it begins in
(`isPrefix_of_parted`), and a word or a number ends where it does.
-/

namespace Wgsl

namespace Text

/-- The text is empty or begins with white space. -/
def Parted (text : List Char) : Prop := Stops (fun c => !isWhiteSpace c) text

/-- The text is spelled as a word. -/
def IsWord (text : List Char) : Prop :=
  text.head?.any startsWord = true ∧ text.tail.all continuesWord = true

/-- A word has a first character, which starts words. -/
theorem IsWord.exists_cons {word : List Char} (h : IsWord word) :
    ∃ c tail, word = c :: tail ∧ startsWord c = true := by
  cases word with
  | nil => exact absurd h.1 Bool.false_ne_true
  | cons c tail => exact ⟨c, tail, rfl, h.1⟩

/-- White space is in no word. -/
theorem continuesWord_of_isWhiteSpace {c : Char} (h : isWhiteSpace c = true) :
    continuesWord c = false := by
  have hnone : ∀ r ∈ whiteSpaceRanges, ∀ code ∈ List.range' r.1 (r.2 + 1 - r.1),
      continuesWord (Char.ofNat code) = false := by decide +kernel
  obtain ⟨r, hr, hfirst, hlast⟩ := (covers_iff ascending_whiteSpaceRanges c.toNat).1 h
  have hcode : c.toNat ∈ List.range' r.1 (r.2 + 1 - r.1) := List.mem_range'_1.2 (by omega)
  simpa using hnone r hr c.toNat hcode

/-- What continues a word is not white. -/
theorem isWhiteSpace_of_continuesWord {c : Char} (h : continuesWord c = true) :
    isWhiteSpace c = false := by
  by_contra hblank
  rw [continuesWord_of_isWhiteSpace (by simpa using hblank)] at h
  exact Bool.false_ne_true h

/-- What parts texts stops every class without white space. -/
theorem Parted.stops {rest : List Char} (hrest : Parted rest) {p : Char → Bool}
    (hp : ∀ c, isWhiteSpace c = true → p c = false) : Stops p rest := by
  refine Stops.mono hrest fun c hc => ?_
  by_contra hblank
  rw [hp c (by simpa using hblank)] at hc
  exact Bool.false_ne_true hc

/-- A mark without white space that begins a parted text is within what stands before the white
space. -/
theorem isPrefix_of_parted {mark text rest : List Char}
    (hmark : mark.all (fun c => !isWhiteSpace c) = true) (hrest : Parted rest)
    (h : mark <+: text ++ rest) : mark <+: text := by
  induction text generalizing mark with
  | nil =>
    rw [List.nil_append] at h
    obtain ⟨more, rfl⟩ := h
    cases mark with
    | nil => exact List.prefix_rfl
    | cons c mark =>
      have hblank : isWhiteSpace c = true := by simpa [Parted] using hrest
      simp [hblank] at hmark
  | cons c text ih =>
    cases mark with
    | nil => exact List.nil_prefix
    | cons d mark =>
      rw [List.cons_append, List.cons_prefix_cons] at h
      rw [List.all_cons, Bool.and_eq_true] at hmark
      exact List.cons_prefix_cons.2 ⟨h.1, ih hmark.2 h.2⟩

end Text

open Text

/-! ## Symbols -/

namespace Symbol

/-- Symbols have no white space. -/
theorem isWhiteSpace_lexeme (s : Symbol) :
    s.lexeme.toList.all (fun c => !isWhiteSpace c) = true := by
  cases s <;> rfl

/-- Nothing in a symbol starts a word. -/
theorem startsWord_lexeme (s : Symbol) : ∀ c ∈ s.lexeme.toList, startsWord c = false := by
  have hnone : s.lexeme.toList.all (fun c => !startsWord c) = true := by cases s <;> rfl
  simpa only [List.all_eq_true, Bool.not_eq_true'] using hnone

/-- No symbol has digits. -/
theorem isDigit_lexeme (s : Symbol) : ∀ c ∈ s.lexeme.toList, c.isDigit = false := by
  have hnone : s.lexeme.toList.all (fun c => !c.isDigit) = true := by cases s <;> rfl
  simpa only [List.all_eq_true, Bool.not_eq_true'] using hnone

/-- No symbol begins as a comment does. -/
theorem not_comment (s : Symbol) :
    ¬['/', '/'] <+: s.lexeme.toList ∧ ¬['/', '*'] <+: s.lexeme.toList := by
  rw [← List.isPrefixOf_iff_prefix, ← List.isPrefixOf_iff_prefix]
  cases s <;> exact ⟨Bool.false_ne_true, Bool.false_ne_true⟩

/-- A symbol with white space behind it is the longest symbol there. -/
theorem scan_append (s : Symbol) {rest : List Char} (hrest : Parted rest) :
    scan (s.lexeme.toList ++ rest) = some (s, rest) := by
  refine scan_eq_some_iff.2 ⟨rfl, fun other hother => ?_⟩
  exact (isPrefix_of_parted other.isWhiteSpace_lexeme hrest hother).length_le

end Symbol

/-! ## Tokens -/

/-- Every keyword is a word. -/
theorem Keyword.isWord_lexeme (word : Keyword) : IsWord word.lexeme.toList := by
  cases word <;> exact ⟨rfl, rfl⟩

namespace TokenKind

/-- A token that has a spelling of its own: a keyword, a symbol, an identifier, a number that is a
literal. -/
def Spellable : TokenKind → Prop
  | .keyword _ | .symbol _ => True
  | .identifier name => IsWord name.toList ∧ Keyword.ofWord? name = none
  | .number spelling => spelling.toList ∈ Numeral.literals
  | .invalid _ _ | .endOfFile => False

end TokenKind

/-- What begins with neither white space nor a comment is not skipped. -/
theorem Layout.skip_eq_self {text : List Char} (hblank : Stops isWhiteSpace text)
    (hline : ¬['/', '/'] <+: text) (hblock : ¬['/', '*'] <+: text) (l : Location) :
    skip ⟨l, text⟩ = ⟨l, text⟩ := by
  rw [skip.eq_def]
  split
  · rename_i rest heq
    exact absurd ⟨_, (Place.mk.inj heq).2.symm⟩ hline
  · rename_i rest heq
    exact absurd ⟨_, (Place.mk.inj heq).2.symm⟩ hblock
  · rename_i c rest _ _ heq
    obtain ⟨rfl, rfl⟩ := Place.mk.inj heq
    rw [stops_cons.1 hblank]
    rfl
  · rename_i heq
    exact heq.symm

/-! ## One token -/

/-- No word begins with a digit. -/
theorem startsWord_of_isDigit {c : Char} (h : c.isDigit = true) : startsWord c = false := by
  have hnone : ∀ code ∈ List.range' 48 10, startsWord (Char.ofNat code) = false := by
    decide +kernel
  simp only [Char.isDigit, Bool.and_eq_true, decide_eq_true_eq, ge_iff_le,
    UInt32.le_iff_toNat_le] at h
  have hcode : c.toNat ∈ List.range' 48 10 := List.mem_range'_1.2 ⟨h.1, Nat.lt_succ_of_le h.2⟩
  simpa using hnone c.toNat hcode

/-- No word begins as a number does. -/
theorem begins_of_startsWord {c : Char} (h : startsWord c = true) (rest : List Char) :
    Numeral.begins (c :: rest) = false := by
  have hpoint : c ≠ '.' := by
    rintro rfl
    exact absurd h (by decide)
  have hdigit : c.isDigit = false := by
    by_contra hd
    rw [startsWord_of_isDigit (by simpa using hd)] at h
    exact Bool.false_ne_true h
  simp [Numeral.begins, hpoint, hdigit]

/-- No word starts with a slash. -/
theorem ne_slash_of_startsWord {c : Char} (h : startsWord c = true) : c ≠ '/' := by
  rintro rfl
  exact absurd h (by decide)

/-- Where neither a comment opens nor a number begins, a word is read. -/
theorem scanToken_word {word rest : List Char} (hword : IsWord word)
    (hrest : Stops continuesWord rest) :
    scanToken (word ++ rest) = some (wordKind (String.ofList word), rest) := by
  obtain ⟨c, tail, rfl, hstart⟩ := hword.exists_cons
  obtain ⟨htaken, hdropped⟩ := takeWhile_append (List.all_eq_true.1 hword.2) hrest
  rw [List.cons_append, scanToken]
  · rw [begins_of_startsWord hstart, hstart]
    simp only [List.tail_cons] at htaken hdropped
    simp [htaken, hdropped]
  · rintro more rfl
    exact absurd rfl (ne_slash_of_startsWord hstart)

/-- A number that is a literal is read where nothing behind it could go on it. -/
theorem scanToken_literal {text rest : List Char} (htext : text ∈ Numeral.literals)
    (hrest : Stops Numeral.goesOn rest) :
    scanToken (text ++ rest) = some (.number (String.ofList text), rest) := by
  obtain ⟨hbegins, hformed, hspelling, hleft⟩ := Numeral.scan_literal_append htext hrest
  have htrailing : rest.takeWhile continuesWord = [] := by
    refine (takeWhile_append (a := []) (by simp) (hrest.mono fun c hc => ?_)).1
    simp [Numeral.goesOn, hc]
  have hnumber : scanNumber (text ++ rest) = (.number (String.ofList text), rest) := by
    simp [scanNumber, hformed, hspelling, hleft, htrailing]
  rw [← hnumber]
  cases htext' : text ++ rest with
  | nil => simp [htext', Numeral.begins] at hbegins
  | cons c more =>
    rw [htext'] at hbegins
    rw [scanToken]
    · rw [if_pos hbegins]
    · rintro more rfl
      simp [Numeral.begins] at hbegins

/-- Where a symbol stands with white space behind it, no number begins. -/
theorem begins_symbol (s : Symbol) {rest : List Char} (hrest : Parted rest) :
    Numeral.begins (s.lexeme.toList ++ rest) = false := by
  have hdigit := s.isDigit_lexeme
  by_contra hbegins
  rw [Bool.not_eq_false] at hbegins
  obtain ⟨c, tail, hlexeme⟩ := List.exists_cons_of_ne_nil s.lexeme_ne_nil
  rw [hlexeme, List.cons_append, Numeral.begins, hdigit c (hlexeme ▸ List.mem_cons_self),
    Bool.false_or, Bool.and_eq_true, Option.any_eq_true] at hbegins
  obtain ⟨-, d, hd, hdd⟩ := hbegins
  obtain ⟨more, hmore⟩ : ∃ more, tail ++ rest = d :: more := by
    cases htext : tail ++ rest with
    | nil => simp [htext] at hd
    | cons e more => exact ⟨more, by simp_all⟩
  -- the digit would have to be one of the symbol's characters
  have hbegun : [c, d] <+: s.lexeme.toList := by
    refine isPrefix_of_parted ?_ hrest ⟨more, by simp [hlexeme, hmore]⟩
    have hc := s.isWhiteSpace_lexeme
    have hd := isWhiteSpace_of_continuesWord
      (continuesWord_of_isAlphanum (c := d) (by simp [Char.isAlphanum, hdd]))
    rw [hlexeme, List.all_cons, Bool.and_eq_true] at hc
    simp [hc.1, hd]
  rw [hdigit d (hbegun.subset (by simp))] at hdd
  exact Bool.false_ne_true hdd

/-- A symbol is scanned as it is where something parts it from the rest. -/
theorem scanToken_symbol (s : Symbol) {rest : List Char} (hrest : Parted rest) :
    scanToken (s.lexeme.toList ++ rest) = some (.symbol s, rest) := by
  have hscan := s.scan_append hrest
  have hnumber := begins_symbol s hrest
  obtain ⟨c, tail, hlexeme⟩ := List.exists_cons_of_ne_nil s.lexeme_ne_nil
  rw [hlexeme, List.cons_append] at hscan hnumber ⊢
  rw [scanToken]
  · rw [hnumber, s.startsWord_lexeme c (hlexeme ▸ List.mem_cons_self), hscan]
    rfl
  · rintro more rfl hmore
    exact s.not_comment.2
      (isPrefix_of_parted rfl hrest ⟨more, by simp [hlexeme, hmore]⟩)

namespace TokenKind

variable {kind : TokenKind}

/-- A token that can be spelled is read where it stands with white space behind it. -/
theorem Spellable.scanToken_append (h : kind.Spellable) {rest : List Char} (hrest : Parted rest) :
    scanToken (kind.text.toList ++ rest) = some (kind, rest) := by
  have hword : Stops continuesWord rest := hrest.stops fun c hc => continuesWord_of_isWhiteSpace hc
  cases kind with
  | keyword word =>
    have hkind : wordKind word.lexeme = .keyword word := by
      rw [wordKind, Keyword.ofWord?_eq_some_iff.2 rfl]
    simpa [text, hkind] using scanToken_word word.isWord_lexeme hword
  | symbol mark => exact scanToken_symbol mark hrest
  | identifier name =>
    have hkind : wordKind name = .identifier name := by rw [wordKind, h.2]
    simpa [text, hkind] using scanToken_word h.1 hword
  | number spelling =>
    have hnumber : Stops Numeral.goesOn rest := hrest.stops fun c hc => by
      have hpoint : c ≠ '.' := by
        rintro rfl
        exact absurd hc (by decide)
      simp [Numeral.goesOn, continuesWord_of_isWhiteSpace hc, hpoint]
    simpa [text] using scanToken_literal h hnumber
  | invalid | endOfFile => exact h.elim

/-- A token that can be spelled begins with neither white space nor a comment. -/
theorem Spellable.not_layout (h : kind.Spellable) {rest : List Char} (hrest : Parted rest) :
    Stops isWhiteSpace (kind.text.toList ++ rest) ∧ ¬['/', '/'] <+: kind.text.toList ++ rest ∧
      ¬['/', '*'] <+: kind.text.toList ++ rest := by
  have hplain {c : Char} (hc : continuesWord c = true ∨ c = '.') (more : List Char) :
      Stops isWhiteSpace (c :: more) ∧ ¬['/', '/'] <+: c :: more ∧ ¬['/', '*'] <+: c :: more := by
    have hslash : c ≠ '/' := by
      rintro rfl
      exact absurd hc (by decide)
    have hblank : isWhiteSpace c = false := by
      rcases hc with hword | rfl
      · exact isWhiteSpace_of_continuesWord hword
      · decide
    simp [hblank, List.cons_prefix_cons, hslash.symm]
  have hword {word : List Char} (hw : IsWord word) : Stops isWhiteSpace (word ++ rest) ∧
      ¬['/', '/'] <+: word ++ rest ∧ ¬['/', '*'] <+: word ++ rest := by
    obtain ⟨c, tail, rfl, hc⟩ := hw.exists_cons
    exact hplain (.inl (continuesWord_of_startsWord hc)) _
  cases kind with
  | keyword word => exact hword word.isWord_lexeme
  | symbol mark =>
    obtain ⟨hline, hblock⟩ := mark.not_comment
    obtain ⟨c, tail, hlexeme⟩ := List.exists_cons_of_ne_nil mark.lexeme_ne_nil
    refine ⟨?_, fun hp => hline (isPrefix_of_parted rfl hrest hp),
      fun hp => hblock (isPrefix_of_parted rfl hrest hp)⟩
    rw [text, hlexeme, List.cons_append, stops_cons]
    have hnone := mark.isWhiteSpace_lexeme
    rw [hlexeme, List.all_cons, Bool.and_eq_true, Bool.not_eq_true'] at hnone
    exact hnone.1
  | identifier name => exact hword h.1
  | number spelling =>
    have hbegins : Numeral.begins (spelling.toList ++ []) = true :=
      (Numeral.scan_literal_append h stops_nil).1
    rw [List.append_nil] at hbegins
    cases hspelling : spelling.toList with
    | nil => simp [hspelling, Numeral.begins] at hbegins
    | cons c tail =>
      rw [text, hspelling]
      refine hplain ?_ _
      simp only [hspelling, Numeral.begins, Bool.or_eq_true, Bool.and_eq_true, beq_iff_eq]
        at hbegins
      rcases hbegins with hdigit | ⟨hpoint, -⟩
      · exact .inl (continuesWord_of_isAlphanum (by simp [Char.isAlphanum, hdigit]))
      · exact .inr hpoint
  | invalid | endOfFile => exact h.elim

end TokenKind

/-! ## All tokens -/

/-- The tokens are those that are laid out, and the end of the file. -/
theorem Spaced.map_kind_tokensFrom (l : Location) (spaced : List Spaced) (behind : List Char) :
    (Spaced.tokensFrom l spaced behind).map Token.kind =
      spaced.map Spaced.kind ++ [.endOfFile] := by
  induction spaced generalizing l with
  | nil => rfl
  | cons s spaced ih =>
    rw [Spaced.tokensFrom, List.map_cons, ih, List.map_cons, List.cons_append]

/-- Tokens are read one by one: the first behind the layout, and those behind it. -/
theorem tokensFrom_of_scanToken {p q : Place} {kind : TokenKind} {rest : List Char}
    (hskip : Layout.skip p = q) (h : scanToken q.text = some (kind, rest)) :
    tokensFrom p = ⟨kind, q.location⟩ :: tokensFrom ⟨q.location.after kind.text.toList, rest⟩ := by
  subst hskip
  rw [tokensFrom]
  split
  · rename_i hnone
    simp [h] at hnone
  · rename_i hsome
    rw [h, Option.some.injEq, Prod.mk.injEq] at hsome
    rw [hsome.1, hsome.2]

/-- Where white space stands before every token and at the end, it comes first. -/
theorem Spaced.parted_textOf {spaced : List Spaced} {behind : List Char}
    (hparted : ∀ s ∈ spaced, ∃ c ∈ s.before.head?, isWhiteSpace c = true)
    (hlast : spaced = [] → Parted behind) : Parted (Spaced.textOf spaced behind) := by
  cases spaced with
  | nil => exact hlast rfl
  | cons s spaced =>
    obtain ⟨c, hc, hblank⟩ := hparted s List.mem_cons_self
    cases hbefore : s.before with
    | nil => simp [hbefore] at hc
    | cons d before =>
      obtain rfl : d = c := by simpa [hbefore] using hc
      simp [Spaced.text, hbefore, Parted, hblank]

/-- Written with separators between them, and white space before each separator behind a token,
tokens are read as they were written. -/
theorem tokensFrom_textOf {spaced : List Spaced} {behind : List Char}
    (hspellable : ∀ s ∈ spaced, s.kind.Spellable)
    (hbefore : ∀ s ∈ spaced, s.before ∈ Layout.separators) (hbehind : behind ∈ Layout.separators)
    (hparted : ∀ s ∈ spaced.tail, ∃ c ∈ s.before.head?, isWhiteSpace c = true)
    (hlast : spaced ≠ [] → Parted behind) (l : Location) :
    tokensFrom ⟨l, Spaced.textOf spaced behind⟩ = Spaced.tokensFrom l spaced behind := by
  induction spaced generalizing l with
  | nil =>
    have hskip := Layout.skip_separators hbehind l []
    have hend : Layout.skip ⟨l.after behind, []⟩ = ⟨l.after behind, []⟩ := by rw [Layout.skip]
    rw [List.append_nil, hend] at hskip
    rw [Spaced.textOf_nil, tokensFrom, Spaced.tokensFrom, hskip]
    rfl
  | cons s spaced ih =>
    have hkind := hspellable s List.mem_cons_self
    have hrest : Parted (Spaced.textOf spaced behind) := Spaced.parted_textOf hparted fun _ =>
      hlast (List.cons_ne_nil _ _)
    obtain ⟨hblank, hline, hblock⟩ := hkind.not_layout hrest
    have hskip : Layout.skip ⟨l, Spaced.textOf (s :: spaced) behind⟩ =
        ⟨l.after s.before, s.kind.text.toList ++ Spaced.textOf spaced behind⟩ := by
      rw [Spaced.textOf_cons, Spaced.text, List.append_assoc,
        Layout.skip_separators (hbefore s List.mem_cons_self),
        Layout.skip_eq_self hblank hline hblock]
    have hbehindToken := ih (fun s' hs' => hspellable s' (List.mem_cons_of_mem _ hs'))
      (fun s' hs' => hbefore s' (List.mem_cons_of_mem _ hs'))
      (fun s' hs' => hparted s' (List.mem_of_mem_tail hs')) (fun _ => hlast (List.cons_ne_nil _ _))
      (l.after s.text)
    rw [tokensFrom_of_scanToken hskip (hkind.scanToken_append hrest), ← Location.after_append,
      ← Spaced.text, hbehindToken, Spaced.tokensFrom]

/-- Dividing a text undoes its spelling: written with separators, none of them missing between two
tokens and each that follows a token beginning with white space, tokens are read as they were
written, located where their first character stands, and then the end of the file. -/
theorem tokenize_textOf {spaced : List Spaced} {behind : List Char}
    (hspellable : ∀ s ∈ spaced, s.kind.Spellable)
    (hbefore : ∀ s ∈ spaced, s.before ∈ Layout.separators) (hbehind : behind ∈ Layout.separators)
    (hparted : ∀ s ∈ spaced.tail, ∃ c ∈ s.before.head?, isWhiteSpace c = true)
    (hlast : spaced ≠ [] → ∀ c ∈ behind.head?, isWhiteSpace c = true) :
    tokenize (String.ofList (Spaced.textOf spaced behind)) =
        Spaced.tokensFrom .start spaced behind ∧
      (tokenize (String.ofList (Spaced.textOf spaced behind))).map Token.kind =
        spaced.map Spaced.kind ++ [.endOfFile] := by
  have htokens : tokenize (String.ofList (Spaced.textOf spaced behind)) =
      Spaced.tokensFrom .start spaced behind := by
    rw [tokenize, Place.ofSource, String.toList_ofList]
    refine tokensFrom_textOf hspellable hbefore hbehind hparted (fun hne c hc => ?_) .start
    simp [hlast hne c hc]
  exact ⟨htokens, by rw [htokens, Spaced.map_kind_tokensFrom]⟩

/-- A comment, and nothing at all, may separate tokens that do not run together. -/
theorem tokenize_textOf_shift_by_half :
    tokenize "a /* b */>>= .5f\n" =
      [⟨.identifier "a", ⟨1, 1⟩⟩, ⟨.symbol .shiftRightEqual, ⟨1, 10⟩⟩, ⟨.number ".5f", ⟨1, 14⟩⟩,
        ⟨.endOfFile, ⟨2, 1⟩⟩] := by
  have hblank {c : Char} (hc : isWhiteSpace c = true) :
      [c] ∈ Layout.blank + Layout.lineComment + Layout.blockComment := .inl (.inl ⟨c, hc, rfl⟩)
  have hspace {c : Char} (hc : isWhiteSpace c = true) : [c] ∈ Layout.separators :=
    Layout.append_mem_separators (hblank hc) Layout.nil_mem_separators
  have hinner : Layout.Block [' ', 'b', ' ', '*', '/'] :=
    .char (.char (.char .close (by simp) (by simp)) (by simp) (by simp)) (by simp) (by simp)
  have hcomment : "/* b */".toList ∈ Layout.blank + Layout.lineComment + Layout.blockComment :=
    .inr ⟨_, hinner, rfl⟩
  have hhalf : ".5f".toList ∈ Numeral.literals := by
    have hpointed : ['.', '5'] ∈ Numeral.pointed Char.isDigit :=
      .inr ⟨['.'], ⟨'.', by simp, rfl⟩, ['5'], ⟨by simp, List.all_eq_true.1 rfl⟩, rfl⟩
    exact .inl (.inl (.inr ⟨['.', '5'], .inl ⟨_, hpointed, [], .inl rfl, rfl⟩, ['f'],
      .inr ⟨'f', by simp, rfl⟩, rfl⟩))
  have hwritten := @tokenize_textOf
    [⟨[], .identifier "a"⟩, ⟨' ' :: "/* b */".toList, .symbol .shiftRightEqual⟩,
      ⟨[' '], .number ".5f"⟩] ['\n']
    (by
      simp only [List.forall_mem_cons]
      exact ⟨⟨⟨rfl, rfl⟩, by decide⟩, trivial, hhalf, by simp⟩)
    (by
      simp only [List.forall_mem_cons]
      refine ⟨Layout.nil_mem_separators, ?_, hspace (c := ' ') (by decide), by simp⟩
      exact Layout.append_mem_separators (hblank (c := ' ') (by decide))
        (Layout.append_mem_separators hcomment Layout.nil_mem_separators))
    (hspace (by decide))
    (by
      simp only [List.tail_cons, List.forall_mem_cons]
      exact ⟨⟨' ', rfl, by decide⟩, ⟨' ', rfl, by decide⟩, by simp⟩)
    (by
      rintro - c ⟨⟩
      decide)
  exact hwritten.1

end Wgsl
