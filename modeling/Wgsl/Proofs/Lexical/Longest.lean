import Mathlib.Data.List.TakeWhile
import Wgsl.Proofs.Lexical.Walk

/-!
# Tokens reach as far as they can

Where several tokens could begin with the same characters, the longest one is read. `>>=` is one
symbol, `iff` is one identifier and `if` no part of it. `TokenKind.Furthest` says for each kind of
token what it is the longest of: a symbol, of the symbols that the text begins with; a word, of the
beginnings that consist of word characters. A word is a keyword if it is spelled like one, which is
only asked of the whole word. There is one exception: a point before a digit is no symbol, it begins
a number.

Every token of a text is so at the text from its location on (`furthest_of_mem_tokenize`). Only one
text can be meant by that, since every character moves the location
(`Place.Behind.text_eq_of_location`).
-/

namespace Wgsl

/-- Of the texts of a language, the longest that a text begins with. -/
structure Text.Longest (L : Language Char) (text part : List Char) : Prop where
  mem : part ∈ L
  begins : part <+: text
  length_le : ∀ other ∈ L, other <+: text → other.length ≤ part.length

/-- The spellings of the symbols. -/
def Symbol.lexemes : Language Char := {text | ∃ mark : Symbol, text = mark.lexeme.toList}

/-- The texts of word characters. -/
def Text.wordCharacters : Language Char := {text | ∀ c ∈ text, continuesWord c = true}

/-- A token of the kind reaches as far as it can into the text that it begins. -/
structure TokenKind.Furthest (kind : TokenKind) (text : List Char) : Prop where
  symbol : ∀ mark, kind = .symbol mark →
    Text.Longest Symbol.lexemes text mark.lexeme.toList ∧
      ¬['/', '/'] <+: text ∧ ¬['/', '*'] <+: text
  point : ∀ digit : Char, digit.isDigit = true → ['.', digit] <+: text →
    (∃ spelling, kind = .number spelling) ∨ ∃ spelling, kind = .invalid spelling .invalidNumber
  word : (kind.isKeyword = true ∨ ∃ name, kind = .identifier name) →
    Text.Longest Text.wordCharacters text kind.text.toList ∧
      (kind.isKeyword = true ↔
        ∃ keyword : TokenKind, keyword.isKeyword = true ∧ keyword.lexeme? = some kind.text)

/-! ## What the scanners take -/

/-- The lookaheads of the scanner come to the longest symbol that the text begins with. -/
theorem Symbol.longest_lexeme_of_scan {text behind : List Char} {mark : Symbol}
    (h : scan text = some (mark, behind)) : Text.Longest lexemes text mark.lexeme.toList := by
  obtain ⟨hsplit, hlongest⟩ := longest_of_scan h
  refine ⟨⟨mark, rfl⟩, ⟨behind, hsplit⟩, ?_⟩
  rintro _ ⟨other, rfl⟩ hother
  exact hlongest other hother

/-- The word characters that are taken are all there are. -/
theorem Text.longest_takeWhile (text : List Char) :
    Longest wordCharacters text (text.takeWhile continuesWord) := by
  refine ⟨fun c hc => List.mem_takeWhile_imp hc, List.takeWhile_prefix _, ?_⟩
  rintro other hother ⟨behind, rfl⟩
  rw [List.takeWhile_append_of_pos hother, List.length_append]
  exact Nat.le_add_right _ _

/-- A word is a keyword exactly when it is the spelling of one. -/
theorem isKeyword_wordKind_iff {word : String} : (wordKind word).isKeyword = true ↔
    ∃ keyword : TokenKind, keyword.isKeyword = true ∧ keyword.lexeme? = some word := by
  simp only [TokenKind.isKeyword_iff]
  constructor
  · rintro ⟨k, hkind⟩
    refine ⟨.keyword k, ⟨k, rfl⟩, ?_⟩
    rw [wordKind] at hkind
    split at hkind
    · rename_i hword
      obtain rfl := TokenKind.keyword.inj hkind
      exact congrArg some (Keyword.ofWord?_eq_some_iff.1 hword)
    · cases hkind
  · rintro ⟨_, ⟨k, rfl⟩, hlexeme⟩
    refine ⟨k, ?_⟩
    rw [wordKind, Keyword.ofWord?_eq_some_iff.2 (Option.some.inj hlexeme)]

/-- A word is no symbol and no number. -/
theorem wordKind_eq_or (word : String) :
    (∃ k, wordKind word = .keyword k) ∨ wordKind word = .identifier word := by
  rw [wordKind]
  split
  · exact .inl ⟨_, rfl⟩
  · exact .inr rfl

/-- What begins as a number is one, or a broken one. -/
theorem scanNumber_eq_or (text : List Char) :
    (∃ spelling, (scanNumber text).1 = .number spelling) ∨
      ∃ spelling, (scanNumber text).1 = .invalid spelling .invalidNumber := by
  simp only [scanNumber]
  split
  · exact .inl ⟨_, rfl⟩
  · exact .inr ⟨_, rfl⟩

/-- A point before a digit begins a number. -/
theorem Numeral.begins_of_point {digit : Char} (hdigit : digit.isDigit = true) {text : List Char}
    (h : ['.', digit] <+: text) : begins text = true := by
  obtain ⟨behind, rfl⟩ := h
  simp [begins, hdigit]

/-! ## Every token -/

section

variable {text behind : List Char}

/-- The end of the file and invalid text promise nothing where no number begins. -/
theorem TokenKind.Furthest.of_no_number {kind : TokenKind} (hnumber : Numeral.begins text = false)
    (hsymbol : ∀ mark, kind ≠ .symbol mark)
    (hword : ¬(kind.isKeyword = true ∨ ∃ name, kind = .identifier name)) : kind.Furthest text where
  symbol mark hmark := absurd hmark (hsymbol mark)
  point _ hdigit hbegins := by rw [Numeral.begins_of_point hdigit hbegins] at hnumber; cases hnumber
  word h := absurd h hword

/-- A number, or a broken one, is no symbol and no word. -/
theorem furthest_scanNumber : (scanNumber text).1.Furthest text where
  symbol mark hmark := by
    rcases scanNumber_eq_or text with ⟨_, h⟩ | ⟨_, h⟩ <;> rw [h] at hmark <;> cases hmark
  point _ _ _ := scanNumber_eq_or text
  word h := by
    rcases scanNumber_eq_or text with ⟨_, hkind⟩ | ⟨_, hkind⟩ <;> rw [hkind] at h <;>
      rcases h with ⟨⟨⟩⟩ | ⟨_, ⟨⟩⟩

/-- A word takes all the word characters there are. -/
theorem furthest_wordKind (hnumber : Numeral.begins text = false) :
    (wordKind (String.ofList (text.takeWhile Text.continuesWord))).Furthest text where
  symbol mark hmark := by
    rcases wordKind_eq_or (String.ofList (text.takeWhile Text.continuesWord)) with
      ⟨_, hkind⟩ | hkind <;> rw [hkind] at hmark <;> cases hmark
  point _ hdigit hbegins := by rw [Numeral.begins_of_point hdigit hbegins] at hnumber; cases hnumber
  word _ := by
    rw [isKeyword_wordKind_iff, text_wordKind, String.toList_ofList]
    exact ⟨Text.longest_takeWhile text, Iff.rfl⟩

/-- The symbol that is scanned is the longest one. -/
theorem furthest_symbol {mark : Symbol} (hnumber : Numeral.begins text = false)
    (hline : ¬['/', '/'] <+: text) (hblock : ¬['/', '*'] <+: text)
    (hscan : Symbol.scan text = some (mark, behind)) : (TokenKind.symbol mark).Furthest text where
  symbol := by
    rintro _ ⟨⟩
    exact ⟨Symbol.longest_lexeme_of_scan hscan, hline, hblock⟩
  point _ hdigit hbegins := by rw [Numeral.begins_of_point hdigit hbegins] at hnumber; cases hnumber
  word := by
    rintro (hkeyword | ⟨_, ⟨⟩⟩)
    rw [TokenKind.isKeyword_symbol] at hkeyword
    cases hkeyword

/-- The token that is scanned reaches as far as it can. -/
theorem furthest_of_scanToken {kind : TokenKind} (hline : ¬['/', '/'] <+: text)
    (h : scanToken text = some (kind, behind)) : kind.Furthest text := by
  rw [scanToken.eq_def] at h
  split at h
  · cases h
  · obtain ⟨rfl, -⟩ := Prod.mk.inj (Option.some.inj h)
    exact .of_no_number rfl (by rintro _ ⟨⟩) (by rintro (⟨⟨⟩⟩ | ⟨_, ⟨⟩⟩))
  · rename_i c rest hcomment
    split at h
    · have hkind : (scanNumber (c :: rest)).1 = kind := congrArg Prod.fst (Option.some.inj h)
      exact hkind ▸ furthest_scanNumber
    rename_i hnumber
    rw [Bool.not_eq_true] at hnumber
    split at h
    · rename_i hword
      obtain ⟨rfl, -⟩ := Prod.mk.inj (Option.some.inj h)
      rw [← List.takeWhile_cons_of_pos (Text.continuesWord_of_startsWord hword)]
      exact furthest_wordKind hnumber
    split at h
    · rename_i mark _ hscan
      obtain ⟨rfl, -⟩ := Prod.mk.inj (Option.some.inj h)
      refine furthest_symbol hnumber hline ?_ hscan
      rintro ⟨more, hmore⟩
      injection hmore with hfirst hrest
      exact hcomment _ hfirst.symm hrest.symm
    · obtain ⟨rfl, -⟩ := Prod.mk.inj (Option.some.inj h)
      exact .of_no_number hnumber (by rintro _ ⟨⟩) (by rintro (⟨⟨⟩⟩ | ⟨_, ⟨⟩⟩))

end

/-- What is behind a place at a location is known: every character moves the location. -/
theorem Place.Behind.text_eq_of_location {p : Place} {l : Location} {a b rest rest' : List Char}
    (h : p.Behind a ⟨l, rest⟩) (h' : p.Behind b ⟨l, rest'⟩) : rest = rest' := by
  -- the shorter part begins the longer one, and what it lacks would have moved the location
  have key {a b rest rest' : List Char} (h : p.Behind a ⟨l, rest⟩) (h' : p.Behind b ⟨l, rest'⟩)
      (hab : a <+: b) : rest = rest' := by
    obtain ⟨more, rfl⟩ := hab
    have hmore : more = [] := by
      by_contra hne
      have hmoved := h'.location_eq
      rw [Location.after_append, ← h.location_eq] at hmoved
      exact (Location.before_after l hne).ne hmoved
    subst hmore
    have htext : a ++ rest = a ++ [] ++ rest' := h.text_eq.trans h'.text_eq.symm
    simpa using htext
  have ha : a <+: p.text := ⟨rest, h.text_eq⟩
  have hb : b <+: p.text := ⟨rest', h'.text_eq⟩
  rcases List.prefix_or_prefix_of_prefix ha hb with hab | hba
  · exact key h h' hab
  · exact (key h' h hba).symm

/-- Every token of a text reaches as far as it can into the text from its location on, and only one
part of the text is what is from there on. -/
theorem furthest_of_mem_tokenize {source : String} {t : Token} (ht : t ∈ tokenize source) :
    ∃ before text, (Place.ofSource source).Behind before ⟨t.location, text⟩ ∧
      (∀ before' text', (Place.ofSource source).Behind before' ⟨t.location, text'⟩ →
        text' = text) ∧
      t.kind.Furthest text := by
  obtain ⟨ts, text, hwalk, hskip, hread⟩ := Walk.begin.exists_of_mem_tokensFrom ht
  obtain ⟨before, hbefore⟩ := hwalk.behind
  refine ⟨before, text, hbefore, fun _ _ h => h.text_eq_of_location hbefore, ?_⟩
  rcases hread with ⟨behind, htoken⟩ | ⟨rfl, hend⟩
  · have hline := (Layout.skip_stops ⟨t.location, text⟩).2
    rw [hskip] at hline
    exact furthest_of_scanToken hline htoken
  · rw [hend]
    exact .of_no_number rfl (by rintro _ ⟨⟩) (by rintro (⟨⟨⟩⟩ | ⟨_, ⟨⟩⟩))

/-- In `a>>=.5` the three characters behind the name are one symbol, with the number behind it. -/
theorem furthest_of_mem_tokenize_shift :
    ∃ before text, (Place.ofSource "a>>=.5").Behind before ⟨⟨1, 2⟩, text⟩ ∧
      (∀ before' text', (Place.ofSource "a>>=.5").Behind before' ⟨⟨1, 2⟩, text'⟩ →
        text' = text) ∧
      (TokenKind.symbol .shiftRightEqual).Furthest text :=
  furthest_of_mem_tokenize (t := ⟨.symbol .shiftRightEqual, ⟨1, 2⟩⟩) (by decide +kernel)

end Wgsl
