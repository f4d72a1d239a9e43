import Mathlib.Data.List.TakeWhile
import Wgsl.Proofs.Lexical.Spacing
import Wgsl.Proofs.Lexical.Walk
import Wgsl.Tree.LiteralKind

/-!
# Numbers in a text

The numbers among the tokens of a text are literals, and every literal is read as a number
(`tokenize_eq_number_iff`). One direction is the scanner's: whatever it takes and finds well-formed
is divided as a literal is (`Numeral.canonical_of_scan`), and a numeral with such parts is spelled
as one (`Numeral.Regular.spelling_mem_literals`). The other has been shown where texts are written
down from tokens.

A literal is divided twice: by the scanner, and again when its kind is read off the spelling alone.
`Numeral.kind` is the kind that the scanned parts name. The two agree on every number but one sort
(`ofSpelling_eq_kind_iff`): behind a hexadecimal point the scanner takes an `h` for a suffix without
an exponent before it, and the spelling is not read so.
-/

namespace Wgsl

open Text

namespace Numeral

/-! ## What is scanned -/

section Scan

variable {p : Char → Bool} {text : List Char}

/-- Behind the characters that are taken none more could be. -/
theorem stops_dropWhile (p : Char → Bool) (text : List Char) : Stops p (text.dropWhile p) := by
  intro c hc
  have := List.head?_dropWhile_not p text
  rw [Option.mem_def] at hc
  simpa [hc] using this

/-- The mark of a hexadecimal numeral is an `x`, small or large. -/
theorem eq_of_mem_splitHexMarker {x : Char} (h : x ∈ (splitHexMarker text).1) :
    x = 'x' ∨ x = 'X' := by
  revert h
  fun_cases splitHexMarker text <;> simp +contextual [eq_comm]

/-- A fraction has digits only. -/
theorem digits_of_mem_splitFraction {ds : List Char} (h : ds ∈ (splitFraction p text).1) :
    ∀ c ∈ ds, p c = true := by
  revert h
  fun_cases splitFraction p text with
  | case1 rest =>
    rintro h c hc
    obtain rfl := Option.mem_some.1 h
    exact List.mem_takeWhile_imp hc
  | case2 => simp

/-- Behind the digits of a fraction, or where there is no point, no further digit stands. -/
theorem stops_splitFraction (h : Stops p text) : Stops p (splitFraction p text).2 := by
  fun_cases splitFraction p text with
  | case1 rest => exact stops_dropWhile p rest
  | case2 => exact h

/-- A sign is a plus or a minus. -/
theorem eq_of_mem_splitSign {c : Char} (h : c ∈ (splitSign text).1) : c = '+' ∨ c = '-' := by
  revert h
  fun_cases splitSign text <;> simp +contextual [eq_comm]

/-- An exponent has a marker, a sign perhaps, and decimal digits. -/
theorem parts_of_mem_splitExponent {e : Exponent} (h : e ∈ (splitExponent p text).1) :
    p e.marker = true ∧ (∀ c ∈ e.sign, c = '+' ∨ c = '-') ∧ ∀ c ∈ e.digits, c.isDigit = true := by
  revert h
  fun_cases splitExponent p text with
  | case1 c rest hc sign rest' hsign =>
    intro h
    obtain rfl := Option.mem_some.1 h
    have hs : (splitSign rest).1 = sign := by rw [hsign]
    exact ⟨hc, fun s h => eq_of_mem_splitSign (hs ▸ h), fun d => List.mem_takeWhile_imp⟩
  | case2 | case3 => simp

/-- Where there is no exponent nothing is taken. -/
theorem splitExponent_of_none (h : (splitExponent p text).1 = none) :
    (splitExponent p text).2 = text := by
  revert h
  fun_cases splitExponent p text <;> simp

/-- A suffix is the first character of what is left. -/
theorem head?_of_mem_splitSuffix {c : Char} (h : c ∈ (splitSuffix p text).1) :
    text.head? = some c ∧ p c = true := by
  revert h
  fun_cases splitSuffix p text with
  | case1 d rest hd =>
    intro h
    obtain rfl := Option.mem_some.1 h
    exact ⟨rfl, hd⟩
  | case2 | case3 => simp

/-- What is scanned has the parts of a literal, if it is well-formed. -/
theorem canonical_of_scan (h : (scan text).1.wellFormed = true) : (scan text).1.Canonical := by
  have hmarker : ∀ x ∈ (splitHexMarker text).1, x = 'x' ∨ x = 'X' :=
    fun x => eq_of_mem_splitHexMarker
  simp only [scan] at h ⊢
  generalize splitHexMarker text = split at h hmarker ⊢
  obtain ⟨hexMarker, digits⟩ := split
  have hstops := stops_splitFraction (stops_dropWhile (isDigitOf hexMarker.isSome) digits)
  have hfraction : ∀ ds ∈ (splitFraction (isDigitOf hexMarker.isSome)
      (digits.dropWhile (isDigitOf hexMarker.isSome))).1,
      ∀ c ∈ ds, isDigitOf hexMarker.isSome c = true := fun ds => digits_of_mem_splitFraction
  generalize splitFraction (isDigitOf hexMarker.isSome)
    (digits.dropWhile (isDigitOf hexMarker.isSome)) = split at h hstops hfraction ⊢
  obtain ⟨fraction, power⟩ := split
  refine ⟨⟨hmarker, fun c hc => List.mem_takeWhile_imp hc, hfraction,
    fun e he => (parts_of_mem_splitExponent he).1, fun e he => (parts_of_mem_splitExponent he).2.1,
    fun e he => (parts_of_mem_splitExponent he).2.2, fun c hc => (head?_of_mem_splitSuffix hc).2,
    h⟩, ?_⟩
  -- an `f` directly behind hexadecimal digits has been taken for one of them
  intro hhex hexponent hsuffix
  have hhead := (head?_of_mem_splitSuffix hsuffix).1
  rw [splitExponent_of_none hexponent] at hhead
  have hdigit := hstops 'f' hhead
  rw [show hexMarker.isSome = true from hhex] at hdigit
  exact absurd hdigit (by decide)

end Scan

/-! ## How it is spelled -/

/-- A character that may be missing is optional. -/
theorem mem_optional {s : Option Char} {cs : List Char} (h : ∀ c ∈ s, c ∈ cs) :
    s.toList ∈ 1 + oneOf cs := by
  cases s with
  | none => exact .inl rfl
  | some c => exact .inr ⟨c, h c rfl, rfl⟩

/-- Digits on one side of a point, or both, are pointed. -/
theorem mem_pointed {isDigit : Char → Bool} {whole fraction : List Char}
    (hne : whole ++ fraction ≠ []) (hwhole : ∀ c ∈ whole, isDigit c = true)
    (hfraction : ∀ c ∈ fraction, isDigit c = true) :
    whole ++ '.' :: fraction ∈ pointed isDigit := by
  have hpoint : ['.'] ∈ oneOf ['.'] := ⟨'.', by simp, rfl⟩
  cases hw : whole with
  | nil => exact .inr ⟨_, hpoint, fraction, ⟨by simpa [hw] using hne, hfraction⟩, rfl⟩
  | cons c whole' =>
    have hdigits : whole ∈ someDigits isDigit := ⟨by simp [hw], hwhole⟩
    rw [← hw]
    exact .inl ⟨_, ⟨whole, hdigits, _, hpoint, rfl⟩, fraction, hfraction, by simp⟩

/-- A regular exponent is a power. -/
theorem mem_powers {e : Exponent} {markers : List Char} (hmarker : e.marker ∈ markers)
    (hsign : ∀ c ∈ e.sign, c = '+' ∨ c = '-') (hne : e.digits ≠ [])
    (hdigits : ∀ c ∈ e.digits, c.isDigit = true) : e.spelling ∈ powers markers :=
  ⟨_, ⟨_, ⟨e.marker, hmarker, rfl⟩, _, mem_optional (by simpa using hsign), rfl⟩,
    e.digits, ⟨hne, hdigits⟩, by simp [Exponent.spelling]⟩

namespace Regular

variable {n : Numeral} (h : n.Regular)
include h

/-- The digits of a float are among the digits with a point or a power. -/
theorem mem_floats (markers : List Char) (hmarkers : ∀ c, isMarkerOf n.isHex c = true → c ∈ markers)
    (hfloat : n.isFloat = true) :
    n.whole ++ ((n.fraction.elim [] fun ds => '.' :: ds) ++ n.exponent.elim [] Exponent.spelling) ∈
      floats (isDigitOf n.isHex) markers := by
  have hformed := h.wellFormed
  rw [Numeral.wellFormed, Bool.and_eq_true] at hformed
  have hpower : ∀ e ∈ n.exponent, e.spelling ∈ powers markers := fun e he => by
    refine mem_powers (hmarkers _ (h.marker e he)) (h.sign e he) (fun hnil => ?_) (h.power e he)
    simpa [hnil] using (Option.all_eq_true _ _).1 hformed.2 e he
  cases hfraction : n.fraction with
  | some ds =>
    have hpointed : n.whole ++ '.' :: ds ∈ pointed (isDigitOf n.isHex) :=
      mem_pointed (by simpa [hfraction] using hformed.1) h.whole (h.fraction ds hfraction)
    refine .inl ⟨_, hpointed, n.exponent.elim [] Exponent.spelling, ?_, by simp⟩
    cases hexponent : n.exponent with
    | none => exact .inl rfl
    | some e => exact .inr (hpower e hexponent)
  | none =>
    cases hexponent : n.exponent with
    | none => simp [isFloat, hfraction, hexponent] at hfloat
    | some e =>
      have hne : n.whole ≠ [] := by simpa [hfraction] using hformed.1
      exact .inr ⟨n.whole, ⟨hne, h.whole⟩, _, hpower e hexponent, rfl⟩

/-- Without point and power a numeral has nothing but digits. -/
theorem mem_someDigits (hfloat : n.isFloat = false) :
    n.whole ∈ someDigits (isDigitOf n.isHex) ∧ n.fraction = none ∧ n.exponent = none := by
  have hformed := h.wellFormed
  simp only [isFloat, Bool.or_eq_false_iff, Option.isSome_eq_false_iff, Option.isNone_iff_eq_none]
    at hfloat
  rw [Numeral.wellFormed, Bool.and_eq_true, hfloat.1] at hformed
  exact ⟨⟨by simpa using hformed.1, h.whole⟩, hfloat⟩

/-- The mark of a hexadecimal numeral is one. -/
theorem mem_hexMarks {x : Char} (hx : x ∈ n.hexMarker) : ['0', x] ∈ hexMarks := by
  rcases h.hexMarker x hx with rfl | rfl
  · exact .inl rfl
  · exact .inr rfl

/-- A regular numeral is spelled as a literal. -/
theorem spelling_mem_literals : n.spelling ∈ literals := by
  cases hfloat : n.isFloat with
  | false =>
    obtain ⟨hdigits, hfraction, hexponent⟩ := h.mem_someDigits hfloat
    cases hmarker : n.hexMarker with
    | none =>
      have hhex : n.isHex = false := by rw [isHex, hmarker]; rfl
      rw [hhex] at hdigits
      refine .inl (.inl (.inl ⟨n.whole, hdigits, _, mem_optional (s := n.suffix) ?_, ?_⟩))
      · simpa [hhex, hfloat, isSuffixOf, or_assoc] using h.suffix
      · simp [spelling, hmarker, hfraction, hexponent]
    | some x =>
      have hhex : n.isHex = true := by rw [isHex, hmarker]; rfl
      rw [hhex] at hdigits
      refine .inl (.inr ⟨_, ⟨_, h.mem_hexMarks hmarker, n.whole, hdigits, rfl⟩, _,
        mem_optional (s := n.suffix) ?_, ?_⟩)
      · simpa [hhex, hfloat, isSuffixOf] using h.suffix
      · simp [spelling, hmarker, hfraction, hexponent]
  | true =>
    have hsuffix : ∀ c ∈ n.suffix, c ∈ ['f', 'h'] := by
      simpa [hfloat, isSuffixOf] using h.suffix
    cases hmarker : n.hexMarker with
    | none =>
      have hhex : n.isHex = false := by rw [isHex, hmarker]; rfl
      have hdigits := h.mem_floats ['e', 'E'] (by simp [hhex, isMarkerOf]) hfloat
      rw [hhex] at hdigits
      refine .inl (.inl (.inr ⟨_, hdigits, _, mem_optional hsuffix, ?_⟩))
      simp [spelling, hmarker]
    | some x =>
      have hhex : n.isHex = true := by rw [isHex, hmarker]; rfl
      have hdigits := h.mem_floats ['p', 'P'] (by simp [hhex, isMarkerOf]) hfloat
      rw [hhex] at hdigits
      refine .inr ⟨_, ⟨_, h.mem_hexMarks hmarker, _, hdigits, rfl⟩, _, mem_optional hsuffix, ?_⟩
      simp [spelling, hmarker]

end Regular

end Numeral

/-! ## Numbers among the tokens -/

/-- Where a number is read, a numeral with the parts of a literal has been scanned, and no word goes
on behind it. -/
theorem scanToken_number {text rest : List Char} {spelling : String}
    (h : scanToken text = some (.number spelling, rest)) :
    (Numeral.scan text).1.Canonical ∧ (Numeral.scan text).1.spelling = spelling.toList ∧
      (Numeral.scan text).2 = rest ∧ Stops continuesWord rest := by
  have hscan : scanNumber text = (.number spelling, rest) := by
    rw [scanToken.eq_def] at h
    split at h
    · cases h
    · cases h
    · split at h
      · exact Option.some.inj h
      split at h
      · rename_i c rest' _ _ _
        -- a word is a keyword or an identifier
        have hkind := (Prod.mk.inj (Option.some.inj h)).1
        rw [wordKind] at hkind
        split at hkind <;> cases hkind
      · split at h <;> cases h
  simp only [scanNumber] at hscan
  split at hscan
  · rename_i hformed
    rw [Bool.and_eq_true, List.isEmpty_iff] at hformed
    obtain ⟨hspelling, rfl⟩ := Prod.mk.inj hscan
    refine ⟨Numeral.canonical_of_scan hformed.1, ?_, rfl, ?_⟩
    · rw [← TokenKind.number.inj hspelling, String.toList_ofList]
    · have hstops := Numeral.stops_dropWhile continuesWord (Numeral.scan text).2
      have hall := @List.takeWhile_append_dropWhile _ continuesWord (Numeral.scan text).2
      rw [hformed.2, List.nil_append] at hall
      rwa [hall] at hstops
  · cases hscan

/-- Every number of a text is scanned where it stands, up to its end and no further. -/
theorem exists_scan_of_number {source : String} {t : Token} (ht : t ∈ tokenize source)
    {spelling : String} (hkind : t.kind = .number spelling) : ∃ before behind,
      source.toList = before ++ (spelling.toList ++ behind) ∧
      t.location = Location.start.after before ∧ Stops continuesWord behind ∧
      ∃ n : Numeral, Numeral.scan (spelling.toList ++ behind) = (n, behind) ∧ n.Canonical ∧
        n.spelling = spelling.toList := by
  obtain ⟨before, text, behind, hsource, hlocation, htoken⟩ :=
    Walk.exists_of_mem ht (by rw [hkind]; exact TokenKind.noConfusion)
  rw [hkind] at htoken
  obtain ⟨hcanonical, hspelling, hrest, hstops⟩ := scanToken_number htoken
  have htext : spelling.toList ++ behind = text := by
    rw [← hspelling, ← hrest, Numeral.scan_spelling]
  refine ⟨before, behind, by rw [htext, hsource], hlocation, hstops, (Numeral.scan text).1, ?_,
    hcanonical, hspelling⟩
  rw [htext, ← hrest]

/-- A text is read as one number exactly if it is spelled as a literal. And in every text, each
number among the tokens is spelled so, stands where its token says, and has no character behind it
that goes on a word. -/
theorem tokenize_eq_number_iff (source : String) :
    ((tokenize source).map Token.kind = [.number source, .endOfFile] ↔
      source.toList ∈ Numeral.literals) ∧
    ∀ t ∈ tokenize source, ∀ spelling, t.kind = .number spelling →
      spelling.toList ∈ Numeral.literals ∧ ∃ before behind,
        source.toList = before ++ (spelling.toList ++ behind) ∧
        t.location = Location.start.after before ∧
        ∀ c ∈ behind.head?, continuesWord c = false := by
  have hnumbers : ∀ t ∈ tokenize source, ∀ spelling, t.kind = .number spelling →
      spelling.toList ∈ Numeral.literals ∧ ∃ before behind,
        source.toList = before ++ (spelling.toList ++ behind) ∧
        t.location = Location.start.after before ∧
        ∀ c ∈ behind.head?, continuesWord c = false := by
    intro t ht spelling hkind
    obtain ⟨before, behind, hsource, hlocation, hstops, n, -, hn, hspelling⟩ :=
      exists_scan_of_number ht hkind
    exact ⟨hspelling ▸ hn.spelling_mem_literals, before, behind, hsource, hlocation, hstops⟩
  refine ⟨⟨fun h => ?_, fun h => ?_⟩, hnumbers⟩
  · obtain ⟨t, ht, hkind⟩ : ∃ t ∈ tokenize source, t.kind = .number source := by
      rw [← List.mem_map, h]
      exact List.mem_cons_self
    exact (hnumbers t ht source hkind).1
  · have hread := (@tokenize_textOf [⟨[], .number source⟩] []
      (by simpa [TokenKind.Spellable] using h) (by simpa using Layout.nil_mem_separators)
      Layout.nil_mem_separators (by simp) (by simp)).2
    simpa [Spaced.text, TokenKind.text] using hread

/-! ## The kind of a number -/

namespace Numeral

/-- The kind that a numeral has without a suffix. -/
def bareKind (n : Numeral) : LiteralKind := if n.isFloat then .abstractFloat else .abstractInt

/-- The kind that the parts of a numeral name: its suffix, if it has one; a point or an exponent
tells a float from an integer otherwise. -/
def kind (n : Numeral) : LiteralKind :=
  match n.suffix with
  | some 'i' => .i32
  | some 'u' => .u32
  | some 'f' => .f32
  | some 'h' => .f16
  | _ => n.bareKind

/-- The mark of a hexadecimal numeral is seen in its spelling. -/
theorem spelledHex_eq (text : List Char) :
    LiteralKind.spelledHex text = (splitHexMarker text).1.isSome := by
  fun_cases splitHexMarker text with
  | case1 rest | case2 rest => rfl
  | case3 text hlower hupper =>
    fun_cases LiteralKind.spelledHex text with
    | case2 => rfl
    | case1 c rest =>
      have hc : c ≠ 'x' ∧ c ≠ 'X' :=
        ⟨fun h => hlower rest (h ▸ rfl), fun h => hupper rest (h ▸ rfl)⟩
      simp [hc]

namespace Canonical

variable {n : Numeral} (h : n.Canonical)
include h

/-- A regular numeral is spelled as hexadecimal if it is. -/
theorem spelledHex_spelling : LiteralKind.spelledHex n.spelling = n.isHex := by
  have hsplit := h.splitHexMarker_spelling stops_nil
  rw [List.append_nil] at hsplit
  rw [spelledHex_eq, hsplit, isHex]

/-- A class of characters outside the digits, the prefix and the suffixes is met in the spelling
where the point or the power has one of them. -/
theorem any_spelling {p : Char → Bool} (hmark : ∀ c ∈ ['0', 'x', 'X'], p c = false)
    (hdigit : ∀ c, isDigitOf n.isHex c = true → p c = false)
    (hsuffix : ∀ c, isSuffixOf n.isHex n.isFloat c = true → p c = false) :
    n.spelling.any p =
      ((n.fraction.isSome && p '.') || (n.exponent.elim [] Exponent.spelling).any p) := by
  have hmarker : (n.hexMarker.elim [] fun x => ['0', x]).any p = false := by
    cases hx : n.hexMarker with
    | none => rfl
    | some x =>
      rcases h.hexMarker x hx with rfl | rfl <;> simp [hmark]
  have hwhole : n.whole.any p = false := by
    simpa using fun c hc => hdigit c (h.whole c hc)
  have hfraction :
      (n.fraction.elim [] fun ds => '.' :: ds).any p = (n.fraction.isSome && p '.') := by
    cases hds : n.fraction with
    | none => rfl
    | some ds =>
      have hnone : ds.any p = false := by simpa using fun c hc => hdigit c (h.fraction ds hds c hc)
      simp [hnone]
  have htail : n.suffix.toList.any p = false := by
    cases hc : n.suffix with
    | none => rfl
    | some c => simp [hsuffix c (h.suffix c hc)]
  simp only [spelling, List.any_append, hmarker, hwhole, hfraction, htail, Bool.false_or,
    Bool.or_false]

/-- The marker of an exponent is met in the spelling exactly if there is an exponent. -/
theorem any_isMarkerOf_spelling :
    n.spelling.any (isMarkerOf n.isHex) = n.exponent.isSome := by
  rw [h.any_spelling]
  · cases he : n.exponent with
    | none => cases n.isHex <;> simp only [isMarkerOf, Bool.false_eq_true, ↓reduceIte,
      ↓Char.isValue, Char.reduceBEq, Bool.or_self, Bool.and_false, Option.elim_none, List.any_nil,
      Option.isSome_none]
    | some e => simp [Exponent.spelling, h.marker e he]
  · cases n.isHex <;> simp [isMarkerOf]
  · intro c hc
    by_contra hmarker
    rw [isDigitOf_of_isMarkerOf (by simpa using hmarker)] at hc
    exact Bool.false_ne_true hc
  · exact fun c hc => isMarkerOf_of_isSuffixOf hc

/-- A regular numeral is spelled with a point if it has a fraction. -/
theorem contains_point_spelling : n.spelling.contains '.' = n.fraction.isSome := by
  have hpoint {c : Char} (hc : c.isAlphanum = true) : ('.' == c) = false :=
    beq_false_of_ne (ne_point hc).symm
  rw [List.contains_eq_any_beq, h.any_spelling]
  · cases he : n.exponent with
    | none => simp
    | some e =>
      have hsign : e.sign.toList.any ('.' == ·) = false := by
        cases hc : e.sign with
        | none => rfl
        | some c => rcases h.sign e he c hc with rfl | rfl <;> rfl
      have hdigits : e.digits.any ('.' == ·) = false := by
        simpa using fun c hc => (ne_point (c := c) (by
          simp [Char.isAlphanum, h.power e he c hc])).symm
      simp [Exponent.spelling, hpoint (isAlphanum_of_isMarkerOf (h.marker e he)), hsign, hdigits]
  · simp
  · exact fun c hc => hpoint (isAlphanum_of_isDigitOf hc)
  · exact fun c hc => hpoint (isAlphanum_of_isSuffixOf hc)

/-- Without a suffix, the last character is a digit or the point; where it is no decimal digit, no
exponent stands before it. -/
theorem exists_getLast?_spelling (hsuffix : n.suffix = none) : ∃ c, n.spelling.getLast? = some c ∧
    (c.isDigit = true ∨ c = '.' ∨ isDigitOf n.isHex c = true ∧ n.exponent = none) := by
  have last {before part : List Char} (hne : part ≠ []) :
      ∃ c ∈ part, (before ++ part).getLast? = some c :=
    ⟨part.getLast hne, List.getLast_mem hne, by
      rw [List.getLast?_append_of_ne_nil _ hne, List.getLast?_eq_some_getLast hne]⟩
  rw [spelling, hsuffix, Option.toList_none, List.append_nil]
  cases he : n.exponent with
  | some e =>
    rw [Option.elim_some, Exponent.spelling, ← List.cons_append, ← List.append_assoc]
    obtain ⟨c, hc, hlast⟩ := last (h.digits_ne_nil e he)
    exact ⟨c, hlast, .inl (h.power e he c hc)⟩
  | none =>
    rw [Option.elim_none, List.append_nil]
    cases hds : n.fraction with
    | some ds =>
      obtain ⟨c, hc, hlast⟩ := last (List.cons_ne_nil '.' ds)
      refine ⟨c, hlast, .inr ?_⟩
      rcases List.mem_cons.1 hc with rfl | hc
      · exact .inl rfl
      · exact .inr ⟨h.fraction ds hds c hc, rfl⟩
    | none =>
      have hformed := h.wellFormed
      rw [Numeral.wellFormed, Bool.and_eq_true, hds] at hformed
      rw [Option.elim_none, List.append_nil]
      obtain ⟨c, hc, hlast⟩ := last (by simpa using hformed.1)
      exact ⟨c, hlast, .inr (.inr ⟨h.whole c hc, rfl⟩)⟩

/-- What the spelling tells of a numeral: its last character, and nothing else but its parts. -/
theorem ofSpelling_eq : LiteralKind.ofSpelling (String.ofList n.spelling) =
    match n.spelling.getLast? with
    | some 'i' => .i32
    | some 'u' => .u32
    | some 'f' => if n.isHex && !n.exponent.isSome then n.bareKind else .f32
    | some 'h' => if n.isHex && !n.exponent.isSome then n.bareKind else .f16
    | _ => n.bareKind := by
  have hexponent := h.any_isMarkerOf_spelling
  unfold isMarkerOf at hexponent
  simp only [LiteralKind.ofSpelling, String.toList_ofList, h.spelledHex_spelling, hexponent,
    h.contains_point_spelling, bareKind, isFloat, Bool.or_comm n.exponent.isSome]
  rfl

/-- Without a suffix no letter stands last that is one, but an `f` among hexadecimal digits. -/
theorem getLast?_spelling_ne (hsuffix : n.suffix = none) :
    (∀ d ∈ ['i', 'u', 'h'], n.spelling.getLast? ≠ some d) ∧
      (n.spelling.getLast? = some 'f' → n.isHex = true ∧ n.exponent = none) := by
  obtain ⟨c, hlast, hc⟩ := h.exists_getLast?_spelling hsuffix
  have hnone : ∀ hex, ∀ d ∈ ['i', 'u', 'h'], isDigitOf hex d = false := by
    simp only [List.forall_mem_cons, List.not_mem_nil, false_implies, implies_true, and_true]
    rintro (_ | _) <;> exact ⟨rfl, rfl, rfl⟩
  rw [hlast]
  constructor
  · rintro d hd heq
    obtain rfl := Option.some.inj heq
    rcases hc with hdigit | rfl | ⟨hdigit, -⟩
    · exact Bool.false_ne_true ((hnone false c hd).symm.trans hdigit)
    · exact absurd hd (by decide)
    · exact Bool.false_ne_true ((hnone n.isHex c hd).symm.trans hdigit)
  · intro heq
    obtain rfl := Option.some.inj heq
    rcases hc with hdigit | hpoint | ⟨hdigit, hexponent⟩
    · exact absurd hdigit (by decide)
    · exact absurd hpoint (by decide)
    · refine ⟨?_, hexponent⟩
      by_contra hhex
      rw [Bool.not_eq_true] at hhex
      rw [hhex] at hdigit
      exact absurd hdigit (by decide)

/-- The spelling tells the kind that the parts name, unless an `h` stands behind a hexadecimal
numeral without an exponent: there it is a suffix to the scanner alone. -/
theorem ofSpelling_eq_kind_iff :
    LiteralKind.ofSpelling (String.ofList n.spelling) = n.kind ↔
      ¬(n.isHex = true ∧ n.exponent = none ∧ n.suffix = some 'h') := by
  rw [h.ofSpelling_eq]
  cases hsuffix : n.suffix with
  | none =>
    obtain ⟨hletter, hf⟩ := h.getLast?_spelling_ne hsuffix
    have hkind : n.kind = n.bareKind := by rw [kind, hsuffix]
    rw [hkind]
    refine iff_of_true ?_ (by simp)
    split
    · exact absurd ‹_› (hletter 'i' (by simp))
    · exact absurd ‹_› (hletter 'u' (by simp))
    · rename_i hlast
      simp [hf hlast]
    · exact absurd ‹_› (hletter 'h' (by simp))
    · rfl
  | some c =>
    have hlast : n.spelling.getLast? = some c := by
      rw [spelling, hsuffix, Option.toList_some, List.getLast?_concat]
    rw [hlast]
    have hallowed := h.suffix c hsuffix
    simp only [isSuffixOf, Bool.or_eq_true, Bool.and_eq_true, beq_iff_eq] at hallowed
    rcases hallowed with ⟨-, rfl | rfl⟩ | ⟨-, rfl | rfl⟩
    · simp [kind, hsuffix]
    · simp [kind, hsuffix]
    · -- behind hexadecimal digits the scanner would have taken the `f` for one of them
      have hf : ¬(n.isHex = true ∧ n.exponent = none) := by
        rintro ⟨hhex, hexponent⟩
        exact h.suffix_ne hhex hexponent hsuffix
      simp [kind, hsuffix, hf]
    · have hbare : n.bareKind ≠ .f16 := by
        rw [bareKind]
        split <;> exact LiteralKind.noConfusion
      simp [kind, hsuffix, hbare]

end Canonical

end Numeral

/-- For every number among the tokens of a text, the kind read off its spelling is the kind that its
parts name, as they were scanned where the number stands, exactly unless it is hexadecimal with the
suffix `h` and without an exponent. -/
theorem ofSpelling_eq_kind_iff_of_number {source : String} {t : Token} (ht : t ∈ tokenize source)
    {spelling : String} (hkind : t.kind = .number spelling) : ∃ before behind,
      source.toList = before ++ (spelling.toList ++ behind) ∧
      t.location = Location.start.after before ∧
      ∃ n : Numeral, Numeral.scan (spelling.toList ++ behind) = (n, behind) ∧
        n.spelling = spelling.toList ∧
        (LiteralKind.ofSpelling spelling = n.kind ↔
          ¬(n.isHex = true ∧ n.exponent = none ∧ n.suffix = some 'h')) := by
  obtain ⟨before, behind, hsource, hlocation, -, n, hscan, hn, hspelling⟩ :=
    exists_scan_of_number ht hkind
  refine ⟨before, behind, hsource, hlocation, n, hscan, hspelling, ?_⟩
  have hagrees := hn.ofSpelling_eq_kind_iff
  rwa [hspelling, String.ofList_toList] at hagrees

/-- A hexadecimal number with an exponent and a suffix is of the kind that it is spelled with. -/
theorem ofSpelling_eq_kind_iff_of_half_power :
    (⟨.number "0x.8p-1h", ⟨1, 5⟩⟩ : Token) ∈ tokenize "a = 0x.8p-1h;" ∧ ∃ before behind,
      "a = 0x.8p-1h;".toList = before ++ ("0x.8p-1h".toList ++ behind) ∧
      ⟨1, 5⟩ = Location.start.after before ∧
      ∃ n : Numeral, Numeral.scan ("0x.8p-1h".toList ++ behind) = (n, behind) ∧
        n.spelling = "0x.8p-1h".toList ∧
        (LiteralKind.ofSpelling "0x.8p-1h" = n.kind ↔
          ¬(n.isHex = true ∧ n.exponent = none ∧ n.suffix = some 'h')) := by
  have hmem : (⟨.number "0x.8p-1h", ⟨1, 5⟩⟩ : Token) ∈ tokenize "a = 0x.8p-1h;" := by
    decide +kernel
  exact ⟨hmem, ofSpelling_eq_kind_iff_of_number hmem rfl⟩

/-- The suffix that the scanner takes behind a hexadecimal point is not read off the spelling. -/
theorem suffix_unread_behind_hex_point :
    (⟨.number "0x1.h", ⟨1, 11⟩⟩ : Token) ∈ tokenize "const x = 0x1.h;" ∧
      Numeral.scan "0x1.h;".toList = (⟨some 'x', ['1'], some [], none, some 'h'⟩, [';']) ∧
      (⟨some 'x', ['1'], some [], none, some 'h'⟩ : Numeral).kind = .f16 ∧
      LiteralKind.ofSpelling "0x1.h" = .abstractFloat := by
  decide +kernel

end Wgsl
