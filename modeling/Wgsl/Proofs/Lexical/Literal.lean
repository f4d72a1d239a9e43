import Mathlib.Computability.Language
import Wgsl.Numeral
import Wgsl.Text.Word

/-!
# Numeric literals

The literals are a language: decimal and hexadecimal integers, decimal and hexadecimal floats, each
with the suffixes it may have. That is said here without a scanner. `scan_append` ties the scanner
to it: where a literal stands, and behind it nothing that could go on one, the numeral that is
scanned there is well-formed and ends with the literal.

The scanner takes each part as far as it goes, so a literal has to be divided its way first. It can
be (`Canonical`): the one text that has two divisions, hexadecimal digits behind a point with an `f`
behind them, has the `f` among the digits.
-/

namespace Wgsl

namespace Text

/-- The text goes on, if at all, with a character outside the class. -/
def Stops (p : Char → Bool) (text : List Char) : Prop := ∀ c ∈ text.head?, p c = false

variable {p : Char → Bool}

@[simp] theorem stops_nil : Stops p [] := by simp [Stops]

@[simp] theorem stops_cons {c : Char} {text : List Char} : Stops p (c :: text) ↔ p c = false := by
  simp [Stops]

/-- What stops more characters stops fewer. -/
theorem Stops.mono {q : Char → Bool} {text : List Char} (h : Stops q text)
    (hpq : ∀ c, p c = true → q c = true) : Stops p text := by
  intro c hc
  have hq := h c hc
  cases hp : p c with
  | false => rfl
  | true => simp [hpq c hp] at hq

/-- Characters of a class are taken up to where it stops. -/
theorem takeWhile_append {a b : List Char} (ha : ∀ c ∈ a, p c = true) (hb : Stops p b) :
    (a ++ b).takeWhile p = a ∧ (a ++ b).dropWhile p = b := by
  have hstop : b.takeWhile p = [] ∧ b.dropWhile p = b := by
    cases b with
    | nil => exact ⟨rfl, rfl⟩
    | cons c b => simp [stops_cons.1 hb]
  exact ⟨by rw [List.takeWhile_append_of_pos ha, hstop.1, List.append_nil],
    by rw [List.dropWhile_append_of_pos ha, hstop.2]⟩

/-- The letters and digits of ASCII by their codes. -/
theorem isAlphanum_iff {c : Char} : c.isAlphanum = true ↔
    ((65 ≤ c.toNat ∧ c.toNat ≤ 90) ∨ 97 ≤ c.toNat ∧ c.toNat ≤ 122) ∨
      48 ≤ c.toNat ∧ c.toNat ≤ 57 := by
  change ((decide ('A'.val ≤ c.val ∧ c.val ≤ 'Z'.val) ||
    decide ('a'.val ≤ c.val) && decide (c.val ≤ 'z'.val)) ||
      decide ('0'.val ≤ c.val) && decide (c.val ≤ '9'.val)) = true ↔ _
  simp only [Bool.or_eq_true, Bool.and_eq_true, decide_eq_true_eq, UInt32.le_iff_toNat_le]
  rfl

/-- Letters and digits of ASCII go on a word. -/
theorem continuesWord_of_isAlphanum {c : Char} (h : c.isAlphanum = true) :
    continuesWord c = true := by
  have hsmall : c.toNat < 0x80 := by
    rw [isAlphanum_iff] at h
    omega
  simp only [Char.isAlphanum, Bool.or_eq_true] at h
  simpa [continuesWord, isAlphabetic, isNumeric, hsmall, or_assoc] using .inr h

end Text

namespace Numeral

open Text

/-! ## The language of literals -/

/-- One character out of some. -/
def oneOf (cs : List Char) : Language Char := {text | ∃ c ∈ cs, text = [c]}

/-- Any number of digits. -/
def anyDigits (isDigit : Char → Bool) : Language Char := {text | ∀ c ∈ text, isDigit c}

/-- One digit or more. -/
def someDigits (isDigit : Char → Bool) : Language Char := {text | text ≠ [] ∧ ∀ c ∈ text, isDigit c}

/-- Digits with a point before, between or behind them. -/
def pointed (isDigit : Char → Bool) : Language Char :=
  someDigits isDigit * oneOf ['.'] * anyDigits isDigit + oneOf ['.'] * someDigits isDigit

/-- A power: its marker, perhaps a sign, and decimal digits. -/
def powers (markers : List Char) : Language Char :=
  oneOf markers * (1 + oneOf ['+', '-']) * someDigits Char.isDigit

/-- What a hexadecimal literal begins with. -/
def hexMarks : Language Char := {['0', 'x'], ['0', 'X']}

/-- Digits that a point or a power makes a float. -/
def floats (isDigit : Char → Bool) (markers : List Char) : Language Char :=
  pointed isDigit * (1 + powers markers) + someDigits isDigit * powers markers

/-- Decimal digits, with a suffix or without. -/
def decimalIntegers : Language Char :=
  someDigits Char.isDigit * (1 + oneOf ['i', 'u', 'f', 'h'])

/-- Decimal digits with a point or an exponent, with a suffix or without. -/
def decimalFloats : Language Char := floats Char.isDigit ['e', 'E'] * (1 + oneOf ['f', 'h'])

/-- Hexadecimal digits behind their mark, with a suffix or without. -/
def hexIntegers : Language Char := hexMarks * someDigits isHexDigit * (1 + oneOf ['i', 'u'])

/-- Hexadecimal digits with a point or an exponent behind their mark, with a suffix or without. -/
def hexFloats : Language Char := hexMarks * floats isHexDigit ['p', 'P'] * (1 + oneOf ['f', 'h'])

/-- The numeric literals. -/
def literals : Language Char := decimalIntegers + decimalFloats + hexIntegers + hexFloats

/-! ## Literals in parts -/

/-- Each part of the numeral is made of the characters it is to have, and none is missing. -/
structure Regular (n : Numeral) : Prop where
  hexMarker : ∀ x ∈ n.hexMarker, x = 'x' ∨ x = 'X'
  whole : ∀ c ∈ n.whole, isDigitOf n.isHex c = true
  fraction : ∀ ds ∈ n.fraction, ∀ c ∈ ds, isDigitOf n.isHex c = true
  marker : ∀ e ∈ n.exponent, isMarkerOf n.isHex e.marker = true
  sign : ∀ e ∈ n.exponent, ∀ c ∈ e.sign, c = '+' ∨ c = '-'
  power : ∀ e ∈ n.exponent, ∀ c ∈ e.digits, c.isDigit = true
  suffix : ∀ c ∈ n.suffix, isSuffixOf n.isHex n.isFloat c = true
  wellFormed : n.wellFormed = true

/-- A regular numeral whose parts are as long as they can be: directly behind hexadecimal digits an
`f` is one of them. -/
structure Canonical (n : Numeral) : Prop extends Regular n where
  suffix_ne : n.isHex = true → n.exponent = none → n.suffix ≠ some 'f'

/-- A numeral could go on with the character. -/
def goesOn (c : Char) : Bool := continuesWord c || c == '.'

section Split

variable {p : Char → Bool} {rest : List Char}

/-- A suffix is split off, with the rest as it was. -/
theorem splitSuffix_eq {s : Option Char} (hs : ∀ c ∈ s, p c = true) (hrest : Stops p rest) :
    splitSuffix p (s.toList ++ rest) = (s, rest) := by
  cases s with
  | some c => simp [splitSuffix, hs c rfl]
  | none =>
    cases rest with
    | nil => rfl
    | cons c rest => simp [splitSuffix, stops_cons.1 hrest]

/-- A sign is split off before digits, with the rest as it was. -/
theorem splitSign_eq {s : Option Char} {ds : List Char} (hs : ∀ c ∈ s, c = '+' ∨ c = '-')
    (hne : ds ≠ []) (hds : ∀ c ∈ ds, c.isDigit = true) :
    splitSign (s.toList ++ (ds ++ rest)) = (s, ds ++ rest) := by
  cases s with
  | some c => rcases hs c rfl with rfl | rfl <;> rfl
  | none =>
    obtain ⟨d, ds, rfl⟩ := List.exists_cons_of_ne_nil hne
    have hd := hds d List.mem_cons_self
    have hplus : d ≠ '+' := fun h => by simp [h] at hd
    have hminus : d ≠ '-' := fun h => by simp [h] at hd
    simp [splitSign, hplus, hminus]

/-- An exponent is split off as it is spelled, up to where its digits stop. -/
theorem splitExponent_eq {exponent : Option Exponent}
    (hmarker : ∀ e ∈ exponent, p e.marker = true)
    (hsign : ∀ e ∈ exponent, ∀ c ∈ e.sign, c = '+' ∨ c = '-') (hne : ∀ e ∈ exponent, e.digits ≠ [])
    (hdigits : ∀ e ∈ exponent, ∀ c ∈ e.digits, c.isDigit = true)
    (hdigit : Stops Char.isDigit rest) (hrest : Stops p rest) :
    splitExponent p (exponent.elim [] Exponent.spelling ++ rest) = (exponent, rest) := by
  cases exponent with
  | some e =>
    have htaken := takeWhile_append (hdigits e rfl) hdigit
    rw [Option.elim_some, Exponent.spelling, List.cons_append, List.append_assoc, splitExponent,
      if_pos (hmarker e rfl), splitSign_eq (hsign e rfl) (hne e rfl) (hdigits e rfl)]
    simp [htaken]
  | none =>
    cases rest with
    | nil => rfl
    | cons c rest => simp [splitExponent, stops_cons.1 hrest]

/-- A fraction is split off as it is spelled, up to where its digits stop. -/
theorem splitFraction_eq {fraction : Option (List Char)}
    (hdigits : ∀ ds ∈ fraction, ∀ c ∈ ds, p c = true) (hdigit : Stops p rest)
    (hrest : Stops (· == '.') rest) :
    splitFraction p ((fraction.elim [] fun ds => '.' :: ds) ++ rest) = (fraction, rest) := by
  cases fraction with
  | some ds => simp [splitFraction, takeWhile_append (hdigits ds rfl) hdigit]
  | none =>
    cases rest with
    | nil => rfl
    | cons c rest =>
      have hc : c ≠ '.' := by simpa using hrest
      simp [splitFraction, hc]

/-- Decimal digits are no hexadecimal prefix, where no `x` stands behind them. -/
theorem splitHexMarker_none {ds : List Char} (hds : ∀ c ∈ ds, c.isDigit = true)
    (hdigit : Stops Char.isDigit rest) (hx : Stops (fun c => c == 'x' || c == 'X') rest) :
    splitHexMarker (ds ++ rest) = (none, ds ++ rest) := by
  have hmark : ∀ c ∈ ds, c ≠ 'x' ∧ c ≠ 'X' := by
    rintro c hc
    have hdigit := hds c hc
    exact ⟨fun h => by simp [h] at hdigit, fun h => by simp [h] at hdigit⟩
  generalize htext : ds ++ rest = text
  fun_cases splitHexMarker text with
  | case3 => rfl
  | case1 tail | case2 tail =>
    rcases ds with _ | ⟨c, _ | ⟨d, ds⟩⟩
    · simp only [List.nil_append] at htext
      simp [htext] at hdigit
    · simp only [List.cons_append, List.nil_append, List.cons.injEq] at htext
      simp [htext.2] at hx
    · simp only [List.cons_append, List.cons.injEq] at htext
      simp [htext.2.1] at hmark

end Split

/-! ## Where a class of characters stops -/

section Stops

variable {p : Char → Bool} {rest : List Char}

/-- A suffix of other characters stops them; without one, what follows has to. -/
theorem stops_suffix {suffix : Option Char} (h : ∀ c ∈ suffix, p c = false) (hrest : Stops p rest) :
    Stops p (suffix.toList ++ rest) := by
  cases suffix with
  | some c => exact stops_cons.2 (h c rfl)
  | none => exact hrest

/-- An exponent with another marker stops the characters; without one, what follows has to. -/
theorem stops_exponent {exponent : Option Exponent} (h : ∀ e ∈ exponent, p e.marker = false)
    (hrest : exponent = none → Stops p rest) :
    Stops p (exponent.elim [] Exponent.spelling ++ rest) := by
  cases exponent with
  | some e => exact stops_cons.2 (h e rfl)
  | none => exact hrest rfl

/-- A fraction stops the characters at its point; without one, what follows has to. -/
theorem stops_fraction {fraction : Option (List Char)} (h : p '.' = false) (hrest : Stops p rest) :
    Stops p ((fraction.elim [] fun ds => '.' :: ds) ++ rest) := by
  cases fraction with
  | some ds => exact stops_cons.2 h
  | none => exact hrest

/-- Behind a numeral, each class of its characters stops. -/
theorem stops_of_goesOn (hrest : Stops goesOn rest)
    (hp : ∀ c, p c = true → c.isAlphanum = true ∨ c = '.') : Stops p rest :=
  hrest.mono fun c hc => by
    rcases hp c hc with halpha | rfl
    · simp [goesOn, continuesWord_of_isAlphanum halpha]
    · simp [goesOn]

end Stops

/-- A letter or digit is no point. -/
theorem ne_point {c : Char} (h : c.isAlphanum = true) : c ≠ '.' := by
  rintro rfl
  exact absurd h (by decide)

/-- A hexadecimal digit is a letter or digit. -/
theorem isAlphanum_of_isHexDigit {c : Char} (h : isHexDigit c = true) : c.isAlphanum = true := by
  simp only [isHexDigit, Bool.or_eq_true, Bool.and_eq_true, decide_eq_true_eq] at h
  rcases h with (hdigit | ⟨hlow, hhigh⟩) | ⟨hlow, hhigh⟩
  · simp [Char.isAlphanum, hdigit]
  · exact isAlphanum_iff.2 (.inl (.inr ⟨hlow, Nat.le_trans hhigh (by decide)⟩))
  · exact isAlphanum_iff.2 (.inl (.inl ⟨hlow, Nat.le_trans hhigh (by decide)⟩))

/-- A digit of either base is a letter or digit. -/
theorem isAlphanum_of_isDigitOf {hex : Bool} {c : Char} (h : isDigitOf hex c = true) :
    c.isAlphanum = true := by
  cases hex with
  | true => exact isAlphanum_of_isHexDigit h
  | false =>
    have hdigit : c.isDigit = true := h
    simp [Char.isAlphanum, hdigit]

/-- The marker of an exponent is a letter. -/
theorem isAlphanum_of_isMarkerOf {hex : Bool} {c : Char} (h : isMarkerOf hex c = true) :
    c.isAlphanum = true := by
  cases hex <;> simp only [isMarkerOf, Bool.false_eq_true, ↓reduceIte, ↓Char.isValue,
    Bool.or_eq_true, beq_iff_eq] at h <;> rcases h with rfl | rfl <;> decide

/-- A suffix is a letter. -/
theorem isAlphanum_of_isSuffixOf {hex float : Bool} {c : Char} (h : isSuffixOf hex float c = true) :
    c.isAlphanum = true := by
  simp only [isSuffixOf, ↓Char.isValue, Bool.or_eq_true, Bool.and_eq_true, Bool.not_eq_eq_eq_not,
    Bool.not_true, beq_iff_eq] at h
  rcases h with ⟨-, rfl | rfl⟩ | ⟨-, rfl | rfl⟩ <;> decide

/-- The marker of an exponent is no digit of its base. -/
theorem isDigitOf_of_isMarkerOf {hex : Bool} {c : Char} (h : isMarkerOf hex c = true) :
    isDigitOf hex c = false := by
  cases hex <;> simp only [isMarkerOf, Bool.false_eq_true, ↓reduceIte, ↓Char.isValue,
    Bool.or_eq_true, beq_iff_eq] at h <;> rcases h with rfl | rfl <;> decide

/-- A suffix does not mark an exponent. -/
theorem isMarkerOf_of_isSuffixOf {hex float : Bool} {c : Char} (h : isSuffixOf hex float c = true) :
    isMarkerOf hex c = false := by
  simp only [isSuffixOf, ↓Char.isValue, Bool.or_eq_true, Bool.and_eq_true, Bool.not_eq_eq_eq_not,
    Bool.not_true, beq_iff_eq] at h
  rcases h with ⟨-, rfl | rfl⟩ | ⟨-, rfl | rfl⟩ <;> cases hex <;> decide

/-- A suffix is no decimal digit. -/
theorem isDigit_of_isSuffixOf {hex float : Bool} {c : Char} (h : isSuffixOf hex float c = true) :
    c.isDigit = false := by
  simp only [isSuffixOf, ↓Char.isValue, Bool.or_eq_true, Bool.and_eq_true, Bool.not_eq_eq_eq_not,
    Bool.not_true, beq_iff_eq] at h
  rcases h with ⟨-, rfl | rfl⟩ | ⟨-, rfl | rfl⟩ <;> decide

/-- A suffix that is no `f` is no digit. -/
theorem isDigitOf_of_isSuffixOf {hex float : Bool} {c : Char} (h : isSuffixOf hex float c = true)
    (hf : hex = true → c ≠ 'f') : isDigitOf hex c = false := by
  simp only [isSuffixOf, ↓Char.isValue, Bool.or_eq_true, Bool.and_eq_true, Bool.not_eq_eq_eq_not,
    Bool.not_true, beq_iff_eq] at h
  rcases h with ⟨-, rfl | rfl⟩ | ⟨-, rfl | rfl⟩ <;> cases hex <;> simp_all [isDigitOf] <;> decide

namespace Canonical

variable {n : Numeral} (h : n.Canonical) {rest : List Char}
include h

/-- A regular numeral has digits in its exponent. -/
theorem digits_ne_nil : ∀ e ∈ n.exponent, e.digits ≠ [] := by
  have hformed := h.wellFormed
  rw [Numeral.wellFormed, Bool.and_eq_true] at hformed
  intro e he hnil
  simpa [hnil] using (Option.all_eq_true _ _).1 hformed.2 e he

/-- Behind the digits of a literal stands no further digit. -/
theorem stops_digits (hrest : Stops goesOn rest) :
    Stops (isDigitOf n.isHex) (n.exponent.elim [] Exponent.spelling ++ (n.suffix.toList ++ rest)) :=
  stops_exponent (fun e he => isDigitOf_of_isMarkerOf (h.marker e he)) fun hnone =>
    stops_suffix
      (fun _ hc => isDigitOf_of_isSuffixOf (h.suffix _ hc) fun hhex hf =>
        h.suffix_ne hhex hnone (hf ▸ hc))
      (stops_of_goesOn hrest fun _ hc => .inl (isAlphanum_of_isDigitOf hc))

/-- Behind the digits stands no character that neither a power nor a suffix begins with. -/
theorem stops_other {p : Char → Bool} (hrest : Stops goesOn rest)
    (hp : ∀ c, p c = true → c.isAlphanum = true ∨ c = '.')
    (hmarker : ∀ c, isMarkerOf n.isHex c = true → p c = false)
    (hsuffix : ∀ c, isSuffixOf n.isHex n.isFloat c = true → p c = false) :
    Stops p (n.exponent.elim [] Exponent.spelling ++ (n.suffix.toList ++ rest)) :=
  stops_exponent (fun e he => hmarker _ (h.marker e he)) fun _ =>
    stops_suffix (fun c hc => hsuffix c (h.suffix c hc)) (stops_of_goesOn hrest hp)

/-- What marks a hexadecimal numeral is split off first. -/
theorem splitHexMarker_spelling (hrest : Stops goesOn rest) :
    splitHexMarker (n.spelling ++ rest) =
      (n.hexMarker, n.whole ++ ((n.fraction.elim [] fun ds => '.' :: ds) ++
        (n.exponent.elim [] Exponent.spelling ++ (n.suffix.toList ++ rest)))) := by
  simp only [spelling, List.append_assoc]
  cases hmarker : n.hexMarker with
  | some x => rcases h.hexMarker x hmarker with rfl | rfl <;> rfl
  | none =>
    have hhex : n.isHex = false := by rw [isHex, hmarker]; rfl
    have hwhole := h.whole
    have hdigits := h.stops_digits hrest
    rw [hhex] at hwhole hdigits
    rw [Option.elim_none, List.nil_append]
    refine splitHexMarker_none hwhole (stops_fraction (by decide) hdigits)
      (stops_fraction (by decide) (h.stops_other hrest ?_ ?_ ?_))
    · intro c hc
      simp only [Bool.or_eq_true, beq_iff_eq] at hc
      rcases hc with rfl | rfl <;> decide
    · intro c hc
      simp only [hhex, isMarkerOf, Bool.false_eq_true, if_false, Bool.or_eq_true, beq_iff_eq] at hc
      rcases hc with rfl | rfl <;> decide
    · intro c hc
      simp only [isSuffixOf, Bool.or_eq_true, Bool.and_eq_true, beq_iff_eq] at hc
      rcases hc with ⟨-, rfl | rfl⟩ | ⟨-, rfl | rfl⟩ <;> decide

/-- A literal in parts is scanned as it is, where nothing behind it could go on it. -/
theorem scan_append (hrest : Stops goesOn rest) : scan (n.spelling ++ rest) = (n, rest) := by
  have hdigits := h.stops_digits hrest
  have hwhole := takeWhile_append h.whole
    (@stops_fraction _ _ n.fraction (by cases n.isHex <;> decide) hdigits)
  have hpoint : Stops (· == '.')
      (n.exponent.elim [] Exponent.spelling ++ (n.suffix.toList ++ rest)) := by
    refine h.stops_other hrest (fun c hc => .inr (by simpa using hc)) (fun c hc => ?_)
      fun c hc => ?_
    · exact beq_false_of_ne (ne_point (isAlphanum_of_isMarkerOf hc))
    · exact beq_false_of_ne (ne_point (isAlphanum_of_isSuffixOf hc))
  have hfraction := splitFraction_eq h.fraction hdigits hpoint
  have hexponent : splitExponent (isMarkerOf n.isHex)
      (n.exponent.elim [] Exponent.spelling ++ (n.suffix.toList ++ rest)) =
        (n.exponent, n.suffix.toList ++ rest) := by
    refine splitExponent_eq h.marker h.sign h.digits_ne_nil h.power ?_ ?_
    · exact stops_suffix (fun c hc => isDigit_of_isSuffixOf (h.suffix c hc))
        (stops_of_goesOn hrest fun c hc => .inl (by simp [Char.isAlphanum, hc]))
    · exact stops_suffix (fun c hc => isMarkerOf_of_isSuffixOf (h.suffix c hc))
        (stops_of_goesOn hrest fun c hc => .inl (isAlphanum_of_isMarkerOf hc))
  have hsuffix := splitSuffix_eq h.suffix
    (stops_of_goesOn hrest fun c hc => .inl (isAlphanum_of_isSuffixOf hc))
  obtain ⟨hexMarker, whole, fraction, exponent, suffix⟩ := n
  simp only [isHex, isFloat] at hwhole hfraction hexponent hsuffix
  simp only [scan, h.splitHexMarker_spelling hrest, hwhole, hfraction, hexponent, hsuffix]

/-- A literal in parts begins as a numeral does. -/
theorem begins_append : begins (n.spelling ++ rest) = true := by
  simp only [spelling, List.append_assoc]
  cases hmarker : n.hexMarker with
  | some x => rfl
  | none =>
    have hhex : n.isHex = false := by rw [isHex, hmarker]; rfl
    have hwhole := h.whole
    have hfraction := h.fraction
    have hformed := h.wellFormed
    rw [hhex] at hwhole hfraction
    rw [Numeral.wellFormed, Bool.and_eq_true] at hformed
    cases hw : n.whole with
    | cons d ds =>
      have hd : d.isDigit = true := hwhole d (hw ▸ List.mem_cons_self)
      simp [begins, hd]
    | nil =>
      rw [hw, List.nil_append] at hformed
      cases hf : n.fraction with
      | none => simp [hf] at hformed
      | some ds =>
        cases ds with
        | nil => simp [hf] at hformed
        | cons d ds =>
          have hd : d.isDigit = true := hfraction _ hf d List.mem_cons_self
          simp [begins, hd]

end Canonical

/-! ## Every literal has such parts -/

section Parts

variable {text : List Char}

/-- An optional character is one of those allowed, or missing. -/
theorem exists_of_mem_optional {cs : List Char} (h : text ∈ 1 + oneOf cs) :
    ∃ s : Option Char, text = s.toList ∧ ∀ c ∈ s, c ∈ cs := by
  rcases h with rfl | ⟨c, hc, rfl⟩
  · exact ⟨none, rfl, by simp⟩
  · exact ⟨some c, rfl, by simpa using hc⟩

/-- Digits around a point have a part before it and one behind, not both empty. -/
theorem exists_of_mem_pointed {isDigit : Char → Bool} (h : text ∈ pointed isDigit) :
    ∃ whole fraction, text = whole ++ '.' :: fraction ∧ whole ++ fraction ≠ [] ∧
      (∀ c ∈ whole, isDigit c = true) ∧ ∀ c ∈ fraction, isDigit c = true := by
  rcases h with ⟨_, ⟨whole, ⟨hne, hwhole⟩, _, ⟨c, hc, rfl⟩, rfl⟩, fraction, hfraction, rfl⟩ |
    ⟨_, ⟨c, hc, rfl⟩, fraction, ⟨hne, hfraction⟩, rfl⟩
  all_goals obtain rfl := List.mem_singleton.1 hc
  · exact ⟨whole, fraction, by simp, by simp [hne], hwhole, hfraction⟩
  · exact ⟨[], fraction, rfl, hne, by simp, hfraction⟩

/-- The power of a literal is the spelling of an exponent. -/
theorem exists_of_mem_powers {markers : List Char} (h : text ∈ powers markers) :
    ∃ e : Exponent, text = e.spelling ∧ e.marker ∈ markers ∧ (∀ c ∈ e.sign, c = '+' ∨ c = '-') ∧
      e.digits ≠ [] ∧ ∀ c ∈ e.digits, c.isDigit = true := by
  obtain ⟨_, ⟨_, ⟨marker, hmarker, rfl⟩, signText, hsign, rfl⟩, digits, ⟨hne, hdigits⟩, rfl⟩ := h
  obtain ⟨sign, rfl, hmem⟩ := exists_of_mem_optional hsign
  exact ⟨⟨marker, sign, digits⟩, by simp [Exponent.spelling], hmarker, by simpa using hmem, hne,
    hdigits⟩

/-- A hexadecimal literal is marked by `0x` or `0X`. -/
theorem exists_of_mem_hexMarks (h : text ∈ hexMarks) :
    ∃ x, text = ['0', x] ∧ (x = 'x' ∨ x = 'X') := by
  rcases h with rfl | rfl
  · exact ⟨'x', rfl, .inl rfl⟩
  · exact ⟨'X', rfl, .inr rfl⟩

/-- Digits with a point or a power make a regular numeral, with a prefix before them or without. -/
theorem exists_of_mem_floats {x suffix : Option Char} {markers : List Char}
    (hx : ∀ c ∈ x, c = 'x' ∨ c = 'X') (hmarkers : ∀ c ∈ markers, isMarkerOf x.isSome c = true)
    (hsuffix : ∀ c ∈ suffix, c ∈ ['f', 'h']) (h : text ∈ floats (isDigitOf x.isSome) markers) :
    ∃ n : Numeral, n.Regular ∧
      (x.elim [] fun x => ['0', x]) ++ text ++ suffix.toList = n.spelling := by
  have hallowed : ∀ c ∈ suffix, isSuffixOf x.isSome true c = true := fun c hc => by
    simpa [isSuffixOf] using hsuffix c hc
  rcases h with ⟨_, hpointed, _, hpower, rfl⟩ | ⟨whole, ⟨hne, hwhole⟩, _, hpower, rfl⟩
  · obtain ⟨whole, fraction, rfl, hne, hwhole, hfraction⟩ := exists_of_mem_pointed hpointed
    rcases hpower with rfl | hpower
    · refine ⟨⟨x, whole, some fraction, none, suffix⟩, ?_, by simp [spelling]⟩
      exact ⟨hx, hwhole, by simpa [isHex] using hfraction, by simp, by simp, by simp,
        by simpa [isFloat, isHex] using hallowed, by simpa [wellFormed] using hne⟩
    · obtain ⟨e, rfl, hmarker, hsign, hdigits, hdigit⟩ := exists_of_mem_powers hpower
      refine ⟨⟨x, whole, some fraction, some e, suffix⟩, ?_, by simp [spelling]⟩
      exact ⟨hx, hwhole, by simpa [isHex] using hfraction,
        by simpa [isHex] using hmarkers _ hmarker,
        by simpa using hsign, by simpa using hdigit,
        by simpa [isFloat, isHex] using hallowed, by simpa [wellFormed, hdigits] using hne⟩
  · obtain ⟨e, rfl, hmarker, hsign, hdigits, hdigit⟩ := exists_of_mem_powers hpower
    refine ⟨⟨x, whole, none, some e, suffix⟩, ?_, by simp [spelling]⟩
    exact ⟨hx, hwhole, by simp, by simpa [isHex] using hmarkers _ hmarker,
      by simpa using hsign, by simpa using hdigit,
      by simpa [isFloat, isHex] using hallowed, by simpa [wellFormed, hdigits] using hne⟩

/-- Digits alone make a regular numeral, with a prefix before them or without. -/
theorem exists_of_mem_someDigits {x suffix : Option Char} (hx : ∀ c ∈ x, c = 'x' ∨ c = 'X')
    (hsuffix : ∀ c ∈ suffix, isSuffixOf x.isSome false c = true)
    (h : text ∈ someDigits (isDigitOf x.isSome)) :
    ∃ n : Numeral, n.Regular ∧
      (x.elim [] fun x => ['0', x]) ++ text ++ suffix.toList = n.spelling :=
  ⟨⟨x, text, none, none, suffix⟩,
    ⟨hx, h.2, by simp, by simp, by simp, by simp, by simpa [isFloat, isHex] using hsuffix,
      by simpa [wellFormed] using h.1⟩, by simp [spelling]⟩

/-- Every literal is the spelling of a regular numeral. -/
theorem exists_regular_of_mem_literals (h : text ∈ literals) :
    ∃ n : Numeral, n.Regular ∧ text = n.spelling := by
  rcases h with ((⟨_, hdigits, _, hsuffix, rfl⟩ | ⟨_, hdigits, _, hsuffix, rfl⟩) |
    ⟨_, ⟨_, hmark, _, hdigits, rfl⟩, _, hsuffix, rfl⟩) |
    ⟨_, ⟨_, hmark, _, hdigits, rfl⟩, _, hsuffix, rfl⟩
  all_goals obtain ⟨suffix, rfl, hmem⟩ := exists_of_mem_optional hsuffix
  · obtain ⟨n, hn, heq⟩ := exists_of_mem_someDigits (x := none) (by simp)
      (fun c hc => by simpa [isSuffixOf, or_assoc] using hmem c hc) hdigits
    exact ⟨n, hn, heq⟩
  · obtain ⟨n, hn, heq⟩ :=
      exists_of_mem_floats (x := none) (by simp) (by simp [isMarkerOf]) hmem hdigits
    exact ⟨n, hn, heq⟩
  · obtain ⟨x, rfl, hx⟩ := exists_of_mem_hexMarks hmark
    obtain ⟨n, hn, heq⟩ := exists_of_mem_someDigits (x := some x) (by simpa using hx)
      (fun c hc => by simpa [isSuffixOf] using hmem c hc) hdigits
    exact ⟨n, hn, heq⟩
  · obtain ⟨x, rfl, hx⟩ := exists_of_mem_hexMarks hmark
    obtain ⟨n, hn, heq⟩ := exists_of_mem_floats (x := some x) (by simpa using hx)
      (by simp [isMarkerOf]) hmem hdigits
    exact ⟨n, hn, heq⟩

/-- A regular numeral can be divided anew with an `f` directly behind hexadecimal digits as one of
them. -/
theorem Regular.exists_canonical {n : Numeral} (h : n.Regular) :
    ∃ m : Numeral, m.Canonical ∧ m.spelling = n.spelling := by
  by_cases hf : n.isHex = true ∧ n.exponent = none ∧ n.suffix = some 'f'
  case neg => exact ⟨n, ⟨h, fun hhex hexp hsuffix => hf ⟨hhex, hexp, hsuffix⟩⟩, rfl⟩
  obtain ⟨hexMarker, whole, fraction, exponent, suffix⟩ := n
  simp only [isHex] at hf
  obtain ⟨hhex, rfl, rfl⟩ := hf
  obtain ⟨hx, hwhole, hfraction, -, -, -, hsuffix, hformed⟩ := h
  cases fraction with
  | none =>
    -- an `f` is no suffix of a hexadecimal integer
    have := hsuffix 'f' rfl
    simp [hhex, isSuffixOf, isHex, isFloat] at this
  | some ds =>
    refine ⟨⟨hexMarker, whole, some (ds ++ ['f']), none, none⟩,
      ⟨⟨hx, hwhole, ?_, by simp, by simp, by simp, by simp, by simp [Numeral.wellFormed]⟩, by simp⟩,
      by simp [spelling]⟩
    intro digits hdigits c hc
    obtain rfl := Option.mem_some.1 hdigits
    rcases List.mem_append.1 hc with hc | hc
    · exact hfraction ds rfl c hc
    · rw [List.mem_singleton.1 hc, isHex, hhex]
      decide

/-- A literal is scanned as it is, where nothing behind it could go on it. -/
theorem scan_literal_append {rest : List Char} (h : text ∈ literals) (hrest : Stops goesOn rest) :
    begins (text ++ rest) = true ∧ (scan (text ++ rest)).1.wellFormed = true ∧
      (scan (text ++ rest)).1.spelling = text ∧ (scan (text ++ rest)).2 = rest := by
  obtain ⟨n, hn, rfl⟩ := exists_regular_of_mem_literals h
  obtain ⟨m, hm, hspelling⟩ := hn.exists_canonical
  rw [← hspelling, hm.scan_append hrest]
  exact ⟨hm.begins_append, hm.wellFormed, rfl, rfl⟩

end Parts

end Numeral

end Wgsl
