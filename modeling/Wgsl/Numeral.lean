/-!
# Numerals

A numeral is a number as it is spelled, divided into its parts: the marker of the hexadecimal
prefix, the whole digits, a fraction, an exponent and a suffix. `Numeral.scan` divides the text at
a place where a number begins; it never fails, and takes the parts greedily from left to right.
Whether what it took is a number is a question for afterwards: every numeral needs a digit, and an
exponent needs digits of its own (`Numeral.wellFormed`).

The suffixes `i` and `u` belong to integers. `f` and `h` belong to every decimal numeral, but to a
hexadecimal one only behind a point or an exponent, where an `f` is no digit any more.

`scan_spelling` is the law of the module: the spelling of the numeral and the text behind it make
up the text again.
-/

namespace Wgsl

/-- A hexadecimal digit of ASCII, in either case. -/
def isHexDigit (c : Char) : Bool :=
  c.isDigit || ('a' ≤ c && c ≤ 'f') || ('A' ≤ c && c ≤ 'F')

/-- The power behind the digits: `e` or `p` in either case, a sign, decimal digits. -/
structure Exponent where
  marker : Char
  sign : Option Char
  digits : List Char
deriving DecidableEq

/-- The parts of a number as it is spelled. -/
structure Numeral where
  /-- The `x` or `X` behind the leading zero of a hexadecimal numeral. -/
  hexMarker : Option Char
  whole : List Char
  /-- The digits behind the point, if there is a point. -/
  fraction : Option (List Char)
  exponent : Option Exponent
  suffix : Option Char
deriving DecidableEq

namespace Exponent

/-- The exponent as it is written. -/
def spelling (e : Exponent) : List Char := e.marker :: (e.sign.toList ++ e.digits)

end Exponent

namespace Numeral

/-- A marker in front makes a numeral hexadecimal. -/
def isHex (n : Numeral) : Bool := n.hexMarker.isSome

/-- A point or an exponent makes a numeral a float. -/
def isFloat (n : Numeral) : Bool := n.fraction.isSome || n.exponent.isSome

/-- The characters of the numeral, suffix included. -/
def spelling (n : Numeral) : List Char :=
  (n.hexMarker.elim [] fun x => ['0', x]) ++ n.whole ++ (n.fraction.elim [] fun f => '.' :: f)
    ++ (n.exponent.elim [] Exponent.spelling) ++ n.suffix.toList

/-- There is a digit before or behind the point, and one in the exponent if there is an exponent. -/
def wellFormed (n : Numeral) : Bool :=
  !(n.whole ++ n.fraction.getD []).isEmpty && n.exponent.all fun e => !e.digits.isEmpty

/-! ## Dividing a text -/

/-- The hexadecimal prefix: its marker, and the text behind it. -/
def splitHexMarker : List Char → Option Char × List Char
  | '0' :: 'x' :: rest => (some 'x', rest)
  | '0' :: 'X' :: rest => (some 'X', rest)
  | text => (none, text)

/-- A point with the digits behind it. -/
def splitFraction (isDigit : Char → Bool) : List Char → Option (List Char) × List Char
  | '.' :: rest => (some (rest.takeWhile isDigit), rest.dropWhile isDigit)
  | text => (none, text)

/-- A plus or minus sign. -/
def splitSign : List Char → Option Char × List Char
  | '+' :: rest => (some '+', rest)
  | '-' :: rest => (some '-', rest)
  | text => (none, text)

/-- An exponent that begins with one of the markers. -/
def splitExponent (isMarker : Char → Bool) : List Char → Option Exponent × List Char
  | c :: rest =>
    if isMarker c then
      let (sign, rest) := splitSign rest
      (some ⟨c, sign, rest.takeWhile Char.isDigit⟩, rest.dropWhile Char.isDigit)
    else (none, c :: rest)
  | [] => (none, [])

/-- A suffix out of those allowed. -/
def splitSuffix (allowed : Char → Bool) : List Char → Option Char × List Char
  | c :: rest => if allowed c then (some c, rest) else (none, c :: rest)
  | [] => (none, [])

/-- The digits of a decimal or a hexadecimal numeral. -/
def isDigitOf (hex : Bool) (c : Char) : Bool := if hex then isHexDigit c else c.isDigit

/-- What begins the exponent of a decimal or a hexadecimal numeral. -/
def isMarkerOf (hex : Bool) (c : Char) : Bool :=
  if hex then c == 'p' || c == 'P' else c == 'e' || c == 'E'

/-- The suffixes that may follow the digits. -/
def isSuffixOf (hex float : Bool) (c : Char) : Bool :=
  (!float && (c == 'i' || c == 'u')) || ((!hex || float) && (c == 'f' || c == 'h'))

/-- A numeral begins here: with a decimal digit, or with a point before one. -/
def begins : List Char → Bool
  | [] => false
  | c :: rest => c.isDigit || (c == '.' && rest.head?.any Char.isDigit)

/-- The numeral at the beginning of a text, with the text behind it. -/
def scan (text : List Char) : Numeral × List Char :=
  let (hexMarker, text) := splitHexMarker text
  let hex := hexMarker.isSome
  let whole := text.takeWhile (isDigitOf hex)
  let (fraction, text) := splitFraction (isDigitOf hex) (text.dropWhile (isDigitOf hex))
  let (exponent, text) := splitExponent (isMarkerOf hex) text
  let (suffix, text) := splitSuffix (isSuffixOf hex (fraction.isSome || exponent.isSome)) text
  (⟨hexMarker, whole, fraction, exponent, suffix⟩, text)

/-! ## Nothing is lost -/

/-- The mark of a hexadecimal numeral and what is left make up the text. -/
theorem splitHexMarker_append (text : List Char) :
    ((splitHexMarker text).1.elim [] fun x => ['0', x]) ++ (splitHexMarker text).2 = text := by
  fun_cases splitHexMarker text <;> simp_all

/-- So do a fraction and what is left. -/
theorem splitFraction_append (isDigit : Char → Bool) (text : List Char) :
    ((splitFraction isDigit text).1.elim [] fun f => '.' :: f) ++ (splitFraction isDigit text).2
      = text := by
  fun_cases splitFraction isDigit text <;> simp_all

/-- So do a sign and what is left. -/
theorem splitSign_append (text : List Char) :
    (splitSign text).1.toList ++ (splitSign text).2 = text := by
  fun_cases splitSign text <;> simp_all

/-- So do an exponent and what is left. -/
theorem splitExponent_append (isMarker : Char → Bool) (text : List Char) :
    ((splitExponent isMarker text).1.elim [] Exponent.spelling) ++ (splitExponent isMarker text).2
      = text := by
  fun_cases splitExponent isMarker text with
  | case1 c rest h sign rest' hs =>
    have := splitSign_append rest
    simp_all [Exponent.spelling]
  | case2 c rest h => simp
  | case3 => rfl

/-- So do a suffix and what is left. -/
theorem splitSuffix_append (allowed : Char → Bool) (text : List Char) :
    (splitSuffix allowed text).1.toList ++ (splitSuffix allowed text).2 = text := by
  fun_cases splitSuffix allowed text <;> simp_all

/-- A scanned numeral and the text behind it make up the text. -/
theorem scan_spelling (text : List Char) : (scan text).1.spelling ++ (scan text).2 = text := by
  simp only [scan, spelling, List.append_assoc, splitSuffix_append, splitExponent_append,
    splitFraction_append, List.takeWhile_append_dropWhile, splitHexMarker_append]

/-! ## Something is taken -/

/-- What a fraction leaves is no longer than the text. -/
theorem splitFraction_length_le (isDigit : Char → Bool) (text : List Char) :
    (splitFraction isDigit text).2.length ≤ text.length := by
  have := congrArg List.length (splitFraction_append isDigit text)
  rw [List.length_append] at this
  omega

/-- Nor is what an exponent leaves. -/
theorem splitExponent_length_le (isMarker : Char → Bool) (text : List Char) :
    (splitExponent isMarker text).2.length ≤ text.length := by
  have := congrArg List.length (splitExponent_append isMarker text)
  rw [List.length_append] at this
  omega

/-- Nor is what a suffix leaves. -/
theorem splitSuffix_length_le (allowed : Char → Bool) (text : List Char) :
    (splitSuffix allowed text).2.length ≤ text.length := by
  have := congrArg List.length (splitSuffix_append allowed text)
  rw [List.length_append] at this
  omega

/-- Nor is what digits leave. -/
theorem length_dropWhile_le (p : Char → Bool) (text : List Char) :
    (text.dropWhile p).length ≤ text.length := (List.dropWhile_suffix p).length_le

/-- Where a numeral begins, prefix, digits and fraction take a character. -/
theorem digits_length_lt {text : List Char} (h : begins text = true) :
    (splitFraction (isDigitOf (splitHexMarker text).1.isSome)
      ((splitHexMarker text).2.dropWhile (isDigitOf (splitHexMarker text).1.isSome))).2.length
        < text.length := by
  have taken (hex : Bool) (t : List Char) :
      (splitFraction (isDigitOf hex) (t.dropWhile (isDigitOf hex))).2.length ≤ t.length :=
    Nat.le_trans (splitFraction_length_le _ _) (length_dropWhile_le _ _)
  fun_cases splitHexMarker text with
  | case1 rest | case2 rest =>
    have := taken true rest
    simp only [Option.isSome_some, List.length_cons]
    omega
  | case3 =>
    match text, h with
    | c :: rest, h =>
      simp only [begins, Bool.or_eq_true, Bool.and_eq_true, beq_iff_eq] at h
      rcases h with digit | ⟨rfl, _⟩
      · have := taken false rest
        simp only [Option.isSome_none, List.dropWhile_cons, isDigitOf, digit, if_true,
          Bool.false_eq_true, if_false, List.length_cons]
        exact Nat.lt_succ_of_le this
      · have point : ('.' :: rest).dropWhile (isDigitOf false) = '.' :: rest := by simp [isDigitOf]
        have := length_dropWhile_le (isDigitOf false) rest
        simp only [Option.isSome_none, point, splitFraction, List.length_cons]
        omega

/-- Where a numeral begins, scanning it leaves less text. -/
theorem scan_length_lt {text : List Char} (h : begins text = true) :
    (scan text).2.length < text.length :=
  Nat.lt_of_le_of_lt (Nat.le_trans (splitSuffix_length_le _ _) (splitExponent_length_le _ _))
    (digits_length_lt h)

end Numeral

end Wgsl
