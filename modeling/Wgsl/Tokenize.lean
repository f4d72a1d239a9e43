import Wgsl.Layout
import Wgsl.Numeral
import Wgsl.Text.Word
import Wgsl.Token

/-!
# Dividing a text into tokens

`tokenize` walks a text: it skips layout, reads one token, and goes on behind it, until the text
ends with a token for the end of the file. Which token stands at a place is decided by what begins
there, in this order: a number (a digit, or a point before a digit), a word, the longest symbol.
What begins none of them is invalid, as are an ill-formed number, together with the word that runs
into it, and a block comment without end, together with all the text behind it.

Every step takes at least one character (`scanToken_length_lt`), so the walk ends.
-/

namespace Wgsl

/-- The number at the beginning of a text. A word character behind it is not a token of its own:
it makes number and word together invalid. -/
def scanNumber (text : List Char) : TokenKind × List Char :=
  let numeral := (Numeral.scan text).1
  let rest := (Numeral.scan text).2
  let trailing := rest.takeWhile Text.continuesWord
  if numeral.wellFormed && trailing.isEmpty then
    (.number (String.ofList numeral.spelling), rest)
  else
    (.invalid (String.ofList (numeral.spelling ++ trailing)) .invalidNumber,
      rest.dropWhile Text.continuesWord)

/-- The keyword or identifier that a word spells. -/
def wordKind (word : String) : TokenKind :=
  match Keyword.ofWord? word with
  | some keyword => .keyword keyword
  | none => .identifier word

/-- The token at the beginning of a text without leading layout, with the text behind it; nothing
where the text ends. -/
def scanToken : List Char → Option (TokenKind × List Char)
  | [] => none
  | '/' :: '*' :: rest =>
    some (.invalid (String.ofList ('/' :: '*' :: rest)) .unterminatedComment, [])
  | c :: rest =>
    if Numeral.begins (c :: rest) then some (scanNumber (c :: rest))
    else if Text.startsWord c then
      some (wordKind (String.ofList (c :: rest.takeWhile Text.continuesWord)),
        rest.dropWhile Text.continuesWord)
    else match Symbol.scan (c :: rest) with
      | some (symbol, rest) => some (.symbol symbol, rest)
      | none => some (.invalid (String.ofList [c]) .unexpectedCharacter, rest)

/-- A word is the text of its token. -/
theorem text_wordKind (word : String) : (wordKind word).text = word := by
  rw [wordKind]
  split
  · rename_i h; exact Keyword.ofWord?_eq_some_iff.1 h
  · rfl

/-- A number and what is left make up the text. -/
theorem scanNumber_append (text : List Char) :
    (scanNumber text).1.text.toList ++ (scanNumber text).2 = text := by
  have := Numeral.scan_spelling text
  simp only [scanNumber]
  split <;> simp [TokenKind.text, this]

/-- The text of a token and the text behind it make up the text. -/
theorem scanToken_append {text rest : List Char} {kind : TokenKind}
    (h : scanToken text = some (kind, rest)) : kind.text.toList ++ rest = text := by
  unfold scanToken at h
  split at h
  · simp at h
  · simp only [Option.some.injEq, Prod.mk.injEq] at h
    simp [← h.1, ← h.2, TokenKind.text]
  · rename_i c rest' _
    split at h
    · simp only [Option.some.injEq] at h
      have := scanNumber_append (c :: rest')
      rwa [h] at this
    split at h
    · simp only [Option.some.injEq, Prod.mk.injEq] at h
      simp [← h.1, ← h.2, text_wordKind]
    split at h
    · rename_i mark rest'' hs
      simp only [Option.some.injEq, Prod.mk.injEq] at h
      rw [← h.1, ← h.2]
      exact Symbol.scan_split hs
    · simp only [Option.some.injEq, Prod.mk.injEq] at h
      simp [← h.1, ← h.2, TokenKind.text]

/-- Where a numeral begins, the number read there leaves less text. -/
theorem scanNumber_length_lt {text : List Char} (h : Numeral.begins text = true) :
    (scanNumber text).2.length < text.length := by
  have hlt := Numeral.scan_length_lt h
  simp only [scanNumber]
  split
  · exact hlt
  · exact Nat.lt_of_le_of_lt (Numeral.length_dropWhile_le _ _) hlt

/-- Behind a token less text is left. -/
theorem scanToken_length_lt {text rest : List Char} {kind : TokenKind}
    (h : scanToken text = some (kind, rest)) : rest.length < text.length := by
  unfold scanToken at h
  split at h
  · simp at h
  · simp only [Option.some.injEq, Prod.mk.injEq] at h
    simp [← h.2]
  · rename_i c rest' _
    split at h
    · rename_i hn
      have := scanNumber_length_lt hn
      simp only [Option.some.injEq] at h
      rwa [h] at this
    split at h
    · simp only [Option.some.injEq, Prod.mk.injEq] at h
      rw [← h.2, List.length_cons]
      exact Nat.lt_succ_of_le (Numeral.length_dropWhile_le _ _)
    split at h
    · rename_i hs
      simp only [Option.some.injEq, Prod.mk.injEq] at h
      rw [← h.2]
      exact Symbol.scan_length_lt hs
    · simp only [Option.some.injEq, Prod.mk.injEq] at h
      simp [← h.2]

/-- No token is empty. -/
theorem scanToken_text_ne_nil {text rest : List Char} {kind : TokenKind}
    (h : scanToken text = some (kind, rest)) : kind.text.toList ≠ [] := by
  intro hnil
  have hsplit := scanToken_append h
  rw [hnil, List.nil_append] at hsplit
  exact Nat.lt_irrefl _ (hsplit ▸ scanToken_length_lt h)

/-- The place to go on reading from, when a token has been read, is behind the token's text. -/
theorem scanToken_behind {q : Place} {rest : List Char} {kind : TokenKind}
    (h : scanToken q.text = some (kind, rest)) :
    q.Behind kind.text.toList ⟨q.location.after kind.text.toList, rest⟩ :=
  ⟨scanToken_append h, rfl⟩

/-- The tokens from a place on, the end of the file included. -/
def tokensFrom (p : Place) : List Token :=
  let q := Layout.skip p
  match _h : scanToken q.text with
  | none => [⟨.endOfFile, q.location⟩]
  | some (kind, rest) =>
    ⟨kind, q.location⟩ :: tokensFrom ⟨q.location.after kind.text.toList, rest⟩
termination_by p.text.length
decreasing_by
  obtain ⟨_, h⟩ := Layout.skip_behind p
  exact Nat.lt_of_lt_of_le (scanToken_length_lt _h) h.length_le

/-- The tokens of a source text, the end of the file included. -/
def tokenize (source : String) : List Token := tokensFrom (.ofSource source)

end Wgsl
