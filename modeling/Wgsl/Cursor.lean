import Wgsl.Token

/-!
# Cursors

A cursor is a place in a sequence of tokens: the tokens still to be read, up to the end of the
file. What stands behind the first token for the end of the file is never looked at, so a cursor
does not hold it.

A type parameter list is closed by a `>`, but the text `>>`, `>=` or `>>=` is one token. A cursor
may therefore stand inside its first token: `taken` counts the characters that closing angles have
split off it, and the token that is read, `Cursor.current`, is what is left, as many columns to the
right. At most two characters can be split off.

`Cursor.measure` is what reading uses up: three for each token, less what has been split off the
first one. Advancing and splitting both lower it (`measure_advance_lt`, `measure_split_lt`).
-/

namespace Wgsl

/-- What is left of a symbol when a `>` is split off its front, if one can be. -/
def Symbol.afterAngle? : Symbol → Option Symbol
  | .shiftRight => some .greaterThan
  | .greaterThanEqual => some .equal
  | .shiftRightEqual => some .greaterThanEqual
  | _ => none

/-- What is left of a token when a `>` is split off its front, if one can be. -/
def Token.afterAngle? (t : Token) : Option Token :=
  match t.kind with
  | .symbol mark => mark.afterAngle?.map fun mark => ⟨.symbol mark, t.location.rightBy 1⟩
  | _ => none

/-- What is left of a token when a number of `>` are split off its front. -/
def Token.afterAngles (t : Token) : Nat → Token
  | 0 => t
  | n + 1 => (t.afterAngles n).afterAngle?.getD (t.afterAngles n)

/-- No symbol is left to split when two characters have been split off. -/
theorem Token.afterAngles_two (t : Token) : (t.afterAngles 2).afterAngle? = none := by
  obtain ⟨kind, l⟩ := t
  cases kind with
  | symbol mark => cases mark <;> rfl
  | _ => rfl

/-- A place in a sequence of tokens. -/
structure Cursor where
  /-- The tokens still to be read, without the end of the file. -/
  upcoming : List Token
  /-- The characters split off the first of them. -/
  taken : Nat
  /-- Where the file ends. -/
  finish : Location
  taken_le : taken ≤ 2 := by omega

namespace Cursor

/-- The location of the end of a sequence of tokens: that of the token for it, else that of the
last token. -/
def finishOf (last : Location) : List Token → Location
  | [] => last
  | t :: tokens => if t.kind = .endOfFile then t.location else finishOf t.location tokens

/-- The cursor at the beginning of a sequence of tokens. -/
def ofTokens (tokens : List Token) : Cursor where
  upcoming := tokens.takeWhile (·.kind ≠ .endOfFile)
  taken := 0
  finish := finishOf .start tokens

/-- The token to be read. -/
def current (c : Cursor) : Token :=
  match c.upcoming with
  | [] => ⟨.endOfFile, c.finish⟩
  | t :: _ => t.afterAngles c.taken

/-- The kind of the token behind the one to be read. -/
def following (c : Cursor) : TokenKind :=
  match c.upcoming with
  | _ :: t :: _ => t.kind
  | _ => .endOfFile

/-- The cursor behind the token to be read; at the end of the file, the cursor itself. -/
def advance (c : Cursor) : Cursor :=
  match c.upcoming with
  | [] => c
  | _ :: tokens => ⟨tokens, 0, c.finish, by omega⟩

/-- The cursor behind the first character of the token to be read, where that is a `>` before
others; elsewhere the cursor itself. -/
def split (c : Cursor) : Cursor :=
  if h : c.taken < 2 ∧ c.current.afterAngle?.isSome then
    ⟨c.upcoming, c.taken + 1, c.finish, by omega⟩
  else c

/-- What reading uses up. -/
def measure (c : Cursor) : Nat := 3 * c.upcoming.length - c.taken

/-! ## Reading uses up the measure -/

/-- Advancing gives nothing back. -/
theorem measure_advance_le (c : Cursor) : c.advance.measure ≤ c.measure := by
  have := c.taken_le
  rw [advance]
  split
  · exact Nat.le_refl _
  · rename_i h
    simp only [measure, h, List.length_cons]
    omega

/-- Before the end of the file, advancing lowers the measure. -/
theorem measure_advance_lt {c : Cursor} (h : c.current.kind ≠ .endOfFile) :
    c.advance.measure < c.measure := by
  have := c.taken_le
  rw [current] at h
  rw [advance]
  split
  · simp_all
  · rename_i h
    simp only [measure, h, List.length_cons]
    omega

/-- Splitting gives nothing back. -/
theorem measure_split_le (c : Cursor) : c.split.measure ≤ c.measure := by
  rw [split]
  split
  · simp only [measure]; omega
  · exact Nat.le_refl _

/-- Where a `>` stands before others, splitting it off lowers the measure. -/
theorem measure_split_lt {c : Cursor} (h : c.current.afterAngle?.isSome) :
    c.split.measure < c.measure := by
  have hle := c.taken_le
  rw [current] at h
  cases hu : c.upcoming with
  | nil => rw [hu] at h; simp [Token.afterAngle?] at h
  | cons t tokens =>
    rw [hu] at h
    have htaken : c.taken < 2 := by
      refine Nat.lt_of_le_of_ne hle fun h2 => ?_
      rw [h2] at h
      simp [Token.afterAngles_two] at h
    have hcur : c.current.afterAngle?.isSome := by rwa [current, hu]
    rw [split, dif_pos ⟨htaken, hcur⟩]
    simp only [measure, hu, List.length_cons]
    omega

end Cursor

end Wgsl
