import Mathlib.Data.List.Chain
import Wgsl.Proofs.Lexical.Adjacent
import Wgsl.Proofs.Spelling.Piece

/-!
# Pieces laid out as a text

Pieces are written one behind the other with white space before each, or none. Where there is none,
two pieces can be told apart if the first ends before the character that the second begins with.
Closing angles need not be told apart: `>>` is one token, and the pieces of it are still two.
Neither need the `=` be that stands behind an angle.

Whatever tokens such a text is read as, they spell the pieces (`Laid.exists_readAs`). Three
characters are looked at there, since no token has more: an angle ends before what follows, or
another angle or an `=` is read with it, or first the one and then the other.
-/

namespace Wgsl

open Text

/-- The kind of token that the piece is if it stands alone. -/
def Piece.kind : Piece → TokenKind
  | .token t => t.kind
  | .angle => .symbol .greaterThan

/-- A piece with the white space before it. -/
structure Laid where
  before : List Char
  piece : Piece

namespace Laid

/-- The piece as a token of the text, with the text before it. -/
def spaced (a : Laid) : Spaced := ⟨a.before, a.piece.kind⟩

/-- The text that the pieces are laid out as, and what stands behind it. -/
def textOf (laid : List Laid) (behind : List Char) : List Char :=
  Spaced.textOf (laid.map spaced) behind

@[simp] theorem textOf_nil (behind : List Char) : textOf [] behind = behind := rfl

@[simp] theorem textOf_cons (a : Laid) (laid : List Laid) (behind : List Char) :
    textOf (a :: laid) behind = a.before ++ (a.piece.kind.text.toList ++ textOf laid behind) := by
  rw [textOf, List.map_cons, Spaced.textOf_cons, Spaced.text, List.append_assoc]
  rfl

/-- Behind the one piece the other may be written without white space: the first ends before it, or
they are two closing angles. -/
def Meets (a b : Laid) : Prop :=
  b.before = [] → a.piece = .angle ∧ b.piece = .angle ∨
    a.piece.kind.EndsBeforeText b.piece.kind.text.toList

/-- The pieces can be read as they are laid out: only white space stands between them, each can be
spelled, and where nothing stands between two they may meet. -/
structure Legible (laid : List Laid) : Prop where
  blank : ∀ a ∈ laid, ∀ c ∈ a.before, isWhiteSpace c = true
  spellable : ∀ a ∈ laid, a.piece.kind.Spellable
  meets : laid.IsChain Meets

/-- The `=` behind an angle, where two angles and it would be one token at the start. -/
def equal : Token := ⟨.symbol .equal, Location.start.rightBy 2⟩

/-- As `Meets`, and an `=` may be written behind an angle, too. -/
def Follows (a b : Laid) : Prop :=
  b.before = [] → a.piece = .angle ∧ (b.piece = .angle ∨ b.piece = .token equal) ∨
    a.piece.kind.EndsBeforeText b.piece.kind.text.toList

/-- What may stand directly behind a piece may follow it. -/
theorem Meets.follows {a b : Laid} (h : a.Meets b) : a.Follows b := fun hb =>
  (h hb).imp (fun hangles => ⟨hangles.1, .inl hangles.2⟩) id

/-- As `Legible`, with `=` behind angles. -/
structure Readable (laid : List Laid) : Prop where
  blank : ∀ a ∈ laid, ∀ c ∈ a.before, isWhiteSpace c = true
  spellable : ∀ a ∈ laid, a.piece.kind.Spellable
  follows : laid.IsChain Follows

/-- What is readable is so from any piece on. -/
theorem Readable.tail {a : Laid} {laid : List Laid} (h : Readable (a :: laid)) :
    Readable laid :=
  ⟨fun b hb => h.blank b (List.mem_cons_of_mem _ hb),
    fun b hb => h.spellable b (List.mem_cons_of_mem _ hb), h.follows.tail⟩

end Laid

/-! ## Symbols with an angle in them -/

namespace Symbol

/-- A symbol that begins no other one, no comment and no number ends before everything. -/
theorem endsBefore_of_alone {mark : Symbol} (hmark : mark ≠ .slash ∧ mark ≠ .period)
    (halone : ∀ longer ∈ all, mark.lexeme.toList <+: longer.lexeme.toList → longer = mark)
    (c : Char) : (TokenKind.symbol mark).EndsBefore c := by
  refine ⟨?_, fun h => absurd h hmark.1, fun h => absurd h hmark.2⟩
  rintro longer hlonger
  obtain rfl := halone longer (mem_all longer) ((List.prefix_append _ _).trans hlonger)
  have hlength := hlonger.length_le
  rw [List.length_append, List.length_singleton] at hlength
  exact absurd hlength (Nat.not_succ_le_self _)

/-- Only what could be added to `>` is added to `>>`. -/
theorem endsBefore_shiftRight {c : Char} (hc : c ≠ '=') :
    (TokenKind.symbol .shiftRight).EndsBefore c := by
  refine ⟨?_, by rintro ⟨⟩, by rintro ⟨⟩⟩
  rintro longer ⟨more, hmore⟩
  cases longer <;> cases hmore
  exact hc rfl

end Symbol

namespace Laid

variable {laid rest : List Laid} {a : Laid} {before behind : List Char}

/-- What may be read with a piece is an angle or an `=`, behind an angle. -/
theorem Readable.runs_or (h : Readable (a :: rest))
    (hbehind : ∀ c ∈ behind, isWhiteSpace c = true) :
    (a.piece = .angle ∧ ∃ rest', rest = ⟨[], .angle⟩ :: rest') ∨
      (a.piece = .angle ∧ ∃ rest', rest = ⟨[], .token equal⟩ :: rest') ∨
      a.piece.kind.EndsBeforeText (textOf rest behind) := by
  have hspellable := h.spellable a List.mem_cons_self
  cases rest with
  | nil =>
    refine .inr (.inr fun c hc => hspellable.endsBefore_of_isWhiteSpace (hbehind c ?_))
    exact List.mem_of_mem_head? hc
  | cons b rest =>
    obtain ⟨blank, piece⟩ := b
    cases blank with
    | cons d blank =>
      have hd : isWhiteSpace d = true :=
        h.blank ⟨d :: blank, piece⟩ (List.mem_cons_of_mem _ List.mem_cons_self) d List.mem_cons_self
      refine .inr (.inr ?_)
      rintro c hc
      obtain rfl : d = c := by simpa using hc
      exact hspellable.endsBefore_of_isWhiteSpace hd
    | nil =>
      rcases (List.isChain_cons_cons.1 h.follows).1 rfl with ⟨hangle, rfl | rfl⟩ | hends
      · exact .inl ⟨hangle, rest, rfl⟩
      · exact .inr (.inl ⟨hangle, rest, rfl⟩)
      · refine .inr (.inr fun c hc => hends c ?_)
        have hpiece := h.spellable ⟨[], piece⟩ (List.mem_cons_of_mem _ List.mem_cons_self)
        have hparted : Parted [] := by simp [Parted]
        have hne := scanToken_text_ne_nil (hpiece.scanToken_append hparted)
        rw [textOf_cons, List.nil_append, List.head?_append_of_ne_nil _ hne] at hc
        exact hc

/-- The tokens spell the pieces and are read, wherever the text stands. -/
structure ReadAs (laid : List Laid) (behind : List Char) (ts : List Token) : Prop where
  joins : Joins (laid.map Laid.piece) ts
  tokens : ∀ t ∈ ts, t.kind ≠ .endOfFile
  kinds : ∀ l, (tokensFrom ⟨l, textOf laid behind⟩).map Token.kind =
    ts.map Token.kind ++ [.endOfFile]

/-- One more token before those that are read behind it, whichever pieces it spells. -/
theorem ReadAs.cons {ts : List Token} {t : Token} (h : ReadAs rest behind ts)
    (hblank : ∀ c ∈ before, isWhiteSpace c = true) (ht : t.kind.Spellable)
    (hends : t.kind.EndsBeforeText (textOf rest behind))
    (htext : textOf laid behind = before ++ (t.kind.text.toList ++ textOf rest behind))
    (hjoins : Joins (laid.map Laid.piece) (t :: ts)) : ReadAs laid behind (t :: ts) where
  joins := hjoins
  tokens := by
    refine List.forall_mem_cons.2 ⟨?_, h.tokens⟩
    intro hend
    rw [hend] at ht
    exact ht
  kinds l := by
    rw [htext, tokensFrom_of_endsBefore hblank ht hends, List.map_cons, h.kinds]
    rfl

/-- Whatever tokens the text is read as, they spell the pieces. -/
theorem exists_readAs (hbehind : ∀ c ∈ behind, isWhiteSpace c = true) :
    (laid : List Laid) → Readable laid → ∃ ts, ReadAs laid behind ts
  | [], _ => by
    refine ⟨[], .nil, by simp, fun l => ?_⟩
    rw [textOf_nil, tokensFrom_blank hbehind]
    rfl
  | ⟨before, .token t⟩ :: rest, h => by
    obtain ⟨ts, hts⟩ := exists_readAs hbehind rest h.tail
    have hends : t.kind.EndsBeforeText (textOf rest behind) := by
      rcases h.runs_or hbehind with ⟨⟨⟩, -⟩ | ⟨⟨⟩, -⟩ | hends
      exact hends
    exact ⟨t :: ts, hts.cons (h.blank _ List.mem_cons_self) (h.spellable _ List.mem_cons_self) hends
      (textOf_cons _ _ _) (.token hts.joins)⟩
  | ⟨before, .angle⟩ :: rest, h => by
    have hblank : ∀ c ∈ before, isWhiteSpace c = true := h.blank ⟨before, .angle⟩ List.mem_cons_self
    rcases h.runs_or hbehind with ⟨-, rest, rfl⟩ | ⟨-, rest, rfl⟩ | hends
    · -- with the second angle an `=` or another angle may stand behind
      rcases h.tail.runs_or hbehind with ⟨-, rest, rfl⟩ | ⟨-, rest, rfl⟩ | hends
      · obtain ⟨ts, hts⟩ := exists_readAs hbehind (⟨[], .angle⟩ :: rest) h.tail.tail
        refine ⟨⟨.symbol .shiftRight, .start⟩ :: ts, hts.cons hblank trivial ?_ ?_
          (.split rfl (.angle rfl hts.joins))⟩
        · rintro c ⟨⟩
          exact Symbol.endsBefore_shiftRight (by decide)
        · simp only [textOf_cons]
          rfl
      · obtain ⟨ts, hts⟩ := exists_readAs hbehind rest h.tail.tail.tail
        refine ⟨⟨.symbol .shiftRightEqual, .start⟩ :: ts, hts.cons hblank trivial
          (fun c _ => Symbol.endsBefore_of_alone (by decide) (by decide +kernel) c) ?_
          (.split rfl (.split rfl (.token hts.joins)))⟩
        simp only [textOf_cons]
        rfl
      · obtain ⟨ts, hts⟩ := exists_readAs hbehind rest h.tail.tail
        refine ⟨⟨.symbol .shiftRight, .start⟩ :: ts, hts.cons hblank trivial ?_ ?_
          (.split rfl (.angle rfl hts.joins))⟩
        · intro c hc
          refine Symbol.endsBefore_shiftRight ?_
          rintro rfl
          exact (hends _ hc).1 .greaterThanEqual ⟨[], rfl⟩
        · simp only [textOf_cons]
          rfl
    · obtain ⟨ts, hts⟩ := exists_readAs hbehind rest h.tail.tail
      refine ⟨⟨.symbol .greaterThanEqual, Location.start.rightBy 1⟩ :: ts, hts.cons hblank trivial
        (fun c _ => Symbol.endsBefore_of_alone (by decide) (by decide +kernel) c) ?_
        (.split rfl (.token hts.joins))⟩
      simp only [textOf_cons]
      rfl
    · obtain ⟨ts, hts⟩ := exists_readAs hbehind rest h.tail
      exact ⟨⟨.symbol .greaterThan, .start⟩ :: ts, hts.cons hblank trivial hends
        (textOf_cons _ _ _) (.angle rfl hts.joins)⟩
termination_by laid => laid.length

end Laid

end Wgsl
