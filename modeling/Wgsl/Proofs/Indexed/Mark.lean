import Wgsl.Proofs.Spelling.Piece
import Wgsl.Proofs.Upcoming

/-!
# Places by index

A place in a sequence of tokens can be kept as an index, with what is left of the token there where
a `>` has been split off it. All looking and moving then goes by index, and an index may be out of
bounds, or a remainder one of another token. `none` is the answer to the first, and nothing in the
definitions prevents the second.

`Mark.Valid` says what keeps both away: the index is not behind the first end of the file, and the
remainder is one of the token at the index. Under it a mark is a list of tokens, those that remain
(`Mark.remaining`), and each way to look or to move is one of lists: the first token, the one behind
it, the list without its first token, the list with a shorter first token.
-/

namespace Wgsl

/-- The tokens with the end of the file; where it does not stand last, it is added, at the location
of the last token. -/
def withEndOfFile (tokens : List Token) : List Token :=
  match tokens.getLast? with
  | some t => if t.kind = .endOfFile then tokens else tokens ++ [⟨.endOfFile, t.location⟩]
  | none => [⟨.endOfFile, .start⟩]

/-- The index of the first end of the file. -/
def endIndex (tokens : List Token) : Nat := tokens.findIdx fun t => t.kind = .endOfFile

/-- A token is what is left of another when characters have been split off its front: one of `>>`,
`>=` and `>>=` is longer than its rest, which is a symbol and begins as much further right. -/
structure Token.IsRestOf (rest t : Token) : Prop where
  splits : t.kind ∈
    [.symbol .shiftRight, .symbol .greaterThanEqual, .symbol .shiftRightEqual]
  isSymbol : ∃ mark, rest.kind = .symbol mark
  ne_empty : rest.text ≠ ""
  suffix : ∃ front : List Char, front ≠ [] ∧ t.text.toList = front ++ rest.text.toList ∧
    rest.location = t.location.rightBy front.length

/-- A place in a sequence of tokens, by index. -/
structure Mark where
  position : Nat
  /-- What is left of the token there, if characters have been split off it. -/
  residual : Option Token

namespace Mark

variable (tokens : List Token) (m : Mark)

/-- The token to be read. -/
def peek? : Option Token := m.residual.or tokens[m.position]?

/-- The kind of the token a number of places behind the one at the index, or of the last token. -/
def peekAhead? (n : Nat) : Option TokenKind :=
  tokens[min (m.position + n) (tokens.length - 1)]?.map Token.kind

/-- Go behind the token to be read, or behind what is left of it; not behind the end of the file. -/
def advance? : Option Mark :=
  (m.peek? tokens).map fun t =>
    if m.residual.isSome ∨ t.kind ≠ .endOfFile then ⟨m.position + 1, none⟩ else ⟨m.position, none⟩

/-- Split a `>` off the token to be read, if others follow it there. -/
def split? : Option Mark :=
  (m.peek? tokens).map fun t =>
    match t.afterAngle? with
    | some rest => ⟨m.position, some rest⟩
    | none => m

/-- The tokens that remain: what is left of the one at the index, and those behind it. -/
def remaining : List Token :=
  match m.residual with
  | some rest => rest :: tokens.drop (m.position + 1)
  | none => tokens.drop m.position

/-- The index is not behind the end of the file, and the remainder is one of the token there. -/
structure Valid : Prop where
  position_le : m.position ≤ endIndex tokens
  residual : ∀ rest, m.residual = some rest →
    ∃ t, tokens[m.position]? = some t ∧ rest.IsRestOf t

end Mark

/-! ## The end of the file -/

/-- A list of tokens is given an end of the file, if it has none. -/
theorem exists_endOfFile (tokens : List Token) :
    ∃ t ∈ withEndOfFile tokens, t.kind = .endOfFile := by
  unfold withEndOfFile
  split
  · rename_i t ht
    split
    · rename_i hend
      exact ⟨t, List.mem_of_getLast? ht, hend⟩
    · exact ⟨_, List.mem_append_right _ (List.mem_singleton_self _), rfl⟩
  · exact ⟨_, List.mem_singleton_self _, rfl⟩

/-- The end of the file has an index. -/
theorem endIndex_lt (tokens : List Token) :
    endIndex (withEndOfFile tokens) < (withEndOfFile tokens).length := by
  obtain ⟨t, ht, hend⟩ := exists_endOfFile tokens
  exact List.findIdx_lt_length_of_exists ⟨t, ht, by simpa using hend⟩

/-- At that index stands the end of the file. -/
theorem getElem?_endIndex {tokens : List Token} (hend : endIndex tokens < tokens.length) :
    ∃ e, tokens[endIndex tokens]? = some e ∧ e.kind = .endOfFile := by
  exact ⟨_, List.getElem?_eq_getElem hend, of_decide_eq_true (List.findIdx_getElem (w := hend))⟩

/-- The tokens before the first end of the file, and those behind it. -/
theorem exists_first_endOfFile {tokens : List Token} (h : ∃ t ∈ tokens, t.kind = .endOfFile) :
    ∃ front e back, tokens = front ++ e :: back ∧ (∀ t ∈ front, t.kind ≠ .endOfFile) ∧
      e.kind = .endOfFile := by
  obtain ⟨t, ht, hend⟩ := h
  have hfound : (tokens.find? fun t => t.kind = .endOfFile).isSome :=
    List.find?_isSome.2 ⟨t, ht, by simpa using hend⟩
  obtain ⟨e, he⟩ := Option.isSome_iff_exists.1 hfound
  obtain ⟨hkind, front, back, happend, hfront⟩ := List.find?_eq_some_iff_append.1 he
  exact ⟨front, e, back, happend, by simpa using hfront, by simpa using hkind⟩

section Front

variable {front back : List Token} {e : Token}

/-- Nothing behind the first end of the file is upcoming, or says where the file ends. -/
theorem Cursor.ofTokens_eq (hfront : ∀ t ∈ front, t.kind ≠ .endOfFile) (he : e.kind = .endOfFile) :
    ofTokens (front ++ e :: back) = ⟨front, 0, e.location, Nat.zero_le _⟩ := by
  unfold ofTokens
  congr 1
  · rw [List.takeWhile_append_of_pos (by simpa using hfront),
      List.takeWhile_cons_of_neg (by simp [he]), List.append_nil]
  · rw [finishOf_append hfront, finishOf, if_pos he]

/-- What stands behind an end of the file is of no account. -/
theorem Cursor.ofTokens_congr (he : e.kind = .endOfFile) (front back back' : List Token) :
    ofTokens (front ++ e :: back) = ofTokens (front ++ e :: back') := by
  obtain ⟨front', e', back'', hsplit, hfront', he'⟩ :=
    exists_first_endOfFile ⟨e, List.mem_append_right front (List.mem_singleton_self e), he⟩
  have happend : ∀ behind, front ++ e :: behind = front' ++ e' :: (back'' ++ behind) := by
    intro behind
    rw [List.append_cons, hsplit, List.append_assoc, List.cons_append]
  rw [happend, happend, ofTokens_eq hfront' he', ofTokens_eq hfront' he']

end Front

/-- The end of the file that is added says what the tokens do. -/
theorem Cursor.ofTokens_withEndOfFile (tokens : List Token) :
    ofTokens (withEndOfFile tokens) = ofTokens tokens := by
  unfold withEndOfFile
  split
  · rename_i t ht
    split
    · rfl
    · rename_i hne
      by_cases hend : ∃ u ∈ tokens, u.kind = .endOfFile
      · obtain ⟨front, e, back, rfl, hfront, he⟩ := exists_first_endOfFile hend
        rw [List.append_assoc, List.cons_append, ofTokens_eq hfront he, ofTokens_eq hfront he]
      · have hall : ∀ u ∈ tokens, u.kind ≠ .endOfFile := fun u hu hu' => hend ⟨u, hu, hu'⟩
        obtain ⟨ts, rfl⟩ := List.getLast?_eq_some_iff.1 ht
        have hts : ∀ u ∈ ts, u.kind ≠ .endOfFile := fun u hu => hall u (List.mem_append_left _ hu)
        rw [ofTokens_eq hall rfl]
        unfold ofTokens
        congr 1
        · exact (List.takeWhile_eq_self_iff.2 (by simpa using hall)).symm
        · rw [finishOf_append hts, finishOf, if_neg hne, finishOf]
  · rename_i hnil
    obtain rfl := List.getLast?_eq_none_iff.1 hnil
    rfl

/-! ## Remainders -/

namespace Token

variable {t u rest : Token}

/-- What is left behind one angle is a rest. -/
theorem isRestOf_of_afterAngle? (h : t.afterAngle? = some rest) : rest.IsRestOf t := by
  obtain ⟨mark, left, hmark, hleft, rfl⟩ := afterAngle?_eq_some_iff.1 h
  obtain ⟨hlexeme, hne, hsplits⟩ := Symbol.lexeme_of_afterAngle? hleft
  refine ⟨by simpa [hmark] using hsplits, ⟨left, rfl⟩, hne, ['>'], List.cons_ne_nil _ _, ?_, rfl⟩
  rw [text, hmark]
  exact hlexeme

/-- The rest of a rest is a rest of the whole. -/
theorem IsRestOf.afterAngle? (h : u.IsRestOf t) (hrest : u.afterAngle? = some rest) :
    rest.IsRestOf t := by
  obtain ⟨front, hfront, htext, hlocation⟩ := h.suffix
  obtain ⟨front', -, htext', hlocation'⟩ := (isRestOf_of_afterAngle? hrest).suffix
  obtain ⟨mark, left, -, hleft, rfl⟩ := afterAngle?_eq_some_iff.1 hrest
  refine ⟨h.splits, ⟨left, rfl⟩, (Symbol.lexeme_of_afterAngle? hleft).2.1, front ++ front',
    by simp [hfront], ?_, ?_⟩
  · rw [htext, htext', List.append_assoc]
  · rw [hlocation', hlocation, Location.rightBy_rightBy, List.length_append]

/-- Only symbols have rests. -/
theorem IsRestOf.ne_endOfFile (h : rest.IsRestOf t) :
    rest.kind ≠ .endOfFile ∧ t.kind ≠ .endOfFile := by
  obtain ⟨mark, hmark⟩ := h.isSymbol
  refine ⟨by simp [hmark], fun hend => ?_⟩
  have hsplits := h.splits
  simp [hend] at hsplits

end Token

namespace Mark

variable {tokens : List Token} {m : Mark}

/-! ## A valid mark is a list of tokens -/

section Valid

variable (hend : endIndex tokens < tokens.length)
include hend

/-- The index of a valid mark is in bounds. -/
theorem Valid.position_lt (h : m.Valid tokens) : m.position < tokens.length :=
  h.position_le.trans_lt hend

/-- The token to be read is the first of those that remain. -/
theorem Valid.remaining_eq (h : m.Valid tokens) :
    ∃ t, m.peek? tokens = some t ∧ m.remaining tokens = t :: tokens.drop (m.position + 1) := by
  have hlt := h.position_lt hend
  unfold peek? remaining
  cases m.residual with
  | some rest => exact ⟨rest, rfl, rfl⟩
  | none => exact ⟨tokens[m.position], by simp [hlt], List.drop_eq_getElem_cons hlt⟩

/-- Looking is in bounds, also at tokens further on. -/
theorem Valid.looks (h : m.Valid tokens) :
    (m.peek? tokens).isSome ∧ ∀ n, (m.peekAhead? tokens n).isSome := by
  obtain ⟨t, ht, -⟩ := h.remaining_eq hend
  refine ⟨by simp [ht], fun n => ?_⟩
  have hlt : min (m.position + n) (tokens.length - 1) < tokens.length := by omega
  simp [peekAhead?, hlt]

/-- Before the end of the file, the index is before it. -/
theorem Valid.position_lt_endIndex (h : m.Valid tokens) {t : Token}
    (ht : m.peek? tokens = some t) (hkind : t.kind ≠ .endOfFile) :
    m.position < endIndex tokens := by
  refine lt_of_le_of_ne h.position_le fun hposition => ?_
  obtain ⟨e, he, hkind'⟩ := getElem?_endIndex hend
  rw [← hposition] at he
  unfold peek? at ht
  cases hr : m.residual with
  | some rest =>
    obtain ⟨u, hu, hrest⟩ := h.residual rest hr
    obtain rfl := Option.some.inj (he.symm.trans hu)
    exact hrest.ne_endOfFile.2 hkind'
  | none =>
    rw [hr, Option.none_or] at ht
    obtain rfl := Option.some.inj (he.symm.trans ht)
    exact hkind hkind'

/-- Before the end of the file, advancing leaves the tokens behind the first. -/
theorem Valid.advance (h : m.Valid tokens) {t : Token} (ht : m.peek? tokens = some t)
    (hkind : t.kind ≠ .endOfFile) :
    m.advance? tokens = some ⟨m.position + 1, none⟩ ∧ Valid tokens ⟨m.position + 1, none⟩ := by
  refine ⟨by simp [advance?, ht, hkind], h.position_lt_endIndex hend ht hkind, nofun⟩

omit hend in
/-- At the end of the file, advancing goes nowhere. -/
theorem Valid.advance_endOfFile (h : m.Valid tokens) {t : Token} (ht : m.peek? tokens = some t)
    (hkind : t.kind = .endOfFile) : m.advance? tokens = some m := by
  have hnone : m.residual = none := by
    cases hr : m.residual with
    | none => rfl
    | some rest =>
      obtain ⟨u, -, hrest⟩ := h.residual rest hr
      obtain rfl : rest = t := by simpa [peek?, hr] using ht
      exact absurd hkind hrest.ne_endOfFile.1
  simp only [advance?, hnone, Option.isSome_none, Bool.false_eq_true, ne_eq, false_or, ite_not, ht,
    Option.map_some, hkind, ↓reduceIte, Option.some.injEq]
  rw [← hnone]

omit hend in
/-- Splitting leaves the shorter token before the tokens behind the first. -/
theorem Valid.split (h : m.Valid tokens) {t rest : Token} (ht : m.peek? tokens = some t)
    (hrest : t.afterAngle? = some rest) :
    m.split? tokens = some ⟨m.position, some rest⟩ ∧ Valid tokens ⟨m.position, some rest⟩ := by
  refine ⟨by simp [split?, ht, hrest], h.position_le, fun rest' hrest' => ?_⟩
  obtain rfl := Option.some.inj hrest'
  unfold peek? at ht
  cases hr : m.residual with
  | some u =>
    obtain ⟨v, hv, hu⟩ := h.residual u hr
    obtain rfl : u = t := by simpa [hr] using ht
    exact ⟨v, hv, hu.afterAngle? hrest⟩
  | none =>
    rw [hr, Option.none_or] at ht
    exact ⟨t, ht, Token.isRestOf_of_afterAngle? hrest⟩

/-- Whatever a step of a mark is, it is in bounds and leads to a valid mark. -/
theorem Valid.moves (h : m.Valid tokens) :
    (∃ m', m.advance? tokens = some m' ∧ m'.Valid tokens) ∧
      ∃ m', m.split? tokens = some m' ∧ m'.Valid tokens := by
  obtain ⟨t, ht, -⟩ := h.remaining_eq hend
  constructor
  · by_cases hkind : t.kind = .endOfFile
    · exact ⟨m, h.advance_endOfFile ht hkind, h⟩
    · exact ⟨_, h.advance hend ht hkind⟩
  · cases hrest : t.afterAngle? with
    | none => exact ⟨m, by simp [split?, ht, hrest], h⟩
    | some rest => exact ⟨_, h.split ht hrest⟩

end Valid

/-! ## Marks and cursors -/

/-- A mark and a cursor have the same tokens before them up to the end of the file, behind which the
mark has others. -/
structure At (tokens : List Token) (m : Mark) (c : Cursor) (rest : List Token) : Prop where
  valid : m.Valid tokens
  lacks : c.Lacks .endOfFile
  remaining_eq : m.remaining tokens = c.tokens ++ ⟨.endOfFile, c.finish⟩ :: rest

namespace At

variable {c : Cursor} {rest : List Token}

section Closed

variable (hend : endIndex tokens < tokens.length)
include hend

/-- Mark and cursor see the same token, and the same tokens behind it. -/
theorem peek?_eq (h : m.At tokens c rest) :
    m.peek? tokens = some c.current ∧
      (c.current.kind ≠ .endOfFile → tokens.drop (m.position + 1) =
        c.advance.tokens ++ ⟨.endOfFile, c.finish⟩ :: rest) := by
  obtain ⟨t, ht, hremaining⟩ := h.valid.remaining_eq hend
  have hsame := hremaining.symm.trans h.remaining_eq
  by_cases hkind : c.current.kind = .endOfFile
  · have hnil := h.lacks.upcoming_eq_nil hkind
    rw [Cursor.tokens_eq_nil.2 hnil, List.nil_append] at hsame
    obtain ⟨rfl, -⟩ := List.cons.inj hsame
    rw [Cursor.current, hnil]
    exact ⟨ht, fun hne => absurd rfl hne⟩
  · rw [Cursor.tokens_eq_cons hkind, List.cons_append] at hsame
    obtain ⟨rfl, hdrop⟩ := List.cons.inj hsame
    exact ⟨ht, fun _ => hdrop⟩

/-- Mark and cursor see the same token behind a name. -/
theorem peekAhead?_eq (h : m.At tokens c rest) (hkind : c.current.kind ≠ .endOfFile) :
    m.peekAhead? tokens 1 = some c.following := by
  have hdrop := (h.peek?_eq hend).2 hkind
  have hlt := h.valid.position_lt_endIndex hend (h.peek?_eq hend).1 hkind
  have hhead : tokens[m.position + 1]? =
      (c.advance.tokens ++ ⟨.endOfFile, c.finish⟩ :: rest)[0]? := by
    rw [← hdrop, List.getElem?_drop, Nat.add_zero]
  rw [peekAhead?, Nat.min_eq_left (by omega), hhead, c.following_eq]
  by_cases hnext : c.advance.current.kind = .endOfFile
  · rw [Cursor.tokens_eq_nil.2 (h.lacks.advance.upcoming_eq_nil hnext), hnext]
    rfl
  · rw [Cursor.tokens_eq_cons hnext]
    rfl

/-- Mark and cursor advance together. -/
theorem advance (h : m.At tokens c rest) :
    ∃ m', m.advance? tokens = some m' ∧ m'.At tokens c.advance rest := by
  obtain ⟨hpeek, hdrop⟩ := h.peek?_eq hend
  by_cases hkind : c.current.kind = .endOfFile
  · rw [h.lacks.advance_eq hkind]
    exact ⟨m, h.valid.advance_endOfFile hpeek hkind, h⟩
  · obtain ⟨hadvance, hvalid⟩ := h.valid.advance hend hpeek hkind
    refine ⟨_, hadvance, hvalid, h.lacks.advance, ?_⟩
    rw [Cursor.finish_advance]
    exact hdrop hkind

/-- Mark and cursor split together. -/
theorem split (h : m.At tokens c rest) :
    ∃ m', m.split? tokens = some m' ∧ m'.At tokens c.split rest := by
  obtain ⟨hpeek, hdrop⟩ := h.peek?_eq hend
  cases hafter : c.current.afterAngle? with
  | none =>
    rw [Cursor.split_eq hafter]
    exact ⟨m, by simp [split?, hpeek, hafter], h⟩
  | some shorter =>
    obtain ⟨hsplit, hvalid⟩ := h.valid.split hpeek hafter
    have hkind : c.current.kind ≠ .endOfFile := fun hkind => by
      simp [Token.afterAngle?, hkind] at hafter
    refine ⟨_, hsplit, hvalid, h.lacks.split, ?_⟩
    rw [Cursor.finish_split, (Cursor.tokens_split hafter).2, List.cons_append, ← hdrop hkind]
    rfl

end Closed

end At

/-- Every valid mark is where a cursor at the beginning of the tokens that remain is. -/
theorem Valid.at_ofTokens (hend : endIndex tokens < tokens.length) (h : m.Valid tokens) :
    ∃ rest, m.At tokens (.ofTokens (m.remaining tokens)) rest := by
  have hmem : ∃ t ∈ m.remaining tokens, t.kind = .endOfFile := by
    obtain ⟨t, ht, hremaining⟩ := h.remaining_eq hend
    rw [hremaining]
    by_cases hkind : t.kind = .endOfFile
    · exact ⟨t, List.mem_cons_self, hkind⟩
    · have hlt := h.position_lt_endIndex hend ht hkind
      obtain ⟨e, he, hkind'⟩ := getElem?_endIndex hend
      refine ⟨e, List.mem_cons_of_mem _ (List.mem_of_getElem? (i := endIndex tokens -
        (m.position + 1)) ?_), hkind'⟩
      rw [List.getElem?_drop, Nat.add_sub_cancel' hlt]
      exact he
  obtain ⟨front, e, back, hsplit, hfront, he⟩ := exists_first_endOfFile hmem
  refine ⟨back, h, Cursor.lacks_endOfFile_ofTokens _, ?_⟩
  rw [Cursor.tokens_ofTokens, hsplit, Cursor.ofTokens_eq hfront he,
    List.takeWhile_append_of_pos (by simpa using hfront),
    List.takeWhile_cons_of_neg (by simp [he]), List.append_nil, ← he]

/-- The mark at the beginning. -/
theorem valid_start (tokens : List Token) : Valid tokens ⟨0, none⟩ :=
  ⟨Nat.zero_le _, nofun⟩

end Mark

end Wgsl
