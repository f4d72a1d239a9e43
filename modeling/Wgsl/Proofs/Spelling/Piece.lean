import Mathlib.Computability.Language
import Wgsl.Cursor

/-!
# Pieces of a written module

What a tree is written with is a list of pieces: tokens, and the angles that close type
parameters. An angle is kept apart from a `>` token because it need not be one. The text `>>`,
`>=` or `>>=` is a single token, and an angle may be the beginning of it (`Joins`).

A set of such lists is a `Language`, with concatenation as its product and union as its sum, so
the ways to write a tree can be computed from it. `Cursor.Reads` says that a cursor comes from one
place to another over pieces of a language. It turns a product into two reads one behind the other
and a sum into a choice, so a written form is taken apart by rewriting.

`joins_of_passes` and `exists_passes_of_joins` tie the two together: over the whole of a sequence
of tokens, a cursor passes exactly the pieces that the tokens join.
-/

namespace Wgsl

/-- A token of a written module, or an angle that closes type parameters. -/
inductive Piece
  | token (t : Token)
  | angle

/-- The tokens spell the pieces. An angle is a `>` token or the beginning of a token that a `>` can
be split off; the pieces behind it are then spelled by what is left of the token. -/
inductive Joins : List Piece → List Token → Prop
  | nil : Joins [] []
  | token {t : Token} {ps : List Piece} {ts : List Token} :
      Joins ps ts → Joins (.token t :: ps) (t :: ts)
  | angle {t : Token} {ps : List Piece} {ts : List Token} :
      t.kind = .symbol .greaterThan → Joins ps ts → Joins (.angle :: ps) (t :: ts)
  | split {t rest : Token} {ps : List Piece} {ts : List Token} :
      t.afterAngle? = some rest → Joins ps (rest :: ts) → Joins (.angle :: ps) (t :: ts)

/-- What is left of a split token is a symbol. -/
theorem Token.kind_ne_of_afterAngle? {t rest : Token} (h : t.afterAngle? = some rest) :
    rest.kind ≠ .endOfFile := by
  rw [Token.afterAngle?] at h
  split at h
  · obtain ⟨mark, -, rfl⟩ := Option.map_eq_some_iff.1 h
    simp
  · simp at h

/-! ## Languages of pieces -/

namespace Spelling

/-- One token with a property. -/
def token (p : Token → Prop) : Language Piece := {ps | ∃ t, p t ∧ ps = [.token t]}

/-- A symbol, wherever it stands. -/
def mark (m : Symbol) : Language Piece := token fun t => t.kind = .symbol m

/-- A symbol at a location. -/
def symbol (m : Symbol) (l : Location) : Language Piece := token fun t => t = ⟨.symbol m, l⟩

/-- A keyword, wherever it stands. -/
def reserved (word : Keyword) : Language Piece := token fun t => t.kind = .keyword word

/-- A keyword at a location. -/
def keyword (word : Keyword) (l : Location) : Language Piece :=
  token fun t => t = ⟨.keyword word, l⟩

/-- A name, wherever it stands. -/
def named (n : String) : Language Piece := token fun t => t.kind = .identifier n

/-- A name at a location. -/
def word (n : String) (l : Location) : Language Piece := token fun t => t = ⟨.identifier n, l⟩

/-- An angle that closes type parameters. -/
def angle : Language Piece := {[.angle]}

/-- Nothing, under a condition. -/
def when (p : Prop) : Language Piece := {ps | p ∧ ps = []}

/-- What may be left out. -/
def optional (L : Language Piece) : Language Piece := 1 + L

/-- The angle that closes type parameters, perhaps behind a comma. -/
def closing : Language Piece := optional (mark .comma) * angle

/-- In parentheses. -/
def parenthesized (L : Language Piece) : Language Piece :=
  mark .parenLeft * L * mark .parenRight

/-- Pieces of which the first is a token at a location. -/
def startingAt (l : Location) (L : Language Piece) : Language Piece :=
  {ps | ps ∈ L ∧ ∃ t rest, ps = .token t :: rest ∧ t.location = l}

/-- Any number of semicolons. -/
def semicolons : Language Piece := KStar.kstar (mark .semicolon)

end Spelling

namespace Cursor

/-! ## Passing pieces -/

/-- The cursor comes to another behind the pieces. -/
def Passes : Cursor → List Piece → Cursor → Prop
  | c, [], c' => c = c'
  | c, .token t :: ps, c' => (c.current = t ∧ t.kind ≠ .endOfFile) ∧ c.advance.Passes ps c'
  | c, .angle :: ps, c' =>
    c.current.kind = .symbol .greaterThan ∧ c.advance.Passes ps c' ∨
      c.current.afterAngle?.isSome ∧ c.split.Passes ps c'

/-- Pieces are passed one list behind the other. -/
theorem passes_append {c c' : Cursor} {ps qs : List Piece} :
    c.Passes (ps ++ qs) c' ↔ ∃ d, c.Passes ps d ∧ d.Passes qs c' := by
  induction ps generalizing c with
  | nil => simp [Passes]
  | cons p ps ih =>
    cases p with
    | token t => simp only [List.cons_append, Passes, ih, and_assoc, exists_and_left]
    | angle =>
      simp only [List.cons_append, Passes, ih]
      constructor
      · rintro (⟨h, d, hd, hd'⟩ | ⟨h, d, hd, hd'⟩)
        · exact ⟨d, .inl ⟨h, hd⟩, hd'⟩
        · exact ⟨d, .inr ⟨h, hd⟩, hd'⟩
      · rintro ⟨d, ⟨h, hd⟩ | ⟨h, hd⟩, hd'⟩
        · exact .inl ⟨h, d, hd, hd'⟩
        · exact .inr ⟨h, d, hd, hd'⟩

/-- The cursor comes to another over pieces of a language. -/
def Reads (c : Cursor) (L : Language Piece) (c' : Cursor) : Prop := ∃ ps ∈ L, c.Passes ps c'

section Reads

variable {c c' : Cursor} {L M : Language Piece}

@[simp] theorem reads_one : c.Reads 1 c' ↔ c = c' := by
  simp [Reads, Passes]

@[simp] theorem reads_mul : c.Reads (L * M) c' ↔ ∃ d, c.Reads L d ∧ d.Reads M c' := by
  constructor
  · rintro ⟨ps, hps, hpasses⟩
    obtain ⟨a, ha, b, hb, rfl⟩ := Language.mem_mul.1 hps
    obtain ⟨d, hd, hd'⟩ := passes_append.1 hpasses
    exact ⟨d, ⟨a, ha, hd⟩, b, hb, hd'⟩
  · rintro ⟨d, ⟨a, ha, hd⟩, b, hb, hd'⟩
    exact ⟨a ++ b, Language.append_mem_mul ha hb, passes_append.2 ⟨d, hd, hd'⟩⟩

@[simp] theorem reads_add : c.Reads (L + M) c' ↔ c.Reads L c' ∨ c.Reads M c' := by
  simp only [Reads, Language.mem_add, or_and_right, exists_or]

/-- One token is read if it is the one meant and not the end of the file. -/
theorem reads_token {p : Token → Prop} :
    c.Reads (Spelling.token p) c' ↔
      (p c.current ∧ c.current.kind ≠ .endOfFile) ∧ c.advance = c' := by
  constructor
  · rintro ⟨_, ⟨t, ht, rfl⟩, ⟨rfl, hne⟩, hc⟩
    exact ⟨⟨ht, hne⟩, hc⟩
  · rintro ⟨⟨ht, hne⟩, hc⟩
    exact ⟨_, ⟨_, ht, rfl⟩, ⟨rfl, hne⟩, hc⟩

@[simp] theorem reads_mark {m : Symbol} :
    c.Reads (Spelling.mark m) c' ↔ c.current.kind = .symbol m ∧ c.advance = c' := by
  rw [Spelling.mark, reads_token]
  exact and_congr_left fun _ => and_iff_left_of_imp fun h => by simp [h]

@[simp] theorem reads_symbol {m : Symbol} {l : Location} :
    c.Reads (Spelling.symbol m l) c' ↔ c.current = ⟨.symbol m, l⟩ ∧ c.advance = c' := by
  rw [Spelling.symbol, reads_token]
  exact and_congr_left fun _ => and_iff_left_of_imp fun h => by simp [h]

@[simp] theorem reads_reserved {word : Keyword} :
    c.Reads (Spelling.reserved word) c' ↔ c.current.kind = .keyword word ∧ c.advance = c' := by
  rw [Spelling.reserved, reads_token]
  exact and_congr_left fun _ => and_iff_left_of_imp fun h => by simp [h]

@[simp] theorem reads_keyword {word : Keyword} {l : Location} :
    c.Reads (Spelling.keyword word l) c' ↔ c.current = ⟨.keyword word, l⟩ ∧ c.advance = c' := by
  rw [Spelling.keyword, reads_token]
  exact and_congr_left fun _ => and_iff_left_of_imp fun h => by simp [h]

@[simp] theorem reads_named {n : String} :
    c.Reads (Spelling.named n) c' ↔ c.current.kind = .identifier n ∧ c.advance = c' := by
  rw [Spelling.named, reads_token]
  exact and_congr_left fun _ => and_iff_left_of_imp fun h => by simp [h]

@[simp] theorem reads_word {n : String} {l : Location} :
    c.Reads (Spelling.word n l) c' ↔ c.current = ⟨.identifier n, l⟩ ∧ c.advance = c' := by
  rw [Spelling.word, reads_token]
  exact and_congr_left fun _ => and_iff_left_of_imp fun h => by simp [h]

@[simp] theorem reads_angle :
    c.Reads Spelling.angle c' ↔
      c.current.kind = .symbol .greaterThan ∧ c.advance = c' ∨
        c.current.afterAngle?.isSome ∧ c.split = c' := by
  constructor
  · rintro ⟨ps, hps, hpasses⟩
    obtain rfl : ps = [.angle] := hps
    exact hpasses
  · exact fun h => ⟨[.angle], rfl, h⟩

@[simp] theorem reads_when {p : Prop} : c.Reads (Spelling.when p) c' ↔ p ∧ c = c' := by
  constructor
  · rintro ⟨_, ⟨hp, rfl⟩, hc⟩
    exact ⟨hp, hc⟩
  · rintro ⟨hp, hc⟩
    exact ⟨[], ⟨hp, rfl⟩, hc⟩

@[simp] theorem reads_optional :
    c.Reads (Spelling.optional L) c' ↔ c = c' ∨ c.Reads L c' := by
  rw [Spelling.optional, reads_add, reads_one]

/-- What stands in parentheses is read between an opening one and a closing one. -/
theorem reads_parenthesized :
    c.Reads (Spelling.parenthesized L) c' ↔
      c.current.kind = .symbol .parenLeft ∧ ∃ d, c.advance.Reads L d ∧
        d.current.kind = .symbol .parenRight ∧ d.advance = c' := by
  simp only [Spelling.parenthesized, reads_mul, reads_mark]
  constructor
  · rintro ⟨d, ⟨_, ⟨hopen, rfl⟩, hd⟩, hclose⟩
    exact ⟨hopen, d, hd, hclose⟩
  · rintro ⟨hopen, d, hd, hclose⟩
    exact ⟨d, ⟨_, ⟨hopen, rfl⟩, hd⟩, hclose⟩

/-- What starts at a location starts with a token there. -/
theorem current_of_reads_startingAt {l : Location} (h : c.Reads (Spelling.startingAt l L) c') :
    c.Reads L c' ∧ c.current.location = l := by
  obtain ⟨ps, ⟨hps, t, rest, rfl, hl⟩, hpasses⟩ := h
  exact ⟨⟨_, hps, hpasses⟩, hpasses.1.1 ▸ hl⟩

/-- Semicolons are read one by one, or none. -/
theorem reads_semicolons :
    c.Reads Spelling.semicolons c' ↔
      c = c' ∨ c.current.kind = .symbol .semicolon ∧ c.advance.Reads Spelling.semicolons c' := by
  conv_lhs => rw [Spelling.semicolons, ← Language.one_add_self_mul_kstar_eq_kstar]
  simp only [reads_add, reads_one, reads_mul, reads_mark, Spelling.semicolons]
  constructor
  · rintro (rfl | ⟨d, ⟨h, rfl⟩, hd⟩)
    · exact .inl rfl
    · exact .inr ⟨h, hd⟩
  · rintro (rfl | ⟨h, hd⟩)
    · exact .inl rfl
    · exact .inr ⟨_, ⟨h, rfl⟩, hd⟩

/-- What skipping a semicolon does not change, skipping any number of them does not. -/
theorem Reads.semicolons_induction {P : Cursor → Prop} (h : c.Reads Spelling.semicolons c')
    (hend : P c') (hskip : ∀ d : Cursor, d.current.kind = .symbol .semicolon → P d.advance → P d) :
    P c := by
  obtain ⟨ps, hps, hpasses⟩ := h
  obtain ⟨marks, rfl, hmarks⟩ := Language.mem_kstar.1 hps
  clear hps
  induction marks generalizing c with
  | nil =>
    obtain rfl : c = c' := hpasses
    exact hend
  | cons m marks ih =>
    obtain ⟨t, ht, rfl⟩ := hmarks m List.mem_cons_self
    obtain ⟨⟨rfl, -⟩, hpasses⟩ := hpasses
    have hrest : ∀ m ∈ marks, m ∈ Spelling.mark .semicolon := fun m hm =>
      hmarks m (List.mem_cons_of_mem _ hm)
    exact hskip c ht (ih hrest hpasses)

/-- No semicolons are read where the cursor stays. -/
theorem reads_no_semicolons : c.Reads Spelling.semicolons c :=
  reads_semicolons.2 (.inl rfl)

/-- One more semicolon before any number of them. -/
theorem reads_semicolons_mul (hc : c.current.kind = .symbol .semicolon)
    (h : c.advance.Reads (Spelling.semicolons * L) c') : c.Reads (Spelling.semicolons * L) c' := by
  obtain ⟨d, hd, hd'⟩ := reads_mul.1 h
  exact reads_mul.2 ⟨d, reads_semicolons.2 (.inr ⟨hc, hd⟩), hd'⟩

end Reads

/-! ## Over the whole of a sequence -/

/-- The tokens still to be read, the first of them what is left of it. -/
def tokens (c : Cursor) : List Token :=
  match c.upcoming with
  | [] => []
  | t :: ts => t.afterAngles c.taken :: ts

/-- The tokens from the beginning are those before the end of the file. -/
theorem tokens_ofTokens (ts : List Token) :
    (ofTokens ts).tokens = ts.takeWhile (·.kind ≠ .endOfFile) := by
  rw [tokens, ofTokens]
  cases ts.takeWhile (·.kind ≠ .endOfFile) <;> rfl

/-- No tokens are left where nothing is upcoming. -/
theorem tokens_eq_nil {c : Cursor} : c.tokens = [] ↔ c.upcoming = [] := by
  rw [tokens]
  split <;> simp_all

/-- The first of the tokens left is the upcoming one. -/
theorem tokens_eq_cons {c : Cursor} (h : c.current.kind ≠ .endOfFile) :
    c.tokens = c.current :: c.advance.tokens := by
  rw [current] at h
  rw [tokens, current, advance]
  cases hu : c.upcoming with
  | nil => simp [hu] at h
  | cons t ts => cases ts <;> rfl

/-- From the tokens left, the cursor's next step is known. -/
theorem current_of_tokens_eq_cons {c : Cursor} {t : Token} {ts : List Token}
    (h : c.tokens = t :: ts) : c.current = t ∧ c.advance.tokens = ts := by
  rw [tokens] at h
  rw [current, advance]
  cases hu : c.upcoming with
  | nil => simp [hu] at h
  | cons u us =>
    rw [hu] at h
    obtain ⟨rfl, rfl⟩ := List.cons.inj h
    exact ⟨rfl, by cases us <;> rfl⟩

/-- Splitting leaves the rest of the token, and what stands behind it. -/
theorem tokens_split {c : Cursor} {rest : Token} (h : c.current.afterAngle? = some rest) :
    c.tokens = c.current :: c.advance.tokens ∧ c.split.tokens = rest :: c.advance.tokens := by
  have hne : c.current.kind ≠ .endOfFile := by
    intro hend
    simp [Token.afterAngle?, hend] at h
  refine ⟨tokens_eq_cons hne, ?_⟩
  have htaken : c.taken < 2 := by
    by_contra hle
    have := measure_split_lt (c := c) (by simp [h])
    rw [split, dif_neg (by omega)] at this
    omega
  rw [split, dif_pos ⟨htaken, by simp [h]⟩]
  rw [current] at h hne
  rw [tokens, advance]
  cases hu : c.upcoming with
  | nil => simp [hu] at hne
  | cons t ts =>
    rw [hu] at h
    have hleft : t.afterAngles (c.taken + 1) = rest := by rw [Token.afterAngles, h]; rfl
    cases ts <;> exact congrArg (· :: _) hleft

/-- What a cursor passes up to the end is spelled by the tokens. -/
theorem joins_of_passes {c c' : Cursor} {ps : List Piece} (h : c.Passes ps c')
    (hend : c'.upcoming = []) : Joins ps c.tokens := by
  induction ps generalizing c with
  | nil =>
    obtain rfl : c = c' := h
    rw [tokens_eq_nil.2 hend]
    exact .nil
  | cons p ps ih =>
    cases p with
    | token t =>
      obtain ⟨⟨rfl, hne⟩, h⟩ := h
      rw [tokens_eq_cons hne]
      exact .token (ih h)
    | angle =>
      rcases h with ⟨hangle, h⟩ | ⟨hangle, h⟩
      · rw [tokens_eq_cons (by simp [hangle])]
        exact .angle hangle (ih h)
      · obtain ⟨rest, hrest⟩ := Option.isSome_iff_exists.1 hangle
        obtain ⟨hc, hsplit⟩ := tokens_split hrest
        rw [hc]
        exact .split hrest (hsplit ▸ ih h)

/-- Pieces that the tokens spell are passed, up to the end. -/
theorem exists_passes_of_joins {c : Cursor} {ps : List Piece} {ts : List Token}
    (h : Joins ps ts) (hts : c.tokens = ts) (hne : ∀ t ∈ ts, t.kind ≠ .endOfFile) :
    ∃ c', c.Passes ps c' ∧ c'.upcoming = [] := by
  induction h generalizing c with
  | nil => exact ⟨c, rfl, tokens_eq_nil.1 hts⟩
  | @token t ps ts _ ih =>
    obtain ⟨hcur, hadv⟩ := current_of_tokens_eq_cons hts
    obtain ⟨c', hc', hend⟩ := ih hadv fun u hu => hne u (List.mem_cons_of_mem _ hu)
    exact ⟨c', ⟨⟨hcur, hne t List.mem_cons_self⟩, hc'⟩, hend⟩
  | @angle t ps ts hangle _ ih =>
    obtain ⟨hcur, hadv⟩ := current_of_tokens_eq_cons hts
    obtain ⟨c', hc', hend⟩ := ih hadv fun u hu => hne u (List.mem_cons_of_mem _ hu)
    exact ⟨c', .inl ⟨hcur ▸ hangle, hc'⟩, hend⟩
  | @split t rest ps ts hrest _ ih =>
    obtain ⟨hcur, hadv⟩ := current_of_tokens_eq_cons hts
    obtain ⟨-, hsplit⟩ := tokens_split (hcur ▸ hrest)
    have hne' : ∀ u ∈ rest :: ts, u.kind ≠ .endOfFile := by
      intro u hu
      rcases List.mem_cons.1 hu with rfl | hu
      · exact Token.kind_ne_of_afterAngle? hrest
      · exact hne u (List.mem_cons_of_mem _ hu)
    obtain ⟨c', hc', hend⟩ := ih (hsplit.trans (hadv ▸ rfl)) hne'
    exact ⟨c', .inr ⟨by simp [hcur, hrest], hc'⟩, hend⟩

end Cursor

end Wgsl
