import Wgsl.Proofs.Lexical.Lines

/-!
# Walking through a text

The tokens of a text are read on a walk: past a blank, past a comment, or past a token that is
written down. `Walk` says which places are come to so, and with which tokens written down before
them. These are the places where a token could start, layout before it included; and nothing else is
ever done: from every place of a walk, the tokens written down and those still to be read are the
tokens of the text (`Walk.tokenize_eq`), and each of them is read at such a place
(`Walk.exists_of_mem`).

Block comments are settled on such a walk (`Walk.passes_comment`). Where a `/*` is come to, the
comment that begins there is passed over; there is only one, since no comment begins another
(`Layout.eq_of_mem_blockComment`). Where no comment begins with it, the text from there on is one
invalid token.
-/

namespace Wgsl

/-- The walk through a source text comes to the place, with these tokens written down. -/
inductive Walk (source : String) : List Token → Place → Prop
  | begin : Walk source [] (.ofSource source)
  | blank {ts : List Token} {l : Location} {c : Char} {rest : List Char} :
      Walk source ts ⟨l, c :: rest⟩ → Text.isWhiteSpace c = true → Walk source ts ⟨l.next c, rest⟩
  | line {ts : List Token} {l : Location} {rest : List Char} :
      Walk source ts ⟨l, '/' :: '/' :: rest⟩ →
        Walk source ts (Layout.afterLine (l.after ['/', '/']) rest)
  | block {ts : List Token} {l : Location} {rest : List Char} {q : Place} :
      Walk source ts ⟨l, '/' :: '*' :: rest⟩ →
        Layout.afterBlock? 0 (l.after ['/', '*']) rest = some q → Walk source ts q
  /-- A token is read where neither a blank nor a comment can be passed. -/
  | token {ts : List Token} {p : Place} {kind : TokenKind} {rest : List Char} :
      Walk source ts p → Layout.skip p = p → scanToken p.text = some (kind, rest) →
        Walk source (ts ++ [⟨kind, p.location⟩]) ⟨p.location.after kind.text.toList, rest⟩

namespace Walk

variable {source : String} {ts : List Token} {p : Place}

/-- The walk goes past all layout. -/
theorem skip (h : Walk source ts p) : Walk source ts (Layout.skip p) := by
  fun_induction Layout.skip p with
  | case1 l rest ih => exact ih h.line
  | case2 l rest q hq ih => exact ih (h.block hq)
  | case3 => exact h
  | case4 l c rest _ _ hc ih => exact ih (h.blank hc)
  | case5 => exact h
  | case6 => exact h

/-- From every place of the walk on, what is still to be read completes the tokens. -/
theorem tokenize_eq (h : Walk source ts p) : tokenize source = ts ++ tokensFrom p := by
  -- what is skipped on the way to the next token changes nothing about the tokens to come
  have passed {p q : Place} (hskip : Layout.skip p = Layout.skip q) :
      tokensFrom p = tokensFrom q := by
    rw [tokensFrom, tokensFrom, hskip]
  induction h with
  | begin => rfl
  | blank _ hc ih => rw [ih, passed (Layout.skip_blank hc _ _)]
  | line _ ih => rw [ih, passed (Layout.skip_line _ _)]
  | block _ hq ih => rw [ih, passed (Layout.skip_block hq)]
  | token _ hskip htoken ih =>
    rw [ih, tokensFrom_of_scanToken hskip htoken, List.append_assoc, List.singleton_append]

/-- The walk leaves nothing out: every place of it is behind a part of the source text. -/
theorem behind (h : Walk source ts p) : ∃ part, (Place.ofSource source).Behind part p := by
  induction h with
  | begin => exact ⟨[], .nil _⟩
  | @blank _ l c rest _ _ ih =>
    obtain ⟨part, hpart⟩ := ih
    exact ⟨part ++ [c], hpart.append (.cons (.nil _))⟩
  | @line _ l rest _ ih =>
    obtain ⟨part, hpart⟩ := ih
    obtain ⟨more, hmore⟩ := Layout.afterLine_behind (l.after ['/', '/']) rest
    exact ⟨_, hpart.append (.cons (.cons hmore))⟩
  | block _ hq ih =>
    obtain ⟨part, hpart⟩ := ih
    obtain ⟨more, hmore⟩ := Layout.afterBlock?_behind hq
    exact ⟨_, hpart.append (.cons (.cons hmore))⟩
  | token _ _ htoken ih =>
    obtain ⟨part, hpart⟩ := ih
    exact ⟨_, hpart.append (scanToken_behind htoken)⟩

end Walk

/-- What is left when layout has been skipped has no layout before it. -/
theorem Layout.skip_skip (p : Place) : skip (skip p) = skip p := by
  fun_induction skip p with
  | case1 l rest ih | case2 l rest q h ih | case4 l c rest _ _ hc ih => exact ih
  | case3 l rest h => exact skip_unclosed h
  | case5 l c rest hline hblock hc =>
    refine skip_eq_self (Text.stops_cons.2 (by simpa using hc)) ?_ ?_ l
    · rintro ⟨more, hmore⟩
      injection hmore with hfirst hrest
      exact hline _ hfirst.symm hrest.symm
    · rintro ⟨more, hmore⟩
      injection hmore with hfirst hrest
      exact hblock _ hfirst.symm hrest.symm
  | case6 l => rw [skip]

/-- Every token to come is read at a place of the walk with no layout before it, the end of the file
where the text ends. -/
theorem Walk.exists_of_mem_tokensFrom {source : String} {ts : List Token} {p : Place}
    (h : Walk source ts p) {t : Token} (ht : t ∈ tokensFrom p) :
    ∃ ts' rest, Walk source ts' ⟨t.location, rest⟩ ∧
      Layout.skip ⟨t.location, rest⟩ = ⟨t.location, rest⟩ ∧
      ((∃ behind, scanToken rest = some (t.kind, behind)) ∨ rest = [] ∧ t.kind = .endOfFile) := by
  fun_induction tokensFrom p generalizing ts with
  | case1 p q =>
    rename_i hnone
    obtain rfl := List.mem_singleton.1 ht
    exact ⟨ts, q.text, h.skip, Layout.skip_skip p, .inr ⟨eq_nil_of_scanToken hnone, rfl⟩⟩
  | case2 p q kind rest htoken =>
    rename_i ih
    rcases List.mem_cons.1 ht with rfl | ht
    · exact ⟨ts, q.text, h.skip, Layout.skip_skip p, .inl ⟨rest, htoken⟩⟩
    · exact ih (h.skip.token (Layout.skip_skip p) htoken) ht

/-- Every token of a text but the end of the file is read at a place of the walk, and the text up to
there has moved the location from the start to where the token stands. -/
theorem Walk.exists_of_mem {source : String} {t : Token} (ht : t ∈ tokenize source)
    (hend : t.kind ≠ .endOfFile) : ∃ before rest behind,
      source.toList = before ++ rest ∧ t.location = Location.start.after before ∧
        scanToken rest = some (t.kind, behind) := by
  obtain ⟨ts, rest, hwalk, -, ⟨behind, htoken⟩ | ⟨-, hkind⟩⟩ :=
    Walk.begin.exists_of_mem_tokensFrom ht
  · obtain ⟨before, hbefore⟩ := hwalk.behind
    exact ⟨before, rest, behind, hbefore.text_eq.symm, hbefore.location_eq, htoken⟩
  · exact absurd hkind hend

/-! ## Block comments -/

namespace Layout

/-- No comment begins another one. -/
theorem eq_of_mem_blockComment {comment comment' behind behind' : List Char}
    (h : comment ∈ blockComment) (h' : comment' ∈ blockComment)
    (heq : comment ++ behind = comment' ++ behind') : comment = comment' := by
  obtain ⟨inner, hinner, rfl⟩ := h
  obtain ⟨inner', hinner', rfl⟩ := h'
  have hrest : inner ++ behind = inner' ++ behind' := by simpa using heq
  -- the end of both is found at one place, so they leave the same text
  have hafter := hinner.afterBlock?_append 0 .start behind
  rw [hrest, hinner'.afterBlock?_append 0 .start behind'] at hafter
  have hbehind : behind' = behind := (Place.mk.inj (Option.some.inj hafter)).2
  rw [hbehind] at heq
  exact List.append_cancel_right heq

/-- The end of a comment is found exactly if the text begins with one. -/
theorem afterBlock?_eq_none_iff {l : Location} {rest : List Char} :
    afterBlock? 0 l rest = none ↔ ∀ comment ∈ blockComment, ¬comment <+: '/' :: '*' :: rest := by
  constructor
  · rintro hnone _ ⟨inner, hinner, rfl⟩ ⟨behind, hbehind⟩
    have hrest : inner ++ behind = rest := by simpa using hbehind
    rw [← hrest, hinner.afterBlock?_append] at hnone
    cases hnone
  · intro h
    cases hfound : afterBlock? 0 l rest with
    | none => rfl
    | some q =>
      obtain ⟨inner, behind, hinner, rfl, -⟩ := exists_block_of_afterBlock? hfound
      exact absurd ⟨behind, by simp⟩ (h _ ⟨inner, hinner, rfl⟩)

end Layout

/-- Where the walk comes to a `/*`, a comment that begins there is passed over, it alone, and writes
no token down. Where no comment begins there, the text from there on is one invalid token, a block
comment without end, and then the file ends. -/
theorem Walk.passes_comment {source : String} {ts : List Token} {l : Location} {rest : List Char}
    (h : Walk source ts ⟨l, '/' :: '*' :: rest⟩) :
    (∀ comment ∈ Layout.blockComment, ∀ behind, '/' :: '*' :: rest = comment ++ behind →
      Walk source ts ⟨l.after comment, behind⟩ ∧
        tokenize source = ts ++ tokensFrom ⟨l.after comment, behind⟩ ∧
        ∀ comment' ∈ Layout.blockComment, comment' <+: '/' :: '*' :: rest → comment' = comment) ∧
    ((∀ comment ∈ Layout.blockComment, ¬comment <+: '/' :: '*' :: rest) →
      tokenize source = ts ++
          [⟨.invalid (String.ofList ('/' :: '*' :: rest)) .unterminatedComment, l⟩,
            ⟨.endOfFile, l.after ('/' :: '*' :: rest)⟩] ∧
        LexicalFault.unterminatedComment.reason = "unterminated block comment") := by
  constructor
  · rintro comment hcomment behind htext
    have hpassed : Walk source ts ⟨l.after comment, behind⟩ := by
      obtain ⟨inner, hinner, rfl⟩ := hcomment
      obtain rfl : rest = inner ++ behind := by simpa using htext
      exact h.block (hinner.afterBlock?_append 0 _ behind)
    refine ⟨hpassed, hpassed.tokenize_eq, ?_⟩
    rintro comment' hcomment' ⟨behind', hbehind'⟩
    exact Layout.eq_of_mem_blockComment hcomment' hcomment (hbehind'.trans htext)
  · intro hnone
    have hskip := Layout.skip_unclosed
      (Layout.afterBlock?_eq_none_iff (l := l.after ['/', '*']).2 hnone)
    have hwalk := h.token hskip (by rw [scanToken])
    refine ⟨?_, rfl⟩
    have hend (l : Location) : tokensFrom ⟨l, []⟩ = [⟨.endOfFile, l⟩] := by
      rw [tokensFrom, Layout.skip]
      rfl
    rw [hwalk.tokenize_eq, hend, List.append_assoc]
    simp [TokenKind.text]

/-- A comment in a comment is passed over, and the second `/*` shares its star with what would
close it. -/
theorem Walk.passes_comment_of_overlap :
    tokenize "/*/**/*/x/*/" =
      [⟨.identifier "x", ⟨1, 9⟩⟩, ⟨.invalid "/*/" .unterminatedComment, ⟨1, 10⟩⟩,
        ⟨.endOfFile, ⟨1, 13⟩⟩] := by
  have hcomment : "/*/**/*/".toList ∈ Layout.blockComment :=
    ⟨"/**/*/".toList, .nest .close .close, rfl⟩
  have hbegin : Walk "/*/**/*/x/*/" [] ⟨.start, '/' :: '*' :: "/**/*/x/*/".toList⟩ := .begin
  have hbehind : Walk "/*/**/*/x/*/" [] ⟨⟨1, 9⟩, "x/*/".toList⟩ :=
    (hbegin.passes_comment.1 _ hcomment _ rfl).1
  have hx : Walk "/*/**/*/x/*/" [⟨.identifier "x", ⟨1, 9⟩⟩] ⟨⟨1, 10⟩, "/*/".toList⟩ :=
    hbehind.token
      (Layout.skip_eq_self (Text.stops_cons.2 (by decide)) (by decide) (by decide) _)
      (by decide +kernel)
  exact (hx.passes_comment.2 (Layout.afterBlock?_eq_none_iff (l := .start).1 rfl)).1

end Wgsl
