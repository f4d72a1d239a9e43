import Mathlib.Computability.Language
import Wgsl.Layout

/-!
# What layout is made of

Layout is a sequence of separators: blanks, comments up to the end of their line, and block
comments, which nest. Here that is said as a language, apart from how layout is skipped, and then
`skip` is tied to it in both directions. It goes past every sequence of separators
(`skip_separators`), and what it goes past is one, perhaps with a comment behind it whose line the
end of the text ends (`skip_passes`).

Where a block comment ends is not said by counting. Behind a `/*` stands a comment's inside,
`Block`: characters that neither open nor close a comment, and insides of comments opened within.
-/

namespace Wgsl.Layout

/-- What stands behind the `/*` of a comment, up to the `*/` that closes it. -/
inductive Block : List Char → Prop
  | close : Block ['*', '/']
  /-- A comment in the comment. -/
  | nest {inner rest : List Char} : Block inner → Block rest → Block ('/' :: '*' :: inner ++ rest)
  /-- A character that begins neither `*/` nor `/*`. -/
  | char {c : Char} {rest : List Char} : Block rest → ¬['*', '/'] <+: c :: rest →
      ¬['/', '*'] <+: c :: rest → Block (c :: rest)

/-- A character of white space. -/
def blank : Language Char := {text | ∃ c, Text.isWhiteSpace c ∧ text = [c]}

/-- A comment to the end of its line, without the line feed. -/
def openLine : Language Char := {text | ∃ line, '\n' ∉ line ∧ text = '/' :: '/' :: line}

/-- A comment to the end of its line, with the line feed. -/
def lineComment : Language Char := openLine * {['\n']}

/-- A block comment that is closed. -/
def blockComment : Language Char := {text | ∃ inner, Block inner ∧ text = '/' :: '*' :: inner}

/-- Any number of blanks and comments that end before the text does. -/
def separators : Language Char := KStar.kstar (blank + lineComment + blockComment)

/-! ## Separators -/

/-- Nothing at all separates, too. -/
theorem nil_mem_separators : [] ∈ separators := Language.nil_mem_kstar _

/-- One separator more before others. -/
theorem append_mem_separators {a b : List Char} (ha : a ∈ blank + lineComment + blockComment)
    (hb : b ∈ separators) : a ++ b ∈ separators := by
  rw [separators, ← Language.one_add_self_mul_kstar_eq_kstar]
  exact .inr (Language.append_mem_mul ha hb)

/-- What holds of no text and of one separator more holds of all separators. -/
theorem separators_induction {P : List Char → Prop} (nil : P [])
    (append : ∀ a ∈ blank + lineComment + blockComment, ∀ b, P b → P (a ++ b)) {text : List Char}
    (h : text ∈ separators) : P text := by
  obtain ⟨parts, rfl, hparts⟩ := Language.mem_kstar.1 h
  clear h
  induction parts with
  | nil => exact nil
  | cons a parts ih =>
    exact append a (hparts a List.mem_cons_self) _
      (ih fun b hb => hparts b (List.mem_cons_of_mem _ hb))

/-! ## Block comments -/

/-- The place behind a block comment with a number of comments open around it: it is the place
behind all of them. -/
def afterOuter? : Nat → Place → Option Place
  | 0, p => some p
  | outer + 1, p => afterBlock? outer p.location p.text

/-- What closes a comment ends it, or goes on in the one around it. -/
theorem afterBlock?_close (outer : Nat) (l : Location) (rest : List Char) :
    afterBlock? outer l ('*' :: '/' :: rest) =
      afterOuter? outer ⟨l.after ['*', '/'], rest⟩ := by
  cases outer with
  | zero => rw [afterBlock?, afterOuter?]; rfl
  | succ outer => rw [afterBlock?, afterOuter?]; rfl

/-- What opens a comment within another has to be closed first. -/
theorem afterBlock?_nest (outer : Nat) (l : Location) (rest : List Char) :
    afterBlock? outer l ('/' :: '*' :: rest) =
      afterBlock? (outer + 1) (l.after ['/', '*']) rest := by
  cases outer <;> rw [afterBlock?] <;> rfl

/-- Any other character of a comment is passed. -/
theorem afterBlock?_char {c : Char} {text : List Char} (outer : Nat) (l : Location)
    (hclose : ¬['*', '/'] <+: c :: text) (hopen : ¬['/', '*'] <+: c :: text) :
    afterBlock? outer l (c :: text) = afterBlock? outer (l.next c) text := by
  rw [afterBlock?]
  · rintro rest rfl rfl
    exact hopen ⟨rest, rfl⟩
  · rintro rest - rfl rfl
    exact hclose ⟨rest, rfl⟩
  · rintro _ rest - rfl rfl
    exact hclose ⟨rest, rfl⟩

/-- What begins with no mark of two characters goes on so with more text behind. -/
theorem not_isPrefix_append {a b c : Char} {rest more : List Char} (hne : rest ≠ [])
    (h : ¬[a, b] <+: c :: rest) : ¬[a, b] <+: c :: (rest ++ more) := by
  obtain ⟨d, rest, rfl⟩ := List.exists_cons_of_ne_nil hne
  simpa [List.cons_prefix_cons] using h

/-- The inside of a comment has at least what closes it. -/
theorem Block.ne_nil {inner : List Char} (h : Block inner) : inner ≠ [] := by
  cases h <;> simp

/-- Behind the inside of a comment, its end has been found. -/
theorem Block.afterBlock?_append {inner : List Char} (h : Block inner) (outer : Nat) (l : Location)
    (rest : List Char) :
    afterBlock? outer l (inner ++ rest) = afterOuter? outer ⟨l.after inner, rest⟩ := by
  induction h generalizing outer l rest with
  | close => exact afterBlock?_close outer l rest
  | @nest inner inner' _ _ ih ih' =>
    have hopen : '/' :: '*' :: inner ++ inner' ++ rest =
        '/' :: '*' :: (inner ++ (inner' ++ rest)) := by
      simp
    rw [hopen, afterBlock?_nest, ih, afterOuter?, ih', ← Location.after_append,
      ← Location.after_append]
    simp
  | @char c inner hinner hclose hnest ih =>
    rw [List.cons_append, afterBlock?_char outer l (not_isPrefix_append hinner.ne_nil hclose)
      (not_isPrefix_append hinner.ne_nil hnest), ih, Location.after_cons]

/-- Where the end of a comment is found, its inside has been passed. -/
theorem exists_block_of_afterBlock? {outer : Nat} {l : Location} {text : List Char} {q : Place}
    (h : afterBlock? outer l text = some q) :
    ∃ inner rest, Block inner ∧ text = inner ++ rest ∧
      afterOuter? outer ⟨l.after inner, rest⟩ = some q := by
  -- a comment in the comment is followed by what is left of the outer one, which is no tail of the
  -- text but what the inner one leaves: so the induction is on the length
  obtain ⟨n, hn⟩ : ∃ n, n = text.length := ⟨_, rfl⟩
  induction n using Nat.strongRecOn generalizing outer l text with
  | ind n ih =>
    subst hn
    cases text with
    | nil => cases outer <;> simp only [afterBlock?, reduceCtorEq] at h
    | cons c text =>
      by_cases hclose : ['*', '/'] <+: c :: text
      · obtain ⟨rest, hrest⟩ := hclose
        rw [← hrest] at h ⊢
        exact ⟨['*', '/'], rest, .close, rfl, by rwa [← afterBlock?_close]⟩
      by_cases hopen : ['/', '*'] <+: c :: text
      · obtain ⟨rest, hrest⟩ := hopen
        rw [← hrest] at h ih ⊢
        replace h : afterBlock? outer l ('/' :: '*' :: rest) = some q := h
        rw [afterBlock?_nest] at h
        obtain ⟨inner, rest', hinner, rfl, hafter⟩ :=
          ih rest.length (by rw [List.length_append]; exact Nat.lt_add_of_pos_left (by decide)) h
            rfl
        obtain ⟨inner', rest'', hinner', rfl, hafter'⟩ :=
          ih rest'.length (by rw [List.length_append, List.length_append, List.length_cons]; omega)
            hafter rfl
        refine ⟨_, rest'', .nest hinner hinner', by simp, ?_⟩
        rw [← hafter', ← Location.after_append, ← Location.after_append]
        simp
      · rw [afterBlock?_char outer l hclose hopen] at h
        obtain ⟨inner, rest, hinner, rfl, hafter⟩ := ih text.length (by simp) h rfl
        refine ⟨c :: inner, rest, .char hinner ?_ ?_, rfl, hafter⟩
        · exact fun hmark => hclose (hmark.trans (List.prefix_append _ rest))
        · exact fun hmark => hopen (hmark.trans (List.prefix_append _ rest))

/-! ## Skipping -/

/-- White space is no slash. -/
theorem ne_slash_of_isWhiteSpace {c : Char} (h : Text.isWhiteSpace c = true) : c ≠ '/' := by
  rintro rfl
  exact absurd h (by decide)

/-- A blank is skipped. -/
theorem skip_blank {c : Char} (h : Text.isWhiteSpace c = true) (l : Location) (rest : List Char) :
    skip ⟨l, c :: rest⟩ = skip ⟨l.next c, rest⟩ := by
  rw [skip.eq_def]
  split
  · simp_all [ne_slash_of_isWhiteSpace h]
  · simp_all [ne_slash_of_isWhiteSpace h]
  · simp_all
  · simp_all

/-- The place behind a line is behind its line feed, or at the end of the text. -/
theorem afterLine_eq_or (l : Location) (text : List Char) :
    (∃ line rest, '\n' ∉ line ∧ text = line ++ '\n' :: rest ∧
      afterLine l text = ⟨l.after (line ++ ['\n']), rest⟩) ∨
    '\n' ∉ text ∧ afterLine l text = ⟨l.after text, []⟩ := by
  induction text generalizing l with
  | nil => exact .inr ⟨by simp, rfl⟩
  | cons c text ih =>
    rw [afterLine]
    by_cases hc : c = '\n'
    · subst hc
      exact .inl ⟨[], text, by simp, rfl, by rw [if_pos rfl]; rfl⟩
    · rw [if_neg hc]
      rcases ih (l.next c) with ⟨line, rest, hline, rfl, hafter⟩ | ⟨htext, hafter⟩
      · exact .inl ⟨c :: line, rest, by simp [Ne.symm hc, hline], rfl, hafter⟩
      · exact .inr ⟨by simp [Ne.symm hc, htext], hafter⟩

/-- A line comment ends with its line. -/
theorem afterLine_append {line : List Char} (h : '\n' ∉ line) (l : Location) (rest : List Char) :
    afterLine l (line ++ '\n' :: rest) = ⟨l.after (line ++ ['\n']), rest⟩ := by
  induction line generalizing l with
  | nil => simp [afterLine]
  | cons c line ih =>
    simp only [List.mem_cons, not_or] at h
    rw [List.cons_append, afterLine, if_neg (Ne.symm h.1), ih h.2]
    rfl

/-- A line comment is skipped. -/
theorem skip_line (l : Location) (rest : List Char) :
    skip ⟨l, '/' :: '/' :: rest⟩ = skip (afterLine (l.after ['/', '/']) rest) := by
  rw [skip]
  rfl

/-- A block comment that is closed is skipped. -/
theorem skip_block {q : Place} {l : Location} {rest : List Char}
    (h : afterBlock? 0 (l.after ['/', '*']) rest = some q) :
    skip ⟨l, '/' :: '*' :: rest⟩ = skip q := by
  rw [skip]
  change afterBlock? 0 ((l.next '/').next '*') rest = some q at h
  split <;> simp_all

/-- Separators are skipped, whatever stands behind them. -/
theorem skip_separators {text : List Char} (h : text ∈ separators) (l : Location)
    (rest : List Char) : skip ⟨l, text ++ rest⟩ = skip ⟨l.after text, rest⟩ := by
  revert l rest
  refine separators_induction (P := fun text => ∀ l rest,
    skip ⟨l, text ++ rest⟩ = skip ⟨l.after text, rest⟩) (fun l rest => rfl) ?_ h
  intro a ha b ih l rest
  rw [List.append_assoc, Location.after_append, ← ih]
  rcases ha with (⟨c, hc, rfl⟩ | ⟨_, ⟨line, hline, rfl⟩, _, rfl, rfl⟩) | ⟨inner, hinner, rfl⟩
  · exact skip_blank hc l _
  · have hcomment : '/' :: '/' :: line ++ ['\n'] ++ (b ++ rest) =
        '/' :: '/' :: (line ++ '\n' :: (b ++ rest)) := by simp
    rw [hcomment, skip_line, afterLine_append hline]
    rfl
  · have hcomment : '/' :: '*' :: inner ++ (b ++ rest) = '/' :: '*' :: (inner ++ (b ++ rest)) := rfl
    rw [hcomment, skip_block (hinner.afterBlock?_append 0 _ _)]
    rfl

/-- What is skipped are separators; behind the last of them the end of the text may end a comment's
line. -/
theorem skip_passes (p : Place) : ∃ text, p.Behind text (skip p) ∧
    (text ∈ separators ∨ text ∈ separators * openLine ∧ (skip p).text = []) := by
  -- one more separator before what is skipped behind it
  have further {p q : Place} {a : List Char} (ha : a ∈ blank + lineComment + blockComment)
      (hq : p.Behind a q) (h : ∃ text, q.Behind text (skip q) ∧
        (text ∈ separators ∨ text ∈ separators * openLine ∧ (skip q).text = [])) :
      ∃ text, p.Behind text (skip q) ∧
        (text ∈ separators ∨ text ∈ separators * openLine ∧ (skip q).text = []) := by
    obtain ⟨text, hbehind, htext⟩ := h
    refine ⟨a ++ text, hq.append hbehind, htext.imp (append_mem_separators ha) fun hopen => ?_⟩
    obtain ⟨⟨b, hb, line, hline, rfl⟩, hend⟩ := hopen
    exact ⟨⟨a ++ b, append_mem_separators ha hb, line, hline, by simp⟩, hend⟩
  fun_induction skip p with
  | case1 l rest ih =>
    rcases afterLine_eq_or ((l.next '/').next '/') rest with
      ⟨line, rest', hline, rfl, hafter⟩ | ⟨hline, hafter⟩
    · rw [hafter] at ih ⊢
      refine further (a := '/' :: '/' :: line ++ ['\n']) (.inl (.inr ?_)) ⟨by simp, rfl⟩ ih
      exact Language.append_mem_mul ⟨line, hline, rfl⟩ rfl
    · have hend : skip ⟨((l.next '/').next '/').after rest, []⟩ =
          ⟨((l.next '/').next '/').after rest, []⟩ := by rw [skip]
      rw [hafter, hend]
      refine ⟨'/' :: '/' :: rest, ⟨by simp, rfl⟩, .inr ⟨?_, rfl⟩⟩
      exact ⟨[], nil_mem_separators, _, ⟨rest, hline, rfl⟩, rfl⟩
  | case2 l rest q h ih =>
    obtain ⟨inner, rest', hinner, rfl, hafter⟩ := exists_block_of_afterBlock? h
    obtain rfl := Option.some.inj hafter
    exact further (.inr ⟨inner, hinner, rfl⟩) ⟨rfl, rfl⟩ ih
  | case3 | case5 | case6 => exact ⟨[], .nil _, .inl nil_mem_separators⟩
  | case4 l c rest _ _ hc ih => exact further (.inl (.inl ⟨c, hc, rfl⟩)) ⟨rfl, rfl⟩ ih

end Wgsl.Layout
