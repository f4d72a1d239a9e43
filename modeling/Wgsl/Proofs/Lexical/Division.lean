import Wgsl.Proofs.Lexical.Layout
import Wgsl.Proofs.TokenOrder

/-!
# A text and its tokens

A text is divided into tokens with separators between them, and nothing of it is lost: written one
behind the other, separators and tokens make up the text again, and every token stands where the
text before it ends (`tokenize_division`).

The two sides are told apart from how tokens are read. `Spaced.textOf` writes token kinds and
separators down, and `Spaced.tokensFrom` says which tokens that are, each located by all the text
before it.
-/

namespace Wgsl

/-- A token kind with the separators before it. -/
structure Spaced where
  before : List Char
  kind : TokenKind

namespace Spaced

/-- The separators and the text of the token. -/
def text (s : Spaced) : List Char := s.before ++ s.kind.text.toList

/-- The text that is written with token kinds and separators, the last of them behind all tokens. -/
def textOf (spaced : List Spaced) (behind : List Char) : List Char := spaced.flatMap text ++ behind

/-- The tokens of that text from a location on, and the end of the file behind them. -/
def tokensFrom (l : Location) : List Spaced → List Char → List Token
  | [], behind => [⟨.endOfFile, l.after behind⟩]
  | s :: spaced, behind => ⟨s.kind, l.after s.before⟩ :: tokensFrom (l.after s.text) spaced behind

@[simp] theorem textOf_nil (behind : List Char) : textOf [] behind = behind := rfl

@[simp] theorem textOf_cons (s : Spaced) (spaced : List Spaced) (behind : List Char) :
    textOf (s :: spaced) behind = s.text ++ textOf spaced behind := by
  simp [textOf]

@[simp] theorem length_tokensFrom (l : Location) (spaced : List Spaced) (behind : List Char) :
    (tokensFrom l spaced behind).length = spaced.length + 1 := by
  induction spaced generalizing l with
  | nil => rfl
  | cons s spaced ih => rw [tokensFrom, List.length_cons, ih, List.length_cons]

/-- Where no token is empty, there are at most as many as characters. -/
theorem length_le_textOf {spaced : List Spaced} (h : ∀ s ∈ spaced, s.kind.text ≠ "")
    (behind : List Char) : spaced.length ≤ (textOf spaced behind).length := by
  induction spaced with
  | nil => exact Nat.zero_le _
  | cons s spaced ih =>
    have hne : s.kind.text.toList ≠ [] := by simpa using h s List.mem_cons_self
    have htext : 0 < s.text.length := by
      rw [text, List.length_append]
      exact Nat.add_pos_right _ (List.length_pos_iff.2 hne)
    have hrest := ih fun s' hs' => h s' (List.mem_cons_of_mem _ hs')
    rw [textOf_cons, List.length_append, List.length_cons]
    omega

end Spaced

/-- There is a token wherever there is text. -/
theorem eq_nil_of_scanToken {text : List Char} (h : scanToken text = none) : text = [] := by
  rw [scanToken.eq_def] at h
  split at h
  · rfl
  · simp at h
  · split at h
    · simp at h
    split at h
    · simp at h
    · split at h <;> simp at h

/-- From every place on, the text is separators and tokens one behind the other. -/
theorem tokensFrom_division (p : Place) : ∃ (spaced : List Spaced) (behind : List Char),
    p.text = Spaced.textOf spaced behind ∧
    tokensFrom p = Spaced.tokensFrom p.location spaced behind ∧
    (∀ s ∈ spaced, s.before ∈ Layout.separators ∧ s.kind.text ≠ "" ∧ s.kind ≠ .endOfFile) ∧
    behind ∈ Layout.separators * (1 + Layout.openLine) := by
  fun_induction tokensFrom p with
  | case1 p q hend =>
    obtain ⟨behind, hskip, hbehind⟩ := Layout.skip_passes p
    have hq : q.text = [] := eq_nil_of_scanToken hend
    refine ⟨[], behind, ?_, ?_, by simp, ?_⟩
    · rw [Spaced.textOf_nil, ← hskip.text_eq]
      change behind ++ q.text = behind
      rw [hq, List.append_nil]
    · rw [Spaced.tokensFrom, ← hskip.location_eq]
    · rcases hbehind with hclosed | ⟨⟨a, ha, b, hb, rfl⟩, -⟩
      · exact ⟨behind, hclosed, [], .inl rfl, by simp⟩
      · exact ⟨a, ha, b, .inr hb, rfl⟩
  | case2 p q kind rest htoken ih =>
    obtain ⟨spaced, behind, htext, htokens, hspaced, hbehind⟩ := ih
    obtain ⟨before, hskip, hbefore⟩ := Layout.skip_passes p
    have hclosed : before ∈ Layout.separators := by
      refine hbefore.resolve_right ?_
      rintro ⟨-, hopen⟩
      change q.text = [] at hopen
      simp [hopen, scanToken] at htoken
    have hlocation : p.location.after (Spaced.mk before kind).text =
        q.location.after kind.text.toList := by
      rw [Spaced.text, Location.after_append, ← hskip.location_eq]
    refine ⟨⟨before, kind⟩ :: spaced, behind, ?_, ?_, ?_, hbehind⟩
    · rw [Spaced.textOf_cons, Spaced.text, ← htext, List.append_assoc, scanToken_append htoken]
      exact hskip.text_eq.symm
    · rw [Spaced.tokensFrom, hlocation, ← htokens, ← hskip.location_eq]
    · refine List.forall_mem_cons.2 ⟨⟨hclosed, ?_, scanToken_ne_endOfFile htoken⟩, hspaced⟩
      simpa using scanToken_text_ne_nil htoken

/-- Every text is separators and tokens one behind the other, and dividing it gives these tokens,
each located behind all the text before it, and then the end of the file. So the locations ascend,
and there are at most as many tokens as characters and one more. -/
theorem tokenize_division (source : String) : ∃ (spaced : List Spaced) (behind : List Char),
    source.toList = Spaced.textOf spaced behind ∧
    tokenize source = Spaced.tokensFrom .start spaced behind ∧
    (∀ s ∈ spaced, s.before ∈ Layout.separators ∧ s.kind.text ≠ "" ∧ s.kind ≠ .endOfFile) ∧
    behind ∈ Layout.separators * (1 + Layout.openLine) ∧
    ((tokenize source).Pairwise fun t u => t.location.Before u.location) ∧
    (tokenize source).length ≤ source.length + 1 := by
  obtain ⟨spaced, behind, htext, htokens, hspaced, hbehind⟩ :=
    tokensFrom_division (.ofSource source)
  refine ⟨spaced, behind, htext, htokens, hspaced, hbehind, pairwise_tokenize source, ?_⟩
  have hlength := Spaced.length_le_textOf (fun s hs => (hspaced s hs).2.1) behind
  rw [← htext] at hlength
  rw [tokenize, htokens, Spaced.length_tokensFrom]
  exact Nat.succ_le_succ hlength

end Wgsl
