import Mathlib.Data.List.Pairwise
import Wgsl.Tokenize

/-!
# The order of tokens

Every token of a text stands before those that follow it, since a location only moves on and no
token is empty (`pairwise_tokenize`). So a token is known by its location, and only the last one is
the end of the file.
-/

namespace Wgsl

namespace Location

/-- The first location is on an earlier line, or on the same one and further to the left. -/
def Before (l l' : Location) : Prop := l.line < l'.line ∨ l.line = l'.line ∧ l.column < l'.column

variable {l l' l'' : Location}

/-- What is before something else is before what that is before. -/
theorem Before.trans (h : l.Before l') (h' : l'.Before l'') : l.Before l'' := by
  unfold Before at *
  omega

/-- No location is before itself. -/
theorem Before.ne (h : l.Before l') : l ≠ l' := by
  rintro rfl
  unfold Before at h
  omega

/-- One character moves a location on. -/
theorem before_next (l : Location) (c : Char) : l.Before (l.next c) := by
  unfold next
  split
  · exact .inl (Nat.lt_succ_self _)
  · exact .inr ⟨rfl, Nat.lt_succ_self _⟩

/-- A text that is not empty moves a location on. -/
theorem before_after (l : Location) {text : List Char} (h : text ≠ []) :
    l.Before (l.after text) := by
  induction text generalizing l with
  | nil => exact absurd rfl h
  | cons c text ih =>
    rw [after_cons]
    by_cases htext : text = []
    · rw [htext, after_nil]
      exact before_next l c
    · exact (before_next l c).trans (ih _ htext)

end Location

/-- A place behind another is not before it. -/
theorem Place.Behind.eq_or_before {p q : Place} {part : List Char} (h : p.Behind part q) :
    p.location = q.location ∨ p.location.Before q.location := by
  rw [h.location_eq]
  by_cases hpart : part = []
  · rw [hpart, Location.after_nil]
    exact .inl rfl
  · exact .inr (Location.before_after _ hpart)

/-- No token is the end of the file where there is text. -/
theorem scanToken_ne_endOfFile {text rest : List Char} {kind : TokenKind}
    (h : scanToken text = some (kind, rest)) : kind ≠ .endOfFile := by
  rintro rfl
  exact scanToken_text_ne_nil h rfl

/-- No token stands before the place that reading begins at. -/
theorem eq_or_before_of_mem_tokensFrom (p : Place) :
    ∀ t ∈ tokensFrom p, p.location = t.location ∨ p.location.Before t.location := by
  fun_induction tokensFrom p with
  | case1 p q hend =>
    obtain ⟨_, hskip⟩ := Layout.skip_behind p
    simpa using hskip.eq_or_before
  | case2 p q kind rest htoken ih =>
    obtain ⟨_, hskip⟩ := Layout.skip_behind p
    have htext := Location.before_after q.location (scanToken_text_ne_nil htoken)
    intro t ht
    rcases List.mem_cons.1 ht with rfl | ht
    · exact hskip.eq_or_before
    · have hbehind : q.location.Before t.location := by
        rcases ih t ht with hsame | hbefore
        · exact hsame ▸ htext
        · exact htext.trans hbefore
      rcases hskip.eq_or_before with hsame | hbefore
      · exact .inr (hsame ▸ hbehind)
      · exact .inr (hbefore.trans hbehind)

/-- Tokens from a place on are read in the order of their locations. -/
theorem pairwise_tokensFrom (p : Place) :
    (tokensFrom p).Pairwise fun t u => t.location.Before u.location := by
  fun_induction tokensFrom p with
  | case1 p q hend => exact List.pairwise_singleton _ _
  | case2 p q kind rest htoken ih =>
    have htext := Location.before_after q.location (scanToken_text_ne_nil htoken)
    refine List.pairwise_cons.2 ⟨fun t ht => ?_, ih⟩
    rcases eq_or_before_of_mem_tokensFrom _ t ht with hsame | hbefore
    · exact hsame ▸ htext
    · exact htext.trans hbefore

/-- Every token of a text stands before those that follow it. -/
theorem pairwise_tokenize (source : String) :
    (tokenize source).Pairwise fun t u => t.location.Before u.location :=
  pairwise_tokensFrom _

/-- A token of a text is known by its location. -/
theorem eq_of_location_eq {source : String} {t u : Token} (ht : t ∈ tokenize source)
    (hu : u ∈ tokenize source) (h : t.location = u.location) : t = u := by
  by_contra hne
  have hsymm : Std.Symm fun t u : Token => t.location ≠ u.location := ⟨fun _ _ h => h.symm⟩
  have hpairwise : (tokenize source).Pairwise fun t u => t.location ≠ u.location :=
    (pairwise_tokenize source).imp fun h => h.ne
  exact hpairwise.forall ht hu hne h

/-- Only one token of a text has its location. -/
theorem filter_location_eq {source : String} {t : Token} (ht : t ∈ tokenize source) :
    (tokenize source).filter (·.location = t.location) = [t] := by
  obtain ⟨before, behind, hsplit⟩ := List.append_of_mem ht
  have hpairwise := pairwise_tokenize source
  rw [hsplit, List.pairwise_append, List.pairwise_cons] at hpairwise
  obtain ⟨-, ⟨hbehind, -⟩, hbefore⟩ := hpairwise
  have hleft : before.filter (·.location = t.location) = [] :=
    List.filter_eq_nil_iff.2 fun u hu => by
      simpa using (hbefore u hu t List.mem_cons_self).ne
  have hright : behind.filter (·.location = t.location) = [] :=
    List.filter_eq_nil_iff.2 fun u hu => by simpa using (hbehind u hu).ne.symm
  rw [hsplit, List.filter_append, List.filter_cons_of_pos (by simp), hleft, hright,
    List.nil_append]

/-- The end of the file is the last token, and no other one. -/
theorem tokensFrom_eq (p : Place) :
    ∃ l, tokensFrom p = (tokensFrom p).takeWhile (·.kind ≠ .endOfFile) ++ [⟨.endOfFile, l⟩] := by
  fun_induction tokensFrom p with
  | case1 p q hend => exact ⟨q.location, by simp⟩
  | case2 p q kind rest htoken ih =>
    obtain ⟨l, hl⟩ := ih
    refine ⟨l, ?_⟩
    rw [List.takeWhile_cons_of_pos (by simpa using scanToken_ne_endOfFile htoken), List.cons_append,
      ← hl]

/-- The tokens of a source end with its only end of the file. -/
theorem tokenize_eq (source : String) :
    ∃ l, tokenize source =
      (tokenize source).takeWhile (·.kind ≠ .endOfFile) ++ [⟨.endOfFile, l⟩] :=
  tokensFrom_eq _

end Wgsl
