import Mathlib.Logic.Relation
import Wgsl.Proofs.WholeFile

/-!
# From one cursor to another

A cursor reaches another if advancing and splitting lead to it (`Cursor.Reaches`). Those that are
reached from one cursor stand in one line (`Reaches.total`), and none leads back, so a place is
before, at or behind another. Reading a nonterminal comes to a cursor that is reached
(`Nonterminal.outcome_reaches`).
-/

namespace Wgsl

namespace Cursor

/-- What stands behind a token does not depend on how much of it is left. -/
theorem advance_eq_of_upcoming {c d : Cursor} (hu : c.upcoming = d.upcoming)
    (hf : c.finish = d.finish) (hne : c.upcoming ≠ []) : c.advance = d.advance := by
  obtain ⟨t, ts, hc⟩ := List.exists_cons_of_ne_nil hne
  simp only [advance, ← hu, hc, hf]

/-- At the end nothing is split. -/
theorem split_of_nil {c : Cursor} (h : c.upcoming = []) : c.split = c :=
  split_eq (by simp [current, h, Token.afterAngle?])

/-- At the end there is nothing to advance over. -/
theorem advance_of_nil {c : Cursor} (h : c.upcoming = []) : c.advance = c := by
  rw [advance, h]

/-- What is left of a split token is passed as the whole would have been. -/
theorem advance_split (c : Cursor) : c.split.advance = c.advance := by
  by_cases hne : c.upcoming = []
  · rw [split_of_nil hne]
  · exact advance_eq_of_upcoming (upcoming_split c) (finish_split c) (by rwa [upcoming_split])

/-- A cursor moves by advancing or by splitting. -/
def Moves (c d : Cursor) : Prop := d = c.advance ∨ d = c.split

/-- A cursor comes to another by moving. -/
def Reaches : Cursor → Cursor → Prop := Relation.ReflTransGen Moves

variable {c d e : Cursor}

namespace Reaches

@[refl] theorem refl (c : Cursor) : c.Reaches c := Relation.ReflTransGen.refl

/-- What is reached reaches further. -/
theorem trans (h : c.Reaches d) (h' : d.Reaches e) : c.Reaches e := Relation.ReflTransGen.trans h h'

/-- What is reached can be advanced. -/
theorem advance (h : c.Reaches d) : c.Reaches d.advance :=
  Relation.ReflTransGen.tail h (.inl rfl)

/-- What is reached can be split. -/
theorem split (h : c.Reaches d) : c.Reaches d.split := Relation.ReflTransGen.tail h (.inr rfl)

/-- What is reached behind the upcoming token is reached. -/
theorem of_advance (h : c.advance.Reaches d) : c.Reaches d :=
  Relation.ReflTransGen.head (.inl rfl) h

/-- What is reached from what a split leaves is reached. -/
theorem of_split (h : c.split.Reaches d) : c.Reaches d := Relation.ReflTransGen.head (.inr rfl) h

/-- The end of the file stays where it is. -/
theorem finish_eq (h : c.Reaches d) : d.finish = c.finish := by
  induction h with
  | refl => rfl
  | tail _ hmove ih =>
    rcases hmove with rfl | rfl
    · rw [finish_advance, ih]
    · rw [finish_split, ih]

/-- What is left shrinks from the front. -/
theorem suffix (h : c.Reaches d) : d.upcoming <:+ c.upcoming := by
  induction h with
  | refl => exact List.suffix_refl _
  | tail _ hmove ih =>
    rcases hmove with rfl | rfl
    · exact suffix_advance ih
    · exact suffix_split ih

/-- Nothing is given back. -/
theorem measure_le (h : c.Reaches d) : d.measure ≤ c.measure := by
  induction h with
  | refl => exact Nat.le_refl _
  | tail _ hmove ih =>
    rcases hmove with rfl | rfl
    · exact (measure_advance_le _).trans ih
    · exact (measure_split_le _).trans ih

/-- What is reached in some steps is reached, if not at once, from where the token is split. -/
theorem eq_or_split (h : c.Reaches d) : c = d ∨ c.split.Reaches d := by
  induction h using Relation.ReflTransGen.head_induction_on with
  | refl => exact .inl rfl
  | @head a b hmove h ih =>
    refine .inr ?_
    rcases hmove with rfl | rfl
    · rw [← advance_split] at h
      exact of_advance h
    · exact h

/-- Where nothing can be split off, what is reached is reached behind the token. -/
theorem eq_or_advance (h : c.Reaches d) (hc : c.current.afterAngle? = none) :
    c = d ∨ c.advance.Reaches d := by
  induction h using Relation.ReflTransGen.head_induction_on with
  | refl => exact .inl rfl
  | @head a b hmove h ih =>
    rcases hmove with rfl | rfl
    · exact .inr h
    · rw [split_eq hc] at ih
      exact ih hc

/-- At the end nothing else is reached. -/
theorem eq_of_nil (h : c.Reaches d) (hc : c.upcoming = []) : d = c := by
  induction h with
  | refl => rfl
  | tail _ hmove ih =>
    rcases hmove with rfl | rfl
    · rw [ih, advance_of_nil hc]
    · rw [ih, split_of_nil hc]

/-- What is reached stands in the same token, or is reached behind it. -/
theorem upcoming_eq_or_advance (h : c.Reaches d) :
    d.upcoming = c.upcoming ∨ c.advance.Reaches d := by
  induction h using Relation.ReflTransGen.head_induction_on with
  | refl => exact .inl rfl
  | @head a b hmove h ih =>
    rcases hmove with rfl | rfl
    · exact .inr h
    · rwa [upcoming_split, advance_split] at ih

/-- Splits do not change what stands behind the upcoming token. -/
theorem advance_eq (h : c.Reaches d) (hu : d.upcoming = c.upcoming) : d.advance = c.advance := by
  by_cases hc : c.upcoming = []
  · rw [h.eq_of_nil hc]
  · exact advance_eq_of_upcoming hu h.finish_eq (by rwa [hu])

/-- Cursors that are reached from one stand in a line. -/
theorem total (h : c.Reaches d) (h' : c.Reaches e) : d.Reaches e ∨ e.Reaches d := by
  induction h using Relation.ReflTransGen.head_induction_on with
  | refl => exact .inl h'
  | @head a b hmove h ih =>
    rcases hmove with rfl | rfl
    · rcases h'.upcoming_eq_or_advance with hu | h'
      · rw [← h'.advance_eq hu] at h
        exact .inr (of_advance h)
      · exact ih h'
    · rcases h'.eq_or_split with rfl | h'
      · exact .inr (of_split h)
      · exact ih h'

/-- A cursor that reaches another has more left to use up. -/
theorem measure_lt (h : c.Reaches d) (hne : c ≠ d) : d.measure < c.measure := by
  by_cases hsplit : c.current.afterAngle? = none
  · have hreach := (h.eq_or_advance hsplit).resolve_left hne
    obtain ⟨t, ts, hu⟩ := List.exists_cons_of_ne_nil fun hu => hne (h.eq_of_nil hu).symm
    have hlt : c.advance.measure < c.measure := by
      have := c.taken_le
      have hrest : c.advance.upcoming = ts := by rw [upcoming_advance, hu, List.tail_cons]
      simp only [measure, hu, hrest, List.length_cons]
      omega
    exact hreach.measure_le.trans_lt hlt
  · have hreach := h.eq_or_split.resolve_left hne
    exact hreach.measure_le.trans_lt (measure_split_lt (Option.isSome_iff_ne_none.2 hsplit))

/-- Cursors that reach each other are one. -/
theorem antisymm (h : c.Reaches d) (h' : d.Reaches c) : c = d := by
  by_contra hne
  have := h.measure_lt hne
  have := h'.measure_le
  omega

/-- Behind a token, nothing leads back. -/
theorem not_of_advance (h : c.Reaches d) (hne : d.upcoming ≠ []) : ¬d.advance.Reaches c := by
  intro hback
  have hlength := (hback.trans h).suffix.length_le
  have := List.length_pos_iff.2 hne
  rw [upcoming_advance, List.length_tail] at hlength
  omega

end Reaches

end Cursor

/-! ## Rules -/

/-- Reading comes to a cursor that is reached. -/
theorem Nonterminal.outcome_reaches (options : ReadOptions) (n : Nonterminal) (c : Cursor) :
    c.Reaches (n.outcome options c).cursor :=
  n.outcome_keeps (P := c.Reaches) (fun _ => Cursor.Reaches.advance) (fun _ => Cursor.Reaches.split)
    (.refl c)

/-- So does following a rule, where reading nonterminals does. -/
theorem Rule.follow_reaches {N : Type} {R : N → Type} {α : Type}
    {outcome : (n : N) → Cursor → Outcome (R n)}
    (h : ∀ n (c : Cursor), c.Reaches (outcome n c).cursor) (r : Rule R α) (c : Cursor) :
    c.Reaches (r.follow outcome c).cursor := by
  induction r generalizing c with
  | done | fail => exact .refl c
  | look k ih => exact ih _ c
  | lookBehind k ih => exact ih _ c
  | advance k ih => exact (ih c.advance).of_advance
  | split k ih => exact (ih c.split).of_split
  | read n k ih =>
    have hn := h n c
    rw [follow]
    cases ho : outcome n c with
    | accepted a d => rw [ho] at hn; exact hn.trans (ih a d)
    | rejected e d => rw [ho] at hn; exact hn
  | attempt n k ih =>
    have hn := h n c
    rw [follow]
    cases ho : outcome n c with
    | accepted a d => rw [ho] at hn; exact hn.trans (ih (some a) d)
    | rejected e d => exact ih none c

end Wgsl
