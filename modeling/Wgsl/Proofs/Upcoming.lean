import Mathlib.Data.List.TakeWhile
import Wgsl.Cursor

/-!
# What a cursor still has before it

Advancing takes a token off the front of what is upcoming, and splitting takes none. So what holds
of every tail of the upcoming tokens is lost by no step. The token to be read is one of the
upcoming tokens, unless it is what is left of one (`current_mem_upcoming`).
-/

namespace Wgsl

/-- A token that a `>` was split off is a symbol that a split leaves. -/
theorem Token.afterAngles_eq_or (t : Token) (n : Nat) :
    t.afterAngles n = t ∨ (t.afterAngles n).kind ∈
      [.symbol .greaterThan, .symbol .equal, .symbol .greaterThanEqual] := by
  induction n with
  | zero => exact .inl rfl
  | succ n ih =>
    rw [Token.afterAngles]
    cases h : (t.afterAngles n).afterAngle? with
    | none => simpa using ih
    | some rest =>
      refine .inr ?_
      rw [Token.afterAngle?] at h
      split at h
      · rename_i mark _
        obtain ⟨left, hleft, rfl⟩ := Option.map_eq_some_iff.1 h
        cases mark <;> simp_all [Symbol.afterAngle?]
      · simp at h

/-- What a `>` can be split off, and what is left of it. -/
theorem Token.afterAngle?_eq_some_iff {t u : Token} :
    t.afterAngle? = some u ↔ ∃ mark left, t.kind = .symbol mark ∧ mark.afterAngle? = some left ∧
      u = ⟨.symbol left, t.location.rightBy 1⟩ := by
  obtain ⟨kind, l⟩ := t
  cases kind with
  | symbol mark => cases h : mark.afterAngle? <;> simp only [afterAngle?, h, Option.map_none,
    reduceCtorEq, TokenKind.symbol.injEq, eq_comm, exists_and_left, exists_eq_left', false_and,
    exists_const, Option.map_some, Option.some.injEq]
  | _ => simp [afterAngle?]

/-- What a symbol leaves is its lexeme without the first character. -/
theorem Symbol.lexeme_of_afterAngle? {mark left : Symbol} (h : mark.afterAngle? = some left) :
    mark.lexeme.toList = '>' :: left.lexeme.toList ∧ left.lexeme ≠ "" ∧
      mark ∈ [.shiftRight, .greaterThanEqual, .shiftRightEqual] := by
  cases mark <;> simp only [afterAngle?, reduceCtorEq, Option.some.injEq] at h <;> subst h <;>
    decide

/-- A token with no angle to split off stays as it is. -/
theorem Token.afterAngles_of_none {t : Token} (h : t.afterAngle? = none) (n : Nat) :
    t.afterAngles n = t := by
  induction n with
  | zero => rfl
  | succ n ih => rw [Token.afterAngles, ih, h, Option.getD_none]

/-- What one split does not change, no number of splits changes. -/
theorem Token.afterAngles_kind_congr {α : Type} (f : TokenKind → α)
    (h : ∀ mark left, Symbol.afterAngle? mark = some left →
      f (.symbol left) = f (.symbol mark)) (t : Token) (n : Nat) :
    f (t.afterAngles n).kind = f t.kind := by
  induction n with
  | zero => rfl
  | succ n ih =>
    rw [afterAngles]
    cases hu : (t.afterAngles n).afterAngle? with
    | none => simpa using ih
    | some u =>
      obtain ⟨mark, left, hmark, hleft, rfl⟩ := afterAngle?_eq_some_iff.1 hu
      rw [Option.getD_some, ← ih, hmark, h mark left hleft]

namespace Cursor

/-- The end of the file is where the tokens say, wherever those before them end. -/
theorem finishOf_append {ts : List Token} (h : ∀ t ∈ ts, t.kind ≠ .endOfFile) (l : Location)
    (us : List Token) : finishOf l (ts ++ us) = finishOf (finishOf l ts) us := by
  induction ts generalizing l with
  | nil => rfl
  | cons t ts ih =>
    have ht : t.kind ≠ .endOfFile := h t List.mem_cons_self
    rw [List.cons_append, finishOf, finishOf, if_neg ht, if_neg ht]
    exact ih (fun u hu => h u (List.mem_cons_of_mem _ hu)) _

/-- Advancing leaves the tokens behind the first. -/
theorem upcoming_advance (c : Cursor) : c.advance.upcoming = c.upcoming.tail := by
  rw [advance]
  split <;> simp_all

/-- Splitting leaves the same tokens upcoming. -/
theorem upcoming_split (c : Cursor) : c.split.upcoming = c.upcoming := by
  rw [split]
  split <;> rfl

/-- Advancing leaves the end of the file where it is. -/
theorem finish_advance (c : Cursor) : c.advance.finish = c.finish := by
  rw [advance]
  split <;> rfl

/-- Splitting leaves the end of the file where it is. -/
theorem finish_split (c : Cursor) : c.split.finish = c.finish := by
  rw [split]
  split <;> rfl

/-- The token to be read is an upcoming token, unless it is the end of the file or what is left of
a token. -/
theorem current_mem_upcoming {c : Cursor} (hend : c.current.kind ≠ .endOfFile)
    (h : c.current.kind ∉
      [.symbol .greaterThan, .symbol .equal, .symbol .greaterThanEqual]) :
    c.current ∈ c.upcoming := by
  rw [current] at hend h ⊢
  cases hu : c.upcoming with
  | nil => simp [hu] at hend
  | cons t ts =>
    rw [hu] at h
    have hsame : t.afterAngles c.taken = t := (t.afterAngles_eq_or c.taken).resolve_right h
    simp [hsame]

/-- Before the end of the file, the token to be read is what is left of the first upcoming one. -/
theorem exists_upcoming_eq_cons {c : Cursor} (h : c.current.kind ≠ .endOfFile) :
    ∃ t ts, c.upcoming = t :: ts ∧ c.current = t.afterAngles c.taken := by
  rw [current] at h ⊢
  cases hu : c.upcoming with
  | nil => simp [hu] at h
  | cons t ts => exact ⟨t, ts, rfl, rfl⟩

/-- Where the next token is not the end of the file, some are upcoming. -/
theorem upcoming_ne_nil {c : Cursor} (h : c.current.kind ≠ .endOfFile) : c.upcoming ≠ [] := by
  obtain ⟨t, rest, hu, -⟩ := exists_upcoming_eq_cons h
  exact hu ▸ List.cons_ne_nil t rest

/-- A name is not what is left of a token. -/
theorem upcoming_eq_of_name {c : Cursor} {name : String} (h : c.current.kind = .identifier name) :
    c.upcoming = c.current :: c.upcoming.tail := by
  obtain ⟨t, ts, hu, hc⟩ := exists_upcoming_eq_cons (c := c) (by simp [h])
  have hsame : t.afterAngles c.taken = t :=
    (t.afterAngles_eq_or c.taken).resolve_right (by simp [← hc, h])
  rw [hu, hc, hsame, List.tail_cons]

/-- What stands behind the token to be read is what is read next. -/
theorem following_eq (c : Cursor) : c.following = c.advance.current.kind := by
  rw [following, current, advance]
  rcases hu : c.upcoming with _ | ⟨t, _ | ⟨u, us⟩⟩ <;> simp [hu, Token.afterAngles]

/-- Where no `>` can be split off, splitting leaves the cursor where it is. -/
theorem split_eq {c : Cursor} (h : c.current.afterAngle? = none) : c.split = c := by
  rw [split, dif_neg (by simp [h])]

/-- Splitting leaves what is left of the token. -/
theorem current_split {c : Cursor} {u : Token} (h : c.current.afterAngle? = some u) :
    c.split.current = u := by
  have hsome : c.current.afterAngle?.isSome := by rw [h]; rfl
  obtain ⟨mark, left, hmark, -, -⟩ := Token.afterAngle?_eq_some_iff.1 h
  obtain ⟨t, rest, hu, hcurrent⟩ := exists_upcoming_eq_cons (c := c) (by simp [hmark])
  have htaken : c.taken < 2 := by
    refine Nat.lt_of_le_of_ne c.taken_le fun h2 => ?_
    rw [hcurrent, h2, Token.afterAngles_two] at h
    cases h
  rw [split, dif_pos ⟨htaken, hsome⟩]
  simp only [current, hu, Token.afterAngles]
  rw [← hcurrent, h, Option.getD_some]

/-- No upcoming token is of a kind. -/
def Lacks (k : TokenKind) (c : Cursor) : Prop := ∀ t ∈ c.upcoming, t.kind ≠ k

variable {k : TokenKind} {c : Cursor}

/-- What lacks a kind lacks it later on. -/
theorem Lacks.of_suffix {c' : Cursor} (h : c.Lacks k) (hsuffix : c'.upcoming <:+ c.upcoming) :
    c'.Lacks k :=
  fun t ht => h t (hsuffix.subset ht)

/-- Advancing brings no token of the kind. -/
theorem Lacks.advance (h : c.Lacks k) : c.advance.Lacks k := by
  intro t ht
  rw [upcoming_advance] at ht
  exact h t (List.mem_of_mem_tail ht)

/-- Splitting brings no token of the kind. -/
theorem Lacks.split (h : c.Lacks k) : c.split.Lacks k := by
  intro t ht
  rw [upcoming_split] at ht
  exact h t ht

/-- Where a name is lacking, every name is another. -/
theorem Lacks.name_ne {w n : String} (h : c.Lacks (.identifier w))
    (hc : c.current.kind = .identifier n) : n ≠ w := by
  rintro rfl
  exact h _ (current_mem_upcoming (by simp [hc]) (by simp [hc])) hc

/-- Where no upcoming token is the end of the file, only the end of them is. -/
theorem Lacks.upcoming_eq_nil (h : c.Lacks .endOfFile) (hc : c.current.kind = .endOfFile) :
    c.upcoming = [] := by
  rw [current] at hc
  cases hu : c.upcoming with
  | nil => rfl
  | cons t ts =>
    simp only [hu] at hc
    rcases t.afterAngles_eq_or c.taken with hsame | hleft
    · rw [hsame] at hc
      exact absurd hc (h t (hu ▸ List.mem_cons_self))
    · simp [hc] at hleft

/-- At the end of the file, advancing leaves the cursor where it is. -/
theorem Lacks.advance_eq (h : c.Lacks .endOfFile) (hc : c.current.kind = .endOfFile) :
    c.advance = c := by
  rw [Cursor.advance, h.upcoming_eq_nil hc]

/-- A reader lacks what its tokens lack. -/
theorem lacks_ofTokens {ts : List Token} (h : ∀ t ∈ ts, t.kind ≠ k) : (ofTokens ts).Lacks k :=
  fun t ht => h t ((List.takeWhile_prefix _).subset ht)

/-- The end of the file is not among the tokens before it. -/
theorem lacks_endOfFile_ofTokens (ts : List Token) : (ofTokens ts).Lacks .endOfFile :=
  fun _ ht => by simpa using List.mem_takeWhile_imp ht

end Cursor

end Wgsl
