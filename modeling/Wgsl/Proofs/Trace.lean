import Wgsl.Proofs.Along
import Wgsl.Proofs.Reach
import Wgsl.Proofs.Steps

/-!
# What remains of a rule

A rule that is followed from a cursor comes, step by step, to other rules at other cursors, namely
to what remains of it (`Rule.Remains`). What remains comes to the same in the end
(`Remains.follow_eq`). So two ways to follow a rule can be compared up to the step where they part.
-/

namespace Wgsl

namespace Rule

variable {N : Type} {R : N → Type} {α : Type}

/-- Where the rule is followed from the cursor, something remains to be followed from another. -/
inductive Remains (outcome : (n : N) → Cursor → Outcome (R n)) (r' : Rule R α) (c' : Cursor) :
    Rule R α → Cursor → Prop
  | here : Remains outcome r' c' r' c'
  | look {k : Token → Rule R α} {c : Cursor} (h : Remains outcome r' c' (k c.current) c) :
    Remains outcome r' c' (.look k) c
  | lookBehind {k : TokenKind → Rule R α} {c : Cursor}
    (h : Remains outcome r' c' (k c.following) c) : Remains outcome r' c' (.lookBehind k) c
  | advance {k : Rule R α} {c : Cursor} (h : Remains outcome r' c' k c.advance) :
    Remains outcome r' c' (.advance k) c
  | split {k : Rule R α} {c : Cursor} (h : Remains outcome r' c' k c.split) :
    Remains outcome r' c' (.split k) c
  | read {n : N} {k : R n → Rule R α} {c d : Cursor} {a : R n} (ho : outcome n c = .accepted a d)
    (h : Remains outcome r' c' (k a) d) : Remains outcome r' c' (.read n k) c
  | take {n : N} {k : Option (R n) → Rule R α} {c d : Cursor} {a : R n}
    (ho : outcome n c = .accepted a d) (h : Remains outcome r' c' (k (some a)) d) :
    Remains outcome r' c' (.attempt n k) c
  | refuse {n : N} {k : Option (R n) → Rule R α} {c d : Cursor} {e : ParseError}
    (ho : outcome n c = .rejected e d) (h : Remains outcome r' c' (k none) c) :
    Remains outcome r' c' (.attempt n k) c

namespace Remains

variable {outcome : (n : N) → Cursor → Outcome (R n)} {r r' : Rule R α} {c c' : Cursor}

/-- What remains of a rule comes to what the rule does. -/
theorem follow_eq (h : Remains outcome r' c' r c) :
    r.follow outcome c = r'.follow outcome c' := by
  induction h with
  | here => rfl
  | look _ ih | lookBehind _ ih | advance _ ih | split _ ih => exact ih
  | read ho _ ih | take ho _ ih | refuse ho _ ih => rw [follow, ho]; exact ih

/-- Where a rule remains is reached. -/
theorem reaches (hreaches : ∀ n (c : Cursor), c.Reaches (outcome n c).cursor)
    (h : Remains outcome r' c' r c) : c.Reaches c' := by
  induction h with
  | here => exact .refl c'
  | look _ ih | lookBehind _ ih | refuse _ _ ih => exact ih
  | advance _ ih => exact ih.of_advance
  | split _ ih => exact ih.of_split
  | @read n _ c _ _ ho _ ih | @take n _ c _ _ ho _ ih =>
    have := hreaches n c
    rw [ho] at this
    exact this.trans ih

/-- What remains of what remains. -/
theorem trans {r'' : Rule R α} {c'' : Cursor} (h' : Remains outcome r' c' r'' c'')
    (h : Remains outcome r c r' c') : Remains outcome r c r'' c'' := by
  induction h' with
  | here => exact h
  | look _ ih => exact .look ih
  | lookBehind _ ih => exact .lookBehind ih
  | advance _ ih => exact .advance ih
  | split _ ih => exact .split ih
  | read ho _ ih => exact .read ho ih
  | take ho _ ih => exact .take ho ih
  | refuse ho _ ih => exact .refuse ho ih

end Remains

/-- What holds along a rule holds along what remains of it. -/
theorem Along.remains {outcome : (n : N) → Cursor → Outcome (R n)} {P : N → Cursor → Prop}
    {r r' : Rule R α} {c c' : Cursor} (ha : r.Along outcome P c)
    (h : Remains outcome r' c' r c) : r'.Along outcome P c' := by
  induction h with
  | here => exact ha
  | look _ ih | lookBehind _ ih | advance _ ih | split _ ih => exact ih ha
  | read ho _ ih => exact ih (ha.2 _ _ ho)
  | take ho _ ih => exact ih (ha.2.1 _ _ ho)
  | refuse ho _ ih => exact ih (ha.2.2 _ _ ho)

/-- Nothing remains of a rule that is accepted but its value. -/
theorem remains_of_accepted {outcome : (n : N) → Cursor → Outcome (R n)} {r : Rule R α}
    {c d : Cursor} {a : α} (h : r.follow outcome c = .accepted a d) :
    Remains outcome (.done a) d r c := by
  induction r generalizing c with
  | done b =>
    cases h
    exact .here
  | fail e => cases h
  | look k ih => exact .look (ih _ h)
  | lookBehind k ih => exact .lookBehind (ih _ h)
  | advance k ih => exact .advance (ih h)
  | split k ih => exact .split (ih h)
  | read n k ih =>
    rw [follow] at h
    cases ho : outcome n c with
    | accepted b d' => exact .read ho (ih b (by simpa [ho] using h))
    | rejected e d' => simp [ho] at h
  | attempt n k ih =>
    rw [follow] at h
    cases ho : outcome n c with
    | accepted b d' => exact .take ho (ih _ (by simpa [ho] using h))
    | rejected e d' => exact .refuse ho (ih _ (by simpa [ho] using h))

end Rule

/-- What remains of a rule of the grammar. -/
abbrev Production.Remains {α : Type} (options : ReadOptions) (r' : Production α) (c' : Cursor)
    (r : Production α) (c : Cursor) : Prop :=
  Rule.Remains (fun n c => n.outcome options c) r' c' r c

end Wgsl
