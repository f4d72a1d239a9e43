import Wgsl.Place
import Wgsl.Text.WhiteSpace

/-!
# Layout

Layout is what stands between tokens: white space, comments to the end of a line, and block
comments, which nest. `Layout.skip` is the place behind the layout at its beginning.

A block comment that is never closed is not layout. `skip` stops at it and leaves it to the reader
of tokens; so what `skip` leaves begins with `/*` only if that comment has no end.
-/

namespace Wgsl.Layout

/-- The place behind the first line feed. -/
def afterLine : Location → List Char → Place
  | l, [] => ⟨l, []⟩
  | l, c :: rest => if c = '\n' then ⟨l.next c, rest⟩ else afterLine (l.next c) rest

/-- The place behind the end of a block comment that is already open, with further comments open
around it; nothing if the text ends first. -/
def afterBlock? : Nat → Location → List Char → Option Place
  | _, _, [] => none
  | 0, l, '*' :: '/' :: rest => some ⟨(l.next '*').next '/', rest⟩
  | outer + 1, l, '*' :: '/' :: rest => afterBlock? outer ((l.next '*').next '/') rest
  | outer, l, '/' :: '*' :: rest => afterBlock? (outer + 1) ((l.next '/').next '*') rest
  | outer, l, c :: rest => afterBlock? outer (l.next c) rest

/-- A line comment leaves a part of the text behind it. -/
theorem afterLine_behind (l : Location) (text : List Char) :
    ∃ part, Place.Behind ⟨l, text⟩ part (afterLine l text) := by
  induction text generalizing l with
  | nil => exact ⟨[], .nil _⟩
  | cons c text ih =>
    rw [afterLine]
    split
    · exact ⟨[c], .cons (.nil _)⟩
    · obtain ⟨part, h⟩ := ih (l.next c)
      exact ⟨c :: part, .cons h⟩

/-- So does a block comment that is closed. -/
theorem afterBlock?_behind {outer : Nat} {l : Location} {text : List Char} {q : Place}
    (h : afterBlock? outer l text = some q) : ∃ part, Place.Behind ⟨l, text⟩ part q := by
  induction outer, l, text using afterBlock?.induct with
  | case1 => simp [afterBlock?] at h
  | case2 l rest =>
    rw [afterBlock?] at h
    obtain rfl := Option.some.inj h
    exact ⟨['*', '/'], .cons (.cons (.nil _))⟩
  | case3 outer l rest ih =>
    rw [afterBlock?] at h
    obtain ⟨part, hp⟩ := ih h
    exact ⟨'*' :: '/' :: part, .cons (.cons hp)⟩
  | case4 outer l rest ih =>
    rw [afterBlock?] at h
    obtain ⟨part, hp⟩ := ih h
    exact ⟨'/' :: '*' :: part, .cons (.cons hp)⟩
  | case5 outer l c rest _ _ _ ih =>
    rw [afterBlock?] at h
    · obtain ⟨part, hp⟩ := ih h
      exact ⟨c :: part, .cons hp⟩
    all_goals assumption

/-- The place behind the white space and comments at its beginning. -/
def skip (p : Place) : Place :=
  match p with
  | ⟨l, '/' :: '/' :: rest⟩ => skip (afterLine ((l.next '/').next '/') rest)
  | ⟨l, '/' :: '*' :: rest⟩ =>
    match _h : afterBlock? 0 ((l.next '/').next '*') rest with
    | some q => skip q
    | none => ⟨l, '/' :: '*' :: rest⟩
  | ⟨l, c :: rest⟩ => if Text.isWhiteSpace c then skip ⟨l.next c, rest⟩ else ⟨l, c :: rest⟩
  | ⟨l, []⟩ => ⟨l, []⟩
termination_by p.text.length
decreasing_by
  · obtain ⟨_, h⟩ := afterLine_behind ((l.next '/').next '/') rest
    exact Nat.lt_of_le_of_lt h.length_le (by simp only [List.length_cons]; omega)
  · obtain ⟨_, h⟩ := afterBlock?_behind _h
    exact Nat.lt_of_le_of_lt h.length_le (by simp only [List.length_cons]; omega)
  · simp

/-- Layout is a part of the text in front of what is left. -/
theorem skip_behind (p : Place) : ∃ part, p.Behind part (skip p) := by
  fun_induction skip p with
  | case1 l rest ih =>
    obtain ⟨line, hline⟩ := afterLine_behind ((l.next '/').next '/') rest
    obtain ⟨part, hpart⟩ := ih
    exact ⟨_, .cons (.cons (hline.append hpart))⟩
  | case2 l rest q h ih =>
    obtain ⟨block, hblock⟩ := afterBlock?_behind h
    obtain ⟨part, hpart⟩ := ih
    exact ⟨_, .cons (.cons (hblock.append hpart))⟩
  | case3 | case5 | case6 => exact ⟨[], .nil _⟩
  | case4 l c rest _ _ _ ih =>
    obtain ⟨part, hpart⟩ := ih
    exact ⟨c :: part, .cons hpart⟩

end Wgsl.Layout
