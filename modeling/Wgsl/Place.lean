import Wgsl.Location

/-!
# Places in a text

A text is read from its beginning, and what has been read is not kept. What is kept is a place: the
location reached, and the text from there on.

`Place.Behind` says what makes the two agree: the place is behind a part of a text if the part
makes up the text together with what is left, and the location is where the part ends. Parts that
are read one behind the other make up one part (`Place.Behind.append`).
-/

namespace Wgsl

/-- A location in a text, with the text from there on. -/
structure Place where
  location : Location
  text : List Char
deriving DecidableEq, Inhabited

namespace Place

/-- The place where a source text begins. -/
def ofSource (source : String) : Place := ⟨.start, source.toList⟩

/-- The second place is behind a part of the text at the first. -/
structure Behind (p : Place) (part : List Char) (q : Place) : Prop where
  text_eq : part ++ q.text = p.text
  location_eq : q.location = p.location.after part

namespace Behind

/-- Every place is behind nothing. -/
theorem nil (p : Place) : p.Behind [] p := ⟨rfl, rfl⟩

/-- Texts that follow each other. -/
theorem append {p q r : Place} {a b : List Char} (hp : p.Behind a q) (hq : q.Behind b r) :
    p.Behind (a ++ b) r := by
  refine ⟨?_, ?_⟩
  · rw [List.append_assoc, hq.text_eq, hp.text_eq]
  · rw [hq.location_eq, hp.location_eq, Location.after_append]

/-- One character more in front. -/
theorem cons {l : Location} {c : Char} {text part : List Char} {q : Place}
    (h : Behind ⟨l.next c, text⟩ part q) : Behind ⟨l, c :: text⟩ (c :: part) q :=
  ⟨congrArg (c :: ·) h.text_eq, h.location_eq⟩

/-- Behind a part no more text is left. -/
theorem length_le {p q : Place} {part : List Char} (h : p.Behind part q) :
    q.text.length ≤ p.text.length := by
  rw [← h.text_eq, List.length_append]
  exact Nat.le_add_left _ _

end Behind

end Place

end Wgsl
