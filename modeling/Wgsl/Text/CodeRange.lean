/-!
# Ranges of code points

A character class beyond ASCII is a table: closed ranges of code points in ascending order.
`covers` looks a code point up. It stops at the first range that begins above the code point,
so the order of the table is part of its meaning: `covers_iff` holds of a table that is
`ascending`, which each table shows of itself.
-/

namespace Wgsl.Text

/-- The code point lies in one of the ranges of an ascending table. -/
def covers : List (Nat × Nat) → Nat → Bool
  | [], _ => false
  | (first, last) :: ranges, code =>
    if code < first then false else code ≤ last || covers ranges code

/-- The ranges are nonempty, and each ends before the next begins, from the given code point on. -/
def ascending (lowest : Nat) : List (Nat × Nat) → Bool
  | [] => true
  | (first, last) :: ranges => lowest ≤ first && first ≤ last && ascending (last + 1) ranges

/-- Every range of an ascending table begins at or above its lowest code point. -/
theorem le_first_of_ascending {lowest : Nat} {ranges : List (Nat × Nat)}
    (h : ascending lowest ranges = true) : ∀ r ∈ ranges, lowest ≤ r.1 := by
  induction ranges generalizing lowest with
  | nil => simp
  | cons r ranges ih =>
    simp only [ascending, Bool.and_eq_true, decide_eq_true_eq] at h
    intro r' hr'
    cases hr' with
    | head => exact h.1.1
    | tail _ hr' => have := ih h.2 r' hr'; omega

/-- In an ascending table, being covered is lying in a range. -/
theorem covers_iff {lowest : Nat} {ranges : List (Nat × Nat)}
    (h : ascending lowest ranges = true) (code : Nat) :
    covers ranges code = true ↔ ∃ r ∈ ranges, r.1 ≤ code ∧ code ≤ r.2 := by
  induction ranges generalizing lowest with
  | nil => simp [covers]
  | cons r ranges ih =>
    obtain ⟨first, last⟩ := r
    simp only [ascending, Bool.and_eq_true, decide_eq_true_eq] at h
    have above := le_first_of_ascending h.2
    by_cases hc : code < first
    · simp only [covers, if_pos hc, Bool.false_eq_true, false_iff]
      rintro ⟨r, hr, h₁, h₂⟩
      cases hr with
      | head => simp only at h₁; omega
      | tail _ hr => have := above r hr; omega
    · simp only [covers, if_neg hc, Bool.or_eq_true, decide_eq_true_eq, ih h.2]
      constructor
      · rintro (h₁ | ⟨r, hr, h₁⟩)
        · exact ⟨_, .head _, by simp only; omega, h₁⟩
        · exact ⟨r, .tail _ hr, h₁⟩
      · rintro ⟨r, hr, h₁, h₂⟩
        cases hr with
        | head => exact .inl h₂
        | tail _ hr => exact .inr ⟨r, hr, h₁, h₂⟩

end Wgsl.Text
