import Wgsl.Proofs.Prefix.Grammar
import Wgsl.Proofs.Speculation.Staying

/-!
# Where nothing is taken

A nonterminal that is accepted where it begins, without having moved, is accepted there as well if
another token stands there that may follow it (`Nonterminal.restsBefore`). And none begins with a
split: at a closing angle it takes the whole token or nothing (`Nonterminal.leavesWhole`).
-/

namespace Wgsl

namespace Cursor

variable {c d e : Cursor}

private theorem measure_close_lt (h : c.current.kind.closesAngle) :
    c.close.measure < c.measure := by
  rw [close]
  split
  · rename_i hangle
    exact measure_advance_lt (by simp [hangle])
  · rename_i hne
    exact measure_split_lt ((TokenKind.closesAngle_iff.1 h).resolve_left hne)

/-- Between two places in one token, there are only places in it. -/
theorem Reaches.upcoming_eq (h : c.Reaches d) (h' : d.Reaches e)
    (hu : e.upcoming = c.upcoming) : d.upcoming = c.upcoming :=
  h.suffix.eq_of_length (Nat.le_antisymm h.suffix.length_le (hu ▸ h'.suffix.length_le))

end Cursor

namespace Nonterminal

/-- At a closing angle, the nonterminal leaves the token or stays before it. -/
def LeavesWhole (options : ReadOptions) (n : Nonterminal) (c : Cursor) : Prop :=
  c.current.kind.closesAngle → (n.outcome options c).cursor.upcoming = c.upcoming →
    (n.outcome options c).cursor = c

/-- What is accepted where it begins is accepted at another cursor, before what may follow. -/
def RestsBefore (options : ReadOptions) (c' : Cursor) (n : Nonterminal) (c : Cursor) : Prop :=
  n.IsRead → c'.current.kind ∈ n.followers →
    ∀ a, n.outcome options c = .accepted a c → n.outcome options c' = .accepted a c'

/-- What takes a token is not accepted where it begins. -/
theorem ne_of_takesToken {options : ReadOptions} {n : Nonterminal} {c : Cursor} {a : n.Result}
    (hn : n.takesToken) : n.outcome options c ≠ .accepted a c := by
  intro ho
  have hwithin := @outcome_within options n c
  rw [ho, hn] at hwithin
  simp at hwithin

end Nonterminal

namespace Rule

variable {options : ReadOptions} {α : Type} {F : List TokenKind} {Y : α → Prop}
variable {r : Production α} {c c' : Cursor} {seen : Option Token} {a : α}

/-- A rule that splits nothing off a closing angle has not moved if it ends in that token. -/
theorem Stays.cursor_eq (hr : r.Stays) (hc : c.current.kind.closesAngle)
    (ha : r.Along (fun n c => n.outcome options c) (Nonterminal.LeavesWhole options) c)
    (hu : (r.comesTo options c).cursor.upcoming = c.upcoming) :
    (r.comesTo options c).cursor = c := by
  induction r with
  | done b | fail e => rfl
  | look k ih => exact ih _ (hr _ hc) ha hu
  | lookBehind k ih => exact ih _ (hr _) ha hu
  | advance k ih =>
    have hsuffix := (outcome_reaches options k c.advance).suffix
    rw [Production.comesTo, follow] at hu
    rw [Production.comesTo, hu, Cursor.upcoming_advance] at hsuffix
    have hend : c.current.kind ≠ .endOfFile := by
      intro hend
      simp [hend, TokenKind.closesAngle] at hc
    have hne := Cursor.upcoming_ne_nil hend
    have := List.length_pos_iff.2 hne
    have := hsuffix.length_le
    rw [List.length_tail] at this
    omega
  | split k ih => exact hr.elim
  | read m k ih =>
    have hm := ha.1 hc
    have hreaches := m.outcome_reaches options c
    cases ho : m.outcome options c with
    | accepted b d =>
      rw [ho] at hm hreaches
      rw [Production.comesTo_read_of_accepted ho] at hu ⊢
      obtain rfl : d = c := hm (hreaches.upcoming_eq (outcome_reaches options (k b) d) hu)
      rcases hr with htakes | hk
      · exact absurd ho (Nonterminal.ne_of_takesToken htakes)
      · exact ih b (hk b) (ha.2 b d ho) hu
    | rejected e d =>
      rw [ho] at hm
      rw [Production.comesTo_read_of_rejected ho] at hu ⊢
      exact hm hu
  | attempt m k ih =>
    have hm := ha.1 hc
    have hreaches := m.outcome_reaches options c
    cases ho : m.outcome options c with
    | accepted b d =>
      rw [ho] at hm hreaches
      rw [Production.comesTo_attempt_of_accepted ho] at hu ⊢
      obtain rfl : d = c := hm (hreaches.upcoming_eq (outcome_reaches options (k (some b)) d) hu)
      exact ih _ (hr.1 b) (ha.2.1 b d ho) hu
    | rejected e d =>
      rw [Production.comesTo_attempt_of_rejected ho] at hu ⊢
      exact ih _ hr.2 (ha.2.2 e d ho) hu

/-- A rule that moves is not accepted where it begins, be it at the end of the file. -/
theorem Viable.ne (hr : r.Viable options F Y seen) (hmoves : r.Moves)
    (hseen : ∀ t ∈ seen, c.current = t) : r.comesTo options c ≠ .accepted a c := by
  by_cases hne : c.upcoming = []
  · intro ho
    induction r generalizing seen with
    | done b => exact hmoves
    | fail e => cases ho
    | look k ih => exact ih _ (hr.2 _ hseen) (hmoves _) (by simp) ho
    | lookBehind k ih => exact hr
    | advance k ih =>
      obtain ⟨t, w, ht, -, htame⟩ := hr.1
      have hend := (tame_cons.1 htame).1
      rw [← hseen t ht, Cursor.current, hne] at hend
      exact hend rfl
    | split k ih => exact hmoves
    | read m k ih =>
      cases hm : m.outcome options c with
      | accepted b d =>
        rw [Production.comesTo_read_of_accepted hm] at ho
        obtain rfl := eq_of_comesTo hm ho
        rcases hmoves with htakes | hk
        · exact Nonterminal.ne_of_takesToken htakes hm
        · exact ih b (hr.2.2.2.2 b) (hk b) (by simp) ho
      | rejected e d => simp [Production.comesTo_read_of_rejected hm] at ho
    | attempt m k ih => exact hr
  · exact hmoves.ne hne

/-- At a token that a rule departs from, it does not stay. -/
theorem Departs.ne (hd : r.Departs options c.current)
    (hr : r.Viable options F Y (some c.current)) : r.comesTo options c ≠ .accepted a c := by
  intro ho
  rcases hd with hmoves | ⟨hangle, k, rfl⟩ | ⟨hangle, b, hcloses⟩
  · exact hr.ne hmoves (by simp) ho
  · have hreaches := outcome_reaches options k c.split
    rw [Production.comesTo, follow] at ho
    rw [Production.comesTo, ho] at hreaches
    exact absurd hreaches.measure_le (Nat.not_le.2 (Cursor.measure_split_lt hangle))
  · have hlt := Cursor.measure_close_lt hangle
    rw [hcloses c hangle] at ho
    injection ho with _ hclose
    rw [hclose] at hlt
    exact Nat.lt_irrefl _ hlt

/-- A rule that can be completed, and has not moved, does the same before what may follow. -/
theorem Viable.restsBefore (hr : r.Viable options F Y seen) (hseen : ∀ t ∈ seen, c.current = t)
    (ha : r.Along (fun n c => n.outcome options c) (Nonterminal.RestsBefore options c') c)
    (hc' : c'.current.kind ∈ F) (ho : r.comesTo options c = .accepted a c) :
    r.comesTo options c' = .accepted a c' := by
  induction r generalizing seen with
  | done b => simpa [Production.comesTo] using ho
  | fail e => cases ho
  | look k ih =>
    have hk := hr.2 _ hseen
    rcases hr.1 c.current c'.current.kind hc' c'.current.location with hsame | hdeparts
    · have hsame : k c.current = k c'.current := hsame
      rw [Production.comesTo, follow, ← hsame]
      exact ih _ hk (by simp) ha ho
    · exact absurd ho (hdeparts.ne hk)
  | lookBehind k ih => exact hr.elim
  | advance k ih => exact absurd ho (hr.ne (r := .advance k) trivial hseen)
  | split k ih =>
    obtain ⟨t, ht, hangle⟩ := hr.1
    exact absurd ho (Departs.ne (r := .split k) (.inr (.inl ⟨hseen t ht ▸ hangle, k, rfl⟩))
      (hseen t ht ▸ ht ▸ hr))
  | read m k ih =>
    obtain ⟨hm, hF, -, -, hk⟩ := hr
    cases hread : m.outcome options c with
    | accepted b d =>
      rw [Production.comesTo_read_of_accepted hread] at ho
      obtain rfl := eq_of_comesTo hread ho
      rcases hF with hF | hmoves
      · rw [Production.comesTo_read_of_accepted (ha.1 hm (hF _ hc') b hread)]
        exact ih b (hk b) (by simp) (ha.2 b _ hread) ho
      · exact absurd ho ((hk b).ne (hmoves b) (by simp))
    | rejected e d => simp [Production.comesTo_read_of_rejected hread] at ho
  | attempt m k ih => exact hr.elim

end Rule

namespace Nonterminal

variable {options : ReadOptions}

/-- At a closing angle, every nonterminal leaves the token or stays before it. -/
theorem leavesWhole (options : ReadOptions) (n : Nonterminal) (c : Cursor) :
    n.LeavesWhole options c := by
  refine outcome_induction options (fun n c ha hc hu => ?_) n c
  rw [outcome_eq] at hu ⊢
  exact (Production.stays options n).cursor_eq hc ha hu

/-- What is accepted where it begins is accepted so before whatever may follow it. -/
theorem restsBefore (options : ReadOptions) (c' : Cursor) (n : Nonterminal) (c : Cursor) :
    n.RestsBefore options c' c := by
  refine outcome_induction options (fun n c ha hn hc' a ho => ?_) n c
  by_cases hprimary : n = .primary
  · subst hprimary
    exact absurd ho (ne_of_takesToken rfl)
  · rw [outcome_eq] at ho ⊢
    exact ((Production.viable options hn hprimary).viable none).restsBefore (by simp) ha hc' ho

/-- What has been read from one token at least is known to be of a kind. -/
theorem yields_of_ne {n : Nonterminal} {c d : Cursor} {a : n.Result}
    (ho : n.outcome options c = .accepted a d) (hne : c ≠ d) : n.Yields a := by
  cases n with
  | initializer kind =>
    rw [outcome_eq] at ho
    simp only [Production.ofNonterminal, Production.initializer, Rule.follow_steps,
      Rule.follow_ite] at ho
    by_cases hequal : c.current.kind = .symbol .equal
    · cases hvalue : (expression false).outcome options c.advance <;>
        simp [hequal, hvalue] at ho
      simp [← ho.1]
    · by_cases hkind : kind = .let ∨ kind = .const
      · simp [hequal, hkind] at ho
      · simp only [hequal, ↓reduceIte, hkind, Outcome.accepted_bind, Bool.false_eq_true,
          Outcome.accepted.injEq] at ho
        exact absurd ho.2 hne
  | _ => trivial

end Nonterminal

end Wgsl
