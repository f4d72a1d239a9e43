import Wgsl.Proofs.Prefix.Resting

/-!
# Where reading stops

A reader that is refused has read some tokens, and stands before the next one or inside of it,
behind the closing angles that have been split off it. To complete what it has read, other tokens
are put there: first the angles that were split off, as a token of their own (`Cursor.splitOff`,
`Cursor.Reaches.text_splitOff`), and then what completes the rest.

So there are two readers, which read the same tokens up to the break (`Break`). From there on they
correspond as long as they split off closing angles (`Cursor.Corresponds`): a rule that is accepted
there closes one more angle or has not moved, and so it does the same before both
(`Break.accepted_closed`).
-/

namespace Wgsl

/-- A token that a closing angle is split off is spelled by the angle and by what is left. -/
theorem Token.text_of_afterAngle? {t u : Token} (h : t.afterAngle? = some u) :
    t.text = ">" ++ u.text := by
  obtain ⟨mark, left, hmark, hleft, rfl⟩ := Token.afterAngle?_eq_some_iff.1 h
  rw [Token.text, hmark]
  cases mark <;> cases hleft <;> rfl

namespace Cursor

/-- Closing one of several angles is splitting. -/
theorem close_of_afterAngle {c : Cursor} (h : c.current.afterAngle?.isSome) :
    c.close = c.split := by
  obtain ⟨u, hu⟩ := Option.isSome_iff_exists.1 h
  obtain ⟨mark, left, hmark, hleft, -⟩ := Token.afterAngle?_eq_some_iff.1 hu
  refine if_neg fun hangle => ?_
  cases hmark.symm.trans hangle
  cases hleft

/-- The cursor before tokens, behind a number of closing angles. -/
def closed (ts : List Token) (l : Location) : Nat → Cursor
  | 0 => before ts l
  | count + 1 => (closed ts l count).close

end Cursor

/-- Reading stops behind the first tokens and a number of closing angles that can be split off what
follows them. Where other tokens are put there, the angles are a token of their own. -/
structure Break (us ts angles : List Token) (count : Nat) (l : Location) : Prop where
  /-- The angles are split off the token at the break. -/
  split : ∀ j < count, (Cursor.closed ts l j).current.afterAngle?.isSome
  /-- The other reader stands before as many. -/
  angle : ∀ xs, ∀ j < count, (Cursor.closed (angles ++ xs) l j).current.kind ∈ TokenKind.angles
  /-- Behind them, it stands before the tokens that are put there. -/
  behind : ∀ xs, Cursor.closed (angles ++ xs) l count = .before xs l
  single : angles = [] ∨ ∃ mark l, angles = [⟨.symbol mark, l⟩] ∧ mark ≠ .parenLeft
  /-- The number of arguments of a bitcast is refused behind the last one. -/
  unnamed : ∀ t ∈ us, t.kind ≠ .identifier "bitcast"

namespace Break

variable {us ts angles : List Token} {count : Nat} {l : Location} {i j : Nat} {d e : Cursor}
variable (h : Break us ts angles count l)

include h

/-- As long as angles are left, one closes. -/
theorem closesAngle (hj : j < count) : (Cursor.closed ts l j).current.kind.closesAngle :=
  TokenKind.closesAngle_iff.2 (.inr (h.split j hj))

/-- Angles are closed one by one. -/
theorem closed_succ (hj : j < count) : Cursor.closed ts l (j + 1) = (Cursor.closed ts l j).split :=
  Cursor.close_of_afterAngle (h.split j hj)

/-- Closing angles of one token leaves the token upcoming. -/
theorem upcoming_closed (hj : j ≤ count) : (Cursor.closed ts l j).upcoming = ts := by
  induction j with
  | zero => rfl
  | succ j ih => rw [h.closed_succ hj, Cursor.upcoming_split, ih (Nat.le_of_succ_le hj)]

/-- More closed angles are reached from fewer. -/
theorem closed_reaches (hij : i ≤ j) (hj : j ≤ count) :
    (Cursor.closed ts l i).Reaches (Cursor.closed ts l j) := by
  induction hij with
  | refl => exact .refl _
  | @step j _ ih =>
    rw [h.closed_succ hj]
    exact (ih (Nat.le_of_succ_le hj)).split

/-- More closed angles measure less. -/
theorem measure_lt (hij : i < j) (hj : j ≤ count) :
    (Cursor.closed ts l j).measure < (Cursor.closed ts l i).measure := by
  have hi := hij.trans_le hj
  have hnext := Cursor.measure_split_lt (h.split i hi)
  rw [← h.closed_succ hi] at hnext
  exact (h.closed_reaches hij hj).measure_le.trans_lt hnext

/-- So it is known how many angles are closed. -/
theorem closed_inj (hi : i ≤ count) (hj : j ≤ count)
    (heq : Cursor.closed ts l i = Cursor.closed ts l j) : i = j := by
  rcases Nat.lt_trichotomy i j with hlt | hij | hlt
  · exact absurd (h.measure_lt hlt hj) (by rw [heq]; exact Nat.lt_irrefl _)
  · exact hij
  · exact absurd (h.measure_lt hlt hi) (by rw [heq]; exact Nat.lt_irrefl _)

/-- Where nothing has been split off, no angles are a token of their own. -/
theorem angles_eq_nil (hcount : count = 0) : angles = [] := by
  subst hcount
  have hbefore := congrArg Cursor.upcoming (h.behind [])
  simpa [Cursor.closed, Cursor.before] using hbefore

/-- What is reached from behind the first tokens, up to the break, stands behind some of the closing
angles. -/
theorem exists_closed (hd : (Cursor.before ts l).Reaches d) (hj : j ≤ count)
    (hbreak : d.Reaches (Cursor.closed ts l j)) : ∃ i ≤ j, d = Cursor.closed ts l i := by
  induction j with
  | zero => exact ⟨0, Nat.le_refl 0, hbreak.antisymm hd⟩
  | succ j ih =>
    have hj' := Nat.le_of_succ_le hj
    rcases hd.total (h.closed_reaches (Nat.zero_le j) hj') with hback | hon
    · obtain ⟨i, hi, rfl⟩ := ih hj' hback
      exact ⟨i, Nat.le_succ_of_le hi, rfl⟩
    · rcases hon.eq_or_split with rfl | hon
      · exact ⟨j, Nat.le_succ j, rfl⟩
      · rw [← h.closed_succ hj] at hon
        exact ⟨j + 1, Nat.le_refl _, hbreak.antisymm hon⟩

/-- What is reached up to the break leaves some of the first tokens or stands behind some of the
closing angles. -/
theorem place {c : Cursor} (hd : (c.append ts l).Reaches d)
    (hbreak : d.Reaches (Cursor.closed ts l count)) :
    (∃ e, d = e.append ts l ∧ e.upcoming ≠ [] ∧ c.Reaches e) ∨
      ∃ i ≤ count, d = Cursor.closed ts l i := by
  by_cases hlt : ts.length < d.upcoming.length
  · exact .inl (hd.exists_append hlt)
  · exact .inr (h.exists_closed (hd.of_before (Nat.le_of_not_lt hlt)) (Nat.le_refl _) hbreak)

/-- Before the break, no rule that keeps its first token whole comes to it. -/
theorem eq_of_stays {options : ReadOptions} {α : Type} {r : Production α} (hr : r.Stays)
    (hi : i ≤ count) (hj : j ≤ count)
    (ho : (r.comesTo options (Cursor.closed ts l i)).cursor = Cursor.closed ts l j) : i = j := by
  rcases Nat.lt_or_eq_of_le hi with hlt | rfl
  · refine h.closed_inj hi hj ?_
    rw [← ho]
    refine (hr.cursor_eq (h.closesAngle hlt) (Rule.along_of_forall
      (Nonterminal.leavesWhole options) r _) ?_).symm
    rw [ho, h.upcoming_closed hj, h.upcoming_closed hi]
  · have hreaches := Rule.outcome_reaches options r (Cursor.closed ts l i)
    rw [ho] at hreaches
    exact h.closed_inj hi hj (hreaches.antisymm (h.closed_reaches hj (Nat.le_refl i)))

/-- Nothing is refused at the break that begins at a closing angle before it. -/
theorem eq_of_rejected {options : ReadOptions} {α : Type} {r : Production α} {e : ParseError}
    (hr : r.Stays ∨ r.Closes options) (hi : i ≤ count)
    (ho : r.comesTo options (Cursor.closed ts l i) = .rejected e (Cursor.closed ts l count)) :
    i = count := by
  rcases hr with hstays | ⟨a, hcloses⟩
  · exact h.eq_of_stays hstays hi (Nat.le_refl count) (congrArg Outcome.cursor ho)
  · refine (Nat.lt_or_eq_of_le hi).resolve_left fun hlt => ?_
    rw [hcloses _ (h.closesAngle hlt)] at ho
    cases ho

end Break

/-- Two readers stand at the same place, the one before some tokens and the other before others: at
one of the first tokens, or behind as many closing angles, the other before what may follow. -/
inductive Cursor.Corresponds (ts xs : List Token) (l : Location) (count : Nat)
    (F : List TokenKind) : Cursor → Cursor → Prop
  | within {d : Cursor} (hd : d.upcoming ≠ []) :
    Cursor.Corresponds ts xs l count F (d.append ts l) (d.append xs l)
  | behind {j : Nat} (hj : j ≤ count) (hF : (Cursor.closed xs l j).current.kind ∈ F) :
    Cursor.Corresponds ts xs l count F (Cursor.closed ts l j) (Cursor.closed xs l j)

namespace Cursor.Corresponds

variable {us ts xs angles : List Token} {count : Nat} {l : Location} {F : List TokenKind}
variable {c d d' : Cursor} {i : Nat}

/-- Before the break, where the angles are closed is reached. -/
theorem reaches (hd : Cursor.Corresponds ts xs l count F d d')
    (h : Break us ts angles count l) : d.Reaches (Cursor.closed ts l count) := by
  cases hd with
  | @within d hd =>
    exact (d.reaches_before ts l).trans (h.closed_reaches (Nat.zero_le _) (Nat.le_refl _))
  | behind hj hF => exact h.closed_reaches hj (Nat.le_refl _)

/-- Before one of the first tokens, the other reader stands there, too. -/
theorem eq_append (hd : Cursor.Corresponds ts xs l count F (c.append ts l) d')
    (h : Break us ts angles count l) (hc : c.upcoming ≠ []) : d' = c.append xs l := by
  generalize he : c.append ts l = e at hd
  cases hd with
  | within hd => exact (Cursor.append_congr xs he).symm
  | behind hj hF =>
    have hlength := Cursor.length_lt_append ts l hc
    rw [he, h.upcoming_closed hj] at hlength
    exact absurd hlength (Nat.lt_irrefl _)

/-- Behind closing angles, the other reader is behind as many. -/
theorem exists_closed (hd : Cursor.Corresponds ts xs l count F d d')
    (h : Break us ts angles count l) (hi : i ≤ count)
    (hreaches : (Cursor.closed ts l i).Reaches d) :
    ∃ j ≤ count, i ≤ j ∧ d = Cursor.closed ts l j ∧ d' = Cursor.closed xs l j ∧
      (Cursor.closed xs l j).current.kind ∈ F := by
  cases hd with
  | within hd =>
    have hlength := hreaches.suffix.length_le
    rw [h.upcoming_closed hi] at hlength
    exact absurd (Cursor.length_lt_append ts l hd) (Nat.not_lt.2 hlength)
  | @behind j hj hF =>
    refine ⟨j, hj, Nat.le_of_not_lt fun hlt => ?_, rfl, rfl, hF⟩
    exact absurd hreaches.measure_le (Nat.not_le.2 (h.measure_lt hlt hi))

end Cursor.Corresponds

namespace Break

variable {us ts xs angles : List Token} {count : Nat} {l : Location} {F : List TokenKind}
variable {options : ReadOptions} {α : Type} {Y : α → Prop} {k : Production α} {a : α}
variable {d d' : Cursor} {i j : Nat}
variable (h : Break us ts angles count l)

include h

/-- From behind some closing angles on, a rule that closes at most one more does the same before the
other tokens. -/
theorem accepted_closed (hk : k.Viable options F Y none) (hbehind : k.Stays ∨ k.Closes options)
    (hi : i ≤ count) (hj : j ≤ count)
    (hF : (Cursor.closed (angles ++ xs) l j).current.kind ∈ F)
    (ho : k.comesTo options (Cursor.closed ts l i) = .accepted a (Cursor.closed ts l j)) :
    k.comesTo options (Cursor.closed (angles ++ xs) l i) =
      .accepted a (Cursor.closed (angles ++ xs) l j) := by
  by_cases hij : i = j
  · subst hij
    exact hk.restsBefore (by simp)
      (Rule.along_of_forall (Nonterminal.restsBefore options _) k _) hF ho
  · have hlt : i < count := by
      refine Nat.lt_of_le_of_ne hi fun heq => hij ?_
      have hreaches := Rule.outcome_reaches options k (Cursor.closed ts l i)
      rw [ho] at hreaches
      subst heq
      exact h.closed_inj hi hj (hreaches.antisymm (h.closed_reaches hj (Nat.le_refl i)))
    rcases hbehind with hstays | ⟨b, hcloses⟩
    · exact absurd (h.eq_of_stays hstays hi hj (congrArg Outcome.cursor ho)) hij
    · rw [hcloses _ (h.closesAngle hlt)] at ho
      injection ho with hb hclose
      obtain rfl : i + 1 = j := h.closed_inj hlt hj hclose
      have hangle : (Cursor.closed (angles ++ xs) l i).current.kind.closesAngle := by
        have hmem := h.angle xs i hlt
        simp only [List.mem_cons, List.not_mem_nil, or_false] at hmem
        rcases hmem with hkind | hkind <;> rw [hkind] <;> rfl
      rw [hcloses _ hangle, hb]
      rfl

end Break

/-! ## What has been split off -/

namespace Cursor

variable {c d : Cursor} {l : Location}

/-- The closing angles that have been split off the token to be read, as a token. -/
def splitOff (c : Cursor) : List Token :=
  match c.upcoming, c.taken with
  | t :: _, 1 => [⟨.symbol .greaterThan, t.location⟩]
  | t :: _, 2 => [⟨.symbol .shiftRight, t.location⟩]
  | _, _ => []

/-- A cursor that is reached stands in its token behind as many closing angles as have been split
off. -/
theorem Reaches.eq_closed {us : List Token} (h : (before us l).Reaches c) :
    c = closed c.upcoming l c.taken ∧
      ∀ j < c.taken, (closed c.upcoming l j).current.afterAngle?.isSome := by
  have hfinish := h.finish_eq
  induction h with
  | refl => exact ⟨rfl, fun j hj => absurd hj (Nat.not_lt_zero j)⟩
  | @tail b _ hreach hmove ih =>
    obtain ⟨hb, hsplit⟩ := ih (Reaches.finish_eq hreach)
    rcases hmove with rfl | rfl
    · by_cases hne : b.upcoming = []
      · rw [advance_of_nil hne]
        exact ⟨hb, hsplit⟩
      · obtain ⟨t, rest, hu⟩ := List.exists_cons_of_ne_nil hne
        have hnext : b.advance = before rest l := by
          rw [finish_advance] at hfinish
          simp [Cursor.advance, hu, before, hfinish]
        rw [hnext]
        exact ⟨rfl, fun j hj => absurd hj (Nat.not_lt_zero j)⟩
    · rw [Cursor.split]
      split
      · rename_i hmore
        have hclosed : closed b.upcoming l b.taken = b := hb.symm
        refine ⟨?_, fun j hj => ?_⟩
        · rw [closed, hclosed, close_of_afterAngle hmore.2, Cursor.split, dif_pos hmore]
        · rcases Nat.lt_succ_iff_lt_or_eq.1 hj with hlt | rfl
          · exact hsplit j hlt
          · rw [hclosed]
            exact hmore.2
      · exact ⟨hb, hsplit⟩

/-- The angles, and what is left of the token, spell it. -/
theorem Reaches.text_splitOff {us rest : List Token} {t : Token} (h : (before us l).Reaches c)
    (hc : c.upcoming = t :: rest) :
    String.join (c.splitOff.map Token.text) ++ c.current.text = t.text := by
  have hmore := h.eq_closed.2
  rw [hc] at hmore
  obtain ⟨upcoming, taken, finish, htaken⟩ := c
  obtain rfl : upcoming = t :: rest := hc
  match taken, htaken, hmore with
  | 0, _, _ => exact String.empty_append
  | 1, _, hmore =>
    obtain ⟨u, hu⟩ := Option.isSome_iff_exists.1 (hmore 0 Nat.zero_lt_one)
    have hu : t.afterAngle? = some u := hu
    show ">" ++ (t.afterAngle?.getD t).text = t.text
    rw [hu, Option.getD_some, Token.text_of_afterAngle? hu]
  | 2, _, hmore =>
    obtain ⟨u, hu⟩ := Option.isSome_iff_exists.1 (hmore 0 Nat.zero_lt_two)
    obtain ⟨v, hv⟩ := Option.isSome_iff_exists.1 (hmore 1 Nat.one_lt_two)
    rw [closed, close_of_afterAngle (hmore 0 Nat.zero_lt_two), current_split hu] at hv
    have hu : t.afterAngle? = some u := hu
    have hleft : t.afterAngles 2 = v := by
      rw [Token.afterAngles, Token.afterAngles, Token.afterAngles, hu, Option.getD_some, hv,
        Option.getD_some]
    show ">>" ++ (t.afterAngles 2).text = t.text
    rw [hleft, Token.text_of_afterAngle? hu, Token.text_of_afterAngle? hv]
    rfl

/-- Nothing, one angle or two have been split off. -/
theorem Reaches.splitOff_cases {us : List Token} (h : (before us l).Reaches c) :
    c.taken = 0 ∧ c.splitOff = [] ∨
      (∃ l', c.taken = 1 ∧ c.splitOff = [⟨.symbol .greaterThan, l'⟩]) ∨
        ∃ l', c.taken = 2 ∧ c.splitOff = [⟨.symbol .shiftRight, l'⟩] := by
  have hmore := h.eq_closed.2
  obtain ⟨upcoming, taken, finish, htaken⟩ := c
  cases upcoming with
  | nil =>
    cases taken with
    | zero => exact .inl ⟨rfl, rfl⟩
    | succ taken => exact absurd (hmore 0 (Nat.succ_pos taken)) Bool.false_ne_true
  | cons t rest =>
    match taken, htaken with
    | 0, _ => exact .inl ⟨rfl, rfl⟩
    | 1, _ => exact .inr (.inl ⟨t.location, rfl, rfl⟩)
    | 2, _ => exact .inr (.inr ⟨t.location, rfl, rfl⟩)

/-- Where reading stops, there is a break. -/
theorem Reaches.toBreak {us done : List Token} (h : (before us l).Reaches c)
    (hdone : ∀ t ∈ done, t.kind ≠ .identifier "bitcast") :
    Break done c.upcoming c.splitOff c.taken l where
  split := h.eq_closed.2
  unnamed := hdone
  single := by
    rcases h.splitOff_cases with ⟨-, hoff⟩ | ⟨l', -, hoff⟩ | ⟨l', -, hoff⟩
    · exact .inl hoff
    · exact .inr ⟨_, l', hoff, by simp⟩
    · exact .inr ⟨_, l', hoff, by simp⟩
  behind xs := by
    rcases h.splitOff_cases with ⟨htaken, hoff⟩ | ⟨l', htaken, hoff⟩ | ⟨l', htaken, hoff⟩ <;>
      rw [htaken, hoff] <;> rfl
  angle xs j hj := by
    rcases h.splitOff_cases with ⟨htaken, hoff⟩ | ⟨l', htaken, hoff⟩ | ⟨l', htaken, hoff⟩ <;>
      rw [hoff] <;> rw [htaken] at hj
    · exact absurd hj (Nat.not_lt_zero j)
    · obtain rfl : j = 0 := by omega
      exact List.mem_cons_self
    · obtain rfl | rfl : j = 0 ∨ j = 1 := by omega
      · exact List.mem_cons_of_mem _ List.mem_cons_self
      · exact List.mem_cons_self

end Cursor

end Wgsl
