import Wgsl.Proofs.Redundant.Filling

/-!
# Without the parentheses

Tokens may lead to an expression in parentheses (`Enclosure.Led`). What begins among them and ends
behind the `(` also reads without the parentheses (`Nonterminal.outcome_plain`), up to the same
place. A rule goes behind the last of the tokens in one step: either it advances there, and what
remains of it fills the place of the expression, or it reads something that does, and goes on behind
a value of the same aspect.

The one difference there is stays inside of the token behind the expression. Where the expression is
not read in angle brackets, a `>` may end it in parentheses and go on with it without them, so only
readings that do not end inside of this token are compared (`Enclosure.Outside`).
-/

namespace Wgsl

namespace Cursor

variable {c d : Cursor}

/-- What was split off a token was split off one that can be split. -/
def Sound (c : Cursor) : Prop :=
  c.taken ≠ 0 → ∃ t rest, c.upcoming = t :: rest ∧ t.afterAngle?.isSome

/-- What is split off is split off a token that can be split. -/
theorem Sound.split (h : c.Sound) : c.split.Sound := by
  rw [Cursor.split]
  split
  · rename_i hsplit
    intro _
    by_cases htaken : c.taken = 0
    · obtain ⟨mark, left, hmark, -, -⟩ := Token.afterAngle?_eq_some_iff.1
        (Option.some_get hsplit.2).symm
      obtain ⟨t, rest, hu, hcurrent⟩ := exists_upcoming_eq_cons (c := c) (by simp [hmark])
      refine ⟨t, rest, hu, ?_⟩
      rw [htaken] at hcurrent
      exact (show c.current = t from hcurrent) ▸ hsplit.2
    · exact h htaken
  · exact h

/-- What is reached from a whole token is sound. -/
theorem Reaches.sound (h : c.Reaches d) (hc : c.taken = 0) : d.Sound := by
  induction h with
  | refl => exact fun hne => absurd hc hne
  | @tail b _ _ hmove ih =>
    rcases hmove with rfl | rfl
    · rw [Cursor.advance]
      split
      · exact ih
      · exact fun hne => absurd rfl hne
    · exact ih.split

/-- Inside of a token that is no operator, what is left of it closes no more than one angle. -/
theorem Sound.kind_of_taken (h : c.Sound) (hc : c.taken ≠ 0)
    (hoperator : ∀ t ∈ c.upcoming.head?, t.kind.infix? = none) :
    c.current.kind = .symbol .greaterThanEqual ∨ c.current.kind = .symbol .equal := by
  obtain ⟨t, rest, hu, hsplit⟩ := h hc
  have hnone := hoperator t (by simp [hu])
  have hle := c.taken_le
  obtain ⟨mark, left, hmark, hleft, -⟩ := Token.afterAngle?_eq_some_iff.1
    (Option.some_get hsplit).symm
  have hcurrent : c.current = t.afterAngles c.taken := by rw [current, hu]
  rw [hcurrent]
  obtain ⟨kind, at_⟩ := t
  subst hmark
  rcases (by omega : c.taken = 1 ∨ c.taken = 2) with htaken | htaken <;> rw [htaken] <;>
    cases mark <;> simp [Symbol.afterAngle?] at hleft <;>
    simp [TokenKind.infix?, InfixOperator.ofSymbol?] at hnone <;>
    simp [Token.afterAngles, Token.afterAngle?, Symbol.afterAngle?]

end Cursor

variable {options : ReadOptions} {l : Location} {us : List Token} {n : Nonterminal} {c : Cursor}

namespace Enclosure

variable (E : Enclosure options l) {t : Token}

/-- The tokens end with one that leads to the expression. -/
structure Led (us : List Token) (t : Token) : Prop where
  last : us.getLast? = some t
  leads : t.kind.leads = true
  reserved : t.kind.isReserved = true → ∀ u, [u, t] <:+ us → u.kind.bindsName = false
  comma : t.kind = .symbol .comma → E.Lists

variable {E}

namespace Led

/-- The tokens before the value do not end with a name. -/
theorem parted (h : E.Led us t) (ts : List Token) : Cursor.Parted us ts l := by
  intro u hu hname
  obtain rfl : t = u := Option.some.inj (h.last.symm.trans hu)
  obtain ⟨name, hname⟩ := TokenKind.isName_iff.1 hname
  have := h.leads
  simp [hname] at this

/-- The last of the tokens, or what is left of it. -/
theorem of_last (h : E.Led us t) (hc : c.upcoming <:+ us) (hne : c.upcoming ≠ [])
    (hlast : c.advance.upcoming = []) :
    c.current.kind.leads = true ∧ (c.current.kind.isReserved = true → c.Fresh us) ∧
      (c.current.kind = .symbol .comma → E.Lists) := by
  obtain ⟨u, hu, hupcoming⟩ := Cursor.last_of_advance hc hne hlast
  obtain rfl : t = u := Option.some.inj (h.last.symm.trans hu)
  have hcurrent : c.current = t.afterAngles c.taken := by rw [Cursor.current, hupcoming]
  refine ⟨by rw [hcurrent, Token.leads_afterAngles, h.leads], fun hreserved => ?_,
    fun hcomma => ?_⟩
  · rcases t.afterAngles_eq_or c.taken with hsame | hleft
    · rw [hcurrent, hsame] at hreserved
      intro v hv
      rw [hupcoming] at hv
      exact h.reserved hreserved v hv
    · rw [← hcurrent] at hleft
      revert hreserved
      simp only [List.mem_cons, List.not_mem_nil, or_false] at hleft
      rcases hleft with hleft | hleft | hleft <;> simp [hleft]
  · rcases t.afterAngles_eq_or c.taken with hsame | hleft
    · exact h.comma (by rwa [hcurrent, hsame] at hcomma)
    · rw [← hcurrent, hcomma] at hleft
      simp at hleft

end Led

/-- Inside of the token behind the expression, where that is not read in angle brackets, angles are
closed no more. -/
theorem kind_of_not_outside (hc : c.Sound) (hangles : E.inAngles = false)
    (hu : c.upcoming = E.rest) (htaken : c.taken ≠ 0) :
    c.current.kind = .symbol .greaterThanEqual ∨ c.current.kind = .symbol .equal := by
  refine hc.kind_of_taken htaken fun t ht => ?_
  have hends := E.ends_rest
  rw [hangles] at hends
  have hnone : E.atRest.current.kind.infix? = none := hends.resolve_right nofun
  rw [hu] at ht
  obtain ⟨u, rest, hrest⟩ := List.exists_cons_of_ne_nil E.rest_ne_nil
  rw [hrest, List.head?_cons, Option.mem_some_iff] at ht
  subst ht
  have hu : E.atRest.current = u := by rw [Bracketing.atRest, hrest, Cursor.current_before]
  rwa [hu] at hnone

end Enclosure

/-- What is read up to some place behind the parentheses is read without them. -/
def Nonterminal.ReadsPlain (E : Enclosure options l) (us : List Token) (n : Nonterminal)
    (e : Cursor) : Prop :=
  ∀ c : Cursor, e = c.append E.enclosed l → n.inExpression = true → c.upcoming ≠ [] →
    (Cursor.before us l).Reaches c → c.Fresh us → c.Agrees options us E.plain E.enclosed l →
    ∀ (a : n.Result) (d : Cursor), d.upcoming.length ≤ E.enclosed.length → E.Outside d →
      n.outcome options (c.append E.enclosed l) = .accepted a d →
      ∃ b, n.outcome options (c.append E.plain l) = .accepted b d ∧ n.aspect b = n.aspect a

namespace Rule

variable {α : Type} {r r' : Production α} {R : α → α → Prop} {s : Stand} {a : α} {d e : Cursor}
variable {E : Enclosure options l} {t : Token}

/-- What remains of a rule that is its own twin is its own twin. -/
theorem Twins.remains (hr : r.Twins R r) (h : r'.Remains options d r c) : r'.Twins R r' := by
  induction h with
  | here => exact hr
  | look _ ih | lookBehind _ ih => exact ih (hr _)
  | advance _ ih | split _ ih => exact ih hr
  | read _ _ ih => exact ih (hr.2 _ _ rfl)
  | take _ _ ih => exact ih (hr.2.1 _ _ rfl)
  | refuse _ _ ih => exact ih hr.2.2

/-- What is read across the `(` ends outside of the token behind the expression, if what goes on
from there does. -/
theorem outside_of_outcome {m : Nonterminal} (hm : m.inExpression = true)
    (hc : (Cursor.before us l).Reaches c) (hne : c.upcoming ≠ []) {b : m.Result}
    (hb : m.outcome options (c.append E.enclosed l) = .accepted b e)
    (he : e.upcoming.length ≤ E.enclosed.length) (hsticks : m.endsInside = true → r.Sticks options)
    (ho : r.comesTo options e = .accepted a d) (hd : E.Outside d) : E.Outside e := by
  have hsound : e.Sound := by
    have hreaches := m.outcome_reaches options (c.append E.enclosed l)
    rw [hb] at hreaches
    refine ((hc.append hne).trans hreaches).sound ?_
    rw [Cursor.before_append]
    rfl
  have hsettles : e.Settles (us ++ E.enclosed) m.endsInside := by
    refine (m.outcome_settles hm (Cursor.suffix_append hc.suffix) hb).resolve_left fun h => ?_
    have hlt := Cursor.length_lt_append E.enclosed l hne
    rw [← h.2] at hlt
    omega
  intro hangles hu
  by_contra htaken
  have hkind := E.kind_of_not_outside hsound hangles hu htaken
  have hparen : e.current.kind ≠ .symbol .parenLeft := by
    rcases hkind with hkind | hkind <;> simp [hkind]
  cases hinside : m.endsInside with
  | false => exact hparen (hsettles.whole hinside htaken)
  | true =>
    rcases hsticks hinside e hkind a d ho with rfl | rfl
    · exact htaken (hd hangles hu)
    · have hzero := hd hangles ((Cursor.upcoming_split e).trans hu)
      rw [Cursor.split] at hzero
      split at hzero
      · cases hzero
      · exact htaken hzero

/-- A rule leaves the tokens before the `(` in one step. Up to it the same remains of the rule
without the parentheses, and what goes on from there goes on alike. -/
theorem Names.outcome_plain (hled : E.Led us t) (hr : r.Names options n s)
    (hn : n.inExpression = true) (hanswers : r.Always (Answers E R) s.seen) (htwins : r.Twins R r)
    (ha : r.Along (fun n c => n.outcome options c) (Nonterminal.ReadsPlain E us)
      (c.append E.enclosed l))
    (hs : s.Holds options (us ++ E.enclosed) (c.append E.enclosed l)) (hne : c.upcoming ≠ [])
    (hc : (Cursor.before us l).Reaches c) (hagrees : c.Agrees options us E.plain E.enclosed l)
    (hd : d.upcoming.length ≤ E.enclosed.length) (houtside : E.Outside d)
    (ho : r.comesTo options (c.append E.enclosed l) = .accepted a d) :
    ∃ b, r.comesTo options (c.append E.plain l) = .accepted b d ∧ R b a := by
  obtain ⟨r₁, e, he, hreaches, hremains, hleaves⟩ := exists_leaves hne hd (remains_of_accepted ho)
  obtain ⟨s₁, hr₁, hanswers₁, hs₁, -⟩ :=
    hr.remains hanswers hs (Cursor.suffix_append hc.suffix) hremains
  have htwins₁ := htwins.remains hremains
  have hsame := hr.remains_append (hled.parted _) (hled.parted _) hs hc.suffix hagrees he hremains
  have ha₁ := ha.remains hremains
  have hagrees' := hagrees.of_reaches hreaches
  have he' := hc.trans hreaches
  rw [Production.comesTo, hsame.follow_eq]
  cases hleaves with
  | @advance k _ hlast h =>
    have hk : k.comesTo options E.atEnclosed = .accepted a d := h.follow_eq
    obtain ⟨u, hu, -, hreserved, -, -⟩ := hr₁
    obtain rfl := hs₁.seen u hu
    rw [Cursor.current_append _ l he] at hu hreserved
    obtain ⟨hleads, hfresh, hcomma⟩ := hled.of_last he'.suffix he hlast
    rw [follow, Cursor.advance_append _ l he, Cursor.append_of_nil hlast]
    refine hanswers₁.1 _ hu hleads ?_ hcomma a d hk houtside
    by_contra hres
    rw [Bool.not_eq_false] at hres
    have hbound := hs₁.fresh.2 (Cursor.fresh_append.2 (hfresh hres))
    rw [hreserved hres, hn] at hbound
    cases hbound
  | @read m k _ f b hm hf h =>
    have hk : (k b).comesTo options f = .accepted a d := h.follow_eq
    have hinside := Nonterminal.kin_self_iff.1 htwins₁.1
    have hfresh := Cursor.fresh_append.1 (hs₁.fresh.1 hr₁.1)
    obtain ⟨b', hm', haspect⟩ := ha₁.1 e rfl hinside he he' hfresh hagrees' b f hf
      (outside_of_outcome hinside he' he hm hf (hanswers₁.1 · b) hk houtside) hm
    rw [← Production.comesTo, Production.comesTo_read_of_accepted hm']
    exact (hk ▸ (htwins₁.2 b' b haspect).alike f).exists_accepted
  | @take m k _ f b hm hf h =>
    have hk : (k (some b)).comesTo options f = .accepted a d := h.follow_eq
    have hinside := Nonterminal.kin_self_iff.1 htwins₁.1
    obtain ⟨-, hbound, -, rfl, -, -⟩ := hr₁
    have hfresh := Cursor.fresh_append.1 (hs₁.fresh.1 hbound)
    obtain ⟨b', hm', haspect⟩ := ha₁.1 e rfl hinside he he' hfresh hagrees' b f hf
      (outside_of_outcome hinside he' he hm hf (by simp) hk houtside) hm
    rw [← Production.comesTo, Production.comesTo_attempt_of_accepted hm']
    exact (hk ▸ (htwins₁.2.1 b' b haspect).alike f).exists_accepted

end Rule

/-- What begins before the parentheses and ends behind them is read without them, up to the same
place and with a value of the same aspect. -/
theorem Nonterminal.outcome_plain {E : Enclosure options l} {t : Token} (hled : E.Led us t)
    (hn : n.inExpression = true) (hne : c.upcoming ≠ []) (hc : (Cursor.before us l).Reaches c)
    (hfresh : c.Fresh us) (hagrees : c.Agrees options us E.plain E.enclosed l) {a : n.Result}
    {d : Cursor} (hd : d.upcoming.length ≤ E.enclosed.length) (houtside : E.Outside d)
    (ho : n.outcome options (c.append E.enclosed l) = .accepted a d) :
    ∃ b, n.outcome options (c.append E.plain l) = .accepted b d ∧ n.aspect b = n.aspect a := by
  refine outcome_induction options (P := ReadsPlain E us) (fun n e ha => ?_) n
    (c.append E.enclosed l) c rfl hn hne hc hfresh hagrees a d hd houtside ho
  rintro c rfl hn hne hc hfresh hagrees a d hd houtside ho
  rw [outcome_eq] at ho ⊢
  exact (Production.names options n).outcome_plain hled hn (Production.answers E hn)
    (Production.twins options (kin_self_iff.2 hn)) ha (.ofFresh (Cursor.fresh_append.2 hfresh)) hne
    hc hagrees hd houtside ho

end Wgsl
