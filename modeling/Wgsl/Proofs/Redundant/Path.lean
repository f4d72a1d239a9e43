import Wgsl.Proofs.Redundant.Plain

/-!
# The way to a value

A module reads a value somewhere inside of what it reads (`Nonterminal.ReadsValue`): the rule of the
module comes to a nonterminal, the rule of this to another, and so on to one that reads the value
for itself. What is tried is on the way only if it is accepted.

The way leads from the tokens before the value into it in one step, directly behind a token that
leads to it (`Rule.Names.exists_crosses`). With the value in parentheses the same step leads to the
`(`. So whatever is accepted and reads the value is accepted with the parentheses, at the same place
and with the same result (`Nonterminal.ReadsValue.outcome_enclosed`), as long as the tokens before
the value are read alike.
-/

namespace Wgsl

open Rule in
/-- Reading the nonterminal from a cursor reads a value from one place to another: it reads the
value for itself, or what it reads does. -/
inductive Nonterminal.ReadsValue (options : ReadOptions) (inAngles : Bool) (start stop : Cursor) :
    Nonterminal → Cursor → Prop
  | value {n : Nonterminal} {c : Cursor} {k : Expression → Production n.Result} {e : Expression}
    (hn : n.takesValue = true)
    (h : Production.Remains options (Rule.read (.expression inAngles) k) start
      (Production.ofNonterminal options n) c)
    (he : (Nonterminal.expression inAngles).outcome options start = .accepted e stop) :
    ReadsValue options inAngles start stop n c
  | read {n m : Nonterminal} {c d : Cursor} {k : m.Result → Production n.Result}
    (h : Production.Remains options (Rule.read m k) d (Production.ofNonterminal options n) c)
    (hm : ReadsValue options inAngles start stop m d) :
    ReadsValue options inAngles start stop n c
  | take {n m : Nonterminal} {c d d' : Cursor} {k : Option m.Result → Production n.Result}
    {a : m.Result}
    (h : Production.Remains options (Rule.attempt m k) d (Production.ofNonterminal options n) c)
    (ho : m.outcome options d = .accepted a d')
    (hm : ReadsValue options inAngles start stop m d) :
    ReadsValue options inAngles start stop n c

variable {options : ReadOptions} {l : Location} {us : List Token} {n m : Nonterminal}
variable {c d : Cursor}

namespace Nonterminal

/-- Where a value may begin, it is offered. -/
theorem offers_of_beginsValue (hm : m.beginsValue = true) : n.offers m = true := by
  cases m <;> first | exact hm | cases hm

namespace ReadsValue

variable {inAngles : Bool} {start stop : Cursor}

/-- The value is accepted as an expression. -/
theorem exists_accepted (h : n.ReadsValue options inAngles start stop c) :
    ∃ e, (expression inAngles).outcome options start = .accepted e stop := by
  induction h with
  | value _ _ he => exact ⟨_, he⟩
  | read _ _ ih | take _ _ _ ih => exact ih

/-- The value is reached. -/
theorem reaches (h : n.ReadsValue options inAngles start stop c) : c.Reaches start := by
  induction h with
  | value _ h _ => exact h.reaches fun n c => n.outcome_reaches options c
  | read h _ ih | take h _ _ ih => exact (h.reaches fun n c => n.outcome_reaches options c).trans ih

/-- Reading comes past the value. -/
theorem reaches_outcome (h : n.ReadsValue options inAngles start stop c) :
    stop.Reaches (n.outcome options c).cursor := by
  induction h with
  | @value n c k e _ h he =>
    rw [outcome_eq, h.follow_eq, ← Production.comesTo, Production.comesTo_read_of_accepted he]
    exact Rule.outcome_reaches options (k e) stop
  | @read n m c d k h _ ih =>
    rw [outcome_eq, h.follow_eq, ← Production.comesTo]
    cases hm : m.outcome options d with
    | accepted a d' =>
      rw [Production.comesTo_read_of_accepted hm]
      rw [hm] at ih
      exact ih.trans (Rule.outcome_reaches options (k a) d')
    | rejected e d' =>
      rw [Production.comesTo_read_of_rejected hm]
      rwa [hm] at ih
  | @take n m c d d' k a h hm _ ih =>
    rw [outcome_eq, h.follow_eq, ← Production.comesTo, Production.comesTo_attempt_of_accepted hm]
    rw [hm] at ih
    exact ih.trans (Rule.outcome_reaches options (k (some a)) d')

end ReadsValue

end Nonterminal

namespace Rule

variable {α : Type} {r r' : Production α} {s : Stand} {a : α}

/-- A rule that has looked at the token to be read remains of the rule. -/
theorem remains_facing (r : Production α) (c : Cursor) :
    Production.Remains options (r.facing c.current) c r c := by
  induction r with
  | look k ih => exact .look (ih c.current)
  | _ => exact .here

/-- What holds of whatever remains of a rule holds of what remains where it is followed. -/
theorem Always.remains {Q : Option Token → Production α → Prop} {seen : Option Token}
    (hr : r.Always Q seen) (hseen : ∀ t ∈ seen, c.current = t)
    (h : Production.Remains options r' d r c) :
    ∃ seen', r'.Always Q seen' ∧ ∀ t ∈ seen', d.current = t := by
  induction h generalizing seen with
  | here => exact ⟨seen, hr, hseen⟩
  | look _ ih => exact ih (hr.2 _ hseen) (by simp)
  | lookBehind _ ih => exact ih (hr.2 _) hseen
  | advance _ ih | split _ ih => exact ih hr.2 (by simp)
  | read _ _ ih => exact ih (hr.2 _) (by simp)
  | take _ _ ih => exact ih (hr.2.1 _) (by simp)
  | refuse _ _ ih => exact ih hr.2.2 hseen

/-- A rule that offers a read is that read. -/
theorem facing_of_offering {k : m.Result → Production α}
    (h : r.offering n = some (.read m k)) : r = .read m k := by
  cases r with
  | read m' k' =>
    rw [offering_read] at h
    split at h
    · exact Option.some.inj h
    · cases h
  | _ => cases h

/-- What begins with a value is read where the rule has only looked at the token to be read. -/
theorem facing_of_remains {seen : Option Token} {k : m.Result → Production α}
    (hr : r.Always (Offers n) seen) (hseen : ∀ t ∈ seen, c.current = t)
    (hc : c.current.kind.beginsOperand = true) (hm : n.offers m = true) (hd : d = c)
    (h : Production.Remains options (Rule.read m k) c r d) : r.facing c.current = .read m k := by
  have hne : c.upcoming ≠ [] :=
    Cursor.upcoming_ne_nil fun hend => by simp [hend, TokenKind.beginsOperand] at hc
  have hwithheld : ∀ {r' : Production α}, r'.Withholds n → r'.facing c.current ≠ .read m k := by
    intro r' hwithholds heq
    have hnone := hwithholds _ hc
    rw [heq, offering_read, if_pos hm] at hnone
    cases hnone
  have hback : ∀ {r' : Production α} {d : Cursor},
      Production.Remains options (Rule.read m k) c r' d → d.Reaches c :=
    fun h => h.reaches fun n c => n.outcome_reaches options c
  induction h generalizing seen with
  | here => rfl
  | look _ ih =>
    subst hd
    exact ih (hr.2 _ hseen) (by simp) rfl
  | lookBehind _ ih =>
    exact absurd (ih (hr.2 _) (hd ▸ hseen) hd) (hwithheld (hr.1 _))
  | advance h _ =>
    subst hd
    exact absurd (hback h) (Cursor.Reaches.not_of_advance (.refl _) hne)
  | split h ih =>
    subst hd
    have hsame := (hback h).antisymm (Cursor.Reaches.refl _).split
    exact absurd (ih hr.2 (by simp) hsame) (hwithheld hr.1)
  | @read m' _ e _ b ho h ih =>
    subst hd
    have hreaches := m'.outcome_reaches options e
    rw [ho] at hreaches
    exact absurd (ih (hr.2 b) (by simp) ((hback h).antisymm hreaches)) (hwithheld (hr.1 b))
  | @take m' _ e _ b ho h ih =>
    subst hd
    have hreaches := m'.outcome_reaches options e
    rw [ho] at hreaches
    exact absurd (ih (hr.2.1 b) (by simp) ((hback h).antisymm hreaches)) (hwithheld (hr.1.2 _))
  | refuse _ _ ih =>
    exact absurd (ih hr.2.2 hseen hd) (hwithheld (hr.1.2 _))

/-! ## Into the expression -/

section Crossing

variable {E : Bracketing options l} {k : m.Result → Production α}

/-- The rule goes behind the last of the tokens before the expression, and reads there, whatever
operand begins there, what begins with the expression. -/
structure Crosses (us : List Token) (n : Nonterminal) (k : m.Result → Production α)
    (r' : Production α) (d : Cursor) : Prop where
  ne_nil : d.upcoming ≠ []
  last : d.advance.upcoming = []
  facing : ∀ u : Token, u.kind.beginsOperand = true → r'.facing u = .read m k
  ledBy : n.LedBy m d.current.kind
  fresh : d.current.kind.isReserved = true → d.Fresh us

/-- What begins with the expression is read directly behind a token that leads to it. -/
theorem Names.exists_crosses (hr : r.Names options n s) (hoffers : r.Always (Offers n) s.seen)
    (hs : s.Holds options (us ++ E.plain) (c.append E.plain l)) (hne : c.upcoming ≠ [])
    (hc : c.upcoming <:+ us) (hm : n.offers m = true)
    (h : Production.Remains options (Rule.read m k) E.atPlain r (c.append E.plain l)) :
    ∃ r' d, Crosses us n k r' d ∧ c.Reaches d ∧
      Production.Remains options (.advance r') (d.append E.plain l) r (c.append E.plain l) := by
  have hlength : E.atPlain.upcoming.length ≤ E.plain.length := Nat.le_refl _
  have hread : ∀ {m' : Nonterminal} {r' : Production α} {b : m'.Result} {d e : Cursor},
      m'.outcome options (d.append E.plain l) = .accepted b e →
      e.upcoming.length ≤ E.plain.length → r'.Withholds n → r'.Always (Offers n) none →
      ¬Production.Remains options (Rule.read m k) E.atPlain r' e := by
    intro m' r' b d e ho he hwithholds hr' hrest
    have hreaches := m'.outcome_reaches options (d.append E.plain l)
    rw [ho] at hreaches
    have hsame := (hrest.reaches fun n c => n.outcome_reaches options c).antisymm
      (hreaches.of_before he)
    have hnone := hwithholds _ E.beginsOperand_plain
    rw [facing_of_remains hr' (by simp) E.beginsOperand_plain hm hsame hrest, offering_read,
      if_pos hm] at hnone
    cases hnone
  obtain ⟨r₁, d, hd, hreaches, hremains, hleaves⟩ := exists_leaves hne hlength h
  obtain ⟨s₁, hr₁, hoffers₁, hs₁, -⟩ := hr.remains hoffers hs (Cursor.suffix_append hc) hremains
  cases hleaves with
  | @advance r' _ hlast h =>
    obtain ⟨t, ht, -, hreserved, -, -⟩ := hr₁
    obtain rfl := hs₁.seen t ht
    rw [Cursor.current_append _ l hd] at ht hreserved
    obtain ⟨⟨hled, halike⟩, hbehind⟩ := hoffers₁
    have hplain := facing_of_remains hbehind (by simp) E.beginsOperand_plain hm rfl h
    have hopening : (r'.facing opening).offering n = some (.read m k) := by
      rw [← halike _ E.beginsOperand_plain, hplain, offering_read, if_pos hm]
    have hfacing : ∀ u : Token, u.kind.beginsOperand = true → r'.facing u = .read m k :=
      fun u hu => facing_of_offering ((halike u hu).trans hopening)
    obtain ⟨u, hu, hledBy⟩ := (hfacing opening rfl ▸ hled) hm
    obtain rfl := Option.some.inj (ht.symm.trans hu)
    refine ⟨r', d, ⟨hd, hlast, hfacing, hledBy, fun hres => ?_⟩, hreaches, hremains⟩
    refine Cursor.fresh_append.1 (hs₁.fresh.1 ?_)
    rw [hreserved hres, hledBy.reserved hres]
  | read ho he h => exact (hread ho he (hoffers₁.1 _) (hoffers₁.2 _) h).elim
  | take ho he h => exact (hread ho he (hoffers₁.1.2 _) (hoffers₁.2.1 _) h).elim

/-- What begins with the expression is read with the parentheses where it was without them. -/
theorem Names.remains_enclosed (hparted : ∀ ts, Cursor.Parted us ts l) (hr : r.Names options n s)
    (hoffers : r.Always (Offers n) s.seen)
    (hs : s.Holds options (us ++ E.plain) (c.append E.plain l)) (hne : c.upcoming ≠ [])
    (hc : c.upcoming <:+ us) (hagrees : c.Agrees options us E.enclosed E.plain l)
    (hm : n.offers m = true)
    (h : Production.Remains options (Rule.read m k) E.atPlain r (c.append E.plain l)) :
    Production.Remains options (Rule.read m k) E.atEnclosed r (c.append E.enclosed l) := by
  obtain ⟨r', d, hcrosses, -, hremains⟩ := hr.exists_crosses hoffers hs hne hc hm h
  have hsame := hr.remains_append (hparted _) (hparted _) hs hc hagrees hcrosses.ne_nil hremains
  refine hsame.trans (.advance ?_)
  rw [Cursor.advance_append _ l hcrosses.ne_nil, Cursor.append_of_nil hcrosses.last,
    ← hcrosses.facing _ E.beginsOperand_enclosed]
  exact remains_facing r' E.atEnclosed

/-- What begins with a value where a nonterminal begins is begun with by the nonterminal. -/
theorem beginsValue_of_remains {k : m.Result → Production n.Result} (hm : n.offers m = true)
    (h : Production.Remains options (Rule.read m k) E.atPlain (Production.ofNonterminal options n)
      E.atPlain) : n.beginsValue = true := by
  by_contra hn
  have hnone := Production.withholds options (by simpa using hn) _ E.beginsOperand_plain
  have hplain :=
    facing_of_remains (Production.offersValues options n) (by simp) E.beginsOperand_plain hm rfl h
  rw [hplain, offering_read, if_pos hm] at hnone
  cases hnone

end Crossing

end Rule

/-- Among the tokens before the expression, a type that is accepted with the parentheses is accepted
without them, from the cursor on. -/
structure Cursor.Aligned (E : Bracketing options l) (us : List Token) (c : Cursor) : Prop where
  suffix : c.upcoming <:+ us
  fresh : c.Fresh us
  agrees : c.Agrees options us E.enclosed E.plain l

section

variable {E : Bracketing options l}

/-- At an aligned cursor a rule begins afresh. -/
theorem Cursor.Aligned.stands (h : c.Aligned E us) :
    Stand.fresh.Holds options (us ++ E.plain) (c.append E.plain l) :=
  .ofFresh (Cursor.fresh_append.2 h.fresh)

/-- Where a nonterminal is read or tried, the cursor does not stand directly behind a `.` or a
`@`. -/
theorem Rule.fresh_of_remains {r' : Production n.Result} (hc : c.upcoming <:+ us)
    (hfresh : c.Fresh us)
    (h : Production.Remains options r' d (Production.ofNonterminal options n) c)
    (hbound : ∀ s, r'.Names options n s → s.bound = false) : d.Fresh us := by
  obtain ⟨s, hr, -, hs, -⟩ := (Production.names options n).remains
    (Production.offersValues options n) (.ofFresh hfresh) hc h
  exact hs.fresh.1 (hbound s hr)

/-- What remains of a rule among the tokens before the expression remains of it with the
parentheses. -/
theorem Cursor.Aligned.remains (h : c.Aligned E us) (hparted : ∀ ts, Cursor.Parted us ts l)
    {r' : Production n.Result} (hd : d.upcoming ≠ [])
    (hremains : Production.Remains options r' (d.append E.plain l)
      (Production.ofNonterminal options n) (c.append E.plain l)) :
    Production.Remains options r' (d.append E.enclosed l)
      (Production.ofNonterminal options n) (c.append E.enclosed l) :=
  (Production.names options n).remains_append (hparted _) (hparted _) h.stands h.suffix h.agrees hd
    hremains

/-- What remains of a rule from an aligned cursor stands at a fresh one, where its names say so. -/
theorem Cursor.Aligned.fresh_of_remains (h : c.Aligned E us) {r' : Production n.Result}
    (hremains : Production.Remains options r' (d.append E.plain l)
      (Production.ofNonterminal options n) (c.append E.plain l))
    (hbound : ∀ s, r'.Names options n s → s.bound = false) : d.Fresh us :=
  Cursor.fresh_append.1 (Rule.fresh_of_remains (Cursor.suffix_append h.suffix)
    (Cursor.fresh_append.2 h.fresh) hremains hbound)

/-- A fresh cursor that is reached is aligned. -/
theorem Cursor.Aligned.of_reaches (h : c.Aligned E us) (hreaches : c.Reaches d)
    (hfresh : d.Fresh us) : d.Aligned E us :=
  ⟨hreaches.suffix.trans h.suffix, hfresh, h.agrees.of_reaches hreaches⟩

/-- What begins with the expression is read with the parentheses where it was without them. -/
theorem Rule.remains_enclosed {k : m.Result → Production n.Result}
    (hparted : ∀ ts, Cursor.Parted us ts l) (hm : n.offers m = true)
    (h : Production.Remains options (Rule.read m k) E.atPlain (Production.ofNonterminal options n)
      (c.append E.plain l)) (hc : c.upcoming ≠ [] → c.Aligned E us) :
    Production.Remains options (Rule.read m k) E.atEnclosed (Production.ofNonterminal options n)
      (c.append E.enclosed l) := by
  by_cases hne : c.upcoming = []
  · rw [Cursor.append_of_nil hne] at h ⊢
    have hplain :=
      facing_of_remains (Production.offersValues options n) (by simp) E.beginsOperand_plain hm rfl h
    have halike := Production.offersAlike options (beginsValue_of_remains hm h)
    have hsame : ((Production.ofNonterminal options n).facing E.atEnclosed.current).offering n =
        some (Rule.read m k) := by
      rw [halike _ E.beginsOperand_enclosed, ← halike _ E.beginsOperand_plain, hplain,
        offering_read, if_pos hm]
    rw [← facing_of_offering hsame]
    exact remains_facing _ _
  · have haligned := hc hne
    exact (Production.names options n).remains_enclosed hparted (Production.offersValues options n)
      haligned.stands hne haligned.suffix haligned.agrees hm h

end

/-- The nonterminal reads the expression as a value. -/
abbrev Bracketing.IsRead (E : Bracketing options l) (n : Nonterminal) (c : Cursor) : Prop :=
  n.ReadsValue options E.inAngles E.atPlain E.atRest c

namespace Nonterminal.ReadsValue

section

variable {E : Bracketing options l}

/-- What begins where the expression does begins with a value. -/
theorem beginsValue (h : E.IsRead n c) (hc : c = E.atPlain) : n.beginsValue = true := by
  induction h with
  | @value n _ _ _ hn h he =>
    subst hc
    exact Rule.beginsValue_of_remains (m := .expression E.inAngles) hn h
  | read h hm ih =>
    subst hc
    have hsame := hm.reaches.antisymm (h.reaches fun n c => n.outcome_reaches options c)
    subst hsame
    exact Rule.beginsValue_of_remains (offers_of_beginsValue (ih rfl)) h
  | @take n m _ d _ _ _ h ho hm ih =>
    subst hc
    have hsame := hm.reaches.antisymm (h.reaches fun n c => n.outcome_reaches options c)
    obtain ⟨seen, halways, -⟩ := (Production.offersValues options n).remains (by simp) h
    cases (ih hsame).symm.trans halways.1.1

/-- What the expression is read in begins before the expression, or where it does. -/
theorem eq_or_exists_append {e : Cursor} (h : E.IsRead n e) (hc : (c.append E.plain l).Reaches e) :
    e = E.atPlain ∨ ∃ d, e = d.append E.plain l ∧ d.upcoming ≠ [] ∧ c.Reaches d := by
  by_cases hlt : E.plain.length < e.upcoming.length
  · exact .inr (hc.exists_append hlt)
  · exact .inl (h.reaches.antisymm (hc.of_before (Nat.le_of_not_lt hlt)))

/-- What the expression is read in is read at the same place with the parentheses. -/
theorem exists_remains_enclosed (hparted : ∀ ts, Cursor.Parted us ts l) {f : Cursor}
    (hm : E.IsRead m f) {k : m.Result → Production n.Result}
    (h : Production.Remains options (Rule.read m k) f (Production.ofNonterminal options n)
      (c.append E.plain l)) (hc : c.upcoming ≠ [] → c.Aligned E us) :
    ∃ d : Cursor, f = d.append E.plain l ∧ (d.upcoming ≠ [] → d.Aligned E us) ∧
      Production.Remains options (Rule.read m k) (d.append E.enclosed l)
        (Production.ofNonterminal options n) (c.append E.enclosed l) := by
  rcases hm.eq_or_exists_append (h.reaches fun n c => n.outcome_reaches options c) with
    rfl | ⟨d, rfl, hd, hreaches⟩
  · have hstart (ts : List Token) : (Cursor.before [] l).append ts l = .before ts l :=
      Cursor.append_of_nil rfl
    refine ⟨.before [] l, (hstart _).symm, fun hne => absurd rfl hne, ?_⟩
    rw [hstart]
    exact Rule.remains_enclosed hparted (offers_of_beginsValue (hm.beginsValue rfl)) h hc
  · have haligned := hc (Rule.ne_nil_of_remains hd h)
    exact ⟨d, rfl, fun _ => haligned.of_reaches hreaches
      (haligned.fresh_of_remains h fun s hr => hr.1), haligned.remains hparted hd h⟩

end

variable {E : Enclosure options l}

/-- What is accepted, and reads the expression, is accepted with the parentheses as well. -/
theorem outcome_enclosed (hparted : ∀ ts, Cursor.Parted us ts l) {e : Cursor} (h : E.IsRead n e)
    {a : n.Result} (ho : n.outcome options e = .accepted a d) (he : e = c.append E.plain l)
    (hc : c.upcoming ≠ [] → c.Aligned E.toBracketing us) :
    n.outcome options (c.append E.enclosed l) = .accepted a d := by
  induction h generalizing c d with
  | @value n e k v hn h hv =>
    subst he
    have hremains := Rule.remains_enclosed hparted (m := .expression E.inAngles) hn h hc
    rw [outcome_eq, h.follow_eq, ← Production.comesTo,
      Production.comesTo_read_of_accepted E.accepted_plain] at ho
    rw [outcome_eq, hremains.follow_eq, ← Production.comesTo,
      Production.comesTo_read_of_accepted (E.expression_enclosed_of_ends E.ends_rest),
      E.enclosedValue_eq]
    exact ho
  | @read n m e f k h hm ih =>
    subst he
    rw [outcome_eq, h.follow_eq, ← Production.comesTo] at ho
    cases hb : m.outcome options f with
    | rejected err g => simp [Production.comesTo_read_of_rejected hb] at ho
    | accepted b g =>
      rw [Production.comesTo_read_of_accepted hb] at ho
      obtain ⟨f, rfl, hf, hremains⟩ := hm.exists_remains_enclosed hparted h hc
      rw [outcome_eq, hremains.follow_eq, ← Production.comesTo,
        Production.comesTo_read_of_accepted (ih hb rfl hf)]
      exact ho
  | @take n m e f f' b k h ho' hm ih =>
    subst he
    rw [outcome_eq, h.follow_eq, ← Production.comesTo,
      Production.comesTo_attempt_of_accepted ho'] at ho
    rcases hm.eq_or_exists_append (h.reaches fun n c => n.outcome_reaches options c) with
      rfl | ⟨f, rfl, hf, hreaches⟩
    · obtain ⟨seen, halways, -⟩ := (Production.offersValues options n).remains (by simp) h
      cases (hm.beginsValue rfl).symm.trans halways.1.1
    · have haligned := hc (Rule.ne_nil_of_remains hf h)
      have hremains := haligned.remains hparted hf h
      have hb' := ih ho' rfl fun _ => haligned.of_reaches hreaches
        (haligned.fresh_of_remains h fun s hr => hr.2.1)
      rw [outcome_eq, hremains.follow_eq, ← Production.comesTo,
        Production.comesTo_attempt_of_accepted hb']
      exact ho

/-- Where values stand behind commas, behind a comma stands a value or the end of them. -/
theorem lists_of_outcome (hlists : m.listsValues = true) (hbegins : m.beginsValue = true)
    {a : m.Result} (ho : m.outcome options E.atPlain = .accepted a d) : E.Lists := by
  intro hangles hcomma
  have hv := E.accepted_plain
  rw [hangles] at hv
  rw [outcome_eq] at ho
  cases m with
  | expressions =>
    have hfirst : E.atPlain.current.kind ≠ .symbol .parenRight :=
      TokenKind.ne_symbol_of_beginsOperand E.beginsOperand_plain rfl
    cases hmore : expressions.outcome options E.atRest.advance with
    | rejected e f => simp [Production.expressions, hfirst, hv, hcomma, hmore] at ho
    | accepted es f =>
      rcases beginsOperand options .expressions _ es f hmore with hend | hnext
      · rw [hend]
        rfl
      · exact TokenKind.closesAngle_of_beginsOperand hnext
  | selectors =>
    by_cases hend : E.atRest.advance.current.kind = .symbol .colon ∨
        E.atRest.advance.current.kind = .symbol .braceLeft
    · rcases hend with hend | hend <;> rw [hend] <;> rfl
    · cases hmore : selectors.outcome options E.atRest.advance with
      | rejected e f => simp [Production.selectors, hv, hcomma, hend, hmore] at ho
      | accepted es f =>
        exact TokenKind.closesAngle_of_beginsOperand (beginsOperand options .selectors _ es f hmore)
  | _ => first | cases hlists | cases hbegins

end Nonterminal.ReadsValue

/-- Tokens behind which a rule goes on with the expression lead to it. -/
theorem Rule.Crosses.exists_led {α : Type} {E : Enclosure options l} {k : m.Result → Production α}
    {r' : Production α} (h : Crosses us n k r' d) (hd : d.upcoming <:+ us)
    (hlists : m.listsValues = true → E.Lists) : ∃ t, E.Led us t := by
  obtain ⟨t, ht, hu⟩ := Cursor.last_of_advance hd h.ne_nil h.last
  have hcurrent : d.current = t.afterAngles d.taken := by rw [Cursor.current, hu]
  refine ⟨t, ht, ?_, fun hreserved u hsuffix => ?_, fun hcomma => ?_⟩
  · rw [← Token.leads_afterAngles, ← hcurrent, h.ledBy.leads]
  · have hsame : t.afterAngle? = none := by
      cases hkind : t.kind with
      | symbol mark => simp [hkind] at hreserved
      | _ => simp [Token.afterAngle?, hkind]
    rw [Token.afterAngles_of_none hsame] at hcurrent
    exact h.fresh (by rwa [hcurrent]) u (by rwa [hu])
  · have hsame : t.afterAngle? = none := by simp [Token.afterAngle?, hcomma, Symbol.afterAngle?]
    rw [Token.afterAngles_of_none hsame] at hcurrent
    exact hlists (h.ledBy.comma (by rwa [hcurrent]))

/-- So the tokens before the expression lead to it, if it is read in something that is accepted and
begins with them. -/
theorem Nonterminal.ReadsValue.exists_led {E : Enclosure options l} {e : Cursor}
    (h : E.IsRead n e) {a : n.Result} (ho : n.outcome options e = .accepted a d)
    (he : e = c.append E.plain l) (hne : c.upcoming ≠ []) (hc : c.upcoming <:+ us)
    (hfresh : c.Fresh us) : ∃ t, E.Led us t := by
  have hcross : ∀ {n m : Nonterminal} {c : Cursor} {k : m.Result → Production n.Result},
      c.upcoming ≠ [] → c.upcoming <:+ us → c.Fresh us → n.offers m = true →
      (m.listsValues = true → E.Lists) →
      Production.Remains options (Rule.read m k) E.atPlain (Production.ofNonterminal options n)
        (c.append E.plain l) → ∃ t, E.Led us t := by
    intro n m c k hne hc hfresh hm hlists h
    obtain ⟨r', d, hcrosses, hreaches, -⟩ :=
      (Production.names options n).exists_crosses (Production.offersValues options n)
        (.ofFresh (Cursor.fresh_append.2 hfresh)) hne hc hm h
    exact hcrosses.exists_led (hreaches.suffix.trans hc) hlists
  induction h generalizing c d with
  | @value n e k v hn h hv =>
    subst he
    exact hcross (m := .expression E.inAngles) hne hc hfresh hn
      (fun hlists hangles => by simp [hangles] at hlists) h
  | @read n m e f k h hm ih =>
    subst he
    rw [outcome_eq, h.follow_eq, ← Production.comesTo] at ho
    cases hb : m.outcome options f with
    | rejected err g => simp [Production.comesTo_read_of_rejected hb] at ho
    | accepted b g =>
      rcases hm.eq_or_exists_append (h.reaches fun n c => n.outcome_reaches options c) with
        rfl | ⟨f, rfl, hf, hreaches⟩
      · have hbegins := hm.beginsValue rfl
        exact hcross hne hc hfresh (offers_of_beginsValue hbegins)
          (fun hlists => lists_of_outcome hlists hbegins hb) h
      · exact ih hb rfl hf (hreaches.suffix.trans hc)
          (Cursor.fresh_append.1 (Rule.fresh_of_remains (Cursor.suffix_append hc)
            (Cursor.fresh_append.2 hfresh) h fun s hr => hr.1))
  | @take n m e f f' b k h hb hm ih =>
    subst he
    rcases hm.eq_or_exists_append (h.reaches fun n c => n.outcome_reaches options c) with
      rfl | ⟨f, rfl, hf, hreaches⟩
    · obtain ⟨seen, halways, -⟩ := (Production.offersValues options n).remains (by simp) h
      cases (hm.beginsValue rfl).symm.trans halways.1.1
    · exact ih hb rfl hf (hreaches.suffix.trans hc)
        (Cursor.fresh_append.1 (Rule.fresh_of_remains (Cursor.suffix_append hc)
          (Cursor.fresh_append.2 hfresh) h fun s hr => hr.2.1))

end Wgsl
