import Wgsl.Proofs.Redundant.Path

/-!
# Types before a value

That the tokens before a value are read alike rests on the types that are tried there: each is
accepted with the parentheses and without them, or in neither way (`Enclosure.Led.beginsType_iff`).
A type that ends before the value is accepted alike because the types behind its name are, and none
ends directly before the value. If a type that is accepted with the parentheses ends behind them,
the same tokens are a type without them (`Nonterminal.outcome_plain`). If one that is accepted
without them goes on into the value, then the module has read past its name, so it has read the
type, and the value in it: no reading stops inside of a type
(`Nonterminal.ReadsValue.typeParameters`).

So an expression that is read as a value may stand in parentheses
(`Nonterminal.ReadsValue.outcome_parenthesized`).
-/

namespace Wgsl

open scoped Rule.Steps

variable {options : ReadOptions} {ts us : List Token} {l : Location} {n m : Nonterminal}
variable {c d x y : Cursor} {made : TypeSpecifier}

namespace Rule

variable {α : Type} {r r' : Production α} {s : Stand}

/-- What remains of a rule behind a name in doubt remains of it behind the type that may be tried
there, or the rule stops directly behind the name. -/
theorem Names.passes_remains (hr : r.Names options n s) (hn : n ≠ .type)
    (hs : s.Holds options ts c) (hc : c.upcoming <:+ ts) (hx : x.Doubtful ts)
    (hmade : Nonterminal.constructorType.outcome options x = .accepted made y) (hcx : c.Reaches x)
    (h : Production.Remains options r' d r c) (hxd : x.Reaches d) (hne : x ≠ d) :
    y.Reaches d ∨ (r.comesTo options c).cursor = x.advance := by
  have hreaches : ∀ {r : Production α} {c : Cursor}, Production.Remains options r' d r c →
      c.Reaches d := fun h => h.reaches fun n c => n.outcome_reaches options c
  induction h generalizing s with
  | here => exact absurd (hxd.antisymm hcx) hne
  | look _ ih => exact ih (hr _ hs.admits) hs.look hc hcx
  | lookBehind _ ih => exact ih (hr.2.2 _) hs.lookBehind hc hcx
  | advance _ ih =>
    obtain ⟨t, ht, hend, -, hname, hk⟩ := hr
    obtain rfl := hs.seen t ht
    rcases hcx.eq_or_advance_of_isName hx.name with rfl | hcx
    · obtain ⟨hstop, -⟩ :=
        (hname hx.name (hs.doubts hx hmade)).resolve_left hn _ hx.less_advance
      exact .inr hstop
    · exact ih hk (hs.advance ht hend hc) (Cursor.suffix_advance hc) hcx
  | split _ ih =>
    exact ih hr.2 (hs.split hr.1) (Cursor.suffix_split hc) (hcx.split_of_isName hx.name)
  | @read m k e f b ho h ih =>
    obtain ⟨hbound, hnext⟩ := hr
    have hfresh := hs.fresh.1 hbound
    have hef := m.outcome_reaches options e
    have hsuffix := m.outcome_suffix options hc
    have hchild := m.outcome_comesPast options ts e hc hfresh x y made hx hmade hcx
    have hends := m.endsFresh options ts e hc hfresh b f ho
    rw [Production.comesTo_read_of_accepted ho]
    simp only [ho, Outcome.cursor_accepted] at hef hsuffix hchild
    rcases hef.before_or_reaches hcx with ⟨hxf, hne'⟩ | hfx
    · rcases hchild hxf hne' with hy | ⟨rfl, hnames⟩
      · exact .inl (hy.trans (hreaches h))
      · exact .inr ((hnext b).1 (hnames b _ rfl) _ hx.less_advance).1
    · exact ih (hnext b).2 (.ofFresh hends) hsuffix hfx
  | @take m k e f b ho h ih =>
    obtain ⟨-, hbound, -, rfl, hsome, -⟩ := hr
    have hfresh := hs.fresh.1 hbound
    have hef := Nonterminal.constructorType.outcome_reaches options e
    have hsuffix := Nonterminal.constructorType.outcome_suffix options hc
    have hchild := Nonterminal.constructorType.outcome_comesPast options ts e hc hfresh x y made hx
      hmade hcx
    have hends := Nonterminal.constructorType.endsFresh options ts e hc hfresh b f ho
    rw [Production.comesTo_attempt_of_accepted ho]
    simp only [ho, Outcome.cursor_accepted] at hef hsuffix hchild
    rcases hef.before_or_reaches hcx with ⟨hxf, hne'⟩ | hfx
    · exact .inl (((hchild hxf hne').resolve_right fun h => nomatch h.2 b f rfl).trans (hreaches h))
    · exact ih (hsome b) (.ofFresh hends) hsuffix hfx
  | @refuse m k e _ _ ho h ih =>
    obtain ⟨-, hbound, -, rfl, -, hnone⟩ := hr
    rw [Production.comesTo_attempt_of_rejected ho]
    exact ih hnone (hs.refuse ho) hc hcx

end Rule

namespace Nonterminal

/-- A type reads its attributes, and behind a name and a `<` its parameters. -/
theorem along_type (options : ReadOptions) (c : Cursor) :
    (Production.ofNonterminal options .type).Along (fun n c => n.outcome options c)
      (fun m d => m = .attributes ∧ d = c ∨ ∃ attributes e name,
        Nonterminal.attributes.outcome options c = .accepted attributes e ∧
          e.current.kind = .identifier name ∧ e.advance.current.kind = .symbol .lessThan ∧
          m = .typeParameters name ∧ d = e.advance.advance) c := by
  simp only [Production.ofNonterminal, Production.type, Rule.bind_eq, Rule.read_bind,
    Rule.done_bind, Rule.current_eq, Rule.look_bind, Rule.identifier_bind, Rule.Along, true_and,
    true_or]
  intro attributes e ho
  cases hname : e.current.kind.name? with
  | none => exact trivial
  | some name =>
    by_cases hless : e.advance.current.kind = .symbol .lessThan
    · have hname := TokenKind.name?_eq_some_iff.1 hname
      simp only [Rule.steps_eq, ↓reduceIte, Option.elim_some, Rule.Along, hless, reduceCtorEq,
        false_and, typeParameters.injEq, ↓existsAndEq, true_and, false_or, implies_true, and_true]
      exact ⟨attributes, e, ho, hname, hless, rfl⟩
    · simp [Rule.Along, hless]

section Doubtful

variable {inAngles : Bool} {start stop : Cursor} {name : String}

/-- What reads a value does not end directly behind a name that the value does not begin with. -/
theorem ReadsValue.cursor_ne_advance (h : n.ReadsValue options inAngles start stop c)
    (hname : x.current.kind = .identifier name) (hxs : x.Reaches start) (hne : x ≠ start) :
    (n.outcome options c).cursor ≠ x.advance := by
  obtain ⟨e, he⟩ := h.exists_accepted
  have hvalue : stop.measure < start.measure := by
    simpa [he] using @outcome_within options (.expression inAngles) start
  intro heq
  have hle := h.reaches_outcome.measure_le
  rw [heq] at hle
  have hlast : x.advance.Reaches start :=
    (hxs.eq_or_advance (by simp [Token.afterAngle?, hname])).resolve_left hne
  have := hlast.measure_le
  omega

/-- What reads a value behind a name in doubt, where a type does not end before the value, reads
nothing else past the name before it. -/
theorem ReadsValue.not_passes (h : n.ReadsValue options inAngles start stop c) (hn : n ≠ .type)
    (hc : c.upcoming <:+ ts) (hfresh : c.Fresh ts) (hx : x.Doubtful ts)
    (hname : x.current.kind = .identifier name)
    (hmade : Nonterminal.constructorType.outcome options x = .accepted made y)
    (hcx : c.Reaches x) (hxs : x.Reaches start) (hxne : x ≠ start) (hy : ¬y.Reaches start)
    {d : Cursor} {r : Production n.Result} (hd : d.Reaches start)
    (hrest : Production.Remains options r d (Production.ofNonterminal options n) c) :
    ¬(x.Reaches d ∧ x ≠ d) := by
  rintro ⟨hxd, hne⟩
  rcases (Production.names options n).passes_remains hn (.ofFresh hfresh) hc hx hmade hcx hrest hxd
    hne with hyd | hlast
  · exact hy (hyd.trans hd)
  · exact h.cursor_ne_advance hname hxs hxne (by rwa [outcome_eq])

/-- Before it reads its parameters, a type does not pass a name in doubt, where a type does not end
before the value that is read in it; and the parameters are those of the name, or before it. -/
theorem type_reaches_or {m : Nonterminal} {d : Cursor} {k : m.Result → Production TypeSpecifier}
    (hc : c.upcoming <:+ ts) (hfresh : c.Fresh ts) (hx : x.Doubtful ts)
    (hname : x.current.kind = .identifier name)
    (hmade : Nonterminal.constructorType.outcome options x = .accepted made y)
    (hcx : c.Reaches x) (hy : ¬y.Reaches start) (hd : d.Reaches start)
    (hrest : Production.Remains options (.read m k) d (Production.ofNonterminal options .type) c) :
    d.Reaches x ∨ m = .typeParameters name ∧ d = x.advance.advance := by
  rcases ((along_type options c).remains hrest).1 with
    ⟨-, rfl⟩ | ⟨attributes, e, name', ho, hname', hless, rfl, rfl⟩
  · exact .inl hcx
  · have hce := Nonterminal.attributes.outcome_reaches options c
    have hpast := Nonterminal.attributes.outcome_comesPast options ts c hc hfresh x y made hx
      hmade hcx
    rw [ho, Outcome.cursor_accepted] at hce hpast
    rcases hce.before_or_reaches hcx with ⟨hxe, hne⟩ | hex
    · have hye := (hpast hxe hne).resolve_right fun h => by simpa using h.2
      exact absurd (hye.advance.advance.trans hd) hy
    · rcases hex.eq_or_advance (by simp [Token.afterAngle?, hname']) with rfl | hex
      · exact .inr ⟨by simpa [hname'] using hname, rfl⟩
      · refine .inl ((hex.eq_or_advance (by
          simp [Token.afterAngle?, hless, Symbol.afterAngle?])).resolve_left ?_)
        rintro rfl
        simp [hname] at hless

/-- Where a name is in doubt, and a type is accepted there that does not end before a value, the
value is read in the parameters of the type. -/
theorem ReadsValue.typeParameters (h : n.ReadsValue options inAngles start stop c)
    (hc : c.upcoming <:+ ts) (hfresh : c.Fresh ts) (hx : x.Doubtful ts)
    (hname : x.current.kind = .identifier name)
    (hmade : Nonterminal.constructorType.outcome options x = .accepted made y)
    (hcx : c.Reaches x) (hxs : x.Reaches start) (hne : x ≠ start) (hy : ¬y.Reaches start) :
    (typeParameters name).ReadsValue options inAngles start stop x.advance.advance := by
  have hsame := h
  induction h with
  | @value n c k e hn h he =>
    have htype : n ≠ .type := by
      rintro rfl
      rcases ((along_type options c).remains h).1 with ⟨hm, -⟩ | ⟨_, _, _, _, _, _, hm, -⟩ <;>
        cases hm
    exact absurd ⟨hxs, hne⟩
      (hsame.not_passes htype hc hfresh hx hname hmade hcx hxs hne hy (.refl start) h)
  | @read n m c d k h hm ih =>
    have hcd := h.reaches fun n c => n.outcome_reaches options c
    have hsuffix := hcd.suffix.trans hc
    have hfresh' := Rule.fresh_of_remains hc hfresh h fun s hr => hr.1
    by_cases htype : n = .type
    · subst htype
      rcases type_reaches_or hc hfresh hx hname hmade hcx hy hm.reaches h with hdx | ⟨rfl, rfl⟩
      · exact ih hsuffix hfresh' hdx hm
      · exact hm
    · rcases hcd.before_or_reaches hcx with hxd | hdx
      · exact absurd hxd
          (hsame.not_passes htype hc hfresh hx hname hmade hcx hxs hne hy hm.reaches h)
      · exact ih hsuffix hfresh' hdx hm
  | @take n m c d d' k a h ho hm ih =>
    have hcd := h.reaches fun n c => n.outcome_reaches options c
    have hsuffix := hcd.suffix.trans hc
    obtain ⟨s, ⟨-, hbound, -, rfl, -, -⟩, -, hs, -⟩ := (Production.names options n).remains
      (Production.offersValues options n) (.ofFresh hfresh) hc h
    have htype : n ≠ .type := by
      rintro rfl
      rcases ((along_type options c).remains h).1 with ⟨hm, -⟩ | ⟨_, _, _, _, _, _, hm, -⟩ <;>
        cases hm
    rcases hcd.before_or_reaches hcx with hxd | hdx
    · exact absurd hxd
        (hsame.not_passes htype hc hfresh hx hname hmade hcx hxs hne hy hm.reaches h)
    · exact ih hsuffix (hs.fresh.1 hbound) hdx hm

end Doubtful

end Nonterminal

/-- Behind a name in doubt and the `<`, no `.` or `@` stands directly before. -/
theorem Cursor.Doubtful.fresh_advance (h : x.Doubtful us) (hx : x.upcoming <:+ us) :
    x.advance.advance.Fresh us :=
  (Cursor.fresh_advance (Cursor.suffix_advance hx) (by simp [h.less_advance])).2
    (by simp [h.less_advance])

/-- Behind a name in doubt and the `<`, other tokens may follow. -/
theorem Cursor.Doubtful.advance_append (h : x.Doubtful us) (ts : List Token) (l : Location) :
    (x.append ts l).advance.advance = x.advance.advance.append ts l := by
  rw [Cursor.advance_append ts l h.ne_nil, Cursor.advance_append ts l h.advance_ne_nil]

section

variable {E : Enclosure options l} {t : Token} (hled : E.Led us t)
include hled

/-- A type that begins before the expression does not end directly before it. -/
theorem Enclosure.Led.ne_atPlain (hx : x.upcoming <:+ us)
    (hmade : Nonterminal.constructorType.outcome options (x.append E.plain l) = .accepted made y) :
    y ≠ E.atPlain := by
  rintro rfl
  have hparen := (Nonterminal.constructorType_eq_accepted.1 hmade).2
  have hsettles := (Nonterminal.constructorType.outcome_settles rfl (Cursor.suffix_append hx)
    hmade).resolve_left fun h => h.1
  obtain ⟨past, hpast⟩ := List.getLast?_eq_some_iff.1 hled.last
  have := hsettles.settled hparen rfl t ⟨past, by simp [hpast, Cursor.before]⟩
  simp [hled.leads] at this

/-- A type that is accepted without the parentheses is accepted with them: if it does not end before
the expression, this is read in its parameters. -/
theorem Enclosure.Led.beginsType_enclosed (hread : E.IsRead n (.before (us ++ E.plain) l))
    (hx : (Cursor.before us l).Reaches x) (hdoubtful : x.Doubtful us)
    (hagrees : x.advance.advance.Agrees options us E.enclosed E.plain l)
    (h : (x.append E.plain l).BeginsType options) : (x.append E.enclosed l).BeginsType options := by
  obtain ⟨made, y, hmade⟩ := h
  have hreaches := Nonterminal.constructorType.outcome_reaches options (x.append E.plain l)
  rw [hmade] at hreaches
  by_cases hlt : E.plain.length < y.upcoming.length
  · obtain ⟨d, rfl, hd, -⟩ := hreaches.exists_append hlt
    exact ⟨made, _, Nonterminal.constructorType_append (hled.parted _) (hled.parted _) hx.suffix
      hdoubtful hagrees hd hmade⟩
  · have hy : ¬y.Reaches E.atPlain := fun hback => hled.ne_atPlain hx.suffix hmade
      (hback.antisymm (hreaches.of_before (Nat.le_of_not_lt hlt)))
    obtain ⟨name, hname⟩ := hdoubtful.exists_name
    have hnamed : ∀ ts, (x.append ts l).current.kind = .identifier name := fun ts => by
      rw [Cursor.current_append ts l hdoubtful.ne_nil, hname]
    have hbegin : (Cursor.before (us ++ E.plain) l).Reaches (x.append E.plain l) := by
      rw [← Cursor.before_append us E.plain l l]
      exact hx.append hdoubtful.ne_nil
    have hne : x.append E.plain l ≠ E.atPlain := by
      intro heq
      have hlength := Cursor.length_lt_append E.plain l hdoubtful.ne_nil
      simp [heq, Cursor.before] at hlength
    have hparameters := hread.typeParameters (List.suffix_refl _) (Cursor.fresh_before _ l)
      (hdoubtful.append E.plain l) (hnamed _) hmade hbegin (x.reaches_before E.plain l) hne hy
    obtain ⟨⟨parameters, ho, -⟩, hparen⟩ := (Nonterminal.constructorType_eq_accepted_of_doubtful
      (hdoubtful.append E.plain l) (hnamed _)).1 hmade
    rw [hdoubtful.advance_append] at hparameters ho
    have ho' := hparameters.outcome_enclosed hled.parted ho rfl fun _ =>
      ⟨Cursor.suffix_advance (Cursor.suffix_advance hx.suffix),
        hdoubtful.fresh_advance hx.suffix, hagrees⟩
    rw [← hdoubtful.advance_append] at ho'
    exact ⟨_, y, (Nonterminal.constructorType_eq_accepted_of_doubtful
      (hdoubtful.append E.enclosed l) (hnamed _)).2 ⟨⟨parameters, ho', rfl⟩, hparen⟩⟩

/-- A type that is accepted with the parentheses is accepted without them. -/
theorem Enclosure.Led.beginsType_plain (hx : (Cursor.before us l).Reaches x)
    (hdoubtful : x.Doubtful us) (hagrees : x.advance.advance.Agrees options us E.plain E.enclosed l)
    (h : (x.append E.enclosed l).BeginsType options) : (x.append E.plain l).BeginsType options := by
  obtain ⟨made, y, hmade⟩ := h
  have hreaches := Nonterminal.constructorType.outcome_reaches options (x.append E.enclosed l)
  rw [hmade] at hreaches
  by_cases hlt : E.enclosed.length < y.upcoming.length
  · obtain ⟨d, rfl, hd, -⟩ := hreaches.exists_append hlt
    exact ⟨made, _, Nonterminal.constructorType_append (hled.parted _) (hled.parted _) hx.suffix
      hdoubtful hagrees hd hmade⟩
  · obtain ⟨name, hname⟩ := hdoubtful.exists_name
    have hnamed : ∀ ts, (x.append ts l).current.kind = .identifier name := fun ts => by
      rw [Cursor.current_append ts l hdoubtful.ne_nil, hname]
    obtain ⟨⟨parameters, ho, -⟩, hparen⟩ := (Nonterminal.constructorType_eq_accepted_of_doubtful
      (hdoubtful.append E.enclosed l) (hnamed _)).1 hmade
    have hne : x.advance.advance.upcoming ≠ [] := by
      intro hnil
      have hleads :=
        (hled.of_last (Cursor.suffix_advance hx.suffix) hdoubtful.advance_ne_nil hnil).1
      simp [hdoubtful.less_advance] at hleads
    have houtside : E.Outside y := by
      intro hangles hu
      by_contra htaken
      have hsound : y.Sound :=
        ((hx.append hdoubtful.ne_nil).trans hreaches).sound (by rw [Cursor.before_append]; rfl)
      rcases E.kind_of_not_outside hsound hangles hu htaken with hkind | hkind <;>
        simp [hkind] at hparen
    rw [hdoubtful.advance_append] at ho
    obtain ⟨parameters', ho', -⟩ := Nonterminal.outcome_plain (n := .typeParameters name) hled rfl
      hne hx.advance.advance (hdoubtful.fresh_advance hx.suffix) hagrees (Nat.le_of_not_lt hlt)
      houtside ho
    rw [← hdoubtful.advance_append] at ho'
    exact ⟨_, y, (Nonterminal.constructorType_eq_accepted_of_doubtful
      (hdoubtful.append E.plain l) (hnamed _)).2 ⟨⟨parameters', ho', rfl⟩, hparen⟩⟩

/-- Before the expression, the same types are accepted with the parentheses and without them. -/
theorem Enclosure.Led.beginsType_iff (hread : E.IsRead n (.before (us ++ E.plain) l))
    (hx : (Cursor.before us l).Reaches x) (hdoubtful : x.Doubtful us) :
    (x.append E.plain l).BeginsType options ↔ (x.append E.enclosed l).BeginsType options := by
  induction hm : x.measure using Nat.strongRecOn generalizing x with
  | ind m ih =>
    have hlater : ∀ z, x.advance.advance.Reaches z → z.Doubtful us →
        ((z.append E.plain l).BeginsType options ↔ (z.append E.enclosed l).BeginsType options) := by
      intro z hz hdoubtful'
      have hlt := hz.measure_le
      obtain ⟨name, hname⟩ := hdoubtful.exists_name
      have := Cursor.measure_advance_lt (c := x) (by simp [hname])
      have := Cursor.measure_advance_le x.advance
      exact ih z.measure (by omega) (hx.trans hz.of_advance.of_advance) hdoubtful' rfl
    exact ⟨hled.beginsType_enclosed hread hx hdoubtful fun z hz _ h => (hlater z hz h).2,
      hled.beginsType_plain hx hdoubtful fun z hz _ h => (hlater z hz h).1⟩

end

/-- Where an expression is read as a value, it may stand in parentheses. -/
theorem Nonterminal.ReadsValue.outcome_parenthesized {E : Enclosure options l}
    (h : E.IsRead n (.before (us ++ E.plain) l)) (hus : us ≠ []) {a : n.Result}
    (ho : n.outcome options (.before (us ++ E.plain) l) = .accepted a d) :
    n.outcome options (.before (us ++ E.enclosed) l) = .accepted a d := by
  have hbefore : Cursor.before (us ++ E.plain) l = (Cursor.before us l).append E.plain l :=
    (Cursor.before_append us E.plain l l).symm
  have hfresh := Cursor.fresh_before us l
  obtain ⟨t, hled⟩ := h.exists_led ho hbefore hus (List.suffix_refl us) hfresh
  rw [← Cursor.before_append us E.enclosed l l]
  exact h.outcome_enclosed hled.parted ho hbefore fun _ =>
    ⟨List.suffix_refl us, hfresh, fun x hx _ hdoubtful => (hled.beginsType_iff h hx hdoubtful).2⟩

end Wgsl
