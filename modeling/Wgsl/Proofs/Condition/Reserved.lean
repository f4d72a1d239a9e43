import Wgsl.Proofs.Redundant.Plain

/-!
# Types before a reserved word

No expression and no type goes past a word with a meaning of its own, unless a `.` or a `@` directly
before makes a name of it. So where tokens end with such a word (`EndsReserved`), whatever belongs
to an expression and begins among them ends among them
(`EndsReserved.exists_append_of_outcome`). Types that are tried there are accepted or refused
whatever follows (`EndsReserved.agrees`).
-/

namespace Wgsl

open scoped Rule.Steps

/-- The tokens end with a reserved word, and with no `.` or `@` before it. -/
structure EndsReserved (us : List Token) (t : Token) : Prop where
  last : us.getLast? = some t
  reserved : t.kind.isReserved = true
  free : ∀ u, [u, t] <:+ us → u.kind.bindsName = false

variable {options : ReadOptions} {us ts ts' : List Token} {t : Token} {l : Location}
variable {n : Nonterminal} {c d x : Cursor}

namespace EndsReserved

/-- Tokens that end with a reserved word do not end with a name. -/
theorem parted (h : EndsReserved us t) (ts : List Token) : Cursor.Parted us ts l := by
  intro u hu hname
  obtain rfl : t = u := Option.some.inj (h.last.symm.trans hu)
  obtain ⟨name, hname⟩ := TokenKind.isName_iff.1 hname
  have := h.reserved
  simp [hname] at this

/-- Before the last of the tokens, a reserved word is to be read, and it is no name. -/
theorem of_last (h : EndsReserved us t) (hc : c.upcoming <:+ us) (hne : c.upcoming ≠ [])
    (hlast : c.advance.upcoming = []) : c.current.kind.isReserved = true ∧ c.Fresh us := by
  obtain ⟨u, hu, hupcoming⟩ := Cursor.last_of_advance hc hne hlast
  obtain rfl : t = u := Option.some.inj (h.last.symm.trans hu)
  refine ⟨?_, fun v hv => h.free v (by rwa [hupcoming] at hv)⟩
  have hreserved := h.reserved
  have hwhole : t.afterAngle? = none := by
    cases hkind : t.kind with
    | symbol mark => simp [hkind] at hreserved
    | _ => simp [Token.afterAngle?, hkind]
  have hcurrent : c.current = t.afterAngles c.taken := by rw [Cursor.current, hupcoming]
  rwa [hcurrent, Token.afterAngles_of_none hwhole]

end EndsReserved

/-- What belongs to an expression, and begins among the tokens, ends among them. -/
def Nonterminal.EndsWithin (options : ReadOptions) (us ts : List Token) (l : Location)
    (n : Nonterminal) (e : Cursor) : Prop :=
  ∀ c : Cursor, e = c.append ts l → n.inExpression = true → c.upcoming ≠ [] → c.upcoming <:+ us →
    c.Fresh us → (n.outcome options (c.append ts l)).IfAccepted fun _ d =>
      ts.length < d.upcoming.length

namespace Rule

variable {α : Type} {r : Production α} {s : Stand} {R : α → α → Prop}

/-- Of every rule, nothing is asked along it. -/
theorem always_trivial (r : Production α) (seen : Option Token) :
    r.Always (fun _ _ => True) seen := by
  induction r generalizing seen with
  | done | fail => trivial
  | look _ ih => exact ⟨trivial, fun t _ => ih t (some t)⟩
  | lookBehind _ ih => exact ⟨trivial, fun kind => ih kind seen⟩
  | advance _ ih | split _ ih => exact ⟨trivial, ih none⟩
  | read _ _ ih => exact ⟨trivial, fun a => ih a none⟩
  | attempt _ _ ih => exact ⟨trivial, fun a => ih (some a) none, ih none seen⟩

/-- A rule of an expression does not leave the tokens: the last of them it does not take, and what
it reads does not either. -/
theorem Names.endsWithin (h : EndsReserved us t) (hr : r.Names options n s)
    (hn : n.inExpression = true) (htwins : r.Twins R r)
    (ha : r.Along (fun n c => n.outcome options c) (Nonterminal.EndsWithin options us ts l)
      (c.append ts l))
    (hs : s.Holds options (us ++ ts) (c.append ts l)) (hne : c.upcoming ≠ [])
    (hc : c.upcoming <:+ us) :
    (r.comesTo options (c.append ts l)).IfAccepted fun _ d => ts.length < d.upcoming.length := by
  intro a d ho
  by_contra hle
  obtain ⟨r₁, e, he, hreaches, hremains, hleaves⟩ :=
    exists_leaves hne (Nat.le_of_not_lt hle) (remains_of_accepted ho)
  obtain ⟨s₁, hr₁, -, hs₁, -⟩ :=
    hr.remains (always_trivial r s.seen) hs (Cursor.suffix_append hc) hremains
  have htwins₁ := htwins.remains hremains
  have ha₁ := ha.remains hremains
  have he' := hreaches.suffix.trans hc
  cases hleaves with
  | advance hlast _ =>
    obtain ⟨u, hu, -, hbound, -, -⟩ := hr₁
    obtain rfl := hs₁.seen u hu
    obtain ⟨hreserved, hfresh⟩ := h.of_last he' he hlast
    rw [Cursor.current_append _ l he] at hbound
    have hfree := hs₁.fresh.2 (Cursor.fresh_append.2 hfresh)
    rw [hbound hreserved, hn] at hfree
    cases hfree
  | read hm hf _ =>
    have hinside := Nonterminal.kin_self_iff.1 htwins₁.1
    have hfresh := Cursor.fresh_append.1 (hs₁.fresh.1 hr₁.1)
    exact absurd (ha₁.1 e rfl hinside he he' hfresh _ _ hm) (Nat.not_lt.2 hf)
  | take hm hf _ =>
    have hinside := Nonterminal.kin_self_iff.1 htwins₁.1
    obtain ⟨-, hbound, -⟩ := hr₁
    have hfresh := Cursor.fresh_append.1 (hs₁.fresh.1 hbound)
    exact absurd (ha₁.1 e rfl hinside he he' hfresh _ _ hm) (Nat.not_lt.2 hf)

end Rule

namespace EndsReserved

variable (h : EndsReserved us t)
include h

/-- What belongs to an expression, and begins before the word, leaves the word. -/
theorem exists_append_of_outcome (hn : n.inExpression = true) (hne : c.upcoming ≠ [])
    (hc : c.upcoming <:+ us) (hfresh : c.Fresh us) {a : n.Result} {e : Cursor}
    (ho : n.outcome options (c.append ts l) = .accepted a e) :
    ∃ d, e = d.append ts l ∧ d.upcoming ≠ [] ∧ c.Reaches d := by
  have hwithin : n.EndsWithin options us ts l (c.append ts l) := by
    refine Nonterminal.outcome_induction options (fun n e ha => ?_) n _
    rintro c rfl hn hne hc hfresh
    rw [Nonterminal.outcome_eq]
    exact (Production.names options n).endsWithin h hn
      (Production.twins options (Nonterminal.kin_self_iff.2 hn)) ha
      (.ofFresh (Cursor.fresh_append.2 hfresh)) hne hc
  have hreaches := n.outcome_reaches options (c.append ts l)
  rw [ho] at hreaches
  exact hreaches.exists_append (hwithin c rfl hn hne hc hfresh a e ho)

/-- Whatever follows the word, the same types are accepted before it. -/
theorem agrees (hc : c.upcoming <:+ us) : c.Agrees options us ts ts' l := by
  rintro x hx - hdoubtful
  replace hc := hx.suffix.trans hc
  clear hx
  induction hm : x.measure using Nat.strongRecOn generalizing x ts ts' with
  | ind m ih =>
    rintro ⟨made, y, hmade⟩
    obtain ⟨d, rfl, hd, -⟩ :=
      h.exists_append_of_outcome rfl hdoubtful.ne_nil hc hdoubtful.fresh hmade
    refine ⟨made, _, Nonterminal.constructorType_append (h.parted _) (h.parted _) hc hdoubtful
      (fun z hz _ hz' => ?_) hd hmade⟩
    obtain ⟨name, hname⟩ := hdoubtful.exists_name
    have := Cursor.measure_advance_lt (c := x) (by simp [hname])
    have := Cursor.measure_advance_le x.advance
    have := hz.measure_le
    exact ih z.measure (by omega) z hz'
      (hz.suffix.trans (Cursor.suffix_advance (Cursor.suffix_advance hc))) rfl

end EndsReserved

end Wgsl
