import Wgsl.Proofs.Speculation.Ahead

/-!
# Tokens cut short

The first tokens of a module that is accepted are followed by an invalid one instead of by the rest.
Reading does not pass over an invalid token, and before it comes there it has read the same tokens
as before. So it should stop at the invalid token, with the fault of it.

It need not: a type may have been tried at a name, and the invalid token stands in it. Then what was
met is forgotten, the name is read alone, and reading may be refused before it comes to the invalid
token again (`Module.invalid_hidden_by_trial`). This is all that can go wrong. Where no type that is
tried at one of the first tokens, and accepted before the rest, ends in the rest, the error is that
of the invalid token (`Module.ofTokens_eq_lexical`).

The proof follows both readers at once. Before the first tokens end they do the same
(`Outcome.InStep`). At their end, the one before the invalid token stops, whatever it was about to
do (`Nonterminal.stopsAt_of_invalid`), and the other one has left the first tokens, except that it
may still stand before the last of them if that is a name. So a type that ended in them was not cut.

Only the number of arguments of a bitcast is an error without a look at the next token. But
arguments end with a parenthesis, so if they end where the first tokens do, they are the same ones.
-/

namespace Wgsl

open scoped Rule.Steps

namespace Cursor

variable {us ts : List Token} {l : Location} {c d : Cursor}

/-- Of the tokens before the rest at most a name is left. -/
def AtLast (rest : List Token) (c : Cursor) : Prop :=
  c.upcoming.length ≤ rest.length ∨
    c.upcoming.length ≤ rest.length + 1 ∧ c.current.kind.isName

/-- At the end of the first tokens, no more than the others are left. -/
theorem atLast_before : (before ts l).AtLast ts := .inl (Nat.le_refl _)

/-- What is reached from there leaves no more. -/
theorem AtLast.of_reaches (h : c.AtLast ts) (hd : c.Reaches d) : d.AtLast ts := by
  rcases h with hle | ⟨hle, hname⟩
  · exact .inl (hd.suffix.length_le.trans hle)
  · obtain ⟨name, hkind⟩ := TokenKind.isName_iff.1 hname
    rcases hd.eq_or_advance (by simp [Token.afterAngle?, hkind]) with rfl | hd
    · exact .inr ⟨hle, hname⟩
    · have := hd.suffix.length_le
      rw [upcoming_advance, List.length_tail] at this
      exact .inl (by omega)

/-- Whether a name is in doubt depends on the tokens from the name on. -/
theorem Doubtful.congr (h : c.Doubtful us) (hu : d.upcoming = c.upcoming)
    (ht : d.taken = c.taken) : d.Doubtful us := by
  obtain ⟨t, rest, hcons⟩ := List.exists_cons_of_ne_nil h.ne_nil
  have hcurrent : d.current = c.current := by simp only [current, hu, hcons, ht]
  exact ⟨hcurrent ▸ h.name, by rw [following, hu, ← following, h.less], by
    rw [Fresh, hu]
    exact h.fresh⟩

/-- A name is not what is left of a token. -/
theorem Reaches.taken_eq_zero (h : (before us l).Reaches d) (hname : d.current.kind.isName) :
    d.taken = 0 := by
  have hmark : d.taken = 0 ∨ ∃ mark, d.current.kind = .symbol mark := by
    clear hname
    induction h with
    | refl => exact .inl rfl
    | @tail b _ _ hmove ih =>
      rcases hmove with rfl | rfl
      · cases hu : b.upcoming with
        | nil => rwa [advance_of_nil hu]
        | cons t rest => exact .inl (by rw [Cursor.advance, hu])
      · cases hc : b.current.afterAngle? with
        | none => rwa [split_eq hc]
        | some t =>
          obtain ⟨-, left, -, -, rfl⟩ := Token.afterAngle?_eq_some_iff.1 hc
          exact .inr ⟨left, by rw [current_split hc]⟩
  refine hmark.resolve_right ?_
  rintro ⟨mark, hmark⟩
  simp [hmark] at hname

end Cursor

/-! ## At an invalid token -/

/-- Reading stops at a cursor, with a value or with an error about the token there. -/
inductive Outcome.StopsAt {α : Type} (c : Cursor) : Outcome α → Prop
  | accepted (a : α) : StopsAt c (.accepted a c)
  | rejected {e : ParseError} (h : e.About c.current) : StopsAt c (.rejected e c)

section Invalid

variable {options : ReadOptions} {c : Cursor}

/-- At an invalid token a rule stops, if the nonterminals it reads do. -/
theorem Rule.Guarded.stopsAt {α : Type} {n : Nonterminal} {r : Production α} {s : Sight}
    {Q : α → Sight → Prop} (hn : ∀ made l, n ≠ .construction made l) (hr : r.Guarded n s Q)
    (hs : s.Matches c) (hc : c.current.kind.isInvalid)
    (ha : r.Along (fun m c => m.outcome options c)
      (fun m c => c.current.kind.isInvalid → (m.outcome options c).StopsAt c) c) :
    (r.comesTo options c).StopsAt c := by
  have noName : ¬s.IsName := by
    cases s with
    | facing t =>
      rintro ⟨name, hname⟩
      obtain rfl : c.current = t := hs
      simp [hname] at hc
    | behind closed | after t => exact id
  induction r generalizing s with
  | done a => exact .accepted a
  | fail e =>
    rcases hr with ⟨t, rfl, habout⟩ | ⟨made, l, -, hconstruction, -⟩
    · exact .rejected (hs ▸ habout)
    · exact absurd hconstruction (hn made l)
  | look k ih =>
    refine ih _ (hr _ hs.admits) rfl ha ?_
    rintro ⟨name, hname⟩
    simp [hname] at hc
  | lookBehind k ih => exact absurd hr.1 noName
  | advance k ih =>
    obtain ⟨t, rfl, ⟨-, hvalid, -⟩, -⟩ := hr
    obtain rfl : c.current = t := hs
    simp [hc] at hvalid
  | split k ih =>
    obtain ⟨t, rfl, hmore, -⟩ := hr
    obtain rfl : c.current = t := hs
    obtain ⟨u, hu⟩ := Option.isSome_iff_exists.1 hmore
    obtain ⟨mark, left, hmark, -⟩ := Token.afterAngle?_eq_some_iff.1 hu
    simp [hmark] at hc
  | read m k ih =>
    have hchild := ha.1 hc
    generalize ho : m.outcome options c = o at hchild
    cases hchild with
    | accepted a =>
      rw [Production.comesTo_read_of_accepted ho]
      exact ih a (hr.2 a) trivial (ha.2 a c ho) id
    | rejected he =>
      rw [Production.comesTo_read_of_rejected ho]
      exact .rejected he
  | attempt m k ih => exact absurd hr.1 noName

/-- At an invalid token reading stops: it takes nothing, and refuses nothing but the token. -/
theorem Nonterminal.stopsAt_of_invalid (n : Nonterminal) (hc : c.current.kind.isInvalid) :
    (n.outcome options c).StopsAt c := by
  refine outcome_induction options
    (P := fun n c => c.current.kind.isInvalid → (n.outcome options c).StopsAt c)
    (fun n c ha hc => ?_) n c hc
  by_cases hn : ∃ made l, n = .construction made l
  · obtain ⟨made, l, rfl⟩ := hn
    have hparen : c.current.kind ≠ .symbol .parenLeft := fun h => by simp [h] at hc
    have harguments : Nonterminal.arguments.outcome options c =
        .rejected (.ofToken (.symbol .parenLeft "to open argument list") c.current) c := by
      rw [outcome_eq]
      simp [Production.arguments, hparen]
    rw [outcome_eq]
    simp only [Production.ofNonterminal, Production.construction, Rule.bind_eq, Production.parse,
      Rule.read_bind, Rule.follow_read, harguments]
    exact .rejected (ParseError.about_ofToken _ _)
  · rw [outcome_eq]
    exact (Production.disciplined options n).stopsAt (by simpa using hn) trivial hc ha

end Invalid

/-! ## Two readers -/

/-- What two readers come to that begin at a cursor, the one before the rest of the tokens and the
other before an invalid token. They do the same; or the other stops at the invalid token, and the
one has left the tokens before it except for a name, or is refused. -/
inductive Outcome.InStep {α : Type} (c : Cursor) (ts ts' : List Token) (l l' : Location) :
    Outcome α → Outcome α → Prop
  | accepted {a : α} {d : Cursor} (h : c.Reaches d) :
    InStep c ts ts' l l' (.accepted a (d.append ts l)) (.accepted a (d.append ts' l'))
  | rejected {e : ParseError} {d d' : Cursor} :
    InStep c ts ts' l l' (.rejected e d) (.rejected e d')
  | cut {o o' : Outcome α} (hleft : o.IfAccepted fun _ d => d.AtLast ts)
    (hstop : o'.StopsAt (.before ts' l')) : InStep c ts ts' l l' o o'

/-- What goes in step from a later cursor does so from an earlier one. -/
theorem Outcome.InStep.of_reaches {α : Type} {c d : Cursor} {ts ts' : List Token}
    {l l' : Location} {o o' : Outcome α} (h : o.InStep d ts ts' l l' o') (hd : c.Reaches d) :
    o.InStep c ts ts' l l' o' := by
  cases h with
  | accepted h => exact .accepted (hd.trans h)
  | rejected => exact .rejected
  | cut hleft hstop => exact .cut hleft hstop

/-- Tokens can be followed by the rest, or are cut short by an invalid token. A type that is
accepted before the rest, at a name in doubt, ends in the first tokens. -/
structure CutShort (options : ReadOptions) (us ts ts' : List Token) (l l' : Location) : Prop where
  invalid : (Cursor.before ts' l').current.kind.isInvalid
  types_end : ∀ c, (Cursor.before us .start).Reaches c → c.Doubtful us →
    (Nonterminal.constructorType.outcome options (c.append ts l)).IfAccepted fun _ d =>
      ts.length < d.upcoming.length

/-- Two readers do the same from a cursor on. Where arguments end before the invalid token, they are
the same arguments. -/
def Nonterminal.ReadsCut (options : ReadOptions) (us ts ts' : List Token) (l l' : Location)
    (n : Nonterminal) (e : Cursor) : Prop :=
  ∀ c : Cursor, e = c.append ts l → (Cursor.before us .start).Reaches c → c.Fresh us →
    (n.outcome options (c.append ts l)).InStep c ts ts' l l' (n.outcome options (c.append ts' l')) ∧
      (n = .arguments → ∀ a, n.outcome options (c.append ts' l') = .accepted a (.before ts' l') →
        n.outcome options (c.append ts l) = .accepted a (.before ts l))

section TwoReaders

variable {options : ReadOptions} {us ts ts' : List Token} {l l' : Location} {c : Cursor}

namespace CutShort

/-- Where a token is valid, one of the first tokens stands. -/
theorem ne_nil (h : CutShort options us ts ts' l l')
    (hvalid : (c.append ts' l').current.kind.isInvalid = false) : c.upcoming ≠ [] := by
  intro hnil
  rw [Cursor.append_of_nil hnil, h.invalid] at hvalid
  cases hvalid

/-- An invalid token is no `<` or `(`. -/
theorem parted (h : CutShort options us ts ts' l l') : Cursor.Parted us ts' l' := by
  intro t _ _
  have hinvalid := h.invalid
  cases hkind : (Cursor.before ts' l').current.kind with
  | symbol mark => simp [hkind] at hinvalid
  | _ => rfl

/-- Behind the first tokens, a rule stops at the invalid token. -/
theorem stopsAt (h : CutShort options us ts ts' l l') {α : Type} {n : Nonterminal}
    {r : Production α} {s : Sight} {Q : α → Sight → Prop}
    (hn : ∀ made l, n ≠ .construction made l) (hr : r.Guarded n s Q)
    (hs : s.Matches (.before ts' l')) :
    (r.comesTo options (.before ts' l')).StopsAt (.before ts' l') :=
  hr.stopsAt hn hs h.invalid
    (Rule.along_of_forall (fun m _ hc => m.stopsAt_of_invalid hc) r _)

end CutShort

/-- What a rule comes to from a place that has left the first tokens has left them. -/
theorem Rule.atLast_comesTo {α : Type} (r : Production α) {d : Cursor} (hd : d.AtLast ts) :
    (r.comesTo options d).IfAccepted fun _ d => d.AtLast ts := by
  intro a d' ho
  have hreaches := outcome_reaches options r d
  rw [ho] at hreaches
  exact hd.of_reaches hreaches

/-- Where what is read comes to the last tokens, the rule does not come back. -/
theorem Rule.atLast_read {α : Type} {m : Nonterminal} (k : m.Result → Production α) {d : Cursor}
    (h : (m.outcome options d).IfAccepted fun _ d => d.AtLast ts) :
    (Production.comesTo options (.read m k) d).IfAccepted fun _ d => d.AtLast ts := by
  cases ho : m.outcome options d with
  | accepted a d' =>
    rw [Production.comesTo_read_of_accepted ho]
    exact atLast_comesTo (k a) (h a d' ho)
  | rejected e d' =>
    rw [Production.comesTo_read_of_rejected ho]
    exact nofun

/-- Where the last of the first tokens is a name, the reader that looks behind it sees the invalid
token; so it takes the name, and stops. -/
theorem CutShort.inStep_of_last (h : CutShort options us ts ts' l l') {α : Type} {n : Nonterminal}
    {k : TokenKind → Production α} {s : Stand} {g : Sight} {Q : α → Sight → Prop}
    (hn : ∀ made l, n ≠ .construction made l) (hr : (Rule.lookBehind k).Names options n s)
    (hg : (Rule.lookBehind k).Guarded n g Q) (hc : c.upcoming <:+ us)
    (hname : c.current.kind.isName) (hlast : c.advance.upcoming = []) :
    (Production.comesTo options (.lookBehind k) (c.append ts l)).InStep c ts ts' l l'
      (Production.comesTo options (.lookBehind k) (c.append ts' l')) := by
  obtain ⟨name, hkind⟩ := TokenKind.isName_iff.1 hname
  have hne := Cursor.upcoming_ne_nil (c := c) (by simp [hkind])
  have hlength : c.upcoming.length ≤ 1 := by
    have := congrArg List.length hlast
    rw [Cursor.upcoming_advance, List.length_tail, List.length_nil] at this
    omega
  obtain ⟨-, ⟨r, hparts⟩, -⟩ := hr
  have hparts := hparts _ (h.parted.following hc hname hlast)
  have hgk := hg.2 (c.append ts' l').following
  rw [hparts] at hgk
  obtain ⟨_, -, -, hgr⟩ := hgk
  refine .cut (Rule.atLast_comesTo _ (.inr ⟨?_, ?_⟩)) ?_
  · rw [Cursor.upcoming_append, List.length_append]
    omega
  · rwa [Cursor.current_append ts l hne]
  · rw [Production.comesTo, Rule.follow, hparts, Rule.follow, Cursor.advance_append ts' l' hne,
      Cursor.append_of_nil hlast]
    exact h.stopsAt hn hgr trivial

/-- What is read up to the invalid token cuts the rule that reads it. -/
theorem CutShort.inStep_of_read (h : CutShort options us ts ts' l l') {α : Type} {n m : Nonterminal}
    {k : m.Result → Production α} {g : Sight} {Q : α → Sight → Prop}
    (hn : ∀ made l, n ≠ .construction made l) (hg : (Rule.read m k).Guarded n g Q)
    (hleft : (m.outcome options (c.append ts l)).IfAccepted fun _ d => d.AtLast ts)
    (hstop : (m.outcome options (c.append ts' l')).StopsAt (.before ts' l')) :
    (Production.comesTo options (.read m k) (c.append ts l)).InStep c ts ts' l l'
      (Production.comesTo options (.read m k) (c.append ts' l')) := by
  refine .cut (Rule.atLast_read k hleft) ?_
  generalize ho : m.outcome options (c.append ts' l') = o at hstop
  cases hstop with
  | accepted b =>
    rw [Production.comesTo_read_of_accepted ho]
    exact h.stopsAt hn (hg.2 b) trivial
  | rejected he =>
    rw [Production.comesTo_read_of_rejected ho]
    exact .rejected he

/-- A type that is cut is refused, before the invalid token and before the rest: one that is
accepted ends in the first tokens. -/
theorem CutShort.type_rejected (h : CutShort options us ts ts' l l')
    (hc : (Cursor.before us .start).Reaches c) (hdoubtful : c.Doubtful us)
    (hleft : (Nonterminal.constructorType.outcome options (c.append ts l)).IfAccepted
      fun _ d => d.AtLast ts)
    (hstop : (Nonterminal.constructorType.outcome options (c.append ts' l')).StopsAt
      (.before ts' l')) :
    (∃ e d, Nonterminal.constructorType.outcome options (c.append ts l) = .rejected e d) ∧
      ∃ e d, Nonterminal.constructorType.outcome options (c.append ts' l') = .rejected e d := by
  constructor
  · cases ho : Nonterminal.constructorType.outcome options (c.append ts l) with
    | accepted made d =>
      have hparen := (Nonterminal.constructorType_eq_accepted.1 ho).2
      have hlt := h.types_end c hc hdoubtful made d ho
      rcases hleft made d ho with hle | ⟨-, hname⟩
      · omega
      · simp [hparen] at hname
    | rejected e d => exact ⟨e, d, rfl⟩
  · cases ho : Nonterminal.constructorType.outcome options (c.append ts' l') with
    | accepted made d =>
      have hparen := (Nonterminal.constructorType_eq_accepted.1 ho).2
      have hinvalid := h.invalid
      rw [ho] at hstop
      cases hstop
      simp [hparen] at hinvalid
    | rejected e d => exact ⟨e, d, rfl⟩

namespace Rule

/-- What is known where two readers follow a rule: what it minds of names and of tokens, as seen by
the reader before the invalid token, and that they do the same in the nonterminals it reads. -/
structure CutAt (options : ReadOptions) (us ts ts' : List Token) (l l' : Location) {α : Type}
    (n : Nonterminal) (r : Production α) (s : Stand) (g : Sight) (Q : α → Sight → Prop)
    (c : Cursor) : Prop where
  names : r.Names options n s
  guarded : r.Guarded n g Q
  along : r.Along (fun n c => n.outcome options c) (Nonterminal.ReadsCut options us ts ts' l l')
    (c.append ts l)
  stands : s.Holds options (us ++ ts') (c.append ts' l')
  sees : g.Matches (c.append ts' l')
  reaches : (Cursor.before us .start).Reaches c

/-- Two readers do the same that follow the rule, wherever what is needed is known of it. -/
def FollowsCut (options : ReadOptions) (us ts ts' : List Token) (l l' : Location) {α : Type}
    (n : Nonterminal) (r : Production α) : Prop :=
  ∀ {s : Stand} {g : Sight} {Q : α → Sight → Prop} {c : Cursor},
    r.CutAt options us ts ts' l l' n s g Q c →
      (r.comesTo options (c.append ts l)).InStep c ts ts' l l'
        (r.comesTo options (c.append ts' l'))

/-- What is left of the first tokens, with the invalid token and what follows it. -/
theorem CutAt.suffix {α : Type} {n : Nonterminal} {r : Production α} {s : Stand} {g : Sight}
    {Q : α → Sight → Prop} (h : r.CutAt options us ts ts' l l' n s g Q c) :
    (c.append ts' l').upcoming <:+ us ++ ts' :=
  Cursor.suffix_append h.reaches.suffix

namespace FollowsCut

variable {α : Type} {n m : Nonterminal}

/-- At the end of the first tokens the readers part: one looks at the rest, the other at the invalid
token. -/
theorem look (hcut : CutShort options us ts ts' l l') (hn : ∀ made l, n ≠ .construction made l)
    {k : Token → Production α} (ih : ∀ t, FollowsCut options us ts ts' l l' n (k t)) :
    FollowsCut options us ts ts' l l' n (.look k) := by
  rintro s g Q c ⟨hr, hg, ha, hs, hgs, hc⟩
  by_cases hnil : c.upcoming = []
  · refine .cut (atLast_comesTo _ ?_) ?_
    · rw [Cursor.append_of_nil hnil]
      exact Cursor.atLast_before
    · rw [Cursor.append_of_nil hnil] at hgs ⊢
      exact hcut.stopsAt hn hg hgs
  · have hcurrent : (c.append ts l).current = (c.append ts' l').current := by
      rw [Cursor.current_append ts l hnil, Cursor.current_append ts' l' hnil]
    rw [Along, hcurrent] at ha
    rw [Production.comesTo, follow, hcurrent]
    exact ih _ ⟨hr _ hs.admits, hg _ hgs.admits, ha, hs.look, rfl, hc⟩

/-- Before the last of the first tokens the readers part, too. -/
theorem lookBehind (hcut : CutShort options us ts ts' l l')
    (hn : ∀ made l, n ≠ .construction made l) {k : TokenKind → Production α}
    (ih : ∀ kind, FollowsCut options us ts ts' l l' n (k kind)) :
    FollowsCut options us ts ts' l l' n (.lookBehind k) := by
  rintro s g Q c ⟨hr, hg, ha, hs, hgs, hc⟩
  obtain ⟨⟨t, ht, hname⟩, -, hk⟩ := id hr
  obtain ⟨name, hkind⟩ := TokenKind.isName_iff.1 hname
  have hne := hcut.ne_nil (c := c) (by rw [hs.seen t ht, hkind]; rfl)
  by_cases hlast : c.advance.upcoming = []
  · rw [← hs.seen t ht, Cursor.current_append ts' l' hne] at hname
    exact hcut.inStep_of_last hn hr hg hc.suffix hname hlast
  · rw [Cursor.upcoming_advance] at hlast
    have hfollowing : (c.append ts l).following = (c.append ts' l').following := by
      rw [Cursor.following_append ts l hlast, Cursor.following_append ts' l' hlast]
    rw [Along, hfollowing] at ha
    rw [Production.comesTo, follow, hfollowing]
    exact ih _ ⟨hk _, hg.2 _, ha, hs.lookBehind, hgs, hc⟩

/-- What the reader before the invalid token takes is none of it. -/
theorem advance (hcut : CutShort options us ts ts' l l') {k : Production α}
    (ih : FollowsCut options us ts ts' l l' n k) :
    FollowsCut options us ts ts' l l' n (.advance k) := by
  intro s g Q c h
  obtain ⟨t, ht, hend, -, -, hk⟩ := h.names
  obtain ⟨u, rfl, ⟨-, hvalid, -⟩, hgk⟩ := h.guarded
  have hne := hcut.ne_nil (c := c) (by rwa [show (c.append ts' l').current = u from h.sees])
  have hs := h.stands.advance ht hend h.suffix
  have ha := h.along
  rw [Along, Cursor.advance_append ts l hne] at ha
  rw [Cursor.advance_append ts' l' hne] at hs
  rw [Production.comesTo, follow, Cursor.advance_append ts l hne, Production.comesTo, follow,
    Cursor.advance_append ts' l' hne]
  exact (ih ⟨hk, hgk, ha, hs, trivial, h.reaches.advance⟩).of_reaches
    (Cursor.Reaches.refl c).advance

/-- What the reader before the invalid token splits is none of it. -/
theorem split (hcut : CutShort options us ts ts' l l') {k : Production α}
    (ih : FollowsCut options us ts ts' l l' n k) :
    FollowsCut options us ts ts' l l' n (.split k) := by
  intro s g Q c h
  obtain ⟨u, rfl, hmore, hgk⟩ := h.guarded
  obtain ⟨v, hv⟩ := Option.isSome_iff_exists.1 hmore
  obtain ⟨mark, left, hmark, -⟩ := Token.afterAngle?_eq_some_iff.1 hv
  have hne := hcut.ne_nil (c := c)
    (by rw [show (c.append ts' l').current = u from h.sees, hmark]; rfl)
  have hs := h.stands.split h.names.1
  have ha := h.along
  rw [Along, Cursor.split_append ts l hne] at ha
  rw [Cursor.split_append ts' l' hne] at hs
  rw [Production.comesTo, follow, Cursor.split_append ts l hne, Production.comesTo, follow,
    Cursor.split_append ts' l' hne]
  exact (ih ⟨h.names.2, hgk, ha, hs, trivial, h.reaches.split⟩).of_reaches
    (Cursor.Reaches.refl c).split

/-- Where what is read is cut, the rule is cut with it. -/
theorem read (hcut : CutShort options us ts ts' l l') (hn : ∀ made l, n ≠ .construction made l)
    {k : m.Result → Production α} (ih : ∀ a, FollowsCut options us ts ts' l l' n (k a)) :
    FollowsCut options us ts ts' l l' n (.read m k) := by
  intro s g Q c h
  obtain ⟨hbound, hnext⟩ := h.names
  have hfresh := h.stands.fresh.1 hbound
  have hends := m.endsFresh options (us ++ ts') _ h.suffix hfresh
  have hchild := (h.along.1 c rfl h.reaches (Cursor.fresh_append.1 hfresh)).1
  generalize ho : m.outcome options (c.append ts l) = o at hchild
  generalize ho' : m.outcome options (c.append ts' l') = o' at hchild
  cases hchild with
  | @accepted b d hd =>
    rw [Production.comesTo_read_of_accepted ho, Production.comesTo_read_of_accepted ho']
    exact (ih b ⟨(hnext b).2, h.guarded.2 b, h.along.2 b _ ho, .ofFresh (hends b _ ho'), trivial,
      h.reaches.trans hd⟩).of_reaches hd
  | rejected =>
    rw [Production.comesTo_read_of_rejected ho, Production.comesTo_read_of_rejected ho']
    exact .rejected
  | cut hleft hstop => exact hcut.inStep_of_read hn h.guarded (ho ▸ hleft) (ho' ▸ hstop)

/-- Where a type that is tried is cut, both are refused it, and go on from the name. -/
theorem attempt (hcut : CutShort options us ts ts' l l')
    {k : Option m.Result → Production α} (ih : ∀ a, FollowsCut options us ts ts' l l' n (k a)) :
    FollowsCut options us ts ts' l l' n (.attempt m k) := by
  intro s g Q c h
  obtain ⟨⟨t, ht, hname⟩, hbound, -, rfl, hsome, hnone⟩ := id h.names
  obtain ⟨name, hname⟩ := TokenKind.isName_iff.1 hname
  have hne := hcut.ne_nil (c := c) (by rw [h.stands.seen t ht, hname]; rfl)
  have hfresh := h.stands.fresh.1 hbound
  have hends := Nonterminal.constructorType.endsFresh options (us ++ ts') _ h.suffix hfresh
  have hchild := (h.along.1 c rfl h.reaches (Cursor.fresh_append.1 hfresh)).1
  have hrefused : ∀ {e d e' d'},
      Nonterminal.constructorType.outcome options (c.append ts l) = .rejected e d →
        Nonterminal.constructorType.outcome options (c.append ts' l') = .rejected e' d' →
          Outcome.InStep c ts ts' l l'
            (Production.comesTo options (.attempt .constructorType k) (c.append ts l))
            (Production.comesTo options (.attempt .constructorType k) (c.append ts' l')) := by
    intro e d e' d' ho ho'
    rw [Production.comesTo_attempt_of_rejected ho, Production.comesTo_attempt_of_rejected ho']
    exact ih _ ⟨hnone, h.guarded.2.2.2, h.along.2.2 e d ho, h.stands.refuse ho', h.sees, h.reaches⟩
  generalize ho : Nonterminal.constructorType.outcome options (c.append ts l) = o at hchild
  generalize ho' : Nonterminal.constructorType.outcome options (c.append ts' l') = o' at hchild
  cases hchild with
  | @accepted b d hd =>
    have hmade := ho' ▸ Nonterminal.parse_eq_outcome options .constructorType (c.append ts' l')
    rw [Production.comesTo_attempt_of_accepted ho, Production.comesTo_attempt_of_accepted ho']
    exact (ih _ ⟨hsome b, (h.guarded.of_accepted h.sees hmade).1, h.along.2.1 b _ ho,
      .ofFresh (hends b _ ho'), trivial, h.reaches.trans hd⟩).of_reaches hd
  | rejected => exact hrefused ho ho'
  | cut hleft hstop =>
    have hdoubtful := h.names.doubtful h.stands hcut.parted hne h.reaches.suffix
    obtain ⟨⟨e, d, ho⟩, ⟨e', d', ho'⟩⟩ :=
      hcut.type_rejected h.reaches hdoubtful (ho ▸ hleft) (ho' ▸ hstop)
    exact hrefused ho ho'

end FollowsCut

/-- Two readers that follow one rule do the same, if they do so in the nonterminals it reads. -/
theorem followsCut (hcut : CutShort options us ts ts' l l') {α : Type} {n : Nonterminal}
    (hn : ∀ made l, n ≠ .construction made l) (r : Production α) :
    FollowsCut options us ts ts' l l' n r := by
  induction r with
  | done a => exact fun {s g Q c} _ => .accepted (.refl c)
  | fail e => exact fun {s g Q c} _ => .rejected
  | look k ih => exact FollowsCut.look hcut hn ih
  | lookBehind k ih => exact FollowsCut.lookBehind hcut hn ih
  | advance k ih => exact FollowsCut.advance hcut ih
  | split k ih => exact FollowsCut.split hcut ih
  | read m k ih => exact FollowsCut.read hcut hn ih
  | attempt m k ih => exact FollowsCut.attempt hcut ih

end Rule

namespace Nonterminal

/-- Arguments that end before the invalid token end with a parenthesis among the first tokens. -/
theorem arguments_same (hcut : CutShort options us ts ts' l l')
    (ha : (Production.ofNonterminal options .arguments).Along (fun n c => n.outcome options c)
      (ReadsCut options us ts ts' l l') (c.append ts l))
    (hc : (Cursor.before us .start).Reaches c) {a : List Expression}
    (ho : arguments.outcome options (c.append ts' l') = .accepted a (.before ts' l')) :
    arguments.outcome options (c.append ts l) = .accepted a (.before ts l) := by
  obtain ⟨hopen, d', hinner, hclose, hd'⟩ := arguments_eq_accepted_iff.1 ho
  have hne := hcut.ne_nil (c := c) (by rw [hopen]; rfl)
  rw [Cursor.current_append ts' l' hne] at hopen
  rw [Cursor.advance_append ts' l' hne] at hinner
  have hfresh : c.advance.Fresh us :=
    (Cursor.fresh_advance hc.suffix (by simp [hopen])).2 (by simp [hopen])
  have hchild : ReadsCut options us ts ts' l l' .expressions (c.append ts l).advance := by
    simp only [Production.ofNonterminal, Production.arguments, Rule.steps_eq, Rule.Along,
      Cursor.current_append ts l hne, hopen, ↓reduceIte] at ha
    exact ha.1
  have hsame := (hchild c.advance (Cursor.advance_append ts l hne) hc.advance hfresh).1
  rw [hinner] at hsame
  generalize hone : expressions.outcome options (c.advance.append ts l) = o at hsame
  cases hsame with
  | @accepted _ d h =>
    have hdne := hcut.ne_nil (c := d) (by rw [hclose]; rfl)
    rw [Cursor.current_append ts' l' hdne] at hclose
    have hlast : d.advance.upcoming = [] := by
      rw [Cursor.advance_append ts' l' hdne] at hd'
      have := congrArg Cursor.upcoming hd'
      simpa [Cursor.append, Cursor.before] using this
    refine arguments_eq_accepted_iff.2
      ⟨by rwa [Cursor.current_append ts l hne], d.append ts l, ?_, ?_, ?_⟩
    · rwa [Cursor.advance_append ts l hne]
    · rwa [Cursor.current_append ts l hdne]
    · rw [Cursor.advance_append ts l hdne, Cursor.append_of_nil hlast]
  | cut hleft hstop =>
    have hinvalid := hcut.invalid
    cases hstop
    simp [hclose] at hinvalid

/-- Building a value from its type and its arguments looks at nothing more. -/
theorem construction_inStep {made : TypeSpecifier} {l₀ : Location}
    (harguments : ReadsCut options us ts ts' l l' .arguments (c.append ts l))
    (hc : (Cursor.before us .start).Reaches c) (hfresh : c.Fresh us) :
    ((construction made l₀).outcome options (c.append ts l)).InStep c ts ts' l l'
      ((construction made l₀).outcome options (c.append ts' l')) := by
  obtain ⟨k, hrule, hk⟩ : ∃ k : List Expression → Production Expression,
      Production.ofNonterminal options (.construction made l₀) = .read .arguments k ∧
        ∀ a, (∃ e, k a = .done e) ∨ ∃ e, k a = .fail e := by
    refine ⟨_, rfl, fun a => ?_⟩
    simp only [Rule.done_bind]
    split
    · exact .inl ⟨_, rfl⟩
    · exact .inl ⟨_, rfl⟩
    · exact .inr ⟨_, rfl⟩
  obtain ⟨hsame, hends⟩ := harguments c rfl hc hfresh
  rw [outcome_eq, outcome_eq, hrule]
  change (Production.comesTo options (.read .arguments k) _).InStep c ts ts' l l'
    (Production.comesTo options (.read .arguments k) _)
  generalize ho : arguments.outcome options (c.append ts l) = o at hsame
  generalize ho' : arguments.outcome options (c.append ts' l') = o' at hsame
  cases hsame with
  | @accepted a d h =>
    rw [Production.comesTo_read_of_accepted ho, Production.comesTo_read_of_accepted ho']
    rcases hk a with ⟨e, hk⟩ | ⟨e, hk⟩ <;> rw [hk]
    · exact .accepted h
    · exact .rejected
  | rejected =>
    rw [Production.comesTo_read_of_rejected ho, Production.comesTo_read_of_rejected ho']
    exact .rejected
  | cut hleft hstop =>
    cases hstop with
    | accepted a =>
      obtain rfl := ho.symm.trans (hends rfl a ho')
      rw [Production.comesTo_read_of_accepted ho, Production.comesTo_read_of_accepted ho']
      rcases hk a with ⟨e, hk⟩ | ⟨e, hk⟩ <;> rw [hk]
      · exact .cut (Rule.atLast_comesTo (.done e) Cursor.atLast_before) (.accepted e)
      · exact .rejected
    | rejected he =>
      rw [Production.comesTo_read_of_rejected ho']
      exact .cut (Rule.atLast_read k (ho ▸ hleft)) (.rejected he)

/-- Tokens are read before an invalid token as before their rest, if the types end in them. -/
theorem readsCut (hcut : CutShort options us ts ts' l l') (n : Nonterminal) (e : Cursor) :
    n.ReadsCut options us ts ts' l l' e := by
  refine outcome_induction options (fun n e ha => ?_) n e
  rintro c rfl hc hfresh
  refine ⟨?_, fun hn a ho => ?_⟩
  · by_cases hn : ∃ made l₀, n = .construction made l₀
    · obtain ⟨made, l₀, rfl⟩ := hn
      exact construction_inStep ha.1 hc hfresh
    · rw [outcome_eq, outcome_eq]
      exact Rule.followsCut hcut (by simpa using hn) _
        ⟨Production.names options n, Production.disciplined options n, ha,
          .ofFresh (Cursor.fresh_append.2 hfresh), trivial, hc⟩
  · subst hn
    exact arguments_same hcut ha hc ho

end Nonterminal

end TwoReaders

/-! ## Modules -/

instance {ts : List Token} {c : Cursor} : Decidable (c.Doubtful ts) :=
  decidable_of_iff
    (c.current.kind.isName ∧ c.following = .symbol .lessThan ∧
      ∀ t ∈ ts, t :: c.upcoming <:+ ts → t.kind.bindsName = false)
    ⟨fun ⟨hname, hless, hfresh⟩ =>
      ⟨hname, hless, fun t ht => hfresh t (ht.mem List.mem_cons_self) ht⟩,
      fun h => ⟨h.name, h.less, fun t _ => h.fresh t⟩⟩

/-- A type that is tried at one of the first tokens, and accepted before the rest, ends in the first
tokens: the rest begins behind it. -/
def TypesEndIn (options : ReadOptions) (front rest : List Token) : Prop :=
  ∀ us, us <:+ front → (Cursor.ofTokens us).Doubtful front →
    (Nonterminal.constructorType.outcome options (.ofTokens (us ++ rest))).IfAccepted fun _ d =>
      (Cursor.ofTokens rest).upcoming.length < d.upcoming.length

instance {options : ReadOptions} {front rest : List Token} :
    Decidable (TypesEndIn options front rest) :=
  decidable_of_iff
    (∀ us ∈ front.tails, (Cursor.ofTokens us).Doubtful front →
      (Nonterminal.constructorType.outcome options (.ofTokens (us ++ rest))).IfAccepted fun _ d =>
        (Cursor.ofTokens rest).upcoming.length < d.upcoming.length)
    (by simp only [List.mem_tails, TypesEndIn])

/-- Types that end in the first tokens are what a cut asks for. -/
theorem CutShort.of_typesEndIn {options : ReadOptions} {front rest ts' : List Token}
    {l' : Location} (hfront : ∀ t ∈ front, t.kind ≠ .endOfFile)
    (htypes : TypesEndIn options front rest)
    (hinvalid : (Cursor.before ts' l').current.kind.isInvalid) :
    CutShort options front (rest.takeWhile (·.kind ≠ .endOfFile)) ts'
      (Cursor.finishOf .start (front ++ rest)) l' := by
  refine ⟨hinvalid, fun c hreaches hc => ?_⟩
  have htaken := hreaches.taken_eq_zero hc.name
  obtain ⟨past, hpast⟩ : c.upcoming <:+ front := hreaches.suffix
  have hpastEnd : ∀ t ∈ past, t.kind ≠ .endOfFile := fun t ht => hfront t (by simp [← hpast, ht])
  have hupcoming : ∀ t ∈ c.upcoming, t.kind ≠ .endOfFile :=
    fun t ht => hfront t (by simp [← hpast, ht])
  have hfinish : Cursor.finishOf .start (front ++ rest) =
      Cursor.finishOf .start (c.upcoming ++ rest) := by
    rw [← hpast, List.append_assoc]
    exact @Cursor.finishOf_append_congr [] past _ nofun hpastEnd (by simp [hc.ne_nil]) .start
  have hsame : c.append (rest.takeWhile (·.kind ≠ .endOfFile))
      (Cursor.finishOf .start (front ++ rest)) = .ofTokens (c.upcoming ++ rest) := by
    rw [Cursor.ofTokens_append_eq_before hupcoming, hfinish]
    simp [Cursor.append, Cursor.before, htaken]
  rw [hsame]
  refine htypes c.upcoming ⟨past, hpast⟩ ?_
  exact hc.congr (List.takeWhile_eq_self_iff.2 (by simpa using hupcoming)) htaken.symm

namespace Module

/-- Where the first tokens of a module are cut short by an invalid token, the error is the fault of
that token, if the types that are tried in them end in them. -/
theorem ofTokens_eq_lexical {front rest back : List Token} {text : String} {fault : LexicalFault}
    {l : Location} {options : ReadOptions} {m : Module}
    (hfront : ∀ t ∈ front, t.kind ≠ .endOfFile)
    (hm : Module.ofTokens (front ++ rest) options = .ok m)
    (htypes : TypesEndIn options front rest) :
    Module.ofTokens (front ++ ⟨.invalid text fault, l⟩ :: back) options =
      .error (.lexical fault text l) := by
  have hcursor := fun us => Cursor.ofTokens_append_eq_before hfront us
  simp only [← Cursor.before_append front _ _ .start] at hcursor
  have hcut := @CutShort.of_typesEndIn options front rest
    ((⟨.invalid text fault, l⟩ :: back).takeWhile (·.kind ≠ .endOfFile))
    (Cursor.finishOf .start (front ++ ⟨.invalid text fault, l⟩ :: back)) hfront htypes rfl
  have hsame := (Nonterminal.readsCut hcut .declarations _ (.before front .start) rfl (.refl _)
    (Cursor.fresh_before front .start)).1
  -- the invalid token is not the end of the file
  have hnever : ∀ m' d', Nonterminal.declarations.outcome options
      (.ofTokens (front ++ ⟨.invalid text fault, l⟩ :: back)) = .accepted m' d' →
        d'.upcoming = [] := fun m' d' =>
    Nonterminal.upcoming_declarations (Cursor.lacks_endOfFile_ofTokens _)
  obtain ⟨d, hd⟩ := ofTokens_eq_ok_iff.1 hm
  rw [← hcursor, ← hcursor, hd] at hsame
  generalize ho : Nonterminal.declarations.outcome options
    (.ofTokens (front ++ ⟨.invalid text fault, l⟩ :: back)) = o at hsame
  cases hsame with
  | @accepted _ d h => simpa [Cursor.upcoming_append] using hnever _ _ ho
  | cut hleft hstop =>
    cases hstop with
    | accepted a => simpa [Cursor.before] using hnever _ _ ho
    | rejected he =>
      rcases he with ⟨expected, rfl⟩ | ⟨construct, hkind, -⟩
      · exact ofTokens_eq_error_iff.2 ⟨_, ho⟩
      · cases construct <;> cases hkind

/-- The type that is tried at `vec2` ends in the first tokens, and the one tried at `a` is refused
before the rest of them as well. -/
theorem ofTokens_eq_lexical_of_arguments :
    Module.ofTokens (tokenize "const x = vec2<f32>(a < b, #);") =
      .error (.lexical .unexpectedCharacter "#" ⟨1, 28⟩) := by
  have hcut : tokenize "const x = vec2<f32>(a < b, #);" =
      (tokenize "const x = vec2<f32>(a < b, c);").take 12 ++
        ⟨.invalid "#" .unexpectedCharacter, ⟨1, 28⟩⟩ ::
          (tokenize "const x = vec2<f32>(a < b, #);").drop 13 := by
    decide +kernel
  obtain ⟨m, hm⟩ := @exists_eq_ok (Module.ofTokens
    ((tokenize "const x = vec2<f32>(a < b, c);").take 12 ++
      (tokenize "const x = vec2<f32>(a < b, c);").drop 12)) (by decide +kernel)
  rw [hcut]
  exact ofTokens_eq_lexical (by decide +kernel) hm (by decide +kernel)

/-- Without the condition the invalid token can be hidden. In `array<f32, #>(1)` it stands in the
type that is tried at `array`. As the type is refused, `array < f32` is read as a comparison, and
the error is about the `,` behind it, though with `4` for the invalid token the type is accepted. -/
theorem invalid_hidden_by_trial :
    tokenize "const x = array<f32, #>(1);" =
      (tokenize "const x = array<f32, 4>(1);").take 7 ++
        ⟨.invalid "#" .unexpectedCharacter, ⟨1, 22⟩⟩ ::
          (tokenize "const x = array<f32, #>(1);").drop 8 ∧
    (∀ t ∈ (tokenize "const x = array<f32, 4>(1);").take 7,
      t.kind ≠ .endOfFile ∧ t.kind.isInvalid = false) ∧
    (∃ m, Module.ofTokens ((tokenize "const x = array<f32, 4>(1);").take 7 ++
      (tokenize "const x = array<f32, 4>(1);").drop 7) = .ok m) ∧
    Module.ofTokens (tokenize "const x = array<f32, #>(1);") =
      .error (.unexpected (.symbol .semicolon "after variable declaration") (.symbol .comma)
        ⟨1, 20⟩) :=
  ⟨by decide +kernel, by decide +kernel, exists_eq_ok (by decide +kernel),
    eq_error (by decide +kernel)⟩

end Module

end Wgsl
