import Wgsl.Proofs.Discipline
import Wgsl.Proofs.Speculation.Names

/-!
# What is tried ends with what is read

A name before a `<` is in doubt where a type may be tried at it (`Cursor.Doubtful`). If one is
accepted there, then whoever reads past the name reads that type, and so comes at least to its end:
no reading stops inside a type that could be constructed (`Nonterminal.outcome_comesPast`). Reading
may be accepted or refused. It does not matter whether it comes to the name by trying a type there
or by reading one.
-/

namespace Wgsl

open scoped Rule.Steps

namespace Token

/-- What is left of a split token binds a name if the token does. -/
theorem bindsName_afterAngles (t : Token) (n : Nat) :
    (t.afterAngles n).kind.bindsName = t.kind.bindsName := by
  refine t.afterAngles_kind_congr TokenKind.bindsName (fun mark left h => ?_) n
  cases mark <;> cases h <;> rfl

end Token

namespace Cursor

variable {ts : List Token} {c d : Cursor}

/-- Directly behind a token, what is asked of the last token is asked of the token, if no split
changes it. -/
theorem forall_behind_advance_iff {f : TokenKind → Bool}
    (hf : ∀ (t : Token) n, f (t.afterAngles n).kind = f t.kind) (hc : c.upcoming <:+ ts)
    (hend : c.current.kind ≠ .endOfFile) :
    (∀ t, t :: c.advance.upcoming <:+ ts → f t.kind = false) ↔ f c.current.kind = false := by
  obtain ⟨t, rest, hu, hcurrent⟩ := exists_upcoming_eq_cons hend
  have hrest : c.advance.upcoming = rest := by rw [upcoming_advance, hu, List.tail_cons]
  rw [hcurrent, hf]
  constructor
  · exact fun h => h t (by rwa [hrest, ← hu])
  · intro h u hu'
    rw [hrest] at hu'
    rw [hu] at hc
    have heq := List.suffix_of_suffix_length_le hu' hc (by simp)
    rw [List.cons.inj (heq.eq_of_length (by simp)) |>.1]
    exact h

/-- In a sequence of tokens, the cursor does not stand directly behind a `.` or a `@`. -/
def Fresh (ts : List Token) (c : Cursor) : Prop :=
  ∀ t, t :: c.upcoming <:+ ts → t.kind.bindsName = false

/-- Behind a token, it depends on the token. -/
theorem fresh_advance (hc : c.upcoming <:+ ts) (hend : c.current.kind ≠ .endOfFile) :
    c.advance.Fresh ts ↔ c.current.kind.bindsName = false :=
  forall_behind_advance_iff Token.bindsName_afterAngles hc hend

private theorem fresh_split : c.split.Fresh ts ↔ c.Fresh ts := by
  rw [Fresh, Fresh, upcoming_split]

/-- A name before a `<` that may begin a type. -/
structure Doubtful (ts : List Token) (c : Cursor) : Prop where
  name : c.current.kind.isName
  less : c.following = .symbol .lessThan
  fresh : c.Fresh ts

namespace Doubtful

/-- What is in doubt is a name. -/
theorem exists_name (h : c.Doubtful ts) : ∃ name, c.current.kind = .identifier name :=
  TokenKind.isName_iff.1 h.name

/-- Behind a name in doubt stands the `<`. -/
theorem less_advance (h : c.Doubtful ts) : c.advance.current.kind = .symbol .lessThan := by
  rw [← following_eq, h.less]

end Doubtful

/-- A name is not what is left of a token. -/
theorem Reaches.eq_or_advance_of_isName (h : c.Reaches d) (hd : d.current.kind.isName) :
    c = d ∨ c.advance.Reaches d := by
  cases hc : c.current.afterAngle? with
  | none => exact h.eq_or_advance hc
  | some rest =>
    refine h.upcoming_eq_or_advance.imp_left fun hu => ?_
    obtain ⟨mark, left, hmark, hleft, -⟩ := Token.afterAngle?_eq_some_iff.1 hc
    obtain ⟨t, us, hcons, hcurrent⟩ := exists_upcoming_eq_cons (c := c) (by simp [hmark])
    have hsame : ∀ n, (t.afterAngles n).kind.isName = t.kind.isName := fun n =>
      t.afterAngles_kind_congr TokenKind.isName (fun _ _ _ => rfl) n
    have hname : d.current.kind.isName = c.current.kind.isName := by
      rw [current, current, hu, hcons]
      simp only [hsame]
    rw [hname, hmark] at hd
    cases hd

/-- A name is not what is left of a token, so splitting comes no further. -/
theorem Reaches.split_of_isName (h : c.Reaches d) (hd : d.current.kind.isName) :
    c.split.Reaches d := by
  rcases h.eq_or_split with rfl | h
  · obtain ⟨name, hname⟩ := TokenKind.isName_iff.1 hd
    rw [split_eq (by simp [Token.afterAngle?, hname])]
  · exact h

/-- Of two cursors that are reached, one stands before the other or is reached from it. -/
theorem Reaches.before_or_reaches {x : Cursor} (h : c.Reaches d) (hx : c.Reaches x) :
    x.Reaches d ∧ x ≠ d ∨ d.Reaches x := by
  by_cases heq : x = d
  · exact .inr (heq ▸ .refl x)
  · exact (h.total hx).symm.imp_left fun h => ⟨h, heq⟩

end Cursor

namespace Nonterminal

variable {options : ReadOptions} {c d : Cursor}

/-! ## Types -/

/-- What reading a type comes to behind its attributes: it is a name, and parameters if a `<`
follows. -/
def namedOutcome (options : ReadOptions) (attributes : List Attribute) (c : Cursor) :
    Outcome TypeSpecifier :=
  match c.current.kind with
  | .identifier name =>
    if c.advance.current.kind = .symbol .lessThan then
      ((typeParameters name).outcome options c.advance.advance).bind fun parameters d =>
        .accepted ⟨attributes, name, parameters, c.current.location⟩ d
    else .accepted ⟨attributes, name, .none, c.current.location⟩ c.advance
  | _ => .rejected (.ofToken (.identifier "for type") c.current) c

/-- A type is read as its attributes and what is behind them. -/
theorem type_outcome_eq (options : ReadOptions) (c : Cursor) :
    Nonterminal.type.outcome options c =
      (Nonterminal.attributes.outcome options c).bind (namedOutcome options) := by
  rw [outcome_eq]
  simp only [Production.ofNonterminal, Production.type, Rule.bind_eq, Rule.read_bind,
    Rule.follow_read]
  congr 1
  funext attributes d
  rw [namedOutcome]
  cases hd : d.current.kind <;> simp [hd, TokenKind.name?, Rule.follow_ite]

/-- With a `<` behind its name, a type has parameters. -/
theorem namedOutcome_of_less {name : String} (hname : c.current.kind = .identifier name)
    (hless : c.advance.current.kind = .symbol .lessThan) (attributes : List Attribute) :
    namedOutcome options attributes c =
      ((typeParameters name).outcome options c.advance.advance).bind fun parameters d =>
        .accepted ⟨attributes, name, parameters, c.current.location⟩ d := by
  simp only [namedOutcome, hname, hless, if_true]

/-- Without a `<` behind its name, a type is the name alone. -/
theorem namedOutcome_of_not_less {name : String} (hname : c.current.kind = .identifier name)
    (hless : c.advance.current.kind ≠ .symbol .lessThan) (attributes : List Attribute) :
    namedOutcome options attributes c =
      .accepted ⟨attributes, name, .none, c.current.location⟩ c.advance := by
  simp only [namedOutcome, hname, if_neg hless]

/-- Where no name stands, no type is read. -/
theorem namedOutcome_of_not_isName (hname : ¬c.current.kind.isName) (attributes : List Attribute) :
    namedOutcome options attributes c =
      .rejected (.ofToken (.identifier "for type") c.current) c := by
  rw [namedOutcome]
  split
  · rename_i name h
    simp [h] at hname
  · rfl

private theorem namedOutcome_reaches (options : ReadOptions) (attributes : List Attribute)
    (c : Cursor) :
    c.Reaches (namedOutcome options attributes c).cursor := by
  by_cases hname : c.current.kind.isName
  · obtain ⟨name, hname⟩ := TokenKind.isName_iff.1 hname
    by_cases hless : c.advance.current.kind = .symbol .lessThan
    · rw [namedOutcome_of_less hname hless]
      have hparameters := (typeParameters name).outcome_reaches options c.advance.advance
      cases ho : (typeParameters name).outcome options c.advance.advance <;>
        simpa [ho] using (ho ▸ hparameters).of_advance.of_advance
    · rw [namedOutcome_of_not_less hname hless]
      exact (Cursor.Reaches.refl c).advance
  · rw [namedOutcome_of_not_isName hname]
    exact .refl c

/-- A type to construct is a type before a `(`. -/
theorem constructorType_eq_accepted {made : TypeSpecifier} :
    Nonterminal.constructorType.outcome options c = .accepted made d ↔
      Nonterminal.type.outcome options c = .accepted made d ∧
        d.current.kind = .symbol .parenLeft := by
  rw [outcome_eq]
  cases ho : Nonterminal.type.outcome options c with
  | accepted a e =>
    by_cases he : e.current.kind = .symbol .parenLeft
    · simp only [Production.ofNonterminal, Production.constructorType, decide_eq_true_eq,
        Rule.follow_steps, ho, he, ↓reduceIte, Outcome.accepted.injEq, iff_self_and, and_imp]
      rintro rfl rfl
      exact he
    · simp only [Production.ofNonterminal, Production.constructorType, decide_eq_true_eq,
        Rule.follow_steps, ho, he, ↓reduceIte, reduceCtorEq, Outcome.accepted.injEq, false_iff,
        not_and, and_imp]
      rintro rfl rfl
      exact he
  | rejected e d => simp [Production.constructorType, ho]

/-- With a `<` behind its name, a type to construct is its parameters before a `(`. -/
theorem constructorType_eq_accepted_of_less {name : String}
    (hname : c.current.kind = .identifier name)
    (hless : c.advance.current.kind = .symbol .lessThan) {made : TypeSpecifier} :
    Nonterminal.constructorType.outcome options c = .accepted made d ↔
      (∃ parameters, (typeParameters name).outcome options c.advance.advance =
        .accepted parameters d ∧ made = ⟨[], name, parameters, c.current.location⟩) ∧
        d.current.kind = .symbol .parenLeft := by
  rw [constructorType_eq_accepted, type_outcome_eq, attributes_outcome_of_name options hname,
    Outcome.accepted_bind, namedOutcome_of_less hname hless]
  cases (typeParameters name).outcome options c.advance.advance with
  | accepted parameters e =>
    simp only [Outcome.accepted_bind]
    grind
  | rejected e d => simp

/-- Where a name is in doubt, a type to construct is its parameters before a `(`. -/
theorem constructorType_eq_accepted_of_doubtful {ts : List Token} (hc : c.Doubtful ts)
    {name : String} (hname : c.current.kind = .identifier name) {made : TypeSpecifier} :
    Nonterminal.constructorType.outcome options c = .accepted made d ↔
      (∃ parameters, (typeParameters name).outcome options c.advance.advance =
        .accepted parameters d ∧ made = ⟨[], name, parameters, c.current.location⟩) ∧
        d.current.kind = .symbol .parenLeft :=
  constructorType_eq_accepted_of_less hname hc.less_advance

/-- Arguments are expressions in parentheses. -/
theorem arguments_eq_accepted_iff {es : List Expression} {c' : Cursor} :
    Nonterminal.arguments.outcome options c = .accepted es c' ↔
      c.current.kind = .symbol .parenLeft ∧ ∃ d,
        Nonterminal.expressions.outcome options c.advance = .accepted es d ∧
          d.current.kind = .symbol .parenRight ∧ d.advance = c' := by
  rw [outcome_eq]
  by_cases hopen : c.current.kind = .symbol .parenLeft
  · cases hes : Nonterminal.expressions.outcome options c.advance with
    | accepted es d =>
      by_cases hclose : d.current.kind = .symbol .parenRight
      · simp [Production.arguments, hopen, hes, hclose]
      · simp [Production.arguments, hopen, hes, hclose]
    | rejected e d => simp [Production.arguments, hopen, hes]
  · simp [Production.arguments, hopen]

end Nonterminal

/-! ## Rules -/

/-- A rule's knowledge holds where a cursor stands in a sequence of tokens. -/
structure Stand.Holds (options : ReadOptions) (ts : List Token) (s : Stand) (c : Cursor) :
    Prop where
  seen : ∀ t ∈ s.seen, c.current = t
  fresh : s.bound = false ↔ c.Fresh ts
  behind : ∀ kind ∈ s.behind, c.following = kind
  refused : s.refused = true → ∀ made d,
    Nonterminal.constructorType.outcome options c ≠ .accepted made d

namespace Stand.Holds

variable {options : ReadOptions} {ts : List Token} {s : Stand} {c : Cursor}

/-- What the rule knows of the token admits it. -/
theorem admits (h : s.Holds options ts c) : s.Admits c.current := h.seen

/-- A rule begins with no knowledge but that nothing binds what is read. -/
theorem ofFresh (h : c.Fresh ts) : Stand.fresh.Holds options ts c :=
  ⟨nofun, by simpa using h, nofun, nofun⟩

/-- Looked at, the token is known. -/
theorem look (h : s.Holds options ts c) :
    Stand.Holds options ts { s with seen := some c.current } c :=
  ⟨by simp, h.fresh, h.behind, h.refused⟩

/-- Looked behind, the kind of the next token is known. -/
theorem lookBehind (h : s.Holds options ts c) :
    Stand.Holds options ts { s with behind := some c.following } c :=
  ⟨h.seen, h.fresh, by simp, h.refused⟩

/-- Behind a token, only its kind is known to bind or not. -/
theorem advance {t : Token} (h : s.Holds options ts c) (ht : s.seen = some t)
    (hend : t.kind ≠ .endOfFile) (hc : c.upcoming <:+ ts) :
    Stand.Holds options ts ⟨none, t.kind.bindsName, none, false⟩ c.advance := by
  obtain rfl : c.current = t := h.seen t ht
  exact ⟨nofun, (Cursor.fresh_advance hc hend).symm, nofun, nofun⟩

/-- What is left of a token is not bound. -/
theorem split (h : s.Holds options ts c) (hbound : s.bound = false) :
    Stand.fresh.Holds options ts c.split :=
  ofFresh (Cursor.fresh_split.2 (h.fresh.1 hbound))

/-- Where a type has been tried and refused, this is known. -/
theorem refuse {e : ParseError} {d : Cursor} (h : s.Holds options ts c)
    (hrefused : Nonterminal.constructorType.outcome options c = .rejected e d) :
    Stand.Holds options ts { s with refused := true } c :=
  ⟨h.seen, h.fresh, h.behind, fun _ made d h => by simp [hrefused] at h⟩

/-- Where a type is accepted at a name in doubt, the rule knows nothing against it. -/
theorem doubts {made : TypeSpecifier} {d : Cursor} (h : s.Holds options ts c) (hc : c.Doubtful ts)
    (hmade : Nonterminal.constructorType.outcome options c = .accepted made d) : s.Doubts := by
  refine ⟨h.fresh.2 hc.fresh, ?_, fun kind hkind => (h.behind kind hkind).symm.trans hc.less⟩
  by_contra hrefused
  exact h.refused (by simpa using hrefused) made d hmade

end Stand.Holds

/-- Reading a nonterminal does not end directly behind a `.` or a `@`. -/
def Nonterminal.EndsFresh (options : ReadOptions) (ts : List Token) (n : Nonterminal) (c : Cursor) :
    Prop :=
  c.upcoming <:+ ts → c.Fresh ts → (n.outcome options c).IfAccepted fun _ d => d.Fresh ts

namespace Rule

variable {options : ReadOptions} {ts : List Token} {n : Nonterminal} {s : Stand} {c : Cursor}
variable {α : Type} {r : Production α}

/-- A rule ends where no `.` or `@` stands directly before, if what it reads does. -/
theorem Names.endsFresh (hr : r.Names options n s)
    (ha : r.Along (fun n c => n.outcome options c) (Nonterminal.EndsFresh options ts) c)
    (hs : s.Holds options ts c) (hc : c.upcoming <:+ ts) :
    (r.comesTo options c).IfAccepted fun _ d => d.Fresh ts := by
  induction r generalizing s c with
  | done a => simpa [Production.comesTo] using hs.fresh.1 hr
  | fail e => simp [Production.comesTo]
  | look k ih => exact ih c.current (hr _ hs.admits) ha hs.look hc
  | lookBehind k ih => exact ih c.following (hr.2.2 _) ha hs.lookBehind hc
  | advance k ih =>
    obtain ⟨t, ht, hend, -, -, hk⟩ := hr
    exact ih hk ha (hs.advance ht hend hc) (Cursor.suffix_advance hc)
  | split k ih => exact ih hr.2 ha (hs.split hr.1) (Cursor.suffix_split hc)
  | read m k ih =>
    have hm := ha.1 hc (hs.fresh.1 hr.1)
    have hsuffix := m.outcome_suffix options hc
    cases ho : m.outcome options c with
    | accepted a d =>
      rw [ho] at hsuffix
      rw [Production.comesTo_read_of_accepted ho]
      exact ih a (hr.2 a).2 (ha.2 a d ho) (.ofFresh (hm a d ho)) hsuffix
    | rejected e d => simp [Production.comesTo_read_of_rejected ho]
  | attempt m k ih =>
    obtain ⟨-, hbound, -, rfl, hsome, hnone⟩ := hr
    have hm := ha.1 hc (hs.fresh.1 hbound)
    have hsuffix := Nonterminal.constructorType.outcome_suffix options hc
    cases ho : Nonterminal.constructorType.outcome options c with
    | accepted a d =>
      rw [ho] at hsuffix
      rw [Production.comesTo_attempt_of_accepted ho]
      exact ih _ (hsome a) (ha.2.1 a d ho) (.ofFresh (hm a d ho)) hsuffix
    | rejected e d =>
      rw [Production.comesTo_attempt_of_rejected ho]
      exact ih _ hnone (ha.2.2 e d ho) (hs.refuse ho) hc

end Rule

/-- No reading ends directly behind a `.` or a `@`. -/
theorem Nonterminal.endsFresh (options : ReadOptions) (ts : List Token) (n : Nonterminal)
    (c : Cursor) : n.EndsFresh options ts c :=
  outcome_induction options (fun n c ha hc hfresh => by
    rw [outcome_eq]
    exact (Production.names options n).endsFresh ha (.ofFresh hfresh) hc) n c

/-! ## No reading stops inside a type -/

/-- Reading has come past a type that begins at a cursor and ends at another, or it has stopped
directly behind the name. -/
def Outcome.ComesPast {α : Type} (n : Nonterminal) (x y : Cursor) (o : Outcome α) : Prop :=
  y.Reaches o.cursor ∨ x.advance = o.cursor ∧ o.IfAccepted fun _ _ => n = .furtherNames

/-- Whoever reads past a name in doubt reads past the type that may be tried there, if one is
accepted. -/
def Nonterminal.PassesTypes (options : ReadOptions) (ts : List Token) (n : Nonterminal)
    (c : Cursor) : Prop :=
  c.upcoming <:+ ts → c.Fresh ts → ∀ x y made, x.Doubtful ts →
    Nonterminal.constructorType.outcome options x = .accepted made y → c.Reaches x →
    x.Reaches (n.outcome options c).cursor → x ≠ (n.outcome options c).cursor →
    (n.outcome options c).ComesPast n x y

namespace Rule

variable {options : ReadOptions} {ts : List Token} {n : Nonterminal} {s : Stand} {c x y : Cursor}
variable {α : Type} {r : Production α} {made : TypeSpecifier}

/-- A rule comes to a place that can be reached. -/
theorem outcome_reaches (options : ReadOptions) (r : Production α) (c : Cursor) :
    c.Reaches (r.comesTo options c).cursor :=
  follow_reaches (fun n c => n.outcome_reaches options c) r c

/-- A rule that comes past a name in doubt comes past the type that may be tried there, or stops
directly behind the name, if what it reads does. -/
theorem Names.passes (hr : r.Names options n s) (hn : n ≠ .type)
    (ha : r.Along (fun n c => n.outcome options c) (Nonterminal.PassesTypes options ts) c)
    (hs : s.Holds options ts c) (hc : c.upcoming <:+ ts) (hx : x.Doubtful ts)
    (hmade : Nonterminal.constructorType.outcome options x = .accepted made y) (hcx : c.Reaches x)
    (hxd : x.Reaches (r.comesTo options c).cursor) (hne : x ≠ (r.comesTo options c).cursor) :
    (r.comesTo options c).ComesPast n x y := by
  induction r generalizing s c with
  | done a => exact absurd (hxd.antisymm hcx) hne
  | fail e => exact absurd (hxd.antisymm hcx) hne
  | look k ih => exact ih c.current (hr _ hs.admits) ha hs.look hc hcx hxd hne
  | lookBehind k ih => exact ih c.following (hr.2.2 _) ha hs.lookBehind hc hcx hxd hne
  | advance k ih =>
    obtain ⟨t, ht, hend, -, hname, hk⟩ := hr
    obtain rfl := hs.seen t ht
    rcases hcx.eq_or_advance_of_isName hx.name with rfl | hcx
    · obtain ⟨hstop, haccepted⟩ :=
        (hname hx.name (hs.doubts hx hmade)).resolve_left hn c.advance hx.less_advance
      exact .inr ⟨hstop.symm, haccepted⟩
    · exact ih hk ha (hs.advance ht hend hc) (Cursor.suffix_advance hc) hcx hxd hne
  | split k ih =>
    exact ih hr.2 ha (hs.split hr.1) (Cursor.suffix_split hc) (hcx.split_of_isName hx.name) hxd hne
  | read m k ih =>
    obtain ⟨hbound, hnext⟩ := hr
    have hreaches := m.outcome_reaches options c
    have hsuffix := m.outcome_suffix options hc
    have hchild := ha.1 hc (hs.fresh.1 hbound) x y made hx hmade hcx
    cases ho : m.outcome options c with
    | accepted a d =>
      simp only [ho, Outcome.cursor_accepted] at hreaches hsuffix hchild
      have hrest := outcome_reaches options (k a) d
      rw [Production.comesTo_read_of_accepted ho] at hxd hne ⊢
      rcases hreaches.before_or_reaches hcx with ⟨hxd', hne'⟩ | hdx
      · rcases hchild hxd' hne' with hy | ⟨rfl, hnames⟩
        · exact .inl (hy.trans hrest)
        · obtain ⟨hhalt, haccepted⟩ := (hnext a).1 (hnames a _ rfl) _ hx.less_advance
          exact .inr ⟨hhalt.symm, haccepted⟩
      · exact ih a (hnext a).2 (ha.2 a d ho)
          (.ofFresh (m.endsFresh options ts c hc (hs.fresh.1 hbound) a d ho)) hsuffix hdx hxd hne
    | rejected e d =>
      rw [Production.comesTo_read_of_rejected ho] at hxd hne ⊢
      simp only [ho, Outcome.cursor_rejected] at hchild
      exact (hchild hxd hne).imp_right fun h => ⟨h.1, by simp⟩
  | attempt m k ih =>
    obtain ⟨-, hbound, -, rfl, hsome, hnone⟩ := hr
    have hreaches := Nonterminal.constructorType.outcome_reaches options c
    have hsuffix := Nonterminal.constructorType.outcome_suffix options hc
    have hchild := ha.1 hc (hs.fresh.1 hbound) x y made hx hmade hcx
    cases ho : Nonterminal.constructorType.outcome options c with
    | accepted a d =>
      simp only [ho, Outcome.cursor_accepted] at hreaches hsuffix hchild
      have hrest := outcome_reaches options (k (some a)) d
      rw [Production.comesTo_attempt_of_accepted ho] at hxd hne ⊢
      rcases hreaches.before_or_reaches hcx with ⟨hxd', hne'⟩ | hdx
      · exact .inl (((hchild hxd' hne').resolve_right fun h => nomatch h.2 a d rfl).trans hrest)
      · have hfresh :=
          Nonterminal.constructorType.endsFresh options ts c hc (hs.fresh.1 hbound) a d ho
        exact ih _ (hsome a) (ha.2.1 a d ho) (.ofFresh hfresh) hsuffix hdx hxd hne
    | rejected e d =>
      rw [Production.comesTo_attempt_of_rejected ho] at hxd hne ⊢
      exact ih _ hnone (ha.2.2 e d ho) (hs.refuse ho) hc hcx hxd hne

end Rule

namespace Nonterminal

variable {options : ReadOptions} {ts : List Token} {c x y : Cursor} {made : TypeSpecifier}

/-- Behind its attributes, a type is read past a name in doubt: the name is that of the type, or one
in the parameters. -/
theorem namedOutcome_passes {attributes : List Attribute}
    (hparameters : ∀ name, c.current.kind = .identifier name →
      c.advance.current.kind = .symbol .lessThan →
        (typeParameters name).PassesTypes options ts c.advance.advance)
    (hc : c.upcoming <:+ ts) (hx : x.Doubtful ts)
    (hmade : Nonterminal.constructorType.outcome options x = .accepted made y) (hcx : c.Reaches x)
    (hxd : x.Reaches (namedOutcome options attributes c).cursor)
    (hne : x ≠ (namedOutcome options attributes c).cursor) :
    (namedOutcome options attributes c).ComesPast .type x y := by
  rcases hcx.eq_or_advance_of_isName hx.name with rfl | hcx'
  · obtain ⟨name, hname⟩ := hx.exists_name
    obtain ⟨⟨parameters, hparameters, -⟩, -⟩ :=
      (constructorType_eq_accepted_of_doubtful hx hname).1 hmade
    rw [namedOutcome_of_less hname hx.less_advance, hparameters]
    exact .inl (.refl y)
  · by_cases hname : c.current.kind.isName
    · obtain ⟨name, hname⟩ := TokenKind.isName_iff.1 hname
      by_cases hless : c.advance.current.kind = .symbol .lessThan
      · have hfresh : c.advance.advance.Fresh ts :=
          (Cursor.fresh_advance (Cursor.suffix_advance hc) (by simp [hless])).2 (by simp [hless])
        have hx' : c.advance.advance.Reaches x := by
          refine (hcx'.eq_or_advance_of_isName hx.name).resolve_left ?_
          rintro rfl
          simpa [hless] using hx.name
        have hchild := hparameters name hname hless
          (Cursor.suffix_advance (Cursor.suffix_advance hc)) hfresh x y made hx hmade hx'
        rw [namedOutcome_of_less hname hless] at hxd hne ⊢
        cases ho : (typeParameters name).outcome options c.advance.advance with
        | accepted parameters d =>
          simp only [ho, Outcome.accepted_bind, Outcome.cursor_accepted] at hxd hne hchild ⊢
          exact .inl ((hchild hxd hne).resolve_right fun h => by simpa using h.2)
        | rejected e d =>
          simp only [ho, Outcome.rejected_bind, Outcome.cursor_rejected] at hxd hne hchild ⊢
          exact (hchild hxd hne).imp_right fun h => ⟨h.1, by simp⟩
      · rw [namedOutcome_of_not_less hname hless] at hxd hne
        exact absurd (hxd.antisymm hcx') hne
    · rw [namedOutcome_of_not_isName hname] at hxd hne
      exact absurd (hxd.antisymm hcx) hne

/-- So is a type as a whole: the name may stand in the attributes, too. -/
theorem type_passes
    (ha : (Production.ofNonterminal options .type).Along (fun n c => n.outcome options c)
      (PassesTypes options ts) c) : Nonterminal.type.PassesTypes options ts c := by
  intro hc hfresh x y made hx hmade hcx hxd hne
  obtain ⟨hattributes, hbehind⟩ := ha
  have hchild := hattributes hc hfresh x y made hx hmade hcx
  have hreaches := Nonterminal.attributes.outcome_reaches options c
  have hsuffix := Nonterminal.attributes.outcome_suffix options hc
  rw [type_outcome_eq] at hxd hne ⊢
  cases ho : Nonterminal.attributes.outcome options c with
  | rejected e d =>
    simp only [ho, Outcome.rejected_bind, Outcome.cursor_rejected] at hxd hne hchild ⊢
    exact (hchild hxd hne).imp_right fun h => ⟨h.1, by simp⟩
  | accepted attributes d =>
    have hparameters : ∀ name, d.current.kind = .identifier name →
        d.advance.current.kind = .symbol .lessThan →
          (typeParameters name).PassesTypes options ts d.advance.advance := by
      intro name hname hless
      simpa [Rule.Along, hname, hless, TokenKind.name?] using hbehind attributes d ho
    simp only [ho, Outcome.accepted_bind] at hxd hne ⊢
    simp only [ho, Outcome.cursor_accepted] at hchild hreaches hsuffix
    rcases hreaches.before_or_reaches hcx with ⟨hxd', hne'⟩ | hdx
    · refine .inl (((hchild hxd' hne').resolve_right fun h => ?_).trans
        (namedOutcome_reaches options attributes d))
      simpa using h.2
    · exact namedOutcome_passes hparameters hsuffix hx hmade hdx hxd hne

/-- Whoever reads past a name in doubt reads past the type that may be tried there. -/
theorem outcome_comesPast (options : ReadOptions) (ts : List Token) (n : Nonterminal) (c : Cursor) :
    n.PassesTypes options ts c := by
  refine outcome_induction options (fun n c ha => ?_) n c
  by_cases hn : n = .type
  · subst hn
    exact type_passes ha
  · intro hc hfresh x y made hx hmade hcx hxd hne
    rw [outcome_eq] at hxd hne ⊢
    exact (Production.names options n).passes hn ha (.ofFresh hfresh) hc hx hmade hcx hxd hne

end Nonterminal

end Wgsl
