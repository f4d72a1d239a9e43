import Wgsl.Proofs.Prefix.Break

/-!
# Going on behind the break

A reader is refused, and what it has read is completed by other tokens. The two readers read the
same tokens up to the break. A rule that can be completed carries on there (`Rule.CarriesOn`): what
it accepts before the one sequence it accepts before the other, and where the one reader stops in
it, some tokens take the other one to its end.

The proof follows the rule (`Rule.Viable.carriesOn`). As long as the reader stands among the first
tokens, the other does the same. One step leaves them: the reader takes the last of them
(`Rule.CarriesOn.advance_last`), or what it reads ends behind them or is refused there
(`Rule.CarriesOn.read`). Then the rest of the rule takes tokens of its own, or has nothing to do and
does nothing before the other tokens, too.

Nothing is said here of a rule that tries something. That needs one thing of the tokens that are put
behind the break: no `(` stands behind a closing angle there (`Calm`).
-/

namespace Wgsl

/-- Behind the first tokens, no closing angle stands directly before a `(`. -/
def Calm (us xs : List Token) : Prop := AnglesApart (us.getLast?.toList ++ xs)

/-- Tokens of the kinds may stand behind the tokens: they are tame, and so is where they begin. -/
structure Attaches (vs : List Token) (w : List TokenKind) : Prop where
  tame : Tame w
  apart : ∀ t ∈ vs.getLast?, t.kind.isAngles → w.head? ≠ some (.symbol .parenLeft)

/-- What follows a nonterminal is no `(`. -/
theorem Nonterminal.ne_parenLeft_of_mem_followers {n : Nonterminal} {kind : TokenKind}
    (h : kind ∈ n.followers) : kind ≠ .symbol .parenLeft := by
  rintro rfl
  cases n
  case expression inAngles => cases inAngles <;> simp only [followers, List.mem_cons,
    TokenKind.symbol.injEq, reduceCtorEq, List.not_mem_nil, or_self, List.cons_append,
    List.nil_append] at h
  case operations inAngles => cases inAngles <;> simp only [followers, List.mem_cons,
    TokenKind.symbol.injEq, reduceCtorEq, List.not_mem_nil, or_self, List.cons_append,
    List.nil_append] at h
  case bindings role => cases role <;> simp only [followers, BindingRole.closing, List.mem_cons,
    TokenKind.symbol.injEq, reduceCtorEq, List.not_mem_nil, or_self] at h
  all_goals simp at h

/-- What may stand behind a sample of a nonterminal does not begin with a `(`. -/
theorem Nonterminal.StandsBefore.head?_ne {n : Nonterminal} {F w : List TokenKind}
    (h : n.StandsBefore F w) : w.head? ≠ some (.symbol .parenLeft) := by
  cases w with
  | nil => simp
  | cons kind w =>
    rintro hparen
    exact ne_parenLeft_of_mem_followers h (Option.some.inj hparen)

/-- Tame tokens behind tame ones, if no `(` comes behind a closing angle. -/
theorem Tame.append {v w : List TokenKind} (hv : Tame v) (hw : Tame w)
    (hhead : w.head? ≠ some (.symbol .parenLeft)) : Tame (v ++ w) := by
  refine ⟨?_, List.isChain_append.2 ⟨hv.2, hw.2, fun k _ k' hk' _ hparen => hhead ?_⟩⟩
  · simpa using ⟨hv.1, hw.1⟩
  · rw [← hparen]
    exact hk'

/-- What attaches to some tokens may be longer. -/
theorem Attaches.append {vs : List Token} {v w : List TokenKind} (hv : Attaches vs v) (hw : Tame w)
    (hhead : w.head? ≠ some (.symbol .parenLeft)) : Attaches vs (v ++ w) := by
  refine ⟨hv.tame.append hw hhead, fun t ht hangles => ?_⟩
  cases v with
  | nil => exact hhead
  | cons kind v => exact hv.apart t ht hangles

/-- Where the first of the tokens stands apart from the next, all do if the others do. -/
theorem anglesApart_cons {t : Token} {ts : List Token} :
    AnglesApart (t :: ts) ↔
      (t.kind.isAngles → ∀ u ∈ ts.head?, u.kind ≠ .symbol .parenLeft) ∧ AnglesApart ts := by
  rw [AnglesApart, List.isChain_cons]
  exact and_congr_left' ⟨fun h hangles u hu => h u hu hangles, fun h u hu hangles => h hangles u hu⟩

/-- What may stand behind some tokens is calm behind them. -/
theorem Attaches.calm {us angles : List Token} {w : List TokenKind} (hw : Attaches (us ++ angles) w)
    (hangles : angles = [] ∨ ∃ mark l, angles = [⟨.symbol mark, l⟩] ∧ mark ≠ .parenLeft) :
    Calm us (angles ++ tokensOf w) := by
  have htame : AnglesApart (tokensOf w) := (List.isChain_map _).2 hw.tame.2
  have hbehind : ∀ t ∈ (us ++ angles).getLast?, AnglesApart (t :: tokensOf w) := by
    refine fun t ht => anglesApart_cons.2 ⟨fun hangle u hu hparen => hw.apart t ht hangle ?_, htame⟩
    cases w with
    | nil => cases hu
    | cons kind w =>
      obtain rfl := Option.some.inj hu
      exact congrArg some hparen
  rcases hangles with rfl | ⟨mark, l, rfl, hmark⟩
  · rw [List.append_nil] at hbehind
    rw [Calm, List.nil_append]
    cases hlast : us.getLast? with
    | none => exact htame
    | some t => exact hbehind t hlast
  · have hangle := hbehind ⟨.symbol mark, l⟩ (by simp)
    rw [Calm]
    cases us.getLast? with
    | none => exact hangle
    | some t =>
      refine anglesApart_cons.2 ⟨fun _ u hu => ?_, hangle⟩
      obtain rfl := Option.some.inj hu
      simpa using hmark

/-- Before a break, a rule does the same whatever may stand behind it. Where it stops at the break,
there are tokens that complete what it has read. -/
structure Rule.CarriesOn {α : Type} (options : ReadOptions) (us ts angles : List Token)
    (count : Nat) (l : Location) (F : List TokenKind) (Y : α → Prop) (r : Production α)
    (c : Cursor) : Prop where
  accepted {xs : List Token} {a : α} {d d' : Cursor} (hcalm : Calm us (angles ++ xs))
    (hd : Cursor.Corresponds ts (angles ++ xs) l count F d d')
    (ho : r.comesTo options (c.append ts l) = .accepted a d) :
    r.comesTo options (c.append (angles ++ xs) l) = .accepted a d'
  rejected {e : ParseError}
    (ho : r.comesTo options (c.append ts l) = .rejected e (.closed ts l count)) :
    ∃ w, Attaches (us ++ angles) w ∧ ∀ rest, (Cursor.before rest l).current.kind ∈ F →
      Calm us (angles ++ (tokensOf w ++ rest)) → ∃ b, Y b ∧
        r.comesTo options (c.append (angles ++ (tokensOf w ++ rest)) l) =
          .accepted b (.before rest l)

/-- The rule of a nonterminal carries on, from one of the first tokens. -/
def Nonterminal.CarriesOn (options : ReadOptions) (us ts angles : List Token) (count : Nat)
    (l : Location) (n : Nonterminal) (e : Cursor) : Prop :=
  ∀ c : Cursor, e = c.append ts l → c.upcoming ≠ [] → c.upcoming <:+ us → c.Fresh us → n.IsRead →
    (Production.ofNonterminal options n).CarriesOn options us ts angles count l n.followers
      n.Yields c

/-- Reading begins in a sequence of tokens, and not directly behind a `.` or a `@`. -/
def Nonterminal.BeginsFresh (us : List Token) (_ : Nonterminal) (c : Cursor) : Prop :=
  c.upcoming <:+ us ∧ c.Fresh us

namespace Rule

section Fresh

variable {options : ReadOptions} {us : List Token} {n : Nonterminal} {s : Stand} {c : Cursor}
variable {α : Type} {r : Production α}

/-- Whoever minds names reads and tries nothing directly behind a `.` or a `@`. -/
theorem Names.beginsFresh (hr : r.Names options n s) (hs : s.Holds options us c)
    (hc : c.upcoming <:+ us) :
    r.Along (fun n c => n.outcome options c) (Nonterminal.BeginsFresh us) c := by
  induction r generalizing s c with
  | done a | fail e => trivial
  | look k ih => exact ih _ (hr _ hs.admits) hs.look hc
  | lookBehind k ih => exact ih _ (hr.2.2 _) hs.lookBehind hc
  | advance k ih =>
    obtain ⟨t, ht, hend, -, -, hk⟩ := hr
    exact ih hk (hs.advance ht hend hc) (Cursor.suffix_advance hc)
  | split k ih => exact ih hr.2 (hs.split hr.1) (Cursor.suffix_split hc)
  | read m k ih =>
    have hfresh := hs.fresh.1 hr.1
    refine ⟨⟨hc, hfresh⟩, fun a d ho => ?_⟩
    have hsuffix := m.outcome_suffix options hc
    have hends := m.endsFresh options us c hc hfresh
    simp only [ho, Outcome.cursor_accepted, Outcome.ifAccepted_accepted] at hsuffix hends
    exact ih a (hr.2 a).2 (.ofFresh hends) hsuffix
  | attempt m k ih =>
    obtain ⟨-, hbound, -, rfl, hsome, hnone⟩ := hr
    have hfresh := hs.fresh.1 hbound
    refine ⟨⟨hc, hfresh⟩, fun a d ho => ?_, fun e d ho => ih _ hnone (hs.refuse ho) hc⟩
    have hsuffix := Nonterminal.constructorType.outcome_suffix options hc
    have hends := Nonterminal.constructorType.endsFresh options us c hc hfresh
    simp only [ho, Outcome.cursor_accepted, Outcome.ifAccepted_accepted] at hsuffix hends
    exact ih _ (hsome a) (.ofFresh hends) hsuffix

end Fresh

/-- What holds along a rule, twice, holds along it. -/
theorem Along.and {N : Type} {R : N → Type} {α : Type} {outcome : (n : N) → Cursor → Outcome (R n)}
    {P P' : N → Cursor → Prop} {r : Rule R α} {c : Cursor} (h : r.Along outcome P c)
    (h' : r.Along outcome P' c) : r.Along outcome (fun n c => P n c ∧ P' n c) c := by
  induction r generalizing c with
  | done | fail => trivial
  | look k ih => exact ih _ h h'
  | lookBehind k ih => exact ih _ h h'
  | advance k ih => exact ih h h'
  | split k ih => exact ih h h'
  | read n k ih => exact ⟨⟨h.1, h'.1⟩, fun a d ho => ih a (h.2 a d ho) (h'.2 a d ho)⟩
  | attempt n k ih =>
    exact ⟨⟨h.1, h'.1⟩, fun a d ho => ih _ (h.2.1 a d ho) (h'.2.1 a d ho),
      fun e d ho => ih _ (h.2.2 e d ho) (h'.2.2 e d ho)⟩

/-! ## Step by step -/

namespace CarriesOn

variable {options : ReadOptions} {us ts angles : List Token} {count : Nat} {l : Location}
variable {F : List TokenKind} {α : Type} {Y : α → Prop} {c : Cursor}

/-- A rule that is done has nothing to carry on. -/
theorem done {a : α} (h : Break us ts angles count l) (hne : c.upcoming ≠ []) :
    (Rule.done a : Production α).CarriesOn options us ts angles count l F Y c where
  accepted hcalm hd ho := by
    injection ho with ha hd'
    subst hd'
    rw [hd.eq_append h hne, ← ha]
    rfl
  rejected ho := by cases ho

/-- A rule that fails is not accepted. -/
theorem fail {e : ParseError} (h : Break us ts angles count l) (hne : c.upcoming ≠ []) :
    (Rule.fail e : Production α).CarriesOn options us ts angles count l F Y c where
  accepted hcalm hd ho := by cases ho
  rejected ho := by
    injection ho with _ hd
    have hlength := Cursor.length_lt_append ts l hne
    rw [hd, h.upcoming_closed (Nat.le_refl count)] at hlength
    exact absurd hlength (Nat.lt_irrefl _)

/-- Rules that are followed alike before all tokens carry on alike. -/
theorem congr {r r' : Production α} {c' : Cursor}
    (heq : ∀ xs, r.comesTo options (c.append xs l) = r'.comesTo options (c'.append xs l))
    (hr : r'.CarriesOn options us ts angles count l F Y c') :
    r.CarriesOn options us ts angles count l F Y c where
  accepted hcalm hd ho := by
    rw [heq] at ho ⊢
    exact hr.accepted hcalm hd ho
  rejected ho := by
    rw [heq] at ho
    simp only [heq]
    exact hr.rejected ho

/-- Where tokens are left, the other reader looks at the same token. -/
theorem look {k : Token → Production α} (hne : c.upcoming ≠ [])
    (hk : (k c.current).CarriesOn options us ts angles count l F Y c) :
    (Rule.look k).CarriesOn options us ts angles count l F Y c :=
  .congr (fun xs => by rw [Production.comesTo, follow, Cursor.current_append xs l hne]) hk

/-- Where two tokens are left, the other reader looks behind the same token. -/
theorem lookBehind {k : TokenKind → Production α} (hne : c.upcoming.tail ≠ [])
    (hk : (k c.following).CarriesOn options us ts angles count l F Y c) :
    (Rule.lookBehind k).CarriesOn options us ts angles count l F Y c :=
  .congr (fun xs => by rw [Production.comesTo, follow, Cursor.following_append xs l hne]) hk

/-- Where tokens are left, the other reader splits the same token. -/
theorem split {k : Production α} (hne : c.upcoming ≠ [])
    (hk : k.CarriesOn options us ts angles count l F Y c.split) :
    (Rule.split k).CarriesOn options us ts angles count l F Y c :=
  .congr (fun xs => by rw [Production.comesTo, follow, Cursor.split_append xs l hne]) hk

/-- Where tokens are left, the other reader takes the same token. -/
theorem advance {k : Production α} (hne : c.upcoming ≠ [])
    (hk : k.CarriesOn options us ts angles count l F Y c.advance) :
    (Rule.advance k).CarriesOn options us ts angles count l F Y c :=
  .congr (fun xs => by rw [Production.comesTo, follow, Cursor.advance_append xs l hne]) hk

/-- Behind the last of the first tokens, the rule is at the break. -/
theorem advance_last {k : Production α} {w : List TokenKind} (h : Break us ts angles count l)
    (hne : c.upcoming ≠ []) (hc : c.upcoming <:+ us) (hlast : c.advance.upcoming = [])
    (hk : k.Viable options F Y none) (hbehind : k.Stays ∨ k.Closes options)
    (htakes : k.Takes F Y w) (htame : Tame (c.current.kind :: w)) :
    (Rule.advance k).CarriesOn options us ts angles count l F Y c where
  accepted {xs a d d'} hcalm hd ho := by
    rw [Production.comesTo, follow, Cursor.advance_append _ l hne, Cursor.append_of_nil hlast]
      at ho ⊢
    have hreaches := outcome_reaches options k (.before ts l)
    rw [Production.comesTo, ho] at hreaches
    obtain ⟨j, hj, -, rfl, rfl, hF⟩ := hd.exists_closed h (Nat.zero_le count) hreaches
    exact h.accepted_closed hk hbehind (Nat.zero_le count) hj hF ho
  rejected ho := by
    rw [Production.comesTo, follow, Cursor.advance_append _ l hne, Cursor.append_of_nil hlast] at ho
    obtain rfl : 0 = count := h.eq_of_rejected hbehind (Nat.zero_le count) ho
    obtain rfl := h.angles_eq_nil rfl
    refine ⟨w, ⟨(tame_cons.1 htame).2.2, ?_⟩, fun rest hrest _ => ?_⟩
    · intro t ht hangles
      obtain ⟨u, hu, hcons⟩ := Cursor.last_of_advance hc hne hlast
      obtain rfl : u = t := by simpa [hu] using ht
      refine (tame_cons.1 htame).2.1 ?_
      rwa [Cursor.current, hcons, Token.isAngles_afterAngles]
    · rw [Production.comesTo, follow, Cursor.advance_append _ l hne, Cursor.append_of_nil hlast,
        List.nil_append]
      exact htakes.exists_accepted hrest

section Read

variable {m : Nonterminal} {k : m.Result → Production α} {seen : Option Token}
variable (h : Break us ts angles count l) (hne : c.upcoming ≠ [])
variable (hr : (Rule.read m k).Viable options F Y seen)
variable (hm : (Production.ofNonterminal options m).CarriesOn options us ts angles count l
  m.followers m.Yields c)
variable (hk : ∀ b d, d.upcoming ≠ [] → c.Reaches d →
  m.outcome options (c.append ts l) = .accepted b (d.append ts l) →
    (k b).CarriesOn options us ts angles count l F Y d)

include hm in
/-- What is read and accepted before the break is read alike before other tokens. -/
theorem outcome_accepted {xs : List Token} {b : m.Result} {d d' : Cursor}
    (hcalm : Calm us (angles ++ xs))
    (hd : Cursor.Corresponds ts (angles ++ xs) l count m.followers d d')
    (ho : m.outcome options (c.append ts l) = .accepted b d) :
    m.outcome options (c.append (angles ++ xs) l) = .accepted b d' := by
  rw [Nonterminal.outcome_eq] at ho ⊢
  exact hm.accepted hcalm hd ho

include h hr hm in
/-- What ends behind some closing angles is read before the other tokens, too. -/
theorem outcome_closed {xs : List Token} {a : α} {b : m.Result} {i j : Nat}
    (hcalm : Calm us (angles ++ xs)) (hi : i ≤ count) (hj : j ≤ count) (hij : i ≤ j)
    (hF : (Cursor.closed (angles ++ xs) l j).current.kind ∈ F)
    (hread : m.outcome options (c.append ts l) = .accepted b (.closed ts l i))
    (ho : (k b).comesTo options (.closed ts l i) = .accepted a (.closed ts l j)) :
    m.outcome options (c.append (angles ++ xs) l) =
      .accepted b (.closed (angles ++ xs) l i) := by
  obtain ⟨-, hfollowers, -, hbehind, hviable⟩ := hr
  refine hm.outcome_accepted hcalm (.behind hi ?_) hread
  rcases Nat.lt_or_eq_of_le hij with hlt | rfl
  · rcases hbehind b with hstays | ⟨-, hangles⟩
    · exact absurd (h.eq_of_stays hstays hi hj (congrArg Outcome.cursor ho)) hlt.ne
    · exact hangles _ (h.angle xs i (hlt.trans_le hj))
  · exact hfollowers.elim (fun hfollowers => hfollowers _ hF) fun hmoves =>
      absurd ho ((hviable b).ne (hmoves b) (by simp))

include h hr hm hk in
/-- A read that is accepted carries on. -/
theorem read_accepted {xs : List Token} {a : α} {d d' : Cursor} (hcalm : Calm us (angles ++ xs))
    (hd : Cursor.Corresponds ts (angles ++ xs) l count F d d')
    (ho : Production.comesTo options (.read m k) (c.append ts l) = .accepted a d) :
    Production.comesTo options (.read m k) (c.append (angles ++ xs) l) = .accepted a d' := by
  cases hread : m.outcome options (c.append ts l) with
  | rejected err e => simp [Production.comesTo_read_of_rejected hread] at ho
  | accepted b e =>
    rw [Production.comesTo_read_of_accepted hread] at ho
    have hreaches := m.outcome_reaches options (c.append ts l)
    have hrest := outcome_reaches options (k b) e
    rw [hread] at hreaches
    rw [ho] at hrest
    rcases h.place hreaches (hrest.trans (hd.reaches h)) with ⟨e, rfl, he, hreaches⟩ | ⟨i, hi, rfl⟩
    · rw [Production.comesTo_read_of_accepted (hm.outcome_accepted hcalm (.within he) hread)]
      exact (hk b e he hreaches hread).accepted hcalm hd ho
    · obtain ⟨j, hj, hij, rfl, rfl, hF⟩ := hd.exists_closed h hi hrest
      have hother := outcome_closed h hr hm hcalm hi hj hij hF hread ho
      rw [Production.comesTo_read_of_accepted hother]
      obtain ⟨-, -, -, hbehind, hviable⟩ := hr
      exact h.accepted_closed (hviable b) ((hbehind b).imp id And.left) hi hj hF ho

include h hne hr hm hk in
/-- Where the reader stops in what is read or behind it, some tokens complete both. -/
theorem read_rejected {e : ParseError}
    (ho : Production.comesTo options (.read m k) (c.append ts l) =
      .rejected e (.closed ts l count)) :
    ∃ w, Attaches (us ++ angles) w ∧ ∀ rest, (Cursor.before rest l).current.kind ∈ F →
      Calm us (angles ++ (tokensOf w ++ rest)) → ∃ b, Y b ∧
        Production.comesTo options (.read m k) (c.append (angles ++ (tokensOf w ++ rest)) l) =
          .accepted b (.before rest l) := by
  obtain ⟨-, -, ⟨w, htakes, htame, hbefore⟩, hbehind, -⟩ := hr
  cases hread : m.outcome options (c.append ts l) with
  | rejected err f =>
    -- the nonterminal is completed, and then the rule is
    rw [Production.comesTo_read_of_rejected hread] at ho
    injection ho with _ hf
    rw [hf, Nonterminal.outcome_eq] at hread
    obtain ⟨v, hv, hcomplete⟩ := hm.rejected hread
    refine ⟨v ++ w, hv.append htame hbefore.head?_ne, fun rest hrest hcalm => ?_⟩
    rw [tokensOf_append, List.append_assoc] at hcalm ⊢
    obtain ⟨b, hb, hother⟩ := hcomplete _ (hbefore.mem hrest) hcalm
    rw [Production.comesTo, ← Nonterminal.outcome_eq] at hother
    rw [Production.comesTo_read_of_accepted hother]
    exact (htakes b hb).exists_accepted hrest
  | accepted b f =>
    rw [Production.comesTo_read_of_accepted hread] at ho
    have hreaches := m.outcome_reaches options (c.append ts l)
    have hrest := outcome_reaches options (k b) f
    rw [hread] at hreaches
    rw [ho] at hrest
    rcases h.place hreaches hrest with ⟨f, rfl, hf, hreaches⟩ | ⟨i, hi, rfl⟩
    · -- the nonterminal is read among the first tokens, and what goes on behind it is completed
      obtain ⟨v, hv, hcomplete⟩ := (hk b f hf hreaches hread).rejected ho
      refine ⟨v, hv, fun rest hrest hcalm => ?_⟩
      rw [Production.comesTo_read_of_accepted (hm.outcome_accepted hcalm (.within hf) hread)]
      exact hcomplete rest hrest hcalm
    · -- the nonterminal ends at the break, and what goes on behind it is taken from its beginning
      obtain rfl := h.eq_of_rejected ((hbehind b).imp id And.left) hi ho
      refine ⟨w, ⟨htame, fun _ _ _ => hbefore.head?_ne⟩, fun rest hrest hcalm => ?_⟩
      have hfollows := hbefore.mem hrest
      rw [← h.behind] at hfollows
      have hother := hm.outcome_accepted hcalm (.behind hi hfollows) hread
      rw [h.behind] at hother
      rw [Production.comesTo_read_of_accepted hother]
      refine (htakes b (Nonterminal.yields_of_ne hread fun heq => ?_)).exists_accepted hrest
      have hlength := Cursor.length_lt_append ts l hne
      rw [heq, h.upcoming_closed hi] at hlength
      exact Nat.lt_irrefl _ hlength

include h hne hr hm hk in
/-- What reads and goes on carries on, if both do. -/
theorem read : (Rule.read m k).CarriesOn options us ts angles count l F Y c :=
  ⟨read_accepted h hr hm hk, read_rejected h hne hr hm hk⟩

end Read

end CarriesOn

/-- A rule that can be completed wherever it may be interrupted carries on, if the nonterminals
do that it reads. -/
theorem Viable.carriesOn {options : ReadOptions} {us ts angles : List Token} {count : Nat}
    {l : Location} {F : List TokenKind} {α : Type} {Y : α → Prop} {r : Production α} {c : Cursor}
    {seen : Option Token} (h : Break us ts angles count l) (hr : r.Viable options F Y seen)
    (hseen : ∀ t ∈ seen, c.current = t) (hne : c.upcoming ≠ []) (hc : c.upcoming <:+ us)
    (ha : r.Along (fun n c => n.outcome options c) (fun n e =>
      n.CarriesOn options us ts angles count l e ∧ n.BeginsFresh (us ++ ts) e) (c.append ts l)) :
    r.CarriesOn options us ts angles count l F Y c := by
  induction r generalizing seen c with
  | done a => exact .done h hne
  | fail e => exact .fail h hne
  | look k ih =>
    refine .look hne (ih _ (hr.2 _ hseen) (by simp) hne hc ?_)
    rw [Along, Cursor.current_append ts l hne] at ha
    exact ha
  | lookBehind k ih => exact hr.elim
  | advance k ih =>
    obtain ⟨⟨t, w, ht, htakes, htame⟩, hbehind, hk⟩ := hr
    rw [← hseen t ht] at htame
    by_cases hlast : c.advance.upcoming = []
    · exact .advance_last h hne hc hlast hk hbehind htakes htame
    · refine .advance hne (ih hk (by simp) hlast (Cursor.suffix_advance hc) ?_)
      rw [Along, Cursor.advance_append ts l hne] at ha
      exact ha
  | split k ih =>
    have hsplit : c.split.upcoming ≠ [] := by rwa [Cursor.upcoming_split]
    refine .split hne (ih hr.2 (by simp) hsplit (Cursor.suffix_split hc) ?_)
    rw [Along, Cursor.split_append ts l hne] at ha
    exact ha
  | read m k ih =>
    obtain ⟨⟨hm, hfresh⟩, hnext⟩ := ha
    refine .read h hne hr (hm c rfl hne hc (Cursor.fresh_append.1 hfresh.2) hr.1)
      fun b d hd hreaches ho => ?_
    exact ih b (hr.2.2.2.2 b) (by simp) hd (hreaches.suffix.trans hc) (hnext b _ ho)
  | attempt m k ih => exact hr.elim

end Rule

end Wgsl
