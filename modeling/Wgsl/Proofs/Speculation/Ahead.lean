import Wgsl.Proofs.Concatenation
import Wgsl.Proofs.Speculation.Crossing
import Wgsl.Proofs.Trace

/-!
# The same tokens before others

Two sequences of tokens begin alike and go on differently. What is read in the first part, and
leaves a token of it, is read in both alike (`Nonterminal.outcome_append`): the only thing that
looks further is an attempt to read a type, so it is enough that at each name in doubt a type is
accepted in both or in none. A token is looked at before it is come to only at a name, and only to
see whether a `<` or a `(` stands there; so where the first part ends with a name, neither may begin
what follows.
-/

namespace Wgsl

namespace Cursor

variable {c d x : Cursor} {ts us : List Token} {l : Location}

private theorem zero_le_two : 0 ≤ 2 := Nat.zero_le 2

/-- The cursor before a sequence of tokens. -/
def before (ts : List Token) (l : Location) : Cursor := ⟨ts, 0, l, zero_le_two⟩

@[simp] theorem current_before (t : Token) (ts : List Token) (l : Location) :
    (before (t :: ts) l).current = t := rfl

@[simp] theorem advance_before (t : Token) (ts : List Token) (l : Location) :
    (before (t :: ts) l).advance = before ts l := rfl

/-- The upcoming tokens, and those behind them. -/
theorem upcoming_append (c : Cursor) (ts : List Token) (l : Location) :
    (c.append ts l).upcoming = c.upcoming ++ ts := rfl

/-- Behind the first tokens stand the others. -/
theorem append_of_nil (h : c.upcoming = []) : c.append ts l = before ts l := by
  simp [append, before, h]

/-- The beginning of two lists of tokens is that of the first. -/
theorem before_append (us ts : List Token) (l l' : Location) :
    (before us l').append ts l = before (us ++ ts) l := by
  by_cases h : us = [] <;> simp [append, before, h]

/-- A reader begins before the tokens in front of the end of the file. -/
theorem ofTokens_eq_before_takeWhile (ts : List Token) :
    ofTokens ts = before (ts.takeWhile (·.kind ≠ .endOfFile)) (finishOf .start ts) := rfl

/-- Tokens before the end of the file are upcoming. -/
theorem ofTokens_append_eq_before {ts : List Token} (h : ∀ t ∈ ts, t.kind ≠ .endOfFile)
    (us : List Token) :
    ofTokens (ts ++ us) =
      before (ts ++ us.takeWhile (·.kind ≠ .endOfFile)) (finishOf .start (ts ++ us)) := by
  rw [ofTokens_eq_before_takeWhile, List.takeWhile_append_of_pos (by simpa using h)]

/-- The end of the file is where the last tokens say. -/
theorem finishOf_append_congr {us us' ts : List Token} (hus : ∀ t ∈ us, t.kind ≠ .endOfFile)
    (hus' : ∀ t ∈ us', t.kind ≠ .endOfFile) (hts : ts ≠ []) (l : Location) :
    finishOf l (us' ++ ts) = finishOf l (us ++ ts) := by
  obtain ⟨t, ts, rfl⟩ := List.exists_cons_of_ne_nil hts
  rw [finishOf_append hus, finishOf_append hus', finishOf, finishOf]

/-- Before all the tokens, no token stands behind. -/
theorem fresh_before (ts : List Token) (l : Location) : (before ts l).Fresh ts := by
  intro t h
  have := h.length_le
  simp only [before, List.length_cons] at this
  omega

/-- What is left of the first tokens, and the others, are left of both. -/
theorem suffix_append (h : c.upcoming <:+ us) : (c.append ts l).upcoming <:+ us ++ ts := by
  obtain ⟨past, hpast⟩ := h
  exact ⟨past, by rw [upcoming_append, ← hpast, List.append_assoc]⟩

/-- Where some of the first tokens are left, there are more than the others. -/
theorem length_lt_append (ts : List Token) (l : Location) (h : c.upcoming ≠ []) :
    ts.length < (c.append ts l).upcoming.length := by
  have := List.length_pos_iff.2 h
  rw [upcoming_append, List.length_append]
  omega

/-- What is reached before other tokens, and leaves a token before them, is reached without them. -/
theorem Reaches.exists_append {e : Cursor} (h : (c.append ts l).Reaches e)
    (hlt : ts.length < e.upcoming.length) :
    ∃ d, e = d.append ts l ∧ d.upcoming ≠ [] ∧ c.Reaches d := by
  have hne : ∀ {d : Cursor}, ts.length < (d.append ts l).upcoming.length → d.upcoming ≠ [] := by
    rintro d hlt hnil
    simp [upcoming_append, hnil] at hlt
  induction h with
  | refl => exact ⟨c, rfl, hne hlt, .refl c⟩
  | tail _ hmove ih =>
    rcases hmove with rfl | rfl
    · rw [upcoming_advance, List.length_tail] at hlt
      obtain ⟨d, rfl, hd, hreaches⟩ := ih (by omega)
      refine ⟨d.advance, advance_append ts l hd, ?_, hreaches.advance⟩
      rw [upcoming_append, List.length_append] at hlt
      rw [upcoming_advance, ← List.length_pos_iff, List.length_tail]
      omega
    · rw [upcoming_split] at hlt
      obtain ⟨d, rfl, hd, hreaches⟩ := ih hlt
      exact ⟨d.split, split_append ts l hd, by rwa [upcoming_split], hreaches.split⟩

/-- What is reached is reached before other tokens. -/
theorem Reaches.append (h : c.Reaches d) (hne : d.upcoming ≠ []) :
    (c.append ts l).Reaches (d.append ts l) := by
  induction h with
  | refl => exact .refl _
  | @tail b _ _ hmove ih =>
    rcases hmove with rfl | rfl
    · rw [upcoming_advance] at hne
      have hne' : b.upcoming ≠ [] := mt (congrArg List.tail) hne
      rw [← advance_append ts l hne']
      exact (ih hne').advance
    · rw [upcoming_split] at hne
      rw [← split_append ts l hne]
      exact (ih hne).split

/-- Whether the token to be read is a name of its own depends on the tokens before it. -/
theorem fresh_append : (c.append ts l).Fresh (us ++ ts) ↔ c.Fresh us := by
  have hiff : ∀ t, t :: (c.append ts l).upcoming <:+ us ++ ts ↔ t :: c.upcoming <:+ us := by
    intro t
    constructor
    · rintro ⟨past, hpast⟩
      refine ⟨past, (List.append_left_inj ts).1 ?_⟩
      simpa [upcoming_append] using hpast
    · rintro ⟨past, rfl⟩
      exact ⟨past, by simp [upcoming_append]⟩
  simp only [Fresh, hiff]

/-- Some type is accepted at the cursor that ends before a `(`. -/
def BeginsType (options : ReadOptions) (c : Cursor) : Prop :=
  ∃ made d, Nonterminal.constructorType.outcome options c = .accepted made d

/-- Where tokens end with a name, what follows them does not begin with a `<` or a `(`. -/
def Parted (us ts : List Token) (l : Location) : Prop :=
  ∀ t ∈ us.getLast?, t.kind.isName → (before ts l).current.kind.parts = false

/-- The token behind the last one is the first of those that follow. -/
theorem following_append_of_last (hne : c.upcoming ≠ []) (hlast : c.advance.upcoming = []) :
    (c.append ts l).following = (before ts l).current.kind := by
  rw [following_eq, advance_append ts l hne, append_of_nil hlast]

/-- Where one token is left, it is the last. -/
theorem last_of_advance (hc : c.upcoming <:+ us) (hne : c.upcoming ≠ [])
    (hlast : c.advance.upcoming = []) : ∃ t, us.getLast? = some t ∧ c.upcoming = [t] := by
  obtain ⟨t, rest, hu⟩ := List.exists_cons_of_ne_nil hne
  obtain rfl : rest = [] := by rwa [upcoming_advance, hu] at hlast
  obtain ⟨past, rfl⟩ := hc
  exact ⟨t, by simp [hu], hu⟩

/-- At a name, the token behind is looked at. -/
theorem Parted.following (h : Parted us ts l) (hc : c.upcoming <:+ us)
    (hname : c.current.kind.isName) (hlast : c.advance.upcoming = []) :
    (c.append ts l).following.parts = false := by
  obtain ⟨name, hname⟩ := TokenKind.isName_iff.1 hname
  have hne : c.upcoming ≠ [] := upcoming_ne_nil (by simp [hname])
  obtain ⟨t, ht, hu⟩ := last_of_advance hc hne hlast
  rw [following_append_of_last hne hlast]
  refine h t ht ?_
  have hcurrent := upcoming_eq_of_name hname
  rw [hu] at hcurrent
  rw [(List.cons.inj hcurrent).1, hname]
  rfl

/-- A name in doubt is in doubt without what follows. -/
theorem Doubtful.of_append (h : (c.append ts l).Doubtful (us ++ ts)) (hparted : Parted us ts l)
    (hne : c.upcoming ≠ []) (hc : c.upcoming <:+ us) : c.Doubtful us := by
  have hname : c.current.kind.isName := by
    rw [← current_append ts l hne]
    exact h.name
  refine ⟨hname, ?_, fresh_append.1 h.fresh⟩
  by_cases hlast : c.advance.upcoming = []
  · have := hparted.following hc hname hlast
    simp [h.less] at this
  · rw [← following_append ts l (by rwa [← upcoming_advance])]
    exact h.less

/-- Behind a doubtful name stands the `<`. -/
theorem Doubtful.advance_ne_nil (h : c.Doubtful us) : c.advance.upcoming ≠ [] :=
  upcoming_ne_nil (by simp [h.less_advance])

/-- A doubtful name stands there. -/
theorem Doubtful.ne_nil (h : c.Doubtful us) : c.upcoming ≠ [] := by
  intro hnil
  have hne := h.advance_ne_nil
  rw [advance_of_nil hnil] at hne
  exact hne hnil

/-- A doubtful name stays one with more tokens behind. -/
theorem Doubtful.append (h : c.Doubtful us) (ts : List Token) (l : Location) :
    (c.append ts l).Doubtful (us ++ ts) := by
  refine ⟨?_, ?_, fresh_append.2 h.fresh⟩
  · rw [current_append ts l h.ne_nil]
    exact h.name
  · rw [following_append ts l (by rw [← upcoming_advance]; exact h.advance_ne_nil)]
    exact h.less

/-- From the cursor on, where a type is accepted before the one sequence of tokens, it is accepted
before the other. -/
def Agrees (options : ReadOptions) (us ts ts' : List Token) (l : Location) (c : Cursor) : Prop :=
  ∀ x, c.Reaches x → x.upcoming ≠ [] → x.Doubtful us → (x.append ts l).BeginsType options →
    (x.append ts' l).BeginsType options

/-- What agrees from a cursor on agrees from later ones on. -/
theorem Agrees.of_reaches {options : ReadOptions} {ts' : List Token}
    (h : c.Agrees options us ts ts' l) (hd : c.Reaches d) : d.Agrees options us ts ts' l :=
  fun x hx => h x (hd.trans hx)

/-- Before other tokens, places are told apart as before these. -/
theorem append_congr (ts' : List Token) (h : c.append ts l = d.append ts l) :
    c.append ts' l = d.append ts' l := by
  simp only [append, Cursor.mk.injEq, List.append_left_inj] at h ⊢
  exact h

end Cursor

/-- Whatever the nonterminal reads, leaving some of the tokens before others, it reads before the
others as well. -/
def Nonterminal.ReadsAlike (options : ReadOptions) (us ts ts' : List Token) (l : Location)
    (n : Nonterminal) (e : Cursor) : Prop :=
  ∀ c : Cursor, e = c.append ts l → c.upcoming <:+ us → c.Fresh us → c.Agrees options us ts' ts l →
    ∀ (a : n.Result) (d : Cursor), d.upcoming ≠ [] →
      n.outcome options (c.append ts l) = .accepted a (d.append ts l) →
        n.outcome options (c.append ts' l) = .accepted a (d.append ts' l)

namespace Rule

variable {options : ReadOptions} {us ts ts' : List Token} {l : Location} {n : Nonterminal}
variable {α : Type} {r : Production α} {s : Stand} {c d : Cursor} {a : α}

/-- What leaves some of the tokens begins where there are tokens. -/
theorem upcoming_ne_nil_of_outcome {e : Cursor} (hd : ts.length < e.upcoming.length)
    (ho : r.comesTo options (c.append ts l) = .accepted a e) : c.upcoming ≠ [] := by
  rintro hnil
  have hreaches := outcome_reaches options r (c.append ts l)
  rw [ho] at hreaches
  have hle := hreaches.suffix.length_le
  rw [Outcome.cursor_accepted, Cursor.upcoming_append, hnil, List.nil_append] at hle
  omega

/-- At a name in doubt that a rule tries a type at, the cursor stands before a name in doubt. -/
theorem Names.doubtful {m : Nonterminal} {k : Option m.Result → Production α}
    (hr : (Rule.attempt m k).Names options n s) (hs : s.Holds options (us ++ ts) (c.append ts l))
    (hparted : Cursor.Parted us ts l) (hne : c.upcoming ≠ []) (hc : c.upcoming <:+ us) :
    c.Doubtful us := by
  obtain ⟨⟨t, ht, hname⟩, hbound, hbehind, -, -⟩ := hr
  refine Cursor.Doubtful.of_append ⟨?_, hs.behind _ hbehind, hs.fresh.1 hbound⟩ hparted hne hc
  rw [hs.seen t ht]
  exact hname

/-- What a rule does when it has looked behind a name does not depend on what follows the tokens. -/
theorem Names.lookBehind_append {k : TokenKind → Production α}
    (hr : (Rule.lookBehind k).Names options n s)
    (hs : s.Holds options (us ++ ts) (c.append ts l)) (hparted : Cursor.Parted us ts l)
    (hparted' : Cursor.Parted us ts' l) (hne : c.upcoming ≠ []) (hc : c.upcoming <:+ us) :
    k (c.append ts' l).following = k (c.append ts l).following := by
  obtain ⟨⟨t, ht, hname⟩, ⟨r, hparts⟩, -⟩ := hr
  by_cases hlast : c.advance.upcoming = []
  · have hname : c.current.kind.isName := by
      rw [← Cursor.current_append ts l hne, hs.seen t ht]
      exact hname
    rw [hparts _ (hparted'.following hc hname hlast), hparts _ (hparted.following hc hname hlast)]
  · rw [Cursor.upcoming_advance] at hlast
    rw [Cursor.following_append ts l hlast, Cursor.following_append ts' l hlast]

/-- What a rule tries and is refused before one sequence of tokens is refused before the other. -/
theorem Names.rejected_append {m : Nonterminal} {k : Option m.Result → Production α}
    {err : ParseError} {e : Cursor} (hr : (Rule.attempt m k).Names options n s)
    (hs : s.Holds options (us ++ ts) (c.append ts l)) (hparted : Cursor.Parted us ts l)
    (hne : c.upcoming ≠ []) (hc : c.upcoming <:+ us) (hagrees : c.Agrees options us ts' ts l)
    (hm : m.outcome options (c.append ts l) = .rejected err e) :
    ∃ err' e', m.outcome options (c.append ts' l) = .rejected err' e' := by
  have hdoubtful := hr.doubtful hs hparted hne hc
  obtain ⟨-, -, -, rfl, -, -⟩ := hr
  cases hm' : Nonterminal.constructorType.outcome options (c.append ts' l) with
  | accepted b e' =>
    obtain ⟨b', e', hm''⟩ := hagrees c (.refl c) hne hdoubtful ⟨b, e', hm'⟩
    rw [hm] at hm''
    cases hm''
  | rejected err' e' => exact ⟨err', e', rfl⟩

/-- What a rule reads leaves some of the tokens, if the rule does. -/
theorem exists_append_of_outcome {m : Nonterminal} {b : m.Result} {e f : Cursor}
    (hd : ts.length < f.upcoming.length)
    (hm : m.outcome options (c.append ts l) = .accepted b e)
    (ho : r.comesTo options e = .accepted a f) :
    ∃ d, e = d.append ts l ∧ d.upcoming ≠ [] ∧ c.Reaches d := by
  have hreaches := m.outcome_reaches options (c.append ts l)
  have hrest := outcome_reaches options r e
  rw [hm] at hreaches
  rw [ho] at hrest
  exact hreaches.exists_append (hd.trans_le hrest.suffix.length_le)

/-- A rule does the same before two rests, if the nonterminals that it reads do. -/
theorem Names.outcome_append (hparted : Cursor.Parted us ts l) (hparted' : Cursor.Parted us ts' l)
    (hr : r.Names options n s)
    (ha : r.Along (fun n c => n.outcome options c) (Nonterminal.ReadsAlike options us ts ts' l)
      (c.append ts l))
    (hs : s.Holds options (us ++ ts) (c.append ts l)) (hc : c.upcoming <:+ us)
    (hagrees : c.Agrees options us ts' ts l) (hd : d.upcoming ≠ [])
    (ho : r.comesTo options (c.append ts l) = .accepted a (d.append ts l)) :
    r.comesTo options (c.append ts' l) = .accepted a (d.append ts' l) := by
  have hlt := Cursor.length_lt_append ts l hd
  induction r generalizing s c with
  | done b =>
    simp only [Production.comesTo, follow_done, Outcome.accepted.injEq] at ho ⊢
    exact ⟨ho.1, Cursor.append_congr ts' ho.2⟩
  | fail e => cases ho
  | look k ih =>
    have hne := upcoming_ne_nil_of_outcome hlt ho
    have hcurrent := Cursor.current_append ts l hne
    rw [Production.comesTo, follow, Cursor.current_append ts' l hne, ← hcurrent]
    exact ih _ (hr _ hs.admits) ha hs.look hc hagrees ho
  | lookBehind k ih =>
    have hne := upcoming_ne_nil_of_outcome hlt ho
    rw [Production.comesTo, follow, hr.lookBehind_append hs hparted hparted' hne hc]
    exact ih _ (hr.2.2 _) ha hs.lookBehind hc hagrees ho
  | advance k ih =>
    have hne := upcoming_ne_nil_of_outcome hlt ho
    obtain ⟨t, ht, hend, -, -, hk⟩ := hr
    have hnext := Cursor.advance_append ts l hne
    rw [Production.comesTo, follow, Cursor.advance_append ts' l hne]
    refine ih hk (hnext ▸ ha) (hnext ▸ hs.advance ht hend ?_) (Cursor.suffix_advance hc)
      (hagrees.of_reaches (Cursor.Reaches.refl c).advance) (hnext ▸ ho)
    exact Cursor.suffix_append hc
  | split k ih =>
    have hne := upcoming_ne_nil_of_outcome hlt ho
    have hnext := Cursor.split_append ts l hne
    rw [Production.comesTo, follow, Cursor.split_append ts' l hne]
    exact ih hr.2 (hnext ▸ ha) (hnext ▸ hs.split hr.1) (Cursor.suffix_split hc)
      (hagrees.of_reaches (Cursor.Reaches.refl c).split) (hnext ▸ ho)
  | read m k ih =>
    obtain ⟨hbound, hnext⟩ := hr
    have hfresh := hs.fresh.1 hbound
    cases hm : m.outcome options (c.append ts l) with
    | accepted b e =>
      rw [Production.comesTo_read_of_accepted hm] at ho
      obtain ⟨e, rfl, he, hreaches⟩ := exists_append_of_outcome hlt hm ho
      have hends := m.endsFresh options (us ++ ts) _ (Cursor.suffix_append hc) hfresh b _ hm
      rw [Production.comesTo_read_of_accepted
        (ha.1 c rfl hc (Cursor.fresh_append.1 hfresh) hagrees b e he hm)]
      exact ih b (hnext b).2 (ha.2 b _ hm) (.ofFresh hends) (hreaches.suffix.trans hc)
        (hagrees.of_reaches hreaches) ho
    | rejected err e => simp [Production.comesTo_read_of_rejected hm] at ho
  | attempt m k ih =>
    have hne := upcoming_ne_nil_of_outcome hlt ho
    obtain ⟨-, hbound, -, rfl, hsome, hnone⟩ := id hr
    have hfresh := hs.fresh.1 hbound
    cases hm : Nonterminal.constructorType.outcome options (c.append ts l) with
    | accepted b e =>
      rw [Production.comesTo_attempt_of_accepted hm] at ho
      obtain ⟨e, rfl, he, hreaches⟩ := exists_append_of_outcome hlt hm ho
      have hends := Nonterminal.constructorType.endsFresh options (us ++ ts) _
        (Cursor.suffix_append hc) hfresh b _ hm
      rw [Production.comesTo_attempt_of_accepted
        (ha.1 c rfl hc (Cursor.fresh_append.1 hfresh) hagrees b e he hm)]
      exact ih _ (hsome b) (ha.2.1 b _ hm) (.ofFresh hends) (hreaches.suffix.trans hc)
        (hagrees.of_reaches hreaches) ho
    | rejected err e =>
      obtain ⟨err', e', hm'⟩ := hr.rejected_append hs hparted hne hc hagrees hm
      rw [Production.comesTo_attempt_of_rejected hm] at ho
      rw [Production.comesTo_attempt_of_rejected hm']
      exact ih _ hnone (ha.2.2 err e hm) (hs.refuse hm) hc hagrees ho

end Rule

/-- What is read in the first tokens, and leaves some of them, is read alike whatever follows them,
if types are accepted alike at the names in doubt. -/
theorem Nonterminal.outcome_append {options : ReadOptions} {us ts ts' : List Token} {l : Location}
    {n : Nonterminal} {c d : Cursor} {a : n.Result} (hparted : Cursor.Parted us ts l)
    (hparted' : Cursor.Parted us ts' l) (hc : c.upcoming <:+ us) (hfresh : c.Fresh us)
    (hagrees : c.Agrees options us ts' ts l) (hd : d.upcoming ≠ [])
    (ho : n.outcome options (c.append ts l) = .accepted a (d.append ts l)) :
    n.outcome options (c.append ts' l) = .accepted a (d.append ts' l) := by
  refine outcome_induction options (P := ReadsAlike options us ts ts' l) (fun n e ha => ?_) n
    (c.append ts l) c rfl hc hfresh hagrees a d hd ho
  rintro c rfl hc hfresh hagrees a d hd ho
  rw [outcome_eq] at ho ⊢
  exact (Production.names options n).outcome_append hparted hparted' ha
    (.ofFresh (Cursor.fresh_append.2 hfresh)) hc hagrees hd ho

/-- So a type that ends in the first tokens is accepted whatever follows them. -/
theorem Nonterminal.constructorType_append {options : ReadOptions} {us ts ts' : List Token}
    {l : Location} {c d : Cursor} {made : TypeSpecifier} (hparted : Cursor.Parted us ts l)
    (hparted' : Cursor.Parted us ts' l) (hc : c.upcoming <:+ us) (hdoubtful : c.Doubtful us)
    (hagrees : c.advance.advance.Agrees options us ts' ts l) (hd : d.upcoming ≠ [])
    (ho : constructorType.outcome options (c.append ts l) = .accepted made (d.append ts l)) :
    constructorType.outcome options (c.append ts' l) = .accepted made (d.append ts' l) := by
  obtain ⟨name, hname⟩ := hdoubtful.exists_name
  have hnext : ∀ us', (c.append us' l).advance.advance = c.advance.advance.append us' l := by
    intro us'
    rw [Cursor.advance_append us' l hdoubtful.ne_nil,
      Cursor.advance_append us' l hdoubtful.advance_ne_nil]
  have hfresh : c.advance.advance.Fresh us :=
    (Cursor.fresh_advance (Cursor.suffix_advance hc) (by simp [hdoubtful.less_advance])).2
      (by simp [hdoubtful.less_advance])
  have hcurrent : ∀ us', (c.append us' l).current = c.current := fun us' =>
    Cursor.current_append us' l hdoubtful.ne_nil
  rw [constructorType_eq_accepted_of_doubtful (hdoubtful.append ts l)
    ((congrArg Token.kind (hcurrent ts)).trans hname)] at ho
  rw [constructorType_eq_accepted_of_doubtful (hdoubtful.append ts' l)
    ((congrArg Token.kind (hcurrent ts')).trans hname)]
  rw [hnext, hcurrent, Cursor.current_append ts l hd] at ho
  rw [hnext, hcurrent, Cursor.current_append ts' l hd]
  obtain ⟨⟨parameters, ho, hmade⟩, hparen⟩ := ho
  exact ⟨⟨parameters, outcome_append hparted hparted'
    (Cursor.suffix_advance (Cursor.suffix_advance hc)) hfresh hagrees hd ho, hmade⟩, hparen⟩

end Wgsl
