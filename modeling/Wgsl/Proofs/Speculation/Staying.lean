import Wgsl.Proofs.Speculation.Leaving

/-!
# Staying where tokens end

A rule that is accepted where it stands, without having moved, has only looked at the token there.
Few rules can be; that the others cannot is seen from them (`Rule.Moves`). So a rule that stays
before one token stays before another as well, if it does the same at both or moves at the first
(`Rule.StaysAt`), and if the nonterminals that it reads there do so.

With this the end of the first of two parts of a sequence of tokens is no different from any other
place in it. What is read up to there is read alike whatever the second part begins with, as long as
what ends there stays (`Nonterminal.outcome_before_of`).
-/

namespace Wgsl

namespace Cursor

variable {c e : Cursor} {us ts ts' : List Token} {l : Location}

/-- Behind the first tokens, the others are reached. -/
theorem reaches_before (c : Cursor) (ts : List Token) (l : Location) :
    (c.append ts l).Reaches (before ts l) := by
  induction hu : c.upcoming generalizing c with
  | nil => rw [append_of_nil hu]
  | cons t rest ih =>
    have hne : c.upcoming ≠ [] := by simp [hu]
    refine Reaches.of_advance ?_
    rw [advance_append ts l hne]
    exact ih _ (by rw [upcoming_advance, hu, List.tail_cons])

/-- What is reached, and leaves none of the first tokens, is reached from behind them. -/
theorem Reaches.of_before (h : (c.append ts l).Reaches e) (hle : e.upcoming.length ≤ ts.length) :
    (before ts l).Reaches e := by
  rcases (reaches_before c ts l).total h with hbefore | hback
  · exact hbefore
  · by_cases heq : e = before ts l
    · rw [heq]
    · have hlt := hback.measure_lt heq
      simp only [measure, before] at hlt
      omega

end Cursor

namespace Rule

variable {options : ReadOptions} {α : Type} {r : Production α} {c d : Cursor} {a : α}

/-! ## Moving -/

/-- If reading and what goes on behind it come back to where they began, they have not moved. -/
theorem eq_of_comesTo {m : Nonterminal} {b : m.Result} {k : Production α}
    (hm : m.outcome options c = .accepted b d) (ho : k.comesTo options d = .accepted a c) :
    c = d := by
  have hreaches := m.outcome_reaches options c
  have hrest := outcome_reaches options k d
  rw [hm] at hreaches
  rw [ho] at hrest
  exact hreaches.antisymm hrest

/-- Nothing is accepted where the rule begins. -/
@[simp] def Moves : Production α → Prop
  | .done _ | .split _ => False
  | .fail _ | .advance _ => True
  | .look k => ∀ t, (k t).Moves
  | .lookBehind k => ∀ kind, (k kind).Moves
  | .read m k => m.takesToken ∨ ∀ a, (k a).Moves
  | .attempt _ k => (∀ a, (k (some a)).Moves) ∧ (k none).Moves

@[simp] theorem moves_ite {p : Prop} [Decidable p] {r r' : Production α} :
    (if p then r else r').Moves ↔ (p → r.Moves) ∧ (¬p → r'.Moves) := by
  split <;> simp_all

@[simp] theorem moves_elim {γ : Type} {o : Option γ} {r : Production α} {f : γ → Production α} :
    (o.elim r f).Moves ↔ (o = none → r.Moves) ∧ ∀ a, o = some a → (f a).Moves := by
  cases o <;> simp

/-- A rule that moves is not accepted where it begins; the end of the file is the exception, as
nothing advances there. -/
theorem Moves.ne (hr : r.Moves) (hne : c.upcoming ≠ []) :
    r.comesTo options c ≠ .accepted a c := by
  intro ho
  induction r with
  | done b => exact hr
  | fail e => cases ho
  | look k ih => exact ih _ (hr _) ho
  | lookBehind k ih => exact ih _ (hr _) ho
  | advance k ih =>
    have hreaches := outcome_reaches options k c.advance
    rw [Production.comesTo, follow] at ho
    rw [Production.comesTo, ho] at hreaches
    exact Cursor.Reaches.not_of_advance (.refl c) hne hreaches
  | split k ih => exact hr
  | read m k ih =>
    cases hm : m.outcome options c with
    | accepted b d =>
      rw [Production.comesTo_read_of_accepted hm] at ho
      obtain rfl := eq_of_comesTo hm ho
      rcases hr with htakes | hk
      · have hwithin := @Nonterminal.outcome_within options m c
        rw [hm, htakes] at hwithin
        simp at hwithin
      · exact ih b (hk b) ho
    | rejected e d => simp [Production.comesTo_read_of_rejected hm] at ho
  | attempt m k ih =>
    cases hm : m.outcome options c with
    | accepted b d =>
      rw [Production.comesTo_attempt_of_accepted hm] at ho
      obtain rfl := eq_of_comesTo hm ho
      exact ih _ (hr.1 b) ho
    | rejected e d =>
      rw [Production.comesTo_attempt_of_rejected hm] at ho
      exact ih _ hr.2 ho

/-! ## Staying -/

/-- Where the rule stops without taking the next token, it would do so before the tokens in
question, and so would the nonterminals in question that it reads. -/
def StaysAt (p : Nonterminal → Bool) (sees : TokenKind → Prop) (_ : Option Token) :
    Production α → Prop
  | .done _ | .fail _ | .advance _ => True
  | .look k => ∀ t t', sees t'.kind → k t = k t' ∨ (k t).Moves
  | .lookBehind k => ∀ kind, (k kind).Moves
  | .split _ => False
  | .read m k => p m ∨ ∀ a, (k a).Moves
  | .attempt _ k => (∀ a, (k (some a)).Moves) ∧ (k none).Moves

/-- Less may be asked of what is left of a rule. -/
theorem Always.mono {Q Q' : Option Token → Production α → Prop} {seen : Option Token}
    (h : ∀ seen r, Q seen r → Q' seen r) (hr : r.Always Q seen) : r.Always Q' seen := by
  induction r generalizing seen with
  | done a | fail e => exact h _ _ hr
  | look k ih => exact ⟨h _ _ hr.1, fun t ht => ih t (hr.2 t ht)⟩
  | lookBehind k ih => exact ⟨h _ _ hr.1, fun kind => ih kind (hr.2 kind)⟩
  | advance k ih => exact ⟨h _ _ hr.1, ih hr.2⟩
  | split k ih => exact ⟨h _ _ hr.1, ih hr.2⟩
  | read m k ih => exact ⟨h _ _ hr.1, fun a => ih a (hr.2 a)⟩
  | attempt m k ih => exact ⟨h _ _ hr.1, fun a => ih _ (hr.2.1 a), ih _ hr.2.2⟩

end Rule

namespace Nonterminal

/-- What stays where it is read stays at another cursor, before the same token or one of those in
question. -/
def Stays (p : Nonterminal → Bool) (sees : TokenKind → Prop) (options : ReadOptions) (c' : Cursor)
    (n : Nonterminal) (c : Cursor) : Prop :=
  p n → c'.current = c.current ∨ sees c'.current.kind → c.upcoming ≠ [] →
    ∀ a, n.outcome options c = .accepted a c → n.outcome options c' = .accepted a c'

/-- What the nonterminal reads up to the end of the first tokens, it reads before others as well. -/
def ReadsUp (p : Nonterminal → Bool) (options : ReadOptions) (us ts ts' : List Token) (l : Location)
    (n : Nonterminal) (e : Cursor) : Prop :=
  ∀ c : Cursor, e = c.append ts l → p n → c.upcoming ≠ [] → c.upcoming <:+ us →
    c.Fresh us → c.Agrees options us ts' ts l → ∀ a : n.Result,
      n.outcome options (c.append ts l) = .accepted a (.before ts l) →
      n.outcome options (c.append ts' l) = .accepted a (.before ts' l)

end Nonterminal

variable {options : ReadOptions} {p : Nonterminal → Bool} {sees : TokenKind → Prop}

/-- A rule that is accepted where it stands is accepted where another such token stands. -/
theorem Rule.Always.stays {α : Type} {r : Production α} {a : α} {seen : Option Token}
    {c c' : Cursor} (hr : r.Always (StaysAt p sees) seen) (hseen : ∀ t ∈ seen, c.current = t)
    (hc' : c'.current = c.current ∨ sees c'.current.kind)
    (ha : r.Along (fun n c => n.outcome options c) (Nonterminal.Stays p sees options c') c)
    (hne : c.upcoming ≠ []) (ho : r.comesTo options c = .accepted a c) :
    r.comesTo options c' = .accepted a c' := by
  induction r generalizing seen with
  | done b =>
    simpa [Production.comesTo] using ho
  | fail e => cases ho
  | look k ih =>
    have hsame : k c.current = k c'.current ∨ (k c.current).Moves := by
      rcases hc' with heq | hsees
      · exact .inl (by rw [heq])
      · exact hr.1 c.current c'.current hsees
    rcases hsame with hsame | hmoves
    · rw [Production.comesTo, follow, ← hsame]
      exact ih _ (hr.2 _ hseen) (by simp) ha ho
    · exact absurd ho (hmoves.ne hne)
  | lookBehind k ih => exact absurd ho (Moves.ne (r := .lookBehind k) hr.1 hne)
  | advance k ih => exact absurd ho (Moves.ne (r := .advance k) trivial hne)
  | split k ih => exact hr.1.elim
  | read m k ih =>
    cases hm : m.outcome options c with
    | accepted b d =>
      rw [Production.comesTo_read_of_accepted hm] at ho
      obtain rfl := eq_of_comesTo hm ho
      rcases hr.1 with hp | hk
      · rw [Production.comesTo_read_of_accepted (ha.1 hp hc' hne b hm)]
        exact ih b (hr.2 b) (by simp) (ha.2 b _ hm) ho
      · exact absurd ho ((hk b).ne hne)
    | rejected e d => simp [Production.comesTo_read_of_rejected hm] at ho
  | attempt m k ih => exact absurd ho (Moves.ne (r := .attempt m k) hr.1 hne)

/-- What nonterminals that stay before a token have read up to there, they have read up to the other
token as well. -/
theorem Nonterminal.stays
    (hp : ∀ n, p n → (Production.ofNonterminal options n).Always (Rule.StaysAt p sees) none)
    (c' : Cursor) (n : Nonterminal) (c : Cursor) : n.Stays p sees options c' c := by
  refine outcome_induction options (fun n c ha hn hc' hne a ho => ?_) n c
  rw [outcome_eq] at ho ⊢
  exact (hp n hn).stays nofun hc' ha hne ho

section

variable {us ts ts' : List Token} {l : Location} {n : Nonterminal} {c : Cursor}
variable {α : Type} {r : Production α} {s : Stand} {a : α}

/-- A rule leaves the first tokens in one step. Up to it the same remains of the rule before both
sequences, and behind it nothing more is taken. -/
theorem Rule.Names.outcome_before_of (hparted : Cursor.Parted us ts l)
    (hparted' : Cursor.Parted us ts' l) (hts : ts ≠ [])
    (hhead : (Cursor.before ts' l).current = (Cursor.before ts l).current ∨
      sees (Cursor.before ts' l).current.kind)
    (hstays : ∀ (n : Nonterminal) c, n.Stays p sees options (.before ts' l) c)
    (hr : r.Names options n s) (hrests : r.Always (StaysAt p sees) s.seen)
    (ha : r.Along (fun n c => n.outcome options c) (Nonterminal.ReadsUp p options us ts ts' l)
      (c.append ts l))
    (hs : s.Holds options (us ++ ts) (c.append ts l)) (hne : c.upcoming ≠ [])
    (hc : c.upcoming <:+ us) (hagrees : c.Agrees options us ts' ts l)
    (ho : r.comesTo options (c.append ts l) = .accepted a (.before ts l)) :
    r.comesTo options (c.append ts' l) = .accepted a (.before ts' l) := by
  have hidle : ∀ k : Production α, k.Always (StaysAt p sees) none →
      k.comesTo options (.before ts l) = .accepted a (.before ts l) →
        k.comesTo options (.before ts' l) = .accepted a (.before ts' l) := fun k hk =>
    hk.stays nofun hhead (along_of_forall hstays _ _) hts
  have hdone : Production.Remains options (.done a) (.before ts l) r (c.append ts l) :=
    remains_of_accepted ho
  have hlength : (Cursor.before ts l).upcoming.length ≤ ts.length := Nat.le_refl _
  obtain ⟨r₁, d, hd, hreaches, hremains, hleaves⟩ := exists_leaves hne hlength hdone
  obtain ⟨s₁, hr₁, hrests₁, hs₁, -⟩ := hr.remains hrests hs (Cursor.suffix_append hc) hremains
  have hsame := hr.remains_append hparted hparted' hs hc hagrees hd hremains
  have ha₁ := ha.remains hremains
  have hd' := hreaches.suffix.trans hc
  rw [Production.comesTo, hsame.follow_eq]
  cases hleaves with
  | @advance k _ hlast h =>
    have hk := h.follow_eq
    rw [Rule.follow, Cursor.advance_append ts' l hd, Cursor.append_of_nil hlast]
    exact hidle k hrests₁.2 hk
  | @read m k _ e b hm he h =>
    have hreaches' := m.outcome_reaches options (d.append ts l)
    rw [hm] at hreaches'
    obtain rfl := (hreaches'.of_before he).antisymm
      (h.reaches fun n c => n.outcome_reaches options c)
    have hk : (k b).comesTo options (.before ts l) = .accepted a (.before ts l) := h.follow_eq
    have hm' := ha₁.1 d rfl (hrests₁.1.resolve_right fun hmoves => (hmoves b).ne hts hk) hd hd'
      (Cursor.fresh_append.1 (hs₁.fresh.1 hr₁.1)) (hagrees.of_reaches hreaches) b hm
    rw [← Production.comesTo, Production.comesTo_read_of_accepted hm']
    exact hidle (k b) (hrests₁.2 b) hk
  | @take m k _ e b hm he h =>
    have hreaches' := m.outcome_reaches options (d.append ts l)
    rw [hm] at hreaches'
    obtain rfl := (hreaches'.of_before he).antisymm
      (h.reaches fun n c => n.outcome_reaches options c)
    exact absurd h.follow_eq ((hrests₁.1.1 b).ne hts)

/-- What is read up to the end of the first tokens is read before others as well, if what ends there
stays. -/
theorem Nonterminal.outcome_before_of (hparted : Cursor.Parted us ts l)
    (hparted' : Cursor.Parted us ts' l) (hts : ts ≠ [])
    (hhead : (Cursor.before ts' l).current = (Cursor.before ts l).current ∨
      sees (Cursor.before ts' l).current.kind)
    (hp : ∀ n, p n → (Production.ofNonterminal options n).Always (Rule.StaysAt p sees) none)
    (hn : p n) (hne : c.upcoming ≠ []) (hc : c.upcoming <:+ us) (hfresh : c.Fresh us)
    (hagrees : c.Agrees options us ts' ts l) {a : n.Result}
    (ho : n.outcome options (c.append ts l) = .accepted a (.before ts l)) :
    n.outcome options (c.append ts' l) = .accepted a (.before ts' l) := by
  refine outcome_induction options (P := ReadsUp p options us ts ts' l) (fun n e ha => ?_) n
    (c.append ts l) c rfl hn hne hc hfresh hagrees a ho
  rintro c rfl hn hne hc hfresh hagrees a ho
  rw [outcome_eq] at ho ⊢
  exact (Production.names options n).outcome_before_of hparted hparted' hts hhead (stays hp _)
    (hp n hn) ha (.ofFresh (Cursor.fresh_append.2 hfresh)) hne hc hagrees ho

end

end Wgsl
