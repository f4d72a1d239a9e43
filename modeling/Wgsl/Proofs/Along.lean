import Wgsl.Proofs.Follow

/-!
# Along a rule

What a rule comes to depends on the nonterminals it reads or tries on its way. `Rule.Along` says
something of each of them, at the cursor where it is read. Since the weight of nonterminals falls,
what holds of a nonterminal if it holds along its rule holds of all (`outcome_induction`). So facts
about all outcomes are shown without a depth, by an induction on the rule inside one on
nonterminals.
-/

namespace Wgsl

namespace Rule

variable {N : Type} {R : N → Type} {α : Type}

/-- The property holds of the nonterminals that the rule reads or tries on its way from a cursor,
each where it is read. -/
def Along (outcome : (n : N) → Cursor → Outcome (R n)) (P : N → Cursor → Prop) :
    Rule R α → Cursor → Prop
  | .done _, _ | .fail _, _ => True
  | .look k, c => (k c.current).Along outcome P c
  | .lookBehind k, c => (k c.following).Along outcome P c
  | .advance k, c => k.Along outcome P c.advance
  | .split k, c => k.Along outcome P c.split
  | .read n k, c => P n c ∧ ∀ a d, outcome n c = .accepted a d → (k a).Along outcome P d
  | .attempt n k, c =>
    P n c ∧ (∀ a d, outcome n c = .accepted a d → (k (some a)).Along outcome P d) ∧
      ∀ e d, outcome n c = .rejected e d → (k none).Along outcome P c

variable {outcome : (n : N) → Cursor → Outcome (R n)}

/-- Less may be asked of what is read. -/
theorem Along.mono {P P' : N → Cursor → Prop} (hP : ∀ n c, P n c → P' n c) {r : Rule R α}
    {c : Cursor} (h : r.Along outcome P c) : r.Along outcome P' c := by
  induction r generalizing c with
  | done | fail => trivial
  | look k ih => exact ih _ h
  | lookBehind k ih => exact ih _ h
  | advance k ih => exact ih h
  | split k ih => exact ih h
  | read n k ih => exact ⟨hP n c h.1, fun a d ho => ih a (h.2 a d ho)⟩
  | attempt n k ih =>
    exact ⟨hP n c h.1, fun a d ho => ih _ (h.2.1 a d ho), fun e d ho => ih _ (h.2.2 e d ho)⟩

/-- What holds of all nonterminals holds along every rule. -/
theorem along_of_forall {P : N → Cursor → Prop} (hP : ∀ n c, P n c) (r : Rule R α) (c : Cursor) :
    r.Along outcome P c := by
  induction r generalizing c with
  | done | fail => trivial
  | look k ih => exact ih _ c
  | lookBehind k ih => exact ih _ c
  | advance k ih => exact ih c.advance
  | split k ih => exact ih c.split
  | read n k ih => exact ⟨hP n c, fun a d _ => ih a d⟩
  | attempt n k ih => exact ⟨hP n c, fun a d _ => ih _ d, fun _ _ _ => ih _ c⟩

/-- What a rule is asked for at every nonterminal holds along the rule. -/
theorem Holds.along {pre : N → Cursor → Prop} {post : (n : N) → Cursor → Outcome (R n) → Prop}
    {Q : Outcome α → Prop} (hpost : ∀ n c, post n c (outcome n c)) {r : Rule R α} {c : Cursor}
    (h : r.Holds pre post c Q) : r.Along outcome pre c := by
  induction r generalizing c with
  | done | fail => trivial
  | look k ih => exact ih _ h
  | lookBehind k ih => exact ih _ h
  | advance k ih => exact ih h
  | split k ih => exact ih h
  | read n k ih => exact ⟨h.1, fun a d ho => ih a (h.2.1 a d (ho ▸ hpost n c))⟩
  | attempt n k ih =>
    exact ⟨h.1, fun a d ho => ih _ (h.2.1 a d (ho ▸ hpost n c)),
      fun e d ho => ih _ (h.2.2 e d (ho ▸ hpost n c))⟩

/-- What a rule shows with the outcomes of nonterminals known holds of what it comes to. -/
theorem Holds.of_along {post : (n : N) → Cursor → Outcome (R n) → Prop} {Q : Outcome α → Prop}
    {r : Rule R α} {c : Cursor} (ha : r.Along outcome (fun n c => post n c (outcome n c)) c)
    (h : r.Holds (fun _ _ => True) (fun n c o => outcome n c = o ∧ post n c o) c Q) :
    Q (r.follow outcome c) := by
  induction r generalizing c with
  | done | fail => exact h
  | look k ih => exact ih _ ha h
  | lookBehind k ih => exact ih _ ha h
  | advance k ih => exact ih ha h
  | split k ih => exact ih ha h
  | read n k ih =>
    obtain ⟨hpost, hnext⟩ := ha
    rw [follow]
    cases ho : outcome n c with
    | accepted a d => exact ih a (hnext a d ho) (h.2.1 a d ⟨ho, ho ▸ hpost⟩)
    | rejected e d => exact h.2.2 e d ⟨ho, ho ▸ hpost⟩
  | attempt n k ih =>
    obtain ⟨hpost, hnext, hnone⟩ := ha
    rw [follow]
    cases ho : outcome n c with
    | accepted a d => exact ih _ (hnext a d ho) (h.2.1 a d ⟨ho, ho ▸ hpost⟩)
    | rejected e d => exact ih _ (hnone e d ho) (h.2.2 e d ⟨ho, ho ▸ hpost⟩)

/-- A rule that knows what the nonterminals it reads come to knows what it comes to. -/
theorem Holds.follow_eq {pre : N → Cursor → Prop} {post : (n : N) → Cursor → Outcome (R n) → Prop}
    (known : ∀ n c o, post n c o → outcome n c = o) {Q : Outcome α → Prop} {r : Rule R α}
    {c : Cursor} (h : r.Holds pre post c Q) :
    r.Holds pre post c fun o => r.follow outcome c = o ∧ Q o := by
  induction r generalizing c with
  | done | fail => exact ⟨rfl, h⟩
  | look k ih => exact ih _ h
  | lookBehind k ih => exact ih _ h
  | advance k ih => exact ih h
  | split k ih => exact ih h
  | read n k ih =>
    refine ⟨h.1, fun a d hpost => ?_, fun e d hpost => ⟨?_, h.2.2 e d hpost⟩⟩
    · simpa only [follow, known n c _ hpost] using ih a (h.2.1 a d hpost)
    · simp only [follow, known n c _ hpost]
  | attempt n k ih =>
    refine ⟨h.1, fun a d hpost => ?_, fun e d hpost => ?_⟩
    · simpa only [follow, known n c _ hpost] using ih _ (h.2.1 a d hpost)
    · simpa only [follow, known n c _ hpost] using ih _ (h.2.2 e d hpost)

end Rule

/-- What a rule of the grammar comes to from a cursor. -/
abbrev Production.comesTo {α : Type} (options : ReadOptions) (r : Production α) (c : Cursor) :
    Outcome α :=
  r.follow (fun n c => n.outcome options c) c

namespace Production

variable {α : Type} {options : ReadOptions} {m : Nonterminal} {c d : Cursor} {e : ParseError}

/-- Where what is read is accepted, the rule goes on with its value. -/
theorem comesTo_read_of_accepted {a : m.Result} {k : m.Result → Production α}
    (h : m.outcome options c = .accepted a d) :
    comesTo options (.read m k) c = comesTo options (k a) d := by
  simp [comesTo, h]

/-- Where what is read is refused, so is the rule. -/
theorem comesTo_read_of_rejected {k : m.Result → Production α}
    (h : m.outcome options c = .rejected e d) : comesTo options (.read m k) c = .rejected e d := by
  simp [comesTo, h]

/-- Where what is tried is accepted, the rule goes on with its value. -/
theorem comesTo_attempt_of_accepted {a : m.Result} {k : Option m.Result → Production α}
    (h : m.outcome options c = .accepted a d) :
    comesTo options (.attempt m k) c = comesTo options (k (some a)) d := by
  simp [comesTo, h]

/-- Where what is tried is refused, the rule goes on from where it was. -/
theorem comesTo_attempt_of_rejected {k : Option m.Result → Production α}
    (h : m.outcome options c = .rejected e d) :
    comesTo options (.attempt m k) c = comesTo options (k none) c := by
  simp [comesTo, h]

end Production

namespace Nonterminal

variable {options : ReadOptions}

/-- What holds of a nonterminal if it holds along its rule holds of all nonterminals. -/
theorem outcome_induction (options : ReadOptions) {P : Nonterminal → Cursor → Prop}
    (h : ∀ n c, (Production.ofNonterminal options n).Along (fun n c => n.outcome options c) P c →
      P n c) (n : Nonterminal) (c : Cursor) : P n c := by
  induction hw : n.weight c using Nat.strongRecOn generalizing n c with
  | ind w ih =>
    refine h n c (Rule.Along.mono (fun n' c' hlt => ih _ (hw ▸ hlt) n' c' rfl)
      ((Production.progresses options n c).along fun n c => n.outcome_within c))

/-- What every rule shows, with the outcomes of the nonterminals it reads known and the same known
of them, holds of every outcome. -/
theorem outcome_of_holds {post : (n : Nonterminal) → Cursor → Outcome n.Result → Prop}
    (h : ∀ n c, (Production.ofNonterminal options n).Holds (fun _ _ => True)
      (fun n c o => n.outcome options c = o ∧ post n c o) c (post n c)) (n : Nonterminal)
    (c : Cursor) : post n c (n.outcome options c) := by
  refine outcome_induction options (P := fun n c => post n c (n.outcome options c))
    (fun n c ha => ?_) n c
  rw [outcome_eq]
  exact (h n c).of_along ha

/-- What every rule shows of its outcome, with the outcomes of the nonterminals it reads known,
holds of every outcome, if no step of a cursor loses the property that the rules rely on. -/
theorem outcome_of_shows_comes {P : Cursor → Prop}
    {post : (n : Nonterminal) → Cursor → Outcome n.Result → Prop}
    (advance : ∀ c, P c → P c.advance) (split : ∀ c, P c → P c.split)
    (h : ∀ n c, P c → (Production.ofNonterminal options n).Holds (fun _ _ => True)
      (Known P fun n c o => n.outcome options c = o ∧ post n c o) c (post n c)) (n : Nonterminal)
    {c : Cursor} (hc : P c) : post n c (n.outcome options c) := by
  have shows : ∀ n, Shows options P (fun n c o => n.outcome options c = o ∧ post n c o) n := by
    intro n c hc
    have hfollow := (h n c hc).follow_eq fun n c o hknown => hknown.2.2.1
    rw [← outcome_eq] at hfollow
    exact hfollow
  exact (outcome_of_shows advance split shows n hc).2.2

end Nonterminal

end Wgsl
