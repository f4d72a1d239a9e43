import Wgsl.Proofs.Along

/-!
# What a rule yields

Most of what is known of a reading is known of the value it accepts. `Rule.Yields` says that of a
rule, where it is given what the nonterminals it reads accept, and asks nothing of where it is
refused: an `expect` has one way on and not two, and what is tried is read or not there. Like
`Rule.Holds`, it is computed from the rule step by step (`yields_steps`).

What the rules of all nonterminals yield, given the same, every accepted value has
(`Nonterminal.accepted_of_yields`).
-/

namespace Wgsl

namespace Rule

variable {N : Type} {R : N → Type} {α β : Type}

/-- A value that the rule accepts from a cursor has the property, together with the cursor behind
it, where of what nonterminals accept something is given. -/
def Yields (given : (n : N) → Cursor → R n → Cursor → Prop) :
    Rule R α → Cursor → (α → Cursor → Prop) → Prop
  | .done a, c, Q => Q a c
  | .fail _, _, _ => True
  | .look k, c, Q => (k c.current).Yields given c Q
  | .lookBehind k, c, Q => (k c.following).Yields given c Q
  | .advance k, c, Q => k.Yields given c.advance Q
  | .split k, c, Q => k.Yields given c.split Q
  | .read n k, c, Q => ∀ a d, given n c a d → (k a).Yields given d Q
  | .attempt n k, c, Q =>
    (∀ a d, given n c a d → (k (some a)).Yields given d Q) ∧ (k none).Yields given c Q

variable {given : (n : N) → Cursor → R n → Cursor → Prop} {c : Cursor}

/-- Less may be said of the value. -/
theorem Yields.mono {r : Rule R α} {Q Q' : α → Cursor → Prop} (h : r.Yields given c Q)
    (hQ : ∀ a d, Q a d → Q' a d) : r.Yields given c Q' := by
  induction r generalizing c with
  | done => exact hQ _ _ h
  | fail => trivial
  | look k ih => exact ih _ h
  | lookBehind k ih => exact ih _ h
  | advance k ih => exact ih h
  | split k ih => exact ih h
  | read n k ih => exact fun a d ha => ih a (h a d ha)
  | attempt n k ih => exact ⟨fun a d ha => ih _ (h.1 a d ha), ih _ h.2⟩

/-- What a rule yields holds of what it comes to, if that is an accepted value. -/
theorem Yields.holds {post : (n : N) → Cursor → Outcome (R n) → Prop}
    (hgiven : ∀ n c a d, post n c (.accepted a d) → given n c a d) {r : Rule R α}
    {Q : α → Cursor → Prop} (h : r.Yields given c Q) :
    r.Holds (fun _ _ => True) post c fun o => o.IfAccepted Q := by
  induction r generalizing c with
  | done => exact Outcome.ifAccepted_accepted.2 h
  | fail => exact Outcome.ifAccepted_rejected
  | look k ih => exact ih _ h
  | lookBehind k ih => exact ih _ h
  | advance k ih => exact ih h
  | split k ih => exact ih h
  | read n k ih =>
    exact ⟨True.intro, fun a d ha => ih a (h a d (hgiven n c a d ha)),
      fun _ _ _ => Outcome.ifAccepted_rejected⟩
  | attempt n k ih =>
    exact ⟨True.intro, fun a d ha => ih _ (h.1 a d (hgiven n c a d ha)), fun _ _ _ => ih _ h.2⟩

/-- Every rule yields something trivial. -/
theorem yields_true (r : Rule R α) (c : Cursor) : r.Yields given c fun _ _ => True := by
  induction r generalizing c with
  | done | fail => exact True.intro
  | look k ih => exact ih _ _
  | lookBehind k ih => exact ih _ _
  | advance k ih => exact ih _
  | split k ih => exact ih _
  | read n k ih => exact fun a d _ => ih a d
  | attempt n k ih => exact ⟨fun a d _ => ih _ d, ih _ c⟩

/-- What a rule yields, whatever nonterminals accept, holds of what it comes to. -/
theorem Yields.follow {outcome : (n : N) → Cursor → Outcome (R n)} {r : Rule R α}
    {Q : α → Cursor → Prop} (h : r.Yields (fun _ _ _ _ => True) c Q) :
    (r.follow outcome c).IfAccepted Q :=
  have along : r.Along outcome (fun _ _ => True) c := along_of_forall (fun _ _ => True.intro) r c
  have holds : r.Holds (fun _ _ => True) (fun n c o => outcome n c = o ∧ True) c
      fun o => o.IfAccepted Q := h.holds fun _ _ _ _ _ => True.intro
  holds.of_along along

/-! ## Steps -/

@[simp] theorem yields_bind {r : Rule R α} {f : α → Rule R β} {Q : β → Cursor → Prop} :
    (r.bind f).Yields given c Q ↔ r.Yields given c fun a d => (f a).Yields given d Q := by
  induction r generalizing c <;> simp_all [bind, Yields]

@[simp] theorem yields_done {a : α} {Q : α → Cursor → Prop} :
    (done a : Rule R α).Yields given c Q ↔ Q a c := .rfl

@[simp] theorem yields_fail {e : ParseError} {Q : α → Cursor → Prop} :
    (fail e : Rule R α).Yields given c Q := trivial

@[simp] theorem yields_read {n : N} {k : R n → Rule R α} {Q : α → Cursor → Prop} :
    (Rule.read n k).Yields given c Q ↔ ∀ a d, given n c a d → (k a).Yields given d Q := .rfl

@[simp] theorem yields_attempt {n : N} {k : Option (R n) → Rule R α} {Q : α → Cursor → Prop} :
    (Rule.attempt n k).Yields given c Q ↔
      (∀ a d, given n c a d → (k (some a)).Yields given d Q) ∧ (k none).Yields given c Q := .rfl

@[simp] theorem yields_current {Q : Token → Cursor → Prop} :
    (current : Rule R Token).Yields given c Q ↔ Q c.current c := .rfl

@[simp] theorem yields_following {Q : TokenKind → Cursor → Prop} :
    (following : Rule R TokenKind).Yields given c Q ↔ Q c.following c := .rfl

@[simp] theorem yields_skip {Q : Unit → Cursor → Prop} :
    (skip : Rule R Unit).Yields given c Q ↔ Q () c.advance := .rfl

@[simp] theorem yields_unexpected {expected : Expectation} {Q : α → Cursor → Prop} :
    (unexpected expected : Rule R α).Yields given c Q := trivial

@[simp] theorem yields_sees {mark : Symbol} {Q : Bool → Cursor → Prop} :
    (sees mark : Rule R Bool).Yields given c Q ↔ Q (c.current.kind = .symbol mark) c := .rfl

@[simp] theorem yields_ite {p : Prop} [Decidable p] {r s : Rule R α} {Q : α → Cursor → Prop} :
    (if p then r else s).Yields given c Q ↔
      (p → r.Yields given c Q) ∧ (¬p → s.Yields given c Q) := by
  split <;> simp_all

@[simp] theorem yields_accept {mark : Symbol} {Q : Bool → Cursor → Prop} :
    (accept mark : Rule R Bool).Yields given c Q ↔
      (c.current.kind = .symbol mark → Q true c.advance) ∧
      (c.current.kind ≠ .symbol mark → Q false c) := by
  simp only [accept, bind_eq, pure_eq, yields_bind, yields_current, yields_ite, yields_skip,
    yields_done, ne_eq]

@[simp] theorem yields_expect {mark : Symbol} {place : String} {Q : Unit → Cursor → Prop} :
    (expect mark place : Rule R Unit).Yields given c Q ↔
      (c.current.kind = .symbol mark → Q () c.advance) := by
  simp only [expect, bind_eq, yields_bind, yields_current, yields_ite, yields_skip,
    yields_unexpected, implies_true, and_true]

@[simp] theorem yields_identifier {expected : Expectation} {Q : String → Cursor → Prop} :
    (identifier expected : Rule R String).Yields given c Q ↔
      ∀ name, c.current.kind = .identifier name → Q name c.advance := by
  simp only [identifier, bind_eq, yields_bind, yields_current]
  split <;> simp_all [yields_skip, yields_unexpected, yields_bind, pure_eq, yields_done]

@[simp] theorem yields_closeAngle {expected : Expectation} {Q : Unit → Cursor → Prop} :
    (closeAngle expected : Rule R Unit).Yields given c Q ↔
      (c.current.kind = .symbol .greaterThan → Q () c.advance) ∧
      (c.current.afterAngle?.isSome → Q () c.split) := by
  have single : c.current.kind = .symbol .greaterThan → c.current.afterAngle? = none := by
    intro h
    simp [Token.afterAngle?, h, Symbol.afterAngle?]
  simp only [closeAngle, bind_eq, yields_bind, yields_current, yields_ite, yields_skip,
    yields_unexpected, Yields]
  cases h : c.current.afterAngle? <;> simp_all

/-- What a rule yields whatever stands in front of it. -/
theorem Yields.behind {r : Rule R α} {f : α → Rule R β} {Q : β → Cursor → Prop}
    (h : ∀ a d, (f a).Yields given d Q) : (r >>= f).Yields given c Q :=
  yields_bind.2 ((yields_true r c).mono fun a d _ => h a d)

/-- What each step of a rule yields: a rule rewritten by it is read down to the nonterminals. -/
theorem yields_steps :
    type_of% @bind_eq ∧ type_of% @pure_eq ∧ type_of% @yields_bind ∧ type_of% @yields_done ∧
    type_of% @yields_fail ∧ type_of% @yields_read ∧ type_of% @yields_attempt ∧
    type_of% @yields_current ∧ type_of% @yields_following ∧ type_of% @yields_skip ∧
    type_of% @yields_unexpected ∧ type_of% @yields_sees ∧ type_of% @yields_ite ∧
    type_of% @yields_accept ∧ type_of% @yields_expect ∧ type_of% @yields_identifier ∧
    type_of% @yields_closeAngle :=
  ⟨bind_eq, pure_eq, yields_bind, yields_done, yields_fail, yields_read, yields_attempt,
    yields_current, yields_following, yields_skip, yields_unexpected, yields_sees, yields_ite,
    yields_accept, yields_expect, yields_identifier, yields_closeAngle⟩

end Rule

@[simp] theorem Production.yields_furtherParameter
    {given : (n : Nonterminal) → Cursor → n.Result → Cursor → Prop} {c : Cursor}
    {Q : Bool → Cursor → Prop} :
    furtherParameter.Yields given c Q ↔
      (c.current.kind = .symbol .comma → Q (!c.advance.current.kind.closesAngle) c.advance) ∧
      (c.current.kind ≠ .symbol .comma → Q false c) := by
  simp [furtherParameter]

/-- Where the end of type parameters is does not matter. -/
theorem Production.yields_closeParameters_of_any
    {given : (n : Nonterminal) → Cursor → n.Result → Cursor → Prop} {c : Cursor} {name : String}
    {Q : Unit → Cursor → Prop} (h : ∀ d, Q () d) : (closeParameters name).Yields given c Q := by
  simp [closeParameters, h]

namespace Nonterminal

/-- What is known of a value that was read: a property of the cursors before and behind it, and
what was shown of it. -/
def Given (P : Cursor → Prop) (post : (n : Nonterminal) → Cursor → n.Result → Cursor → Prop)
    (n : Nonterminal) (c : Cursor) (a : n.Result) (d : Cursor) : Prop :=
  P c ∧ P d ∧ post n c a d

@[simp] theorem given_iff {P : Cursor → Prop}
    {post : (n : Nonterminal) → Cursor → n.Result → Cursor → Prop} {n : Nonterminal} {c d : Cursor}
    {a : n.Result} : n.Given P post c a d ↔ P c ∧ P d ∧ post n c a d := .rfl

variable {options : ReadOptions} {P : Cursor → Prop}
variable {post : (n : Nonterminal) → Cursor → n.Result → Cursor → Prop}

/-- The rule of a nonterminal shows something of what it accepts. It may rely on the same of what
it reads, and at every read on a property of the cursor. -/
abbrev ShowsAccepted (options : ReadOptions) (P : Cursor → Prop)
    (post : (n : Nonterminal) → Cursor → n.Result → Cursor → Prop) (n : Nonterminal) : Prop :=
  ∀ c, P c → (Production.ofNonterminal options n).Yields (Given P post) c (post n c)

/-- What every rule yields, every accepted value has, if no step of a cursor loses the property
that the rules rely on. -/
theorem accepted_of_yields (advance : ∀ c, P c → P c.advance) (split : ∀ c, P c → P c.split)
    (h : ∀ n, ShowsAccepted options P post n) (n : Nonterminal) {c : Cursor} (hc : P c) :
    (n.outcome options c).IfAccepted (post n c) := by
  have shows : ∀ n, Shows options P (fun n c o => o.IfAccepted (post n c)) n := fun n c hc =>
    (h n c hc).holds fun _ _ a d hknown => ⟨hknown.1, hknown.2.1, hknown.2.2 a d rfl⟩
  exact (outcome_of_shows advance split shows n hc).2

/-- What every rule yields, with the outcomes of the nonterminals it reads known, every accepted
value has, if no step of a cursor loses the property that the rules rely on. -/
theorem accepted_of_yields_comes (advance : ∀ c, P c → P c.advance)
    (split : ∀ c, P c → P c.split)
    (h : ∀ n c, P c → (Production.ofNonterminal options n).Yields
      (Given P fun n c a d => n.outcome options c = .accepted a d ∧ post n c a d) c (post n c))
    (n : Nonterminal) {c : Cursor} (hc : P c) : (n.outcome options c).IfAccepted (post n c) :=
  have shows : ∀ n c, P c → (Production.ofNonterminal options n).Holds (fun _ _ => True)
      (Known P fun n c o => n.outcome options c = o ∧ o.IfAccepted (post n c)) c
      fun o => o.IfAccepted (post n c) := fun n c hc =>
    (h n c hc).holds fun _ _ a d hknown =>
      ⟨hknown.1, hknown.2.1, hknown.2.2.1, hknown.2.2.2 a d rfl⟩
  outcome_of_shows_comes advance split shows n hc

end Nonterminal

end Wgsl
