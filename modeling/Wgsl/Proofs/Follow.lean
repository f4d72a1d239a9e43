import Wgsl.Grammar.Outcome

/-!
# Following rules

Two ways to learn what a nonterminal comes to. Where the tokens are known, its rule is followed
step by step: each way to build a rule has an equation here for what following it comes to. Where
they are not, something is shown of every outcome by showing it of every rule
(`outcome_of_shows`), with the help of a property of the cursor that no step loses.

That a property is lost by no step is a fact about cursors alone, since a rule moves its cursor
only by advancing and splitting (`outcome_keeps`).
-/

namespace Wgsl

namespace Outcome

variable {α β : Type}

/-- Go on from an accepted value. -/
def bind (o : Outcome α) (next : α → Cursor → Outcome β) : Outcome β :=
  match o with
  | .accepted a c => next a c
  | .rejected e c => .rejected e c

@[simp] theorem accepted_bind (a : α) (c : Cursor) (next : α → Cursor → Outcome β) :
    (accepted a c).bind next = next a c := rfl

@[simp] theorem rejected_bind (e : ParseError) (c : Cursor) (next : α → Cursor → Outcome β) :
    (rejected e c : Outcome α).bind next = .rejected e c := rfl

@[simp] theorem bind_accepted (o : Outcome α) : o.bind .accepted = o := by cases o <;> rfl

@[simp] theorem cursor_accepted (a : α) (c : Cursor) : (accepted a c).cursor = c := rfl

@[simp] theorem cursor_rejected (e : ParseError) (c : Cursor) :
    (rejected e c : Outcome α).cursor = c := rfl

/-- The property holds of the value and the cursor, if the outcome is an accepted value. -/
def IfAccepted (o : Outcome α) (Q : α → Cursor → Prop) : Prop :=
  ∀ a c, o = .accepted a c → Q a c

@[simp] theorem ifAccepted_accepted {a : α} {c : Cursor} {Q : α → Cursor → Prop} :
    (accepted a c).IfAccepted Q ↔ Q a c := by
  simp [IfAccepted]

@[simp] theorem ifAccepted_rejected {e : ParseError} {c : Cursor} {Q : α → Cursor → Prop} :
    (rejected e c).IfAccepted Q := by
  simp [IfAccepted]

instance {o : Outcome α} {Q : α → Cursor → Prop} [∀ a c, Decidable (Q a c)] :
    Decidable (o.IfAccepted Q) :=
  match o with
  | .accepted a c => decidable_of_iff (Q a c) ifAccepted_accepted.symm
  | .rejected _ _ => .isTrue ifAccepted_rejected

@[simp] theorem ifAccepted_bind {o : Outcome α} {next : α → Cursor → Outcome β}
    {Q : β → Cursor → Prop} :
    (o.bind next).IfAccepted Q ↔ o.IfAccepted fun a c => (next a c).IfAccepted Q := by
  cases o <;> simp

end Outcome

namespace Rule

variable {N : Type} {R : N → Type} {α β : Type}
variable {outcome : (n : N) → Cursor → Outcome (R n)} {c : Cursor}

/-! ## Step by step -/

@[simp] theorem follow_bind (r : Rule R α) (f : α → Rule R β) (c : Cursor) :
    (r.bind f).follow outcome c =
      (r.follow outcome c).bind fun a c' => (f a).follow outcome c' := by
  induction r generalizing c with
  | done a => rfl
  | fail e => rfl
  | look k ih => exact ih _ _
  | lookBehind k ih => exact ih _ _
  | advance k ih => exact ih _
  | split k ih => exact ih _
  | read n k ih =>
    rw [bind, follow, follow]
    cases outcome n c with
    | accepted a c' => exact ih a c'
    | rejected e c' => rfl
  | attempt n k ih =>
    rw [bind, follow, follow]
    cases outcome n c with
    | accepted a c' => exact ih (some a) c'
    | rejected e c' => exact ih none c

@[simp] theorem follow_done (a : α) : (done a : Rule R α).follow outcome c = .accepted a c := rfl

@[simp] theorem follow_fail (e : ParseError) :
    (fail e : Rule R α).follow outcome c = .rejected e c := rfl

@[simp] theorem follow_read (n : N) (k : R n → Rule R α) :
    (Rule.read n k).follow outcome c =
      (outcome n c).bind fun a c' => (k a).follow outcome c' := by
  rw [follow]
  cases outcome n c <;> rfl

@[simp] theorem follow_attempt (n : N) (k : Option (R n) → Rule R α) :
    (Rule.attempt n k).follow outcome c =
      match outcome n c with
      | .accepted a c' => (k (some a)).follow outcome c'
      | .rejected _ _ => (k none).follow outcome c := by
  cases h : outcome n c <;> simp only [follow, h]

@[simp] theorem follow_current :
    (current : Rule R Token).follow outcome c = .accepted c.current c := rfl

@[simp] theorem follow_following :
    (following : Rule R TokenKind).follow outcome c = .accepted c.following c := rfl

@[simp] theorem follow_skip :
    (skip : Rule R Unit).follow outcome c = .accepted () c.advance := rfl

@[simp] theorem follow_unexpected (expected : Expectation) :
    (unexpected expected : Rule R α).follow outcome c =
      .rejected (.ofToken expected c.current) c := rfl

@[simp] theorem follow_sees (mark : Symbol) :
    (sees mark : Rule R Bool).follow outcome c =
      .accepted (decide (c.current.kind = .symbol mark)) c := rfl

/-- Following a rule that depends on a condition depends on it in the same way. -/
theorem follow_ite {p : Prop} [Decidable p] (r s : Rule R α) :
    (if p then r else s).follow outcome c =
      if p then r.follow outcome c else s.follow outcome c := by
  split <;> rfl

@[simp] theorem follow_accept (mark : Symbol) :
    (accept mark : Rule R Bool).follow outcome c =
      if c.current.kind = .symbol mark then .accepted true c.advance else .accepted false c := by
  simp only [accept, bind_eq, pure_eq, follow_bind, follow_current, Outcome.accepted_bind,
    follow_ite, follow_skip, follow_done]

@[simp] theorem follow_expect (mark : Symbol) (place : String) :
    (expect mark place : Rule R Unit).follow outcome c =
      if c.current.kind = .symbol mark then .accepted () c.advance
      else .rejected (.ofToken (.symbol mark place) c.current) c := by
  simp only [expect, bind_eq, follow_bind, follow_current, Outcome.accepted_bind, follow_ite,
    follow_skip, follow_unexpected]

@[simp] theorem follow_identifier (expected : Expectation) :
    (identifier expected : Rule R String).follow outcome c =
      match c.current.kind with
      | .identifier name => .accepted name c.advance
      | _ => .rejected (.ofToken expected c.current) c := by
  simp only [identifier, bind_eq, follow_bind, follow_current, Outcome.accepted_bind]
  split <;> simp_all

@[simp] theorem follow_closeAngle (expected : Expectation) :
    (closeAngle expected : Rule R Unit).follow outcome c =
      if c.current.kind = .symbol .greaterThan then .accepted () c.advance
      else if c.current.afterAngle?.isSome then .accepted () c.split
      else .rejected (.ofToken expected c.current) c := by
  simp only [closeAngle, bind_eq, follow_bind, follow_current, Outcome.accepted_bind, follow_ite,
    follow_skip, follow_unexpected]
  rfl

/-- What following each step of a rule comes to. -/
theorem follow_steps :
    type_of% @bind_eq ∧ type_of% @pure_eq ∧ type_of% @follow_bind ∧ type_of% @follow_done ∧
    type_of% @follow_fail ∧ type_of% @follow_read ∧ type_of% @follow_attempt ∧
    type_of% @follow_current ∧ type_of% @follow_following ∧ type_of% @follow_skip ∧
    type_of% @follow_unexpected ∧ type_of% @follow_sees ∧ type_of% @follow_accept ∧
    type_of% @follow_expect ∧ type_of% @follow_identifier ∧ type_of% @follow_closeAngle ∧
    type_of% @Outcome.accepted_bind ∧ type_of% @Outcome.rejected_bind ∧
    type_of% @Outcome.bind_accepted :=
  ⟨bind_eq, pure_eq, follow_bind, follow_done, follow_fail, follow_read, follow_attempt,
    follow_current, follow_following, follow_skip, follow_unexpected, follow_sees, follow_accept,
    follow_expect, follow_identifier, follow_closeAngle, Outcome.accepted_bind,
    Outcome.rejected_bind, Outcome.bind_accepted⟩

/-- Where a rule reads no nonterminal, it holds of what it comes to. -/
theorem holds_iff_follow {pre : N → Cursor → Prop} {post : (n : N) → Cursor → Outcome (R n) → Prop}
    {r : Rule R α} {Q : Outcome α → Prop} (outcome : (n : N) → Cursor → Outcome (R n))
    (h : r.Holds (fun _ _ => False) (fun _ _ _ => True) c fun _ => True) :
    r.Holds pre post c Q ↔ Q (r.follow outcome c) := by
  induction r generalizing c with
  | done | fail => exact .rfl
  | look k ih => exact ih _ h
  | lookBehind k ih => exact ih _ h
  | advance k ih => exact ih h
  | split k ih => exact ih h
  | read n k => exact h.1.elim
  | attempt n k => exact h.1.elim

/-! ## Under a property that no step loses -/

variable {P : Cursor → Prop}

/-- Of every rule something trivial holds. -/
theorem Holds.trivial {post : (n : N) → Cursor → Outcome (R n) → Prop} (r : Rule R α) (c : Cursor) :
    r.Holds (fun _ _ => True) post c fun _ => True := by
  induction r generalizing c with
  | done | fail => exact True.intro
  | look k ih => exact ih _ _
  | lookBehind k ih => exact ih _ _
  | advance k ih => exact ih _
  | split k ih => exact ih _
  | read n k ih => exact ⟨True.intro, fun a c' _ => ih a c', fun _ _ _ => True.intro⟩
  | attempt n k ih => exact ⟨True.intro, fun a c' _ => ih _ c', fun _ _ _ => ih _ c⟩

/-- A rule keeps the property if what it reads does. So it may be used at every read, and holds
where the rule stops. -/
theorem Holds.keeping {post : (n : N) → Cursor → Outcome (R n) → Prop}
    (advance : ∀ c, P c → P c.advance) (split : ∀ c, P c → P c.split) {r : Rule R α} {c : Cursor}
    {Q : Outcome α → Prop} (hc : P c)
    (hr : r.Holds (fun _ _ => True) (fun n c o => P c ∧ P o.cursor ∧ post n c o) c Q) :
    r.Holds (fun _ c => P c) (fun n c o => P o.cursor ∧ post n c o) c
      fun o => P o.cursor ∧ Q o := by
  induction r generalizing c with
  | done | fail => exact ⟨hc, hr⟩
  | look k ih => exact ih _ hc hr
  | lookBehind k ih => exact ih _ hc hr
  | advance k ih => exact ih (advance c hc) hr
  | split k ih => exact ih (split c hc) hr
  | read n k ih =>
    obtain ⟨-, haccepted, hrejected⟩ := hr
    refine ⟨hc, fun a c' h => ?_, fun e c' h => ⟨h.1, hrejected e c' ⟨hc, h⟩⟩⟩
    exact ih a h.1 (haccepted a c' ⟨hc, h⟩)
  | attempt n k ih =>
    obtain ⟨-, haccepted, hrejected⟩ := hr
    refine ⟨hc, fun a c' h => ?_, fun e c' h => ?_⟩
    · exact ih _ h.1 (haccepted a c' ⟨hc, h⟩)
    · exact ih _ hc (hrejected e c' ⟨hc, h⟩)

end Rule

@[simp] theorem Production.follow_furtherParameter
    {outcome : (n : Nonterminal) → Cursor → Outcome n.Result} {c : Cursor} :
    furtherParameter.follow outcome c =
      if c.current.kind = .symbol .comma then
        .accepted (!c.advance.current.kind.closesAngle) c.advance
      else .accepted false c := by
  by_cases h : c.current.kind = .symbol .comma <;> simp [furtherParameter, h]

@[simp] theorem Production.holds_furtherParameter {pre : Nonterminal → Cursor → Prop}
    {post : (n : Nonterminal) → Cursor → Outcome n.Result → Prop} {c : Cursor}
    {Q : Outcome Bool → Prop} :
    furtherParameter.Holds pre post c Q ↔
      (c.current.kind = .symbol .comma →
        Q (.accepted (!c.advance.current.kind.closesAngle) c.advance)) ∧
      (c.current.kind ≠ .symbol .comma → Q (.accepted false c)) := by
  simp [furtherParameter]

namespace Nonterminal

/-- What is known of a nonterminal that was read: a property of the cursors before and behind it,
and what was shown of its outcome. -/
def Known (P : Cursor → Prop) (post : (n : Nonterminal) → Cursor → Outcome n.Result → Prop)
    (n : Nonterminal) (c : Cursor) (o : Outcome n.Result) : Prop :=
  P c ∧ P o.cursor ∧ post n c o

@[simp] theorem known_iff {P : Cursor → Prop}
    {post : (n : Nonterminal) → Cursor → Outcome n.Result → Prop} {n : Nonterminal} {c : Cursor}
    {o : Outcome n.Result} : n.Known P post c o ↔ P c ∧ P o.cursor ∧ post n c o := .rfl

/-- The rule of a nonterminal shows something of its outcome. It may rely on the same of what it
reads, and at every read on a property of the cursor. -/
abbrev Shows (options : ReadOptions) (P : Cursor → Prop)
    (post : (n : Nonterminal) → Cursor → Outcome n.Result → Prop) (n : Nonterminal) : Prop :=
  ∀ c, P c → (Production.ofNonterminal options n).Holds (fun _ _ => True) (Known P post) c
    (post n c)

variable {options : ReadOptions} {P : Cursor → Prop}

/-- What every rule shows of its outcome holds of every outcome, if no step of a cursor loses the
property that the rules rely on. -/
theorem outcome_of_shows {post : (n : Nonterminal) → Cursor → Outcome n.Result → Prop}
    (advance : ∀ c, P c → P c.advance) (split : ∀ c, P c → P c.split)
    (h : ∀ n, Shows options P post n) (n : Nonterminal) {c : Cursor} (hc : P c) :
    P (n.outcome options c).cursor ∧ post n c (n.outcome options c) :=
  @outcome_holds options (fun _ c => P c) (fun n c o => P o.cursor ∧ post n c o)
    (fun n c hc => (h n c hc).keeping advance split hc) n c hc

/-- What no step of a cursor loses, reading does not lose. -/
theorem outcome_keeps (advance : ∀ c, P c → P c.advance) (split : ∀ c, P c → P c.split)
    (n : Nonterminal) {c : Cursor} (hc : P c) : P (n.outcome options c).cursor := by
  have kept : ∀ n, Shows options P (fun _ _ _ => True) n :=
    fun n c _ => Rule.Holds.trivial (Production.ofNonterminal options n) c
  exact (outcome_of_shows advance split kept n hc).1

end Nonterminal

end Wgsl
