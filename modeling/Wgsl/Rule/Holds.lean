import Wgsl.Rule

/-!
# What a rule comes to

`Rule.Holds` says that following a rule from a cursor ends in an outcome with a property, whatever
the nonterminals it reads come to, as long as that is what they promise. It is computed from the
rule step by step, and each way to build a rule has a lemma here that says what its holding comes
to. So a fact about a rule is settled by taking the rule apart, once for each nonterminal, and
never by running it.

Two theorems put the rules of a grammar together. `Grammar.parse_holds`: what every rule shows of
its outcome, relying on the same of what it reads, holds of every outcome there is.
`Grammar.parse_of_decreasing`: where moreover a weight falls from each nonterminal to those it
reads, a depth above the weight is never reached, so there is an outcome.
-/

namespace Wgsl

variable {N : Type} {R : N → Type} {α β : Type}

namespace Rule

/-- Following a rule from a cursor ends in an outcome with a property, where a nonterminal may be
read only under `pre`, and then comes to an outcome under `post`. -/
def Holds (pre : N → Cursor → Prop) (post : (n : N) → Cursor → Outcome (R n) → Prop) :
    Rule R α → Cursor → (Outcome α → Prop) → Prop
  | .done a, c, Q => Q (.accepted a c)
  | .fail e, c, Q => Q (.rejected e c)
  | .look k, c, Q => (k c.current).Holds pre post c Q
  | .lookBehind k, c, Q => (k c.following).Holds pre post c Q
  | .advance k, c, Q => k.Holds pre post c.advance Q
  | .split k, c, Q => k.Holds pre post c.split Q
  | .read n k, c, Q =>
    pre n c ∧ (∀ a c', post n c (.accepted a c') → (k a).Holds pre post c' Q) ∧
      ∀ e c', post n c (.rejected e c') → Q (.rejected e c')
  | .attempt n k, c, Q =>
    pre n c ∧ (∀ a c', post n c (.accepted a c') → (k (some a)).Holds pre post c' Q) ∧
      ∀ e c', post n c (.rejected e c') → (k none).Holds pre post c Q

variable {pre : N → Cursor → Prop} {post : (n : N) → Cursor → Outcome (R n) → Prop}

/-- A rule that holds runs to an outcome with the property, where the nonterminals do. -/
theorem Holds.run {parse : (n : N) → Cursor → Option (Outcome (R n))}
    (h : ∀ n c, pre n c → ∃ o, parse n c = some o ∧ post n c o) {r : Rule R α} {c : Cursor}
    {Q : Outcome α → Prop} (hr : r.Holds pre post c Q) : ∃ o, r.run parse c = some o ∧ Q o := by
  induction r generalizing c with
  | done a => exact ⟨_, rfl, hr⟩
  | fail e => exact ⟨_, rfl, hr⟩
  | look k ih => exact ih c.current hr
  | lookBehind k ih => exact ih c.following hr
  | advance k ih => exact ih hr
  | split k ih => exact ih hr
  | read n k ih =>
    obtain ⟨hpre, haccepted, hrejected⟩ := hr
    obtain ⟨o, ho, hpost⟩ := h n c hpre
    cases o with
    | accepted a c' => simpa only [Rule.run, ho] using ih a (haccepted a c' hpost)
    | rejected e c' => exact ⟨_, by simp only [Rule.run, ho], hrejected e c' hpost⟩
  | attempt n k ih =>
    obtain ⟨hpre, haccepted, hrejected⟩ := hr
    obtain ⟨o, ho, hpost⟩ := h n c hpre
    cases o with
    | accepted a c' => simpa only [Rule.run, ho] using ih (some a) (haccepted a c' hpost)
    | rejected e c' => simpa only [Rule.run, ho] using ih none (hrejected e c' hpost)

/-- The outcome of a rule that holds has the property, where nonterminals come to what they
promise. -/
theorem Holds.of_run {parse : (n : N) → Cursor → Option (Outcome (R n))} {r : Rule R α}
    {c : Cursor} {Q : Outcome α → Prop} (hr : r.Holds pre post c Q) {o : Outcome α}
    (ho : r.run parse c = some o) (h : ∀ n c o, pre n c → parse n c = some o → post n c o) :
    Q o := by
  induction r generalizing c with
  | done | fail => exact Option.some.inj ho ▸ hr
  | look k ih => exact ih _ hr ho
  | lookBehind k ih => exact ih _ hr ho
  | advance k ih => exact ih hr ho
  | split k ih => exact ih hr ho
  | read n k ih =>
    obtain ⟨hpre, haccepted, hrejected⟩ := hr
    rw [Rule.run] at ho
    cases hp : parse n c with
    | none => simp [hp] at ho
    | some o' =>
      rw [hp] at ho
      cases o' with
      | accepted a c' => exact ih a (haccepted a c' (h n c _ hpre hp)) ho
      | rejected e c' => exact Option.some.inj ho ▸ hrejected e c' (h n c _ hpre hp)
  | attempt n k ih =>
    obtain ⟨hpre, haccepted, hrejected⟩ := hr
    rw [Rule.run] at ho
    cases hp : parse n c with
    | none => simp [hp] at ho
    | some o' =>
      rw [hp] at ho
      cases o' with
      | accepted a c' => exact ih (some a) (haccepted a c' (h n c _ hpre hp)) ho
      | rejected e c' => exact ih none (hrejected e c' (h n c _ hpre hp)) ho

/-- What holds of an outcome, weaker properties of it do too. -/
theorem Holds.mono {r : Rule R α} {c : Cursor} {Q Q' : Outcome α → Prop}
    (h : r.Holds pre post c Q) (hQ : ∀ o, Q o → Q' o) : r.Holds pre post c Q' := by
  induction r generalizing c with
  | done | fail => exact hQ _ h
  | look k ih => exact ih _ h
  | lookBehind k ih => exact ih _ h
  | advance k ih => exact ih h
  | split k ih => exact ih h
  | read n k ih =>
    exact ⟨h.1, fun a d ha => ih a (h.2.1 a d ha), fun e d he => hQ _ (h.2.2 e d he)⟩
  | attempt n k ih =>
    exact ⟨h.1, fun a d ha => ih _ (h.2.1 a d ha), fun e d he => ih _ (h.2.2 e d he)⟩

/-- One rule behind another holds if the first leads to where the second does. -/
@[simp] theorem holds_bind {r : Rule R α} {f : α → Rule R β} {c : Cursor} {Q : Outcome β → Prop} :
    (r.bind f).Holds pre post c Q ↔
      r.Holds pre post c fun
        | .accepted a c' => (f a).Holds pre post c' Q
        | .rejected e c' => Q (.rejected e c') := by
  induction r generalizing c <;> simp_all [bind, Holds]

/-! ## Steps -/

variable {c : Cursor}

@[simp] theorem bind_eq (r : Rule R α) (f : α → Rule R β) : r >>= f = r.bind f := rfl

@[simp] theorem pure_eq (a : α) : (pure a : Rule R α) = .done a := rfl

@[simp] theorem holds_done {a : α} {Q : Outcome α → Prop} :
    (done a : Rule R α).Holds pre post c Q ↔ Q (.accepted a c) := .rfl

@[simp] theorem holds_fail {e : ParseError} {Q : Outcome α → Prop} :
    (fail e : Rule R α).Holds pre post c Q ↔ Q (.rejected e c) := .rfl

@[simp] theorem holds_read {n : N} {k : R n → Rule R α} {Q : Outcome α → Prop} :
    (Rule.read n k).Holds pre post c Q ↔ pre n c ∧
      (∀ a c', post n c (.accepted a c') → (k a).Holds pre post c' Q) ∧
      ∀ e c', post n c (.rejected e c') → Q (.rejected e c') := .rfl

@[simp] theorem holds_attempt {n : N} {k : Option (R n) → Rule R α} {Q : Outcome α → Prop} :
    (Rule.attempt n k).Holds pre post c Q ↔ pre n c ∧
      (∀ a c', post n c (.accepted a c') → (k (some a)).Holds pre post c' Q) ∧
      ∀ e c', post n c (.rejected e c') → (k none).Holds pre post c Q := .rfl

@[simp] theorem holds_current {Q : Outcome Token → Prop} :
    (current : Rule R Token).Holds pre post c Q ↔ Q (.accepted c.current c) := .rfl

@[simp] theorem holds_following {Q : Outcome TokenKind → Prop} :
    (following : Rule R TokenKind).Holds pre post c Q ↔ Q (.accepted c.following c) := .rfl

@[simp] theorem holds_skip {Q : Outcome Unit → Prop} :
    (skip : Rule R Unit).Holds pre post c Q ↔ Q (.accepted () c.advance) := .rfl

@[simp] theorem holds_unexpected {expected : Expectation} {Q : Outcome α → Prop} :
    (unexpected expected : Rule R α).Holds pre post c Q ↔
      Q (.rejected (.ofToken expected c.current) c) := .rfl

@[simp] theorem holds_sees {mark : Symbol} {Q : Outcome Bool → Prop} :
    (sees mark : Rule R Bool).Holds pre post c Q ↔
      Q (.accepted (c.current.kind = .symbol mark) c) := .rfl

@[simp] theorem holds_ite {p : Prop} [Decidable p] {r s : Rule R α} {Q : Outcome α → Prop} :
    (if p then r else s).Holds pre post c Q ↔
      (p → r.Holds pre post c Q) ∧ (¬p → s.Holds pre post c Q) := by
  split <;> simp_all

@[simp] theorem holds_accept {mark : Symbol} {Q : Outcome Bool → Prop} :
    (accept mark : Rule R Bool).Holds pre post c Q ↔
      (c.current.kind = .symbol mark → Q (.accepted true c.advance)) ∧
      (c.current.kind ≠ .symbol mark → Q (.accepted false c)) := by
  simp only [accept, bind_eq, pure_eq, holds_bind, holds_current, holds_ite, holds_skip,
    holds_done, ne_eq]

@[simp] theorem holds_expect {mark : Symbol} {place : String} {Q : Outcome Unit → Prop} :
    (expect mark place : Rule R Unit).Holds pre post c Q ↔
      (c.current.kind = .symbol mark → Q (.accepted () c.advance)) ∧
      (c.current.kind ≠ .symbol mark →
        Q (.rejected (.ofToken (.symbol mark place) c.current) c)) := by
  simp only [expect, bind_eq, holds_bind, holds_current, holds_ite, holds_skip, holds_unexpected,
    ne_eq]

@[simp] theorem holds_identifier {expected : Expectation} {Q : Outcome String → Prop} :
    (identifier expected : Rule R String).Holds pre post c Q ↔
      (∀ name, c.current.kind = .identifier name → Q (.accepted name c.advance)) ∧
      ((∀ name, c.current.kind ≠ .identifier name) →
        Q (.rejected (.ofToken expected c.current) c)) := by
  simp only [identifier, bind_eq, holds_bind, holds_current]
  split <;> simp_all [holds_skip, holds_unexpected, holds_bind, pure_eq, holds_done]

@[simp] theorem holds_closeAngle {expected : Expectation} {Q : Outcome Unit → Prop} :
    (closeAngle expected : Rule R Unit).Holds pre post c Q ↔
      (c.current.kind = .symbol .greaterThan → Q (.accepted () c.advance)) ∧
      (c.current.afterAngle?.isSome → Q (.accepted () c.split)) ∧
      (c.current.kind ≠ .symbol .greaterThan → c.current.afterAngle? = none →
        Q (.rejected (.ofToken expected c.current) c)) := by
  have single : c.current.kind = .symbol .greaterThan → c.current.afterAngle? = none := by
    intro h
    simp [Token.afterAngle?, h, Symbol.afterAngle?]
  simp only [closeAngle, bind_eq, holds_bind, holds_current, holds_ite, holds_skip,
    holds_unexpected, Holds]
  cases h : c.current.afterAngle? <;> simp_all

/-- When each step of a rule holds. Rewritten by it, a rule is taken apart down to the nonterminals
it reads. -/
theorem holds_steps :
    type_of% @bind_eq ∧ type_of% @pure_eq ∧ type_of% @holds_bind ∧ type_of% @holds_done ∧
    type_of% @holds_fail ∧ type_of% @holds_read ∧ type_of% @holds_attempt ∧
    type_of% @holds_current ∧ type_of% @holds_following ∧ type_of% @holds_skip ∧
    type_of% @holds_unexpected ∧ type_of% @holds_sees ∧ type_of% @holds_ite ∧
    type_of% @holds_accept ∧ type_of% @holds_expect ∧ type_of% @holds_identifier ∧
    type_of% @holds_closeAngle :=
  ⟨bind_eq, pure_eq, holds_bind, holds_done, holds_fail, holds_read, holds_attempt, holds_current,
    holds_following, holds_skip, holds_unexpected, holds_sees, holds_ite, holds_accept,
    holds_expect, holds_identifier, holds_closeAngle⟩

end Rule

namespace Grammar

/-- Where every nonterminal reads only nonterminals of less weight, a depth above the weight is
enough, and what the rules show of each outcome holds. -/
theorem parse_of_decreasing {g : Grammar R} {weight : N → Cursor → Nat}
    {post : (n : N) → Cursor → Outcome (R n) → Prop}
    (h : ∀ n c, (g n).Holds (fun n' c' => weight n' c' < weight n c) post c (post n c))
    {depth : Nat} {n : N} {c : Cursor} (hdepth : weight n c < depth) :
    ∃ o, g.parse depth n c = some o ∧ post n c o := by
  induction depth generalizing n c with
  | zero => omega
  | succ depth ih => exact (h n c).run fun n' c' hlt => ih (by omega)

/-- What every rule shows of its outcome, given the same of the nonterminals it reads, holds of
every outcome. -/
theorem parse_holds {g : Grammar R} {pre : N → Cursor → Prop}
    {post : (n : N) → Cursor → Outcome (R n) → Prop}
    (h : ∀ n c, pre n c → (g n).Holds pre post c (post n c)) {depth : Nat} {n : N} {c : Cursor}
    {o : Outcome (R n)} (hpre : pre n c) (ho : g.parse depth n c = some o) : post n c o := by
  induction depth generalizing n c with
  | zero => simp [parse] at ho
  | succ depth ih => exact (h n c hpre).of_run ho fun _ _ _ => ih

end Grammar

end Wgsl
