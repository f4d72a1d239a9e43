import Wgsl.Proofs.Speculation.Staying
import Wgsl.Proofs.Strays.Delimited

/-!
# Where statements and declarations end

A statement or a declaration that is accepted ends behind a `;` or a `}`
(`Nonterminal.stopsBehind`), and has looked at the token behind it for nothing but an `else`
(`Rule.StopsAt`). So where it ends at the end of the first of two parts of a sequence of tokens, it
is the same statement whatever the second part, as long as that begins with the same token or not
with an `else` (`Nonterminal.outcome_before_of_endsStatement`).
-/

namespace Wgsl

open scoped Rule.Steps

namespace Nonterminal

/-- What ends behind a `;` or a `}`, if it takes anything. -/
@[simp] def endsStatement : Nonterminal → Bool
  | .block _ | .statement | .plainStatement | .conditional | .alternatives | .selection
  | .iteration | .repetition | .loop | .function | .item | .declaration => true
  | _ => false

end Nonterminal

namespace Rule

variable {options : ReadOptions} {α : Type} {r : Production α} {c d : Cursor} {a : α}

/-- Where the rule stops, it has taken a `;` or a `}` last and has looked at most for an `else`. -/
def StopsAt (seen : Option Token) : Production α → Prop
  | .done _ | .fail _ => True
  | .look k => ∀ t t', t'.kind ≠ .keyword .else → k t = k t' ∨ (k t).Moves
  | .lookBehind k => ∀ kind, (k kind).Moves
  | .advance k => k.Moves ∨ ∃ t, seen = some t ∧ t.kind.closes
  | .split _ => False
  | .read m k => m.endsStatement ∨ ∀ a, (k a).Moves
  | .attempt _ k => (∀ a, (k (some a)).Moves) ∧ (k none).Moves

section StopsAt

variable {seen : Option Token}

@[simp] theorem stopsAt_done : StopsAt seen (.done a : Production α) := trivial

@[simp] theorem stopsAt_fail {e : ParseError} : StopsAt seen (.fail e : Production α) := trivial

@[simp] theorem stopsAt_look {k : Token → Production α} :
    StopsAt seen (.look k) ↔
      ∀ t t', t'.kind ≠ .keyword .else → k t = k t' ∨ (k t).Moves := .rfl

@[simp] theorem stopsAt_advance {k : Production α} :
    StopsAt seen (.advance k) ↔ k.Moves ∨ ∃ t, seen = some t ∧ t.kind.closes := .rfl

@[simp] theorem stopsAt_read {m : Nonterminal} {k : m.Result → Production α} :
    StopsAt seen (.read m k) ↔ m.endsStatement ∨ ∀ a, (k a).Moves := .rfl

private theorem StopsAt.staysAt (h : StopsAt seen r) :
    StaysAt Nonterminal.endsStatement (· ≠ .keyword .else) seen r := by
  cases r with
  | done a | fail e | advance k => trivial
  | split k => exact h.elim
  | look k | lookBehind k | read m k | attempt m k => exact h

end StopsAt

end Rule

namespace Production

open Rule Nonterminal

variable (options : ReadOptions)

private theorem stops_block (place : String) :
    (ofNonterminal options (.block place)).Always StopsAt none := by
  simp +contextual [block]

private theorem stops_statement : (ofNonterminal options .statement).Always StopsAt none := by
  simp only [ofNonterminal, statement, steps_eq, Always, stopsAt_read, endsStatement,
    Bool.false_eq_true, Moves, false_or, stopsAt_look]
  refine ⟨fun a t => ?_, fun a => ⟨fun t t' _ => .inr ?_, fun t => ?_⟩⟩
  · split <;> simp
  · split <;> simp
  · split <;> simp

private theorem stops_plainStatement :
    (ofNonterminal options .plainStatement).Always StopsAt none := by
  simp only [ofNonterminal, plainStatement, steps_eq, condition, Always, stopsAt_look]
  refine ⟨fun t t' _ => .inr ?_, fun t => ?_⟩
  · split
    all_goals try simp
    split <;> simp
  · split
    · simp +contextual
    · simp +contextual
    · simp +contextual
    · simp +contextual
    · simp +contextual
    · simp +contextual
    · split <;> simp +contextual

private theorem stops_conditional : (ofNonterminal options .conditional).Always StopsAt none := by
  simp +contextual [conditional, condition]

private theorem stops_alternatives : (ofNonterminal options .alternatives).Always StopsAt none := by
  simp +contextual [alternatives, condition, or_comm, Decidable.em]

private theorem stops_selection : (ofNonterminal options .selection).Always StopsAt none := by
  simp +contextual [selection, condition]

private theorem stops_iteration : (ofNonterminal options .iteration).Always StopsAt none := by
  simp +contextual [iteration]

private theorem stops_repetition : (ofNonterminal options .repetition).Always StopsAt none := by
  simp +contextual [repetition, condition]

private theorem stops_loop : (ofNonterminal options .loop).Always StopsAt none := by
  simp +contextual [loop]

private theorem stops_function : (ofNonterminal options .function).Always StopsAt none := by
  simp +contextual [function]

private theorem stops_item : (ofNonterminal options .item).Always StopsAt none := by
  simp only [ofNonterminal, item, steps_eq, condition, Always, stopsAt_look]
  refine ⟨fun t t' _ => .inr ?_, fun t => ?_⟩
  · split
    all_goals try simp
    split <;> simp
  · split
    · simp +contextual
    · simp +contextual
    · simp +contextual
    · simp +contextual
    · simp +contextual
    · simp +contextual
    · simp +contextual
    · simp +contextual
    · simp +contextual
    · split <;> simp +contextual

private theorem stops_declaration : (ofNonterminal options .declaration).Always StopsAt none := by
  simp +contextual [declaration]

/-- The rules of what ends behind a `;` or a `}`. -/
theorem stops {n : Nonterminal} (hn : n.endsStatement) :
    (ofNonterminal options n).Always StopsAt none := by
  cases n with
  | block place => exact stops_block options place
  | statement => exact stops_statement options
  | plainStatement => exact stops_plainStatement options
  | conditional => exact stops_conditional options
  | alternatives => exact stops_alternatives options
  | selection => exact stops_selection options
  | iteration => exact stops_iteration options
  | repetition => exact stops_repetition options
  | loop => exact stops_loop options
  | function => exact stops_function options
  | item => exact stops_item options
  | declaration => exact stops_declaration options
  | _ => cases hn

end Production

variable {options : ReadOptions}

/-! ## Behind what closes -/

/-- What is accepted and leaves tokens has taken a `;` or a `}` last, if it has taken anything. -/
def Nonterminal.StopsBehind (options : ReadOptions) (n : Nonterminal) (c : Cursor) : Prop :=
  n.endsStatement → ∀ a d, d.upcoming ≠ [] → n.outcome options c = .accepted a d →
    d = c ∨ d.BehindClosing c.upcoming

/-- A rule stops where it has begun or directly behind a `;` or a `}`, if what it reads last does.
-/
theorem Rule.Always.stopsBehind {α : Type} {r : Production α} {a : α} {seen : Option Token}
    {c d : Cursor} (hr : r.Always StopsAt seen) (hseen : ∀ t ∈ seen, c.current = t)
    (ha : r.Along (fun n c => n.outcome options c) (Nonterminal.StopsBehind options) c)
    (hd : d.upcoming ≠ []) (ho : r.comesTo options c = .accepted a d) :
    d = c ∨ d.BehindClosing c.upcoming := by
  induction r generalizing seen c with
  | done b =>
    simp only [Production.comesTo, follow_done, Outcome.accepted.injEq] at ho
    exact .inl ho.2.symm
  | fail e => cases ho
  | look k ih => exact ih _ (hr.2 _ hseen) (by simp) ha ho
  | lookBehind k ih => exact ih _ (hr.2 _) hseen ha ho
  | advance k ih =>
    have hsuffix : c.advance.upcoming <:+ c.upcoming := Cursor.suffix_advance List.suffix_rfl
    rcases ih hr.2 (by simp) ha ho with rfl | hbehind
    · rcases hr.1 with hmoves | ⟨t, rfl, ht⟩
      · exact absurd ho (hmoves.ne hd)
      · obtain rfl := hseen t rfl
        exact .inr (Cursor.behindClosing_advance ht)
    · exact .inr (hbehind.of_suffix hsuffix)
  | split k ih => exact hr.1.elim
  | read m k ih =>
    cases hm : m.outcome options c with
    | accepted b e =>
      have hsuffix := m.outcome_suffix options (List.suffix_refl c.upcoming)
      rw [hm] at hsuffix
      rw [Production.comesTo_read_of_accepted hm] at ho
      rcases ih b (hr.2 b) (by simp) (ha.2 b _ hm) ho with rfl | hbehind
      · rcases hr.1 with hends | hmoves
        · exact ha.1 hends b _ hd hm
        · exact absurd ho ((hmoves b).ne hd)
      · exact .inr (hbehind.of_suffix hsuffix)
    | rejected e d => simp [Production.comesTo_read_of_rejected hm] at ho
  | attempt m k ih =>
    cases hm : m.outcome options c with
    | accepted b e =>
      have hsuffix := m.outcome_suffix options (List.suffix_refl c.upcoming)
      rw [hm] at hsuffix
      rw [Production.comesTo_attempt_of_accepted hm] at ho
      rcases ih (some b) (hr.2.1 b) (by simp) (ha.2.1 b _ hm) ho with rfl | hbehind
      · exact absurd ho ((hr.1.1 b).ne hd)
      · exact .inr (hbehind.of_suffix hsuffix)
    | rejected err e =>
      rw [Production.comesTo_attempt_of_rejected hm] at ho
      exact ih none hr.2.2 hseen (ha.2.2 err e hm) ho

namespace Nonterminal

variable {us ts ts' : List Token} {l : Location} {n : Nonterminal} {c d : Cursor} {a : n.Result}

/-- What ends a statement stops where it has begun or directly behind a `;` or a `}`. -/
theorem stopsBehind (n : Nonterminal) (c : Cursor) : n.StopsBehind options c := by
  refine outcome_induction options (fun n c ha hn a d hd ho => ?_) n c
  rw [outcome_eq] at ho
  exact (Production.stops options hn).stopsBehind nofun ha hd ho

/-- What is read up to the end of the first tokens is read before others as well. -/
theorem outcome_before_of_endsStatement (hus : Delimited us) (hts : ts ≠ [])
    (hhead : (Cursor.before ts' l).current = (Cursor.before ts l).current ∨
      (Cursor.before ts' l).current.kind ≠ .keyword .else)
    (hn : n.endsStatement) (hne : c.upcoming ≠ []) (hc : c.upcoming <:+ us) (hfresh : c.Fresh us)
    (ho : n.outcome options (c.append ts l) = .accepted a (.before ts l)) :
    n.outcome options (c.append ts' l) = .accepted a (.before ts' l) :=
  outcome_before_of (hus.parted ts l) (hus.parted ts' l) hts hhead
    (fun _ hp => (Production.stops options hp).mono fun _ _ => Rule.StopsAt.staysAt) hn hne hc
    hfresh (hus.agrees hc ts' ts l) ho

end Nonterminal

end Wgsl
