import Wgsl.Proofs.Parentheses.Heads

/-!
# Parentheses dropped and parentheses kept: rules

What a nonterminal comes to where parentheses are dropped agrees with what it comes to where they
are kept (`Outcome.AgreesWith`): what the one accepts is what the other does, without its
parentheses. The converse holds but for statements that are calls in parentheses, since where
parentheses are kept, such a call is no statement.

`Rule.Agrees` says this of two rules from a cursor, given the same of the nonterminals they read.
Almost every rule goes through the same steps in both readings, and for each step there is a lemma
here; so a rule is gone through once, and the two outcomes are never computed.

All this is so where no token opens parentheses right behind one that closes some, as it then is a
name that is called (`Cursor.Clear`).
-/

namespace Wgsl

/-- No token opens parentheses right behind one that closes some, and the locations that `opens`
tells of are those of upcoming tokens that open parentheses. -/
structure Cursor.Clear (opens : Location → Prop) (c : Cursor) : Prop where
  apart : c.Apart
  opens_iff : ∀ t ∈ c.upcoming, opens t.location ↔ t.kind = .symbol .parenLeft

namespace Cursor.Clear

variable {opens : Location → Prop} {c : Cursor}

/-- Further on, the tokens still to come stand where they stood. -/
theorem advance (h : c.Clear opens) : c.advance.Clear opens := by
  refine ⟨h.apart.advance, fun t ht => h.opens_iff t ?_⟩
  rw [upcoming_advance] at ht
  exact List.mem_of_mem_tail ht

theorem split (h : c.Clear opens) : c.split.Clear opens := by
  refine ⟨h.apart.split, fun t ht => h.opens_iff t ?_⟩
  rwa [upcoming_split] at ht

/-- So it is with the token to be read, unless it is the end of the file or left of a token. -/
theorem opens_current (h : c.Clear opens) (hend : c.current.kind ≠ .endOfFile)
    (hleft : c.current.kind ∉
      [.symbol .greaterThan, .symbol .equal, .symbol .greaterThanEqual]) :
    opens c.current.location ↔ c.current.kind = .symbol .parenLeft :=
  h.opens_iff _ (current_mem_upcoming hend hleft)

end Cursor.Clear

/-! ## Outcomes -/

/-- There is a call at one of the locations that `opens` tells of. -/
def CallsAt (opens : Location → Prop) (calls : List Location) : Prop := ∃ l ∈ calls, opens l

section CallsAt

variable {opens : Location → Prop}

/-- No calls, no call in parentheses. -/
theorem not_callsAt_nil : ¬CallsAt opens [] := by
  simp [CallsAt]

/-- One call is in parentheses if one opens where it stands. -/
theorem callsAt_singleton {l : Location} : CallsAt opens [l] ↔ opens l := by
  simp [CallsAt]

/-- A call in parentheses is among the first or among the others. -/
theorem callsAt_append {calls calls' : List Location} :
    CallsAt opens (calls ++ calls') ↔ CallsAt opens calls ∨ CallsAt opens calls' := by
  simp [CallsAt, or_and_right, exists_or]

/-- Further calls behind do not hide one. -/
theorem CallsAt.left {calls calls' : List Location} (h : CallsAt opens calls) :
    CallsAt opens (calls ++ calls') :=
  callsAt_append.2 (.inl h)

/-- Further calls before do not hide one. -/
theorem CallsAt.right {calls calls' : List Location} (h : CallsAt opens calls') :
    CallsAt opens (calls ++ calls') :=
  callsAt_append.2 (.inr h)

/-- How calls are collected does not matter. -/
theorem callsAt_assoc {calls calls' calls'' : List Location} :
    CallsAt opens (calls ++ calls' ++ calls'') ↔ CallsAt opens (calls ++ (calls' ++ calls'')) := by
  rw [List.append_assoc]

/-- No call is in parentheses if none is on either side. -/
theorem not_callsAt_append {calls calls' : List Location} (h : ¬CallsAt opens calls)
    (h' : ¬CallsAt opens calls') : ¬CallsAt opens (calls ++ calls') :=
  fun hcalls => (callsAt_append.1 hcalls).elim h h'

end CallsAt

namespace Outcome

variable {α β : Type}

/-- Parentheses dropped and parentheses kept: where the second is accepted, so is the first, and is
the same without parentheses. Where the second is rejected, so is the first, unless there is a call
at one of the locations. -/
def AgreesWith (opens : Location → Prop) (bare : α → β) (calls : β → List Location)
    (dropped : Outcome β) (kept : Outcome α) : Prop :=
  match kept with
  | .accepted a c => dropped = .accepted (bare a) c ∧ ¬CallsAt opens (calls (bare a))
  | .rejected _ _ => dropped.IfAccepted fun b _ => CallsAt opens (calls b)

/-- Without calls, one that is rejected leaves the other none to accept. -/
theorem AgreesWith.of_rejected {opens : Location → Prop} {bare : α → β} {dropped : Outcome β}
    {e : ParseError} {c : Cursor}
    (h : dropped.AgreesWith opens bare (fun _ => []) (.rejected e c)) :
    ∃ e' c', dropped = .rejected e' c' := by
  cases dropped with
  | accepted b d => exact absurd (h b d rfl) not_callsAt_nil
  | rejected e' c' => exact ⟨e', c', rfl⟩

end Outcome

/-! ## Nonterminals -/

namespace Nonterminal

/-- The nonterminal that stands in the same place where parentheses are dropped: what is passed on
to it is without them. -/
@[simp] def bare : Nonterminal → Nonterminal
  | .suffixes base => .suffixes base.ungrouped
  | .construction t l => .construction t.ungrouped l
  | n => n

/-- What a nonterminal stands for, without its parentheses. -/
@[simp] def ungrouped : (n : Nonterminal) → n.Result → n.bare.Result
  | .attribute => Attribute.ungrouped
  | .attributes => attributesUngrouped
  | .type | .constructorType => TypeSpecifier.ungrouped
  | .typeParameters _ => TypeParameters.ungrouped
  | .expression _ | .unary | .suffixed | .suffixes _ | .primary | .construction _ _ =>
    Expression.ungrouped
  | .operations _ => List.map Operation.ungrouped
  | .expressions | .arguments | .selectors => expressionsUngrouped
  | .ascription => Option.map TypeSpecifier.ungrouped
  | .initializer _ | .forCondition => Option.map Expression.ungrouped
  | .variable _ _ => Variable.ungrouped
  | .simpleStatement => SimpleStatement.ungrouped
  | .plainStatement | .statement => Statement.ungrouped
  | .statements | .block _ => statementsUngrouped
  | .conditional | .selection | .iteration | .repetition | .loop => CompoundStatement.ungrouped
  | .alternatives => Prod.map alternativesUngrouped optionalUngrouped
  | .clauses _ => clausesUngrouped
  | .forInitializer => Option.map ForInitializer.ungrouped
  | .forUpdate => Option.map SimpleStatement.ungrouped
  | .loopBody => Prod.map statementsUngrouped optionalUngrouped
  | .bindings _ => List.map Binding.ungrouped
  | .functionResult => Option.map FunctionResult.ungrouped
  | .function => Function.ungrouped
  | .item => Item.ungrouped
  | .declaration => Declaration.ungrouped
  | .declarations => List.map Declaration.ungrouped
  | .storage _ | .furtherNames => id

/-- The locations of the calls that are statements, in what a nonterminal stands for. -/
@[simp] def callLocations : (n : Nonterminal) → n.Result → List Location
  | .simpleStatement => SimpleStatement.callLocations
  | .plainStatement | .statement => Statement.callLocations
  | .statements | .block _ => statementsCallLocations
  | .conditional | .selection | .iteration | .repetition | .loop =>
    CompoundStatement.callLocations
  | .alternatives => fun x => alternativesCallLocations x.1 ++ optionalCallLocations x.2
  | .clauses _ => clausesCallLocations
  | .forInitializer => fun x => x.elim [] ForInitializer.callLocations
  | .forUpdate => fun x => x.elim [] SimpleStatement.callLocations
  | .loopBody => fun x => statementsCallLocations x.1 ++ optionalCallLocations x.2
  | .function => Function.callLocations
  | .item => Item.callLocations
  | .declaration => Declaration.callLocations
  | .declarations => List.flatMap Declaration.callLocations
  | _ => fun _ => []

/-- A nonterminal may be read from the cursor: what is in parentheses is not called. -/
@[simp] def Starts : Nonterminal → Cursor → Prop
  | .suffixes base, c => base.IsGrouped → c.current.kind ≠ .symbol .parenLeft
  | _, _ => True

/-- The outcome, where parentheses are kept, agrees with that where they are dropped. -/
def Agrees (opens : Location → Prop) (n : Nonterminal) (c : Cursor) (o : Outcome n.Result) : Prop :=
  n.Starts c → (n.bare.outcome {} c).AgreesWith opens n.ungrouped n.bare.callLocations o

end Nonterminal

/-! ## Rules -/

namespace Rule

open Production Nonterminal

variable {α β γ δ : Type} {opens : Location → Prop} {c : Cursor}

/-- Two rules come to outcomes that agree, the first where parentheses are kept and the second where
they are dropped, if the nonterminals they read do. -/
def Agrees (opens : Location → Prop) (bare : α → β) (calls : β → List Location)
    (kept : Production α) (dropped : Production β) (c : Cursor) : Prop :=
  kept.Holds (fun _ _ => True)
    (Known (Cursor.Clear opens) fun n c o => n.outcome .keeping c = o ∧ n.Agrees opens c o) c
    fun o => (comesTo {} dropped c).AgreesWith opens bare calls o

namespace Agrees

variable {bare : α → β} {calls : β → List Location} {bare' : γ → δ} {calls' : δ → List Location}
variable {kept : Production α} {dropped : Production β}
variable {k : α → Production γ} {k' : β → Production δ}

/-- One rule behind another. Where only the reading with parentheses dropped goes on from a value,
it passes the calls in it on. -/
theorem bindCalls (h : Agrees opens bare calls kept dropped c)
    (hk : ∀ a d, ¬CallsAt opens (calls (bare a)) →
      Agrees opens bare' calls' (k a) (k' (bare a)) d)
    (hcalls : ∀ b d, CallsAt opens (calls b) →
      (k' b).Yields (fun _ _ _ _ => True) d fun x _ => CallsAt opens (calls' x)) :
    Agrees opens bare' calls' (kept >>= k) (dropped >>= k') c := by
  have hbind : comesTo {} (dropped >>= k') c =
      (comesTo {} dropped c).bind fun b d => comesTo {} (k' b) d := follow_bind dropped k' c
  refine holds_bind.2 (h.mono fun o ho => ?_)
  rw [hbind]
  cases o with
  | accepted a d =>
    obtain ⟨heq, hnot⟩ := ho
    rw [heq]
    exact hk a d hnot
  | rejected e d =>
    exact Outcome.ifAccepted_bind.2 fun b d hb => (hcalls b d (ho b d hb)).follow

/-- One rule behind another, where the first reads no statements. -/
theorem bind (h : Agrees opens bare (fun _ => []) kept dropped c)
    (hk : ∀ a d, Agrees opens bare' calls' (k a) (k' (bare a)) d) :
    Agrees opens bare' calls' (kept >>= k) (dropped >>= k') c :=
  h.bindCalls (fun a d _ => hk a d) fun _ _ h => absurd h not_callsAt_nil

theorem ite {p : Prop} [Decidable p] {r s : Production α} {r' s' : Production β}
    (h : Agrees opens bare calls r r' c) (hs : Agrees opens bare calls s s' c) :
    Agrees opens bare calls (if p then r else s) (if p then r' else s') c := by
  split
  · exact h
  · exact hs

/-! ### Steps -/

/-- A rule that reads nothing comes to the same in both readings. -/
theorem same (r : Production α)
    (h : r.Holds (fun _ _ => False) (fun _ _ _ => True) c fun _ => True) :
    Agrees opens id (fun _ => []) r r c := by
  refine (holds_iff_follow (fun n c => n.outcome {} c) h).2 ?_
  change (comesTo {} r c).AgreesWith opens id (fun _ => []) (comesTo {} r c)
  cases comesTo {} r c with
  | accepted a d => exact ⟨rfl, not_callsAt_nil⟩
  | rejected e d => exact Outcome.ifAccepted_rejected

/-- The same value, bare on one side, without a call in parentheses. -/
theorem pureCalls {a : α} {b : β} (h : b = bare a) (hcalls : ¬CallsAt opens (calls b)) :
    Agrees opens bare calls (pure a) (pure b) c :=
  ⟨congrArg (Outcome.accepted · c) h, h ▸ hcalls⟩

/-- The same value, bare on one side. -/
theorem pure {a : α} {b : β} (h : b = bare a) :
    Agrees opens bare (fun _ => []) (pure a) (Pure.pure b) c :=
  pureCalls h not_callsAt_nil

theorem unexpected (expected : Expectation) :
    Agrees opens bare calls (unexpected expected) (Rule.unexpected expected) c :=
  Outcome.ifAccepted_rejected

/-- What is refused only where parentheses are kept has a call where they are dropped. -/
theorem refuses (expected : Expectation)
    (h : dropped.Yields (fun _ _ _ _ => True) c fun x _ => CallsAt opens (calls x)) :
    Agrees opens bare calls (Rule.unexpected expected) dropped c := h.follow

theorem fail (e e' : ParseError) : Agrees opens bare calls (.fail e) (.fail e') c :=
  Outcome.ifAccepted_rejected

theorem look {k : Token → Production α} {k' : Token → Production β}
    (h : Agrees opens bare calls (k c.current) (k' c.current) c) :
    Agrees opens bare calls (current >>= k) (current >>= k') c := h

theorem lookBehind {k : TokenKind → Production α} {k' : TokenKind → Production β}
    (h : Agrees opens bare calls (k c.following) (k' c.following) c) :
    Agrees opens bare calls (following >>= k) (following >>= k') c := h

theorem skip : Agrees opens id (fun _ => []) skip skip c := same _ (by simp)

theorem sees (mark : Symbol) : Agrees opens id (fun _ => []) (sees mark) (sees mark) c :=
  same _ (by simp)

theorem accept (mark : Symbol) : Agrees opens id (fun _ => []) (accept mark) (accept mark) c :=
  same _ (by simp)

theorem expect (mark : Symbol) (place : String) :
    Agrees opens id (fun _ => []) (expect mark place) (expect mark place) c :=
  same _ (by simp)

theorem identifier (expected : Expectation) :
    Agrees opens id (fun _ => []) (identifier expected) (identifier expected) c :=
  same _ (by simp)

/-! ### Nonterminals -/

/-- Nonterminals agree where their readings do. -/
theorem parse (n : Nonterminal) (hn : n.Starts c) :
    Agrees opens n.ungrouped n.bare.callLocations (parse n) (parse n.bare) c := by
  have hparse : comesTo {} (Production.parse n.bare) c = n.bare.outcome {} c :=
    (follow_read _ _).trans (Outcome.bind_accepted _)
  refine ⟨trivial, fun a d h => ?_, fun e d h => ?_⟩
  · rw [holds_done, hparse]
    exact h.2.2.2 hn
  · rw [hparse]
    exact h.2.2.2 hn

/-- A nonterminal in front, where something is known of the first token of what it stands for. -/
theorem parseHeaded {n : Nonterminal} (hn : n.Starts c) {k : n.Result → Production γ}
    {k' : n.bare.Result → Production δ}
    (hk : ∀ a d, n.Headed c a d → Agrees opens bare' calls' (k a) (k' (n.ungrouped a)) d)
    (hcalls : ∀ b, ¬CallsAt opens (n.bare.callLocations b)) :
    Agrees opens bare' calls' (Production.parse n >>= k) (Production.parse n.bare >>= k') c := by
  have hbind : comesTo {} (Production.parse n.bare >>= k') c =
      (n.bare.outcome {} c).bind fun b d => comesTo {} (k' b) d := follow_read _ _
  refine ⟨trivial, fun a d h => ?_, fun e d h => ?_⟩
  · obtain ⟨hc, -, houtcome, hagrees⟩ := h
    obtain ⟨heq, -⟩ := hagrees hn
    rw [hbind, heq]
    exact hk a d (headed_of_accepted hc.apart houtcome)
  · obtain ⟨-, -, -, hagrees⟩ := h
    rw [hbind]
    exact Outcome.ifAccepted_bind.2 fun b d hb => absurd (hagrees hn b d hb) (hcalls b)

/-- A type that is tried is there in both readings or in neither. -/
theorem tryType : Agrees opens (Option.map TypeSpecifier.ungrouped) (fun _ => [])
    (parse? .constructorType) (parse? .constructorType) c := by
  refine ⟨trivial, fun made d h => ?_, fun e d h => ?_⟩
  · obtain ⟨heq, -⟩ := h.2.2.2 trivial
    exact ⟨comesTo_attempt_of_accepted heq, not_callsAt_nil⟩
  · obtain ⟨e', d', heq⟩ := (h.2.2.2 trivial).of_rejected
    exact ⟨comesTo_attempt_of_rejected heq, not_callsAt_nil⟩

end Agrees

end Rule

namespace Nonterminal

/-- The rules of a nonterminal, with parentheses kept and with parentheses dropped, come to outcomes
that agree. -/
abbrev ShowsAgree (opens : Location → Prop) (n : Nonterminal) : Prop :=
  ∀ c : Cursor, c.Clear opens → n.Starts c →
    Rule.Agrees opens n.ungrouped n.bare.callLocations (Production.ofNonterminal .keeping n)
      (Production.ofNonterminal {} n.bare) c

/-- Where the rules come to outcomes that agree, all outcomes agree. -/
theorem agrees_of_shows {opens : Location → Prop} (h : ∀ n, ShowsAgree opens n) (n : Nonterminal)
    {c : Cursor} (hc : c.Clear opens) : n.Agrees opens c (n.outcome .keeping c) := by
  have shows : ∀ n c, c.Clear opens →
      (Production.ofNonterminal .keeping n).Holds (fun _ _ => True)
        (Known (·.Clear opens) fun n c o => n.outcome .keeping c = o ∧ n.Agrees opens c o) c
        (n.Agrees opens c) := by
    intro n c hc
    by_cases hn : n.Starts c
    · refine (h n c hc hn).mono fun o ho _ => ?_
      rw [outcome_eq]
      exact ho
    · exact (Rule.Holds.trivial _ c).mono fun o _ hn' => absurd hn' hn
  exact outcome_of_shows_comes (fun _ h => h.advance) (fun _ h => h.split) shows n hc

end Nonterminal

end Wgsl
