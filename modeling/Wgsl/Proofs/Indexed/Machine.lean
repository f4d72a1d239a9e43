import Mathlib.Computability.StateTransition
import Wgsl.Module
import Wgsl.Proofs.Discipline
import Wgsl.Proofs.Indexed.Mark

/-!
# Rules by index

Here the rules of the grammar are read by index, one step after the other. A configuration holds
what is left of the rule that is being read, the mark, and a stack with what is to be done behind
each nonterminal whose reading has begun; where one is tried, the stack also holds the mark to
return to. A refusal goes down the stack to the last attempt.

Two things are shown of it. Whatever configuration is reached, all its marks are valid, so no look
is out of bounds and reading never gets stuck (`Config.valid_of_reaches`, `Config.Valid.proceeds`).
And a nonterminal comes to what it does from a cursor (`Config.reaches_of_outcome`): this goes along
the depth of nonterminals and then along the rule, and uses that rules are guarded, since behind the
end of the file the two see different things.
-/

namespace Wgsl

open StateTransition

/-- What is to be done behind the nonterminals whose reading has begun. -/
inductive Stack : Nonterminal → Type
  /-- Nothing, behind all declarations. -/
  | bottom : Stack .declarations
  /-- Go on with the rule that read the nonterminal. -/
  | read {n m : Nonterminal} (next : n.Result → Production m.Result) (rest : Stack m) : Stack n
  /-- Go on with the rule that tried the nonterminal, from the mark if it is refused. -/
  | attempt {n m : Nonterminal} (next : Option n.Result → Production m.Result) (mark : Mark)
    (rest : Stack m) : Stack n

/-- The marks to return to. -/
def Stack.marks {n : Nonterminal} : Stack n → List Mark
  | .bottom => []
  | .read _ rest => rest.marks
  | .attempt _ mark rest => mark :: rest.marks

/-- Declarations while they are read by index. -/
structure Config where
  /-- The nonterminal that is being read. -/
  {reading : Nonterminal}
  /-- What is left of its rule. -/
  rule : Production reading.Result
  mark : Mark
  stack : Stack reading

namespace Stack

variable {n : Nonterminal}

/-- Go on behind a nonterminal that was accepted. -/
def accept (a : n.Result) (mark : Mark) : Stack n → Option Config
  | .bottom => none
  | .read next rest => some ⟨next a, mark, rest⟩
  | .attempt next _ rest => some ⟨next (some a), mark, rest⟩

/-- Go on behind a nonterminal that was refused. -/
def refuse (e : ParseError) (mark : Mark) : Stack n → Option Config
  | .bottom => none
  | .read _ rest => some ⟨.fail e, mark, rest⟩
  | .attempt next begin rest => some ⟨next none, begin, rest⟩

/-- What declarations have come to, if nothing is left to do behind them. -/
def result? (result : Except ParseError n.Result) : Stack n → Option (Except ParseError Module)
  | .bottom => some result
  | _ => none

end Stack

namespace Config

/-- All marks there are: where reading stands, and those to return to. -/
def marks (c : Config) : List Mark := c.mark :: c.stack.marks

/-- The beginning of declarations. -/
def start (options : ReadOptions) (mark : Mark) : Config :=
  ⟨Production.ofNonterminal options .declarations, mark, .bottom⟩

/-- What the declarations have come to, if they have been read. -/
def result? (c : Config) : Option (Except ParseError Module) :=
  match c.rule with
  | .done a => c.stack.result? (.ok a)
  | .fail e => c.stack.result? (.error e)
  | _ => none

/-- One step of reading by index; none if an index is out of bounds, or nothing is left to do. -/
def step? (options : ReadOptions) (tokens : List Token) (c : Config) : Option Config :=
  match c.rule with
  | .done a => c.stack.accept a c.mark
  | .fail e => c.stack.refuse e c.mark
  | .look k => (c.mark.peek? tokens).map fun t => ⟨k t, c.mark, c.stack⟩
  | .lookBehind k => (c.mark.peekAhead? tokens 1).map fun kind => ⟨k kind, c.mark, c.stack⟩
  | .advance k => (c.mark.advance? tokens).map fun mark => ⟨k, mark, c.stack⟩
  | .split k => (c.mark.split? tokens).map fun mark => ⟨k, mark, c.stack⟩
  | .read n k => some ⟨Production.ofNonterminal options n, c.mark, .read k c.stack⟩
  | .attempt n k => some ⟨Production.ofNonterminal options n, c.mark, .attempt k c.mark c.stack⟩

/-- All marks are valid. -/
def Valid (tokens : List Token) (c : Config) : Prop := ∀ mark ∈ c.marks, mark.Valid tokens

variable {options : ReadOptions} {tokens : List Token} {c d : Config}

/-! ## Reading stays in bounds -/

/-- What has been read is read no further. -/
theorem step?_of_result? {result : Except ParseError Module}
    (h : c.result? = some result) : c.step? options tokens = none := by
  obtain ⟨rule, mark, stack⟩ := c
  cases rule with
  | done a | fail e =>
    cases stack with
    | bottom => rfl
    | read next rest | attempt next mark' rest => cases h
  | _ => cases h

/-- Reading begins with one mark. -/
theorem valid_start {mark : Mark} (h : mark.Valid tokens) : (start options mark).Valid tokens := by
  intro mark' hmark
  obtain rfl := List.mem_singleton.1 hmark
  exact h

variable (hend : endIndex tokens < tokens.length)
include hend

/-- A step keeps all marks valid: it moves one, copies one or drops some. -/
theorem Valid.step (h : c.Valid tokens) (hstep : c.step? options tokens = some d) :
    d.Valid tokens := by
  obtain ⟨rule, mark, stack⟩ := c
  obtain ⟨hmark, hstack⟩ := List.forall_mem_cons.1 h
  cases rule with
  | done a =>
    cases stack with
    | bottom => cases hstep
    | read next rest =>
      cases hstep
      exact h
    | attempt next mark' rest =>
      cases hstep
      exact List.forall_mem_cons.2 ⟨hmark, (List.forall_mem_cons.1 hstack).2⟩
  | fail e =>
    cases stack with
    | bottom => cases hstep
    | read next rest =>
      cases hstep
      exact h
    | attempt next mark' rest =>
      cases hstep
      exact hstack
  | look k =>
    obtain ⟨t, -, rfl⟩ := Option.map_eq_some_iff.1 hstep
    exact h
  | lookBehind k =>
    obtain ⟨kind, -, rfl⟩ := Option.map_eq_some_iff.1 hstep
    exact h
  | advance k =>
    obtain ⟨mark', hadvance, rfl⟩ := Option.map_eq_some_iff.1 hstep
    obtain ⟨mark'', hmark'', hvalid⟩ := (hmark.moves hend).1
    obtain rfl := Option.some.inj (hadvance.symm.trans hmark'')
    exact List.forall_mem_cons.2 ⟨hvalid, hstack⟩
  | split k =>
    obtain ⟨mark', hsplit, rfl⟩ := Option.map_eq_some_iff.1 hstep
    obtain ⟨mark'', hmark'', hvalid⟩ := (hmark.moves hend).2
    obtain rfl := Option.some.inj (hsplit.symm.trans hmark'')
    exact List.forall_mem_cons.2 ⟨hvalid, hstack⟩
  | read n k =>
    cases hstep
    exact h
  | attempt n k =>
    cases hstep
    exact List.forall_mem_cons.2 ⟨hmark, h⟩

/-- Whatever is reached, all marks stay valid. -/
theorem valid_of_reaches (h : c.Valid tokens) (hreaches : Reaches (step? options tokens) c d) :
    d.Valid tokens := by
  induction hreaches with
  | refl => exact h
  | tail _ hstep ih => exact ih.step hend hstep

/-- Where all marks are valid, reading goes on until it is done. -/
theorem Valid.proceeds (h : c.Valid tokens) :
    c.result?.isSome ∨ (c.step? options tokens).isSome := by
  obtain ⟨rule, mark, stack⟩ := c
  have hmark : mark.Valid tokens := h mark List.mem_cons_self
  obtain ⟨hpeek, hahead⟩ := hmark.looks hend
  cases rule with
  | done a | fail e =>
    cases stack with
    | bottom => exact .inl rfl
    | read next rest | attempt next mark' rest => exact .inr rfl
  | look k | lookBehind k => exact .inr (by simp [step?, hpeek, hahead])
  | advance k =>
    obtain ⟨mark', hadvance, -⟩ := (hmark.moves hend).1
    exact .inr (by simp [step?, hadvance])
  | split k =>
    obtain ⟨mark', hsplit, -⟩ := (hmark.moves hend).2
    exact .inr (by simp [step?, hsplit])
  | read n k | attempt n k => exact .inr rfl

end Config

/-! ## Reading by index comes to what reading from a cursor does -/

/-- The configuration behind a nonterminal that has come to an outcome. -/
def Outcome.config {n : Nonterminal} (o : Outcome n.Result) (mark : Mark) (stack : Stack n) :
    Config :=
  match o with
  | .accepted a _ => ⟨.done a, mark, stack⟩
  | .rejected e _ => ⟨.fail e, mark, stack⟩

section Reaches

variable {options : ReadOptions} {tokens rest : List Token} {depth : Nat} {c : Cursor} {mark : Mark}

/-- From the mark, a rule read by index comes to the outcome, whatever is to be done behind it, and
the mark to where the outcome leaves the cursor. -/
def Config.ComesTo (options : ReadOptions) (tokens rest : List Token) {n : Nonterminal}
    (r : Production n.Result) (mark : Mark) (o : Outcome n.Result) : Prop :=
  ∀ stack : Stack n, ∃ mark', mark'.At tokens o.cursor rest ∧
    Reaches (step? options tokens) ⟨r, mark, stack⟩ (o.config mark' stack)

namespace Config.ComesTo

variable {n m : Nonterminal} {r r' : Production n.Result} {o : Outcome n.Result} {mark' : Mark}
variable {a : m.Result} {e : ParseError} {d : Cursor}

/-- One step of the rule, and what is left of it. -/
theorem step (h : ComesTo options tokens rest r' mark' o)
    (hstep : ∀ stack, step? options tokens ⟨r, mark, stack⟩ = some ⟨r', mark', stack⟩) :
    ComesTo options tokens rest r mark o := by
  intro stack
  obtain ⟨behind, hat, hreaches⟩ := h stack
  exact ⟨behind, hat, .head (hstep stack) hreaches⟩

/-- The rule goes on behind what it reads. -/
theorem read_accepted {k : m.Result → Production n.Result}
    (h : ComesTo options tokens rest (Production.ofNonterminal options m) mark (.accepted a d))
    (hk : ∀ mark' : Mark, mark'.At tokens d rest → ComesTo options tokens rest (k a) mark' o) :
    ComesTo options tokens rest (.read m k) mark o := by
  intro stack
  obtain ⟨between, hat, hreads⟩ := h (.read k stack)
  obtain ⟨behind, hat', hreaches⟩ := hk between hat stack
  have hbegins : Reaches (step? options tokens) ⟨.read m k, mark, stack⟩
      ⟨.done a, between, .read k stack⟩ := .head rfl hreads
  exact ⟨behind, hat', hbegins.trans (.head rfl hreaches)⟩

/-- A refusal of what is read goes on to the rule. -/
theorem read_rejected {k : m.Result → Production n.Result}
    (h : ComesTo options tokens rest (Production.ofNonterminal options m) mark (.rejected e d)) :
    ComesTo options tokens rest (.read m k) mark (.rejected e d) := by
  intro stack
  obtain ⟨between, hat, hreads⟩ := h (.read k stack)
  have hbegins : Reaches (step? options tokens) ⟨.read m k, mark, stack⟩
      ⟨.fail e, between, .read k stack⟩ := .head rfl hreads
  exact ⟨between, hat, hbegins.tail rfl⟩

/-- The rule goes on behind what it tries, if that is accepted. -/
theorem attempt_accepted {k : Option m.Result → Production n.Result}
    (h : ComesTo options tokens rest (Production.ofNonterminal options m) mark (.accepted a d))
    (hk : ∀ mark' : Mark, mark'.At tokens d rest →
      ComesTo options tokens rest (k (some a)) mark' o) :
    ComesTo options tokens rest (.attempt m k) mark o := by
  intro stack
  obtain ⟨between, hat, hreads⟩ := h (.attempt k mark stack)
  obtain ⟨behind, hat', hreaches⟩ := hk between hat stack
  have hbegins : Reaches (step? options tokens) ⟨.attempt m k, mark, stack⟩
      ⟨.done a, between, .attempt k mark stack⟩ := .head rfl hreads
  exact ⟨behind, hat', hbegins.trans (.head rfl hreaches)⟩

/-- Where what is tried is refused, the rule goes on from the mark that was kept. -/
theorem attempt_rejected {k : Option m.Result → Production n.Result}
    (h : ComesTo options tokens rest (Production.ofNonterminal options m) mark (.rejected e d))
    (hk : ComesTo options tokens rest (k none) mark o) :
    ComesTo options tokens rest (.attempt m k) mark o := by
  intro stack
  obtain ⟨between, hat, hreads⟩ := h (.attempt k mark stack)
  obtain ⟨behind, hat', hreaches⟩ := hk stack
  have hbegins : Reaches (step? options tokens) ⟨.attempt m k, mark, stack⟩
      ⟨.fail e, between, .attempt k mark stack⟩ := .head rfl hreads
  exact ⟨behind, hat', hbegins.trans (.head rfl hreaches)⟩

end Config.ComesTo

variable (hend : endIndex tokens < tokens.length)
include hend

/-- A rule read by index comes to what it does from a cursor, if nonterminals do. -/
theorem Rule.Guarded.comesTo {n reading : Nonterminal}
    (hparse : ∀ m c mark o, mark.At tokens c rest →
      (moduleGrammar options).parse depth m c = some o →
      Config.ComesTo options tokens rest (Production.ofNonterminal options m) mark o)
    {r : Production reading.Result} {s : Sight} {Q : reading.Result → Sight → Prop}
    {o : Outcome reading.Result} (hr : r.Guarded n s Q) (hs : s.Matches c)
    (hmark : mark.At tokens c rest) (ho : r.run ((moduleGrammar options).parse depth) c = some o) :
    Config.ComesTo options tokens rest r mark o := by
  induction r generalizing s c mark with
  | done a | fail e =>
    cases ho
    exact fun _ => ⟨mark, hmark, .refl⟩
  | look k ih =>
    refine (ih _ (hr _ hs.admits) rfl hmark ho).step fun _ => ?_
    simp [Config.step?, (hmark.peek?_eq hend).1]
  | lookBehind k ih =>
    obtain ⟨hname, hk⟩ := hr
    refine (ih _ (hk _) hs hmark ho).step fun _ => ?_
    cases s with
    | facing t =>
      obtain rfl : c.current = t := hs
      obtain ⟨name, hname⟩ := hname
      simp [Config.step?, hmark.peekAhead?_eq hend (by simp [hname])]
    | behind closed | after t => exact hname.elim
  | advance k ih =>
    obtain ⟨t, -, -, hk⟩ := hr
    obtain ⟨next, hnext, hat⟩ := hmark.advance hend
    exact (ih hk trivial hat ho).step fun _ => by simp [Config.step?, hnext]
  | split k ih =>
    obtain ⟨t, -, -, hk⟩ := hr
    obtain ⟨next, hnext, hat⟩ := hmark.split hend
    exact (ih hk trivial hat ho).step fun _ => by simp [Config.step?, hnext]
  | read m k ih =>
    obtain ⟨-, hk⟩ := hr
    rw [run] at ho
    cases hp : (moduleGrammar options).parse depth m c with
    | none => simp [hp] at ho
    | some o' =>
      have hreads := hparse m c mark o' hmark hp
      rw [hp] at ho
      cases o' with
      | accepted a d => exact hreads.read_accepted fun _ hat => ih a (hk a) trivial hat ho
      | rejected e d =>
        cases ho
        exact hreads.read_rejected
  | attempt m k ih =>
    obtain rfl : m = .constructorType := hr.2.1
    rw [run] at ho
    cases hp : (moduleGrammar options).parse depth .constructorType c with
    | none => simp [hp] at ho
    | some o' =>
      have hreads := hparse .constructorType c mark o' hmark hp
      rw [hp] at ho
      cases o' with
      | accepted a d =>
        exact hreads.attempt_accepted fun _ hat =>
          ih _ (hr.of_accepted hs hp).1 trivial hat ho
      | rejected e d => exact hreads.attempt_rejected (ih _ hr.2.2.2 hs hmark ho)

/-- A nonterminal read by index comes to what it does from a cursor. -/
theorem Config.reaches_of_outcome (options : ReadOptions) {n : Nonterminal}
    (hmark : mark.At tokens c rest) (stack : Stack n) :
    ∃ mark', mark'.At tokens (n.outcome options c).cursor rest ∧
      Reaches (step? options tokens) ⟨Production.ofNonterminal options n, mark, stack⟩
        ((n.outcome options c).config mark' stack) := by
  have hparse : ∀ depth n c mark o, mark.At tokens c rest →
      (moduleGrammar options).parse depth n c = some o →
      ComesTo options tokens rest (Production.ofNonterminal options n) mark o := by
    intro depth
    induction depth with
    | zero => exact fun _ _ _ _ _ h => by simp [Grammar.parse] at h
    | succ depth ih =>
      exact fun n c mark o hmark h =>
        (Production.disciplined options n).comesTo hend ih trivial hmark h
  exact hparse _ n c mark _ hmark (Nonterminal.parse_eq_outcome options n c) stack

end Reaches

end Wgsl
