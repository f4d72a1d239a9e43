import Wgsl.Grammar.Progress

/-!
# What the module grammar comes to

Since the weight of nonterminals falls, a depth above it is enough, and every nonterminal comes to
an outcome from every cursor: `Nonterminal.outcome`. The depth is gone from what there is to know
about it. An outcome is what the nonterminal's rule comes to, followed with the outcomes of the
nonterminals it reads (`outcome_eq`), and to show something of all outcomes it is enough to show it
of each rule (`outcome_holds`).
-/

namespace Wgsl

/-- A depth above its weight is enough for a nonterminal, and what it uses up is within bounds. -/
theorem moduleGrammar_parse (options : ReadOptions) (n : Nonterminal) (c : Cursor) :
    ∃ o, (moduleGrammar options).parse (n.weight c + 1) n c = some o ∧
      o.Within n.takesToken c.measure :=
  Grammar.parse_of_decreasing (Production.progresses options) (Nat.lt_succ_self _)

namespace Nonterminal

variable (options : ReadOptions)

/-- What a nonterminal comes to from a cursor. -/
def outcome (n : Nonterminal) (c : Cursor) : Outcome n.Result :=
  ((moduleGrammar options).parse (n.weight c + 1) n c).get
    (by obtain ⟨o, h, _⟩ := moduleGrammar_parse options n c; simp [h])

/-- The outcome is that of the grammar at a depth that is enough. -/
theorem parse_eq_outcome (n : Nonterminal) (c : Cursor) :
    (moduleGrammar options).parse (n.weight c + 1) n c = some (n.outcome options c) := by
  simp [outcome]

variable {options}

/-- Whatever depth gives an outcome gives the outcome. -/
theorem outcome_of_parse {depth : Nat} {n : Nonterminal} {c : Cursor} {o : Outcome n.Result}
    (h : (moduleGrammar options).parse depth n c = some o) : n.outcome options c = o := by
  have deeper := Grammar.parse_mono (Nat.le_max_left depth (n.weight c + 1)) h
  rw [Grammar.parse_mono (Nat.le_max_right depth _) (parse_eq_outcome options n c)] at deeper
  exact Option.some.inj deeper

/-- A nonterminal comes to what its rule does. -/
theorem outcome_eq (n : Nonterminal) (c : Cursor) :
    n.outcome options c =
      (Production.ofNonterminal options n).follow (fun n c => n.outcome options c) c :=
  (Rule.follow_of_run (p := (moduleGrammar options).parse (n.weight c))
    (parse_eq_outcome options n c) fun _ _ _ => outcome_of_parse).symm

/-- What every rule shows of its outcome, relying on the same of what it reads, holds of every
outcome. -/
theorem outcome_holds {pre : Nonterminal → Cursor → Prop}
    {post : (n : Nonterminal) → Cursor → Outcome n.Result → Prop}
    (h : ∀ n c, pre n c → (Production.ofNonterminal options n).Holds pre post c (post n c))
    {n : Nonterminal} {c : Cursor} (hpre : pre n c) : post n c (n.outcome options c) :=
  Grammar.parse_holds (g := moduleGrammar options) h hpre (parse_eq_outcome options n c)

/-- Reading uses up no more than there is, and something where the nonterminal is not empty. -/
theorem outcome_within (n : Nonterminal) (c : Cursor) :
    (n.outcome options c).Within n.takesToken c.measure := by
  obtain ⟨o, h, within⟩ := moduleGrammar_parse options n c
  exact outcome_of_parse h ▸ within

end Nonterminal

end Wgsl
