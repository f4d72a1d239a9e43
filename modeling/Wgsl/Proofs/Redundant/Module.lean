import Mathlib.Logic.Function.Iterate
import Wgsl.Proofs.Redundant.Agreement

/-!
# Redundant parentheses

Where parentheses are not kept, a module is the same if an expression in it that is read as a value
is put in parentheses (`Module.ofTokens_parenthesized`), locations included: an expression in
parentheses is the expression, and no other token moves. Which expressions are values is said by
`Nonterminal.takesValue`: all that a rule reads as expressions, but for what looks like a number
among the parameters of a type that is no array.
-/

namespace Wgsl

namespace Cursor

/-- Advancing some times drops as many tokens. -/
theorem advance_iterate (ts : List Token) (l : Location) (n : Nat) :
    advance^[n] (before ts l) = before (ts.drop n) l := by
  induction n generalizing ts with
  | zero => rfl
  | succ n ih =>
    rw [Function.iterate_succ_apply]
    cases ts with
    | nil =>
      rw [advance_of_nil rfl, ih, List.drop_nil, List.drop_nil]
    | cons t ts => rw [advance_before, ih, List.drop_succ_cons]

/-- Advancing over the first tokens leaves the others. -/
theorem advance_iterate_append (us ts : List Token) (l : Location) :
    advance^[us.length] (before (us ++ ts) l) = before ts l := by
  rw [advance_iterate, List.drop_left]

/-- Before the end of the file, parentheses among the tokens are the only difference they make. -/
theorem exists_ofTokens_parenthesized {us within ts : List Token} {opening closing : Token}
    (hopening : opening.kind = .symbol .parenLeft) (hclosing : closing.kind = .symbol .parenRight)
    (hstop : (advance^[us.length + within.length] (ofTokens (us ++ within ++ ts))).upcoming ≠ []) :
    ∃ rest l, rest ≠ [] ∧ ofTokens (us ++ within ++ ts) = before (us ++ (within ++ rest)) l ∧
      ofTokens (us ++ opening :: within ++ closing :: ts) =
        before (us ++ opening :: (within ++ closing :: rest)) l := by
  rw [ofTokens_eq_before_takeWhile, advance_iterate] at hstop
  have hplain : ∀ t ∈ us ++ within, t.kind ≠ .endOfFile := by
    have hlength : us.length + within.length < _ := List.length_lt_of_drop_ne_nil hstop
    have hfront := List.prefix_of_prefix_length_le (List.prefix_append (us ++ within) ts)
      (List.takeWhile_prefix (·.kind ≠ .endOfFile)) (by simpa using hlength.le)
    exact fun t ht => by simpa using List.mem_takeWhile_imp (hfront.subset ht)
  have hparens : ∀ t ∈ us ++ opening :: within ++ [closing], t.kind ≠ .endOfFile := by
    simp only [List.mem_append, List.mem_cons, List.not_mem_nil, or_false]
    rintro t ((ht | rfl | ht) | rfl)
    · exact hplain t (List.mem_append_left _ ht)
    · simp [hopening]
    · exact hplain t (List.mem_append_right _ ht)
    · simp [hclosing]
  have hrest : ts.takeWhile (·.kind ≠ .endOfFile) ≠ [] := by
    rw [List.takeWhile_append_of_pos (by simpa using hplain), List.drop_left' (by simp)] at hstop
    exact hstop
  have hts : ts ≠ [] := by
    rintro rfl
    exact hrest rfl
  have henclosed : us ++ opening :: within ++ closing :: ts =
      us ++ opening :: within ++ [closing] ++ ts := by simp
  refine ⟨_, _, hrest, by rw [ofTokens_append_eq_before hplain, List.append_assoc], ?_⟩
  rw [henclosed, ofTokens_append_eq_before hparens, finishOf_append_congr hplain hparens hts]
  simp

end Cursor

/-- Reading the module that tokens spell reads a value from one of them up to another. -/
def Module.ReadsValue (tokens : List Token) (first stop : Nat) (options : ReadOptions := {}) :
    Prop :=
  ∃ inAngles, Nonterminal.declarations.ReadsValue options inAngles
    (Cursor.advance^[first] (.ofTokens tokens)) (Cursor.advance^[stop] (.ofTokens tokens))
    (.ofTokens tokens)

variable {options : ReadOptions} {inAngles : Bool} {l : Location} {us within ts : List Token}

/-- Behind a value in a module, tokens are left. -/
theorem Nonterminal.ReadsValue.stop_ne_nil {start stop : Cursor} {m : Module} {c d : Cursor}
    (h : declarations.ReadsValue options inAngles start stop c) (hc : c.Lacks .endOfFile)
    (ho : declarations.outcome options c = .accepted m d) : stop.upcoming ≠ [] := by
  obtain ⟨e, he⟩ := h.exists_accepted
  have hstart : start.upcoming ≠ [] := by
    refine Cursor.upcoming_ne_nil fun hend => ?_
    have := beginsOperand options (.expression inAngles) start e stop he
    simp [hend, TokenKind.beginsOperand] at this
  have hopen : start.Open :=
    ((endsClosed_of_declarations hc ho).of_suffix h.reaches.suffix).isOpen hstart
  have hparse := parse_eq_outcome options (.expression inAngles) start
  rw [he] at hparse
  exact (parse_append_of_open [] .start rfl hopen hparse).2.ne_nil

/-- A value in declarations may stand in parentheses. -/
theorem Nonterminal.ReadsValue.declarations_parenthesized {rest : List Token}
    {opening closing : Token} {m : Module} {d : Cursor} (hkeep : options.keepParentheses = false)
    (hopening : opening.kind = .symbol .parenLeft) (hclosing : closing.kind = .symbol .parenRight)
    (hread : declarations.ReadsValue options inAngles (.before (within ++ rest) l)
      (.before rest l) (.before (us ++ (within ++ rest)) l)) (hrest : rest ≠ [])
    (ho : declarations.outcome options (.before (us ++ (within ++ rest)) l) = .accepted m d) :
    declarations.outcome options (.before (us ++ opening :: (within ++ closing :: rest)) l) =
      .accepted m d := by
  obtain ⟨e, he⟩ := hread.exists_accepted
  let E : Enclosure options l := ⟨⟨within, rest, opening, closing, inAngles, e, hopening, hclosing,
    hrest, he⟩, hkeep⟩
  have hus : us ≠ [] := by
    rintro rfl
    cases ReadsValue.beginsValue (E := E.toBracketing) hread rfl
  exact outcome_parenthesized (E := E) hread hus ho

/-- Parentheses around a value change nothing in a module, wherever they are said to stand. -/
theorem Module.ofTokens_parenthesized {opening closing : Token} {m : Module}
    (hopening : opening.kind = .symbol .parenLeft) (hclosing : closing.kind = .symbol .parenRight)
    (hm : Module.ofTokens (us ++ within ++ ts) = .ok m)
    (hvalue : Module.ReadsValue (us ++ within ++ ts) us.length (us.length + within.length)) :
    Module.ofTokens (us ++ opening :: within ++ closing :: ts) = .ok m := by
  obtain ⟨inAngles, hvalue⟩ := hvalue
  obtain ⟨d, ho⟩ := ofTokens_eq_ok_iff.1 hm
  have hstop := hvalue.stop_ne_nil (Cursor.lacks_endOfFile_ofTokens _) ho
  obtain ⟨rest, l, hrest, hplain, henclosed⟩ :=
    Cursor.exists_ofTokens_parenthesized hopening hclosing hstop
  rw [hplain] at hvalue ho
  rw [Cursor.advance_iterate_append, ← List.length_append, ← List.append_assoc,
    Cursor.advance_iterate_append, List.append_assoc] at hvalue
  refine ofTokens_eq_ok_iff.2 ⟨d, ?_⟩
  rw [henclosed]
  exact hvalue.declarations_parenthesized rfl hopening hclosing hrest ho

/-- In `const x = array<i32, n>();` the count may stand in parentheses. It is read in what is tried
as a type, and between angles. -/
theorem Module.ofTokens_parenthesized_count :
    ∃ m, Module.ofTokens (([.keyword .const, .identifier "x", .symbol .equal, .identifier "array",
          .symbol .lessThan, .identifier "i32", .symbol .comma].map fun k => ⟨k, .start⟩) ++
        [⟨.identifier "n", .start⟩] ++ [.symbol .greaterThan, .symbol .parenLeft,
          .symbol .parenRight, .symbol .semicolon].map fun k => ⟨k, .start⟩) = .ok m ∧
      Module.ofTokens (([.keyword .const, .identifier "x", .symbol .equal, .identifier "array",
          .symbol .lessThan, .identifier "i32", .symbol .comma].map fun k => ⟨k, .start⟩) ++
        ⟨.symbol .parenLeft, ⟨7, 8⟩⟩ :: [⟨.identifier "n", .start⟩] ++
        ⟨.symbol .parenRight, ⟨9, 6⟩⟩ :: [.symbol .greaterThan, .symbol .parenLeft,
          .symbol .parenRight, .symbol .semicolon].map fun k => ⟨k, .start⟩) = .ok m := by
  have hvalue : Module.ReadsValue (([.keyword .const, .identifier "x", .symbol .equal,
        .identifier "array", .symbol .lessThan, .identifier "i32", .symbol .comma].map
          fun k => ⟨k, .start⟩) ++ [⟨.identifier "n", .start⟩] ++ [.symbol .greaterThan,
        .symbol .parenLeft, .symbol .parenRight, .symbol .semicolon].map fun k => ⟨k, .start⟩)
      7 8 := by
    refine ⟨true, .read (m := .declaration) (.look .here) ?_⟩
    refine .read (m := .item) (.read (a := []) rfl .here) ?_
    refine .read (m := .variable .const .start) (.look (.advance .here)) ?_
    refine .read (m := .initializer .const) (.read rfl (.look (.advance (.read rfl .here)))) ?_
    refine .read (m := .expression false) (.look (.advance .here)) ?_
    refine .read (m := .unary) .here (.read (m := .suffixed) (.look .here) ?_)
    refine .read (m := .primary) .here ?_
    refine .take (m := .constructorType) (.look (.lookBehind .here)) rfl ?_
    refine .read (m := .type) .here ?_
    refine .read (m := .typeParameters "array")
      (.read rfl (.look (.look (.advance (.look (.advance .here)))))) ?_
    exact .value rfl (.read rfl (.look (.advance (.look (.look .here))))) rfl
  obtain ⟨m, hm⟩ := @exists_eq_ok (Module.ofTokens (([.keyword .const, .identifier "x",
    .symbol .equal, .identifier "array", .symbol .lessThan, .identifier "i32", .symbol .comma].map
      fun k => ⟨k, .start⟩) ++ [⟨.identifier "n", .start⟩] ++ [.symbol .greaterThan,
    .symbol .parenLeft, .symbol .parenRight, .symbol .semicolon].map fun k => ⟨k, .start⟩))
    (by decide +kernel)
  exact ⟨m, hm, ofTokens_parenthesized rfl rfl hm hvalue⟩

end Wgsl
