import Wgsl.Proofs.Redundant.Module
import Wgsl.Proofs.Strays.Exchange

/-!
# Stray semicolons in a module

Any number of `;` among the declarations of a module, and among the statements in braces wherever
they stand in it, leaves the module as it is, locations included; but not between the continuing
block of a `loop` and the `}` of the `loop`, where one is refused (`Module.ofTokens_strew_iff`).

All of them are put in at once, and taken account of one place after the other from the end of the
module to its beginning. So what stands before a place is always as in the module without them, and
what stands behind it begins with the same token.
-/

namespace Wgsl

/-- Further tokens put before each token, and behind the last one. Those before a token are given by
its position. -/
def strew (strays : Nat → List Token) : List Token → List Token
  | [] => strays 0
  | t :: ts => strays 0 ++ t :: strew (fun i => strays (i + 1)) ts

/-- Strays of a kind are taken with the tokens of the kind. -/
theorem takeWhile_strew {p : Token → Bool} {strays : Nat → List Token}
    (hstrays : ∀ i, ∀ t ∈ strays i, p t) (ts : List Token) :
    (strew strays ts).takeWhile p = strew strays (ts.takeWhile p) := by
  induction ts generalizing strays with
  | nil => exact List.takeWhile_eq_self_iff.2 (hstrays 0)
  | cons t ts ih =>
    rw [strew, List.takeWhile_append_of_pos (hstrays 0), List.takeWhile_cons, List.takeWhile_cons]
    split
    · rw [ih fun i => hstrays (i + 1), strew]
    · rw [strew, List.append_nil]

/-- The token at the position stands at the beginning of a module, behind one of its declarations,
or behind a `;` at such a place; or in the braces of a body that is read in it, behind the `{`,
behind a statement, or behind a `;` at such a place. -/
def Module.IsBoundary (tokens : List Token) (i : Nat) (options : ReadOptions := {}) : Prop :=
  Boundary options (.ofTokens tokens) (Cursor.advance^[i] (.ofTokens tokens))

/-- The token at the position is the `}` of a `loop`, directly behind a continuing block. -/
def Module.IsBehindContinuing (tokens : List Token) (i : Nat) (options : ReadOptions := {}) :
    Prop :=
  BehindContinuing options (.ofTokens tokens) (Cursor.advance^[i] (.ofTokens tokens))

variable {options : ReadOptions} {us ts tokens : List Token} {l l' : Location} {m : Module}
variable {strays : Nat → List Token}

namespace Nonterminal

/-- The declarations before the end of the file are these, with any number of `;` behind them, and
wherever the file ends. -/
theorem declarations_append_semicolons {ss : List Token} {d : Cursor}
    (hend : ∀ t ∈ us, t.kind ≠ .endOfFile) (hss : ∀ t ∈ ss, t.kind = .symbol .semicolon)
    (ho : declarations.outcome options (.before us l) = .accepted m d) :
    ∃ d, declarations.outcome options (.before (us ++ ss) l') = .accepted m d := by
  have hrest : declarations.outcome options (.before ss l') = .accepted [] (.before [] l') := by
    rw [← List.append_nil ss, (lists_declarations options).outcome_semicolons hss,
      declarations_of_endOfFile rfl]
  have happend := declarations_append (c := .before us l) ss l' hend ho
  rw [Cursor.before_append] at happend
  refine ⟨.before [] l', happend.trans ?_⟩
  rw [show declarations.outcome options ⟨ss, 0, l', Nat.zero_le _⟩ = _ from hrest,
    Outcome.accepted_bind, List.append_nil]

end Nonterminal

open Nonterminal

/-- With `;` put in at places of the tokens that are left to read, the module is the same, if none
is put behind a continuing block. -/
theorem declarations_strew_iff {d : Cursor} (hend : ∀ t ∈ us ++ ts, t.kind ≠ .endOfFile)
    (ho : declarations.outcome options (.before (us ++ ts) l) = .accepted m d)
    (hstrays : ∀ i, ∀ t ∈ strays i, t.kind = .symbol .semicolon)
    (hplaces : ∀ i, strays i ≠ [] →
      Boundary options (.before (us ++ ts) l) (.before (ts.drop i) l) ∨
        BehindContinuing options (.before (us ++ ts) l) (.before (ts.drop i) l)) :
    (∃ d, declarations.outcome options (.before (us ++ strew strays ts) l) = .accepted m d) ↔
      ∀ i, strays i ≠ [] →
        ¬BehindContinuing options (.before (us ++ ts) l) (.before (ts.drop i) l) := by
  induction ts generalizing us strays with
  | nil =>
    rw [List.append_nil] at hend ho
    refine iff_of_true (declarations_append_semicolons hend (hstrays 0) ho) ?_
    rintro i - ⟨-, -, -, -, -, hclose⟩
    simp [Cursor.before, Cursor.current] at hclose
  | cons t ts ih =>
    have hrest := @ih (us ++ [t]) (fun i => strays (i + 1)) (by simpa using hend)
      (by simpa using ho) (fun i => hstrays (i + 1)) fun i hi => by simpa using hplaces (i + 1) hi
    simp only [List.append_assoc, List.singleton_append] at hrest
    rw [← Nat.and_forall_add_one, strew]
    by_cases hnone : strays 0 = []
    · rw [hnone, List.nil_append, hrest]
      simp
    by_cases hbehind : BehindContinuing options (.before (us ++ t :: ts) l) (.before (t :: ts) l)
    · refine iff_of_false ?_ fun h => h.1 hnone hbehind
      obtain ⟨s, ss, hss⟩ := List.exists_cons_of_ne_nil hnone
      have hs : s.kind = .symbol .semicolon := hstrays 0 s (hss ▸ List.mem_cons_self)
      rw [hss, List.cons_append, hbehind.outcome_eq_rejected ⟨List.cons_ne_nil _ _, .inr ?_⟩ ?_]
      · rintro ⟨d, hd⟩
        cases hd
      · simp [hs]
      · simp [hs]
    · have hboundary := (hplaces 0 hnone).resolve_right hbehind
      have hsame : declarations.outcome options
          (.before (us ++ (strays 0 ++ t :: strew (fun i => strays (i + 1)) ts)) l) =
          declarations.outcome options
            (.before (us ++ t :: strew (fun i => strays (i + 1)) ts) l) :=
        hboundary.outcome_semicolons (List.cons_ne_nil t ts) rfl (hstrays 0)
      rw [hsame, hrest]
      simpa using fun _ _ => hbehind

namespace Module

/-- Between the continuing block of a `loop` and its `}` is no place for another statement. -/
theorem IsBoundary.not_isBehindContinuing {i : Nat} (hm : Module.ofTokens tokens options = .ok m)
    (h : IsBoundary tokens i options) : ¬IsBehindContinuing tokens i options := by
  intro hbehind
  obtain ⟨d, ho⟩ := ofTokens_eq_ok_iff.1 hm
  rw [IsBehindContinuing, Cursor.ofTokens_eq_before_takeWhile, Cursor.advance_iterate] at hbehind
  rw [IsBoundary, Cursor.ofTokens_eq_before_takeWhile, Cursor.advance_iterate] at h
  rw [Cursor.ofTokens_eq_before_takeWhile] at ho
  generalize hts : (tokens.takeWhile _).drop i = ts at h hbehind
  rw [← List.take_append_drop i (tokens.takeWhile _), hts] at h ho hbehind
  exact h.not_behindContinuing ho hbehind

/-- With `;` put in at places among declarations, at places among the statements in braces, and
behind continuing blocks, a module is the same if and only if none is put behind a continuing
block. -/
theorem ofTokens_strew_iff (hm : Module.ofTokens tokens options = .ok m)
    (hstrays : ∀ i, ∀ t ∈ strays i, t.kind = .symbol .semicolon)
    (hplaces : ∀ i, strays i ≠ [] →
      IsBoundary tokens i options ∨ IsBehindContinuing tokens i options) :
    Module.ofTokens (strew strays tokens) options = .ok m ↔
      ∀ i, strays i ≠ [] → ¬IsBehindContinuing tokens i options := by
  obtain ⟨d, ho⟩ := ofTokens_eq_ok_iff.1 hm
  have hplain : ∀ i, ∀ t ∈ strays i, decide (t.kind ≠ .endOfFile) := fun i t ht => by
    simp [hstrays i t ht]
  simp only [IsBoundary, IsBehindContinuing, Cursor.ofTokens_eq_before_takeWhile,
    Cursor.advance_iterate] at ho hplaces ⊢
  have hstrewn := @declarations_strew_iff options [] _ _ m strays d
    (fun t ht => by simpa using List.mem_takeWhile_imp ht) ho hstrays hplaces
  have hend : ∀ t ∈ strew strays (tokens.takeWhile (·.kind ≠ .endOfFile)), t.kind ≠ .endOfFile := by
    rw [← takeWhile_strew hplain]
    exact fun t ht => by simpa using List.mem_takeWhile_imp ht
  rw [List.nil_append, List.nil_append] at hstrewn
  rw [ofTokens_eq_ok_iff, Cursor.ofTokens_eq_before_takeWhile, takeWhile_strew hplain, ← hstrewn]
  constructor
  all_goals
    rintro ⟨d, hd⟩
    simpa using declarations_append_semicolons hend (List.forall_mem_nil _) hd

/-- The tokens of `fn f() { loop { continuing { } } }`. -/
def emptyLoop : List Token :=
  [.keyword .fn, .identifier "f", .symbol .parenLeft, .symbol .parenRight, .symbol .braceLeft,
    .keyword .loop, .symbol .braceLeft, .keyword .continuing, .symbol .braceLeft,
    .symbol .braceRight, .symbol .braceRight, .symbol .braceRight].map fun k => ⟨k, .start⟩

private theorem readsAt_emptyLoop :
    Nonterminal.loop.ReadsAt {} (Cursor.advance^[6] (.ofTokens emptyLoop)) .declarations
      (.ofTokens emptyLoop) := by
  refine .read (m := .declaration) (.look .here) ?_
  refine .read (m := .item) (.read (a := []) rfl .here) ?_
  refine .read (m := .function) (.look (.advance .here)) ?_
  refine .read (m := .block "before function body") (.look (.look (.advance (.look (.advance
    (.read (a := []) rfl (.look (.advance (.read (a := none) rfl .here))))))))) ?_
  refine .read (m := .statements) (.look (.advance .here)) ?_
  refine .read (m := .statement) (.look .here) ?_
  exact .read (m := .loop) (.read (a := []) rfl (.look (.advance .here))) .here

/-- A `;` may stand before the continuing block of a `loop`, and in it. -/
theorem ofTokens_strew_emptyLoop :
    ∃ m, Module.ofTokens emptyLoop = .ok m ∧
      Module.ofTokens (strew (fun i => if i = 7 ∨ i = 9 then [⟨.symbol .semicolon, ⟨7, i⟩⟩] else [])
        emptyLoop) = .ok m := by
  have hcontinuing : (Nonterminal.block "for 'continuing' body").ReadsAt {}
      (Cursor.advance^[8] (.ofTokens emptyLoop)) .declarations (.ofTokens emptyLoop) := by
    refine readsAt_emptyLoop.trans ?_
    refine .read (m := .loopBody) (.look (.advance .here)) ?_
    exact .read (m := .block "for 'continuing' body") (.look (.advance .here)) .here
  have hplace : ∀ i, i = 7 ∨ i = 9 → IsBoundary emptyLoop i := by
    rintro i (rfl | rfl)
    · exact .inBody rfl readsAt_emptyLoop rfl .here
    · exact .inBody rfl hcontinuing rfl .here
  obtain ⟨m, hm⟩ := @exists_eq_ok (Module.ofTokens emptyLoop) (by decide +kernel)
  refine ⟨m, hm, (ofTokens_strew_iff hm (fun i t ht => ?_) fun i hi => .inl (hplace i ?_)).2
    fun i hi => (hplace i ?_).not_isBehindContinuing hm⟩
  · by_cases hi : i = 7 ∨ i = 9 <;> simp_all
  all_goals exact by_contra fun hnot => hi (if_neg hnot)

/-- Behind the continuing block it is refused. -/
theorem stray_behind_continuing_refused :
    ∃ m, Module.ofTokens emptyLoop = .ok m ∧ IsBehindContinuing emptyLoop 10 ∧
      Module.ofTokens (strew (fun i => if i = 10 then [⟨.symbol .semicolon, ⟨1, 32⟩⟩] else [])
        emptyLoop) = .error
          (.ofToken (.symbol .braceRight "after loop body") ⟨.symbol .semicolon, ⟨1, 32⟩⟩) := by
  obtain ⟨m, hm⟩ := @exists_eq_ok (Module.ofTokens emptyLoop) (by decide +kernel)
  refine ⟨m, hm, @BehindContinuing.intro _ _ _ _ _ [] readsAt_emptyLoop rfl .here rfl rfl rfl, ?_⟩
  exact eq_error (by decide +kernel)

end Module

end Wgsl
