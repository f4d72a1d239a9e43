import Mathlib.Data.List.Infix
import Wgsl.Module
import Wgsl.Proofs.Follow
import Wgsl.Proofs.Upcoming

/-!
# Reading a whole file

Reading leaves an end of the tokens that were upcoming (`Nonterminal.outcome_suffix`). Declarations
are read until the file ends. So where they are accepted nothing is left, and a module is what the
tokens come to as a whole.
-/

namespace Wgsl

namespace Cursor

variable {c : Cursor} {ts : List Token}

/-- Advancing leaves an end of the tokens. -/
theorem suffix_advance (h : c.upcoming <:+ ts) : c.advance.upcoming <:+ ts := by
  rw [upcoming_advance]
  exact (List.tail_suffix _).trans h

/-- Splitting leaves an end of the tokens. -/
theorem suffix_split (h : c.upcoming <:+ ts) : c.split.upcoming <:+ ts := by
  rwa [upcoming_split]

end Cursor

/-- What is left of the upcoming tokens is left of all that they are left of. -/
theorem Nonterminal.outcome_suffix (options : ReadOptions) (n : Nonterminal) {c : Cursor}
    {ts : List Token} (h : c.upcoming <:+ ts) : (n.outcome options c).cursor.upcoming <:+ ts :=
  n.outcome_keeps (P := fun c => c.upcoming <:+ ts) (fun _ => Cursor.suffix_advance)
    (fun _ => Cursor.suffix_split) h

/-- What is read leaves an end of the tokens. -/
theorem Nonterminal.parse_suffix {options : ReadOptions} {depth : Nat} {n : Nonterminal}
    {c : Cursor} {ts : List Token} {o : Outcome n.Result} (h : c.upcoming <:+ ts)
    (ho : (moduleGrammar options).parse depth n c = some o) : o.cursor.upcoming <:+ ts :=
  outcome_of_parse ho ▸ n.outcome_suffix options h

/-- What a rule leaves of the upcoming tokens is left of all that they are left of. -/
theorem Rule.run_suffix {α : Type} {options : ReadOptions} {depth : Nat} {r : Production α}
    {c : Cursor} {ts : List Token} {o : Outcome α} (h : c.upcoming <:+ ts)
    (ho : r.run ((moduleGrammar options).parse depth) c = some o) : o.cursor.upcoming <:+ ts := by
  have kept : r.Holds (fun _ c => c.upcoming <:+ ts)
      (fun _ _ o => o.cursor.upcoming <:+ ts ∧ True) c fun o => o.cursor.upcoming <:+ ts ∧ True :=
    (Holds.trivial r c).keeping (P := fun c => c.upcoming <:+ ts)
      (fun _ => Cursor.suffix_advance) (fun _ => Cursor.suffix_split) h
  exact (kept.of_run ho fun n c o hc hp => ⟨Nonterminal.parse_suffix hc hp, trivial⟩).1

namespace Nonterminal

variable {options : ReadOptions} {c : Cursor}

/-- A stray semicolon between declarations is passed over. -/
theorem declarations_of_semicolon (h : c.current.kind = .symbol .semicolon) :
    Nonterminal.declarations.outcome options c =
      Nonterminal.declarations.outcome options c.advance := by
  rw [outcome_eq]
  simp [Production.declarations, h]

/-- Declarations are read one by one. -/
theorem declarations_of_declaration (hsemicolon : c.current.kind ≠ .symbol .semicolon)
    (hend : c.current.kind ≠ .endOfFile) :
    Nonterminal.declarations.outcome options c =
      (Nonterminal.declaration.outcome options c).bind fun d c' =>
        (Nonterminal.declarations.outcome options c').bind fun ds c'' =>
          .accepted (d :: ds) c'' := by
  rw [outcome_eq]
  simp [Production.declarations]

/-- At the end of the file there are no more declarations. -/
theorem declarations_of_endOfFile (h : c.current.kind = .endOfFile) :
    Nonterminal.declarations.outcome options c = .accepted [] c := by
  rw [outcome_eq]
  simp [Production.declarations, h]

end Nonterminal

/-- Declarations end where the file does. -/
def Nonterminal.EndsFile : (n : Nonterminal) → Outcome n.Result → Prop
  | .declarations, o => o.IfAccepted fun _ c' => c'.current.kind = .endOfFile
  | _, _ => True

/-- The declarations end with the file; nothing else has to. -/
theorem Production.shows_endsFile (options : ReadOptions) (n : Nonterminal) :
    n.Shows options (Cursor.Lacks .endOfFile) fun n _ o => n.EndsFile o := by
  intro c _
  cases n with
  | declarations =>
    simp only [Nonterminal.EndsFile, ofNonterminal, declarations, Rule.holds_steps,
      Outcome.ifAccepted_rejected]
    split
    · simp
    · rename_i hend
      simp [hend]
    · simp
  | _ => exact Rule.Holds.trivial _ c

/-- Declarations are read up to the end of the file. -/
theorem Nonterminal.upcoming_declarations {options : ReadOptions} {c c' : Cursor}
    {ds : List Declaration} (hc : c.Lacks .endOfFile)
    (h : Nonterminal.declarations.outcome options c = .accepted ds c') : c'.upcoming = [] := by
  have hends := outcome_of_shows (fun _ h => h.advance) (fun _ h => h.split)
    (Production.shows_endsFile options) .declarations hc
  rw [h] at hends
  exact hends.1.upcoming_eq_nil (hends.2 ds c' rfl)

namespace Module

/-- A module is read from tokens when its declarations are. -/
theorem ofTokens_eq_ok_iff {tokens : List Token} {options : ReadOptions} {m : Module} :
    Module.ofTokens tokens options = .ok m ↔
      ∃ c', Nonterminal.declarations.outcome options (.ofTokens tokens) = .accepted m c' := by
  rw [Module.ofTokens, Reader.next, Reader.ofTokens]
  split <;> simp_all

/-- Tokens are refused with an error when declarations are. -/
theorem ofTokens_eq_error_iff {tokens : List Token} {options : ReadOptions} {e : ParseError} :
    Module.ofTokens tokens options = .error e ↔
      ∃ c', Nonterminal.declarations.outcome options (.ofTokens tokens) = .rejected e c' := by
  rw [Module.ofTokens, Reader.next, Reader.ofTokens]
  split <;> simp_all

/-- What is something is a module. -/
theorem exists_eq_ok {result : Except ParseError Module} (h : result.toOption.isSome) :
    ∃ m, result = .ok m := by
  cases result with
  | ok m => exact ⟨m, rfl⟩
  | error e => simp [Except.toOption] at h

/-- Whether a result is an error is decided without comparing modules. -/
theorem eq_error {result : Except ParseError Module} {e : ParseError}
    (h : (result.map fun _ => ()) = .error e) : result = .error e := by
  cases result with
  | ok m => cases h
  | error e' => cases h; rfl

end Module

end Wgsl
