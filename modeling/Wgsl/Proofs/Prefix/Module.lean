import Wgsl.Proofs.ErrorPlace
import Wgsl.Proofs.Prefix.Primary

/-!
# No error is late

Where tokens are refused, the error is about the token where the reader stopped, and what it has
read is the beginning of a module (`Module.exists_completion`). So no token is taken after which
nothing could be accepted.

If the error is about what is left of a token, the closing angles that were split off it have been
read, and they are a token of their own in the module (`Cursor.splitOff`).

There is one exception. The number of arguments of a bitcast is refused only behind the last of
them, so no token may be named `bitcast`.
-/

namespace Wgsl

open scoped Rule.Steps

/-- What nonterminals read carries on, up to the break. -/
theorem Nonterminal.carriesOn {options : ReadOptions} {us ts angles : List Token} {count : Nat}
    {l : Location} (h : Break us ts angles count l) (n : Nonterminal) (e : Cursor) :
    n.CarriesOn options us ts angles count l e := by
  refine outcome_induction options (fun n e ha => ?_) n e
  rintro c rfl hne hc hfresh hn
  have hboth := ha.and ((Production.names options n).beginsFresh
    (.ofFresh (Cursor.fresh_append.2 hfresh)) (Cursor.suffix_append hc))
  by_cases hprimary : n = .primary
  · subst hprimary
    exact primary_carriesOn h hne hc hfresh hboth
  · exact ((Production.viable options hn hprimary).viable none).carriesOn h (by simp) hne hc hboth

/-! ## Modules -/

/-- Where nothing has been read, nothing has been split off, and declarations are complete. -/
theorem Break.exists_accepted_of_nil {options : ReadOptions} {ts angles : List Token} {count : Nat}
    {l : Location} {e : ParseError} (h : Break [] ts angles count l)
    (ho : Nonterminal.declarations.outcome options (.before ts l) =
      .rejected e (.closed ts l count)) :
    ∃ m, Nonterminal.declarations.outcome options (.before angles l) =
      .accepted m (.before [] l) := by
  rw [Nonterminal.outcome_eq] at ho
  have hcount : 0 = count := h.eq_of_stays (Production.stays options .declarations)
    (Nat.zero_le _) (Nat.le_refl _) (congrArg Outcome.cursor ho)
  have hend : (Cursor.before [] l).current.kind ∈ Nonterminal.declarations.followers :=
    List.mem_cons_self
  have htakes := @Production.takes_sample options .declarations trivial
  obtain ⟨m, -, hm⟩ := htakes.exists_accepted hend
  rw [h.angles_eq_nil hcount.symm, Nonterminal.outcome_eq]
  exact ⟨m, hm⟩

/-- What declarations have read before a break can be completed. -/
theorem Break.exists_accepted {options : ReadOptions} {us ts angles : List Token} {count : Nat}
    {l : Location} {e : ParseError} (h : Break us ts angles count l)
    (ho : Nonterminal.declarations.outcome options (.before (us ++ ts) l) =
      .rejected e (.closed ts l count)) :
    ∃ w, Tame w ∧ ∃ m, Nonterminal.declarations.outcome options
      (.before (us ++ (angles ++ tokensOf w)) l) = .accepted m (.before [] l) := by
  by_cases hnil : us = []
  · subst hnil
    obtain ⟨m, hm⟩ := h.exists_accepted_of_nil ho
    exact ⟨[], tame_nil, m, by rwa [tokensOf_nil, List.append_nil]⟩
  · have happend : ∀ ts, (Cursor.before us l).append ts l = .before (us ++ ts) l := fun ts =>
      Cursor.before_append us ts l l
    have hcarries := @Nonterminal.carriesOn options us ts angles count l h .declarations _ _ rfl
      hnil (List.suffix_refl us) (Cursor.fresh_before us l) trivial
    rw [← happend, Nonterminal.outcome_eq] at ho
    obtain ⟨w, hw, hcomplete⟩ := hcarries.rejected ho
    have hcalm : Calm us (angles ++ (tokensOf w ++ [])) := by
      rw [List.append_nil]
      exact hw.calm h.single
    obtain ⟨m, -, hm⟩ := hcomplete [] List.mem_cons_self hcalm
    rw [happend, Production.comesTo, ← Nonterminal.outcome_eq, List.append_nil] at hm
    exact ⟨w, hw.tame, m, hm⟩

/-- No token is the end of the file in what is completed, if none is in what has been read. -/
theorem Break.ne_endOfFile {us ts angles : List Token} {count : Nat} {l : Location}
    {w : List TokenKind} (h : Break us ts angles count l) (hw : Tame w)
    (hus : ∀ t ∈ us, t.kind ≠ .endOfFile) :
    ∀ t ∈ us ++ (angles ++ tokensOf w), t.kind ≠ .endOfFile := by
  intro t ht
  simp only [List.mem_append] at ht
  rcases ht with ht | ht | ht
  · exact hus t ht
  · rcases h.single with hangles | ⟨mark, l, hangles, -⟩ <;> rw [hangles] at ht
    · cases ht
    · rw [List.mem_singleton.1 ht]
      simp
  · obtain ⟨kind, hkind, rfl⟩ := List.mem_map.1 ht
    rintro rfl
    exact hw.1 hkind

namespace Module

variable {tokens : List Token} {options : ReadOptions} {e : ParseError} {r : Reader}

/-- Tokens that are read as declarations are a module, with the end of the file behind them. -/
theorem ofTokens_of_accepted {us : List Token} {l : Location} {m : Module} {c : Cursor}
    (hus : ∀ t ∈ us, t.kind ≠ .endOfFile)
    (ho : Nonterminal.declarations.outcome options (.before us l) = .accepted m c) :
    Module.ofTokens (us ++ [⟨.endOfFile, l⟩]) options = .ok m := by
  rw [Module.ofTokens_eq_ok_iff, Cursor.ofTokens_append_eq_before hus, Cursor.finishOf_append hus]
  refine ⟨c, ?_⟩
  simpa [Cursor.finishOf] using ho

/-- No error is late: what has been read can be completed. Where tokens without the name `bitcast`
are refused, the error is about the token where the reader stopped, and the tokens before it, with
what has been split off it, are the beginning of a module. -/
theorem exists_completion (hbitcast : ∀ t ∈ tokens, t.kind ≠ .identifier "bitcast")
    (h : (Reader.ofTokens tokens options).next = (.error e, r)) :
    ∃ done, tokens.takeWhile (·.kind ≠ .endOfFile) = done ++ r.cursor.upcoming ∧
      e.About r.cursor.current ∧
      ∃ rest m, Module.ofTokens (done ++ r.cursor.splitOff ++ rest) options = .ok m := by
  obtain ⟨c, rfl, ho⟩ : ∃ c, r = ⟨c, options⟩ ∧
      Nonterminal.declarations.outcome options (.ofTokens tokens) = .rejected e c := by
    rw [Reader.next, Reader.ofTokens] at h
    split at h
    · cases h
    · rename_i ho
      cases h
      exact ⟨_, rfl, ho⟩
  have hreaches : (Cursor.ofTokens tokens).Reaches c := by
    have hreaches := Nonterminal.declarations.outcome_reaches options (.ofTokens tokens)
    rwa [ho] at hreaches
  have hmem : ∀ t ∈ tokens.takeWhile (·.kind ≠ .endOfFile), t ∈ tokens ∧ t.kind ≠ .endOfFile :=
    fun t ht => ⟨(List.takeWhile_prefix _).subset ht, by simpa using List.mem_takeWhile_imp ht⟩
  obtain ⟨done, hdone⟩ : ∃ done, done ++ c.upcoming = tokens.takeWhile (·.kind ≠ .endOfFile) :=
    hreaches.suffix
  have hread : ∀ t ∈ done, t ∈ tokens ∧ t.kind ≠ .endOfFile := fun t ht =>
    hmem t (hdone ▸ List.mem_append_left _ ht)
  refine ⟨done, hdone.symm, ?_, ?_⟩
  · have hpasses : (Nonterminal.declarations.outcome options (.ofTokens tokens)).Passes
        (tokens.takeWhile (·.kind ≠ .endOfFile)) [] :=
      Nonterminal.outcome_passes ⟨rfl, by simp⟩ trivial
    rcases Nonterminal.here_of_rejected ho with habout | ⟨count, l, rfl⟩
    · exact habout
    · exact absurd rfl (hbitcast _ (hmem _ (hpasses.arises _ _ ho).exists_bitcast).1)
  · rw [Cursor.ofTokens_eq_before_takeWhile, ← hdone] at ho
    rw [Cursor.ofTokens_eq_before_takeWhile] at hreaches
    have hbreak := hreaches.toBreak fun t ht => hbitcast t (hread t ht).1
    obtain ⟨w, htame, m, hm⟩ := hbreak.exists_accepted (ho.trans (congrArg _ hreaches.eq_closed.1))
    have hmodule := ofTokens_of_accepted (hbreak.ne_endOfFile htame fun t ht => (hread t ht).2) hm
    refine ⟨tokensOf w ++ [⟨.endOfFile, Cursor.finishOf .start tokens⟩], m, ?_⟩
    rw [← hmodule]
    simp only [List.append_assoc]

/-- A type is tried at `a` and refused, and one `>` of the `>>` closes the parameters of the array.
The error is about the other one. -/
theorem exists_completion_of_remainder :
    ∃ e r, (Reader.ofTokens (tokenize "var x: array<f32, a < b>> c;")).next = (.error e, r) ∧
      r.cursor.splitOff = [⟨.symbol .greaterThan, ⟨1, 24⟩⟩] ∧
      ∃ done, (tokenize "var x: array<f32, a < b>> c;").takeWhile (·.kind ≠ .endOfFile) =
          done ++ r.cursor.upcoming ∧
        e.About r.cursor.current ∧
        ∃ rest m, Module.ofTokens (done ++ r.cursor.splitOff ++ rest) = .ok m := by
  have hoff : (Reader.ofTokens (tokenize "var x: array<f32, a < b>> c;")).next.2.cursor.splitOff =
      [⟨.symbol .greaterThan, ⟨1, 24⟩⟩] := by decide +kernel
  have hrefused : (Reader.ofTokens (tokenize "var x: array<f32, a < b>> c;")).next.1.isOk =
      false := by decide +kernel
  cases hnext : (Reader.ofTokens (tokenize "var x: array<f32, a < b>> c;")).next with
  | mk result r =>
    rw [hnext] at hoff hrefused
    cases result with
    | ok m => cases hrefused
    | error e => exact ⟨e, r, rfl, hoff, exists_completion (by decide +kernel) hnext⟩

end Module

end Wgsl
