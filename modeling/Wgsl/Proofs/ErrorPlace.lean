import Wgsl.Proofs.InvalidTokens
import Wgsl.Proofs.Lexical.Walk
import Wgsl.Proofs.Along
import Wgsl.Proofs.Reach
import Wgsl.Proofs.TokenOrder

/-!
# Where errors point

An error about a token is raised where reading stops (`Nonterminal.about_of_rejected`), so it has
the location of the token to be read there. That token stands in the text: its location is a place
of the text, and the text from there on begins with it (`Token.StandsIn`). A split keeps this, since
what is left of `>>`, `>=` and `>>=` is their text without the first character, one column to the
right; and so does the end of the file, where no text is left.

Only the error about the number of arguments of a bitcast is raised further on. It has the location
of the word `bitcast`, a token that was taken before.
-/

namespace Wgsl

/-! ## Tokens in a text -/

/-- The location of a token is a place of the text, and the text from there on begins with the
token; at the end of the file there is no more text. -/
def Token.StandsIn (source : String) (t : Token) : Prop :=
  ∃ before text, (Place.ofSource source).Behind before ⟨t.location, text⟩ ∧
    t.text.toList <+: text ∧ (t.kind = .endOfFile → text = [])

namespace Token

variable {source : String} {t : Token}

/-- The tokens of a text stand in it. -/
theorem standsIn_of_mem_tokenize (h : t ∈ tokenize source) : t.StandsIn source := by
  obtain ⟨ts, text, hwalk, -, hread⟩ := Walk.begin.exists_of_mem_tokensFrom h
  obtain ⟨before, hbefore⟩ := hwalk.behind
  refine ⟨before, text, hbefore, ?_⟩
  rcases hread with ⟨behind, htoken⟩ | ⟨rfl, hend⟩
  · exact ⟨⟨behind, scanToken_append htoken⟩,
      fun hend => absurd hend (scanToken_ne_endOfFile htoken)⟩
  · exact ⟨by rw [Token.text, hend]; exact List.nil_prefix, fun _ => rfl⟩

/-- What is left of a token stands behind the `>` that was split off it. -/
theorem StandsIn.afterAngle {u : Token} (h : t.StandsIn source) (hu : t.afterAngle? = some u) :
    u.StandsIn source := by
  obtain ⟨before, text, hbefore, ⟨behind, hbehind⟩, -⟩ := h
  obtain ⟨mark, left, hmark, hleft, rfl⟩ := afterAngle?_eq_some_iff.1 hu
  have htext : text = '>' :: (left.lexeme.toList ++ behind) := by
    rw [← hbehind, Token.text, hmark, TokenKind.text, (Symbol.lexeme_of_afterAngle? hleft).1,
      List.cons_append]
  subst htext
  exact ⟨before ++ ['>'], left.lexeme.toList ++ behind, hbefore.append (.cons (.nil _)),
    List.prefix_append _ _, fun hend => by cases hend⟩

/-- What is left of a token behind some angles stands in the source where it says. -/
theorem StandsIn.afterAngles (h : t.StandsIn source) (n : Nat) :
    (t.afterAngles n).StandsIn source := by
  induction n with
  | zero => exact h
  | succ n ih =>
    rw [Token.afterAngles]
    cases hu : (t.afterAngles n).afterAngle? with
    | none => exact ih
    | some u => exact ih.afterAngle hu

end Token

/-- Wherever reading a text comes to, the token to be read stands in the text. -/
theorem Cursor.Reaches.current_standsIn {source : String} {d : Cursor}
    (h : (Cursor.ofTokens (tokenize source)).Reaches d) : d.current.StandsIn source := by
  rw [Cursor.current]
  split
  · obtain ⟨l, hl⟩ := tokenize_eq source
    have hfinish : d.finish = l := by
      have hlacks : ∀ t ∈ (tokenize source).takeWhile (·.kind ≠ .endOfFile), t.kind ≠ .endOfFile :=
        fun t ht => by simpa using List.mem_takeWhile_imp ht
      rw [h.finish_eq, Cursor.ofTokens, hl, Cursor.finishOf_append hlacks]
      simp [Cursor.finishOf]
    exact Token.standsIn_of_mem_tokenize (by rw [hl, hfinish]; simp)
  · rename_i t rest hu
    have hmem : t ∈ d.upcoming := hu ▸ List.mem_cons_self
    exact (Token.standsIn_of_mem_tokenize
      ((List.takeWhile_prefix _).subset (h.suffix.subset hmem))).afterAngles _

/-! ## Errors -/

/-- Where the error is, the text begins with what it is about. -/
def ParseError.PointsAt (text : List Char) : ParseError → Prop
  | .lexical _ invalid _ => invalid.toList <+: text
  | .unexpected _ found _ => found.text.toList <+: text ∧ (found = .endOfFile → text = [])
  | .unsupported construct _ => construct.opening.text.toList <+: text
  | .bitcastArguments _ _ => "bitcast".toList <+: text

/-- An error about a token that stands in a text points at it. -/
theorem ParseError.About.pointsAt {source : String} {t : Token} {e : ParseError} (h : e.About t)
    (ht : t.StandsIn source) :
    ∃ before text, (Place.ofSource source).Behind before ⟨e.location, text⟩ ∧ e.PointsAt text := by
  obtain ⟨before, text, hbefore, hbegins, hend⟩ := ht
  rcases h with ⟨expected, rfl⟩ | ⟨construct, hkind, rfl⟩
  · refine ⟨before, text, by simpa using hbefore, ?_⟩
    rw [ofToken]
    split
    · rename_i hkind
      simpa [PointsAt, Token.text, hkind, TokenKind.text] using hbegins
    · exact ⟨hbegins, hend⟩
  · exact ⟨before, text, hbefore, by rw [PointsAt, ← hkind]; exact hbegins⟩

/-- The error is about the token where reading stopped, or about the arguments of a bitcast. -/
def ParseError.Here (e : ParseError) (d : Cursor) : Prop :=
  e.About d.current ∨ ∃ count l, e = .bitcastArguments count l

/-- What one rule refuses is refused where it stops, if what nonterminals refuse is. -/
theorem Rule.Guarded.here {α : Type} {options : ReadOptions} {n : Nonterminal} {r : Production α}
    {s : Sight} {Q : α → Sight → Prop} {c d : Cursor} {e : ParseError} (hr : r.Guarded n s Q)
    (hs : s.Matches c)
    (ha : r.Along (fun m c => m.outcome options c)
      (fun m c => ∀ e d, m.outcome options c = .rejected e d → e.Here d) c)
    (ho : r.comesTo options c = .rejected e d) : e.Here d := by
  induction r generalizing s c with
  | done a => cases ho
  | fail e =>
    cases ho
    rcases hr with ⟨t, rfl, habout⟩ | ⟨made, l, count, -, -, rfl⟩
    · exact .inl (hs ▸ habout)
    · exact .inr ⟨count, l, rfl⟩
  | look k ih => exact ih _ (hr _ hs.admits) rfl ha ho
  | lookBehind k ih => exact ih _ (hr.2 _) hs ha ho
  | advance k ih =>
    obtain ⟨t, rfl, -, hk⟩ := hr
    exact ih hk trivial ha ho
  | split k ih =>
    obtain ⟨t, rfl, -, hk⟩ := hr
    exact ih hk trivial ha ho
  | read m k ih =>
    cases hm : m.outcome options c with
    | accepted a c' =>
      rw [Production.comesTo_read_of_accepted hm] at ho
      exact ih a (hr.2 a) trivial (ha.2 a c' hm) ho
    | rejected e' c' =>
      rw [Production.comesTo_read_of_rejected hm] at ho
      cases ho
      exact ha.1 _ _ hm
  | attempt m k ih =>
    obtain rfl : m = .constructorType := hr.2.1
    cases hm : Nonterminal.constructorType.outcome options c with
    | accepted a c' =>
      rw [Production.comesTo_attempt_of_accepted hm] at ho
      have hmade := hm ▸ Nonterminal.parse_eq_outcome options .constructorType c
      exact ih _ (hr.of_accepted hs hmade).1 trivial (ha.2.1 a c' hm) ho
    | rejected e' c' =>
      rw [Production.comesTo_attempt_of_rejected hm] at ho
      exact ih _ hr.2.2.2 hs (ha.2.2 e' c' hm) ho

/-- What is refused is refused where reading stops. -/
theorem Nonterminal.here_of_rejected {options : ReadOptions} {n : Nonterminal} {c d : Cursor}
    {e : ParseError} (h : n.outcome options c = .rejected e d) : e.Here d := by
  refine outcome_induction options
    (P := fun n c => ∀ e d, n.outcome options c = .rejected e d → e.Here d)
    (fun n c ha e d ho => ?_) n c e d h
  rw [outcome_eq] at ho
  exact (Production.disciplined options n).here trivial ha ho

/-- The error about the arguments of a bitcast is about a name before the place where it was
raised. -/
theorem ParseError.Arises.exists_bitcast {ts : List Token} {count : Nat} {l : Location}
    (h : (bitcastArguments count l).Arises ts) : ⟨.identifier "bitcast", l⟩ ∈ ts := by
  obtain ⟨done, c, hbehind, habout | ⟨l', count', hmem, heq⟩⟩ := h
  · rcases habout with ⟨expected, heq⟩ | ⟨construct, -, heq⟩
    · rw [ofToken] at heq
      split at heq <;> cases heq
    · cases heq
  · cases heq
    rw [hbehind.eq_append]
    exact List.mem_append_left _ hmem

namespace Module

/-- Errors point at the text they are about. Where a text is refused, the location of the error is
a place of the text, and from there on the text begins with what the error is about: with the
invalid text, with the token that was found, with what opens an unsupported construct, or with the
word `bitcast`. -/
theorem error_pointsAt {source : String} {options : ReadOptions} {e : ParseError}
    (h : Module.ofSource source options = .error e) :
    ∃ before text, (Place.ofSource source).Behind before ⟨e.location, text⟩ ∧ e.PointsAt text := by
  obtain ⟨d, hd⟩ := ofTokens_eq_error_iff.1 h
  rcases Nonterminal.here_of_rejected hd with habout | ⟨count, l, rfl⟩
  · have hreach := Nonterminal.outcome_reaches options .declarations (.ofTokens (tokenize source))
    rw [hd] at hreach
    exact habout.pointsAt hreach.current_standsIn
  · have hpasses : (Nonterminal.declarations.outcome options (.ofTokens (tokenize source))).Passes
        ((tokenize source).takeWhile (·.kind ≠ .endOfFile)) [] :=
      Nonterminal.outcome_passes ⟨rfl, by simp⟩ trivial
    have hmem := (hpasses.arises _ _ hd).exists_bitcast
    obtain ⟨before, text, hbefore, hbegins, -⟩ :=
      Token.standsIn_of_mem_tokenize ((List.takeWhile_prefix _).subset hmem)
    exact ⟨before, text, hbefore, hbegins⟩

/-- Behind a letter of two bytes, what is left of a `>>=` when two types have been closed is a `=`,
two columns to the right. -/
theorem error_pointsAt_of_remainder :
    Module.ofSource "// é\nalias é = array<array<f32>>= 1;" =
        .error (.unexpected (.symbol .semicolon "after alias") (.symbol .equal) ⟨2, 28⟩) ∧
      ∃ before text, (Place.ofSource "// é\nalias é = array<array<f32>>= 1;").Behind before
          ⟨⟨2, 28⟩, text⟩ ∧
        (ParseError.unexpected (.symbol .semicolon "after alias") (.symbol .equal)
          ⟨2, 28⟩).PointsAt text := by
  have h : Module.ofSource "// é\nalias é = array<array<f32>>= 1;" =
      .error (.unexpected (.symbol .semicolon "after alias") (.symbol .equal) ⟨2, 28⟩) :=
    eq_error (by decide +kernel)
  exact ⟨h, error_pointsAt h⟩

end Module

end Wgsl
