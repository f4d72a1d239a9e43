import Mathlib.Data.List.Infix
import Wgsl.Proofs.Discipline
import Wgsl.Proofs.WholeFile

/-!
# Invalid tokens are not passed over

A rule takes only tokens that are valid, and what it tries and gives up has not taken others
either. So wherever a reader stands, all tokens behind it are valid (`Cursor.Behind`), and an error
is about the token it stands at, or about a name behind it (`ParseError.Arises`). With an invalid
token in the file, the end of the file is never reached, and the error is about that token or about
one before it.
-/

namespace Wgsl

open Nonterminal

namespace Token

/-- Splitting makes no token invalid, nor valid. -/
theorem isInvalid_afterAngles (t : Token) (n : Nat) :
    (t.afterAngles n).kind.isInvalid = t.kind.isInvalid :=
  t.afterAngles_kind_congr TokenKind.isInvalid (fun _ _ _ => rfl) n

/-- Nothing is split off an invalid token. -/
theorem afterAngles_invalid (text : String) (fault : LexicalFault) (l : Location) (n : Nat) :
    afterAngles ⟨.invalid text fault, l⟩ n = ⟨.invalid text fault, l⟩ :=
  afterAngles_of_none rfl n

end Token

/-- What was expected instead of a valid token. -/
theorem ParseError.ofToken_of_valid {expected : Expectation} {t : Token}
    (h : t.kind.isInvalid = false) :
    ofToken expected t = .unexpected expected t.kind t.location := by
  rw [ofToken]
  split
  · simp_all [TokenKind.isInvalid]
  · rfl

namespace Cursor

/-- The cursor stands in a sequence of tokens behind some of them, all valid. -/
structure Behind (ts done : List Token) (c : Cursor) : Prop where
  eq_append : ts = done ++ c.upcoming
  valid : ∀ t ∈ done, t.kind.isInvalid = false

variable {ts done : List Token} {c : Cursor}

/-- A split passes no token. -/
theorem Behind.split (h : c.Behind ts done) : c.split.Behind ts done :=
  ⟨by rw [upcoming_split]; exact h.eq_append, h.valid⟩

/-- Behind a valid token, one more is done. -/
theorem Behind.advance (h : c.Behind ts done) (hend : c.current.kind ≠ .endOfFile)
    (hvalid : c.current.kind.isInvalid = false) :
    ∃ t, c.advance.Behind ts (done ++ [t]) := by
  obtain ⟨t, rest, hu, hc⟩ := exists_upcoming_eq_cons hend
  refine ⟨t, ?_, fun u hu' => ?_⟩
  · rw [upcoming_advance, hu, List.tail_cons, List.append_assoc, List.singleton_append, ← hu]
    exact h.eq_append
  · rcases List.mem_append.1 hu' with hu' | hu'
    · exact h.valid u hu'
    · obtain rfl := List.mem_singleton.1 hu'
      rwa [← Token.isInvalid_afterAngles, ← hc]

/-- What a cursor has come past stays done. -/
theorem Behind.mem_of_suffix {c' : Cursor} {done' : List Token} {t : Token}
    (h : c.Behind ts done) (h' : c'.Behind ts done') (ht : c.upcoming = t :: c.upcoming.tail)
    (hpast : c'.upcoming <:+ c.upcoming.tail) : t ∈ done' := by
  obtain ⟨past, hpast⟩ := hpast
  have hdone : done' = done ++ t :: past := by
    have hsame := h'.eq_append.symm.trans h.eq_append
    rw [ht, ← hpast, ← List.cons_append, ← List.append_assoc] at hsame
    exact List.append_cancel_right hsame
  simp [hdone]

end Cursor

/-- The error is about where a cursor stands behind valid tokens, or about a `bitcast` among
them. -/
def ParseError.Arises (ts : List Token) (e : ParseError) : Prop :=
  ∃ done c, Cursor.Behind ts done c ∧
    (e.About c.current ∨
      ∃ l count, ⟨.identifier "bitcast", l⟩ ∈ done ∧ e = .bitcastArguments count l)

/-- Reading has come to a place behind valid tokens, and refuses nothing but what it met on the
way. -/
structure Outcome.Passes {α : Type} (ts done : List Token) (o : Outcome α) : Prop where
  behind : ∃ done', done ⊆ done' ∧ o.cursor.Behind ts done'
  arises : ∀ e c, o = .rejected e c → e.Arises ts

namespace Outcome

variable {α : Type} {ts done : List Token} {c : Cursor}

/-- A value is accepted behind tokens that are passed. -/
theorem passes_accepted {a : α} (h : c.Behind ts done) : (accepted a c).Passes ts done :=
  ⟨⟨done, List.Subset.refl _, h⟩, fun _ _ h => by cases h⟩

/-- An error arises from tokens that are passed, or from the next one. -/
theorem passes_rejected {e : ParseError} (h : c.Behind ts done) (he : e.Arises ts) :
    (rejected e c : Outcome α).Passes ts done :=
  ⟨⟨done, List.Subset.refl _, h⟩, fun _ _ h => (rejected.inj h).1 ▸ he⟩

/-- A refusal goes on to what reads the refused. -/
theorem Passes.rejected_of_rejected {β : Type} {e : ParseError}
    (h : (rejected e c : Outcome α).Passes ts done) : (rejected e c : Outcome β).Passes ts done :=
  ⟨h.behind, fun e' c' h' => h.arises e' c' (by cases h'; rfl)⟩

/-- Fewer tokens may be asked to be passed. -/
theorem Passes.of_subset {done' : List Token} {o : Outcome α} (h : o.Passes ts done')
    (hsub : done ⊆ done') : o.Passes ts done := by
  obtain ⟨done'', hsub', hbehind⟩ := h.behind
  exact ⟨⟨done'', fun t ht => hsub' (hsub ht), hbehind⟩, h.arises⟩

end Outcome

/-- What began with a token is behind it. -/
def Sight.Past (done : List Token) : Sight → Prop
  | .after t => t ∈ done
  | _ => True

namespace Nonterminal

/-- A value of a type is read when the name of the type is done. -/
def Begun (done : List Token) : Nonterminal → Prop
  | .construction made l => ⟨.identifier made.name, l⟩ ∈ done
  | _ => True

/-- What has begun among some tokens has begun among more. -/
theorem Begun.of_subset {done done' : List Token} (hsub : done ⊆ done') {n : Nonterminal}
    (h : n.Begun done) : n.Begun done' := by
  cases n with
  | construction made l => exact hsub h
  | _ => trivial

/-- What a rule may read has begun. -/
theorem begun_of_reads {n m : Nonterminal} {s : Sight} {done : List Token} (h : n.Reads s m)
    (hs : s.Past done) : m.Begun done := by
  cases m with
  | construction made l =>
    obtain rfl := h
    exact hs
  | _ => trivial

end Nonterminal

namespace Rule

open Outcome

variable {options : ReadOptions} {depth : Nat} {n : Nonterminal} {α : Type}
variable {ts done : List Token} {c : Cursor}

/-- What one rule comes to passes, if what nonterminals come to does. -/
theorem Guarded.passes
    (hparse : ∀ n c done o, c.Behind ts done → n.Begun done →
      (moduleGrammar options).parse depth n c = some o → o.Passes ts done)
    {r : Production α} {s : Sight} {Q : α → Sight → Prop} {o : Outcome α}
    (hr : r.Guarded n s Q) (hs : s.Matches c) (hpast : s.Past done) (hn : n.Begun done)
    (hc : c.Behind ts done) (ho : r.run ((moduleGrammar options).parse depth) c = some o) :
    o.Passes ts done := by
  induction r generalizing s c done with
  | done a =>
    cases ho
    exact passes_accepted hc
  | fail e =>
    cases ho
    refine passes_rejected hc ?_
    rcases hr with ⟨t, rfl, habout⟩ | ⟨made, l, count, rfl, htarget, rfl⟩
    · exact ⟨done, c, hc, .inl (hs ▸ habout)⟩
    · have hbitcast : made.name = "bitcast" := by
        by_contra hne
        simp [TypeSpecifier.bitcastTarget?, hne] at htarget
      exact ⟨done, c, hc, .inr ⟨l, count, hbitcast ▸ hn, rfl⟩⟩
  | look k ih => exact ih _ (hr _ hs.admits) rfl trivial hn hc ho
  | lookBehind k ih => exact ih _ (hr.2 _) hs hpast hn hc ho
  | advance k ih =>
    obtain ⟨t, rfl, ⟨hend, hvalid, -⟩, hk⟩ := hr
    obtain rfl : c.current = t := hs
    obtain ⟨u, hbehind⟩ := hc.advance hend hvalid
    have hsub : done ⊆ done ++ [u] := List.subset_append_left _ _
    exact (ih hk trivial trivial (hn.of_subset hsub) hbehind ho).of_subset hsub
  | split k ih =>
    obtain ⟨t, rfl, -, hk⟩ := hr
    exact ih hk trivial trivial hn hc.split ho
  | read m k ih =>
    obtain ⟨hm, hk⟩ := hr
    rw [run] at ho
    cases hp : (moduleGrammar options).parse depth m c with
    | none => simp [hp] at ho
    | some o' =>
      have hpasses := hparse m c done o' hc (begun_of_reads hm hpast) hp
      rw [hp] at ho
      cases o' with
      | accepted a c' =>
        obtain ⟨done', hsub, hbehind⟩ := hpasses.behind
        exact (ih a (hk a) trivial trivial (hn.of_subset hsub) hbehind ho).of_subset hsub
      | rejected e c' =>
        cases ho
        exact hpasses.rejected_of_rejected
  | attempt m k ih =>
    obtain rfl : m = .constructorType := hr.2.1
    rw [run] at ho
    cases hp : (moduleGrammar options).parse depth .constructorType c with
    | none => simp [hp] at ho
    | some o' =>
      have hpasses := hparse .constructorType c done o' hc trivial hp
      rw [hp] at ho
      cases o' with
      | accepted a c' =>
        obtain ⟨done', hsub, hbehind⟩ := hpasses.behind
        obtain ⟨hk, hu, hsuffix⟩ := hr.of_accepted hs hp
        have hdone : c.current ∈ done' := hc.mem_of_suffix hbehind hu hsuffix
        exact (ih _ hk trivial hdone (hn.of_subset hsub) hbehind ho).of_subset hsub
      | rejected e c' => exact ih _ hr.2.2.2 hs hpast hn hc ho

end Rule

/-- Behind valid tokens, whatever is read comes to a place behind valid tokens. -/
theorem Nonterminal.outcome_passes {options : ReadOptions} {n : Nonterminal} {ts done : List Token}
    {c : Cursor} (hc : c.Behind ts done) (hn : n.Begun done) :
    (n.outcome options c).Passes ts done := by
  have hparse : ∀ depth n c done o, c.Behind ts done → n.Begun done →
      (moduleGrammar options).parse depth n c = some o → o.Passes ts done := by
    intro depth
    induction depth with
    | zero => exact fun _ _ _ _ _ _ h => by simp [Grammar.parse] at h
    | succ depth ih =>
      intro n c done o hc hn h
      exact (Production.disciplined options n).passes ih trivial trivial hn hc h
  exact hparse _ n c done _ hc hn (parse_eq_outcome options n c)

/-- The error is raised for a token, or what is left of it: something else was expected, it begins
what is not supported, or it is the name of a bitcast with a wrong number of arguments. -/
inductive ParseError.RaisedFor (t : Token) : ParseError → Prop
  | unexpected (expected : Expectation) (n : Nat) :
    RaisedFor t (.unexpected expected (t.afterAngles n).kind (t.afterAngles n).location)
  | unsupported (construct : UnsupportedConstruct) (h : t.kind = construct.opening) :
    RaisedFor t (.unsupported construct t.location)
  | bitcastArguments (count : Nat) (h : t.kind = .identifier "bitcast") :
    RaisedFor t (.bitcastArguments count t.location)

namespace ParseError

variable {e : ParseError} {t : Token} {n : Nat}

/-- An error about what is left of a valid token is raised for the token. -/
theorem RaisedFor.of_about (h : e.About (t.afterAngles n)) (hvalid : t.kind.isInvalid = false) :
    e.RaisedFor t := by
  rcases h with ⟨expected, rfl⟩ | ⟨construct, hkind, rfl⟩
  · rw [ofToken_of_valid (by rwa [Token.isInvalid_afterAngles])]
    exact .unexpected expected n
  · -- no remainder of a split begins an unsupported construct
    have hwhole : t.afterAngles n = t := by
      refine (t.afterAngles_eq_or n).resolve_right ?_
      rw [hkind]
      cases construct <;> simp
    rw [hwhole] at hkind ⊢
    exact .unsupported construct hkind

/-- An error that arises before an invalid token is that of the token, or is raised for a token
before it. -/
theorem Arises.lexical_or_raisedFor {front back : List Token} {text : String}
    {fault : LexicalFault} {l : Location}
    (h : e.Arises (front ++ ⟨.invalid text fault, l⟩ :: back))
    (hfront : ∀ t ∈ front, t.kind.isInvalid = false) :
    e = .lexical fault text l ∨ ∃ t ∈ front, e.RaisedFor t := by
  obtain ⟨done, c, ⟨happend, hdone⟩, h⟩ := h
  obtain ⟨ahead, rfl, hu⟩ : ∃ ahead, front = done ++ ahead ∧
      c.upcoming = ahead ++ ⟨.invalid text fault, l⟩ :: back := by
    rcases List.append_eq_append_iff.1 happend with ⟨past, hpast, hrest⟩ | ⟨ahead, hahead, hrest⟩
    · cases past with
      | nil => exact ⟨[], by simpa using hpast.symm, by simpa using hrest.symm⟩
      | cons t past =>
        obtain ⟨rfl, -⟩ := List.cons.inj hrest
        have hinvalid := hdone ⟨.invalid text fault, l⟩ (by simp [hpast])
        cases hinvalid
    · exact ⟨ahead, hahead, hrest⟩
  rcases h with habout | ⟨l', count, hbitcast, rfl⟩
  · rw [Cursor.current, hu] at habout
    cases ahead with
    | nil =>
      rw [List.nil_append] at habout
      dsimp only at habout
      rw [Token.afterAngles_invalid] at habout
      rcases habout with ⟨expected, rfl⟩ | ⟨construct, hkind, -⟩
      · exact .inl rfl
      · cases construct <;> cases hkind
    | cons t ahead =>
      have ht : t ∈ done ++ t :: ahead := by simp
      exact .inr ⟨t, ht, .of_about habout (hfront t ht)⟩
  · exact .inr ⟨_, List.mem_append_left _ hbitcast, .bitcastArguments count rfl⟩

end ParseError

namespace Module

/-- No invalid token is passed over. Where one stands in the file behind valid tokens, the module is
refused, with the fault of that token or an error raised for a token before it; so in a module that
is accepted, all tokens up to the end of the file are valid. -/
theorem invalid_not_passed_over (tokens : List Token) (options : ReadOptions) :
    (∀ front back text fault l, tokens = front ++ ⟨.invalid text fault, l⟩ :: back →
      (∀ t ∈ front, t.kind.isInvalid = false ∧ t.kind ≠ .endOfFile) →
      ∃ e, Module.ofTokens tokens options = .error e ∧
        (e = .lexical fault text l ∨ ∃ t ∈ front, e.RaisedFor t)) ∧
    ∀ m, Module.ofTokens tokens options = .ok m →
      ∀ t ∈ tokens.takeWhile (·.kind ≠ .endOfFile), t.kind.isInvalid = false := by
  have hpasses : (Nonterminal.declarations.outcome options (.ofTokens tokens)).Passes
      (tokens.takeWhile (·.kind ≠ .endOfFile)) [] :=
    outcome_passes ⟨rfl, by simp⟩ trivial
  have hvalid : ∀ m, Module.ofTokens tokens options = .ok m →
      ∀ t ∈ tokens.takeWhile (·.kind ≠ .endOfFile), t.kind.isInvalid = false := by
    intro m hm
    obtain ⟨c', hc'⟩ := ofTokens_eq_ok_iff.1 hm
    obtain ⟨done, -, hbehind⟩ := hpasses.behind
    have hend := upcoming_declarations (Cursor.lacks_endOfFile_ofTokens tokens) hc'
    rw [hc'] at hbehind
    have hall := hbehind.eq_append
    rw [Outcome.cursor_accepted, hend, List.append_nil] at hall
    exact hall ▸ hbehind.valid
  refine ⟨fun front back text fault l htokens hfront => ?_, hvalid⟩
  subst htokens
  have htake : (front ++ ⟨.invalid text fault, l⟩ :: back).takeWhile (·.kind ≠ .endOfFile) =
      front ++ ⟨.invalid text fault, l⟩ :: back.takeWhile (·.kind ≠ .endOfFile) := by
    rw [List.takeWhile_append_of_pos (by simpa using fun t ht => (hfront t ht).2),
      List.takeWhile_cons_of_pos (by simp)]
  cases ho : Module.ofTokens (front ++ ⟨.invalid text fault, l⟩ :: back) options with
  | ok m =>
    have hmem := List.mem_append_right front
      (List.mem_cons_self (a := ⟨.invalid text fault, l⟩)
        (l := back.takeWhile (·.kind ≠ .endOfFile)))
    cases hvalid m ho _ (htake ▸ hmem)
  | error e =>
    obtain ⟨c', hc'⟩ := ofTokens_eq_error_iff.1 ho
    have harises := hpasses.arises e c' hc'
    rw [htake] at harises
    exact ⟨e, rfl, harises.lexical_or_raisedFor fun t ht => (hfront t ht).1⟩

/-- In `const x = a < #` the `#` is met twice: first while `a` is tried as the name of a type, and
then where the right operand is expected. Behind the end of the file it is not met. -/
theorem invalid_not_passed_over_behind_angle :
    (∃ e, Module.ofTokens
        (([.keyword .const, .identifier "x", .symbol .equal, .identifier "a",
            .symbol .lessThan].map fun k => ⟨k, .start⟩) ++
          ⟨.invalid "#" .unexpectedCharacter, ⟨1, 15⟩⟩ :: [⟨.symbol .semicolon, ⟨1, 16⟩⟩]) =
          .error e ∧
      (e = .lexical .unexpectedCharacter "#" ⟨1, 15⟩ ∨
        ∃ t ∈ [.keyword .const, .identifier "x", .symbol .equal, .identifier "a",
          .symbol .lessThan].map fun k => ⟨k, .start⟩, e.RaisedFor t)) ∧
    ∃ m, Module.ofTokens [⟨.symbol .semicolon, ⟨1, 1⟩⟩, ⟨.endOfFile, ⟨1, 2⟩⟩,
        ⟨.invalid "#" .unexpectedCharacter, ⟨1, 3⟩⟩] = .ok m ∧
      ∀ t ∈ [⟨.symbol .semicolon, ⟨1, 1⟩⟩, ⟨.endOfFile, ⟨1, 2⟩⟩,
          ⟨.invalid "#" .unexpectedCharacter, ⟨1, 3⟩⟩].takeWhile
            fun t : Token => t.kind ≠ .endOfFile,
        t.kind.isInvalid = false := by
  refine ⟨(invalid_not_passed_over _ {}).1 _ _ _ _ _ rfl (by decide), ?_⟩
  obtain ⟨m, hm⟩ := @exists_eq_ok (Module.ofTokens [⟨.symbol .semicolon, ⟨1, 1⟩⟩,
    ⟨.endOfFile, ⟨1, 2⟩⟩, ⟨.invalid "#" .unexpectedCharacter, ⟨1, 3⟩⟩]) (by decide +kernel)
  exact ⟨m, hm, (invalid_not_passed_over _ {}).2 m hm⟩

end Module

end Wgsl
