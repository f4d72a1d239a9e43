import Wgsl.Proofs.Indexed.Machine

/-!
# Sessions of a reader by index

A reader by index is called again and again, with the same options or others, also behind an error.
What it does is what a list of tokens does. Each call gives what a new reader would give on the
tokens that remain, and takes tokens off their front, or shortens the first (`Consumes`). Behind
every call and between the steps of each the reader is in bounds, and what stands behind the end of
the file is of no account.

Both follow from one relation of a reader by index and a reader with a cursor
(`IndexedReader.Follows`), which every call keeps.
-/

namespace Wgsl

open StateTransition

/-! ## What a call takes -/

/-- The first token is taken off, unless it is the end of the file, or a `>` is split off it. -/
inductive Shortens : List Token → List Token → Prop
  | take {t : Token} (tokens : List Token) (h : t.kind ≠ .endOfFile) : Shortens (t :: tokens) tokens
  | split {t rest : Token} (tokens : List Token) (h : t.afterAngle? = some rest) :
    Shortens (t :: tokens) (rest :: tokens)

/-- Tokens are taken off the front, and the first may be shortened, any number of times. -/
abbrev Consumes : List Token → List Token → Prop := Relation.ReflTransGen Shortens

/-- What is consumed may have anything behind it. -/
theorem Consumes.append {tokens tokens' : List Token} (h : Consumes tokens tokens')
    (back : List Token) : Consumes (tokens ++ back) (tokens' ++ back) := by
  refine h.lift (· ++ back) fun ts us hstep => ?_
  cases hstep with
  | take _ hkind => exact .take _ hkind
  | split _ hrest => exact .split _ hrest

namespace Cursor

variable {c : Cursor}

/-- Advancing consumes one token. -/
theorem Lacks.consumes_advance (h : c.Lacks .endOfFile) : Consumes c.tokens c.advance.tokens := by
  by_cases hkind : c.current.kind = .endOfFile
  · rw [h.advance_eq hkind]
  · rw [tokens_eq_cons hkind]
    exact .single (.take _ hkind)

/-- Splitting consumes an angle, or nothing. -/
theorem consumes_split (c : Cursor) : Consumes c.tokens c.split.tokens := by
  cases hrest : c.current.afterAngle? with
  | none => rw [split_eq hrest]
  | some rest =>
    obtain ⟨htokens, hsplit⟩ := tokens_split hrest
    rw [htokens, hsplit]
    exact .single (.split _ hrest)

end Cursor

/-- Whatever is read, tokens are only taken off the front, and the file ends where it did. -/
theorem Nonterminal.outcome_consumes (options : ReadOptions) (n : Nonterminal) {c : Cursor}
    (h : c.Lacks .endOfFile) :
    Consumes c.tokens (n.outcome options c).cursor.tokens ∧
      (n.outcome options c).cursor.finish = c.finish := by
  refine (n.outcome_keeps (P := fun d => d.Lacks .endOfFile ∧ Consumes c.tokens d.tokens ∧
    d.finish = c.finish) ?_ ?_ ⟨h, .refl, rfl⟩).2
  · rintro d ⟨hlacks, hconsumes, hfinish⟩
    exact ⟨hlacks.advance, hconsumes.trans hlacks.consumes_advance,
      d.finish_advance.trans hfinish⟩
  · rintro d ⟨hlacks, hconsumes, hfinish⟩
    exact ⟨hlacks.split, hconsumes.trans d.consumes_split, d.finish_split.trans hfinish⟩

/-! ## Calls -/

/-- What is asked of a reader. -/
inductive Call
  /-- Read a module. -/
  | next
  /-- Read with other options from now on. -/
  | choose (options : ReadOptions)

/-- The options in force behind calls. -/
def Call.inForce (options : ReadOptions) : List Call → ReadOptions
  | [] => options
  | .next :: calls => inForce options calls
  | .choose chosen :: calls => inForce chosen calls

/-- What a reader answers to calls, one after the other, and where they leave it. -/
def Reader.session (r : Reader) : List Call → List (Except ParseError Module) × Reader
  | [] => ([], r)
  | .next :: calls =>
    let (results, r') := session r.next.2 calls
    (r.next.1 :: results, r')
  | .choose options :: calls => session { r with options } calls

/-- Reading a module leaves the options. -/
theorem Reader.options_next (r : Reader) : r.next.2.options = r.options := by
  unfold next
  split <;> rfl

/-- Reading a module leaves the cursor where its declarations end. -/
theorem Reader.cursor_next (r : Reader) :
    r.next.2.cursor = (Nonterminal.declarations.outcome r.options r.cursor).cursor := by
  unfold next
  split <;> simp_all

/-- Behind a module that was accepted, nothing is upcoming. -/
theorem Reader.upcoming_next {r : Reader} {m : Module} (hlacks : r.cursor.Lacks .endOfFile)
    (h : r.next.1 = .ok m) : r.next.2.cursor.upcoming = [] := by
  rw [cursor_next]
  unfold next at h
  cases ho : Nonterminal.declarations.outcome r.options r.cursor with
  | accepted ds c => exact Nonterminal.upcoming_declarations hlacks ho
  | rejected e c => simp [ho] at h

/-- At the end of the file, a reader stays where it is, and every module is empty. -/
theorem Reader.next_of_finished {r : Reader} (h : r.cursor.upcoming = []) :
    r.next = (.ok [], r) := by
  have hkind : r.cursor.current.kind = .endOfFile := by rw [Cursor.current, h]
  unfold next
  rw [Nonterminal.declarations_of_endOfFile hkind]

/-- A reader at the end reads empty modules. -/
theorem Reader.session_of_finished {r : Reader} (h : r.cursor.upcoming = []) (calls : List Call) :
    ∀ result ∈ (r.session calls).1, result = .ok [] := by
  induction calls generalizing r with
  | nil => simp [session]
  | cons call calls ih =>
    cases call with
    | next =>
      unfold session
      rw [next_of_finished h]
      exact List.forall_mem_cons.2 ⟨rfl, ih h⟩
    | choose options => exact ih h

/-! ## Readers by index -/

/-- A reader that keeps its place by index. -/
structure IndexedReader where
  tokens : List Token
  mark : Mark
  options : ReadOptions

namespace IndexedReader

/-- A reader at the beginning of a sequence of tokens. The end of the file may be missing. -/
def ofTokens (tokens : List Token) (options : ReadOptions := {}) : IndexedReader :=
  ⟨withEndOfFile tokens, ⟨0, none⟩, options⟩

/-- The tokens that remain, the first of them what is left of it. -/
def remaining (i : IndexedReader) : List Token := i.mark.remaining i.tokens

/-- A configuration is reached while the reader reads a module. -/
def Reaches (i : IndexedReader) (c : Config) : Prop :=
  StateTransition.Reaches (Config.step? i.options i.tokens) (.start i.options i.mark) c

/-- Reading a module gives a result, and leaves the reader somewhere. -/
def Returns (i : IndexedReader) (result : Except ParseError Module) (i' : IndexedReader) : Prop :=
  ∃ c, i.Reaches c ∧ c.result? = some result ∧ i' = { i with mark := c.mark }

/-- Calls, one after the other, give results and leave the reader somewhere. -/
inductive Session :
    IndexedReader → List Call → List (Except ParseError Module) → IndexedReader → Prop
  | nil (i : IndexedReader) : Session i [] [] i
  | next {i i' i'' : IndexedReader} {calls : List Call} {result : Except ParseError Module}
    {results : List (Except ParseError Module)} (h : i.Returns result i')
    (rest : Session i' calls results i'') : Session i (.next :: calls) (result :: results) i''
  | choose {i i' : IndexedReader} {calls : List Call} {options : ReadOptions}
    {results : List (Except ParseError Module)}
    (rest : Session { i with options } calls results i') :
    Session i (.choose options :: calls) results i'

/-- Reading a module has one result, and leaves the reader in one place. -/
theorem Returns.unique {i i₁ i₂ : IndexedReader} {result₁ result₂ : Except ParseError Module}
    (h₁ : i.Returns result₁ i₁) (h₂ : i.Returns result₂ i₂) : result₁ = result₂ ∧ i₁ = i₂ := by
  obtain ⟨c₁, hreaches₁, hresult₁, rfl⟩ := h₁
  obtain ⟨c₂, hreaches₂, hresult₂, rfl⟩ := h₂
  have hsame : c₁ = c₂ := by
    rcases reaches_total hreaches₁ hreaches₂ with h | h
    · rcases h.cases_head with h | ⟨d, hstep, -⟩
      · exact h
      · rw [Option.mem_def, Config.step?_of_result? hresult₁] at hstep
        cases hstep
    · rcases h.cases_head with h | ⟨d, hstep, -⟩
      · exact h.symm
      · rw [Option.mem_def, Config.step?_of_result? hresult₂] at hstep
        cases hstep
  subst hsame
  exact ⟨Option.some.inj (hresult₁.symm.trans hresult₂), rfl⟩

/-! ### Beside a reader with a cursor -/

/-- Where a reader by index stands, the other one does, up to the end of the file. -/
structure Follows (i : IndexedReader) (r : Reader) : Prop where
  closed : endIndex i.tokens < i.tokens.length
  at_cursor : ∃ rest, i.mark.At i.tokens r.cursor rest
  options_eq : i.options = r.options

variable {i i' : IndexedReader} {r : Reader}

/-- At first, the readers stand at the first of the same tokens. -/
theorem follows_ofTokens (tokens : List Token) (options : ReadOptions) :
    (ofTokens tokens options).Follows (Reader.ofTokens tokens options) := by
  refine ⟨endIndex_lt tokens, ?_, rfl⟩
  obtain ⟨rest, hrest⟩ := (Mark.valid_start _).at_ofTokens (endIndex_lt tokens)
  refine ⟨rest, ?_⟩
  rw [show Mark.remaining (withEndOfFile tokens) ⟨0, none⟩ = withEndOfFile tokens from rfl,
    Cursor.ofTokens_withEndOfFile] at hrest
  exact hrest

/-- Every reader by index stands where a new one on the tokens that remain does. -/
theorem Follows.ofTokens_remaining (h : i.Follows r) :
    i.Follows (Reader.ofTokens i.remaining i.options) := by
  obtain ⟨rest, hat⟩ := h.at_cursor
  exact ⟨h.closed, hat.valid.at_ofTokens h.closed, rfl⟩

/-- A module read by index is the one read from the cursor, and the readers stay together. -/
theorem Follows.returns_next {rest : List Token} (h : i.Follows r)
    (hat : i.mark.At i.tokens r.cursor rest) :
    ∃ mark, mark.At i.tokens r.next.2.cursor rest ∧ i.Returns r.next.1 { i with mark } := by
  obtain ⟨mark, hmark, hreaches⟩ :=
    Config.reaches_of_outcome h.closed r.options hat .bottom
  rw [← h.options_eq] at hreaches
  unfold Reader.next
  rw [← h.options_eq] at hmark ⊢
  cases ho : Nonterminal.declarations.outcome i.options r.cursor with
  | accepted ds c =>
    rw [ho] at hmark hreaches
    exact ⟨mark, hmark, _, hreaches, rfl, rfl⟩
  | rejected e c =>
    rw [ho] at hmark hreaches
    exact ⟨mark, hmark, _, hreaches, rfl, rfl⟩

/-- Readers that stand at one place return the same and stand at one place again. -/
theorem Follows.next {result : Except ParseError Module} (h : i.Follows r)
    (hreturns : i.Returns result i') : result = r.next.1 ∧ i'.Follows r.next.2 := by
  obtain ⟨rest, hat⟩ := h.at_cursor
  obtain ⟨mark, hmark, hnext⟩ := h.returns_next hat
  obtain ⟨rfl, rfl⟩ := hreturns.unique hnext
  refine ⟨rfl, h.closed, ⟨rest, hmark⟩, ?_⟩
  rw [Reader.options_next]
  exact h.options_eq

/-- Calls by index are answered as they are from the cursor. -/
theorem Session.follows {calls : List Call} {results : List (Except ParseError Module)}
    (hsession : Session i calls results i') (h : i.Follows r) :
    results = (r.session calls).1 ∧ i'.Follows (r.session calls).2 := by
  induction hsession generalizing r with
  | nil i => exact ⟨rfl, h⟩
  | next hreturns rest ih =>
    obtain ⟨rfl, hfollows⟩ := h.next hreturns
    obtain ⟨rfl, hfollows'⟩ := ih hfollows
    exact ⟨rfl, hfollows'⟩
  | choose rest ih => exact ih ⟨h.closed, h.at_cursor, rfl⟩

/-- All calls are answered. -/
theorem Follows.exists_session (h : i.Follows r) (calls : List Call) :
    ∃ results i', Session i calls results i' := by
  induction calls generalizing i r with
  | nil => exact ⟨[], i, .nil i⟩
  | cons call calls ih =>
    cases call with
    | next =>
      obtain ⟨rest, hat⟩ := h.at_cursor
      obtain ⟨mark, -, hreturns⟩ := h.returns_next hat
      obtain ⟨results, i', hsession⟩ := ih (h.next hreturns).2
      exact ⟨_, i', .next hreturns hsession⟩
    | choose options =>
      have hchosen : Follows { i with options } { r with options } := ⟨h.closed, h.at_cursor, rfl⟩
      obtain ⟨results, i', hsession⟩ := ih hchosen
      exact ⟨results, i', .choose hsession⟩

/-- A session leaves the tokens. -/
theorem Session.tokens_eq {calls : List Call} {results : List (Except ParseError Module)}
    (h : Session i calls results i') : i'.tokens = i.tokens := by
  induction h with
  | nil i => rfl
  | next hreturns rest ih =>
    obtain ⟨c, -, -, rfl⟩ := hreturns
    exact ih
  | choose rest ih => exact ih

/-- A session leaves the options that were set last. -/
theorem Session.options_eq {calls : List Call} {results : List (Except ParseError Module)}
    (h : Session i calls results i') : i'.options = Call.inForce i.options calls := by
  induction h with
  | nil i => rfl
  | next hreturns rest ih =>
    obtain ⟨c, -, -, rfl⟩ := hreturns
    exact ih
  | choose rest ih => exact ih

/-! ### Behind a call -/

/-- What a reading consumes is gone from what remains. -/
theorem Follows.consumes {result : Except ParseError Module} (h : i.Follows r)
    (hreturns : i.Returns result i') : Consumes i.remaining i'.remaining := by
  obtain ⟨rest, hat⟩ := h.at_cursor
  obtain ⟨mark, hmark, hnext⟩ := h.returns_next hat
  obtain ⟨rfl, rfl⟩ := hreturns.unique hnext
  obtain ⟨hconsumes, hfinish⟩ :=
    Nonterminal.outcome_consumes r.options .declarations hat.lacks
  rw [← Reader.cursor_next] at hconsumes hfinish
  unfold remaining
  rw [hat.remaining_eq, hmark.remaining_eq, hfinish]
  exact hconsumes.append _

/-- Behind a module that was accepted stands the end of the file. -/
theorem Follows.finished {m : Module} (h : i.Follows r) (hreturns : i.Returns (.ok m) i') :
    r.next.2.cursor.upcoming = [] ∧ ∃ e rest, i'.remaining = e :: rest ∧ e.kind = .endOfFile := by
  obtain ⟨rest, hat⟩ := h.at_cursor
  obtain ⟨mark, hmark, hnext⟩ := h.returns_next hat
  obtain ⟨hok, rfl⟩ := hreturns.unique hnext
  have hnil : r.next.2.cursor.upcoming = [] := Reader.upcoming_next hat.lacks hok.symm
  refine ⟨hnil, ⟨.endOfFile, r.next.2.cursor.finish⟩, rest, ?_, rfl⟩
  unfold remaining
  rw [hmark.remaining_eq, Cursor.tokens_eq_nil.2 hnil, List.nil_append]

/-- What a reader by index does is what a list of tokens does. However often it has been called,
with whatever options, the next call has one result, the one of a new reader on the tokens that
remain, and only consumes from their front; behind a module that is accepted the end of the file
remains, and every further module is empty. -/
theorem session_refines (tokens : List Token) (options : ReadOptions) (calls : List Call) :
    (∃ results i, Session (ofTokens tokens options) calls results i) ∧
    ∀ results i, Session (ofTokens tokens options) calls results i →
      results = ((Reader.ofTokens tokens options).session calls).1 ∧
      i.options = Call.inForce options calls ∧
      ∃ result i', i.Returns result i' ∧
        (∀ result' i'', i.Returns result' i'' → result' = result ∧ i'' = i') ∧
        result = Module.ofTokens i.remaining i.options ∧
        Consumes i.remaining i'.remaining ∧
        ∀ m, result = .ok m →
          (∃ e rest, i'.remaining = e :: rest ∧ e.kind = .endOfFile) ∧
          ∀ calls' results' i'', Session i' calls' results' i'' →
            ∀ result' ∈ results', result' = .ok [] := by
  have hstart := follows_ofTokens tokens options
  refine ⟨hstart.exists_session calls, fun results i hsession => ?_⟩
  obtain ⟨hresults, hfollows⟩ := hsession.follows hstart
  refine ⟨hresults, hsession.options_eq, ?_⟩
  -- from here on, the reader with a cursor is a new one on the tokens that remain
  have hnew := hfollows.ofTokens_remaining
  obtain ⟨rest, hat⟩ := hnew.at_cursor
  obtain ⟨mark, -, hreturns⟩ := hnew.returns_next hat
  refine ⟨_, { i with mark }, hreturns, fun _ _ h => h.unique hreturns, rfl,
    hnew.consumes hreturns, fun m hm => ?_⟩
  rw [hm] at hreturns
  obtain ⟨hnil, hremaining⟩ := hnew.finished hreturns
  refine ⟨hremaining, fun calls' results' i'' hsession' => ?_⟩
  obtain ⟨rfl, -⟩ := hsession'.follows (hnew.next hreturns).2
  exact Reader.session_of_finished hnil calls'

/-- The tokens of `const x = a < b;`, where the name `a` is first tried as a type. -/
def comparison : List Token :=
  [.keyword .const, .identifier "x", .symbol .equal, .identifier "a", .symbol .lessThan,
    .identifier "b", .symbol .semicolon].map (⟨·, .start⟩)

/-- The tokens of `alias a = b<c<d>>=`, where both angles are split off the last. -/
def doublyClosed : List Token :=
  [.keyword .alias, .identifier "a", .symbol .equal, .identifier "b", .symbol .lessThan,
    .identifier "c", .symbol .lessThan, .identifier "d", .symbol .shiftRightEqual].map (⟨·, .start⟩)

/-- Read with other options than the reader began with, `const x = a < b;` is the module that a new
reader finds, and behind it the end of the file is left. Behind `b<c<d` the `=` of `>>=` is left,
and the next call is answered as by a new reader that begins with it. -/
theorem session_refines_comparison :
    (∃ results i m i' e rest,
      Session (ofTokens comparison) [.choose ⟨true⟩] results i ∧ i.Returns (.ok m) i' ∧
      Module.ofTokens i.remaining ⟨true⟩ = .ok m ∧ Consumes i.remaining i'.remaining ∧
      i'.remaining = e :: rest ∧ e.kind = .endOfFile) ∧
    ∃ results i behind result i',
      Session (ofTokens doublyClosed) [.next] results i ∧
      results.map (·.toOption.isSome) = [false] ∧
      i.remaining = ⟨.symbol .equal, ⟨1, 3⟩⟩ :: behind ∧ i.Returns result i' ∧
      result = Module.ofTokens i.remaining ∧ Consumes i.remaining i'.remaining := by
  constructor
  · obtain ⟨⟨results, i, hsession⟩, hall⟩ := session_refines comparison {} [.choose ⟨true⟩]
    obtain ⟨-, hoptions, result, i', hreturns, -, hresult, hconsumes, hend⟩ :=
      hall results i hsession
    have hremaining : i.remaining = withEndOfFile comparison := by
      cases hsession with
      | choose rest =>
        cases rest
        rfl
    obtain ⟨m, hm⟩ := Module.exists_eq_ok
      (show (Module.ofTokens (withEndOfFile comparison) ⟨true⟩).toOption.isSome by decide +kernel)
    rw [hoptions, hremaining] at hresult
    obtain rfl := hresult.trans hm
    obtain ⟨⟨e, rest, htokens, he⟩, -⟩ := hend m rfl
    exact ⟨results, i, m, i', e, rest, hsession, hreturns, hremaining ▸ hm, hconsumes, htokens, he⟩
  · obtain ⟨⟨results, i, hsession⟩, hall⟩ := session_refines doublyClosed {} [.next]
    obtain ⟨hresults, hoptions, result, i', hreturns, -, hresult, hconsumes, -⟩ :=
      hall results i hsession
    obtain ⟨-, hfollows⟩ := hsession.follows (follows_ofTokens doublyClosed {})
    obtain ⟨rest, hat⟩ := hfollows.at_cursor
    obtain ⟨t, ht, hremaining⟩ := hat.valid.remaining_eq hfollows.closed
    have hsame := ht.symm.trans (hat.peek?_eq hfollows.closed).1
    have hleft : t = ⟨.symbol .equal, ⟨1, 3⟩⟩ := (Option.some.inj hsame).trans (by decide +kernel)
    rw [hoptions] at hresult
    refine ⟨results, i, _, result, i', hsession, ?_, hleft ▸ hremaining, hreturns, hresult,
      hconsumes⟩
    rw [hresults]
    decide +kernel

/-- Along every session a reader by index stays in bounds. The end of the file is among its tokens,
and no mark is behind the first of them: not the one where a call has left the reader, and between
the steps of the next call neither the one where it stands nor those to return to. What is left of a
token is a proper part of one that splits. So every look is in bounds, and no step is stuck; and
what stands behind an end of the file changes no result. -/
theorem session_valid (tokens : List Token) (options : ReadOptions) (calls : List Call)
    (results : List (Except ParseError Module)) (i : IndexedReader)
    (hsession : Session (ofTokens tokens options) calls results i) :
    results = ((Reader.ofTokens tokens options).session calls).1 ∧
    i.tokens = withEndOfFile tokens ∧
    (∃ e, i.tokens[endIndex i.tokens]? = some e ∧ e.kind = .endOfFile) ∧
    i.mark.Valid i.tokens ∧
    (∀ c, i.Reaches c →
      (∀ mark ∈ c.marks, mark.Valid i.tokens ∧
        (mark.peek? i.tokens).isSome ∧ ∀ n, (mark.peekAhead? i.tokens n).isSome) ∧
      (c.result?.isSome ∨ (c.step? i.options i.tokens).isSome)) ∧
    ∀ front e back back', tokens = front ++ e :: back → e.kind = .endOfFile →
      ∃ i', Session (ofTokens (front ++ e :: back') options) calls results i' := by
  have hstart := follows_ofTokens tokens options
  obtain ⟨hresults, hfollows⟩ := hsession.follows hstart
  obtain ⟨rest, hat⟩ := hfollows.at_cursor
  refine ⟨hresults, hsession.tokens_eq, getElem?_endIndex hfollows.closed, hat.valid,
    fun c hc => ?_, ?_⟩
  · have hvalid : c.Valid i.tokens :=
      Config.valid_of_reaches hfollows.closed (Config.valid_start hat.valid) hc
    exact ⟨fun mark hmark => ⟨hvalid mark hmark, (hvalid mark hmark).looks hfollows.closed⟩,
      hvalid.proceeds hfollows.closed⟩
  · rintro front e back back' rfl he
    obtain ⟨results', i', hsession'⟩ :=
      (follows_ofTokens (front ++ e :: back') options).exists_session calls
    obtain ⟨hresults', -⟩ := hsession'.follows (follows_ofTokens _ options)
    have hsame : Reader.ofTokens (front ++ e :: back') options =
        Reader.ofTokens (front ++ e :: back) options := by
      unfold Reader.ofTokens
      rw [Cursor.ofTokens_congr he front back back']
    rw [hsame, ← hresults] at hresults'
    exact ⟨i', hresults' ▸ hsession'⟩

/-- The `=` that is left of `>>=` is refused and stays where it is; the invalid token behind the end
of the file is not met. -/
theorem session_valid_doublyClosed :
    ∃ results i i',
      Session (ofTokens (doublyClosed ++ ⟨.endOfFile, .start⟩ ::
        [⟨.invalid "#" .unexpectedCharacter, .start⟩])) [.next] results i ∧
      i.mark.peek? i.tokens = some ⟨.symbol .equal, ⟨1, 3⟩⟩ ∧ i.mark.Valid i.tokens ∧
      Session (ofTokens (doublyClosed ++ [⟨.endOfFile, .start⟩])) [.next] results i' := by
  have hstart := follows_ofTokens (doublyClosed ++ ⟨.endOfFile, .start⟩ ::
    [⟨.invalid "#" .unexpectedCharacter, .start⟩]) {}
  obtain ⟨results, i, hsession⟩ := hstart.exists_session [.next]
  obtain ⟨-, hfollows⟩ := hsession.follows hstart
  obtain ⟨rest, hat⟩ := hfollows.at_cursor
  obtain ⟨-, -, -, hvalid, -, hbehind⟩ := session_valid _ {} [.next] results i hsession
  obtain ⟨i', hsession'⟩ := hbehind doublyClosed _ _ [] rfl rfl
  refine ⟨results, i, i', hsession, ?_, hvalid, hsession'⟩
  rw [(hat.peek?_eq hfollows.closed).1]
  decide +kernel

end IndexedReader

end Wgsl
