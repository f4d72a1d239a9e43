import Wgsl.Proofs.Indexed.Session
import Wgsl.Proofs.Reach

/-!
# Reading by index ends

The measure of a mark is three for each token from its index to the first end of the file, less the
characters that have been split off the token there (`Mark.measure`). It is the measure of a cursor,
namely of the one that stands where the mark does (`Mark.cursor`), so what reading does to the
measure of a cursor it does to that of a mark: a nonterminal that is never empty lowers it, and none
raises it. Where a nonterminal was only tried and is refused, its steps do lower the mark's measure,
and then the mark is put back, residual and all (`Mark.Progresses`).

So no configuration is the first of an endless run. That is not said of the definitions, which end
by the kernel's leave, but of the steps of the machine: the relation of a configuration to the next
one is accessible from the start (`IndexedReader.reading_ends`).
-/

namespace Wgsl

open StateTransition

/-! ## What has been split off -/

/-- What is shorter at the end of a symbol that splits is what one or two splits leave. -/
theorem Symbol.afterAngle?_of_suffix {mark left : Symbol}
    (hmark : mark ∈ [.shiftRight, .greaterThanEqual, .shiftRightEqual])
    (hsuffix : left.lexeme.toList <:+ mark.lexeme.toList)
    (hlt : left.lexeme.toList.length < mark.lexeme.toList.length) :
    (mark.afterAngle? = some left ∧
      mark.lexeme.toList.length = left.lexeme.toList.length + 1) ∨
    ∃ between, mark.afterAngle? = some between ∧ between.afterAngle? = some left ∧
      mark.lexeme.toList.length = left.lexeme.toList.length + 2 := by
  simp only [List.mem_cons, List.not_mem_nil, or_false] at hmark
  rcases hmark with rfl | rfl | rfl
  · revert hsuffix hlt
    cases left <;> decide
  · revert hsuffix hlt
    cases left <;> decide
  · by_cases h : left = .equal
    · subst h
      exact .inr ⟨.greaterThanEqual, rfl, rfl, rfl⟩
    · left
      revert hsuffix hlt h
      cases left <;> decide

namespace Token

variable {t rest : Token}

/-- An angle is one character of a token's text. -/
theorem length_text_of_afterAngle? (h : t.afterAngle? = some rest) :
    rest.text.length + 1 = t.text.length := by
  obtain ⟨mark, left, hmark, hleft, rfl⟩ := afterAngle?_eq_some_iff.1 h
  have hlexeme := congrArg List.length (Symbol.lexeme_of_afterAngle? hleft).1
  simp only [List.length_cons, String.length_toList] at hlexeme
  simp only [text, hmark, TokenKind.text, hlexeme]

/-- What is left of a token is what is left when as many `>` are split off as it is shorter. -/
theorem IsRestOf.eq_afterAngles (h : rest.IsRestOf t) :
    rest = t.afterAngles (t.text.length - rest.text.length) ∧
      t.text.length - rest.text.length ≤ 2 ∧ rest.text.length ≤ t.text.length := by
  obtain ⟨left, hleft⟩ := h.isSymbol
  obtain ⟨mark, hmark, hsplits⟩ : ∃ mark : Symbol, t.kind = .symbol mark ∧
      mark ∈ [.shiftRight, .greaterThanEqual, .shiftRightEqual] := by
    simpa [or_and_right, exists_or, and_comm] using h.splits
  obtain ⟨front, hfront, htext, hlocation⟩ := h.suffix
  have hpos := List.length_pos_iff.2 hfront
  simp only [text, hmark, hleft, TokenKind.text] at htext ⊢
  have hlength := congrArg List.length htext
  simp only [List.length_append] at hlength
  simp only [← String.length_toList]
  have hrest : rest = ⟨.symbol left, t.location.rightBy front.length⟩ := by
    rw [← hleft, ← hlocation]
  rcases Symbol.afterAngle?_of_suffix hsplits ⟨front, htext.symm⟩ (by omega) with
    ⟨hafter, hone⟩ | ⟨between, hafter, hafter', htwo⟩
  · have hsame : front.length = 1 := by omega
    have hsplit : t.afterAngle? = some rest :=
      afterAngle?_eq_some_iff.2 ⟨mark, left, hmark, hafter, hsame ▸ hrest⟩
    rw [hone, Nat.add_sub_cancel_left]
    exact ⟨by simp [afterAngles, hsplit], by omega, by omega⟩
  · have hsame : front.length = 1 + 1 := by omega
    have hsplit := afterAngle?_eq_some_iff.2 ⟨mark, between, hmark, hafter, rfl⟩
    have hsplit' : Token.afterAngle? ⟨.symbol between, t.location.rightBy 1⟩ = some rest :=
      afterAngle?_eq_some_iff.2
        ⟨between, left, rfl, hafter', by rw [hrest, hsame, Location.rightBy_rightBy]⟩
    rw [htwo, Nat.add_sub_cancel_left]
    exact ⟨by simp [afterAngles, hsplit, hsplit'], Nat.le_refl 2, by omega⟩

end Token

namespace Cursor

variable {c : Cursor}

/-- The token to be read is as much shorter than the upcoming one as has been split off. -/
def Counts (c : Cursor) : Prop :=
  ∀ t ts, c.upcoming = t :: ts → c.current.text.length + c.taken = t.text.length

/-- Where nothing has been split off, the token to be read is the upcoming one. -/
theorem counts_of_taken (h : c.taken = 0) : c.Counts := by
  intro t ts hu
  rw [current, hu, h]
  rfl

/-- Advancing leaves nothing split off. -/
theorem Counts.advance (h : c.Counts) : c.advance.Counts := by
  cases hu : c.upcoming with
  | nil => rwa [advance_of_nil hu]
  | cons t ts => exact counts_of_taken (by rw [Cursor.advance, hu])

/-- Splitting takes one character of the token, or nothing. -/
theorem Counts.split (h : c.Counts) : c.split.Counts := by
  cases hrest : c.current.afterAngle? with
  | none => rwa [split_eq hrest]
  | some rest =>
    intro t ts hu
    have htaken : c.split.taken = c.taken + 1 := by
      have hlt := measure_split_lt (c := c) (by simp [hrest])
      rw [Cursor.split] at hlt ⊢
      split at hlt
      · simp_all
      · omega
    rw [upcoming_split] at hu
    rw [current_split hrest, htaken, ← h t ts hu, ← Token.length_text_of_afterAngle? hrest]
    omega

end Cursor

/-! ## The measure of a mark -/

namespace Mark

/-- The number of characters that have been split off the token at the index. -/
def pieces (tokens : List Token) (m : Mark) : Nat :=
  match m.residual, tokens[m.position]? with
  | some rest, some t => t.text.length - rest.text.length
  | _, _ => 0

/-- Three for each token from the index to the first end of the file, less what has been split off
the token there. -/
def measure (tokens : List Token) (m : Mark) : Nat :=
  3 * ((tokens.drop m.position).takeWhile (·.kind ≠ .endOfFile)).length - m.pieces tokens

/-- The cursor that stands where the mark does. -/
def cursor (tokens : List Token) (m : Mark) : Cursor where
  upcoming := (tokens.drop m.position).takeWhile (·.kind ≠ .endOfFile)
  taken := min (m.pieces tokens) 2
  finish := (Cursor.ofTokens (m.remaining tokens)).finish

variable {tokens rest : List Token} {m : Mark} {c : Cursor}

/-- A remainder is one of the token at the index. -/
theorem Valid.drop_of_residual (h : m.Valid tokens) {left : Token}
    (hresidual : m.residual = some left) :
    ∃ t, left.IsRestOf t ∧ tokens.drop m.position = t :: tokens.drop (m.position + 1) ∧
      m.pieces tokens = t.text.length - left.text.length := by
  obtain ⟨t, ht, hleft⟩ := h.residual left hresidual
  obtain ⟨hlt, rfl⟩ := List.getElem?_eq_some_iff.1 ht
  exact ⟨_, hleft, List.drop_eq_getElem_cons hlt, by simp only [pieces, hresidual, ht]⟩

/-- Without a residual nothing is split off. -/
theorem pieces_of_residual (hresidual : m.residual = none) : m.pieces tokens = 0 := by
  simp only [pieces, hresidual]

/-- The cursor of a mark has as much taken as the mark. -/
theorem Valid.taken_cursor (h : m.Valid tokens) : (m.cursor tokens).taken = m.pieces tokens := by
  refine Nat.min_eq_left ?_
  cases hresidual : m.residual with
  | none => simp [pieces_of_residual hresidual]
  | some left =>
    obtain ⟨t, hleft, -, hpieces⟩ := h.drop_of_residual hresidual
    exact hpieces ▸ hleft.eq_afterAngles.2.1

/-- The cursor of a mark has its measure. -/
theorem Valid.measure_cursor (h : m.Valid tokens) :
    (m.cursor tokens).measure = m.measure tokens := by
  rw [Cursor.measure, h.taken_cursor]
  rfl

/-- The cursor of a valid mark sees the tokens that remain. -/
theorem Valid.tokens_cursor (h : m.Valid tokens) :
    (m.cursor tokens).tokens = (Cursor.ofTokens (m.remaining tokens)).tokens := by
  unfold Cursor.tokens
  rw [h.taken_cursor]
  unfold cursor Cursor.ofTokens remaining
  cases hresidual : m.residual with
  | none => simp only [pieces_of_residual hresidual]
  | some left =>
    obtain ⟨t, hleft, hdrop, hpieces⟩ := h.drop_of_residual hresidual
    obtain ⟨hne, hne'⟩ := hleft.ne_endOfFile
    simp only [hdrop, hpieces, List.takeWhile_cons, hne, hne', ne_eq, not_false_eq_true,
      decide_true, if_true, Token.afterAngles]
    exact congrArg (· :: _) hleft.eq_afterAngles.1.symm

/-- The cursor of a mark counts its pieces. -/
theorem Valid.counts_cursor (h : m.Valid tokens) : (m.cursor tokens).Counts := by
  cases hresidual : m.residual with
  | none => exact Cursor.counts_of_taken (h.taken_cursor.trans (pieces_of_residual hresidual))
  | some left =>
    obtain ⟨t, hleft, hdrop, hpieces⟩ := h.drop_of_residual hresidual
    obtain ⟨hrest, -, hle⟩ := hleft.eq_afterAngles
    intro u us hu
    have hcons : u = t := by
      have hupcoming : (m.cursor tokens).upcoming =
          (t :: tokens.drop (m.position + 1)).takeWhile (·.kind ≠ .endOfFile) := by
        rw [← hdrop]
        rfl
      simp only [hu, ne_eq, decide_not, hleft.ne_endOfFile.2, decide_false, Bool.not_false,
        List.takeWhile_cons_of_pos, List.cons.injEq] at hupcoming
      exact hupcoming.1
    rw [Cursor.current, hu, h.taken_cursor, hpieces, hcons]
    simp only [← hrest]
    omega

/-- Before the first end of the file, an index takes as many tokens off those up to there. -/
theorem takeWhile_drop {p : Nat} (h : p ≤ endIndex tokens) :
    (tokens.drop p).takeWhile (·.kind ≠ .endOfFile) =
      (tokens.takeWhile (·.kind ≠ .endOfFile)).drop p := by
  induction tokens generalizing p with
  | nil => simp
  | cons t ts ih =>
    cases p with
    | zero => rfl
    | succ p =>
      by_cases hkind : t.kind = .endOfFile
      · simp [endIndex, List.findIdx_cons, hkind] at h
      · have hle : p ≤ endIndex ts := by simpa [endIndex, List.findIdx_cons, hkind] using h
        simpa [List.takeWhile_cons, hkind] using ih hle

section Closed

variable (hend : endIndex tokens < tokens.length)
include hend

/-- A valid mark stands at its cursor. -/
theorem Valid.at_cursor (h : m.Valid tokens) : ∃ rest, m.At tokens (m.cursor tokens) rest := by
  obtain ⟨rest, hat⟩ := h.at_ofTokens hend
  refine ⟨rest, h, fun t ht => by simpa using List.mem_takeWhile_imp ht, ?_⟩
  rw [h.tokens_cursor]
  exact hat.remaining_eq

omit hend in
/-- Nothing has been split off the end of the file. -/
theorem Valid.residual_eq_none (h : m.Valid tokens) {t : Token} (ht : m.peek? tokens = some t)
    (hkind : t.kind = .endOfFile) : m.residual = none := by
  cases hresidual : m.residual with
  | none => rfl
  | some left =>
    obtain ⟨u, -, hleft⟩ := h.residual left hresidual
    obtain rfl : left = t := by simpa [peek?, hresidual] using ht
    exact absurd hkind hleft.ne_endOfFile.1

/-- Where the file ends at the cursor, it ends at the mark. -/
theorem At.takeWhile_of_nil (h : m.At tokens c rest) (hu : c.upcoming = []) :
    (tokens.drop m.position).takeWhile (·.kind ≠ .endOfFile) = [] := by
  obtain ⟨hpeek, -⟩ := h.peek?_eq hend
  have hlt := h.valid.position_lt hend
  have hkind : c.current.kind = .endOfFile := by rw [Cursor.current, hu]
  have hnone := h.valid.residual_eq_none hpeek hkind
  have hfirst : tokens[m.position] = c.current := by simpa [peek?, hnone, hlt] using hpeek
  rw [List.drop_eq_getElem_cons hlt, List.takeWhile_cons_of_neg (by simp [hfirst, hkind])]

/-- Else the cursor has the tokens before it that follow the one at the index. -/
theorem At.takeWhile_of_cons (h : m.At tokens c rest) {t : Token} {ts : List Token}
    (hu : c.upcoming = t :: ts) :
    ∃ first, tokens[m.position]? = some first ∧
      (tokens.drop m.position).takeWhile (·.kind ≠ .endOfFile) = first :: ts := by
  obtain ⟨hpeek, hdrop⟩ := h.peek?_eq hend
  have hlt := h.valid.position_lt hend
  have hkind : c.current.kind ≠ .endOfFile := fun hkind => by
    simp [h.lacks.upcoming_eq_nil hkind] at hu
  have hne : tokens[m.position].kind ≠ .endOfFile := by
    simpa using List.not_of_lt_findIdx (h.valid.position_lt_endIndex hend hpeek hkind)
  have hadvance : c.advance.tokens = ts := by
    have hcons := Cursor.tokens_eq_cons hkind
    rw [Cursor.tokens, hu] at hcons
    exact (List.cons.inj hcons).2.symm
  have hall : ∀ u ∈ ts, u.kind ≠ .endOfFile := fun u hu' =>
    h.lacks u (hu ▸ List.mem_cons_of_mem t hu')
  refine ⟨_, List.getElem?_eq_getElem hlt, ?_⟩
  rw [List.drop_eq_getElem_cons hlt, hdrop hkind, hadvance,
    List.takeWhile_cons_of_pos (by simpa using hne),
    List.takeWhile_append_of_pos (by simpa using hall), List.takeWhile_cons_of_neg (by simp),
    List.append_nil]

/-- A cursor that stands where the mark does has the measure of the mark, if it counts what has been
split off the tokens that the mark has. -/
theorem At.measure_eq (h : m.At tokens c rest) (hcounts : c.Counts)
    (hsuffix : c.upcoming <:+ tokens.takeWhile (·.kind ≠ .endOfFile)) :
    c.measure = m.measure tokens := by
  obtain ⟨hpeek, -⟩ := h.peek?_eq hend
  rw [Cursor.measure, measure]
  cases hu : c.upcoming with
  | nil =>
    rw [h.takeWhile_of_nil hend hu]
    simp
  | cons t ts =>
    obtain ⟨first, hfirst, hwhile⟩ := h.takeWhile_of_cons hend hu
    -- both stand before the end of the file with as many tokens, so the first is the same
    have hsame : t = first := by
      have hmark : first :: ts <:+ tokens.takeWhile (·.kind ≠ .endOfFile) := by
        rw [← hwhile, takeWhile_drop h.valid.position_le]
        exact List.drop_suffix _ _
      rw [hu] at hsuffix
      exact (List.cons.inj ((List.suffix_of_suffix_length_le hsuffix hmark le_rfl).eq_of_length
        rfl)).1
    have htaken : c.taken = m.pieces tokens := by
      have hcount := hcounts t ts hu
      unfold pieces
      cases hresidual : m.residual with
      | none =>
        have hcurrent : first = c.current := by simpa [peek?, hresidual, hfirst] using hpeek
        rw [hsame, hcurrent] at hcount
        simpa using hcount
      | some left =>
        have hleft : left = c.current := by simpa [peek?, hresidual] using hpeek
        simp only [hfirst, ← hsame, hleft]
        omega
    rw [hwhile, htaken, List.length_cons, List.length_cons]

end Closed

/-- What reading a nonterminal from a mark does to the measure. -/
structure Progresses (options : ReadOptions) (tokens : List Token) (m : Mark) (n : Nonterminal) :
    Prop where
  /-- Accepted, it has lowered the measure, unless it may be empty. -/
  accepted : ∀ a d, n.outcome options (m.cursor tokens) = .accepted a d → ∀ stack : Stack n,
    ∃ m' : Mark, m'.Valid tokens ∧
      Reaches (Config.step? options tokens) ⟨Production.ofNonterminal options n, m, stack⟩
        ⟨.done a, m', stack⟩ ∧
      m'.measure tokens ≤ m.measure tokens ∧
      (n.takesToken → m'.measure tokens < m.measure tokens)
  /-- Refused, it has not raised the measure. -/
  rejected : ∀ e d, n.outcome options (m.cursor tokens) = .rejected e d → ∀ stack : Stack n,
    ∃ m' : Mark, m'.Valid tokens ∧
      Reaches (Config.step? options tokens) ⟨Production.ofNonterminal options n, m, stack⟩
        ⟨.fail e, m', stack⟩ ∧
      m'.measure tokens ≤ m.measure tokens
  /-- Only tried and refused, it leaves the very mark from which it was tried. -/
  restores : ∀ e d, n.outcome options (m.cursor tokens) = .rejected e d →
    ∀ {reading : Nonterminal} (next : Option n.Result → Production reading.Result)
      (stack : Stack reading),
      Reaches (Config.step? options tokens) ⟨.attempt n next, m, stack⟩ ⟨next none, m, stack⟩

/-- Where reading comes to, the mark has the measure of the cursor. -/
theorem Valid.measure_of_outcome (hend : endIndex tokens < tokens.length) (h : m.Valid tokens)
    (options : ReadOptions) (n : Nonterminal) {m' : Mark}
    (h' : m'.At tokens (n.outcome options (m.cursor tokens)).cursor rest) :
    (n.outcome options (m.cursor tokens)).cursor.measure = m'.measure tokens := by
  obtain ⟨hcounts, hsuffix⟩ := @Nonterminal.outcome_keeps options
    (fun d => d.Counts ∧ d.upcoming <:+ (m.cursor tokens).upcoming)
    (fun d hd => ⟨hd.1.advance, Cursor.suffix_advance hd.2⟩)
    (fun d hd => ⟨hd.1.split, Cursor.suffix_split hd.2⟩) n _ ⟨h.counts_cursor, List.suffix_rfl⟩
  refine h'.measure_eq hend hcounts (hsuffix.trans ?_)
  unfold Mark.cursor
  rw [takeWhile_drop h.position_le]
  exact List.drop_suffix _ _

/-- Every rule progresses at a valid mark. -/
theorem Valid.progresses (hend : endIndex tokens < tokens.length) (h : m.Valid tokens)
    (options : ReadOptions) (n : Nonterminal) : m.Progresses options tokens n := by
  obtain ⟨rest, hat⟩ := h.at_cursor hend
  have hreads (stack : Stack n) := Config.reaches_of_outcome hend options hat stack
  have hwithin := @Nonterminal.outcome_within options n (m.cursor tokens)
  rw [h.measure_cursor] at hwithin
  refine ⟨fun a d ho stack => ?_, fun e d ho stack => ?_, fun e d ho reading next stack => ?_⟩
  · obtain ⟨m', hat', hreaches⟩ := hreads stack
    have hmeasure := h.measure_of_outcome hend options n hat'
    rw [ho] at hreaches hwithin hmeasure
    rw [Outcome.within_accepted, show d.measure = m'.measure tokens from hmeasure] at hwithin
    refine ⟨m', hat'.valid, hreaches, ?_, fun htakes => by rwa [if_pos htakes] at hwithin⟩
    split at hwithin
    · exact hwithin.le
    · exact hwithin
  · obtain ⟨m', hat', hreaches⟩ := hreads stack
    have hmeasure := h.measure_of_outcome hend options n hat'
    rw [ho] at hreaches hwithin hmeasure
    exact ⟨m', hat'.valid, hreaches, hmeasure ▸ hwithin⟩
  · obtain ⟨m', hat', hreaches⟩ := hreads (.attempt next m stack)
    rw [ho] at hreaches
    exact .head rfl (hreaches.tail rfl)

end Mark

/-- Something was read. -/
def Outcome.isAccepted {α : Type} : Outcome α → Bool
  | .accepted _ _ => true
  | .rejected _ _ => false

/-- What is accepted is a value with a cursor behind it. -/
theorem Outcome.exists_accepted {α : Type} {o : Outcome α} (h : o.isAccepted = true) :
    ∃ a d, o = .accepted a d := by
  cases o with
  | accepted a d => exact ⟨a, d, rfl⟩
  | rejected e d => cases h

/-- What is not accepted is an error. -/
theorem Outcome.exists_rejected {α : Type} {o : Outcome α} (h : o.isAccepted = false) :
    ∃ e d, o = .rejected e d := by
  cases o with
  | accepted a d => cases h
  | rejected e d => exact ⟨e, d, rfl⟩

/-! ## No run is endless -/

namespace Config

variable {options : ReadOptions} {tokens : List Token} {c d : Config}

/-- One configuration is the next after another. -/
def Succeeds (options : ReadOptions) (tokens : List Token) (after before : Config) : Prop :=
  before.step? options tokens = some after

/-- From a configuration that comes to one without a next step, no run is endless. -/
theorem acc_of_reaches (h : Reaches (step? options tokens) c d)
    (hd : d.step? options tokens = none) : Acc (Succeeds options tokens) c := by
  induction h using Relation.ReflTransGen.head_induction_on with
  | refl => exact ⟨d, fun after hstep => by simp [Succeeds, hd] at hstep⟩
  | @head before next hnext _ ih =>
    refine ⟨before, fun after hstep => ?_⟩
    obtain rfl := Option.some.inj (hstep.symm.trans hnext)
    exact ih

end Config

namespace IndexedReader

/-- Reading a module ends and always progresses, whatever the tokens, with or without an end of the
file. No run of the machine is endless, and the one there is comes to the module or the error. All
marks it has on its way are valid, and from every valid mark a type, an expression, a statement, a
declaration or an attribute that is accepted lowers the measure, as does whatever is never empty;
nothing that is accepted or refused raises it; and where something was tried and is refused, the
mark is again what it was. -/
theorem reading_ends (tokens : List Token) (options : ReadOptions) :
    Acc (Config.Succeeds options (withEndOfFile tokens)) (.start options ⟨0, none⟩) ∧
    (∃ i, (ofTokens tokens options).Returns (Module.ofTokens tokens options) i) ∧
    (∀ c, (ofTokens tokens options).Reaches c →
      ∀ mark ∈ c.marks, mark.Valid (withEndOfFile tokens)) ∧
    ∀ mark : Mark, mark.Valid (withEndOfFile tokens) →
      ∀ n, mark.Progresses options (withEndOfFile tokens) n := by
  have hend := endIndex_lt tokens
  have hfollows := follows_ofTokens tokens options
  obtain ⟨rest, hat⟩ := hfollows.at_cursor
  obtain ⟨mark, -, hreturns⟩ := hfollows.returns_next hat
  obtain ⟨c, hreaches, hresult, -⟩ := id hreturns
  exact ⟨Config.acc_of_reaches hreaches (Config.step?_of_result? hresult), ⟨_, hreturns⟩,
    fun d hd => Config.valid_of_reaches hend (Config.valid_start (Mark.valid_start _)) hd,
    fun mark h n => h.progresses hend options n⟩

/-- Behind `const x =` four tokens are left. There the name `a` of `a < b;` is tried as a type and
refused, and the mark is put back; then `a < b` is read as an expression and lowers the measure. At
the end of `alias a = b<c<d>>=`, where both angles are split off the last token, the measure is one.
-/
theorem reading_ends_comparison :
    (∃ m i, (ofTokens comparison).Returns (.ok m) i) ∧
    Mark.Valid (withEndOfFile comparison) ⟨3, none⟩ ∧
    Mark.measure (withEndOfFile comparison) ⟨3, none⟩ = 12 ∧
    (∀ {reading} (next : Option _ → Production reading.Result) (stack : Stack reading),
      StateTransition.Reaches (Config.step? {} (withEndOfFile comparison))
        ⟨.attempt .constructorType next, ⟨3, none⟩, stack⟩ ⟨next none, ⟨3, none⟩, stack⟩) ∧
    (∃ a, ∀ stack, ∃ m', Mark.measure (withEndOfFile comparison) m' < 12 ∧
      StateTransition.Reaches (Config.step? {} (withEndOfFile comparison))
        ⟨Production.ofNonterminal {} (.expression false), ⟨3, none⟩, stack⟩
        ⟨.done a, m', stack⟩) ∧
    Mark.measure (withEndOfFile doublyClosed) ⟨8, some ⟨.symbol .equal, ⟨1, 3⟩⟩⟩ = 1 := by
  obtain ⟨-, ⟨i, hreturns⟩, -, hprogresses⟩ := reading_ends comparison {}
  obtain ⟨m, hm⟩ := Module.exists_eq_ok
    (show (Module.ofTokens comparison).toOption.isSome by decide +kernel)
  have hvalid : Mark.Valid (withEndOfFile comparison) ⟨3, none⟩ := ⟨by decide +kernel, nofun⟩
  have hmeasure : Mark.measure (withEndOfFile comparison) ⟨3, none⟩ = 12 := by decide +kernel
  refine ⟨⟨m, i, hm ▸ hreturns⟩, hvalid, hmeasure, fun next stack => ?_, ?_, by decide +kernel⟩
  · obtain ⟨e, d, ho⟩ : ∃ e d, Nonterminal.constructorType.outcome {}
        (Mark.cursor (withEndOfFile comparison) ⟨3, none⟩) = .rejected e d :=
      Outcome.exists_rejected (by decide +kernel)
    exact (hprogresses _ hvalid .constructorType).restores e d ho next stack
  · obtain ⟨a, d, ho⟩ : ∃ a d, (Nonterminal.expression false).outcome {}
        (Mark.cursor (withEndOfFile comparison) ⟨3, none⟩) = .accepted a d :=
      Outcome.exists_accepted (by decide +kernel)
    refine ⟨a, fun stack => ?_⟩
    obtain ⟨m', -, hreaches, -, hlt⟩ := (hprogresses _ hvalid _).accepted a d ho stack
    exact ⟨m', hmeasure ▸ hlt rfl, hreaches⟩

end IndexedReader

end Wgsl
