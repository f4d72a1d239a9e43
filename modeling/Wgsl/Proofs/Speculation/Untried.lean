import Mathlib.Data.List.Chain
import Wgsl.Proofs.Speculation.Crossing

/-!
# Reading without trying

`Rule.untried` is a rule that tries nothing: what the rule would try is taken to be refused. The
rules of the grammar become those of a reader that never goes back, for which a name before a `<` is
always a name alone (`Nonterminal.untriedOutcome_primary`).

The two readers differ only where a type is accepted that is tried. Such a type ends with the `>`
that closes its parameters, and a `(` follows. If that `>` is split off a token, what is left of the
token follows; so it is a whole `>`, or the last one of a `>>`. Where no such token stands directly
before a `(`, everything tried is refused, and reading comes to the same with or without trying
(`Module.ofTokens_eq_ofTokensUntried`): the same tree or the same error, at the same locations.
Nothing of what was tried is left, since a refusal goes on from the cursor where it was tried.
-/

namespace Wgsl

open scoped Rule.Steps

/-! ## Rules that try nothing -/

namespace Rule

variable {N : Type} {R : N → Type} {α : Type}

/-- The rule if all that it tries is refused. -/
def untried : Rule R α → Rule R α
  | .done a => .done a
  | .fail e => .fail e
  | .look k => .look fun t => (k t).untried
  | .lookBehind k => .lookBehind fun kind => (k kind).untried
  | .advance k => .advance k.untried
  | .split k => .split k.untried
  | .read n k => .read n fun a => (k a).untried
  | .attempt _ k => (k none).untried

/-- What holds whatever is tried holds where nothing is, if everything can be refused. -/
theorem Holds.untried {pre : N → Cursor → Prop}
    {post : (n : N) → Cursor → Outcome (R n) → Prop}
    (hpost : ∀ n c, ∃ e d, post n c (.rejected e d)) {r : Rule R α} {c : Cursor}
    {Q : Outcome α → Prop} (h : r.Holds pre post c Q) : r.untried.Holds pre post c Q := by
  induction r generalizing c with
  | done | fail => exact h
  | look k ih => exact ih _ h
  | lookBehind k ih => exact ih _ h
  | advance k ih => exact ih h
  | split k ih => exact ih h
  | read n k ih => exact ⟨h.1, fun a d ho => ih a (h.2.1 a d ho), h.2.2⟩
  | attempt n k ih =>
    obtain ⟨e, d, hrejected⟩ := hpost n c
    exact ih none (h.2.2 e d hrejected)

end Rule

/-- The grammar of modules for a reader that tries nothing. -/
def untriedGrammar (options : ReadOptions) : Grammar Nonterminal.Result :=
  fun n => (Production.ofNonterminal options n).untried

/-- Without trying, every nonterminal comes to something. -/
theorem untriedGrammar_parse (options : ReadOptions) (n : Nonterminal) (c : Cursor) :
    ∃ o, (untriedGrammar options).parse (n.weight c + 1) n c = some o ∧
      o.Within n.takesToken c.measure :=
  Grammar.parse_of_decreasing
    (fun n c => (Production.progresses options n c).untried
      fun _ c => ⟨default, c, Nat.le_refl _⟩) (Nat.lt_succ_self _)

namespace Nonterminal

variable {options : ReadOptions}

/-- What a nonterminal comes to from a cursor for a reader that tries nothing. -/
def untriedOutcome (options : ReadOptions) (n : Nonterminal) (c : Cursor) : Outcome n.Result :=
  ((untriedGrammar options).parse (n.weight c + 1) n c).get
    (by obtain ⟨o, h, _⟩ := untriedGrammar_parse options n c; simp [h])

/-- For a reader that tries nothing, a nonterminal comes to what its rule does. -/
theorem untriedOutcome_eq (n : Nonterminal) (c : Cursor) :
    n.untriedOutcome options c =
      (Production.ofNonterminal options n).untried.follow
        (fun n c => n.untriedOutcome options c) c := by
  have hparse : ∀ n c, (untriedGrammar options).parse (n.weight c + 1) n c =
      some (n.untriedOutcome options c) := by simp [untriedOutcome]
  refine (Rule.follow_of_run (p := (untriedGrammar options).parse (n.weight c)) (hparse n c)
    fun n' c' o h => ?_).symm
  have deeper := Grammar.parse_mono (Nat.le_max_left (n.weight c) (n'.weight c' + 1)) h
  rw [Grammar.parse_mono (Nat.le_max_right _ _) (hparse n' c')] at deeper
  exact Option.some.inj deeper

/-- For a reader that tries nothing, a name before a `<` is a name alone. -/
theorem untriedOutcome_primary {c : Cursor} {name : String}
    (hname : c.current.kind = .identifier name) (hless : c.following = .symbol .lessThan) :
    Nonterminal.primary.untriedOutcome options c =
      .accepted (.identifier name c.current.location) c.advance := by
  rw [untriedOutcome_eq]
  simp [Production.primary, Rule.untried, Rule.follow, hname, hless]

end Nonterminal

namespace Module

/-- The module that tokens spell for a reader that tries nothing. -/
def ofTokensUntried (tokens : List Token) (options : ReadOptions := {}) :
    Except ParseError Module :=
  match Nonterminal.declarations.untriedOutcome options (.ofTokens tokens) with
  | .accepted declarations _ => .ok declarations
  | .rejected error _ => .error error

end Module

/-! ## What is tried is refused -/

/-- The token is made of closing angles alone. -/
def TokenKind.isAngles : TokenKind → Bool
  | .symbol .greaterThan | .symbol .shiftRight => true
  | _ => false

/-- No `>` and no `>>` stands directly before a `(`. -/
def AnglesApart (tokens : List Token) : Prop :=
  tokens.IsChain fun t u => t.kind.isAngles → u.kind ≠ .symbol .parenLeft

instance (tokens : List Token) : Decidable (AnglesApart tokens) :=
  inferInstanceAs (Decidable (tokens.IsChain _))

namespace Cursor

variable {c : Cursor}

/-- Angles stay apart when the cursor advances. -/
theorem anglesApart_advance (h : AnglesApart c.upcoming) : AnglesApart c.advance.upcoming := by
  rw [upcoming_advance]
  exact h.tail

/-- Angles stay apart when a token is split. -/
theorem anglesApart_split (h : AnglesApart c.upcoming) : AnglesApart c.split.upcoming := by
  rwa [upcoming_split]

/-- Behind a `>`, be it what is left of a `>>`, stands no `(`. -/
theorem current_advance_of_greaterThan (h : AnglesApart c.upcoming)
    (hc : c.current.kind = .symbol .greaterThan) :
    c.advance.current.kind ≠ .symbol .parenLeft := by
  obtain ⟨t, rest, hu, hcurrent⟩ := exists_upcoming_eq_cons (c := c) (by simp [hc])
  have hangles : t.kind.isAngles := by
    have hsame := t.afterAngles_kind_congr TokenKind.isAngles
      (fun mark left h => by cases mark <;> cases h <;> rfl) c.taken
    rw [← hsame, ← hcurrent, hc]
    rfl
  rw [advance, hu]
  cases rest with
  | nil => simp [current]
  | cons u rest =>
    rw [AnglesApart, hu] at h
    exact (List.isChain_cons_cons.1 h).1 hangles

end Cursor

namespace Production

open Rule

/-- Where the parameters of a type end, no `(` stands. -/
theorem holds_closeParameters_of_anglesApart {pre : Nonterminal → Cursor → Prop}
    {post : (n : Nonterminal) → Cursor → Outcome n.Result → Prop} {c : Cursor} {name : String}
    {Q : Outcome Unit → Prop} (hc : AnglesApart c.upcoming)
    (accepted : ∀ d, d.current.kind ≠ .symbol .parenLeft → Q (.accepted () d))
    (rejected : ∀ e d, Q (.rejected e d)) : (closeParameters name).Holds pre post c Q := by
  have closes : ∀ d : Cursor, AnglesApart d.upcoming →
      (closeAngle (.closingAngle name) : Production Unit).Holds pre post d Q := by
    intro d hd
    rw [holds_closeAngle]
    refine ⟨fun hmark => accepted _ (Cursor.current_advance_of_greaterThan hd hmark),
      fun hmore => ?_, fun _ _ => rejected _ _⟩
    obtain ⟨u, hu⟩ := Option.isSome_iff_exists.1 hmore
    obtain ⟨mark, left, -, hleft, rfl⟩ := Token.afterAngle?_eq_some_iff.1 hu
    refine accepted _ ?_
    rw [Cursor.current_split hu]
    cases mark <;> cases hleft <;> exact nofun
  simp only [closeParameters, bind_eq, holds_bind, holds_accept]
  exact ⟨fun _ => closes _ (Cursor.anglesApart_advance hc), fun _ => closes _ hc⟩

end Production

namespace Nonterminal

/-- Behind the parameters of a type stands no `(`. -/
@[simp] def EndsApart : (n : Nonterminal) → Outcome n.Result → Prop
  | .typeParameters _, o => o.IfAccepted fun _ d => d.current.kind ≠ .symbol .parenLeft
  | _, _ => True

end Nonterminal

open Nonterminal in
/-- Where angles stand apart, no `(` follows the parameters of a type. -/
theorem Production.shows_endsApart (options : ReadOptions) (n : Nonterminal) :
    n.Shows options (fun c => AnglesApart c.upcoming) fun n _ o => n.EndsApart o := by
  intro c hc
  cases n with
  | typeParameters name =>
    have hpast : ∀ d : Cursor, AnglesApart d.upcoming → AnglesApart d.advance.advance.upcoming :=
      fun _ h => Cursor.anglesApart_advance (Cursor.anglesApart_advance h)
    simp +contextual [typeParameters, hc, hpast, Cursor.anglesApart_advance,
      holds_closeParameters_of_anglesApart]
  | _ => exact Rule.Holds.trivial _ c

namespace Nonterminal

variable {options : ReadOptions} {c : Cursor}

/-- Where closing angles stand apart from parentheses, a type that is tried at a name before a `<`
is refused. -/
theorem constructorType_rejected (hc : AnglesApart c.upcoming) {name : String}
    (hname : c.current.kind = .identifier name) (hless : c.following = .symbol .lessThan) :
    ∃ e d, Nonterminal.constructorType.outcome options c = .rejected e d := by
  cases ho : Nonterminal.constructorType.outcome options c with
  | rejected e d => exact ⟨e, d, rfl⟩
  | accepted made d =>
    obtain ⟨⟨parameters, hparameters, -⟩, hparen⟩ :=
      (constructorType_eq_accepted_of_less hname (by rw [← Cursor.following_eq, hless])).1 ho
    have hpast := Cursor.anglesApart_advance (Cursor.anglesApart_advance hc)
    have hends := (outcome_of_shows (P := fun c => AnglesApart c.upcoming)
      (fun _ => Cursor.anglesApart_advance) (fun _ => Cursor.anglesApart_split)
      (Production.shows_endsApart options) (.typeParameters name) hpast).2
    exact absurd hparen (hends _ _ hparameters)

/-- Reading comes to the same with or without trying. -/
def TriesInVain (options : ReadOptions) (ts : List Token) (n : Nonterminal) (c : Cursor) : Prop :=
  c.upcoming <:+ ts → c.Fresh ts → n.outcome options c = n.untriedOutcome options c

end Nonterminal

namespace Rule

variable {options : ReadOptions} {ts : List Token} {n : Nonterminal} {s : Stand} {c : Cursor}
variable {α : Type} {r : Production α}

/-- A rule tries in vain if the nonterminals it reads do. -/
theorem Names.triesInVain (hts : AnglesApart ts) (hr : r.Names options n s)
    (ha : r.Along (fun n c => n.outcome options c) (Nonterminal.TriesInVain options ts) c)
    (hs : s.Holds options ts c) (hc : c.upcoming <:+ ts) :
    r.comesTo options c = r.untried.follow (fun n c => n.untriedOutcome options c) c := by
  induction r generalizing s c with
  | done | fail => rfl
  | look k ih => exact ih c.current (hr _ hs.admits) ha hs.look hc
  | lookBehind k ih => exact ih c.following (hr.2.2 _) ha hs.lookBehind hc
  | advance k ih =>
    obtain ⟨t, ht, hend, -, -, hk⟩ := hr
    exact ih hk ha (hs.advance ht hend hc) (Cursor.suffix_advance hc)
  | split k ih => exact ih hr.2 ha (hs.split hr.1) (Cursor.suffix_split hc)
  | read m k ih =>
    have hfresh := hs.fresh.1 hr.1
    have hm := ha.1 hc hfresh
    have hsuffix := m.outcome_suffix options hc
    rw [untried, follow, ← hm]
    cases ho : m.outcome options c with
    | accepted a d =>
      rw [ho] at hsuffix
      rw [Production.comesTo_read_of_accepted ho]
      exact ih a (hr.2 a).2 (ha.2 a d ho)
        (.ofFresh (m.endsFresh options ts c hc hfresh a d ho)) hsuffix
    | rejected e d => rw [Production.comesTo_read_of_rejected ho]
  | attempt m k ih =>
    obtain ⟨⟨t, ht, hname⟩, -, hbehind, rfl, -, hnone⟩ := hr
    obtain ⟨name, hname⟩ := TokenKind.isName_iff.1 hname
    -- the rule has looked: a name stands here, and a `<` behind it
    have hkind : c.current.kind = .identifier name :=
      (congrArg Token.kind (hs.seen t ht)).trans hname
    obtain ⟨e, d, ho⟩ : ∃ e d, Nonterminal.constructorType.outcome options c = .rejected e d :=
      Nonterminal.constructorType_rejected (hts.suffix hc) hkind (hs.behind _ hbehind)
    rw [Production.comesTo_attempt_of_rejected ho]
    exact ih none hnone (ha.2.2 e d ho) (hs.refuse ho) hc

end Rule

/-- Where angles stand apart, every nonterminal comes to the same with or without trying. -/
theorem Nonterminal.triesInVain {options : ReadOptions} {ts : List Token} (hts : AnglesApart ts)
    (n : Nonterminal) (c : Cursor) : n.TriesInVain options ts c :=
  outcome_induction options (fun n c ha hc hfresh => by
    rw [outcome_eq, untriedOutcome_eq]
    exact (Production.names options n).triesInVain hts ha (.ofFresh hfresh) hc) n c

namespace Module

/-- Trying types disturbs no comparison. Where no `>` and no `>>` stands directly before a `(`, the
tokens come to the same module, or are refused with the same error, for a reader that tries
nothing. -/
theorem ofTokens_eq_ofTokensUntried {tokens : List Token} (h : AnglesApart tokens)
    (options : ReadOptions) :
    Module.ofTokens tokens options = Module.ofTokensUntried tokens options := by
  have hts : AnglesApart (Cursor.ofTokens tokens).upcoming :=
    h.prefix (List.takeWhile_prefix _)
  have hfresh : (Cursor.ofTokens tokens).Fresh (Cursor.ofTokens tokens).upcoming :=
    fun _ ht => absurd ht.length_le (by simp)
  rw [Module.ofTokensUntried, ← Nonterminal.triesInVain hts _ _ (List.suffix_refl _) hfresh,
    Module.ofTokens, Reader.next, Reader.ofTokens]
  cases Nonterminal.declarations.outcome options (.ofTokens tokens) <;> rfl

/-- A type is tried at `a` and refused at `c`, and one is tried at `array`, where a `>` is split off
the `>=` before it is refused. -/
theorem ofTokens_eq_ofTokensUntried_of_comparisons :
    Module.ofTokens (tokenize "const x = a < b > c && array < d >= (e);") =
      Module.ofTokensUntried (tokenize "const x = a < b > c && array < d >= (e);") :=
  ofTokens_eq_ofTokensUntried (by decide +kernel) {}

end Module

end Wgsl
