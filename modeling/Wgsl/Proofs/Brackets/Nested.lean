import Mathlib.Data.List.Basic
import Wgsl.Token

/-!
# Nested brackets

`Nested` says of brackets that they are matched and do not cross, with nothing of the grammar in it.
To read tokens from left to right a stack is enough: a token opens a bracket, closes the one that
was opened last, or leaves the open ones alone (`TokenKind.nest`). Brackets are nested when from
none open they come to none open (`nested_iff`).
-/

namespace Wgsl

/-- The brackets that come in pairs. An angle bracket is none of them: it may be a comparison. -/
inductive Bracket
  | round | square | curly
deriving DecidableEq, Inhabited

namespace Bracket

/-- How the bracket is opened. -/
def opening : Bracket → Symbol
  | .round => .parenLeft
  | .square => .bracketLeft
  | .curly => .braceLeft

/-- How the bracket is closed. -/
def closing : Bracket → Symbol
  | .round => .parenRight
  | .square => .bracketRight
  | .curly => .braceRight

end Bracket

namespace Symbol

/-- The bracket that a symbol opens. -/
@[simp] def opens? : Symbol → Option Bracket
  | .parenLeft => some .round
  | .bracketLeft => some .square
  | .braceLeft => some .curly
  | _ => none

/-- The bracket that a symbol closes. -/
@[simp] def closes? : Symbol → Option Bracket
  | .parenRight => some .round
  | .bracketRight => some .square
  | .braceRight => some .curly
  | _ => none

/-- The symbol that opens a bracket. -/
theorem opens?_eq_some_iff {mark : Symbol} {b : Bracket} :
    mark.opens? = some b ↔ mark = b.opening := by
  cases b <;> cases mark <;> decide

/-- The symbol that closes a bracket. -/
theorem closes?_eq_some_iff {mark : Symbol} {b : Bracket} :
    mark.closes? = some b ↔ mark = b.closing := by
  cases b <;> cases mark <;> decide

end Symbol

/-! ## Nesting -/

/-- The token is a bracket. -/
def TokenKind.isBracket : TokenKind → Bool
  | .symbol mark => mark.opens?.isSome || mark.closes?.isSome
  | _ => false

/-- The brackets among tokens, up to the end of the file. -/
def brackets (tokens : List Token) : List TokenKind :=
  ((tokens.takeWhile (·.kind ≠ .endOfFile)).map (·.kind)).filter (·.isBracket)

/-- Brackets that are matched and do not cross: none, or a pair around some with others behind. -/
inductive Nested : List TokenKind → Prop
  | nil : Nested []
  | pair (b : Bracket) {inner rest : List TokenKind} (hinner : Nested inner) (hrest : Nested rest) :
    Nested (.symbol b.opening :: inner ++ .symbol b.closing :: rest)

/-- The brackets that are open behind a token, the last one first, if it may stand where they are
open before it. -/
def TokenKind.nest (k : TokenKind) (o : List Bracket) : Option (List Bracket) :=
  match k with
  | .symbol mark =>
    match mark.opens?, mark.closes? with
    | some b, _ => some (b :: o)
    | none, some b => if o.head? = some b then some o.tail else none
    | none, none => some o
  | _ => some o

/-- The brackets that are open behind tokens. -/
def nest (o : List Bracket) (ks : List TokenKind) : Option (List Bracket) :=
  ks.foldlM (fun o k => k.nest o) o

namespace TokenKind

variable {o : List Bracket} {k : TokenKind}

@[simp] theorem nest_opening (b : Bracket) : (symbol b.opening).nest o = some (b :: o) := by
  cases b <;> rfl

@[simp] theorem nest_closing (b : Bracket) : (symbol b.closing).nest (b :: o) = some o := by
  cases b <;> rfl

/-- What is no bracket leaves open what is. -/
theorem nest_of_isBracket (h : k.isBracket = false) : k.nest o = some o := by
  cases k with
  | symbol mark =>
    obtain ⟨hopens, hcloses⟩ : mark.opens? = none ∧ mark.closes? = none := by
      simpa [isBracket] using h
    simp only [nest, hopens, hcloses]
  | _ => rfl

/-- A bracket opens, or closes the last one. -/
theorem nest_cases {o' : List Bracket} (h : k.nest o = some o') :
    k.isBracket = false ∧ o' = o ∨ (∃ b, k = .symbol b.opening ∧ o' = b :: o) ∨
      ∃ b, k = .symbol b.closing ∧ o = b :: o' := by
  cases hk : k.isBracket with
  | false => exact .inl ⟨rfl, by simpa [nest_of_isBracket hk, eq_comm] using h⟩
  | true =>
    cases k with
    | symbol mark =>
      refine .inr ?_
      simp only [nest] at h
      split at h
      · rename_i b hopens
        exact .inl ⟨b, by rw [Symbol.opens?_eq_some_iff.1 hopens], by simpa [eq_comm] using h⟩
      · rename_i b _ hcloses
        split at h
        · rename_i hlast
          cases h
          exact .inr ⟨b, by rw [Symbol.closes?_eq_some_iff.1 hcloses],
            List.eq_cons_of_mem_head? hlast⟩
        · cases h
      · simp_all [isBracket]
    | _ => simp [isBracket] at hk

end TokenKind

namespace Nested

variable {ks us vs : List TokenKind}

/-- Brackets close what is open, one after the other, if they close the last and then the rest. -/
def Closes : List Bracket → List TokenKind → Prop
  | [], ks => Nested ks
  | b :: o, ks => ∃ us vs, ks = us ++ .symbol b.closing :: vs ∧ Nested us ∧ Closes o vs

/-- A pair may stand before what closes others. -/
theorem Closes.pair (b : Bracket) {o : List Bracket} (hus : Nested us) (hvs : Closes o vs) :
    Closes o (.symbol b.opening :: us ++ .symbol b.closing :: vs) := by
  cases o with
  | nil => exact Nested.pair b hus hvs
  | cons b' o =>
    obtain ⟨us', vs', rfl, hus', hvs'⟩ := hvs
    exact ⟨.symbol b.opening :: us ++ .symbol b.closing :: us', vs', by simp,
      Nested.pair b hus hus', hvs'⟩

/-- What comes to no open brackets closes those that were open. -/
theorem closes_of_nest {o : List Bracket} (h : nest o ks = some []) :
    Closes o (ks.filter (·.isBracket)) := by
  induction ks generalizing o with
  | nil =>
    obtain rfl : o = [] := Option.some.inj h
    exact .nil
  | cons k ks ih =>
    obtain ⟨o', hk, hks⟩ := Option.bind_eq_some_iff.1 h
    rcases TokenKind.nest_cases hk with ⟨hplain, rfl⟩ | ⟨b, rfl, rfl⟩ | ⟨b, rfl, rfl⟩
    · rw [List.filter_cons_of_neg (by simp [hplain])]
      exact ih hks
    · obtain ⟨us, vs, heq, hus, hvs⟩ := ih hks
      rw [List.filter_cons_of_pos (by cases b <;> rfl), heq]
      exact Closes.pair b hus hvs
    · rw [List.filter_cons_of_pos (by cases b <;> rfl)]
      exact ⟨[], _, rfl, .nil, ih hks⟩

end Nested

/-- Tokens nest one list behind the other. -/
theorem nest_append (o : List Bracket) (us vs : List TokenKind) :
    nest o (us ++ vs) = (nest o us).bind fun o' => nest o' vs :=
  List.foldlM_append

/-- Other tokens do not matter. -/
theorem nest_filter (o : List Bracket) (ks : List TokenKind) :
    nest o (ks.filter (·.isBracket)) = nest o ks := by
  induction ks generalizing o with
  | nil => rfl
  | cons k ks ih =>
    cases hk : k.isBracket with
    | false =>
      rw [List.filter_cons_of_neg (by simp [hk]), ih, nest, nest, List.foldlM_cons,
        TokenKind.nest_of_isBracket hk]
      rfl
    | true =>
      rw [List.filter_cons_of_pos hk, nest, nest, List.foldlM_cons, List.foldlM_cons]
      exact congrArg _ (funext ih)

/-- Nested brackets leave the open ones open. -/
theorem Nested.nest_eq {ks : List TokenKind} (h : Nested ks) (o : List Bracket) :
    nest o ks = some o := by
  induction h generalizing o with
  | nil => rfl
  | @pair b us vs _ _ hus hvs =>
    calc nest o (.symbol b.opening :: us ++ .symbol b.closing :: vs)
        = nest (b :: o) (us ++ .symbol b.closing :: vs) := by
          rw [List.cons_append, nest, List.foldlM_cons, TokenKind.nest_opening]; rfl
      _ = nest (b :: o) (.symbol b.closing :: vs) := by rw [nest_append, hus]; rfl
      _ = nest o vs := by rw [nest, List.foldlM_cons, TokenKind.nest_closing]; rfl
      _ = some o := hvs o

/-- The brackets among tokens are nested if from none open they come to none open. -/
theorem nested_iff {ks : List TokenKind} :
    Nested (ks.filter (·.isBracket)) ↔ nest [] ks = some [] :=
  ⟨fun h => nest_filter [] ks ▸ h.nest_eq [], Nested.closes_of_nest⟩

end Wgsl
