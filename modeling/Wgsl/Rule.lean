import Wgsl.Cursor
import Wgsl.ParseError

/-!
# Rules

A rule says how to read something from a cursor. It is data, a tree of steps, not a function on
cursors: a step looks at the token to be read or the one behind it, advances, splits a closing
angle off, reads what a nonterminal names, or tries to. What a rule can do is thereby visible in
its type, and facts about all rules are proved by one induction over their steps.

A grammar gives every nonterminal a rule, and so may be recursive without a recursive definition.
`Grammar.parse` runs it with a bound on the depth of nonterminals; reaching the bound is an answer
of its own (`none`), apart from refusing the tokens, and a greater bound changes no other answer
(`parse_mono`).

Only `attempt` goes back. Where its nonterminal is refused, reading goes on from where it began;
every other refusal stops the whole, and the outcome keeps the cursor at which it stopped.
-/

namespace Wgsl

/-- What reading comes to: a value or an error, and the cursor where it stopped. -/
inductive Outcome (α : Type)
  | accepted (value : α) (cursor : Cursor)
  | rejected (error : ParseError) (cursor : Cursor)

/-- The cursor where reading stopped. -/
def Outcome.cursor {α : Type} : Outcome α → Cursor
  | .accepted _ c | .rejected _ c => c

/-- How to read an `α`, where a nonterminal `n` stands for an `R n`. -/
inductive Rule {N : Type} (R : N → Type) (α : Type) : Type
  | done (value : α)
  | fail (error : ParseError)
  /-- Look at the token to be read. -/
  | look (next : Token → Rule R α)
  /-- Look at the kind of the token behind it. -/
  | lookBehind (next : TokenKind → Rule R α)
  | advance (next : Rule R α)
  | split (next : Rule R α)
  /-- Read a nonterminal. -/
  | read (n : N) (next : R n → Rule R α)
  /-- Read a nonterminal, or nothing if it is refused. -/
  | attempt (n : N) (next : Option (R n) → Rule R α)

/-- A rule for every nonterminal. -/
abbrev Grammar {N : Type} (R : N → Type) := (n : N) → Rule R (R n)

variable {N : Type} {R : N → Type} {α β : Type}

namespace Rule

/-- One rule behind another. -/
def bind : Rule R α → (α → Rule R β) → Rule R β
  | .done a, f => f a
  | .fail e, _ => .fail e
  | .look k, f => .look fun t => (k t).bind f
  | .lookBehind k, f => .lookBehind fun t => (k t).bind f
  | .advance k, f => .advance (k.bind f)
  | .split k, f => .split (k.bind f)
  | .read n k, f => .read n fun a => (k a).bind f
  | .attempt n k, f => .attempt n fun a => (k a).bind f

instance : Monad (Rule R) where
  pure := .done
  bind := .bind

/-- Nothing more behind a rule leaves the rule. -/
theorem bind_done (r : Rule R α) : r.bind .done = r := by
  induction r <;> simp_all [bind]

/-- Rules one behind the other may be grouped in any way. -/
theorem bind_assoc {γ : Type} (r : Rule R α) (f : α → Rule R β) (g : β → Rule R γ) :
    (r.bind f).bind g = r.bind fun a => (f a).bind g := by
  induction r <;> simp_all [bind]

instance : LawfulMonad (Rule R) :=
  LawfulMonad.mk' _ (fun r => bind_done r) (fun _ _ => rfl) bind_assoc

/-! ## Steps -/

/-- The token to be read. -/
def current : Rule R Token := .look .done

/-- The kind of the token behind the one to be read. -/
def following : Rule R TokenKind := .lookBehind .done

/-- Go behind the token to be read. -/
def skip : Rule R Unit := .advance (.done ())

/-- Refuse the token to be read. -/
def unexpected (expected : Expectation) : Rule R α :=
  .look fun t => .fail (.ofToken expected t)

/-- The token to be read is the symbol. -/
def sees (mark : Symbol) : Rule R Bool := do
  return (← current).kind = .symbol mark

/-- Go behind a symbol if it is there, and tell whether it was. -/
def accept (mark : Symbol) : Rule R Bool := do
  if (← current).kind = .symbol mark then
    skip
    return true
  else
    return false

/-- Go behind a symbol that has to be there. -/
def expect (mark : Symbol) (place : String) : Rule R Unit := do
  if (← current).kind = .symbol mark then skip else unexpected (.symbol mark place)

/-- The name of an identifier that has to be there. -/
def identifier (expected : Expectation) : Rule R String := do
  match (← current).kind with
  | .identifier name =>
    skip
    return name
  | _ => unexpected expected

/-- Go behind a `>` that has to be there, alone or before others in one token. -/
def closeAngle (expected : Expectation) : Rule R Unit := do
  let token ← current
  if token.kind = .symbol .greaterThan then skip
  else if token.afterAngle?.isSome then .split (.done ())
  else unexpected expected

/-! ## Running -/

/-- Follow a rule from a cursor, given how nonterminals are read. -/
def run (parse : (n : N) → Cursor → Option (Outcome (R n))) :
    Rule R α → Cursor → Option (Outcome α)
  | .done a, c => some (.accepted a c)
  | .fail e, c => some (.rejected e c)
  | .look k, c => (k c.current).run parse c
  | .lookBehind k, c => (k c.following).run parse c
  | .advance k, c => k.run parse c.advance
  | .split k, c => k.run parse c.split
  | .read n k, c =>
    match parse n c with
    | none => none
    | some (.accepted a c') => (k a).run parse c'
    | some (.rejected e c') => some (.rejected e c')
  | .attempt n k, c =>
    match parse n c with
    | none => none
    | some (.accepted a c') => (k (some a)).run parse c'
    | some (.rejected _ _) => (k none).run parse c

/-- Follow a rule from a cursor, given what nonterminals come to. -/
def follow (outcome : (n : N) → Cursor → Outcome (R n)) : Rule R α → Cursor → Outcome α
  | .done a, c => .accepted a c
  | .fail e, c => .rejected e c
  | .look k, c => (k c.current).follow outcome c
  | .lookBehind k, c => (k c.following).follow outcome c
  | .advance k, c => k.follow outcome c.advance
  | .split k, c => k.follow outcome c.split
  | .read n k, c =>
    match outcome n c with
    | .accepted a c' => (k a).follow outcome c'
    | .rejected e c' => .rejected e c'
  | .attempt n k, c =>
    match outcome n c with
    | .accepted a c' => (k (some a)).follow outcome c'
    | .rejected _ _ => (k none).follow outcome c

/-- Where nonterminals are read at least as often, so is what a rule reads. -/
theorem run_mono {p q : (n : N) → Cursor → Option (Outcome (R n))} {r : Rule R α} {c : Cursor}
    {o : Outcome α} (hr : r.run p c = some o) (h : ∀ n c o, p n c = some o → q n c = some o) :
    r.run q c = some o := by
  induction r generalizing c with
  | done | fail => exact hr
  | look k ih => exact ih _ hr
  | lookBehind k ih => exact ih _ hr
  | advance k ih => exact ih hr
  | split k ih => exact ih hr
  | read n k ih =>
    rw [run] at hr ⊢
    cases hp : p n c with
    | none => simp [hp] at hr
    | some o' =>
      rw [hp] at hr
      rw [h n c o' hp]
      cases o' with
      | accepted a c' => exact ih _ hr
      | rejected e c' => exact hr
  | attempt n k ih =>
    rw [run] at hr ⊢
    cases hp : p n c with
    | none => simp [hp] at hr
    | some o' =>
      rw [hp] at hr
      rw [h n c o' hp]
      cases o' with
      | accepted a c' => exact ih _ hr
      | rejected e c' => exact ih _ hr

/-- Following a rule comes to what running it does, where nonterminals do. -/
theorem follow_of_run {p : (n : N) → Cursor → Option (Outcome (R n))}
    {outcome : (n : N) → Cursor → Outcome (R n)} {r : Rule R α} {c : Cursor} {o : Outcome α}
    (hr : r.run p c = some o) (h : ∀ n c o, p n c = some o → outcome n c = o) :
    r.follow outcome c = o := by
  induction r generalizing c with
  | done | fail => exact Option.some.inj hr
  | look k ih => exact ih _ hr
  | lookBehind k ih => exact ih _ hr
  | advance k ih => exact ih hr
  | split k ih => exact ih hr
  | read n k ih =>
    rw [run] at hr
    rw [follow]
    cases hp : p n c with
    | none => simp [hp] at hr
    | some o' =>
      rw [hp] at hr
      rw [h n c o' hp]
      cases o' with
      | accepted a c' => exact ih _ hr
      | rejected e c' => exact Option.some.inj hr
  | attempt n k ih =>
    rw [run] at hr
    rw [follow]
    cases hp : p n c with
    | none => simp [hp] at hr
    | some o' =>
      rw [hp] at hr
      rw [h n c o' hp]
      cases o' with
      | accepted a c' => exact ih _ hr
      | rejected e c' => exact ih _ hr

end Rule

namespace Grammar

/-- Read a nonterminal from a cursor, through at most a number of nested nonterminals. -/
def parse (g : Grammar R) : Nat → (n : N) → Cursor → Option (Outcome (R n))
  | 0, _, _ => none
  | depth + 1, n, c => (g n).run (g.parse depth) c

/-- An outcome within a depth is the outcome within every greater one. -/
theorem parse_mono {g : Grammar R} {depth depth' : Nat} (hle : depth ≤ depth') {n : N} {c : Cursor}
    {o : Outcome (R n)} (h : g.parse depth n c = some o) : g.parse depth' n c = some o := by
  induction depth generalizing depth' n c with
  | zero => simp [parse] at h
  | succ depth ih =>
    obtain ⟨depth', rfl⟩ : ∃ d, depth' = d + 1 := ⟨depth' - 1, by omega⟩
    exact Rule.run_mono (p := g.parse depth) h fun _ _ _ h' => ih (by omega) h'

end Grammar

end Wgsl
