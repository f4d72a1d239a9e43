import Wgsl.Proofs.Redundant.Value

/-!
# Where readings end

What belongs to an expression and ends before a `(` does not end directly behind a token that leads
to a value (`Cursor.Settled`), unless it is empty. So nothing that begins before a value ends where
a `(` is put before it. Only a type, or the parameters of one, may end inside of a token
(`Nonterminal.endsInside`).
-/

namespace Wgsl

open scoped Rule.Steps

namespace Token

/-- What is left of a split token leads to a value if the token does. -/
theorem leads_afterAngles (t : Token) (n : Nat) :
    (t.afterAngles n).kind.leads = t.kind.leads := by
  refine t.afterAngles_kind_congr TokenKind.leads (fun mark left h => ?_) n
  cases mark <;> cases h <;> rfl

end Token

namespace Cursor

variable {ts : List Token} {c d : Cursor}

/-- In a sequence of tokens, the cursor does not stand directly behind a token that leads to a
value. -/
def Settled (ts : List Token) (c : Cursor) : Prop :=
  ∀ t, t :: c.upcoming <:+ ts → t.kind.leads = false

/-- Behind a token, it depends on the token. -/
theorem settled_advance (hc : c.upcoming <:+ ts) (hend : c.current.kind ≠ .endOfFile) :
    c.advance.Settled ts ↔ c.current.kind.leads = false :=
  forall_behind_advance_iff Token.leads_afterAngles hc hend

/-- Where a reading ends: before a `(` not directly behind a token that leads to a value, and inside
of a token only if it may. -/
structure Settles (ts : List Token) (inside : Bool) (c : Cursor) : Prop where
  settled : c.current.kind = .symbol .parenLeft → c.taken = 0 → c.Settled ts
  whole : inside = false → c.taken ≠ 0 → c.current.kind = .symbol .parenLeft

namespace Settles

variable {inside : Bool}

private theorem advance_of_ne (hend : c.current.kind ≠ .endOfFile)
    (hnext : c.advance.current.kind ≠ .symbol .parenLeft) : c.advance.Settles ts inside := by
  obtain ⟨t, rest, hu, -⟩ := exists_upcoming_eq_cons hend
  refine ⟨fun h => absurd h hnext, fun _ h => absurd ?_ h⟩
  rw [Cursor.advance, hu]

/-- Behind a token that does not lead to a value, a reading may end. -/
theorem advance (hc : c.upcoming <:+ ts) {k : TokenKind} (hk : c.current.kind = k)
    (hend : k ≠ .endOfFile) (hleads : k.leads = false) : c.advance.Settles ts inside := by
  subst hk
  by_cases hnext : c.advance.current.kind = .symbol .parenLeft
  · obtain ⟨t, rest, hu, -⟩ := exists_upcoming_eq_cons hend
    exact ⟨fun _ _ => (settled_advance hc hend).2 hleads, fun _ _ => hnext⟩
  · exact advance_of_ne hend hnext

/-- Inside of a token that is split, a reading ends only where it may. -/
theorem split (h : c.current.afterAngle?.isSome) : c.split.Settles ts true := by
  refine ⟨fun _ hzero => ?_, nofun⟩
  rw [Cursor.split] at hzero
  split at hzero
  · simp at hzero
  · rename_i hnot
    have := c.taken_le
    exact absurd ⟨by omega, h⟩ hnot

private theorem of_parenLeft (h : c.Settles ts inside) (hc : c.current.kind = .symbol .parenLeft) :
    c.Settles ts false :=
  ⟨h.settled, fun _ _ => hc⟩

end Settles

end Cursor

namespace Nonterminal

/-- The nonterminal may end inside of a token. -/
@[simp] def endsInside : Nonterminal → Bool
  | .type | .typeParameters _ => true
  | _ => false

/-- The nonterminal may be empty, but for a list of expressions only before a `)`. -/
@[simp] def Idles (c : Cursor) : Nonterminal → Prop
  | .attributes | .operations _ | .suffixes _ => True
  | .expressions => c.current.kind = .symbol .parenRight
  | _ => False

/-- What belongs to an expression settles where it ends, or is empty. -/
def EndsSettled (ts : List Token) (n : Nonterminal) (c : Cursor) (o : Outcome n.Result) : Prop :=
  n.inExpression = true → o.IfAccepted fun _ d =>
    n.Idles c ∧ d = c ∨ d.Settles ts n.endsInside

@[simp] theorem endsSettled_iff {ts : List Token} {n : Nonterminal} {c : Cursor}
    {o : Outcome n.Result} :
    n.EndsSettled ts c o ↔ (n.inExpression = true → o.IfAccepted fun _ d =>
      n.Idles c ∧ d = c ∨ d.Settles ts n.endsInside) := .rfl

end Nonterminal

namespace Production

open Nonterminal

variable (options : ReadOptions) (ts : List Token)

/-- The rule of the nonterminal shows that it settles where it ends. -/
abbrev ShowsSettled (n : Nonterminal) : Prop :=
  n.Shows options (fun c => c.upcoming <:+ ts) (EndsSettled ts)

/-- What a rule shows of where it ends, from step to step. -/
theorem settles_steps :
    type_of% @Rule.holds_steps ∧ type_of% @Rule.holds_tree ∧ type_of% @known_iff ∧
    type_of% @endsSettled_iff ∧ type_of% @Outcome.ifAccepted_accepted ∧
    type_of% @Outcome.ifAccepted_rejected ∧ type_of% @Outcome.cursor_accepted :=
  ⟨Rule.holds_steps, Rule.holds_tree, known_iff, endsSettled_iff, Outcome.ifAccepted_accepted,
    Outcome.ifAccepted_rejected, Outcome.cursor_accepted⟩

private theorem settles_attribute : ShowsSettled options ts .attribute := by
  intro c hc
  simp only [ofNonterminal, singleAttribute, Rule.steps_eq, ↓reduceIte, Bool.false_eq_true,
    settles_steps, implies_true, and_true]
  intro _
  split
  · simp
  · rename_i name hname
    simp only [settles_steps, inExpression, Idles, forall_const, false_and, false_or, implies_true,
      and_true, and_imp, true_and]
    exact ⟨fun _ _ _ hd _ hparen => .advance hd hparen (by simp) rfl,
      fun hnext => .advance_of_ne (TokenKind.bindsName_of_attributeName? hname).2 hnext⟩

private theorem settles_attributes : ShowsSettled options ts .attributes := by
  intro c hc
  simp only [ofNonterminal, attributes, settles_steps, inExpression, Idles, endsInside]
  grind

private theorem settles_type : ShowsSettled options ts .type := by
  intro c hc
  simp only [ofNonterminal, type, Rule.steps_eq, ↓reduceIte, Bool.false_eq_true, settles_steps,
    inExpression, Idles, true_and, endsInside, forall_const, false_and, false_or, imp_self,
    implies_true, TokenKind.name?_eq_some_iff, and_imp, and_true]
  exact fun d _ hd _ name hname _ => .advance hd hname (by simp) rfl

/-- Parameters are closed by a `>`, or inside of a token that begins with one. -/
theorem settles_closeParameters {pre : Nonterminal → Cursor → Prop}
    {post : (n : Nonterminal) → Cursor → Outcome n.Result → Prop} {name : String} {c : Cursor}
    {Q : Outcome Unit → Prop} (hc : c.upcoming <:+ ts)
    (accepted : ∀ d : Cursor, d.Settles ts true → Q (.accepted () d))
    (rejected : ∀ e d, Q (.rejected e d)) : (closeParameters name).Holds pre post c Q := by
  simp only [closeParameters, Rule.holds_steps, rejected, implies_true, and_true]
  refine ⟨fun _ => ⟨fun hangle => ?_, fun hsplit => ?_⟩,
    fun _ => ⟨fun hangle => ?_, fun hsplit => ?_⟩⟩
  · exact accepted _ (.advance (Cursor.suffix_advance hc) hangle (by simp) rfl)
  · exact accepted _ (.split hsplit)
  · exact accepted _ (.advance hc hangle (by simp) rfl)
  · exact accepted _ (.split hsplit)

private theorem settles_typeParameters (name : String) :
    ShowsSettled options ts (.typeParameters name) := by
  intro c hc
  have advance {d : Cursor} (hd : d.upcoming <:+ ts) : d.advance.upcoming <:+ ts :=
    Cursor.suffix_advance hd
  by_cases hptr : name = "ptr"
  · simp only [ofNonterminal, typeParameters, hptr, ↓reduceIte, Rule.steps_eq, furtherParameter,
      Bool.false_eq_true, settles_steps, inExpression, Idles, false_and, false_or, implies_true,
      forall_const, true_and, and_imp, and_true]
    intro _ _ _ d _ hd _
    refine ⟨fun _ => ⟨fun _ _ _ => ?_, fun _ => ?_⟩, fun _ => ?_⟩
    · exact settles_closeParameters ts (advance (advance hd)) (fun _ => id) fun _ _ => trivial
    · exact settles_closeParameters ts (advance hd) (fun _ => id) fun _ _ => trivial
    · exact settles_closeParameters ts hd (fun _ => id) fun _ _ => trivial
  · simp only [ofNonterminal, typeParameters, hptr, ↓reduceIte, furtherParameter, Rule.steps_eq,
      Bool.false_eq_true, Bool.or_eq_true, settles_steps, inExpression, Idles, false_and, false_or,
      forall_const, and_imp, and_true, implies_true, true_and, not_or]
    intro d _ hd _
    refine ⟨fun _ => ⟨fun _ => ⟨fun _ e _ he _ => ?_, fun _ _ _ _ => ?_⟩, fun _ => ?_⟩, fun _ => ?_⟩
    · exact settles_closeParameters ts he (fun _ => id) fun _ _ => trivial
    · exact settles_closeParameters ts (advance (advance hd)) (fun _ => id) fun _ _ => trivial
    · exact settles_closeParameters ts (advance hd) (fun _ => id) fun _ _ => trivial
    · exact settles_closeParameters ts hd (fun _ => id) fun _ _ => trivial

private theorem settles_constructorType : ShowsSettled options ts .constructorType := by
  intro c hc
  simp only [ofNonterminal, constructorType, decide_eq_true_eq, settles_steps, inExpression, Idles,
    false_and, false_or, forall_const, implies_true, and_true, and_imp, true_and]
  exact fun d _ _ hd hparen => hd.of_parenLeft hparen

private theorem settles_expression (inAngles : Bool) :
    ShowsSettled options ts (.expression inAngles) := by
  intro c hc
  simp only [ofNonterminal, expression, settles_steps, inExpression, Idles, endsInside]
  grind

private theorem settles_operations (inAngles : Bool) :
    ShowsSettled options ts (.operations inAngles) := by
  intro c hc
  simp only [ofNonterminal, operations, Rule.steps_eq, Bool.and_eq_true, Rule.holds_tree]
  split
  · simp
  · simp only [settles_steps, inExpression, Idles, endsInside]
    grind

private theorem settles_unary : ShowsSettled options ts .unary := by
  intro c hc
  simp only [ofNonterminal, unary, Rule.steps_eq, Rule.holds_tree]
  split
  · simp
  · simp

private theorem settles_suffixed : ShowsSettled options ts .suffixed := by
  intro c hc
  simp only [ofNonterminal, suffixed, settles_steps, inExpression, Idles, endsInside]
  grind

private theorem settles_suffixes (base : Expression) :
    ShowsSettled options ts (.suffixes base) := by
  intro c hc
  simp only [ofNonterminal, suffixes, Rule.steps_eq, Rule.holds_tree]
  split
  · simp only [settles_steps, inExpression, Idles, endsInside, forall_const, true_and, and_imp,
      and_true, implies_true]
    intro d _ hd _ hbracket e _ _ hend
    exact .inr (hend.elim (fun h => h ▸ .advance hd hbracket (by simp) rfl) id)
  · simp only [settles_steps, inExpression, Idles, true_and, implies_true,
      TokenKind.name?_eq_some_iff, forall_const, and_imp, and_true]
    intro name hname e _ _ hend
    exact .inr (hend.elim (fun h => h ▸ .advance (Cursor.suffix_advance hc) hname (by simp) rfl) id)
  · split <;> simp only [settles_steps, inExpression, Idles, endsInside, forall_const]
    grind
  · simp

private theorem settles_primary : ShowsSettled options ts .primary := by
  intro c hc
  simp only [ofNonterminal, primary, Rule.steps_eq, Rule.holds_tree]
  split
  · rename_i hkind
    simpa using .advance hc hkind (by simp) rfl
  · rename_i hkind
    simpa using .advance hc hkind (by simp) rfl
  · rename_i hkind
    simpa using .advance hc hkind (by simp) rfl
  · simp only [settles_steps, inExpression, Idles, false_and, false_or, forall_const, implies_true,
      and_true, and_imp, true_and]
    exact fun d _ hd _ hparen => .advance hd hparen (by simp) rfl
  · rename_i hname
    have hend : c.advance.Settles ts false := .advance hc hname (by simp) rfl
    simp only [Rule.holds_tree]
    split
    · simp [hend]
    · simp [hend]
    · simp [hend]
  · simp

private theorem settles_expressions : ShowsSettled options ts .expressions := by
  intro c hc
  simp only [ofNonterminal, expressions, Rule.steps_eq, ↓reduceIte, Bool.false_eq_true,
    decide_eq_true_eq, settles_steps, inExpression, Idles, and_true, forall_const, false_and,
    false_or, and_imp, implies_true, true_and]
  refine ⟨fun h => .inl h, fun _ d _ _ hend => ⟨fun hcomma e _ _ hrest => ?_, fun _ => .inr hend⟩⟩
  obtain ⟨hparen, he⟩ | hends := hrest
  · rw [he]
    exact .inr (.advance_of_ne (by simp [hcomma]) (by simp [hparen]))
  · exact .inr hends

private theorem settles_arguments : ShowsSettled options ts .arguments := by
  intro c hc
  simp only [ofNonterminal, arguments, settles_steps, inExpression, Idles, forall_const, false_and,
    false_or, implies_true, and_true, and_imp, true_and]
  exact fun _ d _ hd _ hparen => .advance hd hparen (by simp) rfl

private theorem settles_construction (made : TypeSpecifier) (l : Location) :
    ShowsSettled options ts (.construction made l) := by
  intro c hc
  simp only [ofNonterminal, construction, settles_steps, inExpression, Idles, false_and, endsInside,
    false_or, and_imp, and_true, implies_true, true_and]
  intro a d _ _ hend
  split <;> simp [hend]

/-- Nothing is said of what belongs to no expression. -/
theorem settles (n : Nonterminal) : ShowsSettled options ts n := by
  cases n with
  | «attribute» => exact settles_attribute options ts
  | attributes => exact settles_attributes options ts
  | type => exact settles_type options ts
  | typeParameters name => exact settles_typeParameters options ts name
  | constructorType => exact settles_constructorType options ts
  | expression inAngles => exact settles_expression options ts inAngles
  | operations inAngles => exact settles_operations options ts inAngles
  | unary => exact settles_unary options ts
  | suffixed => exact settles_suffixed options ts
  | suffixes base => exact settles_suffixes options ts base
  | primary => exact settles_primary options ts
  | expressions => exact settles_expressions options ts
  | arguments => exact settles_arguments options ts
  | construction made l => exact settles_construction options ts made l
  | _ =>
    intro c _
    refine Eq.subst (motive := fun Q => Rule.Holds _ _ _ c Q) (funext fun o => ?_)
      (Rule.Holds.trivial _ c)
    simp

end Production

/-- What belongs to an expression settles where it ends, or is empty. -/
theorem Nonterminal.outcome_settles {options : ReadOptions} {ts : List Token} {n : Nonterminal}
    (hn : n.inExpression = true) {c d : Cursor} {a : n.Result} (hc : c.upcoming <:+ ts)
    (ho : n.outcome options c = .accepted a d) :
    n.Idles c ∧ d = c ∨ d.Settles ts n.endsInside := by
  have hends := outcome_of_shows (P := fun c => c.upcoming <:+ ts)
    (fun _ => Cursor.suffix_advance) (fun _ => Cursor.suffix_split)
    (Production.settles options ts) n hc
  rw [ho] at hends
  exact hends.2 hn a d rfl

end Wgsl
