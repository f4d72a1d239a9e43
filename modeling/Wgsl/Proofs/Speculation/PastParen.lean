import Wgsl.Proofs.Brackets.Grammar
import Wgsl.Proofs.Speculation.Enclosed
import Wgsl.Proofs.Speculation.Untried
import Wgsl.Proofs.Yields

/-!
# Past a parenthesis

A type that is tried at a name is accepted before a `(` only, directly behind the closing angle of
its parameters (`Nonterminal.exists_angles_behind`). Other types may be tried among the parameters.
One that goes on past the `(` cannot end where the outer one ends, for there an angle is closed; so
it takes the `(`, and nothing that stands between angles takes a `(` directly behind a closing angle
but a type that ends there: expressions do not end with one (`Production.keepsPlain`), and
after it types only close (`Rule.Guards`).

So whatever is read past such a `(`, outside of brackets, has met a type that ends there
(`Nonterminal.passesParen`). And that type is not among the parameters of a type that ends there
too: one closing angle closes one type (`Nonterminal.ne_of_typeParameters`).
-/

namespace Wgsl

open scoped Rule.Steps

namespace Token

/-- What is left of a token behind some angles is angles if the token is. -/
theorem isAngles_afterAngles (t : Token) (n : Nat) :
    (t.afterAngles n).kind.isAngles = t.kind.isAngles := by
  refine t.afterAngles_kind_congr TokenKind.isAngles (fun mark left h => ?_) n
  cases mark <;> cases h <;> rfl

end Token

namespace TokenKind

variable {k : TokenKind}

/-- One closing angle, or two. -/
theorem isAngles_iff :
    k.isAngles ↔ k = .symbol .greaterThan ∨ k = .symbol .shiftRight := by
  cases k with
  | symbol mark => cases mark <;> simp only [isAngles, Bool.false_eq_true, symbol.injEq,
    reduceCtorEq, or_self, or_true, or_false]
  | _ => simp [isAngles]

@[simp] theorem isAngles_symbol (mark : Symbol) :
    (symbol mark).isAngles = decide (mark = .greaterThan ∨ mark = .shiftRight) := by
  cases mark <;> rfl

@[simp] theorem isAngles_identifier (name : String) :
    (identifier name).isAngles = false := rfl

@[simp] theorem isAngles_number (spelling : String) :
    (number spelling).isAngles = false := rfl

@[simp] theorem isAngles_keyword (word : Keyword) : (keyword word).isAngles = false := rfl

/-- The name of an attribute is no angle. -/
theorem isAngles_of_attributeName? {name : String} (h : k.attributeName? = some name) :
    k.isAngles = false := by
  cases k <;> simp_all [attributeName?]

/-- Closing angles close. -/
theorem closesAngle_of_isAngles (h : k.isAngles) : k.closesAngle := by
  rcases isAngles_iff.1 h with rfl | rfl <;> rfl

end TokenKind

namespace Cursor

variable {ts : List Token} {c d : Cursor}

/-- In a sequence of tokens, the cursor does not stand directly behind a closing angle. -/
def Plain (ts : List Token) (c : Cursor) : Prop :=
  ∀ t, t :: c.upcoming <:+ ts → t.kind.isAngles = false

/-- Behind a token that is no angle the cursor stands plainly. -/
theorem plain_advance (hc : c.upcoming <:+ ts) (hend : c.current.kind ≠ .endOfFile)
    (h : c.current.kind.isAngles = false) : c.advance.Plain ts :=
  (forall_behind_advance_iff Token.isAngles_afterAngles hc hend).2 h

/-- It does so where nothing is read behind it, too. -/
theorem Plain.stays (h : c.Plain ts) (hd : d.Plain ts ∨ d = c) : d.Plain ts := by
  rcases hd with hd | rfl
  · exact hd
  · exact h

end Cursor

namespace Nonterminal

/-- What does not end with a closing angle. -/
@[simp] def endsPlain : Nonterminal → Bool
  | .attribute | .attributes => true
  | n => n.endsExpression

/-- Where the nonterminal ends, no closing angle stands before, unless nothing was read. -/
@[simp] def EndsPlain (ts : List Token) : (n : Nonterminal) → Cursor → n.Result → Cursor → Prop
  | .attribute, _, _, d | .expression _, _, _, d | .unary, _, _, d | .suffixed, _, _, d
  | .primary, _, _, d | .arguments, _, _, d | .construction _ _, _, _, d => d.Plain ts
  | .attributes, c, _, d | .operations _, c, _, d | .suffixes _, c, _, d => d.Plain ts ∨ d = c
  | _, _, _, _ => True

/-- The rule of a nonterminal does not end with a closing angle, if what it reads does not. -/
abbrev KeepsPlain (options : ReadOptions) (ts : List Token) (n : Nonterminal) : Prop :=
  n.ShowsAccepted options (fun c => c.upcoming <:+ ts) (EndsPlain ts)

end Nonterminal

namespace Production

open Rule Nonterminal

variable {options : ReadOptions} {ts : List Token}

private theorem keepsPlain_attribute : KeepsPlain options ts .attribute := by
  intro c hc
  simp only [ofNonterminal, singleAttribute, yields_steps]
  intro hattr
  split
  · exact yields_unexpected
  · rename_i name hname
    have hname : c.advance.advance.Plain ts := Cursor.plain_advance (Cursor.suffix_advance hc)
      (TokenKind.ne_endOfFile_of_attributeName? hname) (TokenKind.isAngles_of_attributeName? hname)
    simp only [yields_steps, given_iff, EndsPlain, Bool.false_eq_true, false_implies, true_implies,
      not_true_eq_false, not_false_eq_true, and_true, true_and]
    refine ⟨?_, fun _ => hname⟩
    rintro hopen arguments d ⟨-, hd⟩ hclose
    exact Cursor.plain_advance hd (by simp [hclose]) (by simp [hclose])

private theorem keepsPlain_attributes : KeepsPlain options ts .attributes := by
  intro c _
  simp only [ofNonterminal, attributes, yields_steps, EndsPlain, given_iff, or_true, implies_true,
    and_true]
  rintro _ a d ⟨-, -, hd⟩ as e ⟨-, -, he⟩
  exact .inl (hd.stays he)

private theorem keepsPlain_expression (inAngles : Bool) :
    KeepsPlain options ts (.expression inAngles) := by
  intro c _
  simp only [ofNonterminal, expression, yields_steps, EndsPlain, given_iff]
  rintro operand d ⟨-, -, hd⟩ chain e ⟨-, -, he⟩
  exact hd.stays he

private theorem keepsPlain_operations (inAngles : Bool) :
    KeepsPlain options ts (.operations inAngles) := by
  intro c _
  simp only [ofNonterminal, operations, yields_steps]
  split
  · simp only [yields_steps, EndsPlain, or_true]
  · simp only [yields_steps, given_iff, EndsPlain, or_true, implies_true, true_and]
    rintro _ operand d ⟨-, -, hd⟩ chain e ⟨-, -, he⟩
    exact .inl (hd.stays he)

private theorem keepsPlain_unary : KeepsPlain options ts .unary := by
  intro c _
  simp only [ofNonterminal, unary, yields_steps]
  split <;> simp only [yields_steps, given_iff, EndsPlain] <;> exact fun _ d hd => hd.2.2

private theorem keepsPlain_suffixed : KeepsPlain options ts .suffixed := by
  intro c _
  simp only [ofNonterminal, suffixed, yields_steps, EndsPlain, given_iff]
  rintro base d ⟨-, -, hd⟩ whole e ⟨-, -, he⟩
  exact hd.stays he

private theorem keepsPlain_suffixes (base : Expression) :
    KeepsPlain options ts (.suffixes base) := by
  intro c hc
  simp only [ofNonterminal, suffixes, yields_steps]
  split
  · simp only [yields_steps, given_iff, EndsPlain]
    rintro index d ⟨-, hd, -⟩ hclose whole e ⟨-, -, he⟩
    have hclosed : d.advance.Plain ts :=
      Cursor.plain_advance hd (by simp [hclose]) (by simp [hclose])
    exact .inl (hclosed.stays he)
  · simp only [yields_steps, given_iff, EndsPlain]
    rintro name hname whole e ⟨-, -, he⟩
    have hnamed : c.advance.advance.Plain ts :=
      Cursor.plain_advance (Cursor.suffix_advance hc) (by simp [hname]) (by simp [hname])
    exact .inl (hnamed.stays he)
  · split
    · simp only [yields_steps, given_iff, EndsPlain]
      rintro arguments d ⟨-, -, hd⟩ whole e ⟨-, -, he⟩
      exact .inl (hd.stays he)
    · exact yields_unexpected
  · simp only [yields_steps, EndsPlain, or_true]

private theorem keepsPlain_primary : KeepsPlain options ts .primary := by
  intro c hc
  have hskip : ∀ {k : TokenKind}, c.current.kind = k → k ≠ .endOfFile → k.isAngles = false →
      c.advance.Plain ts := by
    rintro k rfl
    exact Cursor.plain_advance hc
  simp only [ofNonterminal, primary, yields_steps]
  split
  · exact hskip ‹_› (by simp) rfl
  · exact hskip ‹_› (by simp) rfl
  · exact hskip ‹_› (by simp) rfl
  · simp only [yields_steps, given_iff, EndsPlain]
    rintro inner d ⟨-, hd, -⟩ hclose
    exact Cursor.plain_advance hd (by simp [hclose]) (by simp [hclose])
  · rename_i name hname
    have hname : c.advance.Plain ts := hskip hname (by simp) rfl
    rw [yields_bind, yields_following]
    split
    · simp only [yields_steps, given_iff, EndsPlain]
      exact ⟨fun _ _ _ _ d hd => hd.2.2, hname⟩
    · simp only [yields_steps, given_iff, EndsPlain]
      exact ⟨fun _ _ d hd => hd.2.2, fun _ => hname⟩
    · simp only [yields_steps, EndsPlain, hname]
  · exact yields_unexpected

private theorem keepsPlain_arguments : KeepsPlain options ts .arguments := by
  intro c _
  simp only [ofNonterminal, arguments, yields_steps, EndsPlain, given_iff]
  rintro _ values d ⟨-, hd, -⟩ hclose
  exact Cursor.plain_advance hd (by simp [hclose]) (by simp [hclose])

private theorem keepsPlain_construction (made : TypeSpecifier) (l : Location) :
    KeepsPlain options ts (.construction made l) := by
  intro c _
  simp only [ofNonterminal, construction, yields_steps, EndsPlain, given_iff]
  rintro arguments d ⟨-, -, hd⟩
  split
  · exact hd
  · exact hd
  · exact yields_fail

/-- Expressions and attributes do not end with a closing angle. -/
theorem keepsPlain (n : Nonterminal) : KeepsPlain options ts n := by
  cases n with
  | «attribute» => exact keepsPlain_attribute
  | attributes => exact keepsPlain_attributes
  | expression inAngles => exact keepsPlain_expression inAngles
  | operations inAngles => exact keepsPlain_operations inAngles
  | unary => exact keepsPlain_unary
  | suffixed => exact keepsPlain_suffixed
  | suffixes base => exact keepsPlain_suffixes base
  | primary => exact keepsPlain_primary
  | arguments => exact keepsPlain_arguments
  | construction made l => exact keepsPlain_construction made l
  | _ => exact fun c _ => yields_true _ c

end Production

namespace Nonterminal

/-- What ends plainly is followed by no angle of its own, unless nothing was read. -/
theorem outcome_endsPlain (options : ReadOptions) {ts : List Token} {n : Nonterminal} {c d : Cursor}
    {a : n.Result} (hn : n.endsPlain) (hc : c.upcoming <:+ ts)
    (ho : n.outcome options c = .accepted a d) :
    d.Plain ts ∨ n.takesToken = false ∧ d = c := by
  have h : EndsPlain ts n c a d := accepted_of_yields (P := fun c => c.upcoming <:+ ts)
    (fun _ => Cursor.suffix_advance) (fun _ => Cursor.suffix_split) Production.keepsPlain n hc a d
    ho
  cases n <;> first | exact .inl h | exact h.imp_right fun h => ⟨rfl, h⟩ | cases hn

end Nonterminal

/-! ## Parameters without the closing angle -/

namespace Production

open Rule

/-- The parameters of a type and a comma behind them, up to the closing angle. -/
def openParameters (typeName : String) : Production TypeParameters :=
  if typeName = "ptr" then do
    let storageClass ← identifier (.identifier "for pointer storage class")
    expect .comma "after pointer storage class"
    let target ← parse .type
    if ← furtherParameter then
      let accessMode ← identifier (.identifier "for pointer access mode")
      let _ ← accept .comma
      return .pointer storageClass target (some accessMode)
    else
      let _ ← accept .comma
      return .pointer storageClass target none
  else do
    let element ← parse .type
    if ← furtherParameter then
      if namesArray typeName || (← current).kind.isNumber then
        let count ← parse (.expression true)
        let _ ← accept .comma
        return .counted element count
      else
        let accessMode ← identifier (.identifier "for access mode")
        let _ ← accept .comma
        return .element element (some accessMode)
    else
      let _ ← accept .comma
      return .element element none

/-- What goes on behind a choice goes on behind both sides of it. -/
theorem elim_bind {N : Type} {R : N → Type} {α β γ : Type} (o : Option γ) (r : Rule R α)
    (f : γ → Rule R α) (g : α → Rule R β) :
    (o.elim r f).bind g = o.elim (r.bind g) fun a => (f a).bind g := by
  cases o <;> rfl

/-- The parameters of a type are those that are open, and the angle that closes them. -/
theorem typeParameters_eq (typeName : String) :
    typeParameters typeName = (openParameters typeName).bind fun parameters =>
      (closeAngle (.closingAngle typeName)).bind fun _ => .done parameters := by
  by_cases hptr : typeName = "ptr"
  · simp [typeParameters, openParameters, hptr, furtherParameter, closeParameters, elim_bind]
  · simp [typeParameters, openParameters, hptr, furtherParameter, closeParameters, elim_bind]

private theorem names_openParameters (options : ReadOptions) (typeName : String) :
    (openParameters typeName).Names options .furtherNames .fresh := by
  by_cases hptr : typeName = "ptr"
  · simp +contextual [openParameters, hptr, furtherParameter]
  · simp +contextual [openParameters, hptr, furtherParameter]

end Production

namespace Nonterminal

variable {options : ReadOptions} {ts : List Token} {c d x : Cursor} {typeName : String}
variable {parameters : TypeParameters} {made : TypeSpecifier}

/-- The parameters of a type end with a closing angle. -/
theorem exists_openParameters
    (ho : (typeParameters typeName).outcome options c = .accepted parameters d) :
    ∃ e, Production.comesTo options (.openParameters typeName) c = .accepted parameters e ∧
      (e.current.kind = .symbol .greaterThan ∧ d = e.advance ∨
        e.current.afterAngle?.isSome ∧ d = e.split) := by
  rw [outcome_eq] at ho
  simp only [Production.ofNonterminal, Production.typeParameters_eq, Rule.follow_bind] at ho
  cases hopen : Production.comesTo options (Production.openParameters typeName) c with
  | rejected err e => simp [hopen] at ho
  | accepted p e =>
    refine ⟨e, ?_⟩
    rw [Production.comesTo] at hopen
    simp only [hopen, Outcome.accepted_bind, Rule.follow_closeAngle, Rule.follow_done] at ho
    split at ho
    · cases ho
      exact ⟨rfl, .inl ⟨‹_›, rfl⟩⟩
    · split at ho
      · cases ho
        exact ⟨rfl, .inr ⟨‹_›, rfl⟩⟩
      · cases ho

/-- Before a `(`, it is the last of the tokens before. -/
theorem exists_angles_behind
    (ho : (typeParameters typeName).outcome options c = .accepted parameters d)
    (hd : d.current.kind = .symbol .parenLeft) :
    ∃ t, t.kind.isAngles ∧ t :: d.upcoming <:+ c.upcoming := by
  obtain ⟨e, hopen, ⟨hangle, rfl⟩ | ⟨hmore, rfl⟩⟩ := exists_openParameters ho
  · have hreaches := Rule.outcome_reaches options (.openParameters typeName) c
    rw [hopen] at hreaches
    obtain ⟨t, rest, hu, hcurrent⟩ := Cursor.exists_upcoming_eq_cons (c := e) (by simp [hangle])
    refine ⟨t, ?_, ?_⟩
    · rw [← t.isAngles_afterAngles, ← hcurrent, hangle]
      rfl
    · rw [Cursor.upcoming_advance, hu, List.tail_cons, ← hu]
      exact hreaches.suffix
  · obtain ⟨u, hu⟩ := Option.isSome_iff_exists.1 hmore
    obtain ⟨mark, left, -, hleft, rfl⟩ := Token.afterAngle?_eq_some_iff.1 hu
    rw [Cursor.current_split hu] at hd
    cases mark <;> cases hleft <;> cases hd

/-- A type that is accepted where one is tried ends with a closing angle before a `(`. -/
theorem exists_angle_paren (hx : x.Doubtful ts)
    (ho : Nonterminal.constructorType.outcome options x = .accepted made d) :
    ∃ angle paren rest, angle.kind.isAngles ∧ paren.kind = .symbol .parenLeft ∧
      d.upcoming = paren :: rest ∧ angle :: d.upcoming <:+ x.upcoming := by
  obtain ⟨name, hname⟩ := hx.exists_name
  obtain ⟨⟨parameters, hparameters, -⟩, hparen⟩ :=
    (Nonterminal.constructorType_eq_accepted_of_doubtful hx hname).1 ho
  obtain ⟨angle, hangle, hbehind⟩ := exists_angles_behind hparameters hparen
  obtain ⟨paren, rest, hu, hcurrent⟩ := Cursor.exists_upcoming_eq_cons (c := d) (by simp [hparen])
  refine ⟨angle, paren, rest, hangle, ?_, hu,
    hbehind.trans (Cursor.suffix_advance (Cursor.suffix_advance (List.suffix_refl x.upcoming)))⟩
  rw [hcurrent] at hparen
  rcases paren.afterAngles_eq_or d.taken with hsame | hleft
  · rwa [hsame] at hparen
  · simp [hparen] at hleft

/-- No type that may be tried among the parameters of a type ends where they end: a closing angle
closes one type. -/
theorem ne_of_typeParameters (hc : c.upcoming <:+ ts) (hfresh : c.Fresh ts)
    (ho : (typeParameters typeName).outcome options c = .accepted parameters d)
    (hx : x.Doubtful ts) (hcx : c.Reaches x) :
    Nonterminal.constructorType.outcome options x ≠ .accepted made d := by
  intro hmade
  obtain ⟨e, hopen, hclose⟩ := exists_openParameters ho
  have hed : e.Reaches d ∧ d.measure < e.measure := by
    rcases hclose with ⟨hangle, rfl⟩ | ⟨hmore, rfl⟩
    · exact ⟨(Cursor.Reaches.refl e).advance, Cursor.measure_advance_lt (by simp [hangle])⟩
    · exact ⟨(Cursor.Reaches.refl e).split, Cursor.measure_split_lt hmore⟩
  have hxd := Nonterminal.constructorType.outcome_reaches options x
  have hstrict := @outcome_within options .constructorType x
  simp only [hmade, Outcome.cursor_accepted] at hxd hstrict
  have hce := Rule.outcome_reaches options (.openParameters typeName) c
  simp only [hopen, Outcome.cursor_accepted] at hce
  have hname : e.current.kind.isName = false := by
    rcases hclose with ⟨hangle, -⟩ | ⟨hmore, -⟩
    · simp [hangle]
    · obtain ⟨u, hu⟩ := Option.isSome_iff_exists.1 hmore
      obtain ⟨mark, -, hmark, -⟩ := Token.afterAngle?_eq_some_iff.1 hu
      simp [hmark]
  rcases hce.before_or_reaches hcx with ⟨hxe, hne⟩ | hex
  · have hpasses := (Production.names_openParameters options typeName).passes (by simp)
      (Rule.along_of_forall (outcome_comesPast options ts) _ _) (.ofFresh hfresh) hc hx hmade hcx
    rw [hopen] at hpasses
    rcases hpasses hxe hne with hde | ⟨hlast, -⟩
    · exact absurd hde.measure_le (Nat.not_le.2 hed.2)
    · have hless := hx.less_advance
      rw [hlast, Outcome.cursor_accepted] at hless
      rcases hclose with ⟨hangle, -⟩ | ⟨hmore, -⟩
      · simp [hangle] at hless
      · simp [Token.afterAngle?, hless, Symbol.afterAngle?] at hmore
  · have hdx : d.Reaches x := by
      rcases hclose with ⟨-, rfl⟩ | ⟨-, rfl⟩
      · refine (hex.eq_or_advance_of_isName hx.name).resolve_left ?_
        rintro rfl
        exact absurd hx.name (by simp [hname])
      · exact hex.split_of_isName hx.name
    have := hdx.measure_le
    simp only [takesToken, Outcome.within_accepted, ↓reduceIte] at hstrict
    omega

end Nonterminal

/-! ## Past a parenthesis -/

namespace Nonterminal

/-- What stands in the parameters of a type, outside of brackets. -/
@[simp] def inAngles : Nonterminal → Bool
  | .attribute | .attributes | .type | .typeParameters _ | .constructorType | .expression true
  | .operations true | .unary | .suffixed | .suffixes _ | .primary | .arguments
  | .construction _ _ => true
  | _ => false

end Nonterminal

namespace Rule

variable {α : Type}

/-- Before a `(` the rule takes nothing. -/
@[simp] def Shut : Production α → Prop
  | .done _ | .fail _ => True
  | .look k => ∀ t, t.kind = .symbol .parenLeft → (k t).Shut
  | _ => False

/-- Behind a closing angle the rule takes no `(` outside of brackets. -/
@[simp] def Guards : Production α → Option Token → List Bracket → Prop
  | .done _, _, _ | .fail _, _, _ => True
  | .look k, _, o => ∀ t, (k t).Guards (some t) o
  | .lookBehind k, seen, o => ∀ kind, (k kind).Guards seen o
  | .advance k, seen, o =>
    ∃ t, seen = some t ∧ (t.kind.isAngles → k.Shut) ∧ ∃ o', t.kind.nest o = some o' ∧
      k.Guards none o'
  | .split k, _, o => k.Guards none o
  | .read m k, _, o =>
    (o = [] → m.inAngles) ∧ ∀ a, (m.endsPlain ∨ (k a).Shut) ∧ (k a).Guards none o
  | .attempt _ k, seen, o =>
    o = [] ∧ (∀ a, (k (some a)).Guards none o) ∧ (k none).Guards seen o

variable {seen : Option Token} {o : List Bracket}

@[simp] theorem shut_ite {p : Prop} [Decidable p] {r r' : Production α} :
    (if p then r else r').Shut ↔ (p → r.Shut) ∧ (¬p → r'.Shut) := by
  split <;> simp_all

@[simp] theorem shut_elim {γ : Type} {o : Option γ} {r : Production α} {f : γ → Production α} :
    (o.elim r f).Shut ↔ (o = none → r.Shut) ∧ ∀ a, o = some a → (f a).Shut := by
  cases o <;> simp

@[simp] theorem guards_ite {p : Prop} [Decidable p] {r r' : Production α} :
    (if p then r else r').Guards seen o ↔ (p → r.Guards seen o) ∧ (¬p → r'.Guards seen o) := by
  split <;> simp_all

@[simp] theorem guards_elim {γ : Type} {p : Option γ} {r : Production α} {f : γ → Production α} :
    (p.elim r f).Guards seen o ↔
      (p = none → r.Guards seen o) ∧ ∀ a, p = some a → (f a).Guards seen o := by
  cases p <;> simp

end Rule

namespace Production

open Rule

variable (options : ReadOptions)

private theorem guards_attribute : (ofNonterminal options .attribute).Guards none [] := by
  simp +contextual only [ofNonterminal, singleAttribute, steps_eq, ↓reduceIte, Bool.false_eq_true,
    Guards, guards_ite, Option.some.injEq, Shut, exists_eq_left', TokenKind.isAngles_symbol,
    reduceCtorEq, or_self, decide_false, implies_true, TokenKind.nest_symbol, Symbol.opens?,
    Symbol.closes?, List.nil_eq, exists_eq_left, true_and, and_true]
  intro opening t ht t'
  split
  · simp
  · rename_i name hname
    simp +contextual [TokenKind.isAngles_of_attributeName? hname,
      TokenKind.nest_of_attributeName? hname]

private theorem guards_attributes : (ofNonterminal options .attributes).Guards none [] := by
  simp +contextual [attributes]

private theorem guards_type : (ofNonterminal options .type).Guards none [] := by
  simp +contextual [type]

private theorem guards_typeParameters (typeName : String) :
    (ofNonterminal options (.typeParameters typeName)).Guards none [] := by
  have closes : ∀ (parameters : TypeParameters) (seen : Option Token),
      ((closeParameters typeName).bind fun _ => done parameters).Guards seen [] := by
    intro parameters seen
    simp +contextual [closeParameters, closeAngle_eq]
  have shut : ∀ (parameters : TypeParameters),
      ((closeParameters typeName).bind fun _ => done parameters).Shut := by
    intro parameters
    simp +contextual [closeParameters, closeAngle_eq, Token.afterAngle?, Symbol.afterAngle?]
  by_cases hptr : typeName = "ptr"
  · subst hptr
    simp +contextual [typeParameters, furtherParameter, closes, shut]
  · simp +contextual [typeParameters, furtherParameter, closes, shut, hptr]

private theorem guards_constructorType :
    (ofNonterminal options .constructorType).Guards none [] := by
  simp +contextual [constructorType]

private theorem guards_expression : (ofNonterminal options (.expression true)).Guards none [] := by
  simp +contextual [expression]

private theorem guards_operations : (ofNonterminal options (.operations true)).Guards none [] := by
  simp only [ofNonterminal, operations, steps_eq, Bool.true_and, Guards]
  intro t
  split
  · simp
  · rename_i op hop
    have hangle : t.kind.closesAngle = false → t.kind.isAngles = false := fun h => by
      by_contra hangle
      simp [TokenKind.closesAngle_of_isAngles (by simpa using hangle)] at h
    simp +contextual [TokenKind.nest_of_infix? hop, hangle]

private theorem guards_unary : (ofNonterminal options .unary).Guards none [] := by
  simp only [ofNonterminal, unary, steps_eq, Guards]
  intro t
  split
  · simp
  · rename_i op hop
    have hangle : t.kind.isAngles = false := by
      rw [TokenKind.unary?_eq_some_iff.1 hop]
      cases op <;> rfl
    simp [TokenKind.nest_of_unary? hop, hangle]

private theorem guards_suffixed : (ofNonterminal options .suffixed).Guards none [] := by
  simp +contextual [suffixed]

private theorem guards_suffixes (base : Expression) :
    (ofNonterminal options (.suffixes base)).Guards none [] := by
  simp only [ofNonterminal, suffixes, steps_eq, Guards]
  intro t
  split
  · simp +contextual [*]
  · simp +contextual [*]
  · split <;> simp
  · simp

private theorem guards_primary : (ofNonterminal options .primary).Guards none [] := by
  simp only [ofNonterminal, primary, steps_eq, Guards]
  intro t
  split
  · simp [*]
  · simp [*]
  · simp [*]
  · simp +contextual [*]
  · simp only [Guards]
    intro kind
    split
    · simp [*]
    · simp [*]
    · simp [*]
  · simp

private theorem guards_arguments : (ofNonterminal options .arguments).Guards none [] := by
  simp +contextual [arguments]

private theorem guards_construction (made : TypeSpecifier) (l : Location) :
    (ofNonterminal options (.construction made l)).Guards none [] := by
  simp only [ofNonterminal, construction, steps_eq, Guards, Nonterminal.inAngles, imp_self,
    Nonterminal.endsPlain, Nonterminal.endsExpression, true_or, true_and]
  intro arguments
  split <;> simp

/-- The rules of what stands in the parameters of a type. -/
theorem guards {n : Nonterminal} (hn : n.inAngles) : (ofNonterminal options n).Guards none [] :=
  match n, hn with
  | .attribute, _ => guards_attribute options
  | .attributes, _ => guards_attributes options
  | .type, _ => guards_type options
  | .typeParameters typeName, _ => guards_typeParameters options typeName
  | .constructorType, _ => guards_constructorType options
  | .expression true, _ => guards_expression options
  | .operations true, _ => guards_operations options
  | .unary, _ => guards_unary options
  | .suffixed, _ => guards_suffixed options
  | .suffixes base, _ => guards_suffixes options base
  | .primary, _ => guards_primary options
  | .arguments, _ => guards_arguments options
  | .construction made l, _ => guards_construction options made l

end Production

/-- What leaves some brackets open leaves as many more open where some are already. -/
theorem nest_of_nest_nil {ks : List TokenKind} {o o₁ : List Bracket} (h : nest o ks = some o₁)
    (o' : List Bracket) : nest (o ++ o') ks = some (o₁ ++ o') := by
  induction ks generalizing o with
  | nil =>
    obtain rfl := Option.some.inj h
    rfl
  | cons k ks ih =>
    obtain ⟨o₂, hk, hks⟩ := Option.bind_eq_some_iff.1 h
    have hnext : k.nest (o ++ o') = some (o₂ ++ o') := by
      rcases TokenKind.nest_cases hk with ⟨hplain, rfl⟩ | ⟨b, rfl, rfl⟩ | ⟨b, rfl, rfl⟩
      · exact TokenKind.nest_of_isBracket hplain
      · exact TokenKind.nest_opening b
      · exact TokenKind.nest_closing b
    rw [nest, List.foldlM_cons, hnext]
    exact ih hks

section Passing

variable {options : ReadOptions} {us ts : List Token} {l : Location} {c : Cursor}

/-- From the cursor on, a type may be tried that ends where the first tokens do. -/
def MeetsType (options : ReadOptions) (us ts : List Token) (l : Location) (c : Cursor) : Prop :=
  ∃ x made, c.Reaches x ∧ x.Doubtful us ∧
    Nonterminal.constructorType.outcome options (x.append ts l) = .accepted made (.before ts l)

/-- What is met later on is met from here on. -/
theorem MeetsType.of_reaches {d : Cursor} (h : MeetsType options us ts l d) (hd : c.Reaches d) :
    MeetsType options us ts l c := by
  obtain ⟨x, made, hx, hrest⟩ := h
  exact ⟨x, made, hd.trans hx, hrest⟩

/-- The first tokens end with a closing angle, and a `(` follows. -/
structure AngleParen (us ts : List Token) (l : Location) : Prop where
  angle : ∀ t ∈ us.getLast?, t.kind.isAngles
  paren : (Cursor.before ts l).current.kind = .symbol .parenLeft

/-- Among the parameters of a type, what is read past a `(` behind a closing angle, outside of
brackets, meets a type that ends there. -/
def Nonterminal.PassesParen (options : ReadOptions) (us ts : List Token) (l : Location)
    (n : Nonterminal) (e : Cursor) : Prop :=
  ∀ c : Cursor, e = c.append ts l → n.inAngles → c.upcoming ≠ [] → c.upcoming <:+ us →
    c.Fresh us → nest [] c.kinds = some [] → ∀ (a : n.Result) (f : Cursor),
      n.outcome options (c.append ts l) = .accepted a f → f.upcoming.length < ts.length →
        MeetsType options us ts l c

/-- Before a `(`, a rule that takes nothing takes nothing. -/
theorem Rule.Shut.eq_before {α : Type} {k : Production α} {a : α} {f : Cursor} (hk : k.Shut)
    (hparen : (Cursor.before ts l).current.kind = .symbol .parenLeft)
    (ho : k.comesTo options (.before ts l) = .accepted a f) : f = .before ts l := by
  induction k with
  | done b => cases ho; rfl
  | fail e => cases ho
  | look k ih => exact ih _ (hk _ hparen) ho
  | _ => exact hk.elim

namespace AngleParen

/-- Tokens that end with a closing angle do not end with a name. -/
theorem parted (h : AngleParen us ts l) : Cursor.Parted us ts l := by
  intro t ht hname
  have hangle := h.angle t ht
  obtain ⟨name, hname⟩ := TokenKind.isName_iff.1 hname
  simp [hname] at hangle

/-- What is read up to the end of the first tokens may end with a closing angle. -/
theorem not_endsPlain (h : AngleParen us ts l) {m : Nonterminal} {b : m.Result}
    (hne : c.upcoming ≠ []) (hc : c.upcoming <:+ us)
    (hm : m.outcome options (c.append ts l) = .accepted b (.before ts l)) :
    m.endsPlain = false := by
  by_contra hends
  rcases m.outcome_endsPlain options (by simpa using hends) (Cursor.suffix_append hc) hm with
    hplain | ⟨-, heq⟩
  · have hus : us ≠ [] := by
      rintro rfl
      exact hne (List.suffix_nil.1 hc)
    obtain ⟨front, last, rfl⟩ := (List.eq_nil_or_concat' us).resolve_left hus
    have hangle := hplain last ⟨front, (List.append_assoc front [last] ts).symm⟩
    rw [h.angle last (by simp)] at hangle
    cases hangle
  · have := Cursor.length_lt_append ts l hne
    rw [← heq] at this
    simp [Cursor.before] at this

/-- What is reached behind the first tokens, elsewhere than at the `(`, leaves it. -/
theorem length_lt (h : AngleParen us ts l) {d : Cursor} (hd : (Cursor.before ts l).Reaches d)
    (hne : d ≠ .before ts l) : d.upcoming.length < ts.length := by
  have hsplit : (Cursor.before ts l).current.afterAngle? = none := by
    simp [Token.afterAngle?, h.paren, Symbol.afterAngle?]
  have hbeyond := (hd.eq_or_advance hsplit).resolve_left hne.symm
  have hpos := List.length_pos_iff.2
    (Cursor.upcoming_ne_nil (c := .before ts l) (by simp [h.paren]))
  have := hbeyond.suffix.length_le
  rw [Cursor.upcoming_advance, List.length_tail] at this
  simp only [Cursor.before] at this hpos
  omega

/-- What is reached leaves some of the first tokens, stands at the `(`, or has passed it. -/
theorem place (h : AngleParen us ts l) {d : Cursor} (hd : (c.append ts l).Reaches d) :
    (∃ e, d = e.append ts l ∧ e.upcoming ≠ [] ∧ c.Reaches e) ∨ d = .before ts l ∨
      d.upcoming.length < ts.length := by
  by_cases hlt : ts.length < d.upcoming.length
  · exact .inl (hd.exists_append hlt)
  · refine .inr ((em (d = .before ts l)).imp_right fun hne => ?_)
    exact h.length_lt (hd.of_before (Nat.le_of_not_lt hlt)) hne

end AngleParen

/-- What is read from one of the first tokens to behind them nests the rest of them. -/
theorem Nonterminal.exists_nest_of_outcome {m : Nonterminal} {b : m.Result} {d : Cursor}
    (hm : m.outcome options (c.append ts l) = .accepted b d)
    (hd : d.upcoming.length ≤ ts.length) : ∃ o, nest [] c.kinds = some o := by
  obtain ⟨ks, hks, hnest⟩ := Nonterminal.outcome_nests hm []
  have hreaches := m.outcome_reaches options (c.append ts l)
  rw [hm] at hreaches
  obtain ⟨mid, hmid⟩ : d.upcoming <:+ ts := (hreaches.of_before hd).suffix
  have hks' : ks = c.kinds ++ mid.map (·.kind) := by
    refine List.append_cancel_right (hks.symm.trans ?_)
    simp only [Cursor.kinds, Cursor.upcoming_append, ← hmid]
    simp
  rw [hks', nest_append] at hnest
  obtain ⟨o, ho, -⟩ := Option.bind_eq_some_iff.1 hnest
  exact ⟨o, ho⟩

/-- What is read among the first tokens closes the brackets that it opens. -/
theorem Nonterminal.nest_of_outcome_append {m : Nonterminal} {b : m.Result} {d : Cursor}
    (hm : m.outcome options (c.append ts l) = .accepted b (d.append ts l)) (o : List Bracket) :
    nest o c.kinds = nest o d.kinds := by
  obtain ⟨ks, hks, hnest⟩ := Nonterminal.outcome_nests hm o
  have hks' : c.kinds = ks ++ d.kinds := by
    refine (List.append_left_inj (ts.map (·.kind))).1 ?_
    simpa [Cursor.kinds, Cursor.upcoming_append] using hks
  rw [hks', nest_append, hnest, Option.bind_some]

namespace Rule

/-- What is known of a rule that is followed from one of the first tokens: it takes no `(` behind a
closing angle, tries types at names only, and what it reads and tries there goes past the `(` only
through a type that ends there. -/
structure Inside (options : ReadOptions) (us ts : List Token) (l : Location) {α : Type}
    (n : Nonterminal) (r : Production α) (s : Stand) (seen : Option Token) (o : List Bracket)
    (c : Cursor) : Prop where
  guards : r.Guards seen o
  names : r.Names options n s
  along : r.Along (fun n c => n.outcome options c) (Nonterminal.PassesParen options us ts l)
    (c.append ts l)
  stands : s.Holds options (us ++ ts) (c.append ts l)
  sees : ∀ t, seen = some t → s.seen = some t
  ne_nil : c.upcoming ≠ []
  suffix : c.upcoming <:+ us
  nests : nest o c.kinds = some []

/-- A rule goes past the `(` only if it meets a type that ends there. -/
def PassesParen (options : ReadOptions) (us ts : List Token) (l : Location) {α : Type}
    (n : Nonterminal) (r : Production α) : Prop :=
  ∀ ⦃s seen o c⦄, r.Inside options us ts l n s seen o c → ∀ ⦃a f⦄,
    r.comesTo options (c.append ts l) = .accepted a f → f.upcoming.length < ts.length →
      MeetsType options us ts l c

namespace PassesParen

variable {α : Type} {n m : Nonterminal}

theorem look {k : Token → Production α} (ih : ∀ t, PassesParen options us ts l n (k t)) :
    PassesParen options us ts l n (.look k) := fun _ _ _ _ hr _ _ ho hf =>
  ih _ ⟨hr.guards _, hr.names _ hr.stands.admits, hr.along, hr.stands.look, by simp, hr.ne_nil,
    hr.suffix, hr.nests⟩ ho hf

theorem lookBehind {k : TokenKind → Production α}
    (ih : ∀ kind, PassesParen options us ts l n (k kind)) :
    PassesParen options us ts l n (.lookBehind k) := fun _ _ _ _ hr _ _ ho hf =>
  ih _ ⟨hr.guards _, hr.names.2.2 _, hr.along, hr.stands.lookBehind, hr.sees, hr.ne_nil,
    hr.suffix, hr.nests⟩ ho hf

/-- Behind the closing angle a rule takes no `(`; before it, brackets stay open as they are. -/
theorem advance (h : AngleParen us ts l) {k : Production α}
    (ih : PassesParen options us ts l n k) : PassesParen options us ts l n (.advance k) := by
  intro s seen o c hr a f ho hf
  obtain ⟨t, ht, hend, -, -, hnames⟩ := hr.names
  obtain ⟨u, hu, hshut, o', ho', hguards⟩ := hr.guards
  obtain rfl : t = u := by simpa [ht] using hr.sees u hu
  have hcurrent : c.current = t := by
    rw [← hr.stands.seen t ht, Cursor.current_append ts l hr.ne_nil]
  have hnext := Cursor.advance_append ts l hr.ne_nil
  rw [Production.comesTo, follow, hnext] at ho
  by_cases hlastToken : c.advance.upcoming = []
  · -- the last of the first tokens is a closing angle, and what follows it takes nothing
    obtain ⟨u, hu, hcons⟩ := Cursor.last_of_advance hr.suffix hr.ne_nil hlastToken
    have hangles : t.kind.isAngles := by
      simp only [← hcurrent, Cursor.current, hcons, Token.isAngles_afterAngles]
      exact h.angle u hu
    rw [Cursor.append_of_nil hlastToken] at ho
    obtain rfl := (hshut hangles).eq_before h.paren ho
    exact absurd hf (Nat.lt_irrefl _)
  · have hstands := hr.stands.advance ht hend (Cursor.suffix_append hr.suffix)
    have hnests : nest o' c.advance.kinds = some [] := by
      obtain ⟨ks, hks, hnest⟩ := Cursor.Nests.advance (c := c) (hcurrent ▸ ho')
      have := hr.nests
      rwa [hks, nest_append, hnest, Option.bind_some] at this
    exact (ih ⟨hguards, hnames, hnext ▸ hr.along, hnext ▸ hstands, by simp, hlastToken,
      Cursor.suffix_advance hr.suffix, hnests⟩ ho hf).of_reaches (Cursor.Reaches.refl c).advance

theorem split {k : Production α} (ih : PassesParen options us ts l n k) :
    PassesParen options us ts l n (.split k) := by
  intro s seen o c hr a f ho hf
  have hnext := Cursor.split_append ts l hr.ne_nil
  have hne : c.split.upcoming ≠ [] := by
    rw [Cursor.upcoming_split]
    exact hr.ne_nil
  have hnests : nest o c.split.kinds = some [] := by
    rw [Cursor.kinds, Cursor.upcoming_split]
    exact hr.nests
  rw [Production.comesTo, follow, hnext] at ho
  exact (ih ⟨hr.guards, hr.names.2, hnext ▸ hr.along, hnext ▸ hr.stands.split hr.names.1, by simp,
    hne, Cursor.suffix_split hr.suffix, hnests⟩ ho hf).of_reaches (Cursor.Reaches.refl c).split

/-- Where it ends decides: among the first tokens, at the `(`, or past it. -/
theorem read (h : AngleParen us ts l) {k : m.Result → Production α}
    (ih : ∀ b, PassesParen options us ts l n (k b)) :
    PassesParen options us ts l n (.read m k) := by
  intro s seen o c hr a f ho hf
  obtain ⟨hbound, hnames⟩ := hr.names
  obtain ⟨hinner, hguards⟩ := hr.guards
  have hfresh := hr.stands.fresh.1 hbound
  have hends := m.endsFresh options (us ++ ts) _ (Cursor.suffix_append hr.suffix) hfresh
  cases hm : m.outcome options (c.append ts l) with
  | rejected err e => simp [Production.comesTo_read_of_rejected hm] at ho
  | accepted b d =>
    rw [Production.comesTo_read_of_accepted hm] at ho
    have hreaches := m.outcome_reaches options (c.append ts l)
    rw [hm] at hreaches
    rcases h.place hreaches with ⟨d, rfl, hd, hreaches⟩ | rfl | hlt
    · have hnests := hr.nests
      rw [Nonterminal.nest_of_outcome_append hm] at hnests
      exact (ih b ⟨(hguards b).2, (hnames b).2, hr.along.2 b _ hm, .ofFresh (hends b _ hm),
        by simp, hd, hreaches.suffix.trans hr.suffix, hnests⟩ ho hf).of_reaches hreaches
    · -- what ends with a closing angle is followed by nothing that takes the `(`
      rcases (hguards b).1 with hplain | hshut
      · rw [h.not_endsPlain hr.ne_nil hr.suffix hm] at hplain
        cases hplain
      · obtain rfl := hshut.eq_before h.paren ho
        exact absurd hf (Nat.lt_irrefl _)
    · -- the brackets that are open now are still open where it ends, so there are none
      obtain ⟨o₁, ho₁⟩ := Nonterminal.exists_nest_of_outcome hm hlt.le
      have hopen := nest_of_nest_nil ho₁ o
      rw [List.nil_append, hr.nests] at hopen
      obtain ⟨rfl, rfl⟩ := List.append_eq_nil_iff.1 (Option.some.inj hopen).symm
      exact hr.along.1 c rfl (hinner rfl) hr.ne_nil hr.suffix (Cursor.fresh_append.1 hfresh) ho₁
        b d hm hlt

/-- A type that is tried and ends at the `(` is the one that is met. -/
theorem attempt (h : AngleParen us ts l) {k : Option m.Result → Production α}
    (ih : ∀ b, PassesParen options us ts l n (k b)) :
    PassesParen options us ts l n (.attempt m k) := by
  intro s seen o c hr a f ho hf
  obtain ⟨-, hbound, -, rfl, hsome, hnone⟩ := id hr.names
  obtain ⟨rfl, hgsome, hgnone⟩ := hr.guards
  have hfresh := hr.stands.fresh.1 hbound
  have hends := Nonterminal.constructorType.endsFresh options (us ++ ts) _
    (Cursor.suffix_append hr.suffix) hfresh
  cases hm : Nonterminal.constructorType.outcome options (c.append ts l) with
  | rejected err e =>
    rw [Production.comesTo_attempt_of_rejected hm] at ho
    exact ih _ ⟨hgnone, hnone, hr.along.2.2 err e hm, hr.stands.refuse hm, hr.sees, hr.ne_nil,
      hr.suffix, hr.nests⟩ ho hf
  | accepted b d =>
    rw [Production.comesTo_attempt_of_accepted hm] at ho
    have hreaches := Nonterminal.constructorType.outcome_reaches options (c.append ts l)
    rw [hm] at hreaches
    rcases h.place hreaches with ⟨d, rfl, hd, hreaches⟩ | rfl | hlt
    · have hnests := hr.nests
      rw [Nonterminal.nest_of_outcome_append hm] at hnests
      exact (ih _ ⟨hgsome b, hsome b, hr.along.2.1 b _ hm, .ofFresh (hends b _ hm), by simp, hd,
        hreaches.suffix.trans hr.suffix, hnests⟩ ho hf).of_reaches hreaches
    · exact ⟨c, b, .refl c, hr.names.doubtful hr.stands h.parted hr.ne_nil hr.suffix, hm⟩
    · exact hr.along.1 c rfl rfl hr.ne_nil hr.suffix (Cursor.fresh_append.1 hfresh) hr.nests b d
        hm hlt

end PassesParen

/-- Every rule goes past the `(` only if it meets a type that ends there, since this holds of what
it reads and tries. -/
theorem passesParen (h : AngleParen us ts l) {α : Type} {n : Nonterminal} (r : Production α) :
    PassesParen options us ts l n r := by
  induction r with
  | done b =>
    intro s seen o c hr a f ho hf
    cases ho
    have := Cursor.length_lt_append ts l hr.ne_nil
    omega
  | fail e => exact fun _ _ _ _ _ _ _ ho => by cases ho
  | look k ih => exact PassesParen.look ih
  | lookBehind k ih => exact PassesParen.lookBehind ih
  | advance k ih => exact PassesParen.advance h ih
  | split k ih => exact PassesParen.split ih
  | read m k ih => exact PassesParen.read h ih
  | attempt m k ih => exact PassesParen.attempt h ih

end Rule

/-- Among the parameters of a type, nothing goes past such a `(` but through a type that ends
there. -/
theorem Nonterminal.passesParen (h : AngleParen us ts l) (n : Nonterminal) (e : Cursor) :
    n.PassesParen options us ts l e := by
  refine outcome_induction options (fun n e ha => ?_) n e
  rintro c rfl hn hne hc hfresh hnest a f ho hf
  rw [outcome_eq] at ho
  exact Rule.passesParen h _ ⟨Production.guards options hn, Production.names options n, ha,
    .ofFresh (Cursor.fresh_append.2 hfresh), by simp, hne, hc, hnest⟩ ho hf

end Passing

end Wgsl
