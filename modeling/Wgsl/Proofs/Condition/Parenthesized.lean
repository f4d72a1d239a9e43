import Wgsl.Proofs.Condition.Differ
import Wgsl.Proofs.Condition.Reserved
import Wgsl.Proofs.Redundant.Module
import Wgsl.Proofs.Relocation.Grammar
import Wgsl.Proofs.Spelling.Written.Expression

/-!
# Conditions in parentheses

A condition gives up its outermost parentheses, also where parentheses are kept. So a condition may
be put in parentheses, and the module is still accepted. It is the same but for locations exactly if
the condition was not in parentheses before (`Module.relocate_ofSource_condition`): of two pairs
only the outer one is given up.

The tokens before a condition end with a reserved word (`Nonterminal.ReadsCondition.endsReserved`),
so they are read alike with the parentheses and without them. From the condition on, and up to the
module, what was read is read again, or makes a difference that no rule on the way loses
(`Nonterminal.ReadsCondition.exists_outcome_enclosed`).
-/

namespace Wgsl

open scoped Rule.Steps

open Rule in
/-- Reading the nonterminal from a cursor reads a condition: the expression that stands from one
place to another. -/
inductive Nonterminal.ReadsCondition (options : ReadOptions) (e : Expression)
    (start stop : Cursor) : Nonterminal → Cursor → Prop
  | condition {n : Nonterminal} {c : Cursor} {k : Expression → Production n.Result}
    (hn : n.takesCondition = true)
    (h : Production.Remains options (Production.condition >>= k) start
      (Production.ofNonterminal options n) c)
    (he : (Nonterminal.expression false).outcome options start = .accepted e stop) :
    ReadsCondition options e start stop n c
  | read {n m : Nonterminal} {c d : Cursor} {k : m.Result → Production n.Result}
    (h : Production.Remains options (Rule.read m k) d (Production.ofNonterminal options n) c)
    (hm : ReadsCondition options e start stop m d) : ReadsCondition options e start stop n c

variable {options : ReadOptions} {l : Location} {us : List Token} {n m : Nonterminal}
variable {c d : Cursor} {e : Expression}

namespace Nonterminal

/-- The condition that a nonterminal reads for itself is a value. -/
theorem takesValue_of_takesCondition (hn : n.takesCondition = true) : n.takesValue = true := by
  cases n <;> first | rfl | cases hn

/-- What reads a condition for itself may hold conditions. -/
theorem holdsConditions_of_takesCondition (hn : n.takesCondition = true) :
    n.holdsConditions = true := by
  cases n <;> first | rfl | cases hn

/-- What may hold conditions is read with conditions in it. -/
theorem tests_of_holdsConditions (hm : m.holdsConditions = true) : n.tests m = true := by
  cases m <;> first | exact hm | cases hm

namespace ReadsCondition

variable {start stop : Cursor}

/-- The condition is an expression that is accepted. -/
theorem accepted (h : n.ReadsCondition options e start stop c) :
    (expression false).outcome options start = .accepted e stop := by
  induction h with
  | condition _ _ he => exact he
  | read _ _ ih => exact ih

/-- A condition is read as a value. -/
theorem readsValue (h : n.ReadsCondition options e start stop c) :
    n.ReadsValue options false start stop c := by
  induction h with
  | condition hn h he => exact .value (takesValue_of_takesCondition hn) h he
  | read h _ ih => exact .read h ih

/-- So there may be conditions in what reads one. -/
theorem holdsConditions (h : n.ReadsCondition options e start stop c) :
    n.holdsConditions = true := by
  induction h with
  | condition hn _ _ => exact holdsConditions_of_takesCondition hn
  | read h _ ih =>
    obtain ⟨seen, halways, -⟩ := (Production.differs options _).remains (by simp) h
    exact (halways.1 (tests_of_holdsConditions ih)).1

end ReadsCondition

end Nonterminal

/-! ## Before the condition -/

/-- The nonterminal reads the expression as a condition. -/
abbrev Bracketing.IsCondition (E : Bracketing options l) (n : Nonterminal) (c : Cursor) : Prop :=
  n.ReadsCondition options E.value E.atPlain E.atRest c

/-- A condition around which parentheses are put is read where an expression is. -/
theorem Bracketing.IsCondition.isRead {E : Bracketing options l} (h : E.IsCondition n c)
    (hangles : E.inAngles = false) : E.IsRead n c := by
  rw [Bracketing.IsRead, hangles]
  exact h.readsValue

/-- Where a rule goes on with a condition, or with what has conditions in it, it goes behind a
reserved word. -/
theorem Rule.Crosses.endsReserved {α : Type} {k : m.Result → Production α} {r' : Production α}
    (h : Crosses us n k r' d) (hd : d.upcoming <:+ us) (htests : n.tests m = true) :
    ∃ t, EndsReserved us t := by
  obtain ⟨t, ht, hu⟩ := Cursor.last_of_advance hd h.ne_nil h.last
  have hreserved := h.ledBy.tests htests
  have hfresh := h.fresh hreserved
  have hcurrent : d.current = t.afterAngles d.taken := by rw [Cursor.current, hu]
  rw [hcurrent] at hreserved
  refine ⟨t, ht, ?_, fun u hsuffix => hfresh u (by rwa [hu])⟩
  rcases t.afterAngles_eq_or d.taken with hsame | hleft
  · rwa [hsame] at hreserved
  · simp only [List.mem_cons, List.not_mem_nil, or_false] at hleft
    rcases hleft with hleft | hleft | hleft <;> simp [hleft] at hreserved

/-- The tokens before a condition end with a reserved word. -/
theorem Nonterminal.ReadsCondition.endsReserved {E : Bracketing options l} {e : Cursor}
    (hangles : E.inAngles = false) (h : E.IsCondition n e) (he : e = c.append E.plain l)
    (hne : c.upcoming ≠ []) (hc : c.upcoming <:+ us) (hfresh : c.Fresh us) :
    ∃ t, EndsReserved us t := by
  have hcross : ∀ {n m : Nonterminal} {c : Cursor} {k : m.Result → Production n.Result},
      c.upcoming ≠ [] → c.upcoming <:+ us → c.Fresh us → n.offers m = true → n.tests m = true →
      Production.Remains options (Rule.read m k) E.atPlain (Production.ofNonterminal options n)
        (c.append E.plain l) → ∃ t, EndsReserved us t := by
    intro n m c k hne hc hfresh hm htests h
    obtain ⟨r', d, hcrosses, hreaches, -⟩ :=
      (Production.names options n).exists_crosses (Production.offersValues options n)
        (.ofFresh (Cursor.fresh_append.2 hfresh)) hne hc hm h
    exact hcrosses.endsReserved (hreaches.suffix.trans hc) htests
  induction h generalizing c with
  | condition hn h _ =>
    subst he
    exact hcross (m := .expression false) hne hc hfresh (takesValue_of_takesCondition hn) hn h
  | @read n m e f k h hm ih =>
    subst he
    have hread := Bracketing.IsCondition.isRead hm hangles
    rcases hread.eq_or_exists_append (h.reaches fun n c => n.outcome_reaches options c) with
      rfl | ⟨f, rfl, hf, hreaches⟩
    · exact hcross hne hc hfresh (offers_of_beginsValue (hread.beginsValue rfl))
        (tests_of_holdsConditions hm.holdsConditions) h
    · exact ih rfl hf (hreaches.suffix.trans hc)
        (Cursor.fresh_append.1 (Rule.fresh_of_remains (Cursor.suffix_append hc)
          (Cursor.fresh_append.2 hfresh) h fun s hr => hr.1))

/-! ## From the condition on -/

namespace Expression

/-- Parentheses that are given up were there. -/
theorem relocate_withoutParentheses_ne (f : Location → Location)
    (he : e.withoutParentheses ≠ e) : e.withoutParentheses.relocate f ≠ e.relocate f := by
  cases e with
  | grouped inner l =>
    intro heq
    have hsize := congrArg sizeOf heq
    simp only [withoutParentheses, relocate, grouped.sizeOf_spec] at hsize
    omega
  | _ => exact absurd rfl he

end Expression

/-- The result is the other one, unless the condition in it was in parentheses. Then it differs. -/
structure Nonterminal.Changes (e : Expression) (n : Nonterminal) (b a : n.Result) : Prop where
  same : e.withoutParentheses = e → b = a
  differ : e.withoutParentheses ≠ e → n.Differ b a

/-- What is accepted with one value of a nonterminal is accepted with the other, and the results
differ as the values do. -/
theorem Nonterminal.Changes.exists_accepted {k : m.Result → Production n.Result}
    (hk : ∀ b a, m.Differ b a → (k b).Abreast n.Differ (k a)) {w v : m.Result} {a : n.Result}
    (h : m.Changes e w v) (ho : (k v).comesTo options c = .accepted a d) :
    ∃ b, (k w).comesTo options c = .accepted b d ∧ n.Changes e b a := by
  by_cases he : e.withoutParentheses = e
  · rw [h.same he]
    exact ⟨a, ho, fun _ => rfl, fun hne => absurd he hne⟩
  · obtain ⟨b, hb, hdiffer⟩ :=
      (ho ▸ (hk w v (h.differ he)).alike options c).exists_accepted
    exact ⟨b, hb, fun heq => absurd heq he, fun _ => hdiffer⟩

/-- What is accepted, and reads the expression as a condition, is accepted with the parentheses,
changed if the expression is in parentheses already. -/
theorem Nonterminal.ReadsCondition.exists_outcome_enclosed {E : Bracketing options l}
    (hkeep : options.keepParentheses = true) (hangles : E.inAngles = false)
    (hparted : ∀ ts, Cursor.Parted us ts l) {e : Cursor} (h : E.IsCondition n e) {a : n.Result}
    (ho : n.outcome options e = .accepted a d) (he : e = c.append E.plain l)
    (hc : c.upcoming ≠ [] → c.Aligned E us) :
    ∃ b, n.outcome options (c.append E.enclosed l) = .accepted b d ∧ n.Changes E.value b a := by
  induction h generalizing c d with
  | @condition n e k hn h hv =>
    subst he
    obtain ⟨seen, halways, -⟩ := (Production.differs options n).remains (by simp) h
    have hk := (halways.1 hn).2
    have hremains := Rule.remains_enclosed hparted (m := .expression false)
      (takesValue_of_takesCondition hn) h hc
    have hends := E.ends_rest
    rw [hangles] at hends
    rw [outcome_eq, h.follow_eq, ← Production.comesTo] at ho
    replace ho := (Production.comesTo_read_of_accepted hv).symm.trans ho
    rw [outcome_eq, hremains.follow_eq, ← Production.comesTo,
      Production.comesTo_read_of_accepted (E.expression_enclosed_of_ends hends)]
    have hgiven : E.enclosedValue.withoutParentheses = E.value := by
      rw [Bracketing.enclosedValue, hkeep]
      rfl
    by_cases hplain : E.value.withoutParentheses = E.value
    · refine ⟨a, ?_, fun _ => rfl, fun hne => absurd hplain hne⟩
      rw [← ho]
      exact congrArg (fun v => (k v).comesTo options E.atRest) (hgiven.trans hplain.symm)
    · have hdiffer : (expression false).Differ E.enclosedValue E.value := by
        rw [Differ, hgiven]
        exact (Expression.relocate_withoutParentheses_ne _ hplain).symm
      obtain ⟨b, hb, hchanged⟩ := (ho ▸ (hk _ _ hdiffer).alike options E.atRest).exists_accepted
      exact ⟨b, hb, fun heq => absurd heq hplain, fun _ => hchanged⟩
  | @read n m e f k h hm ih =>
    subst he
    obtain ⟨seen, halways, -⟩ := (Production.differs options n).remains (by simp) h
    have hk := (halways.1 (tests_of_holdsConditions hm.holdsConditions)).2
    rw [outcome_eq, h.follow_eq, ← Production.comesTo] at ho
    cases hb : m.outcome options f with
    | rejected err g => simp [Production.comesTo_read_of_rejected hb] at ho
    | accepted b g =>
      rw [Production.comesTo_read_of_accepted hb] at ho
      obtain ⟨f, rfl, hf, hremains⟩ :=
        (Bracketing.IsCondition.isRead hm hangles).exists_remains_enclosed hparted h hc
      obtain ⟨b', hb', hchanged⟩ := ih hb rfl hf
      obtain ⟨a', ha', hchanged'⟩ := hchanged.exists_accepted hk ho
      refine ⟨a', ?_, hchanged'⟩
      rw [outcome_eq, hremains.follow_eq, ← Production.comesTo,
        Production.comesTo_read_of_accepted hb']
      exact ha'

/-- A condition in declarations may stand in parentheses. -/
theorem Nonterminal.ReadsCondition.declarations_parenthesized {within rest : List Token}
    {opening closing : Token} {m : Module} (hkeep : options.keepParentheses = true)
    (hopening : opening.kind = .symbol .parenLeft) (hclosing : closing.kind = .symbol .parenRight)
    (hread : declarations.ReadsCondition options e (.before (within ++ rest) l) (.before rest l)
      (.before (us ++ (within ++ rest)) l)) (hrest : rest ≠ [])
    (ho : declarations.outcome options (.before (us ++ (within ++ rest)) l) = .accepted m d) :
    ∃ m', declarations.outcome options (.before (us ++ opening :: (within ++ closing :: rest)) l) =
      .accepted m' d ∧ declarations.Changes e m' m := by
  let E : Bracketing options l := ⟨within, rest, opening, closing, false, e, hopening, hclosing,
    hrest, hread.accepted⟩
  have hus : us ≠ [] := by
    rintro rfl
    cases ReadsValue.beginsValue (E := E) hread.readsValue rfl
  have hbefore : Cursor.before (us ++ E.plain) l = (Cursor.before us l).append E.plain l :=
    (Cursor.before_append us E.plain l l).symm
  have hfresh := Cursor.fresh_before us l
  obtain ⟨t, hends⟩ :=
    endsReserved (E := E) rfl hread hbefore hus (List.suffix_refl us) hfresh
  have henclosed := exists_outcome_enclosed (E := E) hkeep rfl hends.parted hread ho hbefore
    fun _ => ⟨List.suffix_refl us, hfresh, hends.agrees (List.suffix_refl us)⟩
  rwa [Cursor.before_append] at henclosed

namespace Module

/-- Reading the module that tokens spell reads a condition: the expression that stands from one of
them up to another. -/
def ReadsCondition (tokens : List Token) (first stop : Nat) (e : Expression)
    (options : ReadOptions := {}) : Prop :=
  Nonterminal.declarations.ReadsCondition options e (Cursor.advance^[first] (.ofTokens tokens))
    (Cursor.advance^[stop] (.ofTokens tokens)) (.ofTokens tokens)

variable {within ts : List Token} {m : Module}

/-- With a condition put in parentheses, the tokens of a module spell a module. -/
theorem exists_ofTokens_condition {opening closing : Token}
    (hopening : opening.kind = .symbol .parenLeft) (hclosing : closing.kind = .symbol .parenRight)
    (hm : ofTokens (us ++ within ++ ts) .keeping = .ok m)
    (hread : ReadsCondition (us ++ within ++ ts) us.length (us.length + within.length) e .keeping) :
    ∃ m', ofTokens (us ++ opening :: within ++ closing :: ts) .keeping = .ok m' ∧
      Nonterminal.declarations.Changes e m' m := by
  rw [ReadsCondition] at hread
  obtain ⟨d, ho⟩ := ofTokens_eq_ok_iff.1 hm
  have hstop := hread.readsValue.stop_ne_nil (Cursor.lacks_endOfFile_ofTokens _) ho
  obtain ⟨rest, l, hrest, hplain, henclosed⟩ :=
    Cursor.exists_ofTokens_parenthesized hopening hclosing hstop
  rw [hplain] at hread ho
  rw [Cursor.advance_iterate_append, ← List.length_append, ← List.append_assoc,
    Cursor.advance_iterate_append, List.append_assoc] at hread
  have hkeep : ReadOptions.keeping.keepParentheses = true := rfl
  obtain ⟨m', ho', hchanges⟩ :=
    hread.declarations_parenthesized hkeep hopening hclosing hrest ho
  exact ⟨m', ofTokens_eq_ok_iff.2 ⟨d, by rw [henclosed, ho']⟩, hchanges⟩

/-- Where parentheses are kept, any condition of a module may be put in parentheses: the module is
accepted still. But for locations it is the same module exactly if the condition is not in
parentheses itself. -/
theorem relocate_ofSource_condition {source source' : String}
    (htokens : tokenize source = us ++ within ++ ts)
    (hkinds : (tokenize source').map Token.kind = us.map Token.kind ++
      .symbol .parenLeft :: within.map Token.kind ++ .symbol .parenRight :: ts.map Token.kind)
    (hm : ofSource source .keeping = .ok m)
    (hread : ReadsCondition (tokenize source) us.length (us.length + within.length) e .keeping) :
    (∃ m', ofSource source' .keeping = .ok m') ∧
      (relocate (fun _ => .start) (ofSource source' .keeping) =
        relocate (fun _ => .start) (ofSource source .keeping) ↔ e.withoutParentheses = e) := by
  rw [ofSource, htokens] at hm
  rw [htokens] at hread
  have hopening : (Token.mk (.symbol .parenLeft) .start).kind = .symbol .parenLeft := rfl
  have hclosing : (Token.mk (.symbol .parenRight) .start).kind = .symbol .parenRight := rfl
  obtain ⟨m', hm', hchanges⟩ := exists_ofTokens_condition hopening hclosing hm hread
  have hsame : relocate (fun _ => .start) (ofSource source' .keeping) =
      relocate (fun _ => .start) (.ok m') := by
    rw [← hm', ofSource]
    exact relocate_ofTokens_congr (by simp [hkinds]) .keeping
  have haccepted : ∃ m', ofSource source' .keeping = .ok m' := by
    cases h : ofSource source' .keeping with
    | ok m => exact ⟨m, rfl⟩
    | error err =>
      rw [h] at hsame
      cases hsame
  refine ⟨haccepted, ?_⟩
  rw [hsame, ofSource, htokens, hm]
  refine ⟨fun heq => ?_, fun he => by rw [hchanges.same he]⟩
  by_contra he
  exact hchanges.differ he (Except.ok.inj heq)

/-- The tokens of `fn f() { if`. -/
def ifTokens : List Token :=
  [⟨.keyword .fn, ⟨1, 1⟩⟩, ⟨.identifier "f", ⟨1, 4⟩⟩, ⟨.symbol .parenLeft, ⟨1, 5⟩⟩,
    ⟨.symbol .parenRight, ⟨1, 6⟩⟩, ⟨.symbol .braceLeft, ⟨1, 8⟩⟩, ⟨.keyword .if, ⟨1, 10⟩⟩]

/-- Behind them stands a condition. -/
theorem readsCondition_of_if {stop : Cursor}
    (he : (Nonterminal.expression false).outcome options (.before ts l) = .accepted e stop) :
    Nonterminal.declarations.ReadsCondition options e (.before ts l) stop
      (.before (ifTokens ++ ts) l) := by
  have hattributes : ∀ (c : Cursor) (word : Keyword), c.current.kind = .keyword word →
      Nonterminal.attributes.outcome options c = .accepted [] c := fun c word hc => by
    rw [Nonterminal.outcome_eq]
    simp [Production.attributes, hc]
  have hparameters : ∀ c : Cursor, c.current.kind = .symbol .parenRight →
      (Nonterminal.bindings .parameter).outcome options c = .accepted [] c := fun c hc => by
    rw [Nonterminal.outcome_eq]
    simp [Production.bindings, BindingRole.closing, hc]
  have hresult : ∀ c : Cursor, c.current.kind = .symbol .braceLeft →
      Nonterminal.functionResult.outcome options c = .accepted none c := fun c hc => by
    rw [Nonterminal.outcome_eq]
    simp [Production.functionResult, hc]
  refine .read (m := .declaration) (.look .here) ?_
  refine .read (m := .item) (.read (hattributes _ .fn rfl) .here) ?_
  refine .read (m := .function) (.look (.advance .here)) ?_
  refine .read (m := .block "before function body") (.look (.look (.advance (.look (.advance
    (.read (hparameters _ rfl) (.look (.advance (.read (hresult _ rfl) .here))))))))) ?_
  refine .read (m := .statements) (.look (.advance .here)) ?_
  refine .read (m := .statement) (.look .here) ?_
  refine .read (m := .conditional) (.read (hattributes _ .if rfl) (.look (.advance .here))) ?_
  exact .condition rfl .here he

/-- In `fn f() { if a {} }` the `a` may stand in parentheses. -/
theorem relocate_ofSource_condition_name :
    (∃ m', ofSource "fn f() { if (a) {} }" .keeping = .ok m') ∧
      (relocate (fun _ => .start) (ofSource "fn f() { if (a) {} }" .keeping) =
        relocate (fun _ => .start) (ofSource "fn f() { if a {} }" .keeping) ↔
          (Expression.identifier "a" ⟨1, 13⟩).withoutParentheses = .identifier "a" ⟨1, 13⟩) := by
  have htokens : tokenize "fn f() { if a {} }" = ifTokens ++ [⟨.identifier "a", ⟨1, 13⟩⟩] ++
      [⟨.symbol .braceLeft, ⟨1, 15⟩⟩, ⟨.symbol .braceRight, ⟨1, 16⟩⟩,
        ⟨.symbol .braceRight, ⟨1, 18⟩⟩, ⟨.endOfFile, ⟨1, 19⟩⟩] := by decide +kernel
  have hkinds : (tokenize "fn f() { if (a) {} }").map Token.kind = ifTokens.map Token.kind ++
      .symbol .parenLeft :: [.identifier "a"] ++ .symbol .parenRight ::
        [.symbol .braceLeft, .symbol .braceRight, .symbol .braceRight, .endOfFile] := by
    decide +kernel
  have hcondition : (Nonterminal.expression false).outcome .keeping
      (.before [⟨.identifier "a", ⟨1, 13⟩⟩, ⟨.symbol .braceLeft, ⟨1, 15⟩⟩,
        ⟨.symbol .braceRight, ⟨1, 16⟩⟩, ⟨.symbol .braceRight, ⟨1, 18⟩⟩] ⟨1, 19⟩) =
      .accepted (.identifier "a" ⟨1, 13⟩) (.before [⟨.symbol .braceLeft, ⟨1, 15⟩⟩,
        ⟨.symbol .braceRight, ⟨1, 16⟩⟩, ⟨.symbol .braceRight, ⟨1, 18⟩⟩] ⟨1, 19⟩) := rfl
  have hread : ReadsCondition (tokenize "fn f() { if a {} }") 6 7 (.identifier "a" ⟨1, 13⟩)
      .keeping := by
    rw [htokens]
    exact readsCondition_of_if hcondition
  obtain ⟨m, hm⟩ := @exists_eq_ok (ofSource "fn f() { if a {} }" .keeping) (by decide +kernel)
  exact relocate_ofSource_condition htokens hkinds hm hread

/-- Of the parentheses of `if ((a))` the inner ones are kept, though `if (a)` keeps none: a
condition in parentheses cannot be put in parentheses unseen. -/
theorem relocate_ofSource_condition_in_parentheses :
    (∃ m, ofSource "fn f() { if (a) {} }" .keeping = .ok m) ∧
      ReadsCondition (tokenize "fn f() { if (a) {} }") 6 9
        (.grouped (.identifier "a" ⟨1, 14⟩) ⟨1, 13⟩) .keeping ∧
      relocate (fun _ => .start) (ofSource "fn f() { if ((a)) {} }" .keeping) ≠
        relocate (fun _ => .start) (ofSource "fn f() { if (a) {} }" .keeping) := by
  have honce : tokenize "fn f() { if (a) {} }" = ifTokens ++
      [⟨.symbol .parenLeft, ⟨1, 13⟩⟩, ⟨.identifier "a", ⟨1, 14⟩⟩, ⟨.symbol .parenRight, ⟨1, 15⟩⟩,
        ⟨.symbol .braceLeft, ⟨1, 17⟩⟩, ⟨.symbol .braceRight, ⟨1, 18⟩⟩,
        ⟨.symbol .braceRight, ⟨1, 20⟩⟩, ⟨.endOfFile, ⟨1, 21⟩⟩] := by decide +kernel
  have htwice : tokenize "fn f() { if ((a)) {} }" = ifTokens ++
      [⟨.symbol .parenLeft, ⟨1, 13⟩⟩, ⟨.symbol .parenLeft, ⟨1, 14⟩⟩, ⟨.identifier "a", ⟨1, 15⟩⟩,
        ⟨.symbol .parenRight, ⟨1, 16⟩⟩, ⟨.symbol .parenRight, ⟨1, 17⟩⟩,
        ⟨.symbol .braceLeft, ⟨1, 19⟩⟩, ⟨.symbol .braceRight, ⟨1, 20⟩⟩,
        ⟨.symbol .braceRight, ⟨1, 22⟩⟩, ⟨.endOfFile, ⟨1, 23⟩⟩] := by decide +kernel
  have hcondition : (Nonterminal.expression false).outcome .keeping
      (.before [⟨.symbol .parenLeft, ⟨1, 13⟩⟩, ⟨.identifier "a", ⟨1, 14⟩⟩,
        ⟨.symbol .parenRight, ⟨1, 15⟩⟩, ⟨.symbol .braceLeft, ⟨1, 17⟩⟩,
        ⟨.symbol .braceRight, ⟨1, 18⟩⟩, ⟨.symbol .braceRight, ⟨1, 20⟩⟩] ⟨1, 21⟩) =
      .accepted (.grouped (.identifier "a" ⟨1, 14⟩) ⟨1, 13⟩) (.before
        [⟨.symbol .braceLeft, ⟨1, 17⟩⟩, ⟨.symbol .braceRight, ⟨1, 18⟩⟩,
          ⟨.symbol .braceRight, ⟨1, 20⟩⟩] ⟨1, 21⟩) := rfl
  have hkept : ofSource "fn f() { if (a) {} }" .keeping =
      .ok [⟨[], .function ⟨"f", [], none, [.compound [] (.if (.identifier "a" ⟨1, 14⟩) [] [] none)
        ⟨1, 10⟩], ⟨1, 4⟩⟩⟩] := by
    rw [ofSource, honce]
    rfl
  have hkept' : ofSource "fn f() { if ((a)) {} }" .keeping =
      .ok [⟨[], .function ⟨"f", [], none, [.compound [] (.if (.grouped (.identifier "a" ⟨1, 15⟩)
        ⟨1, 14⟩) [] [] none) ⟨1, 10⟩], ⟨1, 4⟩⟩⟩] := by
    rw [ofSource, htwice]
    rfl
  refine ⟨⟨_, hkept⟩, ?_, ?_⟩
  · rw [honce]
    exact readsCondition_of_if hcondition
  · rw [hkept, hkept']
    simp [relocate, Except.map, Except.mapError]

end Module

end Wgsl
