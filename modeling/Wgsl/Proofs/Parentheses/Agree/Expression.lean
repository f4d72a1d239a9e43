import Wgsl.Proofs.Parentheses.Agree.Rule

/-!
# Parentheses dropped and parentheses kept: expressions

Two rules do not take the same steps in both readings. That of a primary expression makes a node of
parentheses in one of them. And what stands in parentheses may be called in the other, if it is a
name; but no token opens parentheses behind those that close some.
-/

namespace Wgsl

namespace Production

open Rule Nonterminal Cursor

variable (opens : Location → Prop)

/-! ## Attributes and types -/

theorem agrees_attributes : ShowsAgree opens .attributes := fun _ _ _ =>
  (Agrees.sees .attr).bind fun _ _ => .ite
    ((Agrees.parse .attribute trivial).bind fun _ _ =>
      (Agrees.parse .attributes trivial).bind fun _ _ => .pure rfl)
    (.pure rfl)

theorem agrees_attribute : ShowsAgree opens .attribute := by
  intro c _ _
  refine .look ((Agrees.expect _ _).bind fun _ d => .look ?_)
  split
  · exact .unexpected _
  · exact Agrees.skip.bind fun _ _ => (Agrees.accept _).bind fun _ _ => .ite
      ((Agrees.parse .expressions trivial).bind fun _ _ => (Agrees.expect _ _).bind fun _ _ =>
        .pure rfl)
      (.pure rfl)

theorem agrees_type : ShowsAgree opens .type := fun _ _ _ =>
  (Agrees.parse .attributes trivial).bind fun _ _ => .look <|
    (Agrees.identifier _).bind fun _ _ => (Agrees.accept _).bind fun _ _ => .ite
      ((Agrees.parse (.typeParameters _) trivial).bind fun _ _ => .pure rfl)
      (.pure rfl)

private theorem agrees_furtherParameter {c : Cursor} :
    Agrees opens id (fun _ => []) furtherParameter furtherParameter c :=
  .same _ (by simp)

private theorem agrees_closeParameters (typeName : String) {c : Cursor} :
    Agrees opens id (fun _ => []) (closeParameters typeName) (closeParameters typeName) c :=
  .same _ (by simp [closeParameters])

theorem agrees_typeParameters (typeName : String) :
    ShowsAgree opens (.typeParameters typeName) := by
  intro c _ _
  have hclose (d : Cursor) := agrees_closeParameters opens typeName (c := d)
  refine .ite ?pointer ?other
  case pointer =>
    exact (Agrees.identifier _).bind fun _ _ => (Agrees.expect _ _).bind fun _ _ =>
      (Agrees.parse .type trivial).bind fun _ _ => (agrees_furtherParameter opens).bind
        fun _ d => .ite
          ((Agrees.identifier _).bind fun _ d => (hclose d).bind fun _ _ => .pure rfl)
          ((hclose d).bind fun _ _ => .pure rfl)
  case other =>
    exact (Agrees.parse .type trivial).bind fun _ _ => (agrees_furtherParameter opens).bind
      fun _ d => .ite
        (.look <| .ite
          ((Agrees.parse (.expression true) trivial).bind fun _ d =>
            (hclose d).bind fun _ _ => .pure rfl)
          ((Agrees.identifier _).bind fun _ d => (hclose d).bind fun _ _ => .pure rfl))
        ((hclose d).bind fun _ _ => .pure rfl)

theorem agrees_constructorType : ShowsAgree opens .constructorType := fun _ _ _ =>
  (Agrees.parse .type trivial).bind fun _ _ => (Agrees.sees _).bind fun _ _ => .ite (.pure rfl)
    (.unexpected _)

/-! ## Expressions -/

theorem agrees_condition {c : Cursor} :
    Agrees opens Expression.ungrouped (fun _ => []) condition condition c :=
  (Agrees.parse (.expression false) trivial).bind fun e _ => .pure
    (e.withoutParentheses_ungrouped.trans e.ungrouped_withoutParentheses.symm)

theorem agrees_expression (inAngles : Bool) : ShowsAgree opens (.expression inAngles) :=
  fun _ _ _ => (Agrees.parse .unary trivial).bind fun first _ =>
    (Agrees.parse (.operations inAngles) trivial).bind fun chain _ =>
      .pure (Expression.ofChain_ungrouped first chain)

theorem agrees_operations (inAngles : Bool) : ShowsAgree opens (.operations inAngles) := by
  intro c _ _
  refine .look ?_
  split
  · exact .pure rfl
  · exact .ite (.pure rfl) (Agrees.skip.bind fun _ _ =>
      (Agrees.parse .unary trivial).bind fun _ _ =>
      (Agrees.parse (.operations inAngles) trivial).bind fun _ _ => .pure rfl)

theorem agrees_unary : ShowsAgree opens .unary := by
  intro c _ _
  refine .look ?_
  split
  · exact .parse .suffixed trivial
  · exact Agrees.skip.bind fun _ _ => (Agrees.parse .unary trivial).bind fun _ _ => .pure rfl

/-- What is in parentheses is not called: behind them none are opened. -/
theorem agrees_suffixed : ShowsAgree opens .suffixed := fun _ _ _ =>
  Agrees.parseHeaded (n := .primary) trivial
    (fun base _ hbase => .parse (.suffixes base) hbase.2) fun _ => not_callsAt_nil

theorem agrees_suffixes (base : Expression) : ShowsAgree opens (.suffixes base) := by
  intro c _ hstarts
  refine .look ?_
  split
  · exact Agrees.skip.bind fun _ _ => (Agrees.parse (.expression false) trivial).bind
      fun index _ => (Agrees.expect _ _).bind fun _ _ =>
        .parse (.suffixes (.index base index _)) False.elim
  · exact Agrees.skip.bind fun _ _ => (Agrees.identifier _).bind fun name _ =>
      .parse (.suffixes (.member base name _)) False.elim
  · rename_i hopen
    cases base with
    | identifier callee l =>
      exact (Agrees.parse .arguments trivial).bind fun arguments _ =>
        .parse (.suffixes (.call callee arguments l)) False.elim
    | grouped inner l => exact absurd hopen (hstarts trivial)
    | _ => exact .unexpected _
  · exact .pure rfl

/-- Whether a type is `bitcast`, and of which target, is the same without parentheses. -/
theorem bitcastTarget?_ungrouped (t : TypeSpecifier) :
    t.ungrouped.bitcastTarget? = t.bitcastTarget?.map TypeSpecifier.ungrouped := by
  obtain ⟨attributes, name, parameters, l⟩ := t
  by_cases hname : name = "bitcast"
  · cases parameters <;> simp [hname, TypeSpecifier.bitcastTarget?, TypeSpecifier.inner?,
      TypeParameters.type?]
  · simp [hname, TypeSpecifier.bitcastTarget?]

theorem agrees_construction (t : TypeSpecifier) (l : Location) :
    ShowsAgree opens (.construction t l) := by
  intro c _ _
  refine (Agrees.parse .arguments trivial).bind fun arguments _ => ?_
  rw [bitcastTarget?_ungrouped]
  cases t.bitcastTarget? with
  | none => exact .pure rfl
  | some target =>
    rcases arguments with _ | ⟨value, _ | ⟨further, rest⟩⟩
    · exact .fail _ _
    · exact .pure rfl
    · exact .fail _ _

theorem agrees_primary : ShowsAgree opens .primary := by
  intro c _ _
  refine .look ?_
  split
  · exact Agrees.skip.bind fun _ _ => .pure rfl
  · exact Agrees.skip.bind fun _ _ => .pure rfl
  · exact Agrees.skip.bind fun _ _ => .pure rfl
  · exact Agrees.skip.bind fun _ _ => (Agrees.parse (.expression false) trivial).bind fun _ _ =>
      (Agrees.expect _ _).bind fun _ _ => .pure rfl
  · refine .lookBehind ?_
    split
    · refine Agrees.tryType.bind fun made _ => ?_
      cases made with
      | some made => exact .parse (.construction made _) trivial
      | none => exact Agrees.skip.bind fun _ _ => .pure rfl
    · exact Agrees.skip.bind fun _ _ => .ite
        ((Agrees.parse .arguments trivial).bind fun _ _ => .pure rfl) (.pure rfl)
    · exact Agrees.skip.bind fun _ _ => .pure rfl
  · exact .unexpected _

theorem agrees_expressions : ShowsAgree opens .expressions := fun _ _ _ =>
  (Agrees.sees _).bind fun _ _ => .ite (.pure rfl)
    ((Agrees.parse (.expression false) trivial).bind fun _ _ => (Agrees.accept _).bind
      fun _ _ => .ite
        ((Agrees.parse .expressions trivial).bind fun _ _ => .pure rfl) (.pure rfl))

theorem agrees_arguments : ShowsAgree opens .arguments := fun _ _ _ =>
  (Agrees.expect _ _).bind fun _ _ => (Agrees.parse .expressions trivial).bind fun _ _ =>
    (Agrees.expect _ _).bind fun _ _ => .pure rfl

end Production

end Wgsl
