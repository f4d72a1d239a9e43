import Wgsl.Proofs.Parentheses.Agree.Expression

/-!
# Parentheses dropped and parentheses kept: statements

Where parentheses are kept, a call in parentheses is no statement. Where they are dropped it is one,
and has its location from the parenthesis that opens. So a statement that only the reading with
parentheses dropped accepts has a call at such a location, and every rule passes it on.
-/

namespace Wgsl

namespace Production

open Rule Nonterminal Cursor

variable (opens : Location → Prop)

/-! ## Variables -/

theorem agrees_block (place : String) : ShowsAgree opens (.block place) := fun _ _ _ =>
  (Agrees.expect _ _).bind fun _ _ => (Agrees.parse .statements trivial).bindCalls
    (fun _ _ hss => (Agrees.expect _ _).bind fun _ _ => .pureCalls rfl hss)
    (fun _ _ h => .behind fun _ _ => h)

theorem agrees_storage (kind : VariableKind) : ShowsAgree opens (.storage kind) := fun _ _ _ =>
  .same _ (by simp [storage])

theorem agrees_ascription : ShowsAgree opens .ascription := fun _ _ _ =>
  (Agrees.accept _).bind fun _ _ => .ite ((Agrees.parse .type trivial).bind fun _ _ => .pure rfl)
    (.pure rfl)

theorem agrees_initializer (kind : VariableKind) : ShowsAgree opens (.initializer kind) :=
  fun _ _ _ => (Agrees.accept _).bind fun _ _ => .ite
    ((Agrees.parse (.expression false) trivial).bind fun _ _ => .pure rfl)
    (.ite (.unexpected _) (.pure rfl))

theorem agrees_variable (kind : VariableKind) (l : Location) :
    ShowsAgree opens (.variable kind l) := by
  intro c _ _
  refine (Agrees.parse (.storage kind) trivial).bind fun storage _ => (Agrees.identifier _).bind
    fun name _ => (Agrees.parse .ascription trivial).bind fun type _ =>
    (Agrees.parse (.initializer kind) trivial).bind fun initializer _ => ?_
  rw [Nonterminal.ungrouped, Nonterminal.ungrouped, Option.isNone_map, Option.isNone_map]
  exact .ite (.unexpected _) (.pure rfl)

/-! ## Statements -/

theorem agrees_simpleStatement : ShowsAgree opens .simpleStatement := by
  intro c hc _
  refine .look (.parseHeaded (n := .unary) trivial (fun target d hheads => .look ?_)
    fun _ => not_callsAt_nil)
  cases d.current.kind.assignment? with
  | some op =>
    exact Agrees.skip.bind fun _ _ => (Agrees.parse (.expression false) trivial).bind fun _ _ =>
      .pureCalls rfl not_callsAt_nil
  | none =>
    cases d.current.kind.step? with
    | some op => exact Agrees.skip.bind fun _ _ => .pureCalls rfl not_callsAt_nil
    | none =>
      cases target with
      | call callee values l =>
        obtain ⟨name, hname⟩ := hheads
        have hopens : ¬opens c.current.location := by
          simpa [hname] using hc.opens_current (by simp [hname]) (by simp [hname])
        exact .pureCalls rfl fun h => hopens (callsAt_singleton.1 h)
      | grouped inner l =>
        -- with the parentheses dropped, what stands in them may be a call
        have hopen : c.current.kind = .symbol .parenLeft := hheads
        have hopens := (hc.opens_current (by simp [hopen]) (by simp [hopen])).2 hopen
        refine .refuses _ ?_
        simp only [Nonterminal.ungrouped, Expression.ungrouped]
        cases inner.ungrouped with
        | call callee values l => exact callsAt_singleton.2 hopens
        | _ => trivial
      | _ => exact .unexpected _

theorem agrees_plainStatement : ShowsAgree opens .plainStatement := by
  intro c _ _
  refine .look ?_
  split
  · exact Agrees.skip.bind fun _ _ => (Agrees.accept _).bind fun _ _ => .ite
      (.pureCalls rfl not_callsAt_nil)
      ((Agrees.parse (.expression false) trivial).bind fun _ _ => (Agrees.expect _ _).bind
        fun _ _ => .pureCalls rfl not_callsAt_nil)
  · exact Agrees.skip.bind fun _ _ => .look <| .ite
      (Agrees.skip.bind fun _ _ => (agrees_condition opens).bind fun _ _ =>
        (Agrees.expect _ _).bind fun _ _ => .pureCalls rfl not_callsAt_nil)
      ((Agrees.expect _ _).bind fun _ _ => .pureCalls rfl not_callsAt_nil)
  · exact Agrees.skip.bind fun _ _ => (Agrees.expect _ _).bind fun _ _ =>
      .pureCalls rfl not_callsAt_nil
  · exact Agrees.skip.bind fun _ _ => (Agrees.expect _ _).bind fun _ _ =>
      .pureCalls rfl not_callsAt_nil
  · exact Agrees.skip.bind fun _ _ => (agrees_condition opens).bind fun _ _ =>
      (Agrees.expect _ _).bind fun _ _ => .pureCalls rfl not_callsAt_nil
  · exact Agrees.skip.bind fun _ _ => (agrees_condition opens).bind fun _ _ =>
      (Agrees.expect _ _).bind fun _ _ => .pureCalls rfl not_callsAt_nil
  · split
    · exact Agrees.skip.bind fun _ _ => (Agrees.parse (.variable _ _) trivial).bind fun _ _ =>
        (Agrees.expect _ _).bind fun _ _ => .pureCalls rfl not_callsAt_nil
    · exact (Agrees.parse .simpleStatement trivial).bindCalls
        (fun _ _ hs => (Agrees.expect _ _).bind fun _ _ => .pureCalls rfl hs)
        fun _ _ h => .behind fun _ _ => h

theorem agrees_statement : ShowsAgree opens .statement := by
  intro c _ _
  refine (Agrees.parse .attributes trivial).bind fun attributes d => .look ?_
  split
  · exact Agrees.skip.bind fun _ _ => (Agrees.parse .conditional trivial).bindCalls
      (fun _ _ hform => .pureCalls rfl hform) fun _ _ h => h
  · exact Agrees.skip.bind fun _ _ => (Agrees.parse .selection trivial).bindCalls
      (fun _ _ hform => .pureCalls rfl hform) fun _ _ h => h
  · exact Agrees.skip.bind fun _ _ => (Agrees.parse .iteration trivial).bindCalls
      (fun _ _ hform => .pureCalls rfl hform) fun _ _ h => h
  · exact Agrees.skip.bind fun _ _ => (Agrees.parse .loop trivial).bindCalls
      (fun _ _ hform => .pureCalls rfl hform) fun _ _ h => h
  · exact Agrees.skip.bind fun _ _ => (Agrees.parse .repetition trivial).bindCalls
      (fun _ _ hform => .pureCalls rfl hform) fun _ _ h => h
  · exact (Agrees.parse (.block _) trivial).bindCalls
      (fun _ _ hss => .pureCalls rfl hss) fun _ _ h => h
  · cases attributes with
    | nil => exact .parse .plainStatement trivial
    | cons a as => exact .unexpected _

theorem agrees_statements : ShowsAgree opens .statements := by
  intro c _ _
  refine .look ?_
  split
  · exact Agrees.skip.bind fun _ _ => .parse .statements trivial
  · exact .pureCalls rfl not_callsAt_nil
  · exact .pureCalls rfl not_callsAt_nil
  · exact (Agrees.parse .statement trivial).bindCalls
      (fun _ _ hs => (Agrees.parse .statements trivial).bindCalls
        (fun _ _ hss => .pureCalls rfl (not_callsAt_append hs hss)) fun _ _ h => h.right)
      fun _ _ h => .behind fun _ _ => h.left

/-! ## Compound statements -/

theorem agrees_conditional : ShowsAgree opens .conditional := fun _ _ _ =>
  (agrees_condition opens).bind fun _ _ => (Agrees.parse (.block _) trivial).bindCalls
    (fun _ _ hbody => (Agrees.parse .alternatives trivial).bindCalls
      (fun _ _ hothers => .pureCalls (by simp)
        (callsAt_assoc.not.2 (not_callsAt_append hbody hothers)))
      fun _ _ h => callsAt_assoc.2 h.right)
    fun _ _ h => .behind fun _ _ => h.left.left

theorem agrees_alternatives : ShowsAgree opens .alternatives := fun _ _ _ =>
  .look <| .ite
    (Agrees.skip.bind fun _ _ => .look <| .ite
      (Agrees.skip.bind fun _ _ => (agrees_condition opens).bind fun _ _ =>
        (Agrees.parse (.block _) trivial).bindCalls
          (fun _ _ hbody => (Agrees.parse .alternatives trivial).bindCalls
            (fun _ _ hothers => .pureCalls rfl
              (callsAt_assoc.not.2 (not_callsAt_append hbody hothers)))
            fun _ _ h => callsAt_assoc.2 h.right)
          fun _ _ h => .behind fun _ _ => h.left.left)
      ((Agrees.parse (.block _) trivial).bindCalls
        (fun _ _ hbody => .pureCalls rfl hbody) fun _ _ h => h))
    (.pureCalls rfl not_callsAt_nil)

theorem agrees_selection : ShowsAgree opens .selection := fun _ _ _ =>
  (agrees_condition opens).bind fun _ _ => (Agrees.expect _ _).bind fun _ _ =>
    (Agrees.parse (.clauses false) trivial).bindCalls
      (fun _ _ hclauses => (Agrees.expect _ _).bind fun _ _ => .pureCalls rfl hclauses)
      fun _ _ h => .behind fun _ _ => h

theorem agrees_clauses (hasDefault : Bool) : ShowsAgree opens (.clauses hasDefault) := by
  intro c _ _
  refine .look ?_
  split
  · exact .pureCalls rfl not_callsAt_nil
  · exact Agrees.skip.bind fun _ _ => (Agrees.parse .selectors trivial).bind fun _ _ =>
      (Agrees.accept _).bind fun _ _ => (Agrees.parse (.block _) trivial).bindCalls
        (fun _ _ hbody => (Agrees.parse (.clauses hasDefault) trivial).bindCalls
          (fun _ _ hrest => .pureCalls rfl (not_callsAt_append hbody hrest)) fun _ _ h => h.right)
        fun _ _ h => .behind fun _ _ => h.left
  · exact .ite (.unexpected _)
      (Agrees.skip.bind fun _ _ => (Agrees.accept _).bind fun _ _ =>
        (Agrees.parse (.block _) trivial).bindCalls
          (fun _ _ hbody => (Agrees.parse (.clauses true) trivial).bindCalls
            (fun _ _ hrest => .pureCalls rfl (not_callsAt_append hbody hrest)) fun _ _ h => h.right)
          fun _ _ h => .behind fun _ _ => h.left)
  · exact .unexpected _

theorem agrees_selectors : ShowsAgree opens .selectors := fun _ _ _ =>
  (Agrees.parse (.expression false) trivial).bind fun _ _ => (Agrees.accept _).bind
    fun _ _ => .ite
      (.look <| .ite (.pure rfl) ((Agrees.parse .selectors trivial).bind fun _ _ => .pure rfl))
      (.pure rfl)

theorem agrees_forInitializer : ShowsAgree opens .forInitializer := by
  intro c _ _
  refine .look (.ite (.pureCalls rfl not_callsAt_nil) ?_)
  split
  · exact Agrees.skip.bind fun _ _ => (Agrees.parse (.variable _ _) trivial).bind fun _ _ =>
      .pureCalls rfl not_callsAt_nil
  · exact (Agrees.parse .simpleStatement trivial).bindCalls
      (fun _ _ hs => .pureCalls rfl hs) fun _ _ h => h

theorem agrees_forCondition : ShowsAgree opens .forCondition := fun _ _ _ =>
  (Agrees.sees _).bind fun _ _ => .ite (.pure rfl)
    ((Agrees.parse (.expression false) trivial).bind fun _ _ => .pure rfl)

theorem agrees_forUpdate : ShowsAgree opens .forUpdate := fun _ _ _ =>
  (Agrees.sees _).bind fun _ _ => .ite (.pureCalls rfl not_callsAt_nil)
    ((Agrees.parse .simpleStatement trivial).bindCalls
      (fun _ _ hs => .pureCalls rfl hs) fun _ _ h => h)

theorem agrees_iteration : ShowsAgree opens .iteration := fun _ _ _ =>
  (Agrees.expect _ _).bind fun _ _ => (Agrees.parse .forInitializer trivial).bindCalls
    (fun _ _ hfirst => (Agrees.expect _ _).bind fun _ _ =>
      (Agrees.parse .forCondition trivial).bind fun _ _ => (Agrees.expect _ _).bind fun _ _ =>
      (Agrees.parse .forUpdate trivial).bindCalls
        (fun _ _ hupdate => (Agrees.expect _ _).bind fun _ _ =>
          (Agrees.parse (.block _) trivial).bindCalls
            (fun _ _ hbody => .pureCalls (by simp)
              (not_callsAt_append (not_callsAt_append hfirst hupdate) hbody))
            fun _ _ h => h.right)
        fun _ _ h => .behind fun _ _ => .behind fun _ _ => h.right.left)
    fun _ _ h => .behind fun _ _ => .behind fun _ _ => .behind fun _ _ => .behind fun _ _ =>
      .behind fun _ _ => .behind fun _ _ => h.left.left

theorem agrees_repetition : ShowsAgree opens .repetition := fun _ _ _ =>
  (agrees_condition opens).bind fun _ _ => (Agrees.parse (.block _) trivial).bindCalls
    (fun _ _ hbody => .pureCalls (by simp) hbody) fun _ _ h => h

theorem agrees_loop : ShowsAgree opens .loop := fun _ _ _ =>
  (Agrees.expect _ _).bind fun _ _ => (Agrees.parse .loopBody trivial).bindCalls
    (fun _ _ hbody => (Agrees.expect _ _).bind fun _ _ => .pureCalls (by simp) hbody)
    fun _ _ h => .behind fun _ _ => h

theorem agrees_loopBody : ShowsAgree opens .loopBody := by
  intro c _ _
  refine .look ?_
  split
  · exact Agrees.skip.bind fun _ _ => .parse .loopBody trivial
  · exact .pureCalls rfl not_callsAt_nil
  · exact Agrees.skip.bind fun _ _ => (Agrees.parse (.block _) trivial).bindCalls
      (fun _ _ hbody => .pureCalls rfl hbody) fun _ _ h => h
  · exact (Agrees.parse .statement trivial).bindCalls
      (fun _ _ hs => (Agrees.parse .loopBody trivial).bindCalls
        (fun _ _ hbody => .pureCalls rfl
          (callsAt_assoc.not.2 (not_callsAt_append hs hbody)))
        fun _ _ h => callsAt_assoc.2 h.right)
      fun _ _ h => .behind fun _ _ => h.left.left

end Production

end Wgsl
