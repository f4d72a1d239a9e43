import Wgsl.Proofs.Prefix.Completion
import Wgsl.Proofs.Speculation.Lasting

/-!
# Names that may begin types

At a name before a `<` a type is tried. If it is accepted, a construction is read, and else the name
alone. So the tokens that complete what was read must not change whether it is accepted.

What was accepted has ended with a closing angle before a `(`, and the reader went on with the `(`;
so it has ended among the first tokens, and it is accepted whatever follows them
(`constructorType_lasts`). What was refused might be accepted before the other tokens. But it would
end with a closing angle before a `(`, and none stands there behind the first tokens (`Calm`), so it
would end among them. Then it would have been accepted (`Calm.exists_lasting`).

The rule of a primary expression is the only one that looks at the token behind the next one. Where
the name is the last of the first tokens, what follows it is another token in what is completed. But
a reader that went on behind the name did not stop there (`Production.named_last`).
-/

namespace Wgsl

open scoped Rule.Steps

/-- A rule that reads something comes at least to where that ends. -/
theorem Rule.reaches_read {options : ReadOptions} {α : Type} (m : Nonterminal)
    (k : m.Result → Production α) (c : Cursor) :
    (m.outcome options c).cursor.Reaches (Production.comesTo options (.read m k) c).cursor := by
  cases ho : m.outcome options c with
  | accepted b d =>
    rw [Production.comesTo_read_of_accepted ho]
    exact outcome_reaches options (k b) d
  | rejected e d =>
    rw [Production.comesTo_read_of_rejected ho]
    exact .refl d

namespace Nonterminal

variable {options : ReadOptions} {c : Cursor}

/-- Arguments begin with a parenthesis, which they take. -/
theorem arguments_reaches (hc : c.current.kind = .symbol .parenLeft) :
    c.advance.Reaches (arguments.outcome options c).cursor := by
  have htree : Production.arguments = .look fun t =>
      if t.kind = .symbol .parenLeft then
        .advance (Production.parse .expressions >>= fun arguments =>
          Rule.expect .parenRight "after arguments" >>= fun _ => pure arguments)
      else Rule.unexpected (.symbol .parenLeft "to open argument list") := by
    simp [Production.arguments]
  rw [outcome_eq, Production.ofNonterminal, htree, Rule.follow, if_pos hc]
  exact Rule.outcome_reaches options _ c.advance

/-- Building a value takes its opening parenthesis. -/
theorem construction_reaches (hc : c.current.kind = .symbol .parenLeft) (made : TypeSpecifier)
    (l : Location) : c.advance.Reaches ((construction made l).outcome options c).cursor := by
  rw [outcome_eq]
  exact (arguments_reaches hc).trans (Rule.reaches_read .arguments _ c)

end Nonterminal

section

variable {options : ReadOptions} {us ts xs angles : List Token} {count : Nat} {l : Location}
variable {c x e : Cursor} {made : TypeSpecifier}

/-- A type that is tried at one of the first tokens ends among them: it ends with closing angles
before a `(`. -/
theorem Calm.length_lt (hcalm : Calm us xs) (hx : x.Doubtful us) (hxus : x.upcoming <:+ us)
    (ho : Nonterminal.constructorType.outcome options (x.append xs l) = .accepted made e) :
    xs.length < e.upcoming.length := by
  obtain ⟨angle, paren, rest, hangle, hkind, hu, hbehind⟩ :=
    Nonterminal.exists_angle_paren (hx.append xs l) ho
  have hsuffix : angle :: e.upcoming <:+ us ++ xs := hbehind.trans (Cursor.suffix_append hxus)
  by_contra hlt
  have hne : us ≠ [] := by
    rintro rfl
    exact hx.ne_nil (List.suffix_nil.1 hxus)
  obtain ⟨front, last, rfl⟩ := (List.eq_nil_or_concat' us).resolve_left hne
  have hcalm' : AnglesApart (angle :: e.upcoming) := by
    rw [Calm, List.getLast?_concat] at hcalm
    refine List.IsChain.suffix hcalm (List.suffix_of_suffix_length_le hsuffix ?_ ?_)
    · exact ⟨front, (List.append_assoc front [last] xs).symm⟩
    · exact Nat.succ_le_succ (Nat.le_of_not_lt hlt)
  rw [AnglesApart, hu] at hcalm'
  exact (List.isChain_cons_cons.1 hcalm').1 hangle hkind

/-- Where no closing angle stands before a `(` behind the first tokens, a type that is tried at one
of them is accepted whatever follows them. -/
theorem Calm.exists_lasting (hcalm : Calm us xs) (hx : x.Doubtful us) (hxus : x.upcoming <:+ us)
    (ho : Nonterminal.constructorType.outcome options (x.append xs l) = .accepted made e)
    (ts : List Token) : (x.append ts l).BeginsType options := by
  have hreaches := Nonterminal.constructorType.outcome_reaches options (x.append xs l)
  rw [ho] at hreaches
  obtain ⟨d, rfl, hd, -⟩ := hreaches.exists_append (hcalm.length_lt hx hxus ho)
  exact ⟨made, _, constructorType_lasts hx hxus hd ho ts⟩

/-- So a type that is refused at one of them is refused. -/
theorem Calm.exists_rejected {err : ParseError} (hcalm : Calm us xs) (hx : x.Doubtful us)
    (hxus : x.upcoming <:+ us)
    (ho : Nonterminal.constructorType.outcome options (x.append ts l) = .rejected err e) :
    ∃ err' e', Nonterminal.constructorType.outcome options (x.append xs l) =
      .rejected err' e' := by
  cases hread : Nonterminal.constructorType.outcome options (x.append xs l) with
  | rejected err' e' => exact ⟨err', e', rfl⟩
  | accepted made e' =>
    obtain ⟨made', e', hsame⟩ := hcalm.exists_lasting hx hxus hread ts
    rw [ho] at hsame
    cases hsame

/-- What leaves a token before the break leaves one of the first tokens. -/
theorem Break.length_lt_of_advance {d : Cursor} (h : Break us ts angles count l)
    (hd : d.upcoming ≠ []) (hbreak : d.advance.Reaches (.closed ts l count)) :
    ts.length < d.upcoming.length := by
  have hpos := List.length_pos_iff.2 hd
  have hlength := hbreak.suffix.length_le
  rw [h.upcoming_closed (Nat.le_refl count), Cursor.upcoming_advance, List.length_tail] at hlength
  omega

/-- No type that is tried at one of the first tokens is a bitcast. -/
theorem Break.bitcastTarget?_eq_none {e : Cursor} (h : Break us ts angles count l)
    (hx : c.Doubtful us) (hc : c.upcoming <:+ us)
    (ho : Nonterminal.constructorType.outcome options (c.append ts l) = .accepted made e) :
    made.bitcastTarget? = none := by
  obtain ⟨name, hname⟩ := hx.exists_name
  have hcurrent := Cursor.current_append ts l hx.ne_nil
  obtain ⟨⟨parameters, -, rfl⟩, -⟩ := (Nonterminal.constructorType_eq_accepted_of_doubtful
    (hx.append ts l) ((congrArg Token.kind hcurrent).trans hname)).1 ho
  have hmem : c.current ∈ us := hc.subset (by rw [Cursor.upcoming_eq_of_name hname]; simp)
  have hne : name ≠ "bitcast" := by
    rintro rfl
    exact h.unnamed _ hmem hname
  simp [TypeSpecifier.bitcastTarget?, hne]

/-- A name before a `<` carries on, if the value does that may be read of a type there. -/
theorem Rule.CarriesOn.attempt {F : List TokenKind} {α : Type} {Y : α → Prop}
    {k : Option TypeSpecifier → Production α} (hx : c.Doubtful us) (hc : c.upcoming <:+ us)
    (hleaves : ∀ made d,
      Nonterminal.constructorType.outcome options (c.append ts l) = .accepted made d →
        ((k (some made)).comesTo options d).cursor.Reaches (.closed ts l count) →
          ts.length < d.upcoming.length)
    (hsome : ∀ made d, d.upcoming ≠ [] → c.Reaches d →
      Nonterminal.constructorType.outcome options (c.append ts l) =
        .accepted made (d.append ts l) →
          (k (some made)).CarriesOn options us ts angles count l F Y d)
    (hnone : (k none).CarriesOn options us ts angles count l F Y c)
    (h : Break us ts angles count l) :
    (Rule.attempt .constructorType k).CarriesOn options us ts angles count l F Y c := by
  -- what is accepted of the type before the one sequence of tokens is accepted before the other
  have hplace : ∀ made d,
      Nonterminal.constructorType.outcome options (c.append ts l) = .accepted made d →
        ((k (some made)).comesTo options d).cursor.Reaches (.closed ts l count) →
          ∃ e, d = e.append ts l ∧ e.upcoming ≠ [] ∧ c.Reaches e ∧
            ∀ xs, Nonterminal.constructorType.outcome options (c.append xs l) =
              .accepted made (e.append xs l) := by
    intro made d ho hbreak
    have hreaches := Nonterminal.constructorType.outcome_reaches options (c.append ts l)
    rw [ho] at hreaches
    obtain ⟨e, rfl, he, hreaches⟩ := hreaches.exists_append (hleaves made d ho hbreak)
    exact ⟨e, rfl, he, hreaches, constructorType_lasts hx hc he ho⟩
  constructor
  · intro xs a d d' hcalm hd ho
    cases hread : Nonterminal.constructorType.outcome options (c.append ts l) with
    | accepted made e =>
      rw [Production.comesTo_attempt_of_accepted hread] at ho
      obtain ⟨e, rfl, he, hreaches, hother⟩ := hplace made e hread (by rw [ho]; exact hd.reaches h)
      rw [Production.comesTo_attempt_of_accepted (hother _)]
      exact (hsome made e he hreaches hread).accepted hcalm hd ho
    | rejected err e =>
      obtain ⟨err', e', hother⟩ := hcalm.exists_rejected hx hc hread
      rw [Production.comesTo_attempt_of_rejected hread] at ho
      rw [Production.comesTo_attempt_of_rejected hother]
      exact hnone.accepted hcalm hd ho
  · intro err ho
    cases hread : Nonterminal.constructorType.outcome options (c.append ts l) with
    | accepted made e =>
      rw [Production.comesTo_attempt_of_accepted hread] at ho
      obtain ⟨e, rfl, he, hreaches, hother⟩ := hplace made e hread (by rw [ho]; exact .refl _)
      simp only [Production.comesTo_attempt_of_accepted (hother _)]
      exact (hsome made e he hreaches hread).rejected ho
    | rejected err e =>
      rw [Production.comesTo_attempt_of_rejected hread] at ho
      obtain ⟨w, hw, hcomplete⟩ := hnone.rejected ho
      refine ⟨w, hw, fun rest hrest hcalm => ?_⟩
      obtain ⟨err', e', hother⟩ := hcalm.exists_rejected hx hc hread
      rw [Production.comesTo_attempt_of_rejected hother]
      exact hcomplete rest hrest hcalm

/-- What is read at a name, before a token of the kind. -/
def Production.named (name : String) (l : Location) : TokenKind → Production Expression
  | .symbol .lessThan => .attempt .constructorType fun
    | some made => .read (.construction made l) .done
    | none => .advance (.done (.identifier name l))
  | .symbol .parenLeft => .advance <|
    if isConstructible name then
      .read .arguments fun arguments => .done (.construct ⟨[], name, .none, l⟩ arguments l)
    else .done (.identifier name l)
  | _ => .advance (.done (.identifier name l))

open Rule Nonterminal

/-- Before anything but a `<` and a `(` a name is a name alone. -/
theorem Production.named_eq {name : String} {l₀ : Location} {kind : TokenKind}
    (hkind : kind.parts = false) : named name l₀ kind = .advance (.done (.identifier name l₀)) := by
  unfold named
  split
  · cases hkind
  · cases hkind
  · rfl

/-- At the last of the first tokens, a name that is read up to the break is a name alone. -/
theorem Production.named_last {name : String} {l₀ : Location} (h : Break us ts angles count l)
    (hne : c.upcoming ≠ []) (hlast : c.advance.upcoming = [])
    (hname : c.current.kind = .identifier name)
    (hbreak : (comesTo options (.lookBehind (named name l₀)) (c.append ts l)).cursor.Reaches
      (.closed ts l count)) :
    comesTo options (.lookBehind (named name l₀)) (c.append ts l) =
      .accepted (.identifier name l₀) (.before ts l) := by
  have hnext : (c.append ts l).advance = .before ts l := by
    rw [Cursor.advance_append ts l hne, Cursor.append_of_nil hlast]
  have halone : comesTo options (.advance (.done (Expression.identifier name l₀)))
      (c.append ts l) = .accepted (.identifier name l₀) (.before ts l) := by
    rw [comesTo, follow, hnext, follow]
  -- nothing that leaves the token behind the name comes to the break
  have hstay : ∀ d : Cursor, (Cursor.before ts l).current.kind ≠ .endOfFile →
      (Cursor.before ts l).advance.Reaches d → ¬d.Reaches (.closed ts l count) :=
    fun d hend hd hbreak => Nat.lt_irrefl _
      (h.length_lt_of_advance (Cursor.upcoming_ne_nil hend) (hd.trans hbreak))
  revert hbreak
  rw [comesTo, follow, Cursor.following_append_of_last hne hlast, ← comesTo]
  unfold named
  split
  · rename_i hless
    intro hbreak
    cases hread : Nonterminal.constructorType.outcome options (c.append ts l) with
    | rejected e d => rw [comesTo_attempt_of_rejected hread, halone]
    | accepted made d =>
      obtain ⟨⟨parameters, hparameters, -⟩, -⟩ := (constructorType_eq_accepted_of_less
        (by rw [Cursor.current_append ts l hne, hname]) (by rw [hnext, hless])).1 hread
      have hreaches := (Nonterminal.typeParameters name).outcome_reaches options
        (c.append ts l).advance.advance
      rw [hparameters, hnext] at hreaches
      rw [comesTo_attempt_of_accepted hread] at hbreak
      exact absurd ((Rule.outcome_reaches options _ d).trans hbreak)
        (hstay d (by simp [hless]) hreaches)
  · rename_i hparen
    intro hbreak
    by_cases hmade : isConstructible name
    · rw [if_pos hmade, comesTo, follow, hnext] at hbreak
      exact absurd ((reaches_read .arguments _ _).trans hbreak)
        (hstay _ (by simp [hparen]) (arguments_reaches hparen))
    · rw [if_neg hmade, halone]
  · exact fun _ => halone

/-- A name that is the last of the first tokens carries on. -/
theorem Rule.CarriesOn.named_last {name : String} {l₀ : Location}
    (h : Break us ts angles count l) (hne : c.upcoming ≠ []) (hlast : c.advance.upcoming = [])
    (hname : c.current.kind = .identifier name) :
    (Rule.lookBehind (Production.named name l₀)).CarriesOn options us ts angles count l
      Nonterminal.primary.followers Nonterminal.primary.Yields c where
  accepted {xs a d d'} hcalm hd ho := by
    rw [Production.named_last h hne hlast hname (by rw [ho]; exact hd.reaches h)] at ho
    injection ho with ha hbefore
    subst ha hbefore
    obtain ⟨j, hj, -, hsame, rfl, hfollows⟩ := hd.exists_closed h (Nat.zero_le count) (.refl _)
    obtain rfl : 0 = j := h.closed_inj (Nat.zero_le count) hj hsame
    have hparts : (Cursor.before (angles ++ xs) l).current.kind.parts = false := by
      simp only [Cursor.closed, followers, List.mem_append, List.mem_cons, List.not_mem_nil,
        or_false] at hfollows
      rcases hfollows with (h | h) | h | h | h | h | h | h | h <;> rw [h] <;> rfl
    rw [Production.comesTo, follow, Cursor.following_append_of_last hne hlast,
      Production.named_eq hparts, follow, Cursor.advance_append _ l hne, Cursor.append_of_nil hlast]
    rfl
  rejected ho := by
    rw [Production.named_last h hne hlast hname (by rw [ho]; exact .refl _)] at ho
    cases ho

/-- A name carries on: if a type is tried there, it is accepted or refused whatever follows the
first tokens. -/
theorem Rule.CarriesOn.named {name : String} (h : Break us ts angles count l)
    (hne : c.upcoming ≠ []) (hc : c.upcoming <:+ us) (hfresh : c.Fresh us)
    (hname : c.current.kind = .identifier name)
    (ha : (Rule.lookBehind (Production.named name c.current.location)).Along
      (fun n c => n.outcome options c)
      (fun n e => n.CarriesOn options us ts angles count l e ∧ n.BeginsFresh (us ++ ts) e)
      (c.append ts l)) :
    (Rule.lookBehind (Production.named name c.current.location)).CarriesOn options us ts angles
      count l Nonterminal.primary.followers Nonterminal.primary.Yields c := by
  by_cases hlast : c.advance.upcoming = []
  · exact .named_last h hne hlast hname
  rw [Cursor.upcoming_advance] at hlast
  refine .lookBehind hlast ?_
  have halone : (Rule.advance (.done (.identifier name c.current.location)) :
      Production Expression).CarriesOn options us ts angles count l
        Nonterminal.primary.followers Nonterminal.primary.Yields c :=
    ((Goes.done trivial).viable_advance_of_kind hname (by simp) rfl).carriesOn h (by simp) hne hc
      trivial
  rw [Along, Cursor.following_append ts l hlast] at ha
  revert ha
  unfold Production.named
  split
  · rename_i hless
    intro ha
    have hx : c.Doubtful us := ⟨by rw [hname]; rfl, hless, hfresh⟩
    refine .attempt hx hc (fun made d ho hbreak => ?_) (fun made d hd hreaches ho => ?_) halone h
    · have hparen := (constructorType_eq_accepted.1 ho).2
      exact h.length_lt_of_advance (Cursor.upcoming_ne_nil (by simp [hparen]))
        (((construction_reaches hparen _ _).trans (reaches_read _ _ d)).trans hbreak)
    · have hread : (Rule.read (.construction made c.current.location) .done :
          Production Expression).Viable options Nonterminal.primary.followers
            Nonterminal.primary.Yields none :=
        ⟨h.bitcastTarget?_eq_none hx hc ho, .inl fun _ h => h,
          ⟨[], fun _ _ => ⟨rfl, trivial⟩, tame_nil, fun _ h => h⟩, fun _ => .inl trivial,
          fun _ => trivial⟩
      exact hread.carriesOn h (by simp) hd (hreaches.suffix.trans hc) (ha.2.1 made _ ho)
  · intro ha
    split at ha
    · rename_i hmade
      rw [if_pos hmade]
      exact (Goes.viable_advance_of_kind (.parse (by simp) fun arguments => .done trivial) hname
        (by simp) rfl).carriesOn h (by simp) hne hc ha
    · rename_i hmade
      rwa [if_neg hmade]
  · exact fun _ => halone

/-- A primary expression carries on, whatever it begins with. -/
theorem Nonterminal.primary_carriesOn (h : Break us ts angles count l) (hne : c.upcoming ≠ [])
    (hc : c.upcoming <:+ us) (hfresh : c.Fresh us)
    (ha : (Production.ofNonterminal options .primary).Along (fun n c => n.outcome options c)
      (fun n e => n.CarriesOn options us ts angles count l e ∧ n.BeginsFresh (us ++ ts) e)
      (c.append ts l)) :
    (Production.ofNonterminal options .primary).CarriesOn options us ts angles count l
      Nonterminal.primary.followers Nonterminal.primary.Yields c := by
  simp only [Production.ofNonterminal, Production.primary, bind_eq, pure_eq, current_eq,
    following_eq, look_bind, lookBehind_bind, done_bind, Production.parse] at ha ⊢
  refine .look hne ?_
  rw [Along, Cursor.current_append ts l hne] at ha
  have hviable : ∀ {r : Production Expression}, r.Viable options Nonterminal.primary.followers
      Nonterminal.primary.Yields (some c.current) → r.Along _ _ _ →
        r.CarriesOn options us ts angles count l Nonterminal.primary.followers
          Nonterminal.primary.Yields c :=
    fun hr => Viable.carriesOn h hr (by simp) hne hc
  revert ha
  split
  · rename_i hkind
    exact hviable (.skip_of_kind hkind (by simp) rfl (.done trivial))
  · rename_i hkind
    exact hviable (.skip_of_kind hkind (by simp) rfl (.done trivial))
  · rename_i hkind
    exact hviable (.skip_of_kind hkind (by simp) rfl (.done trivial))
  · rename_i hkind
    exact hviable (.skip_of_kind hkind (by simp) rfl <| .parse (by simp) fun e =>
      .expect rfl <| .done trivial)
  · rename_i name hname
    exact .named h hne hc hfresh hname
  · exact hviable viable_unexpected

end

end Wgsl
