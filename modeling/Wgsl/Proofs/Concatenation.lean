import Wgsl.Proofs.Discipline
import Wgsl.Proofs.WholeFile

/-!
# Modules one behind the other

A declaration ends with a `;` or a `}`, and whoever reads it stops directly behind that token
without a look at the next one. So what stands behind a module does not change how it is read.

The difficulty is what is tried: a name and a `<` may begin a type, and how far that has to be read
is not known beforehand. But nothing in an expression takes a `;` or a `}`, so while one of them is
still upcoming (`Cursor.Open`), an attempt stops before the tokens end, accepted or not, and never
sees what stands behind them. In a module that is accepted the last token is a `;` or a `}`
(`Cursor.EndsClosed`), so one is upcoming wherever there are tokens left.
-/

namespace Wgsl

open Nonterminal

/-- Splitting leaves no token that closes, and takes none. -/
theorem Token.closes_afterAngles (t : Token) (n : Nat) :
    (t.afterAngles n).kind.closes = t.kind.closes := by
  refine t.afterAngles_kind_congr TokenKind.closes (fun mark left h => ?_) n
  cases mark <;> cases h <;> rfl

namespace Cursor

/-- A cursor with more tokens behind the upcoming ones. -/
def append (c : Cursor) (ts : List Token) (l : Location) : Cursor where
  upcoming := c.upcoming ++ ts
  taken := if c.upcoming = [] then 0 else c.taken
  finish := l
  taken_le := by
    have := c.taken_le
    split <;> omega

variable {c : Cursor} (ts : List Token) (l : Location)

/-- Where tokens are left, the next one is the same with more tokens behind. -/
theorem current_append (h : c.upcoming ≠ []) : (c.append ts l).current = c.current := by
  obtain ⟨t, rest, hu⟩ := List.exists_cons_of_ne_nil h
  simp [current, append, hu]

/-- Where two tokens are left, so is the kind of the second. -/
theorem following_append (h : c.upcoming.tail ≠ []) : (c.append ts l).following = c.following := by
  obtain ⟨u, rest, hrest⟩ := List.exists_cons_of_ne_nil h
  cases hu : c.upcoming with
  | nil => simp [hu] at hrest
  | cons t tail =>
    obtain rfl : tail = u :: rest := by simpa [hu] using hrest
    simp [following, append, hu]

/-- Where tokens are left, the cursor advances alike. -/
theorem advance_append (h : c.upcoming ≠ []) :
    (c.append ts l).advance = c.advance.append ts l := by
  obtain ⟨t, rest, hu⟩ := List.exists_cons_of_ne_nil h
  simp [advance, append, hu]

/-- Where tokens are left, the cursor splits alike. -/
theorem split_append (h : c.upcoming ≠ []) : (c.append ts l).split = c.split.append ts l := by
  have htaken : (c.append ts l).taken = c.taken := if_neg h
  by_cases hsplit : c.taken < 2 ∧ c.current.afterAngle?.isSome
  · rw [split, split, dif_pos hsplit, dif_pos (by rwa [htaken, current_append ts l h])]
    simp [append, h]
  · rw [split, split, dif_neg hsplit, dif_neg (by rwa [htaken, current_append ts l h])]

variable {ts}

/-- A `;` or a `}` is still upcoming. -/
def Open (c : Cursor) : Prop := ∃ t ∈ c.upcoming, t.kind.closes

/-- Before a `;` or `}` tokens are left. -/
theorem Open.ne_nil (h : c.Open) : c.upcoming ≠ [] := by
  obtain ⟨t, ht, -⟩ := h
  exact List.ne_nil_of_mem ht

/-- A split leaves what closes. -/
theorem Open.split (h : c.Open) : c.split.Open := by
  unfold Open
  rwa [upcoming_split]

/-- Behind another token, the `;` or `}` is still upcoming. -/
theorem Open.advance (h : c.Open) (hc : c.current.kind.closes = false) : c.advance.Open := by
  obtain ⟨t, ht, hcloses⟩ := h
  unfold Open
  rw [upcoming_advance]
  cases hu : c.upcoming with
  | nil => simp [hu] at ht
  | cons u rest =>
    rw [current, hu] at hc
    rw [hu] at ht
    rcases List.mem_cons.1 ht with rfl | ht
    · rw [Token.closes_afterAngles, hcloses] at hc
      exact Bool.noConfusion hc
    · exact ⟨t, ht, hcloses⟩

/-- Behind a name, the `;` or `}` is still upcoming. -/
theorem Open.tail_ne_nil {name : String} (h : c.Open) (hc : c.current.kind = .identifier name) :
    c.upcoming.tail ≠ [] := by
  rw [← upcoming_advance]
  exact (h.advance (by rw [hc]; rfl)).ne_nil

/-- The last of the upcoming tokens, if there are any, is a `;` or a `}`. -/
def EndsClosed (c : Cursor) : Prop := ∀ t ∈ c.upcoming.getLast?, t.kind.closes

/-- Where tokens are left and the last of them closes, one that closes is left. -/
theorem EndsClosed.isOpen (h : c.EndsClosed) (hne : c.upcoming ≠ []) : c.Open :=
  ⟨_, List.getLast_mem hne, h _ (List.getLast?_eq_some_getLast hne)⟩

/-- Later on, the last token is the same. -/
theorem EndsClosed.of_suffix {c' : Cursor} (h : c.EndsClosed)
    (hsuffix : c'.upcoming <:+ c.upcoming) : c'.EndsClosed := by
  obtain ⟨past, hpast⟩ := hsuffix
  intro t ht
  refine h t ?_
  rw [← hpast, Option.mem_def, List.getLast?_append, Option.mem_def.1 ht, Option.some_or]

/-- The last token to be read closes. -/
theorem EndsClosed.closes_current (h : c.EndsClosed) (hne : c.upcoming ≠ [])
    (hlast : c.advance.upcoming = []) : c.current.kind.closes = true := by
  rw [upcoming_advance] at hlast
  obtain ⟨t, rest, hu⟩ := List.exists_cons_of_ne_nil hne
  obtain rfl : rest = [] := by rwa [hu, List.tail_cons] at hlast
  rw [current, hu, Token.closes_afterAngles]
  exact h t (by simp [hu])

/-- The cursor stands in a sequence of tokens directly behind a `;` or a `}`. -/
def BehindClosing (ts : List Token) (c : Cursor) : Prop :=
  ∃ t, t.kind.closes ∧ t :: c.upcoming <:+ ts

/-- What is directly behind a closing token in some of the tokens is so in all of them. -/
theorem BehindClosing.of_suffix {us : List Token} (h : c.BehindClosing us) (hus : us <:+ ts) :
    c.BehindClosing ts := by
  obtain ⟨t, ht, hsuffix⟩ := h
  exact ⟨t, ht, hsuffix.trans hus⟩

/-- Behind a token that closes, a cursor is behind what closes. -/
theorem behindClosing_advance (h : c.current.kind.closes) : c.advance.BehindClosing c.upcoming := by
  have hend : c.current.kind ≠ .endOfFile := fun hend => by simp [hend, TokenKind.closes] at h
  obtain ⟨t, rest, hu, hc⟩ := exists_upcoming_eq_cons hend
  refine ⟨t, ?_, ?_⟩
  · rwa [hc, Token.closes_afterAngles] at h
  · rw [upcoming_advance, hu, List.tail_cons]

/-- Where the tokens behind what closes end closed, so do all. -/
theorem EndsClosed.of_behindClosing {c' : Cursor} (h : c'.EndsClosed)
    (hc : c'.BehindClosing c.upcoming) : c.EndsClosed := by
  obtain ⟨t, ht, past, hpast⟩ := hc
  intro u hu
  rw [← hpast, List.getLast?_append_of_ne_nil _ (List.cons_ne_nil _ _), List.getLast?_cons] at hu
  cases hlast : c'.upcoming.getLast? with
  | none =>
    simp only [hlast, Option.getD_none, Option.mem_def, Option.some.injEq] at hu
    exact hu ▸ ht
  | some v =>
    simp only [hlast, Option.getD_some, Option.mem_def, Option.some.injEq] at hu
    exact hu ▸ h v hlast

end Cursor

/-- The outcome with more tokens behind the upcoming ones. -/
def Outcome.append {α : Type} (o : Outcome α) (ts : List Token) (l : Location) : Outcome α :=
  match o with
  | .accepted a c => .accepted a (c.append ts l)
  | .rejected e c => .rejected e (c.append ts l)

namespace Rule

variable {options : ReadOptions} {depth : Nat} {n : Nonterminal} {α : Type}
variable {r : Production α} {s : Sight} {Q : α → Sight → Prop}
variable {ts : List Token} {l : Location} {c : Cursor}

/-! ## What is tried -/

/-- In an expression, a rule comes to the same with more tokens behind, and leaves a `;` or `}`
upcoming, if the nonterminals it reads do. -/
theorem Guarded.append_of_open
    (hparse : ∀ m c o, m.inExpression → c.Open → (moduleGrammar options).parse depth m c = some o →
      (moduleGrammar options).parse depth m (c.append ts l) = some (o.append ts l) ∧
        o.cursor.Open)
    (hn : n.inExpression) {o : Outcome α} (hr : r.Guarded n s Q) (hs : s.Matches c) (hc : c.Open)
    (ho : r.run ((moduleGrammar options).parse depth) c = some o) :
    r.run ((moduleGrammar options).parse depth) (c.append ts l) = some (o.append ts l) ∧
      o.cursor.Open := by
  induction r generalizing s c with
  | done a =>
    cases ho
    exact ⟨rfl, hc⟩
  | fail e =>
    cases ho
    exact ⟨rfl, hc⟩
  | look k ih =>
    rw [run, Cursor.current_append ts l hc.ne_nil]
    exact ih _ (hr _ hs.admits) rfl hc ho
  | lookBehind k ih =>
    obtain ⟨hname, hk⟩ := hr
    cases s with
    | facing t =>
      obtain rfl : c.current = t := hs
      obtain ⟨name, hname⟩ := hname
      rw [run, Cursor.following_append ts l (hc.tail_ne_nil hname)]
      exact ih _ (hk _) rfl hc ho
    | behind closed | after t => exact hname.elim
  | advance k ih =>
    obtain ⟨t, rfl, ⟨-, -, hcloses⟩, hk⟩ := hr
    obtain rfl : c.current = t := hs
    rw [run, Cursor.advance_append ts l hc.ne_nil]
    exact ih hk trivial (hc.advance (hcloses hn)) ho
  | split k ih =>
    obtain ⟨t, rfl, -, hk⟩ := hr
    rw [run, Cursor.split_append ts l hc.ne_nil]
    exact ih hk trivial hc.split ho
  | read m k ih =>
    obtain ⟨hm, hk⟩ := hr
    have hmn : m.inExpression := by
      cases m with
      | construction made l => rfl
      | _ => exact hm hn
    rw [run] at ho ⊢
    cases hp : (moduleGrammar options).parse depth m c with
    | none => simp [hp] at ho
    | some o' =>
      obtain ⟨happend, hopen⟩ := hparse m c o' hmn hc hp
      rw [hp] at ho
      rw [happend]
      cases o' with
      | accepted a c' => exact ih a (hk a) trivial hopen ho
      | rejected e c' =>
        cases ho
        exact ⟨rfl, hopen⟩
  | attempt m k ih =>
    obtain rfl : m = .constructorType := hr.2.1
    rw [run] at ho ⊢
    cases hp : (moduleGrammar options).parse depth .constructorType c with
    | none => simp [hp] at ho
    | some o' =>
      obtain ⟨happend, hopen⟩ := hparse .constructorType c o' rfl hc hp
      rw [hp] at ho
      rw [happend]
      cases o' with
      | accepted a c' => exact ih _ (hr.of_accepted hs hp).1 trivial hopen ho
      | rejected e c' => exact ih _ hr.2.2.2 hs hc ho

/-! ## What closes -/

/-- What a rule closes ends directly behind a `;` or `}`, if what the nonterminals close does. -/
theorem Guarded.behindClosing
    (hparse : ∀ m c a c', m.closes →
      (moduleGrammar options).parse depth m c = some (.accepted a c') → c'.BehindClosing c.upcoming)
    {a : α} {c' : Cursor} (hr : r.Guarded n s Q) (hQ : ∀ a s, Q a s → s = .behind true)
    (hs : s.Matches c) (hc : c.upcoming <:+ ts) (hbehind : s = .behind true → c.BehindClosing ts)
    (ho : r.run ((moduleGrammar options).parse depth) c = some (.accepted a c')) :
    c'.BehindClosing ts := by
  induction r generalizing s c with
  | done a =>
    cases ho
    exact hbehind (hQ _ _ hr)
  | fail e => cases ho
  | look k ih => exact ih _ (hr _ hs.admits) rfl hc (by simp) ho
  | lookBehind k ih => exact ih _ (hr.2 _) hs hc hbehind ho
  | advance k ih =>
    obtain ⟨t, rfl, -, hk⟩ := hr
    obtain rfl : c.current = t := hs
    refine ih hk trivial (Cursor.suffix_advance hc) (fun hclosed => ?_) ho
    exact (Cursor.behindClosing_advance (Sight.behind.inj hclosed)).of_suffix hc
  | split k ih =>
    obtain ⟨t, rfl, -, hk⟩ := hr
    exact ih hk trivial (Cursor.suffix_split hc) (by simp) ho
  | read m k ih =>
    obtain ⟨hm, hk⟩ := hr
    rw [run] at ho
    cases hp : (moduleGrammar options).parse depth m c with
    | none => simp [hp] at ho
    | some o' =>
      rw [hp] at ho
      cases o' with
      | accepted b d =>
        have hsuffix : d.upcoming <:+ c.upcoming := parse_suffix (List.suffix_refl _) hp
        refine ih b (hk b) trivial (hsuffix.trans hc) (fun hclosed => ?_) ho
        exact (hparse m c b d (Sight.behind.inj hclosed) hp).of_suffix hc
      | rejected e d => cases ho
  | attempt m k ih =>
    obtain rfl : m = .constructorType := hr.2.1
    rw [run] at ho
    cases hp : (moduleGrammar options).parse depth .constructorType c with
    | none => simp [hp] at ho
    | some o' =>
      rw [hp] at ho
      cases o' with
      | accepted b d =>
        obtain ⟨hk, hu, hsuffix⟩ := hr.of_accepted hs hp
        exact ih _ hk trivial ((hsuffix.trans (List.tail_suffix _)).trans hc) (by simp) ho
      | rejected e d => exact ih _ hr.2.2.2 hs hc hbehind ho

end Rule

/-- A block, a function or a declaration ends directly behind a `;` or `}`. -/
theorem Nonterminal.parse_behindClosing {options : ReadOptions} {depth : Nat} {n : Nonterminal}
    {c c' : Cursor} {a : n.Result} (hn : n.closes)
    (h : (moduleGrammar options).parse depth n c = some (.accepted a c')) :
    c'.BehindClosing c.upcoming := by
  induction depth generalizing n c c' with
  | zero => simp [Grammar.parse] at h
  | succ depth ih =>
    exact (Production.disciplined options n).behindClosing (fun _ _ _ _ => ih) (fun _ _ hQ => hQ hn)
      trivial (List.suffix_refl _) (by simp) h

/-- In an expression, more tokens behind do not change what anything comes to. -/
theorem Nonterminal.parse_append_of_open {options : ReadOptions} {depth : Nat} {n : Nonterminal}
    (ts : List Token) (l : Location) {c : Cursor} {o : Outcome n.Result} (hn : n.inExpression)
    (hc : c.Open) (h : (moduleGrammar options).parse depth n c = some o) :
    (moduleGrammar options).parse depth n (c.append ts l) = some (o.append ts l) ∧
      o.cursor.Open := by
  induction depth generalizing n c with
  | zero => simp [Grammar.parse] at h
  | succ depth ih =>
    exact (Production.disciplined options n).append_of_open (fun _ _ _ => ih) hn trivial hc h

namespace Rule

variable {options : ReadOptions} {depth : Nat} {n : Nonterminal} {α : Type}
variable {r : Production α} {s : Sight} {Q : α → Sight → Prop}
variable {ts : List Token} {l : Location} {c c' : Cursor} {a : α}

/-! ## What is accepted -/

/-- A rule that is accepted begins where there are tokens, if it leaves some or ends behind what
closes. -/
theorem Guarded.upcoming_ne_nil (hr : r.Guarded n s Q) (hs : s.Matches c)
    (hsight : s ≠ .behind true)
    (hend : c'.upcoming ≠ [] ∨ ∀ a s, Q a s → s = .behind true)
    (ho : r.run ((moduleGrammar options).parse depth) c = some (.accepted a c')) :
    c.upcoming ≠ [] := by
  intro hnil
  have hsuffix : c.upcoming <:+ [] := by rw [hnil]
  rcases hend with hne | hQ
  · exact hne (List.suffix_nil.1 (run_suffix hsuffix ho))
  · obtain ⟨t, -, ht⟩ := hr.behindClosing (fun _ _ _ _ => parse_behindClosing) hQ hs hsuffix
      (fun h => absurd h hsight) ho
    exact List.cons_ne_nil _ _ (List.suffix_nil.1 ht)

/-- Where a rule is accepted and leaves some tokens, or ends directly behind what closes, it comes
to the same with more tokens behind. -/
def AppendsAt (options : ReadOptions) (depth : Nat) (ts : List Token) (l : Location)
    (n : Nonterminal) (Q : α → Sight → Prop) (r : Production α) : Prop :=
  ∀ ⦃s c a c'⦄, r.Guarded n s Q → s.Matches c → c.EndsClosed →
    (c.upcoming ≠ [] ∨ s = .behind true) → (c'.upcoming ≠ [] ∨ ∀ a s, Q a s → s = .behind true) →
      r.run ((moduleGrammar options).parse depth) c = some (.accepted a c') →
        r.run ((moduleGrammar options).parse depth) (c.append ts l) =
          some (.accepted a (c'.append ts l))

namespace AppendsAt

variable {m : Nonterminal}

/-- There are tokens to look at, or the rule would not be accepted as it is. -/
theorem look {k : Token → Production α} (ih : ∀ t, AppendsAt options depth ts l n Q (k t)) :
    AppendsAt options depth ts l n Q (.look k) := by
  intro s c a c' hr hs hc _ hend ho
  have hk := hr _ hs.admits
  have hne : c.upcoming ≠ [] := hk.upcoming_ne_nil rfl (by simp) hend ho
  rw [run, Cursor.current_append ts l hne]
  exact ih _ hk rfl hc (.inl hne) hend ho

/-- A name is not the last token, so that there is one behind it. -/
theorem lookBehind {k : TokenKind → Production α}
    (ih : ∀ kind, AppendsAt options depth ts l n Q (k kind)) :
    AppendsAt options depth ts l n Q (.lookBehind k) := by
  intro s c a c' hr hs hc hstart hend ho
  obtain ⟨hname, hk⟩ := hr
  cases s with
  | facing t =>
    obtain rfl : c.current = t := hs
    obtain ⟨name, hname⟩ := hname
    have hne := hstart.resolve_right (by simp)
    rw [run, Cursor.following_append ts l ((hc.isOpen hne).tail_ne_nil hname)]
    exact ih _ (hk _) rfl hc (.inl hne) hend ho
  | behind closed | after t => exact hname.elim

/-- Behind the last token stands what closes. -/
theorem advance {k : Production α} (ih : AppendsAt options depth ts l n Q k) :
    AppendsAt options depth ts l n Q (.advance k) := by
  intro s c a c' hr hs hc hstart hend ho
  obtain ⟨t, rfl, -, hk⟩ := hr
  obtain rfl : c.current = t := hs
  have hne := hstart.resolve_right (by simp)
  rw [run, Cursor.advance_append ts l hne]
  have hadvance : c.advance.upcoming <:+ c.upcoming := Cursor.suffix_advance (List.suffix_refl _)
  refine ih hk trivial (hc.of_suffix hadvance) ?_ hend ho
  by_cases hlast : c.advance.upcoming = []
  · exact .inr (by rw [hc.closes_current hne hlast])
  · exact .inl hlast

theorem split {k : Production α} (ih : AppendsAt options depth ts l n Q k) :
    AppendsAt options depth ts l n Q (.split k) := by
  intro s c a c' hr hs hc hstart hend ho
  obtain ⟨t, rfl, -, hk⟩ := hr
  have hne := hstart.resolve_right (by simp)
  have hsplit : c.split.upcoming ≠ [] := by rwa [Cursor.upcoming_split]
  rw [run, Cursor.split_append ts l hne]
  exact ih hk trivial (hc.of_suffix (Cursor.suffix_split (List.suffix_refl _))) (.inl hsplit) hend
    ho

/-- What is read leaves some tokens, or closes. -/
theorem read
    (hparse : ∀ m c (a : m.Result) c', c.EndsClosed → (c'.upcoming ≠ [] ∨ m.closes) →
      (moduleGrammar options).parse depth m c = some (.accepted a c') →
      (moduleGrammar options).parse depth m (c.append ts l) = some (.accepted a (c'.append ts l)))
    {k : m.Result → Production α} (ih : ∀ b, AppendsAt options depth ts l n Q (k b)) :
    AppendsAt options depth ts l n Q (.read m k) := by
  intro s c a c' hr hs hc _ hend ho
  obtain ⟨hm, hk⟩ := hr
  rw [run] at ho ⊢
  cases hp : (moduleGrammar options).parse depth m c with
  | none => simp [hp] at ho
  | some o' =>
    rw [hp] at ho
    cases o' with
    | accepted b d =>
      have hsuffix : d.upcoming <:+ c.upcoming := parse_suffix (List.suffix_refl _) hp
      have hd : d.upcoming ≠ [] ∨ m.closes := by
        cases hm : m.closes with
        | true => exact .inr rfl
        | false => exact .inl ((hk b).upcoming_ne_nil trivial (by rw [hm]; simp) hend ho)
      rw [hparse m c b d hc hd hp]
      exact ih b (hk b) trivial (hc.of_suffix hsuffix) (hd.imp_right (congrArg _)) hend ho
    | rejected e d => cases ho

/-- What is tried is tried in an expression, where it comes to the same whether it is accepted or
not. -/
theorem attempt {k : Option m.Result → Production α}
    (ih : ∀ b, AppendsAt options depth ts l n Q (k b)) :
    AppendsAt options depth ts l n Q (.attempt m k) := by
  intro s c a c' hr hs hc hstart hend ho
  obtain rfl : m = .constructorType := hr.2.1
  have hne : c.upcoming ≠ [] := hstart.resolve_right fun hbehind => by
    rw [hbehind] at hr
    exact hr.1
  rw [run] at ho ⊢
  cases hp : (moduleGrammar options).parse depth .constructorType c with
  | none => simp [hp] at ho
  | some o' =>
    obtain ⟨happend, hopen⟩ := parse_append_of_open ts l rfl (hc.isOpen hne) hp
    rw [hp] at ho
    rw [happend]
    cases o' with
    | accepted b d =>
      have hsuffix : d.upcoming <:+ c.upcoming := parse_suffix (List.suffix_refl _) hp
      exact ih _ (hr.of_accepted hs hp).1 trivial (hc.of_suffix hsuffix) (.inl hopen.ne_nil) hend
        ho
    | rejected e d => exact ih _ hr.2.2.2 hs hc (.inl hne) hend ho

end AppendsAt

/-- Every rule comes to the same with more tokens behind, where it leaves some tokens or ends
directly behind what closes, if the nonterminals that it reads do. -/
theorem appendsAt
    (hparse : ∀ m c (a : m.Result) c', c.EndsClosed → (c'.upcoming ≠ [] ∨ m.closes) →
      (moduleGrammar options).parse depth m c = some (.accepted a c') →
      (moduleGrammar options).parse depth m (c.append ts l) = some (.accepted a (c'.append ts l)))
    (r : Production α) (Q : α → Sight → Prop) : AppendsAt options depth ts l n Q r := by
  induction r with
  | done b =>
    intro s c a c' _ _ _ _ _ ho
    cases ho
    rfl
  | fail e => exact fun _ _ _ _ _ _ _ _ _ ho => by cases ho
  | look k ih => exact AppendsAt.look ih
  | lookBehind k ih => exact AppendsAt.lookBehind ih
  | advance k ih => exact AppendsAt.advance ih
  | split k ih => exact AppendsAt.split ih
  | read m k ih => exact AppendsAt.read hparse ih
  | attempt m k ih => exact AppendsAt.attempt ih

end Rule

namespace Nonterminal

variable {options : ReadOptions} {n : Nonterminal} (ts : List Token) (l : Location)
variable {c c' : Cursor}

/-- What is accepted is read the same with more tokens behind, if it leaves some tokens or ends
directly behind what closes. -/
theorem parse_append {depth : Nat} {a : n.Result} (hc : c.EndsClosed)
    (hend : c'.upcoming ≠ [] ∨ n.closes)
    (h : (moduleGrammar options).parse depth n c = some (.accepted a c')) :
    (moduleGrammar options).parse depth n (c.append ts l) =
      some (.accepted a (c'.append ts l)) := by
  induction depth generalizing n c c' with
  | zero => simp [Grammar.parse] at h
  | succ depth ih =>
    have hrule := Production.disciplined options n
    have hend' : c'.upcoming ≠ [] ∨ ∀ (_ : n.Result) s, (n.closes → s = Sight.behind true) →
        s = .behind true := hend.imp_right fun hn _ _ hQ => hQ hn
    have hne : c.upcoming ≠ [] := hrule.upcoming_ne_nil trivial (by simp) hend' h
    exact Rule.appendsAt (fun _ _ _ _ => ih) _ _ hrule trivial hc (.inl hne) hend' h

/-- A declaration is read the same with more tokens behind. -/
theorem declaration_append {d : Declaration} (hc : c.EndsClosed)
    (h : Nonterminal.declaration.outcome options c = .accepted d c') :
    Nonterminal.declaration.outcome options (c.append ts l) = .accepted d (c'.append ts l) := by
  have hparse := parse_eq_outcome options .declaration c
  rw [h] at hparse
  exact outcome_of_parse (parse_append ts l hc (.inr rfl) hparse)

/-! ## Declarations, one by one -/

/-- Declarations that are accepted, from the end of the file backwards: a `;` more, or a declaration
more. -/
theorem declarations_induction {motive : Cursor → List Declaration → Prop}
    (finish : ∀ c, c.upcoming = [] → motive c [])
    (semicolon : ∀ c ds, c.current.kind = .symbol .semicolon → motive c.advance ds → motive c ds)
    (declaration : ∀ c d c' ds, c.current.kind ≠ .symbol .semicolon → c.current.kind ≠ .endOfFile →
      Nonterminal.declaration.outcome options c = .accepted d c' → motive c' ds →
      motive c (d :: ds))
    {ds : List Declaration} (hc : c.Lacks .endOfFile)
    (h : Nonterminal.declarations.outcome options c = .accepted ds c') : motive c ds := by
  obtain ⟨m, hm⟩ : ∃ m, m = c.measure := ⟨_, rfl⟩
  induction m using Nat.strongRecOn generalizing c ds with
  | ind m ih =>
    subst hm
    by_cases hsemicolon : c.current.kind = .symbol .semicolon
    · have hlt : c.advance.measure < c.measure :=
        Cursor.measure_advance_lt (by simp [hsemicolon])
      rw [declarations_of_semicolon hsemicolon] at h
      exact semicolon c ds hsemicolon (ih _ hlt hc.advance h rfl)
    by_cases hend : c.current.kind = .endOfFile
    · rw [declarations_of_endOfFile hend] at h
      cases h
      exact finish _ (hc.upcoming_eq_nil hend)
    rw [declarations_of_declaration hsemicolon hend] at h
    cases hd : Nonterminal.declaration.outcome options c with
    | rejected e d => simp [hd] at h
    | accepted d c₁ =>
      have hwithin : (Nonterminal.declaration.outcome options c).Within true c.measure :=
        outcome_within .declaration c
      have hsuffix := outcome_suffix options .declaration (List.suffix_refl c.upcoming)
      rw [hd] at h hwithin hsuffix
      rw [Outcome.accepted_bind] at h
      cases hrest : Nonterminal.declarations.outcome options c₁ with
      | rejected e c₂ => simp [hrest] at h
      | accepted rest c₂ =>
        rw [hrest] at h
        cases h
        exact declaration c d c₁ rest hsemicolon hend hd
          (ih _ hwithin (hc.of_suffix hsuffix) hrest rfl)

/-- Accepted declarations end with a `;` or a `}`. -/
theorem endsClosed_of_declarations {ds : List Declaration} (hc : c.Lacks .endOfFile)
    (h : Nonterminal.declarations.outcome options c = .accepted ds c') : c.EndsClosed := by
  refine declarations_induction (motive := fun c _ => c.EndsClosed) (fun c hnil => ?_)
    (fun c ds hsemicolon ih => ?_) (fun c d c' ds _ _ hd ih => ?_) hc h
  · intro t ht
    simp [hnil] at ht
  · exact ih.of_behindClosing (Cursor.behindClosing_advance (by rw [hsemicolon]; rfl))
  · have hparse := parse_eq_outcome options .declaration c
    rw [hd] at hparse
    exact ih.of_behindClosing (parse_behindClosing rfl hparse)

/-- Behind accepted declarations, others are read as if they stood alone. -/
theorem declarations_append {ds : List Declaration} (hc : c.Lacks .endOfFile)
    (h : Nonterminal.declarations.outcome options c = .accepted ds c') :
    Nonterminal.declarations.outcome options (c.append ts l) =
      (Nonterminal.declarations.outcome options ⟨ts, 0, l, Nat.zero_le _⟩).bind
        fun rest c'' => .accepted (ds ++ rest) c'' := by
  have hclosed := endsClosed_of_declarations hc h
  refine declarations_induction (motive := fun c ds => c.EndsClosed →
    Nonterminal.declarations.outcome options (c.append ts l) =
      (Nonterminal.declarations.outcome options ⟨ts, 0, l, Nat.zero_le _⟩).bind
        fun rest c'' => .accepted (ds ++ rest) c'') (fun c hnil _ => ?_)
    (fun c ds hsemicolon ih hclosed => ?_) (fun c d c' ds hsemicolon hend hd ih hclosed => ?_)
    hc h hclosed
  · have hdone : c.append ts l = ⟨ts, 0, l, Nat.zero_le _⟩ := by simp [Cursor.append, hnil]
    rw [hdone]
    simp
  · have hne : c.upcoming ≠ [] := Cursor.upcoming_ne_nil (by simp [hsemicolon])
    have hsame := Cursor.current_append ts l hne
    rw [declarations_of_semicolon (by rw [hsame, hsemicolon]), Cursor.advance_append ts l hne]
    exact ih (hclosed.of_suffix (Cursor.suffix_advance (List.suffix_refl _)))
  · have hne : c.upcoming ≠ [] := Cursor.upcoming_ne_nil hend
    have hsame := Cursor.current_append ts l hne
    have hsuffix := outcome_suffix options .declaration (List.suffix_refl c.upcoming)
    rw [hd] at hsuffix
    rw [declarations_of_declaration (by rwa [hsame]) (by rwa [hsame]),
      declaration_append ts l hclosed hd, Outcome.accepted_bind, ih (hclosed.of_suffix hsuffix)]
    cases Nonterminal.declarations.outcome options ⟨ts, 0, l, Nat.zero_le _⟩ <;> rfl

end Nonterminal

namespace Cursor

/-- The cursor at the beginning of two sequences of tokens, one behind the other. -/
theorem ofTokens_eq_append {ts : List Token} (h : ∀ t ∈ ts, t.kind ≠ .endOfFile) (us : List Token) :
    ofTokens (ts ++ us) =
      (ofTokens ts).append (us.takeWhile (·.kind ≠ .endOfFile))
        (finishOf (finishOf .start ts) us) := by
  have hts : ts.takeWhile (·.kind ≠ .endOfFile) = ts :=
    List.takeWhile_eq_self_iff.2 (by simpa using h)
  simp only [ofTokens, append, finishOf_append h, hts, ite_self]
  rw [List.takeWhile_append_of_pos (by simpa using h)]

end Cursor

/-- A module and what stands behind it are read as if each stood alone: the declarations of the
one and then those of the other, or the error of the other. -/
theorem Module.ofTokens_append {ts us : List Token} {options : ReadOptions} {m : Module}
    (hend : ∀ t ∈ ts, t.kind ≠ .endOfFile) (hm : Module.ofTokens ts options = .ok m) :
    Module.ofTokens (ts ++ us) options = (Module.ofTokens us options).map (m ++ ·) := by
  obtain ⟨c', hc'⟩ := ofTokens_eq_ok_iff.1 hm
  cases us with
  | nil =>
    have hempty : Module.ofTokens [] options = .ok [] :=
      ofTokens_eq_ok_iff.2 ⟨_, declarations_of_endOfFile rfl⟩
    rw [List.append_nil, hm, hempty, Except.map, List.append_nil]
  | cons u us =>
    have hcursor : Cursor.ofTokens (ts ++ u :: us) =
        (Cursor.ofTokens ts).append (Cursor.ofTokens (u :: us)).upcoming
          (Cursor.ofTokens (u :: us)).finish :=
      Cursor.ofTokens_eq_append hend (u :: us)
    have happend := declarations_append (Cursor.ofTokens (u :: us)).upcoming
      (Cursor.ofTokens (u :: us)).finish (Cursor.lacks_endOfFile_ofTokens ts) hc'
    rw [← hcursor] at happend
    change _ = (Nonterminal.declarations.outcome options (.ofTokens (u :: us))).bind _ at happend
    cases hus : Nonterminal.declarations.outcome options (.ofTokens (u :: us)) with
    | accepted m' d =>
      rw [hus] at happend
      rw [ofTokens_eq_ok_iff.2 ⟨_, hus⟩]
      exact ofTokens_eq_ok_iff.2 ⟨_, happend⟩
    | rejected e d =>
      rw [hus] at happend
      rw [ofTokens_eq_error_iff.2 ⟨_, hus⟩]
      exact ofTokens_eq_error_iff.2 ⟨_, happend⟩

/-- In `const x = a < b;` the comparison might begin a type, but the `>` of what stands behind does
not close it. -/
theorem Module.ofTokens_append_comparison :
    ∃ m, Module.ofTokens ([.keyword .const, .identifier "x", .symbol .equal, .identifier "a",
        .symbol .lessThan, .identifier "b", .symbol .semicolon].map fun k => ⟨k, .start⟩) = .ok m ∧
      Module.ofTokens
        (([.keyword .const, .identifier "x", .symbol .equal, .identifier "a",
          .symbol .lessThan, .identifier "b", .symbol .semicolon].map fun k => ⟨k, .start⟩) ++
          [.symbol .greaterThan, .symbol .parenLeft, .number "0", .symbol .parenRight,
            .symbol .semicolon].map fun k => ⟨k, .start⟩) =
        (Module.ofTokens ([.symbol .greaterThan, .symbol .parenLeft, .number "0",
          .symbol .parenRight, .symbol .semicolon].map fun k => ⟨k, .start⟩)).map (m ++ ·) := by
  obtain ⟨m, hm⟩ := @exists_eq_ok (Module.ofTokens ([.keyword .const, .identifier "x",
    .symbol .equal, .identifier "a", .symbol .lessThan, .identifier "b", .symbol .semicolon].map
      fun k => ⟨k, .start⟩)) (by decide +kernel)
  exact ⟨m, hm, ofTokens_append (by decide) hm⟩

end Wgsl
