import Wgsl.Proofs.Prefix.Sample
import Wgsl.Proofs.Speculation.PastParen

/-!
# Rules that can be completed

A reader may be refused at any token. What it has read up to there is the beginning of a module if
every rule that it was following can be completed. This is said of a rule, place by place and apart
from what is read (`Rule.Viable`):

* Behind a token that is taken, and behind a nonterminal that is read, the rest of the rule takes
  some tokens (`Rule.Takes`). They disturb nothing before them (`Tame`); above all, no `(` comes to
  stand behind a closing angle, where a type would be accepted that was refused before.
* A rule that comes to its end before a token, without taking it, has looked at it and found nothing
  to do there. Before the tokens that may be put there instead it does the same (`Rule.Steady`).
* The reader may be refused inside of a token, behind some closing angles. Then these are a token of
  their own in what is completed, and whatever begins there either leaves that token whole
  (`Rule.Stays`) or closes an angle and ends behind it (`Rule.Closes`).

A rule that takes some tokens and is viable goes on (`Rule.Goes`). This is what the lemmas here
build along a rule, one for each way in which rules are written, so that the proof for a nonterminal
reads like its rule.
-/

namespace Wgsl

/-- Tokens of the kinds disturb nothing before them: none is the end of the file, and no closing
angle stands directly before a `(`. -/
def Tame (w : List TokenKind) : Prop :=
  .endOfFile ∉ w ∧ w.IsChain fun k k' => k.isAngles → k' ≠ .symbol .parenLeft

@[simp] theorem tame_nil : Tame [] := ⟨List.not_mem_nil, .nil⟩

@[simp] theorem tame_cons {k : TokenKind} {w : List TokenKind} :
    Tame (k :: w) ↔
      k ≠ .endOfFile ∧ (k.isAngles → w.head? ≠ some (.symbol .parenLeft)) ∧ Tame w := by
  cases w with
  | nil =>
    simp only [Tame, List.mem_cons, List.not_mem_nil, or_false, ne_eq, List.IsChain.singleton,
      and_true, List.head?_nil, reduceCtorEq, not_false_eq_true, implies_true, List.IsChain.nil]
    exact not_congr eq_comm
  | cons k' w =>
    simp only [Tame]
    grind

theorem Tame.of_append {v w : List TokenKind} (h : Tame (v ++ w)) : Tame w :=
  ⟨fun hmem => h.1 (List.mem_append_right v hmem), (List.isChain_append.1 h.2).2.1⟩

/-- The cursor behind a closing angle, which may be the first character of its token. -/
def Cursor.close (c : Cursor) : Cursor :=
  if c.current.kind = .symbol .greaterThan then c.advance else c.split

namespace Rule

variable {α β : Type}

/-- The rule splits no angle off the token where it begins. -/
@[simp] def Stays : Production α → Prop
  | .done _ | .fail _ | .advance _ => True
  | .look k => ∀ t, t.kind.closesAngle → (k t).Stays
  | .lookBehind k => ∀ kind, (k kind).Stays
  | .split _ => False
  | .read m k => m.takesToken ∨ ∀ b, (k b).Stays
  | .attempt _ k => (∀ a, (k (some a)).Stays) ∧ (k none).Stays

/-- At a closing angle the rule goes behind it, and comes to a value. -/
def Closes (options : ReadOptions) (r : Production α) : Prop :=
  ∃ a, ∀ c : Cursor, c.current.kind.closesAngle → r.comesTo options c = .accepted a c.close

/-- At a token the rule does not stop with a value where it is. -/
def Departs (options : ReadOptions) (t : Token) (r : Production α) : Prop :=
  r.Moves ∨ (t.afterAngle?.isSome ∧ ∃ k, r = .split k) ∨ t.kind.closesAngle ∧ r.Closes options

/-- Where the rule stops at a token, it does the same before what may follow. -/
def Steady (options : ReadOptions) (F : List TokenKind) (k : Token → Production α) : Prop :=
  ∀ t, ∀ kind ∈ F, ∀ l, k t = k ⟨kind, l⟩ ∨ (k t).Departs options t

/-- Wherever the rule may be interrupted, it can be completed. -/
def Viable (options : ReadOptions) (F : List TokenKind) (Y : α → Prop) :
    Production α → Option Token → Prop
  | .done _, _ | .fail _, _ => True
  | .look k, seen =>
    Steady options F k ∧ ∀ t, (∀ u ∈ seen, t = u) → (k t).Viable options F Y (some t)
  | .lookBehind _, _ => False
  | .advance k, seen =>
    (∃ t w, seen = some t ∧ k.Takes F Y w ∧ Tame (t.kind :: w)) ∧
    (k.Stays ∨ k.Closes options) ∧ k.Viable options F Y none
  | .split k, seen => (∃ t, seen = some t ∧ t.afterAngle?.isSome) ∧ k.Viable options F Y none
  | .read m k, _ =>
    m.IsRead ∧ ((∀ kind ∈ F, kind ∈ m.followers) ∨ ∀ b, (k b).Moves) ∧
    (∃ w, (∀ b, m.Yields b → (k b).Takes F Y w) ∧ Tame w ∧ m.StandsBefore F w) ∧
    (∀ b, (k b).Stays ∨ (k b).Closes options ∧ ∀ kind ∈ TokenKind.angles, kind ∈ m.followers) ∧
    ∀ b, (k b).Viable options F Y none
  | .attempt _ _, _ => False

/-- The rule takes some tokens, and can be completed wherever it may be interrupted. -/
structure Goes (options : ReadOptions) (F : List TokenKind) (Y : α → Prop) (r : Production α)
    (w : List TokenKind) : Prop where
  takes : r.Takes F Y w
  tame : Tame w
  behind : r.Stays ∨ r.Closes options
  viable (seen : Option Token) : r.Viable options F Y seen

variable {options : ReadOptions} {F : List TokenKind} {Y : α → Prop} {w w' : List TokenKind}
variable {mark : Symbol}

@[simp] theorem stays_ite {p : Prop} [Decidable p] {r r' : Production α} :
    (if p then r else r').Stays ↔ (p → r.Stays) ∧ (¬p → r'.Stays) := by
  split <;> simp_all

@[simp] theorem stays_elim {γ : Type} {o : Option γ} {r : Production α} {f : γ → Production α} :
    (o.elim r f).Stays ↔ (o = none → r.Stays) ∧ ∀ a, o = some a → (f a).Stays := by
  cases o <;> simp

/-- A choice can be completed where both of its cases can. -/
theorem viable_ite {p : Prop} [Decidable p] {r r' : Production α} {seen : Option Token} :
    (if p then r else r').Viable options F Y seen ↔
      (p → r.Viable options F Y seen) ∧ (¬p → r'.Viable options F Y seen) := by
  split <;> simp_all

/-- What moves before every token is steady. -/
theorem steady_of_moves {k : Token → Production α} (h : ∀ t, (k t).Moves) : Steady options F k :=
  fun t _ _ _ => .inr (.inl (h t))

/-- Before all that may follow the rule does the same, and before other tokens that or more. -/
theorem steady_of_eq {k : Token → Production α} (r : Production α)
    (hF : ∀ kind ∈ F, ∀ l, k ⟨kind, l⟩ = r) (h : ∀ t, k t = r ∨ (k t).Moves) :
    Steady options F k :=
  fun t kind hkind l => (h t).imp (fun h => h.trans (hF kind hkind l).symm) .inl

/-- A rule that moves at a symbol which may not follow does what it does elsewhere. -/
theorem steady_ite {r r' : Production α} (hmark : .symbol mark ∉ F) (hr : r.Moves) :
    Steady options F fun t => if t.kind = .symbol mark then r else r' := by
  intro t kind hkind l
  by_cases h : t.kind = .symbol mark
  · exact .inr (.inl (by simpa [h] using hr))
  · exact .inl (by simp [h, ne_of_mem_of_not_mem hkind hmark])

/-- Before what may follow, and before tokens that do not begin with a symbol, the rule does what it
does where the symbol does not stand. -/
theorem takes_ite_of_ne {r r' : Production α} (hF : .symbol mark ∉ F)
    (hhead : w.head? ≠ some (.symbol mark)) (h : r'.Takes F Y w) :
    (Rule.look fun t => if t.kind = .symbol mark then r else r').Takes F Y w := by
  cases w with
  | nil =>
    intro kind hkind l
    simpa [ne_of_mem_of_not_mem hkind hF] using h
  | cons kind w =>
    have hne : kind ≠ .symbol mark := by simpa using hhead
    simpa [hne] using h

theorem viable_unexpected {expected : Expectation} {seen : Option Token} :
    (unexpected expected : Production α).Viable options F Y seen :=
  ⟨steady_of_moves fun _ => trivial, fun _ _ => trivial⟩

/-- Seeing a symbol is looking at a token. -/
theorem sees_eq_look (mark : Symbol) (f : Bool → Production α) :
    (Rule.sees mark >>= f : Production α) =
      .look fun t => if t.kind = .symbol mark then f true else f false := by
  simp only [sees_eq, bind_eq, look_bind, done_bind]
  refine congrArg Rule.look (funext fun t => ?_)
  split <;> simp [*]

/-- Accepting a symbol is looking at a token, and advancing over it if it is the one. -/
theorem accept_eq_look (mark : Symbol) (f : Bool → Production α) :
    (Rule.accept mark >>= f : Production α) =
      .look fun t => if t.kind = .symbol mark then .advance (f true) else f false := by
  simp [accept_eq, look_bind, ite_bind, advance_bind, done_bind]

/-- A symbol that is no closing angle does not stand where one does. -/
theorem closes_accept {f : Bool → Production α}
    (hmark : (TokenKind.symbol mark).closesAngle = false) (h : (f false).Closes options) :
    (Rule.accept mark >>= f).Closes options := by
  obtain ⟨a, h⟩ := h
  refine ⟨a, fun c hc => ?_⟩
  have hne : c.current.kind ≠ .symbol mark := by
    rintro hkind
    rw [hkind, hmark] at hc
    cases hc
  rw [accept_eq_look, Production.comesTo, follow, if_neg hne]
  exact h c hc

namespace Goes

theorem done {a : α} (hY : Y a) : (done a : Production α).Goes options F Y [] :=
  ⟨⟨rfl, hY⟩, tame_nil, .inl trivial, fun _ => trivial⟩

/-- Behind a token that was seen, the rule goes on. -/
theorem viable_advance {k : Production α} {t : Token} (h : k.Goes options F Y w)
    (ht : Tame [t.kind]) (hw : t.kind.isAngles → w.head? ≠ some (.symbol .parenLeft)) :
    (Rule.advance k).Viable options F Y (some t) :=
  ⟨⟨t, w, rfl, h.takes, tame_cons.2 ⟨(tame_cons.1 ht).1, hw, h.tame⟩⟩, h.behind, h.viable none⟩

theorem viable_advance_of_kind {k : Production α} {t : Token} {kind : TokenKind}
    (h : k.Goes options F Y w) (ht : t.kind = kind) (hend : kind ≠ .endOfFile)
    (hangles : kind.isAngles = false) : (Rule.advance k).Viable options F Y (some t) :=
  h.viable_advance (by simp [ht, hend]) (by simp [ht, hangles])

/-- A token that was looked at is looked at again. -/
theorem current {k : Token → Production α} (hsteady : Steady options F k)
    (hstays : ∀ t, (k t).Stays) (h : ∀ t, (k t).Goes options F Y w) :
    (Rule.current >>= k).Goes options F Y w := by
  refine ⟨?_, (h ⟨.endOfFile, .start⟩).tame, .inl fun t _ => hstays t,
    fun seen => ⟨hsteady, fun t _ => (h t).viable _⟩⟩
  cases w with
  | nil => exact fun kind _ l => (h ⟨kind, l⟩).takes
  | cons kind w => exact (h ⟨kind, .start⟩).takes

/-- What the rule does depends on the token that it looks at. -/
theorem look {k : Token → Production α} (hsteady : Steady options F k)
    (htakes : (Rule.look k).Takes F Y w) (htame : Tame w) (hstays : ∀ t, (k t).Stays)
    (h : ∀ t, (k t).Viable options F Y (some t)) : (Rule.current >>= k).Goes options F Y w :=
  ⟨htakes, htame, .inl fun t _ => hstays t, fun _ => ⟨hsteady, fun t _ => h t⟩⟩

theorem expect {place : String} {f : Unit → Production α}
    (hmark : (TokenKind.symbol mark).isAngles = false) (h : (f ()).Goes options F Y w) :
    (Rule.expect mark place >>= f).Goes options F Y (.symbol mark :: w) := by
  have htree : (Rule.expect mark place >>= f : Production α) = .look fun t =>
      if t.kind = .symbol mark then .advance (f ()) else unexpected (.symbol mark place) := by
    simp [expect_eq, look_bind, ite_bind, advance_bind, done_bind, unexpected_eq, fail_bind]
  rw [htree]
  refine ⟨?_, tame_cons.2 ⟨by simp, by simp [hmark], h.tame⟩, .inl ?_,
    fun seen => ⟨steady_of_moves ?_, ?_⟩⟩
  · simpa using h.takes
  · simp [unexpected_eq]
  · simp [unexpected_eq]
  · intro t _
    dsimp only
    split
    · rename_i hkind
      exact h.viable_advance_of_kind hkind (by simp) hmark
    · exact viable_unexpected

theorem identifier {expected : Expectation} {f : String → Production α}
    (h : ∀ name, (f name).Goes options F Y w) :
    (Rule.identifier expected >>= f).Goes options F Y (.someName :: w) := by
  rw [bind_eq, identifier_bind]
  refine ⟨?_, tame_cons.2 ⟨by simp, by simp, (h "").tame⟩, .inl ?_,
    fun seen => ⟨steady_of_moves ?_, ?_⟩⟩
  · simpa [TokenKind.name?] using (h _).takes
  · simp [unexpected_eq]
  · simp [unexpected_eq]
  · intro t _
    dsimp only
    cases hname : t.kind.name? with
    | none => exact viable_unexpected
    | some name =>
      have hkind := TokenKind.name?_eq_some_iff.1 hname
      exact (h name).viable_advance (by simp [hkind]) (by simp [hkind])

/-- A symbol that may stand here does not. -/
theorem accept {f : Bool → Production α} (hF : .symbol mark ∉ F)
    (hmark : (TokenKind.symbol mark).closesAngle = false) (htrue : (f true).Goes options F Y w')
    (hfalse : (f false).Goes options F Y w) (hhead : w.head? ≠ some (.symbol mark)) :
    (Rule.accept mark >>= f).Goes options F Y w := by
  have hangles : (TokenKind.symbol mark).isAngles = false := by
    cases h : (TokenKind.symbol mark).isAngles with
    | false => rfl
    | true => simp [TokenKind.closesAngle_of_isAngles h] at hmark
  refine ⟨?_, hfalse.tame, hfalse.behind.imp ?_ (closes_accept hmark), ?_⟩ <;> rw [accept_eq_look]
  · exact takes_ite_of_ne hF hhead hfalse.takes
  · intro hstays
    simp [hstays]
  · refine fun seen => ⟨steady_ite hF trivial, fun t _ => ?_⟩
    dsimp only
    split
    · rename_i hkind
      exact htrue.viable_advance_of_kind hkind (by simp) hangles
    · exact hfalse.viable (some t)

/-- A symbol that stands here is taken. -/
theorem accept_taken {f : Bool → Production α} (hF : .symbol mark ∉ F ∨ (f false).Moves)
    (hmark : (TokenKind.symbol mark).isAngles = false) (htrue : (f true).Goes options F Y w)
    (hstays : (f false).Stays) (hfalse : ∀ seen, (f false).Viable options F Y seen) :
    (Rule.accept mark >>= f).Goes options F Y (.symbol mark :: w) := by
  rw [accept_eq_look]
  refine ⟨by simpa using htrue.takes, by simp [hmark, htrue.tame], .inl (by simp [hstays]),
    fun seen => ⟨hF.elim (steady_ite · trivial) fun h => steady_of_moves (by simp [h]),
      fun t _ => ?_⟩⟩
  dsimp only
  split
  · rename_i hkind
    exact htrue.viable_advance_of_kind hkind (by simp) hmark
  · exact hfalse (some t)

/-- A symbol that may not follow is not seen. -/
theorem sees_not {f : Bool → Production α} (hF : .symbol mark ∉ F) (hmoves : (f true).Moves)
    (hstays : (f true).Stays ∧ (f false).Stays) (htrue : (f true).Goes options F Y w')
    (hfalse : (f false).Goes options F Y w) (hhead : w.head? ≠ some (.symbol mark)) :
    (Rule.sees mark >>= f).Goes options F Y w := by
  rw [sees_eq_look]
  exact look (k := fun t => if t.kind = .symbol mark then f true else f false)
    (steady_ite hF hmoves) (takes_ite_of_ne hF hhead hfalse.takes) hfalse.tame
    (fun t => stays_ite.2 ⟨fun _ => hstays.1, fun _ => hstays.2⟩)
    fun t => viable_ite.2 ⟨fun _ => htrue.viable _, fun _ => hfalse.viable _⟩

/-- The only symbol that may follow ends the rule. -/
theorem sees_end {f : Bool → Production α} (hF : ∀ kind ∈ F, kind = .symbol mark)
    (hmoves : (f false).Moves) (hstays : (f true).Stays ∧ (f false).Stays)
    (htrue : (f true).Goes options F Y []) (hfalse : (f false).Goes options F Y w') :
    (Rule.sees mark >>= f).Goes options F Y [] := by
  rw [sees_eq_look]
  refine look (k := fun t => if t.kind = .symbol mark then f true else f false)
    (steady_of_eq (f true) (fun kind hkind l => if_pos (hF kind hkind)) fun t => ?_)
    (fun kind hkind l => ?_) htrue.tame
    (fun t => stays_ite.2 ⟨fun _ => hstays.1, fun _ => hstays.2⟩)
    fun t => viable_ite.2 ⟨fun _ => htrue.viable _, fun _ => hfalse.viable _⟩
  · split
    · exact .inl rfl
    · exact .inr hmoves
  · show (if kind = .symbol mark then f true else f false).Takes F Y []
    rw [if_pos (hF kind hkind)]
    exact htrue.takes

theorem ite {p : Prop} [Decidable p] {r r' : Production α} (h : p → r.Goes options F Y w)
    (h' : ¬p → r'.Goes options F Y w) : (if p then r else r').Goes options F Y w := by
  split
  · exact h ‹_›
  · exact h' ‹_›

/-- What is read from some token on is known to be of a kind. -/
theorem parse_yields {m : Nonterminal} {k : m.Result → Production α}
    (hm : m.IsRead ∧ ((∀ kind ∈ F, kind ∈ m.followers) ∨ ∀ b, (k b).Moves) ∧ m.StandsBefore F w ∧
      Tame (m.sample ++ w) ∧ ∀ b, (k b).Stays)
    (h : ∀ b, m.Yields b → (k b).Takes F Y w) (hviable : ∀ b, (k b).Viable options F Y none) :
    (Production.parse m >>= k).Goes options F Y (m.sample ++ w) := by
  obtain ⟨hm, hF, hw, htame, hstays⟩ := hm
  exact ⟨⟨hm, w, rfl, hw, h⟩, htame, .inl (.inr hstays), fun _ =>
    ⟨hm, hF, ⟨w, h, htame.of_append, hw⟩, fun b => .inl (hstays b), hviable⟩⟩

theorem parse {m : Nonterminal} {k : m.Result → Production α}
    (hm : m.IsRead ∧ ((∀ kind ∈ F, kind ∈ m.followers) ∨ ∀ b, (k b).Moves) ∧ m.StandsBefore F w ∧
      Tame (m.sample ++ w) ∧
      ((∀ b, (k b).Stays) ∨ m.takesToken ∧ ∀ kind ∈ TokenKind.angles, kind ∈ m.followers))
    (h : ∀ b, (k b).Goes options F Y w) :
    (Production.parse m >>= k).Goes options F Y (m.sample ++ w) := by
  obtain ⟨hm, hF, hw, htame, hbehind⟩ := hm
  refine ⟨⟨hm, w, rfl, hw, fun b _ => (h b).takes⟩, htame, .inl ?_, fun _ =>
    ⟨hm, hF, ⟨w, fun b _ => (h b).takes, htame.of_append, hw⟩, fun b => ?_,
      fun b => (h b).viable none⟩⟩
  · exact hbehind.symm.imp (fun h => h.1) fun h => h
  · rcases hbehind with hstays | ⟨-, hangles⟩
    · exact .inl (hstays b)
    · exact (h b).behind.imp id fun hcloses => ⟨hcloses, hangles⟩

end Goes

namespace Viable

variable {t : Token} {seen : Option Token}

theorem skip {k : Unit → Production α} (ht : Tame [t.kind])
    (hw : t.kind.isAngles → w.head? ≠ some (.symbol .parenLeft))
    (h : (k ()).Goes options F Y w) : (Rule.skip >>= k).Viable options F Y (some t) :=
  h.viable_advance ht hw

theorem skip_of_kind {k : Unit → Production α} {kind : TokenKind} (ht : t.kind = kind)
    (hend : kind ≠ .endOfFile) (hangles : kind.isAngles = false)
    (h : (k ()).Goes options F Y w) : (Rule.skip >>= k).Viable options F Y (some t) :=
  h.viable_advance_of_kind ht hend hangles

theorem expect {place : String} {f : Unit → Production α} (w : List TokenKind)
    (hmark : (TokenKind.symbol mark).isAngles = false) (h : (f ()).Goes options F Y w) :
    (Rule.expect mark place >>= f).Viable options F Y seen :=
  (Goes.expect hmark h).viable seen

theorem parse {m : Nonterminal} {k : m.Result → Production α} (w : List TokenKind)
    (hm : m.IsRead ∧ ((∀ kind ∈ F, kind ∈ m.followers) ∨ ∀ b, (k b).Moves) ∧ m.StandsBefore F w ∧
      Tame (m.sample ++ w) ∧
      ((∀ b, (k b).Stays) ∨ m.takesToken ∧ ∀ kind ∈ TokenKind.angles, kind ∈ m.followers))
    (h : ∀ b, (k b).Goes options F Y w) : (Production.parse m >>= k).Viable options F Y seen :=
  (Goes.parse hm h).viable seen

end Viable

/-- The rule goes on to a closing angle and behind it, and at one it does nothing else. -/
structure Shuts (options : ReadOptions) (F : List TokenKind) (Y : α → Prop)
    (r : Production α) : Prop extends Goes options F Y r [.symbol .greaterThan] where
  closes : r.Closes options

namespace Shuts

theorem closeAngle {expected : Expectation} {f : Unit → Production α} {a : α}
    (hf : f () = .done a) (hY : Y a) : (Rule.closeAngle expected >>= f).Shuts options F Y := by
  have htree : (Rule.closeAngle expected >>= f : Production α) = .look fun t =>
      if t.kind = .symbol .greaterThan then .advance (.done a)
      else if t.afterAngle?.isSome then .split (.done a) else unexpected expected := by
    simp [closeAngle_eq, look_bind, ite_bind, advance_bind, split_bind, done_bind, unexpected_eq,
      fail_bind, hf]
  have hcloses : (Rule.closeAngle expected >>= f).Closes options := by
    rw [htree]
    refine ⟨a, fun c hc => ?_⟩
    rw [Production.comesTo, follow, Cursor.close]
    split
    · rfl
    · rename_i hne
      rw [if_pos ((TokenKind.closesAngle_iff.1 hc).resolve_left hne)]
      rfl
  refine ⟨⟨?_, by simp, .inr hcloses, ?_⟩, hcloses⟩ <;> rw [htree]
  · simpa using hY
  · refine fun seen => ⟨fun t kind _ l => .inr ?_, fun t _ => ?_⟩ <;> dsimp only
    · split
      · exact .inl trivial
      · split
        · exact .inr (.inl ⟨‹_›, _, rfl⟩)
        · exact .inl fun _ => trivial
    · split
      · rename_i hangle
        exact ⟨⟨t, [], rfl, ⟨rfl, hY⟩, by simp [hangle]⟩, .inl trivial, trivial⟩
      · split
        · exact ⟨⟨t, rfl, ‹_›⟩, trivial⟩
        · exact viable_unexpected

/-- The end of the parameters of a type. -/
theorem closeParameters {typeName : String} {f : Unit → Production α} {a : α}
    (hF : .symbol .comma ∉ F) (hf : f () = .done a) (hY : Y a) :
    (Production.closeParameters typeName >>= f).Shuts options F Y := by
  have hshuts : (Rule.closeAngle (.closingAngle typeName) >>= f).Shuts options F Y :=
    closeAngle hf hY
  have htree : (Production.closeParameters typeName >>= f : Production α) =
      Rule.accept .comma >>= fun _ => Rule.closeAngle (.closingAngle typeName) >>= f := by
    rw [Production.closeParameters, bind_eq, bind_eq, Rule.bind_assoc]
    rfl
  rw [htree]
  exact ⟨.accept hF rfl hshuts.toGoes hshuts.toGoes (by simp), closes_accept rfl hshuts.closes⟩

/-- A further parameter of a type, or the end of the parameters. -/
theorem furtherParameter {f : Bool → Production α} (hF : .symbol .comma ∉ F)
    (hfalse : (f false).Shuts options F Y) (htrue : (f true).Goes options F Y w)
    (hmoves : (f true).Moves) : (Production.furtherParameter >>= f).Shuts options F Y := by
  have htree : (Production.furtherParameter >>= f : Production α) = Rule.accept .comma >>= fun b =>
      if b then .look fun t => f !t.kind.closesAngle else f false := by
    rw [Production.furtherParameter, bind_eq, bind_eq, Rule.bind_assoc]
    refine congrArg _ (funext fun b => ?_)
    cases b <;> rfl
  have hbehind : (Rule.look fun t => f !t.kind.closesAngle).Shuts options F Y := by
    have hcloses : (Rule.look fun t => f !t.kind.closesAngle).Closes options := by
      obtain ⟨a, h⟩ := hfalse.closes
      refine ⟨a, fun c hc => ?_⟩
      rw [Production.comesTo, follow, hc]
      exact h c hc
    refine ⟨⟨hfalse.takes, hfalse.tame, .inr hcloses,
      fun seen => ⟨fun t kind _ l => .inr ?_, fun t _ => ?_⟩⟩, hcloses⟩ <;> dsimp only
    · cases hangle : t.kind.closesAngle with
      | true => exact .inr (.inr ⟨hangle, hfalse.closes⟩)
      | false => exact .inl hmoves
    · cases t.kind.closesAngle with
      | true => exact hfalse.viable _
      | false => exact htrue.viable _
  rw [htree]
  exact ⟨.accept hF rfl hbehind.toGoes hfalse.toGoes (by simp), closes_accept rfl hfalse.closes⟩

end Shuts

end Rule

end Wgsl
