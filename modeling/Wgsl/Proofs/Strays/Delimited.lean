import Wgsl.Proofs.Brackets.Grammar
import Wgsl.Proofs.Speculation.Leaving

/-!
# Types before a delimiter

Nothing in an expression takes a `;` or a `}`, and so nothing in an expression takes a `{` either,
as brackets are nested and it would not be closed (`Nonterminal.outcome_stops`). Where the first of
two parts of a sequence of tokens ends with one of these tokens, a type that is tried in it comes to
its end there, whatever the second part (`Delimited.agrees`).
-/

namespace Wgsl

namespace TokenKind

/-- The token ends a statement, or begins or ends a body. -/
def delimits : TokenKind → Bool
  | .symbol .semicolon | .symbol .braceLeft | .symbol .braceRight => true
  | _ => false

@[simp] theorem delimits_symbol (mark : Symbol) :
    (symbol mark).delimits =
      decide (mark = .semicolon ∨ mark = .braceLeft ∨ mark = .braceRight) := by
  cases mark <;> rfl

/-- What delimits closes, or is an opening brace. -/
theorem closes_or_braceLeft_of_delimits {k : TokenKind} (h : k.delimits) :
    k.closes ∨ k = .symbol .braceLeft := by
  cases k with
  | symbol mark =>
    simp only [delimits_symbol, decide_eq_true_eq] at h
    rcases h with rfl | rfl | rfl <;> simp
  | _ => cases h

/-- What closes delimits. -/
theorem delimits_of_closes {k : TokenKind} (h : k.closes) : k.delimits := by
  cases k with
  | symbol mark =>
    simp only [closes_symbol, decide_eq_true_eq] at h
    rcases h with rfl | rfl <;> rfl
  | _ => cases h

end TokenKind

/-! ## Braces in an expression -/

/-- Every `{` is open until a `}`. -/
theorem count_curly_le_of_nest {ks : List TokenKind} {o o' : List Bracket}
    (hclose : .symbol .braceRight ∉ ks) (h : nest o ks = some o') :
    o.count .curly + ks.count (.symbol .braceLeft) ≤ o'.count .curly := by
  induction ks generalizing o with
  | nil =>
    obtain rfl : o = o' := Option.some.inj h
    simp
  | cons k ks ih =>
    obtain ⟨o₁, hstep, hrest⟩ := Option.bind_eq_some_iff.1 h
    have hle := ih (fun hmem => hclose (List.mem_cons_of_mem k hmem)) hrest
    rcases TokenKind.nest_cases hstep with ⟨hplain, rfl⟩ | ⟨b, rfl, rfl⟩ | ⟨b, rfl, rfl⟩
    · have hne : k ≠ .symbol .braceLeft := by rintro rfl; cases hplain
      simpa [List.count_cons, hne] using hle
    · cases b <;> simp [Bracket.opening] at hle ⊢ <;> omega
    · cases b <;> simp [Bracket.closing] at hle hclose ⊢ <;> omega

namespace Nonterminal

variable {options : ReadOptions} {n : Nonterminal} {c d : Cursor} {a : n.Result}
variable (pre post : List Token) {w : Token}

/-- What is read in an expression leaves the first `;` or `}`. -/
theorem outcome_stops_of_closes (hn : n.inExpression) (hw : w.kind.closes)
    (hc : c.upcoming = pre ++ w :: post) (ho : n.outcome options c = .accepted a d) :
    post.length < d.upcoming.length := by
  let front : Cursor := ⟨pre ++ [w], c.taken, c.finish, c.taken_le⟩
  have hfront : front.append post c.finish = c := by
    obtain ⟨upcoming, taken, finish, htaken⟩ := c
    simp only [Cursor.append, front, Cursor.mk.injEq] at hc ⊢
    simp [hc]
  have hclosed : front.Open := ⟨w, by simp [front], hw⟩
  obtain ⟨happend, hopen⟩ :=
    parse_append_of_open post c.finish hn hclosed (parse_eq_outcome options n front)
  rw [hfront] at happend
  have hsame := outcome_of_parse happend
  rw [ho] at hsame
  cases hfrontOutcome : n.outcome options front with
  | rejected e d' => simp [hfrontOutcome, Outcome.append] at hsame
  | accepted a' d' =>
    rw [hfrontOutcome] at hsame hopen
    obtain ⟨rfl, rfl⟩ := Outcome.accepted.inj hsame
    exact Cursor.length_lt_append post c.finish hopen.ne_nil

/-- What is read in an expression leaves the first `;`, `{` or `}`. -/
theorem outcome_stops (hn : n.inExpression) (hw : w.kind.delimits)
    (hc : c.upcoming = pre ++ w :: post) (ho : n.outcome options c = .accepted a d) :
    post.length < d.upcoming.length := by
  rcases TokenKind.closes_or_braceLeft_of_delimits hw with hcloses | hbrace
  · exact outcome_stops_of_closes pre post hn hcloses hc ho
  by_contra hle
  have hsuffix : d.upcoming <:+ c.upcoming := by
    have hreads := n.outcome_suffix options (List.suffix_refl c.upcoming)
    rwa [ho] at hreads
  obtain ⟨mid, rfl⟩ : d.upcoming <:+ post :=
    List.suffix_of_suffix_length_le hsuffix (hc ▸ ⟨pre ++ [w], by simp⟩) (Nat.le_of_not_lt hle)
  obtain ⟨ks, hks, hnest⟩ := outcome_nests ho []
  have hpast : ks = (pre ++ w :: mid).map (·.kind) := by
    refine List.append_cancel_right (hks.symm.trans ?_)
    simp [Cursor.kinds, hc]
  have hclose : .symbol .braceRight ∉ ks := by
    rw [hpast, List.mem_map]
    rintro ⟨t, ht, hkind⟩
    obtain ⟨front, back, hsplit⟩ := List.append_of_mem ht
    have hstops := outcome_stops_of_closes front (back ++ d.upcoming) hn
      (show t.kind.closes by rw [hkind]; rfl)
      (by rw [hc, ← List.cons_append, ← List.append_assoc, hsplit]; simp) ho
    rw [List.length_append] at hstops
    omega
  have hcount := count_curly_le_of_nest hclose hnest
  have hopen : .symbol .braceLeft ∈ ks := by
    rw [hpast, List.mem_map]
    exact ⟨w, by simp, hbrace⟩
  have := List.count_pos_iff.2 hopen
  omega

end Nonterminal

/-! ## Types that are tried -/

/-- The last token, if there is one, is a delimiter. -/
def Delimited (us : List Token) : Prop := ∀ t ∈ us.getLast?, t.kind.delimits

namespace Delimited

variable {us : List Token} {options : ReadOptions} {x y : Cursor} {l : Location}

/-- What is left of delimited tokens ends with one that delimits. -/
theorem exists_eq_append (h : Delimited us) (hx : x.upcoming <:+ us) (hne : x.upcoming ≠ []) :
    ∃ pre w, x.upcoming = pre ++ [w] ∧ w.kind.delimits := by
  obtain ⟨past, rfl⟩ := hx
  refine ⟨x.upcoming.dropLast, x.upcoming.getLast hne, (List.dropLast_append_getLast hne).symm,
    h _ ?_⟩
  rw [List.getLast?_append_of_ne_nil _ hne, List.getLast?_eq_some_getLast hne]
  rfl

/-- Where tokens end with a delimiter, nothing that follows is read with a name. -/
theorem parted (h : Delimited us) (ts : List Token) (l : Location) : Cursor.Parted us ts l := by
  intro t ht hname
  have hdelimits := h t ht
  obtain ⟨name, hname⟩ := TokenKind.isName_iff.1 hname
  rw [hname] at hdelimits
  cases hdelimits

/-- A type that is accepted in the first tokens ends in them. -/
theorem exists_append_of_constructorType (h : Delimited us) {ts : List Token}
    {made : TypeSpecifier} (hx : x.upcoming <:+ us) (hne : x.upcoming ≠ [])
    (ho : Nonterminal.constructorType.outcome options (x.append ts l) = .accepted made y) :
    ∃ d : Cursor, y = d.append ts l ∧ d.upcoming ≠ [] := by
  obtain ⟨pre, w, hu, hw⟩ := h.exists_eq_append hx hne
  have hstops := Nonterminal.outcome_stops pre ts rfl hw
    (by simp [Cursor.upcoming_append, hu]) ho
  have hreaches := Nonterminal.constructorType.outcome_reaches options (x.append ts l)
  rw [ho] at hreaches
  obtain ⟨d, hd, hne', -⟩ := hreaches.exists_append hstops
  exact ⟨d, hd, hne'⟩

/-- So it is accepted whatever follows them. -/
theorem beginsType_append (h : Delimited us) {ts ts' : List Token} (hx : x.upcoming <:+ us)
    (hdoubtful : x.Doubtful us) (hbegins : (x.append ts l).BeginsType options) :
    (x.append ts' l).BeginsType options := by
  induction hm : x.measure using Nat.strongRecOn generalizing x ts ts' with
  | ind m ih =>
    have hlater : x.advance.advance.Agrees options us ts' ts l := by
      intro y hy _ hdoubtful' hbegins'
      have hle := hy.measure_le
      obtain ⟨name, hname⟩ := hdoubtful.exists_name
      have hlt := Cursor.measure_advance_lt (c := x) (by simp [hname])
      have := Cursor.measure_advance_le x.advance
      exact ih y.measure (by omega)
        (hy.suffix.trans (Cursor.suffix_advance (Cursor.suffix_advance hx))) hdoubtful' hbegins' rfl
    obtain ⟨made, y, hmade⟩ := hbegins
    obtain ⟨d, rfl, hd⟩ := h.exists_append_of_constructorType hx hdoubtful.ne_nil hmade
    exact ⟨made, _, Nonterminal.constructorType_append (h.parted ts l) (h.parted ts' l) hx hdoubtful
      hlater hd hmade⟩

/-- Types are accepted at the same names, whatever follows. -/
theorem agrees (h : Delimited us) (hx : x.upcoming <:+ us) (ts ts' : List Token) (l : Location) :
    x.Agrees options us ts ts' l :=
  fun _ hy _ hdoubtful hbegins => h.beginsType_append (hy.suffix.trans hx) hdoubtful hbegins

end Delimited

end Wgsl
