import Wgsl.Proofs.Speculation.PastParen

/-!
# Types that are accepted whatever follows

Whether a type is accepted that is tried at a name may depend on tokens behind the place where it
ends: another type may be tried among its parameters, go on past that place, and be accepted or
refused for what stands there. It does not (`constructorType_lasts`): what is accepted among the
first tokens, up to a `(`, is accepted before all other tokens.

The type is cut at the `(` (`TypeCut`). A type that is tried among its parameters ends before the
`(`, up to it or past it. Up to it, the induction applies. Past it, it has met one that ends before
the `(`, which by the induction is accepted before the other tokens as well; but that one would
close the angle that closes the outer type (`TypeCut.ne_of_reaches`).
-/

namespace Wgsl

open scoped Rule.Steps

namespace Cursor

variable {us ts ts' : List Token} {l : Location} {c d x : Cursor}

/-- Tokens may be put behind the first ones one after the other. -/
theorem append_cons (hne : c.upcoming ≠ []) (t : Token) (ts : List Token) (l : Location) :
    c.append (t :: ts) l = (c.append [t] l).append ts l := by
  simp [append, hne]

/-- The first token apart from the others. -/
theorem before_cons (t : Token) (ts : List Token) (l : Location) :
    before (t :: ts) l = (before [t] l).append ts l := by
  simp [append, before]

/-- Behind the first tokens, what is reached with no other token read is the place behind them, if
nothing can be split off there. -/
theorem Reaches.eq_before {t : Token} {rest : List Token} (h : (c.append (t :: rest) l).Reaches d)
    (hd : d.upcoming = t :: rest) (ht : t.afterAngle? = none) : d = before (t :: rest) l := by
  have hbehind : (before (t :: rest) l).Reaches d := h.of_before (by rw [hd])
  refine ((hbehind.eq_or_advance ht).resolve_right fun hbeyond => ?_).symm
  have hlength := hbeyond.suffix.length_le
  rw [hd] at hlength
  exact absurd hlength (Nat.not_succ_le_self _)

end Cursor

/-- A type that is accepted among the first tokens, from `x` to `d`, is cut at the `(` behind it:
`z` stands where `x` does, but only the tokens before the `(` follow. -/
structure TypeCut (l : Location) (x d : Cursor) (front : List Token) (paren : Token)
    (rest : List Token) (z : Cursor) : Prop where
  paren_kind : paren.kind = .symbol .parenLeft
  append_eq : ∀ ts, x.append ts l = z.append (paren :: (rest ++ ts)) l
  before_eq : ∀ ts, d.append ts l = .before (paren :: (rest ++ ts)) l
  ne_nil : z.upcoming ≠ []
  suffix : z.upcoming <:+ front
  angle : ∀ t ∈ front.getLast?, t.kind.isAngles
  doubtful : z.Doubtful front
  measure_le : (z.append [paren] l).measure ≤ x.measure

section Lasting

variable {options : ReadOptions} {us ts ts' : List Token} {l : Location} {x d : Cursor}
variable {made : TypeSpecifier}

/-- A type that is tried with success at a name can be cut behind its last angle. -/
theorem exists_typeCut (hx : x.Doubtful us) (hxus : x.upcoming <:+ us) (hd : d.upcoming ≠ [])
    (ho : Nonterminal.constructorType.outcome options (x.append ts l) =
      .accepted made (d.append ts l)) :
    ∃ front paren rest z, TypeCut l x d front paren rest z := by
  obtain ⟨angle, paren, rest, hangle, hkind, hparen, hbehind⟩ :=
    Nonterminal.exists_angle_paren (hx.append ts l) ho
  obtain ⟨paren, rest, hcons⟩ := List.exists_cons_of_ne_nil hd
  rw [Cursor.upcoming_append, hcons] at hparen
  obtain ⟨rfl, -⟩ := List.cons.inj hparen
  rw [Cursor.upcoming_append, Cursor.upcoming_append, ← List.cons_append] at hbehind
  obtain ⟨pre, hu⟩ := List.suffix_append_self_iff.1 hbehind
  rw [hcons, eq_comm] at hu
  obtain ⟨past, rfl⟩ := hxus
  let z : Cursor := ⟨pre ++ [angle], x.taken, x.finish, x.taken_le⟩
  have hz : z.upcoming ≠ [] := List.append_ne_nil_of_right_ne_nil pre (List.cons_ne_nil angle [])
  have happend : ∀ ts, x.append ts l = z.append (paren :: (rest ++ ts)) l := by
    intro ts
    simp [Cursor.append, z, hu]
  have hlast : ∀ t ∈ (past ++ (pre ++ [angle])).getLast?, t.kind.isAngles := by
    simpa using hangle
  refine ⟨past ++ (pre ++ [angle]), paren, rest, z,
    { paren_kind := hkind, append_eq := happend, before_eq := ?_, ne_nil := hz,
      suffix := ⟨past, rfl⟩, angle := hlast, doubtful := ?_, measure_le := ?_ }⟩
  · have hreaches := Nonterminal.constructorType.outcome_reaches options (x.append ts l)
    rw [ho, happend] at hreaches
    have hbefore : d.append ts l = .before (paren :: (rest ++ ts)) l :=
      hreaches.eq_before (by rw [Outcome.cursor_accepted, Cursor.upcoming_append, hcons]; rfl)
        (by rw [Token.afterAngle?, hkind]; rfl)
    have htaken : d.taken = 0 := by
      simpa [Cursor.append, Cursor.before, hd] using congrArg Cursor.taken hbefore
    intro ts
    simp only [Cursor.append, Cursor.before, htaken, hcons, ite_self, List.cons_append]
  · have hthrough : (z.append (paren :: rest) x.finish).Doubtful
        ((past ++ (pre ++ [angle])) ++ paren :: rest) := by
      refine Eq.mp (congrArg₂ Cursor.Doubtful ?_ ?_) hx
      · simp [hu]
      · simp [Cursor.append, z, ← hu]
    refine hthrough.of_append (fun t ht hname => ?_) hz ⟨past, rfl⟩
    obtain ⟨name, hname⟩ := TokenKind.isName_iff.1 hname
    have := hlast t ht
    simp [hname] at this
  · have hx : x.upcoming.length = pre.length + (rest.length + 2) := by
      rw [hu, List.length_append, List.length_cons, List.length_cons]
    have hcut : (z.append [paren] l).upcoming.length = pre.length + 2 := by
      simp [Cursor.upcoming_append, z]
    have htaken : (z.append [paren] l).taken = x.taken := if_neg hz
    rw [Cursor.measure, Cursor.measure, hx, hcut, htaken]
    omega

namespace TypeCut

variable {front rest : List Token} {paren : Token} {y z : Cursor}
variable (h : TypeCut l x d front paren rest z)

include h

/-- The cut is behind a closing angle, before a `(`. -/
theorem angleParen (ts' : List Token) : AngleParen front (paren :: ts') l :=
  ⟨h.angle, h.paren_kind⟩

/-- With the `(`, the tokens up to the cut do not end with a name. -/
theorem parted_paren (ts' : List Token) : Cursor.Parted (front ++ [paren]) ts' l := by
  intro t ht
  obtain rfl : paren = t := by simpa using ht
  simp [h.paren_kind]

/-- Behind the cut, tokens may be added. -/
theorem advance_append (ts' : List Token) :
    (z.append ts' l).advance.advance = z.advance.advance.append ts' l := by
  rw [Cursor.advance_append ts' l h.ne_nil, Cursor.advance_append ts' l h.doubtful.advance_ne_nil]

/-- From behind the name on, less is left. -/
theorem measure_lt (hy : z.advance.advance.Reaches y) (hne : y.upcoming ≠ []) :
    (y.append [paren] l).measure < x.measure := by
  have hreaches : (z.append [paren] l).advance.advance.Reaches (y.append [paren] l) := by
    rw [h.advance_append]
    exact hy.append hne
  obtain ⟨name, hname⟩ := (h.doubtful.append [paren] l).exists_name
  calc (y.append [paren] l).measure
      ≤ (z.append [paren] l).advance.advance.measure := hreaches.measure_le
    _ ≤ (z.append [paren] l).advance.measure := Cursor.measure_advance_le _
    _ < (z.append [paren] l).measure := Cursor.measure_advance_lt (by simp [hname])
    _ ≤ x.measure := h.measure_le

/-- What stands in doubt before the `(` stands in doubt before it is put there. -/
theorem exists_append (hy : (z.append [paren] l).advance.advance.Reaches y)
    (hdoubtful : y.Doubtful (front ++ [paren])) :
    ∃ y', y = y'.append [paren] l ∧ y'.Doubtful front ∧ z.advance.advance.Reaches y' := by
  rw [h.advance_append] at hy
  obtain ⟨y', rfl, hne, hreaches⟩ := hy.exists_append (by
    have := List.length_pos_iff.2 hdoubtful.advance_ne_nil
    rw [Cursor.upcoming_advance, List.length_tail] at this
    simp only [List.length_singleton]
    omega)
  refine ⟨y', rfl, hdoubtful.of_append ?_ hne ?_, hreaches⟩
  · exact (h.angleParen []).parted
  · exact hreaches.of_advance.of_advance.suffix.trans h.suffix

/-- No type is accepted among the parameters of the one that ends before the `(`, and ends there,
too. -/
theorem ne_of_reaches
    (ho : Nonterminal.constructorType.outcome options (x.append ts l) =
      .accepted made (d.append ts l))
    (hy : z.advance.advance.Reaches y) (hdoubtful : y.Doubtful front) (made' : TypeSpecifier) :
    Nonterminal.constructorType.outcome options (y.append (paren :: (rest ++ ts)) l) ≠
      .accepted made' (d.append ts l) := by
  have hz := h.doubtful.append (paren :: (rest ++ ts)) l
  obtain ⟨name, hname⟩ := hz.exists_name
  rw [h.append_eq] at ho
  obtain ⟨⟨parameters, hparameters, -⟩, -⟩ :=
    (Nonterminal.constructorType_eq_accepted_of_doubtful hz hname).1 ho
  have hsuffix : (z.append (paren :: (rest ++ ts)) l).upcoming <:+ front ++ paren :: (rest ++ ts) :=
    Cursor.suffix_append h.suffix
  refine Nonterminal.ne_of_typeParameters (Cursor.suffix_advance (Cursor.suffix_advance hsuffix)) ?_
    hparameters (hdoubtful.append _ l) ?_
  · have hless := hz.less_advance
    exact (Cursor.fresh_advance (Cursor.suffix_advance hsuffix) (by simp [hless])).2
      (by rw [hless]; rfl)
  · rw [h.advance_append]
    exact hy.append hdoubtful.ne_nil

/-- In the type that ends before the `(`, all brackets are closed that are opened in it. -/
theorem nest_eq_nil
    (ho : Nonterminal.constructorType.outcome options (x.append ts l) =
      .accepted made (d.append ts l)) : nest [] z.kinds = some [] := by
  rw [h.append_eq, h.before_eq] at ho
  obtain ⟨ks, hks, hclosed⟩ := Nonterminal.outcome_nests ho []
  have hkinds : z.kinds = ks := by
    refine (List.append_left_inj ((paren :: (rest ++ ts)).map (·.kind))).1 ?_
    simpa [Cursor.kinds, Cursor.upcoming_append, Cursor.before] using hks
  rw [hkinds, hclosed]

/-- What is accepted among the parameters and goes past the `(` meets a type that ends there. -/
theorem meetsType
    (ho : Nonterminal.constructorType.outcome options (x.append ts l) =
      .accepted made (d.append ts l))
    {ts' : List Token} {made' : TypeSpecifier} {e : Cursor} (hy : z.advance.advance.Reaches y)
    (hdoubtful : y.Doubtful front)
    (he : Nonterminal.constructorType.outcome options (y.append (paren :: (rest ++ ts')) l) =
      .accepted made' e) (hlt : e.upcoming.length < (paren :: (rest ++ ts')).length) :
    MeetsType options front (paren :: (rest ++ ts')) l y := by
  have hyz := hy.of_advance.of_advance.suffix
  have hysuffix := hyz.trans h.suffix
  obtain ⟨o, hopen⟩ := Nonterminal.exists_nest_of_outcome he hlt.le
  have hnest := h.nest_eq_nil ho
  obtain ⟨pre, hpre⟩ := hyz
  rw [Cursor.kinds, ← hpre, List.map_append, nest_append] at hnest
  obtain ⟨o', -, hrest⟩ := Option.bind_eq_some_iff.1 hnest
  have hboth := nest_of_nest_nil hopen o'
  rw [List.nil_append, Cursor.kinds, hrest] at hboth
  obtain ⟨rfl, -⟩ := List.append_eq_nil_iff.1 (Option.some.inj hboth).symm
  exact Nonterminal.passesParen (h.angleParen _) .constructorType _ y rfl rfl hdoubtful.ne_nil
    hysuffix hdoubtful.fresh hopen made' e he hlt

end TypeCut

/-- Whether a type is accepted that ends before a `(` does not depend on what follows the `(`. -/
theorem constructorType_lasts (hx : x.Doubtful us) (hxus : x.upcoming <:+ us) (hd : d.upcoming ≠ [])
    (ho : Nonterminal.constructorType.outcome options (x.append ts l) =
      .accepted made (d.append ts l)) (ts' : List Token) :
    Nonterminal.constructorType.outcome options (x.append ts' l) =
      .accepted made (d.append ts' l) := by
  induction hm : x.measure using Nat.strongRecOn generalizing x us ts ts' d made with
  | ind m ih =>
    subst hm
    obtain ⟨front, paren, rest, z, hcut⟩ := exists_typeCut hx hxus hd ho
    have hcuttype := ho
    have hbefore_ne : (Cursor.before [paren] l).upcoming ≠ [] := List.cons_ne_nil paren []
    rw [hcut.append_eq, hcut.before_eq, Cursor.append_cons hcut.ne_nil, Cursor.before_cons] at ho ⊢
    refine Nonterminal.constructorType_append (hcut.parted_paren _) (hcut.parted_paren _)
      (Cursor.suffix_append hcut.suffix) (hcut.doubtful.append [paren] l) ?_ hbefore_ne ho
    rintro y hy hyne hydoubtful ⟨made', e, he⟩
    obtain ⟨y, rfl, hydoubtful', hyz⟩ := hcut.exists_append hy hydoubtful
    have hysuffix : y.upcoming <:+ front := hyz.of_advance.of_advance.suffix.trans hcut.suffix
    by_cases hlt : (rest ++ ts').length < e.upcoming.length
    · -- the type ends up to the `(`, and the same is known of it
      have hreaches := Nonterminal.constructorType.outcome_reaches options
        ((y.append [paren] l).append (rest ++ ts') l)
      rw [he] at hreaches
      obtain ⟨e, rfl, hene, -⟩ := hreaches.exists_append hlt
      exact ⟨made', _, ih _ (hcut.measure_lt hyz hydoubtful'.ne_nil) hydoubtful
        (Cursor.suffix_append hysuffix) hene he _ rfl⟩
    · -- it goes past the `(`, and another one ends there, which is accepted before the others, too
      rw [← Cursor.append_cons hydoubtful'.ne_nil] at he
      obtain ⟨w, made'', hyw, hwdoubtful, hw⟩ := hcut.meetsType hcuttype hyz hydoubtful' he
        (Nat.lt_succ_of_le (Nat.le_of_not_lt hlt))
      rw [Cursor.append_cons hwdoubtful.ne_nil, Cursor.before_cons] at hw
      have hsame := ih _ (hcut.measure_lt (hyz.trans hyw) hwdoubtful.ne_nil)
        (hwdoubtful.append [paren] l) (Cursor.suffix_append (hyw.suffix.trans hysuffix)) hbefore_ne
        hw (rest ++ ts) rfl
      rw [← Cursor.append_cons hwdoubtful.ne_nil, ← Cursor.before_cons, ← hcut.before_eq] at hsame
      exact absurd hsame (hcut.ne_of_reaches hcuttype (hyz.trans hyw) hwdoubtful made'')

end Lasting

end Wgsl
