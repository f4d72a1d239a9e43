import Wgsl.Proofs.Strays.Place

/-!
# Exchanging the tokens behind a place

What stands before a place among entries is read alike whatever stands behind it, but for an `else`
(`Cursor.Exchanges`): the tokens before the place end with a `;`, a `{` or a `}`, so nothing that is
read there looks further. So what a module comes to depends on the tokens behind the place only
through what the list that goes on there comes to (`Boundary.exists_next`), and that passes over a
`;` (`Boundary.outcome_semicolons`). Behind the continuing block of a `loop`, anything but its `}`
is refused (`BehindContinuing.outcome_eq_rejected`).
-/

namespace Wgsl

variable {options : ReadOptions} {us ts ts' : List Token} {l : Location} {c d e f x : Cursor}

/-- What goes on twice goes on once. -/
theorem Outcome.bind_assoc {α β γ : Type} (o : Outcome α) (next : α → Cursor → Outcome β)
    (next' : β → Cursor → Outcome γ) :
    (o.bind next).bind next' = o.bind fun a c => (next a c).bind next' := by
  cases o <;> rfl

/-! ## Tokens before a place -/

/-- What is left of a token behind some angles delimits no more than the token. -/
theorem Token.delimits_afterAngles (t : Token) (n : Nat) :
    (t.afterAngles n).kind.delimits = t.kind.delimits := by
  refine t.afterAngles_kind_congr TokenKind.delimits (fun mark left h => ?_) n
  cases mark <;> cases h <;> rfl

namespace Delimited

/-- Tokens that end with one that delimits are delimited. -/
theorem of_cons_suffix {t : Token} (ht : t.kind.delimits) (h : t :: ts <:+ us ++ ts) :
    Delimited us := by
  obtain ⟨past, hpast⟩ := h
  obtain rfl : past ++ [t] = us := (List.append_left_inj ts).1 (by simpa using hpast)
  intro u hu
  obtain rfl : t = u := by simpa using hu
  exact ht

/-- Behind a delimiter, the tokens end with it. -/
theorem of_advance (hdelimits : c.current.kind.delimits) (hc : c.upcoming <:+ us ++ ts)
    (hplace : c.advance = .before ts l) : Delimited us := by
  obtain ⟨t, rest, hu, hcurrent⟩ := Cursor.exists_upcoming_eq_cons (c := c) (by
    rintro hend
    simp [hend, TokenKind.delimits] at hdelimits)
  have hrest : rest = ts := by
    have hupcoming := congrArg Cursor.upcoming hplace
    rwa [Cursor.upcoming_advance, hu, List.tail_cons] at hupcoming
  refine of_cons_suffix (t := t) ?_ (hrest ▸ hu ▸ hc)
  rwa [hcurrent, Token.delimits_afterAngles] at hdelimits

/-- Tokens that are read to behind what closes are delimited. -/
theorem of_behindClosing (h : (Cursor.before ts l).BehindClosing c.upcoming)
    (hc : c.upcoming <:+ us ++ ts) : Delimited us := by
  obtain ⟨t, ht, hsuffix⟩ := h
  exact of_cons_suffix (TokenKind.delimits_of_closes ht) (hsuffix.trans hc)

/-- Behind entries, the tokens end with a delimiter. -/
theorem of_passes {entry : Nonterminal} (hends : entry.endsStatement) (htakes : entry.takesToken)
    (hts : ts ≠ []) (h : entry.Passes options (.before ts l) c) (hc : c.upcoming <:+ us ++ ts)
    (hstart : c = .before ts l → Delimited us) : Delimited us := by
  rcases h.eq_or_behindClosing hends htakes hts with heq | hbehind
  · exact hstart heq.symm
  · exact of_behindClosing hbehind hc

end Delimited

/-! ## Reading before other tokens -/

namespace Cursor

/-- The second tokens may stand where the first do, behind what ends there: they begin with the same
token, or not with an `else`. -/
structure Exchanges (ts ts' : List Token) (l : Location) : Prop where
  ne_nil : ts ≠ []
  head : (before ts' l).current = (before ts l).current ∨
    (before ts' l).current.kind ≠ .keyword .else

/-- With no tokens before them, there are the others. -/
theorem before_nil_append (ts : List Token) (l l' : Location) :
    (before [] l').append ts l = before ts l := append_of_nil rfl

/-- Behind a token of this kind, the cursor does not stand behind a `.` or a `@`. -/
theorem fresh_advance_of_kind {k : TokenKind} (hc : c.upcoming <:+ us) (hk : c.current.kind = k)
    (hend : k ≠ .endOfFile) (hbinds : k.bindsName = false) : c.advance.Fresh us :=
  (fresh_advance hc (hk ▸ hend)).2 (hk ▸ hbinds)

/-- What is left to read of the first tokens is some, if something is taken and they are not left
behind. -/
theorem ne_nil_of_measure_lt (h : e.measure < (c.append ts l).measure)
    (he : e.Reaches (d.append ts l)) : c.upcoming ≠ [] := by
  intro hnil
  rw [append_of_nil hnil] at h
  have := he.measure_le
  have := (reaches_before d ts l).measure_le
  omega

/-- A cursor between two before the tokens stands before them. -/
theorem Reaches.exists_append_between (h : (c.append ts l).Reaches e)
    (he : e.Reaches (d.append ts l)) :
    ∃ x : Cursor, e = x.append ts l ∧ x.upcoming <:+ c.upcoming := by
  by_cases hlt : ts.length < e.upcoming.length
  · obtain ⟨x, rfl, -, hreaches⟩ := h.exists_append hlt
    exact ⟨x, rfl, hreaches.suffix⟩
  · have hle := he.suffix.length_le
    rw [upcoming_append, List.length_append] at hle
    have hd : d.upcoming = [] := List.length_eq_zero_iff.1 (by omega)
    rw [append_of_nil hd] at he
    refine ⟨before [] l, ?_, List.nil_suffix⟩
    rw [before_nil_append]
    exact he.antisymm (h.of_before (Nat.le_of_not_lt hlt))

end Cursor

namespace Nonterminal

variable {n target list entry : Nonterminal}

/-- A statement or a declaration that ends before the tokens is the same before others. -/
theorem outcome_exchanged (hus : Delimited us) (hts : Cursor.Exchanges ts ts' l)
    (hn : n.endsStatement) (hne : c.upcoming ≠ []) (hc : c.upcoming <:+ us) (hfresh : c.Fresh us)
    {a : n.Result} (ho : n.outcome options (c.append ts l) = .accepted a (d.append ts l)) :
    n.outcome options (c.append ts' l) = .accepted a (d.append ts' l) := by
  by_cases hd : d.upcoming = []
  · rw [Cursor.append_of_nil hd] at ho ⊢
    exact outcome_before_of_endsStatement hus hts.ne_nil hts.head hn hne hc hfresh ho
  · exact outcome_append (hus.parted ts l) (hus.parted ts' l) hc hfresh (hus.agrees hc ts' ts l) hd
      ho

/-- Entries before the tokens are put before the rest of a list, whatever tokens stand there. -/
theorem Passes.exists_prepend (hlist : Lists options list entry) (hends : entry.endsStatement)
    (htakes : entry.takesToken) (hus : Delimited us) (h : entry.Passes options f e)
    (he : e = c.append ts l) (hf : f = d.append ts l) (hc : c.upcoming <:+ us)
    (hfresh : c.Fresh us) :
    ∃ prepend : list.Result → list.Result, ∀ ts', Cursor.Exchanges ts ts' l →
      list.outcome options (c.append ts' l) =
        (list.outcome options (d.append ts' l)).bind fun rest x => .accepted (prepend rest) x := by
  induction h generalizing c with
  | here =>
    refine ⟨id, fun ts' _ => ?_⟩
    rw [Cursor.append_congr ts' (he.symm.trans hf)]
    exact (Outcome.bind_accepted _).symm
  | @semicolon e hsemicolon h ih =>
    subst he
    have hend : (c.append ts l).current.kind ≠ .endOfFile := by simp [hsemicolon]
    have hne := Cursor.ne_nil_of_measure_lt (Cursor.measure_advance_lt hend) (hf ▸ h.reaches)
    rw [Cursor.current_append ts l hne] at hsemicolon
    obtain ⟨prepend, hprepend⟩ := ih (Cursor.advance_append ts l hne) (Cursor.suffix_advance hc)
      (Cursor.fresh_advance_of_kind hc hsemicolon (by simp) rfl)
    refine ⟨prepend, fun ts' hts => ?_⟩
    rw [hlist.semicolon _ (by rwa [Cursor.current_append ts' l hne]),
      Cursor.advance_append ts' l hne]
    exact hprepend ts' hts
  | @entry e e' a ho h ih =>
    subst he
    have hwithin := @outcome_within options entry (c.append ts l)
    have hreaches := entry.outcome_reaches options (c.append ts l)
    rw [ho] at hreaches hwithin
    rw [htakes] at hwithin
    obtain ⟨x, rfl, hx⟩ := hreaches.exists_append_between (hf ▸ h.reaches)
    have hne := Cursor.ne_nil_of_measure_lt (by simpa using hwithin) (hf ▸ h.reaches)
    have hends' := entry.endsFresh options (us ++ ts) _ (Cursor.suffix_append hc)
      (Cursor.fresh_append.2 hfresh) a _ ho
    obtain ⟨prepend, hprepend⟩ := ih rfl (hx.trans hc) (Cursor.fresh_append.1 hends')
    obtain ⟨cons, hcons⟩ := hlist.entry a
    refine ⟨fun rest => cons (prepend rest), fun ts' hts => ?_⟩
    rw [hcons _ _ (outcome_exchanged hus hts hends hne hc hfresh ho), hprepend ts' hts,
      Outcome.bind_assoc]
    rfl

/-- What is read in the first tokens is read whatever stands behind them, and what it comes to is
all that matters of the tokens from there on. -/
theorem ReadsAt.exists_next (hus : Delimited us) (h : ReadsAt options target f n e)
    (he : e = c.append ts l) (hf : f = d.append ts l) (hd : d.upcoming ≠ [])
    (hc : c.upcoming <:+ us) (hfresh : c.Fresh us) :
    ∃ next : target.Result → Cursor → Outcome n.Result, ∀ ts',
      n.outcome options (c.append ts' l) =
        (target.outcome options (d.append ts' l)).bind next := by
  induction h generalizing c with
  | here =>
    refine ⟨.accepted, fun ts' => ?_⟩
    rw [Cursor.append_congr ts' (he.symm.trans hf)]
    exact (Outcome.bind_accepted _).symm
  | @read n m e g k h hm ih =>
    subst he
    have hlength := hm.reaches.suffix.length_le
    rw [hf] at hlength
    have hreaches := h.reaches fun n c => n.outcome_reaches options c
    obtain ⟨x, rfl, hx, hreaches⟩ :=
      hreaches.exists_append ((Cursor.length_lt_append ts l hd).trans_le hlength)
    have hfresh' := Cursor.fresh_append.1 (Rule.fresh_of_remains (Cursor.suffix_append hc)
      (Cursor.fresh_append.2 hfresh) h fun s hr => hr.1)
    obtain ⟨next, hnext⟩ := ih rfl (hreaches.suffix.trans hc) hfresh'
    refine ⟨fun a x => (next a x).bind fun b y => (k b).comesTo options y, fun ts' => ?_⟩
    have hremains := (Production.names options n).remains_append (hus.parted ts l)
      (hus.parted ts' l) (.ofFresh (Cursor.fresh_append.2 hfresh)) hc (hus.agrees hc ts' ts l) hx h
    rw [outcome_eq, hremains.follow_eq, Rule.follow_read, hnext ts', Outcome.bind_assoc]

/-- A body around the place begins among the first tokens. -/
theorem ReadsAt.exists_append_of_braceLeft
    (h : ReadsAt options m d .declarations (.before (us ++ ts) l))
    (hbrace : d.current.kind = .symbol .braceLeft) (hplace : d.advance.Reaches (.before ts l)) :
    ∃ x : Cursor, d = x.append ts l ∧ x.upcoming ≠ [] ∧ x.upcoming <:+ us ∧
      x.current.kind = .symbol .braceLeft := by
  have hne : d.upcoming ≠ [] := Cursor.upcoming_ne_nil (by simp [hbrace])
  have hlt : ts.length < d.upcoming.length := by
    have hle : ts.length ≤ d.advance.upcoming.length := hplace.suffix.length_le
    have := List.length_pos_iff.2 hne
    rw [Cursor.upcoming_advance, List.length_tail] at hle
    omega
  have hreaches := h.reaches
  rw [← Cursor.before_append us ts l l] at hreaches
  obtain ⟨x, rfl, hx, hreaches⟩ := hreaches.exists_append hlt
  rw [Cursor.current_append ts l hx] at hbrace
  exact ⟨x, rfl, hx, hreaches.suffix, hbrace⟩

/-- Semicolons in front of a list are passed over. -/
theorem Lists.outcome_semicolons {ss : List Token} (hlist : Lists options list entry)
    (hss : ∀ t ∈ ss, t.kind = .symbol .semicolon) (ts : List Token) (l : Location) :
    list.outcome options (.before (ss ++ ts) l) = list.outcome options (.before ts l) := by
  induction ss with
  | nil => rfl
  | cons t ss ih =>
    rw [List.forall_mem_cons] at hss
    have hcurrent : (Cursor.before (t :: (ss ++ ts)) l).current.kind = .symbol .semicolon := hss.1
    rw [List.cons_append, hlist.semicolon _ hcurrent, Cursor.advance_before, ih hss.2]

/-- A continuing block that ends before the tokens is the same before others. -/
theorem loopBody_exchanged (hus : Delimited us) (hts : Cursor.Exchanges ts ts' l)
    (hc : c.upcoming <:+ us) {ss : List Statement}
    (hcontinuing : (c.append ts l).current.kind = .keyword .continuing)
    (ho : (block "for 'continuing' body").outcome options (c.append ts l).advance =
      .accepted ss (.before ts l)) :
    loopBody.outcome options (c.append ts' l) = .accepted ([], some ss) (.before ts' l) := by
  have hreaches := (block "for 'continuing' body").outcome_reaches options (c.append ts l).advance
  have hwithin :=
    @outcome_within options (block "for 'continuing' body") (c.append ts l).advance
  rw [← Cursor.before_nil_append ts l l] at ho
  rw [ho] at hreaches hwithin
  have hne : c.upcoming ≠ [] :=
    Cursor.ne_nil_of_measure_lt (Cursor.measure_advance_lt (by simp [hcontinuing])) hreaches
  rw [Cursor.advance_append ts l hne] at ho hwithin
  rw [Cursor.current_append ts l hne] at hcontinuing
  have hne' : c.advance.upcoming ≠ [] :=
    Cursor.ne_nil_of_measure_lt (by simpa using hwithin) (Cursor.Reaches.refl _)
  have hblock := outcome_exchanged hus hts rfl hne' (Cursor.suffix_advance hc)
    (Cursor.fresh_advance_of_kind hc hcontinuing (by simp) rfl) ho
  rw [loopBody_of_continuing (by rwa [Cursor.current_append ts' l hne]),
    Cursor.advance_append ts' l hne, hblock, Cursor.before_nil_append, Outcome.accepted_bind]

/-- A `loop` is refused where its continuing block ends and no `}` stands. -/
theorem loop_eq_rejected (hus : Delimited us) (hts : Cursor.Exchanges ts ts' l)
    (hclose : (Cursor.before ts' l).current.kind ≠ .symbol .braceRight) (hne : c.upcoming ≠ [])
    (hc : c.upcoming <:+ us) (hbrace : c.current.kind = .symbol .braceLeft)
    (h : statement.Passes options e (c.append ts l).advance) {ss : List Statement}
    (hcontinuing : e.current.kind = .keyword .continuing)
    (ho : (block "for 'continuing' body").outcome options e.advance =
      .accepted ss (.before ts l)) :
    loop.outcome options (c.append ts' l) =
      .rejected (.ofToken (.symbol .braceRight "after loop body") (Cursor.before ts' l).current)
        (.before ts' l) := by
  have hreaches := (block "for 'continuing' body").outcome_reaches options e.advance
  rw [ho, ← Cursor.before_nil_append ts l l] at hreaches
  rw [Cursor.advance_append ts l hne] at h
  obtain ⟨x, rfl, hx⟩ := h.reaches.exists_append_between hreaches.of_advance
  have hrest := loopBody_exchanged hus hts (hx.trans (Cursor.suffix_advance hc)) hcontinuing ho
  obtain ⟨prepend, hprepend⟩ := h.exists_prepend (lists_loopBody options) rfl rfl hus rfl rfl
    (Cursor.suffix_advance hc) (Cursor.fresh_advance_of_kind hc hbrace (by simp) rfl)
  rw [loop_of_braceLeft (by rwa [Cursor.current_append ts' l hne]),
    Cursor.advance_append ts' l hne, hprepend ts' hts, hrest]
  simp only [Outcome.accepted_bind, if_neg hclose]

end Nonterminal

/-! ## Places in a module -/

open Nonterminal

/-- What a module comes to depends on what stands behind a place only through what the list that
goes on there comes to. -/
theorem Boundary.exists_next (h : Boundary options (.before (us ++ ts) l) (.before ts l))
    (hts : ts ≠ []) :
    ∃ list entry, Lists options list entry ∧ ∃ next, ∀ ts', Cursor.Exchanges ts ts' l →
      declarations.outcome options (.before (us ++ ts') l) =
        (list.outcome options (.before ts' l)).bind next := by
  have hplace := (Cursor.before_nil_append ts l l).symm
  have hstart := (Cursor.before_append us ts l l).symm
  cases h with
  | inModule h =>
    have hus : Delimited us := .of_passes rfl rfl hts h List.suffix_rfl fun heq => by
      obtain rfl : us = [] := by simpa [Cursor.before] using heq
      simp [Delimited]
    obtain ⟨prepend, hprepend⟩ := h.exists_prepend (lists_declarations options) rfl rfl hus hstart
      hplace List.suffix_rfl (Cursor.fresh_before us l)
    refine ⟨_, _, lists_declarations options, fun rest x => .accepted (prepend rest) x,
      fun ts' hts' => ?_⟩
    have hlist := hprepend ts' hts'
    rwa [Cursor.before_nil_append, Cursor.before_append us ts' l l] at hlist
  | @inBody body d hbody hread hbrace h =>
    have hus : Delimited us :=
      .of_passes rfl rfl hts h (Cursor.suffix_advance hread.reaches.suffix) fun heq =>
        .of_advance (by rw [hbrace]; rfl) hread.reaches.suffix heq
    obtain ⟨x, rfl, hx, hxus, hbrace⟩ := hread.exists_append_of_braceLeft hbrace h.reaches
    obtain ⟨list, hlist, close, hclose⟩ := @exists_lists_of_isBody options body hbody
    obtain ⟨next, hnext⟩ := hread.exists_next hus hstart rfl hx List.suffix_rfl
      (Cursor.fresh_before us l)
    obtain ⟨prepend, hprepend⟩ := h.exists_prepend hlist rfl rfl hus (Cursor.advance_append ts l hx)
      hplace (Cursor.suffix_advance hxus) (Cursor.fresh_advance_of_kind hxus hbrace (by simp) rfl)
    refine ⟨list, _, hlist, fun rest y => (close (prepend rest) y).bind next, fun ts' hts' => ?_⟩
    have hbody' := hclose (x.append ts' l) (by rwa [Cursor.current_append ts' l hx])
    rw [Cursor.advance_append ts' l hx, hprepend ts' hts', Cursor.before_nil_append] at hbody'
    rw [← Cursor.before_append us ts' l l, hnext ts', hbody', Outcome.bind_assoc,
      Outcome.bind_assoc]
    rfl

/-- At such a place, any number of `;` changes nothing. -/
theorem Boundary.outcome_semicolons {ss : List Token}
    (h : Boundary options (.before (us ++ ts) l) (.before ts l)) (hts : ts ≠ [])
    (hhead : (Cursor.before ts' l).current = (Cursor.before ts l).current)
    (hss : ∀ t ∈ ss, t.kind = .symbol .semicolon) :
    declarations.outcome options (.before (us ++ (ss ++ ts')) l) =
      declarations.outcome options (.before (us ++ ts') l) := by
  obtain ⟨list, entry, hlist, next, hnext⟩ := h.exists_next hts
  have hhead' : (Cursor.before (ss ++ ts') l).current = (Cursor.before ts l).current ∨
      (Cursor.before (ss ++ ts') l).current.kind ≠ .keyword .else := by
    cases ss with
    | nil => exact .inl hhead
    | cons t ss =>
      refine .inr ?_
      rw [List.cons_append, Cursor.current_before, hss t List.mem_cons_self]
      simp
  rw [hnext _ ⟨hts, hhead'⟩, hnext _ ⟨hts, .inl hhead⟩, hlist.outcome_semicolons hss]

/-- Behind the continuing block of a `loop`, only the `}` is read. -/
theorem BehindContinuing.outcome_eq_rejected
    (h : BehindContinuing options (.before (us ++ ts) l) (.before ts l))
    (hts : Cursor.Exchanges ts ts' l)
    (hclose : (Cursor.before ts' l).current.kind ≠ .symbol .braceRight) :
    declarations.outcome options (.before (us ++ ts') l) =
      .rejected (.ofToken (.symbol .braceRight "after loop body") (Cursor.before ts' l).current)
        (.before ts' l) := by
  obtain @⟨d, e, ss, hread, hbrace, hpasses, hcontinuing, ho, -⟩ := h
  have hblock := (block "for 'continuing' body").outcome_reaches options e.advance
  rw [ho] at hblock
  have hus : Delimited us := by
    rcases stopsBehind (block "for 'continuing' body") e.advance rfl ss _ hts.ne_nil ho with
      heq | hbehind
    · have hwithin := @outcome_within options (block "for 'continuing' body") e.advance
      rw [ho, heq] at hwithin
      simp at hwithin
    · exact .of_behindClosing hbehind (hpasses.reaches.advance.suffix.trans
        (Cursor.suffix_advance hread.reaches.suffix))
  obtain ⟨x, rfl, hx, hxus, hbrace⟩ :=
    hread.exists_append_of_braceLeft hbrace (hpasses.reaches.advance.trans hblock)
  obtain ⟨next, hnext⟩ := hread.exists_next hus (Cursor.before_append us ts l l).symm rfl hx
    List.suffix_rfl (Cursor.fresh_before us l)
  rw [← Cursor.before_append us ts' l l, hnext ts',
    loop_eq_rejected hus hts hclose hx hxus hbrace hpasses hcontinuing ho, Outcome.rejected_bind]

/-- So such a place is none among statements. -/
theorem Boundary.not_behindContinuing {m : List Declaration}
    (h : Boundary options (.before (us ++ ts) l) (.before ts l))
    (ho : declarations.outcome options (.before (us ++ ts) l) = .accepted m d) :
    ¬BehindContinuing options (.before (us ++ ts) l) (.before ts l) := by
  intro hbehind
  have hts : ts ≠ [] := by
    obtain ⟨-, -, -, -, -, hclose⟩ := hbehind
    exact Cursor.upcoming_ne_nil (c := .before ts l) (by simp [hclose])
  let stray : Token := ⟨.symbol .semicolon, l⟩
  have hsame : declarations.outcome options (.before (us ++ ([stray] ++ ts)) l) =
      declarations.outcome options (.before (us ++ ts) l) :=
    h.outcome_semicolons hts rfl (by simp [stray])
  rw [ho, List.singleton_append,
    hbehind.outcome_eq_rejected ⟨hts, .inr (by simp [stray])⟩ (by simp [stray])] at hsame
  cases hsame

end Wgsl
