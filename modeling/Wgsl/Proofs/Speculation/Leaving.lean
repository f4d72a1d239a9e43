import Wgsl.Proofs.Speculation.Ahead

/-!
# Leaving the first tokens

Where a rule is followed before two sequences of tokens that begin alike, the same remains of it in
both as long as it leaves some of the first tokens (`Names.remains_append`). It leaves the last of
them in one step: by going behind it, or by reading something that goes behind it (`Rule.Leaves`).
So what a rule comes to before the one sequence can be compared with what it comes to before the
other from that step on.
-/

namespace Wgsl

namespace Rule

variable {α : Type}

/-- A condition holds of whatever may remain of the rule, and of the token it has seen there. -/
@[simp] def Always (Q : Option Token → Production α → Prop) : Option Token → Production α → Prop
  | seen, .done a => Q seen (.done a)
  | seen, .fail e => Q seen (.fail e)
  | seen, .look k => Q seen (.look k) ∧ ∀ t, (∀ u ∈ seen, t = u) → (k t).Always Q (some t)
  | seen, .lookBehind k => Q seen (.lookBehind k) ∧ ∀ kind, (k kind).Always Q seen
  | seen, .advance k => Q seen (.advance k) ∧ k.Always Q none
  | seen, .split k => Q seen (.split k) ∧ k.Always Q none
  | seen, .read m k => Q seen (.read m k) ∧ ∀ a, (k a).Always Q none
  | seen, .attempt m k =>
    Q seen (.attempt m k) ∧ (∀ a, (k (some a)).Always Q none) ∧ (k none).Always Q seen

section Always

variable {Q : Option Token → Production α → Prop} {seen : Option Token}

@[simp] theorem always_ite {p : Prop} [Decidable p] {r r' : Production α} :
    (if p then r else r').Always Q seen ↔ (p → r.Always Q seen) ∧ (¬p → r'.Always Q seen) := by
  split <;> simp_all

@[simp] theorem always_elim {γ : Type} {o : Option γ} {r : Production α} {f : γ → Production α} :
    (o.elim r f).Always Q seen ↔
      (o = none → r.Always Q seen) ∧ ∀ a, o = some a → (f a).Always Q seen := by
  cases o <;> simp

end Always

variable {options : ReadOptions} {n : Nonterminal} {r r' : Production α} {s : Stand}
variable {us ts ts' : List Token} {l : Location} {c c' d : Cursor}

/-- What is known of a rule is known of what remains of it. -/
theorem Names.remains {Q : Option Token → Production α → Prop} (hr : r.Names options n s)
    (hQ : r.Always Q s.seen) (hs : s.Holds options us c) (hc : c.upcoming <:+ us)
    (h : r'.Remains options c' r c) :
    ∃ s', r'.Names options n s' ∧ r'.Always Q s'.seen ∧ s'.Holds options us c' ∧
      c'.upcoming <:+ us := by
  induction h generalizing s with
  | here => exact ⟨s, hr, hQ, hs, hc⟩
  | look _ ih => exact ih (hr _ hs.admits) (hQ.2 _ hs.admits) hs.look hc
  | lookBehind _ ih => exact ih (hr.2.2 _) (hQ.2 _) hs.lookBehind hc
  | advance _ ih =>
    obtain ⟨t, ht, hend, -, -, hk⟩ := hr
    exact ih hk hQ.2 (hs.advance ht hend hc) (Cursor.suffix_advance hc)
  | split _ ih => exact ih hr.2 hQ.2 (hs.split hr.1) (Cursor.suffix_split hc)
  | @read m _ c _ b ho _ ih =>
    have hsuffix := m.outcome_suffix options hc
    rw [ho] at hsuffix
    have hends := m.endsFresh options us c hc (hs.fresh.1 hr.1) b _ ho
    exact ih (hr.2 b).2 (hQ.2 b) (.ofFresh hends) hsuffix
  | @take m _ c _ b ho _ ih =>
    obtain ⟨-, hbound, -, -, hsome, -⟩ := hr
    have hsuffix := m.outcome_suffix options hc
    rw [ho] at hsuffix
    have hends := m.endsFresh options us c hc (hs.fresh.1 hbound) b _ ho
    exact ih (hsome b) (hQ.2.1 b) (.ofFresh hends) hsuffix
  | refuse ho _ ih =>
    obtain ⟨-, -, -, rfl, -, hnone⟩ := hr
    exact ih hnone hQ.2.2 (hs.refuse ho) hc

/-- Where some of the first tokens are left later on, some are left now. -/
theorem ne_nil_of_remains (hd : d.upcoming ≠ [])
    (h : r'.Remains options (d.append ts l) r (c.append ts l)) : c.upcoming ≠ [] := by
  intro hnil
  have hle := (h.reaches fun n c => n.outcome_reaches options c).suffix.length_le
  have hlt := Cursor.length_lt_append ts l hd
  rw [Cursor.upcoming_append c, hnil, List.nil_append] at hle
  omega

/-- What a rule reads leaves some of the tokens, if what remains does. -/
theorem exists_append_of_remains {m : Nonterminal} {b : m.Result} {e : Cursor}
    (hd : d.upcoming ≠ []) (hm : m.outcome options (c.append ts l) = .accepted b e)
    (h : r'.Remains options (d.append ts l) r e) :
    ∃ d, e = d.append ts l ∧ d.upcoming ≠ [] ∧ c.Reaches d := by
  have hreaches := m.outcome_reaches options (c.append ts l)
  rw [hm] at hreaches
  have hrest := h.reaches fun n c => n.outcome_reaches options c
  exact hreaches.exists_append ((Cursor.length_lt_append ts l hd).trans_le hrest.suffix.length_le)

/-- As long as some of the first tokens are left, the same remains of a rule whatever follows
them. -/
theorem Names.remains_append (hparted : Cursor.Parted us ts l)
    (hparted' : Cursor.Parted us ts' l) (hr : r.Names options n s)
    (hs : s.Holds options (us ++ ts) (c.append ts l)) (hc : c.upcoming <:+ us)
    (hagrees : c.Agrees options us ts' ts l) (hd : d.upcoming ≠ [])
    (h : r'.Remains options (d.append ts l) r (c.append ts l)) :
    r'.Remains options (d.append ts' l) r (c.append ts' l) := by
  generalize he : c.append ts l = e at h
  induction h generalizing s c with
  | here =>
    rw [Cursor.append_congr ts' he]
    exact .here
  | look h ih =>
    subst he
    have hne := ne_nil_of_remains hd h
    have hcurrent := Cursor.current_append ts l hne
    refine .look ?_
    rw [Cursor.current_append ts' l hne, ← hcurrent]
    exact ih (hr _ hs.admits) hs.look hc hagrees rfl
  | lookBehind h ih =>
    subst he
    refine .lookBehind ?_
    rw [hr.lookBehind_append hs hparted hparted' (ne_nil_of_remains hd h) hc]
    exact ih (hr.2.2 _) hs.lookBehind hc hagrees rfl
  | @advance k _ h ih =>
    subst he
    have hne : c.upcoming ≠ [] := ne_nil_of_remains (r := .advance k) hd (.advance h)
    have hnext := Cursor.advance_append ts l hne
    obtain ⟨t, ht, hend, -, -, hk⟩ := hr
    refine .advance ?_
    rw [Cursor.advance_append ts' l hne]
    exact ih hk (hnext ▸ hs.advance ht hend (Cursor.suffix_append hc)) (Cursor.suffix_advance hc)
      (hagrees.of_reaches (Cursor.Reaches.refl c).advance) hnext.symm
  | @split k _ h ih =>
    subst he
    have hne : c.upcoming ≠ [] := ne_nil_of_remains (r := .split k) hd (.split h)
    have hnext := Cursor.split_append ts l hne
    refine .split ?_
    rw [Cursor.split_append ts' l hne]
    exact ih hr.2 (hnext ▸ hs.split hr.1) (Cursor.suffix_split hc)
      (hagrees.of_reaches (Cursor.Reaches.refl c).split) hnext.symm
  | @read m _ _ e b ho h ih =>
    subst he
    obtain ⟨hbound, hnext⟩ := hr
    have hfresh := hs.fresh.1 hbound
    have hends := m.endsFresh options (us ++ ts) _ (Cursor.suffix_append hc) hfresh b _ ho
    obtain ⟨e, rfl, he, hreaches⟩ := exists_append_of_remains hd ho h
    exact .read (m.outcome_append hparted hparted' hc (Cursor.fresh_append.1 hfresh) hagrees he ho)
      (ih (hnext b).2 (.ofFresh hends) (hreaches.suffix.trans hc) (hagrees.of_reaches hreaches) rfl)
  | @take m _ _ e b ho h ih =>
    subst he
    obtain ⟨-, hbound, -, -, hsome, -⟩ := hr
    have hfresh := hs.fresh.1 hbound
    have hends := m.endsFresh options (us ++ ts) _ (Cursor.suffix_append hc) hfresh b _ ho
    obtain ⟨e, rfl, he, hreaches⟩ := exists_append_of_remains hd ho h
    exact .take (m.outcome_append hparted hparted' hc (Cursor.fresh_append.1 hfresh) hagrees he ho)
      (ih (hsome b) (.ofFresh hends) (hreaches.suffix.trans hc) (hagrees.of_reaches hreaches) rfl)
  | refuse ho h ih =>
    subst he
    obtain ⟨err', e', ho'⟩ :=
      hr.rejected_append hs hparted (ne_nil_of_remains hd h) hc hagrees ho
    obtain ⟨-, -, -, rfl, -, hnone⟩ := hr
    exact .refuse ho' (ih hnone (hs.refuse ho) hc hagrees rfl)

/-- A rule leaves the first tokens here: it goes behind the last of them, or it reads something that
leaves them. Then it comes to what remains of it elsewhere. -/
inductive Leaves (options : ReadOptions) (ts : List Token) (l : Location) (r' : Production α)
    (c' : Cursor) : Production α → Cursor → Prop
  | advance {k : Production α} {c : Cursor} (hlast : c.advance.upcoming = [])
    (h : r'.Remains options c' k (.before ts l)) : Leaves options ts l r' c' (.advance k) c
  | read {m : Nonterminal} {k : m.Result → Production α} {c d : Cursor} {a : m.Result}
    (ho : m.outcome options (c.append ts l) = .accepted a d)
    (hd : d.upcoming.length ≤ ts.length) (h : r'.Remains options c' (k a) d) :
    Leaves options ts l r' c' (.read m k) c
  | take {m : Nonterminal} {k : Option m.Result → Production α} {c d : Cursor} {a : m.Result}
    (ho : m.outcome options (c.append ts l) = .accepted a d)
    (hd : d.upcoming.length ≤ ts.length) (h : r'.Remains options c' (k (some a)) d) :
    Leaves options ts l r' c' (.attempt m k) c

/-- What remains of a rule behind the first tokens remains of it where it leaves them. -/
theorem exists_leaves (hne : c.upcoming ≠ []) (hc' : c'.upcoming.length ≤ ts.length)
    (h : r'.Remains options c' r (c.append ts l)) :
    ∃ r₁ d, d.upcoming ≠ [] ∧ c.Reaches d ∧ r₁.Remains options (d.append ts l) r (c.append ts l) ∧
      Leaves options ts l r' c' r₁ d := by
  generalize he : c.append ts l = e at h
  induction h generalizing c with
  | here =>
    have := Cursor.length_lt_append ts l hne
    rw [he] at this
    omega
  | look h ih =>
    obtain ⟨r₁, d, hd, hreaches, hremains, hleaves⟩ := ih hne he
    exact ⟨r₁, d, hd, hreaches, .look hremains, hleaves⟩
  | lookBehind h ih =>
    obtain ⟨r₁, d, hd, hreaches, hremains, hleaves⟩ := ih hne he
    exact ⟨r₁, d, hd, hreaches, .lookBehind hremains, hleaves⟩
  | @advance k _ h ih =>
    subst he
    have hnext := Cursor.advance_append ts l hne
    by_cases hlast : c.advance.upcoming = []
    · rw [hnext, Cursor.append_of_nil hlast] at h
      exact ⟨.advance k, c, hne, .refl c, .here, .advance hlast h⟩
    · obtain ⟨r₁, d, hd, hreaches, hremains, hleaves⟩ := ih hlast hnext.symm
      exact ⟨r₁, d, hd, hreaches.of_advance, .advance hremains, hleaves⟩
  | @split k _ h ih =>
    subst he
    obtain ⟨r₁, d, hd, hreaches, hremains, hleaves⟩ :=
      ih (by rwa [Cursor.upcoming_split]) (Cursor.split_append ts l hne).symm
    exact ⟨r₁, d, hd, hreaches.of_split, .split hremains, hleaves⟩
  | @read m k _ e b ho h ih =>
    subst he
    by_cases hlt : ts.length < e.upcoming.length
    · have hreaches := m.outcome_reaches options (c.append ts l)
      rw [ho] at hreaches
      obtain ⟨e, rfl, he, hreaches⟩ := hreaches.exists_append hlt
      obtain ⟨r₁, d, hd, hreaches', hremains, hleaves⟩ := ih he rfl
      exact ⟨r₁, d, hd, hreaches.trans hreaches', .read ho hremains, hleaves⟩
    · exact ⟨.read m k, c, hne, .refl c, .here, .read ho (Nat.le_of_not_lt hlt) h⟩
  | @take m k _ e b ho h ih =>
    subst he
    by_cases hlt : ts.length < e.upcoming.length
    · have hreaches := m.outcome_reaches options (c.append ts l)
      rw [ho] at hreaches
      obtain ⟨e, rfl, he, hreaches⟩ := hreaches.exists_append hlt
      obtain ⟨r₁, d, hd, hreaches', hremains, hleaves⟩ := ih he rfl
      exact ⟨r₁, d, hd, hreaches.trans hreaches', .take ho hremains, hleaves⟩
    · exact ⟨.attempt m k, c, hne, .refl c, .here, .take ho (Nat.le_of_not_lt hlt) h⟩
  | refuse ho h ih =>
    subst he
    obtain ⟨r₁, d, hd, hreaches, hremains, hleaves⟩ := ih hne rfl
    exact ⟨r₁, d, hd, hreaches, .refuse ho hremains, hleaves⟩

end Rule

end Wgsl
