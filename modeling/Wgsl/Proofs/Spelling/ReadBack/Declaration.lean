import Wgsl.Proofs.Spelling.ReadBack.Statement
import Wgsl.Proofs.WholeFile

/-!
# What is spelled is read back: declarations

With declarations the way back is complete. Whatever a well-shaped module is spelled with, as long
as its operands are in parentheses, is read as that module, in every node and location.
-/

namespace Wgsl

open Spelling Nonterminal

variable {c d c' : Cursor}

/-- A type that can be written is read up to where no parameters follow. -/
theorem type_outcome {t : TypeSpecifier} (ht : t.WellShaped)
    (h : c.Reads (t.spellings .parenthesized) c') (hc' : c'.current.kind ≠ .symbol .lessThan) :
    type.outcome {} c = .accepted t c' :=
  (type_readBack t ht).1 c c' h hc'

/-- Further names are read up to the semicolon. -/
theorem furtherNames_outcome {ns : List String} (h : c.Reads (furtherNamesSpellings ns) c')
    (hc' : c'.current.kind = .symbol .semicolon) : furtherNames.outcome {} c = .accepted ns c' := by
  induction ns generalizing c with
  | nil =>
    rw [outcome_eq]
    rcases Cursor.reads_optional.1 h with rfl | hcomma
    · simp [Production.ofNonterminal, Production.furtherNames, hc']
    · obtain ⟨hkind, rfl⟩ := Cursor.reads_mark.1 hcomma
      simp [Production.ofNonterminal, Production.furtherNames, hkind, hc']
  | cons n ns ih =>
    simp only [furtherNamesSpellings, Cursor.reads_mul, Cursor.reads_mark, Cursor.reads_named] at h
    obtain ⟨_, ⟨_, ⟨hcomma, rfl⟩, hname, rfl⟩, hrest⟩ := h
    rw [outcome_eq]
    simp [Production.ofNonterminal, Production.furtherNames, hcomma, hname, ih hrest]

/-- Parameters and members are read up to what closes them. -/
theorem bindings_outcome {bs : List Binding} (hbs : ∀ b ∈ bs, b.WellShaped) (role : BindingRole)
    (h : c.Reads (bindingsSpellings .parenthesized bs) c')
    (hc' : c'.current.kind = .symbol role.closing) :
    (bindings role).outcome {} c = .accepted bs c' := by
  have hclosing : ∀ k : TokenKind, k = .symbol role.closing →
      k ≠ .symbol .comma ∧ k ≠ .symbol .lessThan ∧ k ≠ .symbol .attr ∧ ∀ n, k ≠ .identifier n := by
    rintro _ rfl
    cases role <;> exact ⟨by decide, by decide, by decide, by simp⟩
  induction bs generalizing c with
  | nil =>
    obtain rfl : c = c' := Cursor.reads_one.1 h
    rw [outcome_eq]
    simp [Production.ofNonterminal, Production.bindings, hc']
  | cons b bs ih =>
    obtain ⟨attributes, name, t, l⟩ := b
    simp only [bindingsSpellings, Binding.spellings, Cursor.reads_mul, Cursor.reads_add,
      Cursor.reads_when, Cursor.reads_word, Cursor.reads_mark] at h
    obtain ⟨f, ⟨_, ⟨_, ⟨d, hattributes, hd, rfl⟩, hcolon, rfl⟩, ht⟩, hrest⟩ := h
    have hshape := hbs _ List.mem_cons_self
    have hkind : d.current.kind = .identifier name := by rw [hd]
    have hlist := attributes_outcome (attributes_readBack attributes hshape.1) hattributes
      (by simp [hkind]) (by simp [hkind])
    have hstart : c.current.kind ≠ .symbol role.closing := by
      intro hc
      obtain ⟨-, -, hattribute, hname⟩ := hclosing _ hc
      obtain ⟨rfl, rfl⟩ := hattributes.attributes_eq_nil hattribute
      exact hname name hkind
    rw [outcome_eq]
    rcases hrest with ⟨rfl, rfl⟩ | ⟨_, ⟨hcomma, rfl⟩, hrest⟩
    · obtain ⟨hcomma, hangle, -⟩ := hclosing _ hc'
      simp [Production.ofNonterminal, Production.bindings, hstart, hlist, hcolon,
        type_outcome hshape.2 ht hangle, hcomma, hd, Rule.follow_ite]
    · have htype := type_outcome hshape.2 ht (by simp [hcomma])
      have htail := ih (fun b hb => hbs b (List.mem_cons_of_mem _ hb)) hrest
      simp [Production.ofNonterminal, Production.bindings, hstart, hlist, hcolon, htype, hcomma,
        htail, hd, Rule.follow_ite]

/-- What a function returns is read, if there is something. -/
theorem functionResult_outcome {r : Option FunctionResult} (hr : ∀ r' ∈ r, r'.WellShaped)
    (h : c.Reads (resultSpellings .parenthesized r) c')
    (hc' : c'.current.kind = .symbol .braceLeft) :
    functionResult.outcome {} c = .accepted r c' := by
  rw [outcome_eq]
  cases r with
  | none =>
    obtain rfl : c = c' := Cursor.reads_one.1 h
    simp [Production.ofNonterminal, Production.functionResult, hc']
  | some r =>
    obtain ⟨attributes, t⟩ := r
    obtain ⟨hattributes, hnone, ht⟩ := hr _ rfl
    simp only [resultSpellings, Cursor.reads_mul, Cursor.reads_mark] at h
    obtain ⟨d, ⟨_, ⟨harrow, rfl⟩, hlist⟩, htype⟩ := h
    have hd := (t.begins_spellings _ hnone).reads htype
    have hlist := attributes_outcome (attributes_readBack attributes hattributes) hlist
      (by simp [hd]) (by simp [hd])
    have htype := type_outcome ht htype (by simp [hc'])
    simp [Production.ofNonterminal, Production.functionResult, harrow, hlist, htype]

/-- A function is read behind its word. -/
theorem function_outcome {f : Function} (hf : f.WellShaped)
    (h : c.Reads (f.spellings .parenthesized) c') :
    c.current.kind = .keyword .fn ∧ function.outcome {} c.advance = .accepted f c' := by
  simp only [Function.spellings, Cursor.reads_mul, Cursor.reads_reserved, Cursor.reads_word] at h
  obtain ⟨g, ⟨k, ⟨_, ⟨_, ⟨hfn, rfl⟩, hname, rfl⟩, hlist⟩, hresult⟩, hbody⟩ := h
  obtain ⟨hopen, d, hparameters, hclose, rfl⟩ := Cursor.reads_parenthesized.1 hlist
  have hkind : c.advance.current.kind = .identifier f.name := by rw [hname]
  have hbrace := (Cursor.reads_braced.1 hbody).1
  have hparameters := bindings_outcome hf.parameters .parameter hparameters hclose
  have hresult := functionResult_outcome hf.result hresult hbrace
  have hblock := block_outcome (statements_readBack f.body hf.body) "before function body" hbody
  refine ⟨hfn, ?_⟩
  rw [outcome_eq]
  simp [Production.ofNonterminal, Production.function, hopen, hparameters, hclose, hresult, hblock,
    hname]

/-! ## Items -/

/-- A variable is read as what is declared. -/
theorem item_variable {v : Variable} (hv : v.WellShaped)
    (h : c.Reads ((Item.variable v).spellings .parenthesized) c') :
    item.outcome {} c = .accepted (.variable v) c' := by
  simp only [Item.spellings, Cursor.reads_mul, Cursor.reads_mark] at h
  obtain ⟨d, h, hend, rfl⟩ := h
  obtain ⟨hword, hvariable⟩ := variable_outcome hv h hend
  have hkind : c.current.kind = .keyword v.kind.keyword := by rw [hword]
  have hl : c.current.location = v.location := by rw [hword]
  have hintroduces := TokenKind.variableKind?_eq_some_iff.2 hkind
  rw [outcome_eq]
  cases hk : v.kind <;>
    (rw [hk] at hkind hvariable hintroduces
     simp_all [Production.ofNonterminal, Production.item, VariableKind.keyword])

/-- A well-shaped item is read back from its spellings. -/
theorem item_outcome {i : Item} (hi : i.WellShaped) (h : c.Reads (i.spellings .parenthesized) c') :
    item.outcome {} c = .accepted i c' := by
  cases i with
  | enable n ns l =>
    simp only [Item.spellings, Cursor.reads_mul, Cursor.reads_keyword, Cursor.reads_named,
      Cursor.reads_mark] at h
    obtain ⟨d, ⟨_, ⟨_, ⟨hc, rfl⟩, hname, rfl⟩, hnames⟩, hend, rfl⟩ := h
    rw [outcome_eq]
    simp [Production.ofNonterminal, Production.item, hc, hname,
      furtherNames_outcome hnames hend, hend]
  | «alias» n t l =>
    simp only [Item.spellings, Cursor.reads_mul, Cursor.reads_keyword, Cursor.reads_named,
      Cursor.reads_mark] at h
    obtain ⟨d, ⟨_, ⟨_, ⟨_, ⟨hc, rfl⟩, hname, rfl⟩, hequal, rfl⟩, ht⟩, hend, rfl⟩ := h
    have htype := type_outcome hi ht (by simp [hend])
    rw [outcome_eq]
    simp [Production.ofNonterminal, Production.item, hc, hname, hequal,
      htype, hend]
  | struct n bs l =>
    simp only [Item.spellings, Cursor.reads_mul, Cursor.reads_keyword, Cursor.reads_named] at h
    obtain ⟨_, ⟨_, ⟨hc, rfl⟩, hname, rfl⟩, hbody⟩ := h
    obtain ⟨hopen, d, hmembers, hclose, rfl⟩ := Cursor.reads_braced.1 hbody
    have hmembers := bindings_outcome hi .member hmembers hclose
    rw [outcome_eq]
    simp [Production.ofNonterminal, Production.item, hc, hname, hopen,
      hmembers, hclose]
  | function f =>
    obtain ⟨hfn, hfunction⟩ := function_outcome hi h
    rw [outcome_eq]
    simp [Production.ofNonterminal, Production.item, hfn, hfunction]
  | «variable» v => exact item_variable hi h
  | assertion e l =>
    obtain ⟨hc, d, hcondition, hend, rfl⟩ := Cursor.Reads.assertion hi h
    rw [outcome_eq]
    rcases hc with hc | hc
    · simp [Production.ofNonterminal, Production.item, hc, hcondition, hend]
    · simp [Production.ofNonterminal, Production.item, hc, hcondition, hend]

/-- A declaration is read behind its attributes. -/
theorem declaration_outcome {d : Declaration} (hd : d.WellShaped)
    (h : c.Reads (d.spellings .parenthesized) c') :
    declaration.outcome {} c = .accepted d c' := by
  obtain ⟨attributes, i⟩ := d
  obtain ⟨f, hattributes, hitem⟩ := Cursor.reads_mul.1 h
  have hstart := (i.begins_spellings _).reads hitem
  have hlist := attributes_outcome (attributes_readBack attributes hd.1) hattributes
    (by rintro hf; simp [hf] at hstart)
    (by rintro hf; simp [hf] at hstart)
  rw [outcome_eq]
  simp [Production.ofNonterminal, Production.declaration, hlist, item_outcome hd.2 hitem]

/-! ## Modules -/

/-- Semicolons before declarations mean nothing. -/
theorem declarations_semicolons (h : c.Reads semicolons d) :
    declarations.outcome {} c = declarations.outcome {} d := by
  refine @Cursor.Reads.semicolons_induction c d
    (fun c => declarations.outcome {} c = declarations.outcome {} d) h rfl fun b hb ih => ?_
  rw [← ih, outcome_eq]
  simp [Production.ofNonterminal, Production.declarations, hb]

/-- Declarations are read to the end of the file, with any semicolons between. -/
theorem declarations_outcome {ds : List Declaration} (hds : ∀ d ∈ ds, d.WellShaped)
    (h : c.Reads (declarationsSpellings .parenthesized ds) c')
    (hc' : c'.current.kind = .endOfFile) :
    declarations.outcome {} c = .accepted ds c' := by
  induction ds generalizing c with
  | nil =>
    rw [declarations_semicolons h, outcome_eq]
    simp [Production.ofNonterminal, Production.declarations, hc']
  | cons d ds ih =>
    simp only [declarationsSpellings, Cursor.reads_mul] at h
    obtain ⟨f, ⟨b, hsemicolons, hd⟩, hrest⟩ := h
    have hstart := (d.begins_spellings _).reads hd
    have hsemicolon : b.current.kind ≠ .symbol .semicolon := by
      intro hb
      simp [hb] at hstart
    have hend : b.current.kind ≠ .endOfFile := by
      intro hb
      simp [hb] at hstart
    have hhead := declaration_outcome (hds d List.mem_cons_self) hd
    have htail := ih (fun d hd => hds d (List.mem_cons_of_mem _ hd)) hrest
    rw [declarations_semicolons hsemicolons, outcome_eq]
    simp [Production.ofNonterminal, Production.declarations, hhead, htail]

namespace Module

/-- The declarations are such as the grammar writes. -/
def WellShaped (m : Module) : Prop := ∀ d ∈ m, d.WellShaped

/-- A well-shaped module is read from the tokens that spell its pieces. -/
theorem ofTokens_of_joins {m : Module} {ps : List Piece} {tokens : List Token} (hm : m.WellShaped)
    (hps : ps ∈ declarationsSpellings .parenthesized m)
    (h : Joins ps (tokens.takeWhile (·.kind ≠ .endOfFile))) : Module.ofTokens tokens = .ok m := by
  have hlacks := Cursor.lacks_endOfFile_ofTokens tokens
  obtain ⟨c', hpasses, hend⟩ := Cursor.exists_passes_of_joins h
    (Cursor.tokens_ofTokens tokens) hlacks
  have hc' : c'.current.kind = .endOfFile := by simp [Cursor.current, hend]
  exact ofTokens_eq_ok_iff.2 ⟨c', declarations_outcome hm ⟨ps, hps, hpasses⟩ hc'⟩

/-- A well-shaped module is read from every spelling of it. -/
theorem ofTokens_of_spelledBy {m : Module} {tokens : List Token} (hm : m.WellShaped)
    (h : m.SpelledBy .parenthesized tokens) : Module.ofTokens tokens = .ok m := by
  obtain ⟨ps, hps, hjoins⟩ := h
  exact ofTokens_of_joins hm hps hjoins

/-- In `const x = (a) + (b);` the sum is read, and its operands without their parentheses. -/
theorem ofTokens_of_spelledBy_sum :
    Module.ofTokens ([.keyword .const, .identifier "x", .symbol .equal,
        .symbol .parenLeft, .identifier "a", .symbol .parenRight, .symbol .plus,
        .symbol .parenLeft, .identifier "b", .symbol .parenRight, .symbol .semicolon].map
          fun k => ⟨k, .start⟩) =
      .ok [⟨[], .variable ⟨.const, none, "x", none,
        some (.binary .add (.identifier "a" .start) (.identifier "b" .start) .start),
        .start⟩⟩] := by
  have hshape : Module.WellShaped [⟨[], .variable ⟨.const, none, "x", none,
      some (.binary .add (.identifier "a" .start) (.identifier "b" .start) .start), .start⟩⟩] := by
    simp only [WellShaped, Declaration.WellShaped, attributesWellShaped, Item.WellShaped,
      List.mem_singleton, forall_eq, true_and]
    exact ⟨by simp, by simp, by simp, by simp, by simp [Expression.WellShaped]⟩
  have hoperand (n : String) : _ ∈ parenthesized ((Expression.identifier n .start).spellings
      .parenthesized) :=
    Language.append_mem_mul (Language.append_mem_mul ⟨⟨.symbol .parenLeft, .start⟩, rfl, rfl⟩
      ⟨_, rfl, rfl⟩) ⟨⟨.symbol .parenRight, .start⟩, rfl, rfl⟩
  have hsum : _ ∈ (Expression.binary .add (.identifier "a" .start) (.identifier "b" .start)
      .start).spellings .parenthesized :=
    Language.append_mem_mul (Language.append_mem_mul (hoperand "a") ⟨_, rfl, rfl⟩) (hoperand "b")
  have hvariable : _ ∈ Variable.spellings .parenthesized ⟨.const, none, "x", none,
      some (.binary .add (.identifier "a" .start) (.identifier "b" .start) .start), .start⟩ :=
    Language.append_mem_mul (Language.append_mem_mul (Language.append_mem_mul
      (Language.append_mem_mul ⟨_, rfl, rfl⟩ Language.nil_mem_one)
      ⟨⟨.identifier "x", .start⟩, rfl, rfl⟩) Language.nil_mem_one)
      (Language.append_mem_mul ⟨⟨.symbol .equal, .start⟩, rfl, rfl⟩ hsum)
  have hdeclaration : _ ∈ Declaration.spellings .parenthesized ⟨[], .variable ⟨.const, none, "x",
      none, some (.binary .add (.identifier "a" .start) (.identifier "b" .start) .start),
      .start⟩⟩ :=
    Language.append_mem_mul Language.nil_mem_one
      (Language.append_mem_mul hvariable ⟨⟨.symbol .semicolon, .start⟩, rfl, rfl⟩)
  refine ofTokens_of_spelledBy hshape ⟨_, Language.append_mem_mul (Language.append_mem_mul
    (Language.nil_mem_kstar _) hdeclaration) (Language.nil_mem_kstar _), ?_⟩
  repeat (first | exact .nil | refine .token ?_)

end Module

end Wgsl
