import Wgsl.Proofs.Spelling.Written.Statement
import Wgsl.Proofs.WholeFile

/-!
# What is read is spelled: declarations

With the rules of declarations every rule of the grammar writes what it reads (`writes`). The
declarations of a module are read up to the end of the file, so the tokens before it are a
spelling of the module.
-/

namespace Wgsl

open Spelling

namespace Production

open Rule Nonterminal

variable {c c' : Cursor}

private theorem writes_furtherNames : Writes .furtherNames := by
  intro c _
  simp only [ofNonterminal, furtherNames, yields_steps, Bool.not_eq_true, given_iff, and_imp,
    true_implies, Bool.true_eq_false, false_implies, and_true]
  refine ⟨fun hcomma => ⟨fun _ => ?_, fun _ name hname names c' _ _ hnames => ?_⟩, fun _ => ?_⟩
  · simp [furtherNamesSpellings, hcomma]
  · simpa [furtherNamesSpellings, hcomma, hname] using hnames
  · simp [furtherNamesSpellings]

private theorem writes_bindings (role : BindingRole) : Writes (.bindings role) := by
  intro c _
  simp only [ofNonterminal, bindings, yields_steps, Written, Bool.not_eq_true, given_iff, and_imp,
    true_implies, Bool.true_eq_false, false_implies, and_true]
  refine ⟨fun _ => ?_,
    fun _ attributes d _ _ hattributes name hname hcolon type e _ _ _ htype => ?_⟩
  · simp [bindingsSpellings]
  · have hbinding : c.Reads
        ((⟨attributes, name, type, d.current.location⟩ : Binding).spellings .bare) e := by
      simp only [Binding.spellings, Cursor.reads_mul, Cursor.reads_word, Cursor.reads_mark]
      exact ⟨_, ⟨_, ⟨d, hattributes, Token.eq_mk_location.2 hname, rfl⟩, hcolon, rfl⟩, htype⟩
    refine ⟨fun hcomma bindings c' _ _ hbindings => ?_, fun _ => ?_⟩
    · simp only [bindingsSpellings, Cursor.reads_mul, Cursor.reads_add, Cursor.reads_mark,
        ↓existsAndEq, and_true]
      exact ⟨e, hbinding, .inr ⟨hcomma, hbindings⟩⟩
    · simpa [bindingsSpellings] using ⟨e, hbinding, .inl rfl⟩

private theorem writes_functionResult : Writes .functionResult := by
  intro c _
  simp only [ofNonterminal, functionResult, yields_steps, Written, given_iff, and_imp,
    Bool.not_eq_true, true_implies, Bool.true_eq_false, false_implies, and_true]
  refine ⟨fun harrow attributes d _ _ hattributes type c' _ _ _ htype => ?_, fun _ => ?_⟩
  · simp only [resultSpellings, Cursor.reads_mul, Cursor.reads_mark, harrow, true_and,
      exists_eq_left']
    exact ⟨d, hattributes, htype⟩
  · simp [resultSpellings]

private theorem writes_function : Writes .function := by
  intro c _
  simp only [ofNonterminal, function, yields_steps, Written, Cursor.reads_reserved, and_imp,
    given_iff]
  intro name hname hopen parameters d _ _ hparameters hclose result e _ _ hresult body c' _ _ hbody
    b hcurrent hadvance
  have hlist := Cursor.reads_parenthesized.2 ⟨hopen, d, hparameters, hclose, rfl⟩
  simp only [Function.spellings, Cursor.reads_mul, Cursor.reads_reserved, Cursor.reads_word]
  exact ⟨e, ⟨_, ⟨_, ⟨c, ⟨hcurrent, hadvance⟩, Token.eq_mk_location.2 hname, rfl⟩, hlist⟩, hresult⟩,
    hbody⟩

private theorem writes_item : Writes .item := by
  intro c _
  simp only [ofNonterminal, item, String.reduceAppend, yields_steps]
  split
  · rename_i henable
    simp only [yields_steps, Written, Item.spellings, Cursor.reads_mul, Cursor.reads_keyword,
      Token.eq_mk_location, henable, true_and, Cursor.reads_named, ↓existsAndEq, and_true,
      Cursor.reads_mark, given_iff, and_imp]
    intro name hname names d _ _ hnames hend
    exact ⟨d, ⟨hname, hnames⟩, hend, rfl⟩
  · rename_i halias
    simp only [yields_steps, Written, Item.spellings, Cursor.reads_mul, Cursor.reads_keyword,
      Token.eq_mk_location, halias, true_and, Cursor.reads_named, Cursor.reads_mark, ↓existsAndEq,
      and_true, given_iff, and_imp]
    intro name hname hequal type d _ _ _ htype hend
    exact ⟨d, ⟨⟨hname, hequal⟩, htype⟩, hend, rfl⟩
  · rename_i hstruct
    simp only [yields_steps, Written, Item.spellings, braced, Cursor.reads_mul,
      Cursor.reads_keyword, Token.eq_mk_location, hstruct, true_and, Cursor.reads_named,
      Cursor.reads_mark, ↓existsAndEq, and_true, given_iff, and_imp]
    intro name hname hopen members d _ _ hmembers hclose
    exact ⟨hname, d, ⟨hopen, hmembers⟩, hclose, rfl⟩
  · rename_i hfn
    simp only [yields_steps, Written, given_iff, Cursor.reads_reserved, and_imp]
    intro f c' _ _ hf
    exact hf c hfn rfl
  · rename_i hassert
    simp only [condition, yields_steps, Written, Item.spellings, given_iff, and_imp]
    exact fun e d _ _ he hend => reads_assertion (.inl hassert) he hend
  · rename_i hassert
    simp only [condition, yields_steps, Written, Item.spellings, given_iff, and_imp]
    exact fun e d _ _ he hend => reads_assertion (.inr hassert) he hend
  · simp
  · simp
  · simp
  · split
    · rename_i kind hkind
      simp only [yields_steps, Written, Item.spellings, Cursor.reads_mul, Cursor.reads_mark,
        given_iff, Cursor.reads_keyword, and_imp]
      intro v d _ _ hv hend
      have hword : c.current.kind = .keyword kind.keyword :=
        TokenKind.variableKind?_eq_some_iff.1 hkind
      exact ⟨d, hv c (Token.eq_mk_location.2 hword) rfl, hend, rfl⟩
    · simp

private theorem writes_declaration : Writes .declaration := by
  intro c _
  simp only [ofNonterminal, declaration, yields_steps, Written, Declaration.spellings,
    Cursor.reads_mul, given_iff, and_imp]
  intro attributes d _ _ hattributes item c' _ _ hitem
  exact ⟨d, hattributes, hitem⟩

/-- Declarations may have a semicolon before them. -/
theorem reads_declarations_of_semicolon {ds : List Declaration}
    (hc : c.current.kind = .symbol .semicolon)
    (h : c.advance.Reads (declarationsSpellings .bare ds) c') :
    c.Reads (declarationsSpellings .bare ds) c' := by
  cases ds with
  | nil => exact Cursor.reads_semicolons.2 (.inr ⟨hc, h⟩)
  | cons d ds =>
    rw [declarationsSpellings, mul_assoc] at h ⊢
    exact Cursor.reads_semicolons_mul hc h

private theorem writes_declarations : Writes .declarations := by
  intro c _
  simp only [ofNonterminal, declarations, yields_steps]
  split
  · rename_i hsemicolon
    simp only [yields_steps, given_iff, Written, and_imp]
    intro ds c' _ _ hds
    exact reads_declarations_of_semicolon hsemicolon hds
  · simp [declarationsSpellings, Cursor.reads_no_semicolons]
  · simp only [yields_steps, Written, declarationsSpellings, Cursor.reads_mul, given_iff, and_imp]
    intro d e _ _ hd ds c' _ _ hds
    exact ⟨e, ⟨c, Cursor.reads_no_semicolons, hd⟩, hds⟩

/-- Every rule of the grammar writes what it reads. -/
theorem writes : (n : Nonterminal) → Writes n
  | .attribute => writes_attribute
  | .attributes => writes_attributes
  | .type => writes_type
  | .typeParameters typeName => writes_typeParameters typeName
  | .constructorType => writes_constructorType
  | .expression inAngles => writes_expression inAngles
  | .operations inAngles => writes_operations inAngles
  | .unary => writes_unary
  | .suffixed => writes_suffixed
  | .suffixes base => writes_suffixes base
  | .primary => writes_primary
  | .expressions => writes_expressions
  | .arguments => writes_arguments
  | .construction type l => writes_construction type l
  | .block place => writes_block place
  | .storage kind => writes_storage kind
  | .ascription => writes_ascription
  | .initializer kind => writes_initializer kind
  | .variable kind l => writes_variable kind l
  | .simpleStatement => writes_simpleStatement
  | .plainStatement => writes_plainStatement
  | .statement => writes_statement
  | .statements => writes_statements
  | .conditional => writes_conditional
  | .alternatives => writes_alternatives
  | .selection => writes_selection
  | .clauses hasDefault => writes_clauses hasDefault
  | .selectors => writes_selectors
  | .forInitializer => writes_forInitializer
  | .forCondition => writes_forCondition
  | .forUpdate => writes_forUpdate
  | .iteration => writes_iteration
  | .repetition => writes_repetition
  | .loop => writes_loop
  | .loopBody => writes_loopBody
  | .furtherNames => writes_furtherNames
  | .bindings role => writes_bindings role
  | .functionResult => writes_functionResult
  | .function => writes_function
  | .item => writes_item
  | .declaration => writes_declaration
  | .declarations => writes_declarations

end Production

/-! ## Modules -/

namespace Module

/-- Without `bitcast`, the tokens that a module is read from are a spelling of it. -/
theorem spelledBy_of_ofTokens {tokens : List Token} {m : Module}
    (hbitcast : ∀ t ∈ tokens, t.kind ≠ .identifier "bitcast")
    (h : Module.ofTokens tokens .keeping = .ok m) : m.SpelledBy .bare tokens := by
  obtain ⟨c', hc'⟩ := ofTokens_eq_ok_iff.1 h
  have hwritten := Nonterminal.accepted_of_yields (fun _ h => h.advance) (fun _ h => h.split)
    Production.writes .declarations (Cursor.lacks_ofTokens hbitcast)
  obtain ⟨ps, hps, hpasses⟩ := hwritten m c' hc'
  have hend := Nonterminal.upcoming_declarations (Cursor.lacks_endOfFile_ofTokens tokens) hc'
  exact ⟨ps, hps, Cursor.tokens_ofTokens tokens ▸ Cursor.joins_of_passes hpasses hend⟩

/-- Nothing that is written in an accepted source is lost, invented or reordered: without
`bitcast`, its tokens are a spelling of its module. -/
theorem spelledBy_of_ofSource {source : String} {m : Module}
    (hbitcast : ∀ t ∈ tokenize source, t.kind ≠ .identifier "bitcast")
    (h : Module.ofSource source .keeping = .ok m) : m.SpelledBy .bare (tokenize source) :=
  spelledBy_of_ofTokens hbitcast h

/-- Commas that may be left out, stray semicolons, parentheses and a split token are all spelled. -/
theorem spelledBy_of_nested_vectors :
    ∃ m, Module.ofSource "fn f(p: i32,) { if ((p)) { let v: vec2<vec2<i32,>>=(p); };; }" .keeping
        = .ok m ∧
      m.SpelledBy .bare
        (tokenize "fn f(p: i32,) { if ((p)) { let v: vec2<vec2<i32,>>=(p); };; }") := by
  obtain ⟨m, hm⟩ := @exists_eq_ok
    (Module.ofSource "fn f(p: i32,) { if ((p)) { let v: vec2<vec2<i32,>>=(p); };; }" .keeping)
    (by decide +kernel)
  exact ⟨m, hm, spelledBy_of_ofSource (by decide +kernel) hm⟩

end Module

end Wgsl
