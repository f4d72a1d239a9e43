/-!
# Keywords

The words that the grammar reserves. A word spelled like one of them is that keyword and never an
identifier. There are two tables: `lexeme` spells a keyword, and `Keyword.ofWord?` finds the keyword
that a word spells; `ofWord?_eq_some_iff` says that each is the other read backwards.
-/

namespace Wgsl

/-- A reserved word. -/
inductive Keyword
  | alias | break | case | const | constAssert | continue | continuing | default
  | diagnostic | discard | else | enable | false | fn | for | if | let | loop | override
  | requires | return | staticAssert | struct | switch | true | var | while
deriving DecidableEq, Inhabited

namespace Keyword

/-- The spelling of a keyword. -/
def lexeme : Keyword → String
  | .alias => "alias"
  | .break => "break"
  | .case => "case"
  | .const => "const"
  | .constAssert => "const_assert"
  | .continue => "continue"
  | .continuing => "continuing"
  | .default => "default"
  | .diagnostic => "diagnostic"
  | .discard => "discard"
  | .else => "else"
  | .enable => "enable"
  | .false => "false"
  | .fn => "fn"
  | .for => "for"
  | .if => "if"
  | .let => "let"
  | .loop => "loop"
  | .override => "override"
  | .requires => "requires"
  | .return => "return"
  | .staticAssert => "static_assert"
  | .struct => "struct"
  | .switch => "switch"
  | .true => "true"
  | .var => "var"
  | .while => "while"

/-- Every keyword, once. -/
def all : List Keyword :=
  [.alias, .break, .case, .const, .constAssert, .continue, .continuing, .default, .diagnostic,
   .discard, .else, .enable, .false, .fn, .for, .if, .let, .loop, .override, .requires, .return,
   .staticAssert, .struct, .switch, .true, .var, .while]

/-- The keyword that a word spells, if it spells one. -/
def ofWord? : String → Option Keyword
  | "alias" => some .alias
  | "break" => some .break
  | "case" => some .case
  | "const" => some .const
  | "const_assert" => some .constAssert
  | "continue" => some .continue
  | "continuing" => some .continuing
  | "default" => some .default
  | "diagnostic" => some .diagnostic
  | "discard" => some .discard
  | "else" => some .else
  | "enable" => some .enable
  | "false" => some .false
  | "fn" => some .fn
  | "for" => some .for
  | "if" => some .if
  | "let" => some .let
  | "loop" => some .loop
  | "override" => some .override
  | "requires" => some .requires
  | "return" => some .return
  | "static_assert" => some .staticAssert
  | "struct" => some .struct
  | "switch" => some .switch
  | "true" => some .true
  | "var" => some .var
  | "while" => some .while
  | _ => none

theorem mem_all (k : Keyword) : k ∈ all := by cases k <;> decide

/-- A word spells a keyword exactly when it is the keyword's lexeme: the two tables agree. -/
theorem ofWord?_eq_some_iff {word : String} {k : Keyword} :
    ofWord? word = some k ↔ k.lexeme = word := by
  constructor
  · intro h
    unfold ofWord? at h
    split at h <;> cases h <;> rfl
  · rintro rfl
    cases k <;> rfl

end Keyword

end Wgsl
