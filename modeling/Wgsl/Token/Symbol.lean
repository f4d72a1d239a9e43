/-!
# Symbols

The operators and punctuation marks: one to three characters, none of which occurs in a word.

`Symbol.scan` reads the one at the beginning of a text, and looks one character ahead at a time.
The first character says which symbols it may be; `pick` takes the next one if that makes a longer
symbol; behind `<<` and `>>` a third may follow. What is read so is the longest symbol that the text
begins with, and one is read wherever one begins (`scan_eq_some_iff`). The reason is that each
lookahead has all the symbols among its options that go on from what has been read
(`longest_of_pick`, `longest_of_doubled`).
-/

namespace Wgsl

/-- An operator or punctuation mark. -/
inductive Symbol
  | shiftLeftEqual | shiftRightEqual | plusPlus | minusMinus | andAnd | orOr | arrow
  | equalEqual | notEqual | lessThanEqual | greaterThanEqual | shiftLeft | shiftRight
  | plusEqual | minusEqual | timesEqual | divisionEqual | moduloEqual | andEqual
  | orEqual | xorEqual | plus | minus | star | slash | modulo | equal | lessThan
  | greaterThan | and | or | xor | tilde | bang | attr | period | colon | semicolon
  | comma | parenLeft | parenRight | braceLeft | braceRight | bracketLeft | bracketRight
deriving DecidableEq, Inhabited

namespace Symbol

/-- The spelling of a symbol. -/
def lexeme : Symbol → String
  | .shiftLeftEqual => "<<="
  | .shiftRightEqual => ">>="
  | .plusPlus => "++"
  | .minusMinus => "--"
  | .andAnd => "&&"
  | .orOr => "||"
  | .arrow => "->"
  | .equalEqual => "=="
  | .notEqual => "!="
  | .lessThanEqual => "<="
  | .greaterThanEqual => ">="
  | .shiftLeft => "<<"
  | .shiftRight => ">>"
  | .plusEqual => "+="
  | .minusEqual => "-="
  | .timesEqual => "*="
  | .divisionEqual => "/="
  | .moduloEqual => "%="
  | .andEqual => "&="
  | .orEqual => "|="
  | .xorEqual => "^="
  | .plus => "+"
  | .minus => "-"
  | .star => "*"
  | .slash => "/"
  | .modulo => "%"
  | .equal => "="
  | .lessThan => "<"
  | .greaterThan => ">"
  | .and => "&"
  | .or => "|"
  | .xor => "^"
  | .tilde => "~"
  | .bang => "!"
  | .attr => "@"
  | .period => "."
  | .colon => ":"
  | .semicolon => ";"
  | .comma => ","
  | .parenLeft => "("
  | .parenRight => ")"
  | .braceLeft => "\x7b"
  | .braceRight => "\x7d"
  | .bracketLeft => "["
  | .bracketRight => "]"

/-- Every symbol, once. -/
def all : List Symbol :=
  [.shiftLeftEqual, .shiftRightEqual, .plusPlus, .minusMinus, .andAnd, .orOr, .arrow,
   .equalEqual, .notEqual, .lessThanEqual, .greaterThanEqual, .shiftLeft, .shiftRight,
   .plusEqual, .minusEqual, .timesEqual, .divisionEqual, .moduloEqual, .andEqual, .orEqual,
   .xorEqual, .plus, .minus, .star, .slash, .modulo, .equal, .lessThan, .greaterThan, .and, .or,
   .xor, .tilde, .bang, .attr, .period, .colon, .semicolon, .comma, .parenLeft, .parenRight,
   .braceLeft, .braceRight, .bracketLeft, .bracketRight]

/-- The symbol that the next character makes of one that has been read, if it is among the options;
else the one that has been read. -/
def pick (options : List (Char × Symbol)) (single : Symbol) : List Char → Symbol × List Char
  | [] => (single, [])
  | c :: rest =>
    match options.lookup c with
    | some longer => (longer, rest)
    | none => (single, c :: rest)

/-- The symbol at the beginning of a text, with the text behind it. -/
def scan : List Char → Option (Symbol × List Char)
  | '+' :: rest => some (pick [('+', .plusPlus), ('=', .plusEqual)] .plus rest)
  | '-' :: rest =>
    some (pick [('-', .minusMinus), ('=', .minusEqual), ('>', .arrow)] .minus rest)
  | '*' :: rest => some (pick [('=', .timesEqual)] .star rest)
  | '/' :: rest => some (pick [('=', .divisionEqual)] .slash rest)
  | '%' :: rest => some (pick [('=', .moduloEqual)] .modulo rest)
  | '=' :: rest => some (pick [('=', .equalEqual)] .equal rest)
  | '!' :: rest => some (pick [('=', .notEqual)] .bang rest)
  | '^' :: rest => some (pick [('=', .xorEqual)] .xor rest)
  | '&' :: rest => some (pick [('&', .andAnd), ('=', .andEqual)] .and rest)
  | '|' :: rest => some (pick [('|', .orOr), ('=', .orEqual)] .or rest)
  | '<' :: rest => some <|
    if rest.head? = some '<' then pick [('=', .shiftLeftEqual)] .shiftLeft rest.tail
    else pick [('=', .lessThanEqual)] .lessThan rest
  | '>' :: rest => some <|
    if rest.head? = some '>' then pick [('=', .shiftRightEqual)] .shiftRight rest.tail
    else pick [('=', .greaterThanEqual)] .greaterThan rest
  | '~' :: rest => some (.tilde, rest)
  | '@' :: rest => some (.attr, rest)
  | '.' :: rest => some (.period, rest)
  | ':' :: rest => some (.colon, rest)
  | ';' :: rest => some (.semicolon, rest)
  | ',' :: rest => some (.comma, rest)
  | '(' :: rest => some (.parenLeft, rest)
  | ')' :: rest => some (.parenRight, rest)
  | '\x7b' :: rest => some (.braceLeft, rest)
  | '\x7d' :: rest => some (.braceRight, rest)
  | '[' :: rest => some (.bracketLeft, rest)
  | ']' :: rest => some (.bracketRight, rest)
  | _ => none

/-- Every symbol is listed. -/
theorem mem_all (s : Symbol) : s ∈ all := by cases s <;> decide

/-- Every symbol has a spelling. -/
theorem lexeme_ne_nil (s : Symbol) : s.lexeme.toList ≠ [] := by cases s <;> decide

/-- No two symbols are spelled alike. -/
theorem lexeme_injective {s s' : Symbol} (h : s.lexeme = s'.lexeme) : s = s' := by
  have distinct : ∀ s ∈ all, ∀ s' ∈ all, s.lexeme = s'.lexeme → s = s' := by decide +kernel
  exact distinct s (mem_all s) s' (mem_all s') h

/-! ## The longest symbol -/

/-- A text begins with a symbol, the rest is behind it, and no longer symbol begins the text. -/
structure Longest (text : List Char) (s : Symbol) (rest : List Char) : Prop where
  append_eq : s.lexeme.toList ++ rest = text
  length_le : ∀ other : Symbol, other.lexeme.toList <+: text →
    other.lexeme.toList.length ≤ s.lexeme.toList.length

section Longest

variable {text rest behind : List Char} {s s' single : Symbol} {options : List (Char × Symbol)}

/-- Of the symbols that a text begins with only one is the longest. -/
theorem Longest.unique (h : Longest text s rest) (h' : Longest text s' behind) :
    s = s' ∧ rest = behind := by
  have hbegins : s.lexeme.toList <+: text := ⟨rest, h.append_eq⟩
  have hbegins' : s'.lexeme.toList <+: text := ⟨behind, h'.append_eq⟩
  have hlexeme : s.lexeme.toList = s'.lexeme.toList :=
    (List.prefix_of_prefix_length_le hbegins hbegins' (h'.length_le s hbegins)).eq_of_length_le
      (h.length_le s' hbegins')
  obtain rfl := lexeme_injective (String.toList_inj.1 hlexeme)
  exact ⟨rfl, List.append_cancel_left (h.append_eq.trans h'.append_eq.symm)⟩

/-- The next character makes of one symbol another of its options, which is longer by that
character; where it makes none the symbol is left. -/
theorem pick_eq_or (options : List (Char × Symbol)) (single : Symbol) (rest : List Char) :
    (pick options single rest = (single, rest) ∧ ∀ o ∈ options, ¬[o.1] <+: rest) ∨
      ∃ o ∈ options, ∃ behind, rest = o.1 :: behind ∧ pick options single rest = (o.2, behind) := by
  cases rest with
  | nil => exact .inl ⟨rfl, fun o _ h => by simpa using h.length_le⟩
  | cons c rest =>
    rw [pick]
    cases hlookup : options.lookup c with
    | some longer =>
      obtain ⟨before, after, rfl, -⟩ := List.lookup_eq_some_iff.1 hlookup
      exact .inr ⟨(c, longer), by simp, rest, rfl, rfl⟩
    | none =>
      refine .inl ⟨rfl, fun o ho hbegins => ?_⟩
      have hne := List.lookup_eq_none_iff.1 hlookup o ho
      rw [List.cons_prefix_cons] at hbegins
      simp [hbegins.1] at hne

/-- A lookahead reads the longest symbol, if it looks for every symbol that goes on from the one
that has been read. -/
theorem longest_pick (h : pick options single behind = (s, rest))
    (hoptions : ∀ o ∈ options, o.2.lexeme.toList = single.lexeme.toList ++ [o.1])
    (hall : ∀ other : Symbol, single.lexeme.toList <+: other.lexeme.toList →
      other.lexeme.toList <+: single.lexeme.toList ++ behind →
        other = single ∨ ∃ o ∈ options, o.2 = other) :
    Longest (single.lexeme.toList ++ behind) s rest := by
  -- what begins the text is no longer than the symbol that was read, or goes on from it
  have hbound {n : Nat} (hn : single.lexeme.toList.length ≤ n)
      (hlonger : ∀ o ∈ options, [o.1] <+: behind → single.lexeme.toList.length + 1 ≤ n)
      (other : Symbol) (hother : other.lexeme.toList <+: single.lexeme.toList ++ behind) :
      other.lexeme.toList.length ≤ n := by
    rcases List.prefix_or_prefix_of_prefix hother (List.prefix_append _ behind) with hle | hgoes
    · exact Nat.le_trans hle.length_le hn
    · rcases hall other hgoes hother with rfl | ⟨o, ho, rfl⟩
      · exact hn
      · rw [hoptions o ho] at hother ⊢
        rw [List.length_append, List.length_singleton]
        exact hlonger o ho ((List.prefix_append_right_inj _).1 hother)
  rcases pick_eq_or options single behind with ⟨hpick, hnone⟩ | ⟨o, ho, behind, rfl, hpick⟩
  · obtain ⟨rfl, rfl⟩ := Prod.mk.inj (hpick.symm.trans h)
    exact ⟨rfl, hbound (Nat.le_refl _) fun o ho hbegins => absurd hbegins (hnone o ho)⟩
  · obtain ⟨rfl, rfl⟩ := Prod.mk.inj (hpick.symm.trans h)
    have hlength : o.2.lexeme.toList.length = single.lexeme.toList.length + 1 := by
      rw [hoptions o ho, List.length_append, List.length_singleton]
    refine ⟨?_, hbound (hlength ▸ Nat.le_succ _) fun _ _ _ => Nat.le_of_eq hlength.symm⟩
    rw [hoptions o ho, List.append_assoc, List.singleton_append]

/-- A lookahead whose options are all the symbols that go on reads the longest. -/
theorem longest_of_pick (h : pick options single behind = (s, rest))
    (hoptions : ∀ o ∈ options, o.2.lexeme.toList = single.lexeme.toList ++ [o.1])
    (hall : ∀ other ∈ all, single.lexeme.toList <+: other.lexeme.toList →
      other = single ∨ ∃ o ∈ options, o.2 = other) :
    Longest (single.lexeme.toList ++ behind) s rest :=
  longest_pick h hoptions fun other hgoes _ => hall other (mem_all other) hgoes

/-- Where the next character may also double the one that has been read, that is asked first. -/
theorem longest_of_doubled {c : Char} {doubled : Symbol} {further : List (Char × Symbol)}
    (h : (if behind.head? = some c then pick further doubled behind.tail
      else pick options single behind) = (s, rest))
    (hdoubled : doubled.lexeme.toList = single.lexeme.toList ++ [c])
    (hfurther : ∀ o ∈ further, o.2.lexeme.toList = doubled.lexeme.toList ++ [o.1])
    (halldoubled : ∀ other ∈ all, doubled.lexeme.toList <+: other.lexeme.toList →
      other = doubled ∨ ∃ o ∈ further, o.2 = other)
    (hoptions : ∀ o ∈ options, o.2.lexeme.toList = single.lexeme.toList ++ [o.1])
    (hall : ∀ other ∈ all, single.lexeme.toList <+: other.lexeme.toList →
      other = single ∨ (∃ o ∈ options, o.2 = other) ∨
        doubled.lexeme.toList <+: other.lexeme.toList) :
    Longest (single.lexeme.toList ++ behind) s rest := by
  split at h
  case isTrue hnext =>
    obtain ⟨behind, rfl⟩ := List.head?_eq_some_iff.1 hnext
    rw [List.append_cons, ← hdoubled]
    exact longest_of_pick h hfurther halldoubled
  case isFalse hnext =>
    refine longest_pick h hoptions fun other hgoes hother => ?_
    rcases hall other (mem_all other) hgoes with hsame | hlonger | hgoes
    · exact .inl hsame
    · exact .inr hlonger
    · -- what goes on from the doubled character does not begin the text
      rw [hdoubled] at hgoes
      obtain ⟨more, rfl⟩ := (List.prefix_append_right_inj _).1 (hgoes.trans hother)
      exact absurd rfl hnext

/-- A symbol that no other one goes on from is the longest. -/
theorem longest_of_alone (h : (single, behind) = (s, rest))
    (hall : ∀ other ∈ all, single.lexeme.toList <+: other.lexeme.toList → other = single) :
    Longest (single.lexeme.toList ++ behind) s rest := by
  obtain ⟨rfl, rfl⟩ := Prod.mk.inj h
  refine ⟨rfl, fun other hother => ?_⟩
  rcases List.prefix_or_prefix_of_prefix hother (List.prefix_append _ behind) with hle | hgoes
  · exact hle.length_le
  · exact Nat.le_of_eq (by rw [hall other (mem_all other) hgoes])

/-- What is read at the beginning of a text is the longest symbol there. -/
theorem longest_of_scan (h : scan text = some (s, rest)) : Longest text s rest := by
  unfold scan at h
  split at h
  all_goals
    first
    | exact longest_of_pick (Option.some.inj h) (by decide) (by decide +kernel)
    | exact longest_of_doubled (Option.some.inj h) rfl (by decide) (by decide +kernel)
        (by decide) (by decide +kernel)
    | exact longest_of_alone (Option.some.inj h) (by decide +kernel)
    | cases h

/-- Where a symbol begins, one is read. -/
theorem isSome_scan (h : s.lexeme.toList <+: text) : (scan text).isSome = true := by
  obtain ⟨behind, rfl⟩ := h
  cases s <;> rfl

/-- What is read is the longest symbol, and where there is one it is read. -/
theorem scan_eq_some_iff : scan text = some (s, rest) ↔ Longest text s rest := by
  refine ⟨longest_of_scan, fun h => ?_⟩
  obtain ⟨⟨found, behind⟩, hfound⟩ := Option.isSome_iff_exists.1 (isSome_scan ⟨rest, h.append_eq⟩)
  obtain ⟨rfl, rfl⟩ := (longest_of_scan hfound).unique h
  exact hfound

/-- A scanned symbol and the text behind it make up the text. -/
theorem scan_split (h : scan text = some (s, rest)) : s.lexeme.toList ++ rest = text :=
  (longest_of_scan h).append_eq

/-- Behind a symbol less text is left. -/
theorem scan_length_lt (h : scan text = some (s, rest)) : rest.length < text.length := by
  have hne := List.length_pos_iff.2 (lexeme_ne_nil s)
  have hlength := congrArg List.length (scan_split h)
  rw [List.length_append] at hlength
  omega

end Longest

end Symbol

end Wgsl
