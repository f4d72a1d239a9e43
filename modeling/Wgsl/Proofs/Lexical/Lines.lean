import Wgsl.Proofs.Lexical.Spacing

/-!
# Texts in lines

A text is divided line by line, as it were: two texts with a line feed between them have the tokens
of the one and behind them those of the other, moved down by the lines above
(`tokenize_append_line`). Only a block comment without end reaches beyond the line it begins in.

Two facts meet in that. A text has the same tokens wherever it begins, each as far below
(`tokensFrom_below`). And what is read of a text is read of it with white space behind, too
(`scanToken_append`, `Layout.skip_append`): every scanner stops at white space, or has stopped
before, so none of them can tell it from the end of the text.
-/

namespace Wgsl

open Text

/-! ## Further down -/

/-- The location a number of lines below. -/
def Location.below (l : Location) (lines : Nat) : Location := ⟨l.line + lines, l.column⟩

/-- The place of the same text a number of lines below. -/
def Place.below (p : Place) (lines : Nat) : Place := ⟨p.location.below lines, p.text⟩

/-- The token a number of lines below. -/
def Token.below (lines : Nat) (t : Token) : Token := ⟨t.kind, t.location.below lines⟩

namespace Location

variable (l : Location) (lines : Nat)

@[simp] theorem next_below (c : Char) : (l.below lines).next c = (l.next c).below lines := by
  rw [next, next]
  split
  · simp only [below, Location.mk.injEq, and_true]
    omega
  · rfl

@[simp] theorem after_below (text : List Char) :
    (l.below lines).after text = (l.after text).below lines := by
  induction text generalizing l with
  | nil => rfl
  | cons c text ih => rw [after_cons, after_cons, next_below, ih]

/-- A text moves on by as many lines as it has line feeds. -/
theorem line_after (text : List Char) : (l.after text).line = l.line + text.count '\n' := by
  induction text generalizing l with
  | nil => rfl
  | cons c text ih =>
    rw [after_cons, ih, next]
    by_cases hc : c = '\n'
    · subst hc
      rw [if_pos rfl, List.count_cons_self, Nat.add_assoc, Nat.add_comm 1]
    · rw [if_neg hc, List.count_cons_of_ne hc]
      rfl

/-- Behind a line feed, a line begins. -/
theorem after_line (text : List Char) :
    start.after (text ++ ['\n']) = start.below (text.count '\n' + 1) := by
  rw [after_append, after_cons, after_nil, next, if_pos rfl, line_after]
  simp only [below, start, Location.mk.injEq, and_true]
  omega

end Location

namespace Layout

/-- A line comment ends alike however many lines are above. -/
theorem afterLine_below (l : Location) (text : List Char) (lines : Nat) :
    afterLine (l.below lines) text = (afterLine l text).below lines := by
  induction text generalizing l with
  | nil => rfl
  | cons c text ih =>
    rw [afterLine, afterLine, Location.next_below, ih]
    split <;> rfl

/-- So does a block comment. -/
theorem afterBlock?_below (outer : Nat) (l : Location) (text : List Char) (lines : Nat) :
    afterBlock? outer (l.below lines) text =
      (afterBlock? outer l text).map (·.below lines) := by
  fun_induction afterBlock? outer l text with
  | case1 => simp [afterBlock?]
  | case2 l rest => simp [afterBlock?, Place.below]
  | case3 outer l rest ih => simpa [afterBlock?] using ih
  | case4 outer l rest ih => simpa [afterBlock?] using ih
  | case5 outer l c rest h₁ h₂ h₃ ih =>
    rw [afterBlock?, Location.next_below, ih]
    all_goals assumption

/-- A block comment without end is not skipped. -/
theorem skip_unclosed {l : Location} {rest : List Char}
    (h : afterBlock? 0 (l.after ['/', '*']) rest = none) :
    skip ⟨l, '/' :: '*' :: rest⟩ = ⟨l, '/' :: '*' :: rest⟩ := by
  change afterBlock? 0 ((l.next '/').next '*') rest = none at h
  rw [skip]
  split
  · rename_i hsome
    rw [h] at hsome
    cases hsome
  · rfl

/-- So does layout. -/
theorem skip_below (p : Place) (lines : Nat) : skip (p.below lines) = (skip p).below lines := by
  fun_induction skip p with
  | case1 l rest ih =>
    rw [← ih, ← afterLine_below]
    simp [Place.below, skip]
  | case2 l rest q h ih =>
    rw [← ih]
    refine skip_block (q := q.below lines) ?_
    rw [Location.after_below, afterBlock?_below]
    exact congrArg (Option.map _) h
  | case3 l rest h =>
    refine skip_unclosed ?_
    rw [Location.after_below, afterBlock?_below]
    exact congrArg (Option.map _) h
  | case4 l c rest hline hblock hc ih =>
    rw [← ih]
    rw [Place.below, skip_blank hc, Location.next_below]
    rfl
  | case5 l c rest hline hblock hc =>
    refine skip_eq_self (stops_cons.2 (by simpa using hc)) ?_ ?_ _
    · rintro ⟨more, hmore⟩
      injection hmore with hfirst hrest
      exact hline _ hfirst.symm hrest.symm
    · rintro ⟨more, hmore⟩
      injection hmore with hfirst hrest
      exact hblock _ hfirst.symm hrest.symm
  | case6 l => rw [Place.below, skip]

end Layout

/-- A text has the same tokens wherever it begins, each as far below. -/
theorem tokensFrom_below (p : Place) (lines : Nat) :
    tokensFrom (p.below lines) = (tokensFrom p).map (Token.below lines) := by
  fun_induction tokensFrom p with
  | case1 p q hend =>
    have hskip := Layout.skip_below p lines
    rw [tokensFrom, hskip]
    change scanToken ((Layout.skip p).below lines).text = none at hend
    split
    · rfl
    · rename_i hsome
      rw [hend] at hsome
      cases hsome
  | case2 p q kind rest htoken ih =>
    rw [tokensFrom_of_scanToken (Layout.skip_below p lines) htoken, List.map_cons, ← ih]
    simp only [Place.below, Location.after_below]
    rfl

/-! ## White space behind -/

section Parted

variable {more : List Char} (hmore : Parted more)
include hmore

/-- What parts texts continues no word. -/
theorem Text.Parted.stops_word : Stops continuesWord more :=
  hmore.stops fun _ => continuesWord_of_isWhiteSpace

omit hmore in
/-- Where a class of characters stops, it is taken up to there. -/
theorem takeWhile_append_of_stops {p : Char → Bool} (h : Stops p more) (text : List Char) :
    (text ++ more).takeWhile p = text.takeWhile p ∧
      (text ++ more).dropWhile p = text.dropWhile p ++ more := by
  induction text with
  | nil => exact takeWhile_append (a := []) (by simp) h
  | cons c text ih =>
    cases hc : p c with
    | true => simp [hc, ih]
    | false => simp [hc]

namespace Numeral

/-- Whether a numeral is marked as hexadecimal is seen before what parts the texts. -/
theorem splitHexMarker_append_parted (text : List Char) :
    splitHexMarker (text ++ more) = ((splitHexMarker text).1, (splitHexMarker text).2 ++ more) := by
  fun_cases splitHexMarker text with
  | case1 rest | case2 rest => rfl
  | case3 text hx hX =>
    rw [splitHexMarker]
    · intro rest h
      obtain ⟨rest', hrest'⟩ : ['0', 'x'] <+: text :=
        isPrefix_of_parted rfl hmore ⟨rest, h.symm⟩
      exact hx rest' hrest'.symm
    · intro rest h
      obtain ⟨rest', hrest'⟩ : ['0', 'X'] <+: text :=
        isPrefix_of_parted rfl hmore ⟨rest, h.symm⟩
      exact hX rest' hrest'.symm

/-- A fraction ends before it. -/
theorem splitFraction_append_parted {isDigit : Char → Bool} (hdigit : Stops isDigit more)
    (text : List Char) :
    splitFraction isDigit (text ++ more) =
      ((splitFraction isDigit text).1, (splitFraction isDigit text).2 ++ more) := by
  fun_cases splitFraction isDigit text with
  | case1 rest =>
    obtain ⟨htaken, hdropped⟩ := takeWhile_append_of_stops hdigit rest
    rw [List.cons_append, splitFraction, htaken, hdropped]
  | case2 text hpoint =>
    rw [splitFraction]
    intro rest h
    obtain ⟨rest', hrest'⟩ : ['.'] <+: text :=
      isPrefix_of_parted rfl hmore ⟨rest, h.symm⟩
    exact hpoint rest' hrest'.symm

/-- A sign stands before it. -/
theorem splitSign_append_parted (text : List Char) :
    splitSign (text ++ more) = ((splitSign text).1, (splitSign text).2 ++ more) := by
  fun_cases splitSign text with
  | case1 rest | case2 rest => rfl
  | case3 text hplus hminus =>
    rw [splitSign]
    · intro rest h
      obtain ⟨rest', hrest'⟩ : ['+'] <+: text :=
        isPrefix_of_parted rfl hmore ⟨rest, h.symm⟩
      exact hplus rest' hrest'.symm
    · intro rest h
      obtain ⟨rest', hrest'⟩ : ['-'] <+: text :=
        isPrefix_of_parted rfl hmore ⟨rest, h.symm⟩
      exact hminus rest' hrest'.symm

/-- An exponent ends before it. -/
theorem splitExponent_append_parted {isMarker : Char → Bool} (hmarker : Stops isMarker more)
    (text : List Char) :
    splitExponent isMarker (text ++ more) =
      ((splitExponent isMarker text).1, (splitExponent isMarker text).2 ++ more) := by
  have hdigit : Stops Char.isDigit more := hmore.stops_word.mono fun c hc =>
    continuesWord_of_isAlphanum (by simp [Char.isAlphanum, hc])
  cases text with
  | nil =>
    cases more with
    | nil => rfl
    | cons c more => simp [splitExponent, stops_cons.1 hmarker]
  | cons c rest =>
    rw [List.cons_append, splitExponent, splitExponent]
    split
    · obtain ⟨htaken, hdropped⟩ := takeWhile_append_of_stops hdigit (splitSign rest).2
      rw [splitSign_append_parted hmore rest]
      simp only [htaken, hdropped]
    · rfl

omit hmore in
/-- A suffix stands before it. -/
private theorem splitSuffix_append_parted {allowed : Char → Bool} (hallowed : Stops allowed more)
    (text : List Char) :
    splitSuffix allowed (text ++ more) =
      ((splitSuffix allowed text).1, (splitSuffix allowed text).2 ++ more) := by
  cases text with
  | nil =>
    cases more with
    | nil => rfl
    | cons c more => simp [splitSuffix, stops_cons.1 hallowed]
  | cons c rest =>
    rw [List.cons_append, splitSuffix, splitSuffix]
    split <;> rfl

/-- With white space behind, the same numeral is scanned. -/
theorem scan_append_parted (text : List Char) :
    scan (text ++ more) = ((scan text).1, (scan text).2 ++ more) := by
  have hword {p : Char → Bool} (hp : ∀ c, p c = true → c.isAlphanum = true) : Stops p more :=
    hmore.stops_word.mono fun c hc => continuesWord_of_isAlphanum (hp c hc)
  have hdigit (hex : Bool) : Stops (isDigitOf hex) more := hword fun _ => isAlphanum_of_isDigitOf
  simp only [scan, splitHexMarker_append_parted hmore, takeWhile_append_of_stops (hdigit _),
    splitFraction_append_parted hmore (hdigit _),
    splitExponent_append_parted hmore (hword fun _ => isAlphanum_of_isMarkerOf),
    splitSuffix_append_parted (hword fun _ => isAlphanum_of_isSuffixOf)]

/-- Whether a number begins is seen before it. -/
theorem begins_append_parted (text : List Char) : begins (text ++ more) = begins text := by
  have hdigit : more.head?.any Char.isDigit = false := by
    cases more with
    | nil => rfl
    | cons c more =>
      have hc : Stops Char.isDigit (c :: more) := hmore.stops_word.mono fun c hc =>
        continuesWord_of_isAlphanum (by simp [Char.isAlphanum, hc])
      simpa using hc
  have hpoint : Stops (· == '.') more := hmore.stops fun c hc => by
    rw [beq_eq_false_iff_ne]
    rintro rfl
    exact absurd hc (by decide)
  rcases text with _ | ⟨c, _ | ⟨d, text⟩⟩
  · cases more with
    | nil => rfl
    | cons c more => simp_all [begins]
  · simp [begins, hdigit]
  · simp [begins]

end Numeral

/-- The longest symbol ends before it. -/
theorem Symbol.scan_append_parted (text : List Char) :
    scan (text ++ more) = (scan text).map fun (s, rest) => (s, rest ++ more) := by
  -- the same symbols begin both texts
  have hsame {s : Symbol} (h : s.lexeme.toList <+: text ++ more) : s.lexeme.toList <+: text :=
    isPrefix_of_parted s.isWhiteSpace_lexeme hmore h
  cases hscan : scan text with
  | none =>
    rw [Option.map_none, Option.eq_none_iff_forall_ne_some]
    rintro ⟨s, rest⟩ hfound
    have hbegins := isSome_scan (hsame ⟨rest, scan_split hfound⟩)
    rw [hscan] at hbegins
    cases hbegins
  | some found =>
    obtain ⟨hsplit, hlongest⟩ := longest_of_scan hscan
    refine scan_eq_some_iff.2 ⟨?_, fun other hother => hlongest other (hsame hother)⟩
    rw [← List.append_assoc, hsplit]

/-- A number, or a broken one, ends before it. -/
theorem scanNumber_append_parted (text : List Char) :
    scanNumber (text ++ more) = ((scanNumber text).1, (scanNumber text).2 ++ more) := by
  simp only [scanNumber, Numeral.scan_append_parted hmore,
    takeWhile_append_of_stops hmore.stops_word]
  split <;> rfl

/-- With white space behind, the same token is read, except that a block comment may end. -/
theorem scanToken_append_parted {text rest : List Char} {kind : TokenKind}
    (hkind : ∀ text, kind ≠ .invalid text .unterminatedComment)
    (h : scanToken text = some (kind, rest)) :
    scanToken (text ++ more) = some (kind, rest ++ more) := by
  unfold scanToken at h
  split at h
  · simp at h
  · simp only [Option.some.injEq, Prod.mk.injEq] at h
    exact (hkind _ h.1.symm).elim
  · rename_i c tail hopen
    have hopen' : ∀ more', c = '/' → tail ++ more = '*' :: more' → False := by
      rintro more' rfl htail
      obtain ⟨more'', hmore''⟩ : ['/', '*'] <+: '/' :: tail :=
        isPrefix_of_parted rfl hmore ⟨more', by simp [htail]⟩
      exact hopen more'' rfl (List.cons.inj hmore'').2.symm
    rw [List.cons_append, scanToken.eq_3 _ _ hopen', ← List.cons_append,
      Numeral.begins_append_parted hmore, scanNumber_append_parted hmore,
      Symbol.scan_append_parted hmore]
    obtain ⟨htaken, hdropped⟩ := takeWhile_append_of_stops hmore.stops_word tail
    split at h
    · rename_i hnumber
      rw [if_pos hnumber, Option.some.inj h]
    · rename_i hnumber
      rw [if_neg hnumber]
      split at h
      · rename_i hword
        rw [if_pos hword, htaken, hdropped]
        simp only [Option.some.injEq, Prod.mk.injEq] at h ⊢
        rw [h.1, h.2]
        exact ⟨rfl, rfl⟩
      · rename_i hword
        rw [if_neg hword]
        cases hsymbol : Symbol.scan (c :: tail) with
        | none =>
          simp only [hsymbol, Option.some.injEq, Prod.mk.injEq] at h
          rw [← h.1, ← h.2]
          rfl
        | some found =>
          simp only [hsymbol, Option.some.injEq, Prod.mk.injEq] at h
          simp [h.1, h.2]

end Parted

/-- Where a text that is not empty stops, it stops with anything behind it. -/
theorem Text.Stops.append_of_ne_nil {p : Char → Bool} {a : List Char} (h : Stops p a) (hne : a ≠ [])
    (b : List Char) : Stops p (a ++ b) := by
  obtain ⟨c, rest, rfl⟩ := List.exists_cons_of_ne_nil hne
  exact stops_cons.2 (stops_cons.1 h)

/-- What is not skipped begins with neither white space nor a comment to the end of its line. -/
theorem Layout.skip_stops (p : Place) :
    Stops isWhiteSpace (skip p).text ∧ ¬['/', '/'] <+: (skip p).text := by
  fun_induction skip p with
  | case1 l rest ih | case2 l rest q h ih | case4 l c rest _ _ hc ih => exact ih
  | case3 l rest h => simp only [↓Char.isValue, stops_cons, List.cons_prefix_cons, Char.reduceEq,
    List.nil_prefix, and_true, and_false, not_false_eq_true]; decide
  | case5 l c rest hline hblock hc =>
    refine ⟨stops_cons.2 (by simpa using hc), ?_⟩
    rintro ⟨more, hmore⟩
    injection hmore with hfirst hrest
    exact hline _ hfirst.symm hrest.symm
  | case6 l => simp

/-- Before a line feed the same is skipped, and where that is all, the line feed is skipped, too. A
block comment has to end before it. -/
theorem Layout.skip_append_line {p : Place} (h : ¬['/', '*'] <+: (skip p).text) (rest : List Char) :
    skip ⟨p.location, p.text ++ '\n' :: rest⟩ =
      if (skip p).text = [] then skip ⟨p.location.after (p.text ++ ['\n']), rest⟩
      else ⟨(skip p).location, (skip p).text ++ '\n' :: rest⟩ := by
  have hparted : Parted ('\n' :: rest) := stops_cons.2 (by decide)
  obtain ⟨passed, hbehind, hpassed⟩ := skip_passes p
  have htext : p.text ++ '\n' :: rest = passed ++ ((skip p).text ++ '\n' :: rest) := by
    rw [← List.append_assoc, hbehind.text_eq]
  rw [htext]
  rcases hpassed with hclosed | ⟨⟨before, hbefore, _, ⟨line, hline, rfl⟩, rfl⟩, hend⟩
  · rw [skip_separators hclosed, ← hbehind.location_eq]
    split
    · rename_i hend
      have hall : p.text = passed := by rw [← hbehind.text_eq, hend, List.append_nil]
      rw [hend, List.nil_append, skip_blank (by decide), hall, Location.after_append,
        ← hbehind.location_eq]
      rfl
    · rename_i hne
      obtain ⟨hblank, hcomment⟩ := skip_stops p
      exact skip_eq_self (hblank.append_of_ne_nil hne _)
        (fun hp => hcomment (isPrefix_of_parted rfl hparted hp))
        (fun hp => h (isPrefix_of_parted rfl hparted hp)) _
  · have hall : p.text = before ++ '/' :: '/' :: line := by
      rw [← hbehind.text_eq, hend, List.append_nil]
    rw [if_pos hend, hend, List.nil_append, List.append_assoc, skip_separators hbefore]
    simp only [List.cons_append]
    rw [skip_line, afterLine_append hline, hall]
    simp [Location.after_append]

/-- In two texts with a line feed between them, the tokens of the one stand before those of the
other. -/
theorem tokensFrom_append_line {p : Place}
    (h : ∀ t ∈ tokensFrom p, ∀ text, t.kind ≠ .invalid text .unterminatedComment)
    (rest : List Char) :
    ∃ ts l, tokensFrom p = ts ++ [⟨.endOfFile, l⟩] ∧
      tokensFrom ⟨p.location, p.text ++ '\n' :: rest⟩ =
        ts ++ tokensFrom ⟨p.location.after (p.text ++ ['\n']), rest⟩ := by
  have hparted : Parted ('\n' :: rest) := stops_cons.2 (by decide)
  fun_induction tokensFrom p with
  | case1 p q hend =>
    have hnil : (Layout.skip p).text = [] := eq_nil_of_scanToken hend
    refine ⟨[], q.location, rfl, ?_⟩
    have hskip := Layout.skip_append_line (p := p) (by simp [hnil]) rest
    rw [if_pos hnil] at hskip
    rw [tokensFrom.eq_def, tokensFrom.eq_def, hskip]
    rfl
  | case2 p q kind tail htoken ih =>
    obtain ⟨hkind, hrest⟩ := List.forall_mem_cons.1 h
    obtain ⟨ts, l, htokens, htokens'⟩ := ih hrest
    have hne : (Layout.skip p).text ≠ [] := fun hnil => by
      change scanToken (Layout.skip p).text = _ at htoken
      simp [hnil, scanToken] at htoken
    have hopen : ¬['/', '*'] <+: (Layout.skip p).text := by
      rintro ⟨more, hmore⟩
      change scanToken (Layout.skip p).text = _ at htoken
      rw [← hmore] at htoken
      simp only [List.cons_append, List.nil_append, scanToken, Option.some.injEq,
        Prod.mk.injEq] at htoken
      exact hkind _ htoken.1.symm
    have hskip := Layout.skip_append_line hopen rest
    rw [if_neg hne] at hskip
    have hend : (q.location.after kind.text.toList).after (tail ++ ['\n']) =
        p.location.after (p.text ++ ['\n']) := by
      obtain ⟨passed, hbehind⟩ := Layout.skip_behind p
      have htext : (Layout.skip p).text = kind.text.toList ++ tail := (scanToken_append htoken).symm
      rw [← hbehind.text_eq, htext]
      simp only [List.append_assoc, Location.after_append, ← hbehind.location_eq]
      rfl
    refine ⟨⟨kind, q.location⟩ :: ts, l, by rw [htokens]; rfl, ?_⟩
    rw [tokensFrom_of_scanToken hskip (scanToken_append_parted hparted hkind htoken), htokens',
      hend]
    rfl

/-- Dividing a text goes by lines. The tokens of two texts with a line feed between them are those
of the one, if no block comment in it is left without end, and then those of the other, as many
lines below as the text and the line feed before it have. -/
theorem tokenize_append_line {a : String}
    (h : ∀ t ∈ tokenize a, ∀ text, t.kind ≠ .invalid text .unterminatedComment) (b : String) :
    ∃ ts l, tokenize a = ts ++ [⟨.endOfFile, l⟩] ∧
      tokenize (a ++ "\n" ++ b) =
        ts ++ (tokenize b).map (Token.below (a.toList.count '\n' + 1)) := by
  obtain ⟨ts, l, htokens, htokens'⟩ := tokensFrom_append_line h b.toList
  refine ⟨ts, l, htokens, ?_⟩
  have htext : (a ++ "\n" ++ b).toList = a.toList ++ '\n' :: b.toList := by simp
  rw [tokenize, Place.ofSource, htext]
  refine htokens'.trans (congrArg (ts ++ ·) ?_)
  rw [Place.ofSource, Location.after_line]
  exact tokensFrom_below (.ofSource b) _

/-- A comment ends with its line, and neither a number without the digits of its exponent nor a `/`
goes on behind the line feed. -/
theorem tokenize_append_line_of_broken_number :
    (∀ t ∈ tokenize "a // b\n/ 1e+", ∀ text, t.kind ≠ .invalid text .unterminatedComment) ∧
      tokenize ("a // b\n/ 1e+" ++ "\n" ++ "/2") =
        [⟨.identifier "a", ⟨1, 1⟩⟩, ⟨.symbol .slash, ⟨2, 1⟩⟩,
          ⟨.invalid "1e+" .invalidNumber, ⟨2, 3⟩⟩, ⟨.symbol .slash, ⟨3, 1⟩⟩, ⟨.number "2", ⟨3, 2⟩⟩,
          ⟨.endOfFile, ⟨3, 3⟩⟩] := by
  have hfirst : tokenize "a // b\n/ 1e+" = [⟨.identifier "a", ⟨1, 1⟩⟩, ⟨.symbol .slash, ⟨2, 1⟩⟩,
      ⟨.invalid "1e+" .invalidNumber, ⟨2, 3⟩⟩] ++ [⟨.endOfFile, ⟨2, 6⟩⟩] := by decide +kernel
  have hclosed : ∀ t ∈ tokenize "a // b\n/ 1e+", ∀ text,
      t.kind ≠ .invalid text .unterminatedComment := by simp [hfirst]
  have hsecond : tokenize "/2" = [⟨.symbol .slash, ⟨1, 1⟩⟩, ⟨.number "2", ⟨1, 2⟩⟩,
      ⟨.endOfFile, ⟨1, 3⟩⟩] := by decide +kernel
  obtain ⟨ts, l, htokens, happend⟩ := tokenize_append_line hclosed "/2"
  obtain ⟨rfl, -⟩ := List.append_inj' (hfirst.symm.trans htokens) rfl
  refine ⟨hclosed, happend.trans ?_⟩
  rw [hsecond]
  rfl

end Wgsl
