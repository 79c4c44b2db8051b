import GrammarSampler.Grammar.Reader

/-!
# Reading without counting

The same tokens and productions are read without counting lines and columns on the way: each token
keeps the text that starts with it (`PlacedToken`), and so does a fault.  What stands before it
tells its position (`Position.after`, `ParseReason.position`).  The lexer, which counts, comes to
the same positions (`Lexer.tokenize_eq`), and the same grammars are read (`Grammar.read_eq`).
-/

namespace GrammarSampler

/-! ### Tokens -/

/-- A token and the text from its first character on. -/
structure PlacedToken where
  token : Token
  here : List Char
  deriving DecidableEq

/-- Reads a literal up to its closing quote: the text, and what stands after the quote. -/
def readLiteral (quote : Char) : List Char → Except LexicalFault (List Char × List Char)
  | [] => .error .unterminatedLiteral
  | ['\\'] => .error .invalidEscape
  | '\\' :: c :: cs =>
    match unescape? c with
    | none => .error .invalidEscape
    | some d => (readLiteral quote cs).map fun r => (d :: r.1, r.2)
  | c :: cs =>
    if c = quote then .ok ([], cs)
    else if c = '\n' then .error .unterminatedLiteral
    else (readLiteral quote cs).map fun r => (c :: r.1, r.2)

/-- Reads what starts with the character `c`, before `cs`: a token, or nothing if a blank or a
comment is skipped, and the text after it. -/
def readLexeme (c : Char) (cs : List Char) : Except LexicalFault (Option Token × List Char) :=
  if c = '\n' then .ok (some .lineEnd, cs)
  else if Text.isBlank c then .ok (none, cs)
  else if c = '#' then .ok (none, cs.dropWhile (· ≠ '\n'))
  else if c = '|' then .ok (some .bar, cs)
  else if c = '-' then
    match cs with
    | '>' :: cs => .ok (some .arrow, cs)
    | _ => .error .loneDash
  else if c = '\'' || c = '"' then
    (readLiteral c cs).map fun r => (some (.literal (String.ofList r.1)), r.2)
  else if isIdentifierChar c then
    .ok (some (.identifier (String.ofList (c :: cs.takeWhile isIdentifierChar))),
      cs.dropWhile isIdentifierChar)
  else .error (.unexpectedChar c)

/-! The lexer reads the same from every position. -/

theorem takeWhile_span (test : Char → Bool) (p : Position) (cs : List Char) :
    cs.takeWhile test = (Lexer.span test p cs).1 := by
  fun_induction Lexer.span test p cs with
  | case1 => rfl
  | case2 p c cs htest taken l hspan ih =>
    rw [hspan] at ih
    rw [List.takeWhile_cons_of_pos htest, ih]
  | case3 p c cs htest => exact List.takeWhile_cons_of_neg htest

theorem dropWhile_span (test : Char → Bool) (p : Position) (cs : List Char) :
    cs.dropWhile test = (Lexer.span test p cs).2.rest := by
  fun_induction Lexer.span test p cs with
  | case1 => rfl
  | case2 p c cs htest taken l hspan ih =>
    rw [hspan] at ih
    rw [List.dropWhile_cons_of_pos htest, ih]
  | case3 p c cs htest => exact List.dropWhile_cons_of_neg htest

theorem readLiteral_cons {q c : Char} (hc : c ≠ '\\') (cs : List Char) :
    readLiteral q (c :: cs) = if c = q then .ok ([], cs)
      else if c = '\n' then .error .unterminatedLiteral
      else (readLiteral q cs).map fun r => (c :: r.1, r.2) := by
  rw [readLiteral.eq_def]
  split
  · next heq => cases heq
  · next heq => exact absurd (List.cons.inj heq).1 hc
  · next heq => exact absurd (List.cons.inj heq).1 hc
  · next heq =>
    obtain ⟨rfl, rfl⟩ := List.cons.inj heq
    rfl

theorem readLiteral_eq {q : Char} (hq : q ≠ '\\') (p : Position) (cs : List Char) :
    readLiteral q cs = (Lexer.literal q p cs).map fun r => (r.1, r.2.rest) := by
  fun_induction Lexer.literal q p cs with
  | case1 => rfl
  | case2 p cs => rw [readLiteral_cons hq, if_pos rfl]; rfl
  | case3 => rfl
  | case4 p d cs hescape => simp only [readLiteral, hescape]; rfl
  | case5 p d cs e hescape _ ih =>
    simp only [readLiteral, hescape, ih]
    cases Lexer.literal q ((p.next '\\').next d) cs <;> rfl
  | case6 p cs hne => rw [readLiteral_cons (by decide), if_neg hne, if_pos rfl]; rfl
  | case7 p c cs hquote hbackslash hline ih =>
    rw [readLiteral_cons hbackslash, if_neg hquote, if_neg hline, ih]
    cases Lexer.literal q (p.next c) cs <;> rfl

theorem readLexeme_eq (p : Position) (c : Char) (cs : List Char) :
    readLexeme c cs = (Lexer.lexeme p c cs).map fun r => (r.1, r.2.rest) := by
  unfold readLexeme Lexer.lexeme
  split
  · rfl
  split
  · rfl
  split
  · rw [dropWhile_span _ (p.next c)]
    rfl
  split
  · rfl
  split
  · cases cs with
    | nil => rfl
    | cons d cs =>
      by_cases hd : d = '>'
      · subst hd
        rfl
      · simp [hd, Except.map]
  split
  · next hquote =>
    have hne : c ≠ '\\' := by
      rintro rfl
      simp at hquote
    rw [readLiteral_eq hne (p.next c)]
    cases Lexer.literal c (p.next c) cs <;> rfl
  split
  · rw [takeWhile_span _ (p.next c), dropWhile_span _ (p.next c)]
    rfl
  · rfl

theorem length_readLexeme {c : Char} {cs : List Char} {r : Option Token × List Char}
    (h : readLexeme c cs = .ok r) : r.2.length ≤ cs.length := by
  rw [readLexeme_eq (.mk 1 1)] at h
  obtain ⟨s, hs, rfl⟩ := exists_of_map_eq_ok h
  exact (Lexer.passes_of_lexeme hs).length_le

/-- The tokens of a text, or the first fault and the text from its first character on. -/
def tokenize : List Char → Except (LexicalFault × List Char) (List PlacedToken)
  | [] => .ok []
  | c :: cs =>
    match h : readLexeme c cs with
    | .error fault => .error (fault, c :: cs)
    | .ok (none, rest) =>
      have : rest.length ≤ cs.length := length_readLexeme h
      tokenize rest
    | .ok (some token, rest) =>
      have : rest.length ≤ cs.length := length_readLexeme h
      (tokenize rest).map (⟨token, c :: cs⟩ :: ·)
  termination_by cs => cs.length

/-! ### Productions -/

/-- The productions of a sequence of rules, or the first token that does not fit with the text from
it on. -/
def readRules : Expectation → List PlacedToken →
    Except (ParseReason × List Char) (List Production)
  | .rule, [] => .ok []
  | .rule, t :: ts =>
    match t.token with
    | .lineEnd => readRules .rule ts
    | .identifier name => readRules (.arrow ⟨name⟩) ts
    | found => .error (.expectedNonterminal found, t.here)
  | .arrow _, [] => .error (.endedBeforeArrow, [])
  | .arrow lhs, t :: ts =>
    match t.token with
    | .arrow => readRules (.symbol lhs []) ts
    | found => .error (.expectedArrow found, t.here)
  | .symbol lhs rhs, [] => .ok [⟨lhs, rhs⟩]
  | .symbol lhs rhs, t :: ts =>
    match t.token with
    | .lineEnd => (readRules .rule ts).map (⟨lhs, rhs⟩ :: ·)
    | .bar => (readRules (.symbol lhs []) ts).map (⟨lhs, rhs⟩ :: ·)
    | .identifier name => readRules (.symbol lhs (rhs ++ [.nonterminal ⟨name⟩])) ts
    | .literal text => readRules (.symbol lhs (rhs ++ [.terminal ⟨text⟩])) ts
    | .arrow => .error (.arrowOnRightHandSide, t.here)

/-- The productions that a text lists. -/
def readProductions (cs : List Char) : Except (ParseReason × List Char) (List Production) :=
  match tokenize cs with
  | .error (fault, here) => .error (.lexical fault, here)
  | .ok tokens => readRules .rule tokens

/-! ### Positions -/

/-- The position of what stands after `before`. -/
def Position.after (before : List Char) : Position where
  line := 1 + before.count '\n'
  column := 1 + (before.reverse.takeWhile (· ≠ '\n')).length

/-- The position that an error in the text `cs` names, where `here` is the text from the fault on.
A text that ends too early is in error on its last line, and one without rules at its beginning. -/
def ParseReason.position (cs here : List Char) : ParseReason → Position
  | endedBeforeArrow => ⟨max 1 (lineCount cs), 1⟩
  | noRules => ⟨1, 1⟩
  | _ => .after (cs.take (cs.length - here.length))

/-! The lexer counts right. -/

theorem Position.next_after (before : List Char) (c : Char) :
    (after before).next c = after (before ++ [c]) := by
  unfold Position.next
  split
  · next h =>
    subst h
    simp [after, Nat.add_assoc]
  · next h => simp [after, h, Nat.add_comm]

theorem Lexer.Passes.exists_eq_append {l : Lexer} {p : Position} {cs : List Char}
    (h : l.Passes p cs) : ∀ before, p = .after before →
      ∃ used, cs = used ++ l.rest ∧ l.position = .after (before ++ used) := by
  induction h with
  | here => exact fun before hp => ⟨[], rfl, by rw [List.append_nil, hp]⟩
  | @next p c cs _ ih =>
    intro before hp
    obtain ⟨used, hcs, hposition⟩ := ih (before ++ [c]) (by rw [hp, Position.next_after])
    exact ⟨c :: used, congrArg (c :: ·) hcs, by rw [hposition, List.append_assoc]; rfl⟩

/-- What is read at the position of `c` in a text leaves the lexer at the position of the rest. -/
theorem exists_lexeme_eq {c : Char} {cs rest : List Char} {token : Option Token}
    (h : readLexeme c cs = .ok (token, rest)) (before : List Char) :
    ∃ used, cs = used ++ rest ∧ Lexer.lexeme (.after before) c cs =
      .ok (token, ⟨rest, .after (before ++ c :: used)⟩) := by
  rw [readLexeme_eq (.after before)] at h
  obtain ⟨⟨_, l⟩, hread, heq⟩ := exists_of_map_eq_ok h
  obtain ⟨rfl, rfl⟩ := Prod.mk.inj heq
  obtain ⟨used, hcs, hposition⟩ := (Lexer.passes_of_lexeme hread).exists_eq_append
    (before ++ [c]) (Position.next_after before c)
  rw [List.append_assoc, List.singleton_append] at hposition
  exact ⟨used, hcs, by rw [hread, ← hposition]⟩

/-- The position in `text` of its last part `here`. -/
def Position.start (text here : List Char) : Position :=
  .after (text.take (text.length - here.length))

theorem Position.start_append (before here : List Char) :
    start (before ++ here) here = after before := by
  simp [start]

/-- The token in `text`, with its position. -/
def PlacedToken.locate (text : List Char) (t : PlacedToken) : LocatedToken :=
  ⟨t.token, .start text t.here⟩

/-- **The positions of all tokens, and that of a fault, are exact.** -/
theorem Lexer.tokenize_eq (before cs : List Char) :
    tokenize ⟨cs, .after before⟩ = match GrammarSampler.tokenize cs with
      | .error (fault, here) => .error (fault, .start (before ++ cs) here)
      | .ok placed => .ok (placed.map (PlacedToken.locate (before ++ cs))) := by
  fun_induction GrammarSampler.tokenize cs generalizing before with
  | case1 => rw [tokenize]; rfl
  | case2 c cs fault h =>
    rw [readLexeme_eq (.after before)] at h
    have hfault : lexeme (.after before) c cs = .error fault := by
      cases hread : lexeme (.after before) c cs with
      | error e => rw [hread] at h; exact congrArg _ (Except.error.inj h)
      | ok r => rw [hread] at h; cases h
    rw [tokenize_cons, hfault]
    dsimp only
    rw [Position.start_append]
  | case3 c cs rest h _ ih =>
    obtain ⟨used, rfl, hread⟩ := exists_lexeme_eq h before
    rw [tokenize_cons, hread]
    dsimp only
    rw [ih (before ++ c :: used), List.append_assoc, List.cons_append]
  | case4 c cs token rest h _ ih =>
    obtain ⟨used, rfl, hread⟩ := exists_lexeme_eq h before
    rw [tokenize_cons, hread]
    dsimp only
    rw [ih (before ++ c :: used), List.append_assoc, List.cons_append]
    cases GrammarSampler.tokenize rest with
    | error e => rfl
    | ok placed =>
      simp [Except.map, PlacedToken.locate, Position.start_append]

theorem parseRules_locate (text : List Char) (e : Expectation) (placed : List PlacedToken) :
    parseRules ⟨max 1 (lineCount text), 1⟩ e (placed.map (PlacedToken.locate text)) =
      (readRules e placed).mapError fun r => ⟨r.1, r.1.position text r.2⟩ := by
  fun_induction readRules e placed with
  | case1 | case5 | case8 => rfl
  | case2 t placed h ih | case3 t placed name h ih =>
    simp only [List.map_cons, parseRules, PlacedToken.locate, h]
    exact ih
  | case4 t placed hlineEnd hname =>
    simp only [List.map_cons, parseRules, PlacedToken.locate]
    cases h : t.token with
    | lineEnd => exact absurd h hlineEnd
    | identifier name => exact absurd h (hname name)
    | literal | arrow | bar => rfl
  | case6 lhs t placed h ih =>
    simp only [List.map_cons, parseRules, PlacedToken.locate, h]
    exact ih
  | case7 lhs t placed harrow =>
    simp only [List.map_cons, parseRules, PlacedToken.locate]
    cases h : t.token with
    | arrow => exact absurd h harrow
    | identifier | literal | bar | lineEnd => rfl
  | case9 lhs rhs t placed h ih | case10 lhs rhs t placed h ih =>
    simp only [List.map_cons, parseRules, PlacedToken.locate, h]
    rw [ih]
    cases readRules _ placed <;> rfl
  | case11 lhs rhs t placed name h ih | case12 lhs rhs t placed text h ih =>
    simp only [List.map_cons, parseRules, PlacedToken.locate, h]
    exact ih
  | case13 lhs rhs t placed h =>
    simp only [List.map_cons, parseRules, PlacedToken.locate, h]
    rfl

theorem Lexer.tokenize_start (cs : List Char) :
    (start cs).tokenize = match GrammarSampler.tokenize cs with
      | .error (fault, here) => .error (fault, .start cs here)
      | .ok placed => .ok (placed.map (PlacedToken.locate cs)) :=
  tokenize_eq [] cs

/-- Reading without counting gives the same. -/
theorem parseProductions_eq (cs : List Char) :
    parseProductions cs = (readProductions cs).mapError fun r => ⟨r.1, r.1.position cs r.2⟩ := by
  rw [parseProductions, readProductions, Lexer.tokenize_start]
  cases tokenize cs with
  | error e => rfl
  | ok placed => exact parseRules_locate cs .rule placed

namespace Grammar

theorem read_eq (text : String) : read text = match readProductions text.toList with
    | .error (reason, here) => .error (.parse ⟨reason, reason.position text.toList here⟩)
    | .ok [] => .error (.parse ⟨.noRules, ⟨1, 1⟩⟩)
    | .ok (p :: ps) => (ofProductions p.lhs (p :: ps)).mapError .grammar := by
  rw [read, parseProductions_eq]
  match readProductions text.toList with
  | .error (reason, here) => rfl
  | .ok [] => rfl
  | .ok (p :: ps) =>
    dsimp only [Except.mapError]
    cases ofProductions p.lhs (p :: ps) <;> rfl

end Grammar

end GrammarSampler
