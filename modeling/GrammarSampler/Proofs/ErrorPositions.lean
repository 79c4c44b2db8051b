import GrammarSampler.Number.Word
import GrammarSampler.Proofs.LineGrammar
import GrammarSampler.Proofs.Spellings

/-!
# Where a text is in error

An error names the position of what cannot be read (`Grammar.parse_error_position`).  If the text
has no tokens, that is the first character of what is none, where the text before it has tokens and
is passed as a whole: the place is not in a comment (`LexicalErrorAt`).  Else it is the first
character of the first token which, after those before it, no sequence of rules goes on with.  Only
where the text ends after the left-hand side of a rule, the error names that line as a whole, which
is the last one (`SyntaxErrorAt`).  No text has two such positions (`LexicalErrorAt.unique`,
`SyntaxErrorAt.position_eq`).

The reader of tokens is followed by what it expects (`Expectation.after?`).  Each expectation goes
along the tokens of a sequence of rules (`Expectation.completes_append_iff`) and can be met
(`Expectation.exists_completes`); so the reader stops no later and no earlier than it should.
-/

namespace GrammarSampler

/-! ### Sequences of rules -/

/-- **The tokens of some rules**, each on a line of its own; lines may be empty. -/
def IsRules (tokens : List Token) : Prop := ∀ line ∈ tokens.splitOn .lineEnd, IsLine line

namespace Expectation

/-- What is expected after a token, if the token fits. -/
def next? : Expectation → Token → Option Expectation
  | rule, .lineEnd => some rule
  | rule, .identifier name => some (arrow ⟨name⟩)
  | arrow lhs, .arrow => some (symbol lhs [])
  | symbol _ _, .lineEnd => some rule
  | symbol lhs _, .bar => some (symbol lhs [])
  | symbol lhs rhs, .identifier name => some (symbol lhs (rhs ++ [.nonterminal ⟨name⟩]))
  | symbol lhs rhs, .literal text => some (symbol lhs (rhs ++ [.terminal ⟨text⟩]))
  | _, _ => none

/-- What is expected after all the tokens, if they fit. -/
def after? : Expectation → List Token → Option Expectation
  | e, [] => some e
  | e, token :: tokens => (e.next? token).bind (after? · tokens)

/-- The tokens are the rest of a line. -/
def MetBy : Expectation → List Token → Prop
  | rule, tokens => IsLine tokens
  | arrow _, tokens => ∃ rest, tokens = .arrow :: rest ∧
      ∀ token ∈ rest, token = .bar ∨ token.symbol?.isSome
  | symbol _ _, tokens => ∀ token ∈ tokens, token = .bar ∨ token.symbol?.isSome

/-- The tokens are the rest of a line and further rules. -/
def Completes (e : Expectation) (tokens : List Token) : Prop :=
  ∃ line lines, tokens.splitOn .lineEnd = line :: lines ∧ e.MetBy line ∧ ∀ l ∈ lines, IsLine l

theorem completes_iff {e : Expectation} {tokens line : List Token} {lines : List (List Token)}
    (hsplit : tokens.splitOn .lineEnd = line :: lines) :
    e.Completes tokens ↔ e.MetBy line ∧ ∀ l ∈ lines, IsLine l := by
  constructor
  · rintro ⟨line', lines', heq, h⟩
    obtain ⟨rfl, rfl⟩ := List.cons.inj (hsplit.symm.trans heq)
    exact h
  · exact fun h => ⟨line, lines, hsplit, h⟩

theorem rule_completes_iff {tokens : List Token} : rule.Completes tokens ↔ IsRules tokens := by
  obtain ⟨line, lines, hsplit⟩ := List.exists_cons_of_ne_nil (List.splitOn_ne_nil .lineEnd tokens)
  rw [completes_iff hsplit, IsRules, hsplit, List.forall_mem_cons]
  rfl

theorem splitOn_lineEnd (tokens : List Token) :
    (Token.lineEnd :: tokens).splitOn .lineEnd = [] :: tokens.splitOn .lineEnd := by
  simp [List.splitOn, List.splitOnP_cons_eq_if_modifyHead]

theorem splitOn_cons_of_ne {token : Token} (h : token ≠ .lineEnd) {tokens line : List Token}
    {lines : List (List Token)} (hsplit : tokens.splitOn .lineEnd = line :: lines) :
    (token :: tokens).splitOn .lineEnd = (token :: line) :: lines := by
  unfold List.splitOn at hsplit ⊢
  rw [List.splitOnP_cons_eq_if_modifyHead, if_neg (by simpa using h), hsplit]
  rfl

/-- Within a line, the expectations go along the line. -/
theorem metBy_cons_iff (e : Expectation) {token : Token} (h : token ≠ .lineEnd)
    (line : List Token) :
    e.MetBy (token :: line) ↔ ∃ e', e.next? token = some e' ∧ e'.MetBy line := by
  cases e with
  | rule =>
    cases token with
    | identifier name => simp [MetBy, IsLine, next?]
    | lineEnd => exact absurd rfl h
    | literal | arrow | bar => simp [MetBy, IsLine, next?]
  | arrow lhs => cases token <;> simp [MetBy, next?]
  | symbol lhs rhs =>
    cases token with
    | lineEnd => exact absurd rfl h
    | identifier | literal | arrow | bar => simp [MetBy, next?, Token.symbol?]

/-- A line can end unless an arrow is expected. -/
theorem metBy_nil_iff (e : Expectation) : e.MetBy [] ↔ e.next? .lineEnd = some .rule := by
  cases e with
  | rule | symbol => simp [MetBy, IsLine, next?]
  | arrow => simp [MetBy, next?]

/-- A rule is expected at the beginning of a line. -/
theorem next?_lineEnd {e e' : Expectation} (h : e.next? .lineEnd = some e') : e' = rule := by
  cases e with
  | rule | symbol => exact (Option.some.inj h).symm
  | arrow => cases h

/-- The expectations go along the tokens. -/
theorem completes_cons_iff (e : Expectation) (token : Token) (tokens : List Token) :
    e.Completes (token :: tokens) ↔ ∃ e', e.next? token = some e' ∧ e'.Completes tokens := by
  by_cases h : token = .lineEnd
  · subst h
    rw [completes_iff (splitOn_lineEnd tokens), metBy_nil_iff]
    constructor
    · exact fun ⟨hnext, hrules⟩ => ⟨rule, hnext, rule_completes_iff.2 hrules⟩
    · rintro ⟨e', hnext, hrules⟩
      obtain rfl := next?_lineEnd hnext
      exact ⟨hnext, rule_completes_iff.1 hrules⟩
  · obtain ⟨line, lines, hsplit⟩ :=
      List.exists_cons_of_ne_nil (List.splitOn_ne_nil .lineEnd tokens)
    simp only [completes_iff (splitOn_cons_of_ne h hsplit), metBy_cons_iff e h,
      completes_iff hsplit]
    constructor
    · exact fun ⟨⟨e', hnext, hline⟩, hlines⟩ => ⟨e', hnext, hline, hlines⟩
    · exact fun ⟨e', hnext, hline, hlines⟩ => ⟨⟨e', hnext, hline⟩, hlines⟩

theorem completes_append_iff (e : Expectation) (accepted tokens : List Token) :
    e.Completes (accepted ++ tokens) ↔
      ∃ e', e.after? accepted = some e' ∧ e'.Completes tokens := by
  induction accepted generalizing e with
  | nil => simp [after?]
  | cons token accepted ih =>
    rw [List.cons_append, completes_cons_iff, after?]
    cases e.next? token with
    | none => simp
    | some e' => simpa using ih e'

/-- Every expectation can be met. -/
theorem exists_completes (e : Expectation) : ∃ tokens, e.Completes tokens := by
  cases e with
  | rule => exact ⟨[], (completes_iff rfl).2 ⟨.inl rfl, List.forall_mem_nil _⟩⟩
  | arrow lhs =>
    have hline : (arrow lhs).MetBy [.arrow] := ⟨[], rfl, List.forall_mem_nil _⟩
    exact ⟨[.arrow], (completes_iff rfl).2 ⟨hline, List.forall_mem_nil _⟩⟩
  | symbol lhs rhs =>
    exact ⟨[], (completes_iff rfl).2 ⟨List.forall_mem_nil _, List.forall_mem_nil _⟩⟩

/-- Tokens can be gone on with to rules exactly if they fit one after another. -/
theorem exists_isRules_append_iff (accepted : List Token) :
    (∃ more, IsRules (accepted ++ more)) ↔ ∃ e, rule.after? accepted = some e := by
  simp only [← rule_completes_iff, completes_append_iff]
  constructor
  · exact fun ⟨more, e, hafter, _⟩ => ⟨e, hafter⟩
  · rintro ⟨e, hafter⟩
    obtain ⟨more, hmore⟩ := e.exists_completes
    exact ⟨more, e, hafter, hmore⟩

/-- With a token that does not fit, they cannot. -/
theorem not_isRules_of_next?_eq_none {e : Expectation} {accepted : List Token} {token : Token}
    (haccepted : rule.after? accepted = some e) (h : e.next? token = none) (more : List Token) :
    ¬IsRules (accepted ++ token :: more) := by
  intro hrules
  rw [← rule_completes_iff, completes_append_iff] at hrules
  obtain ⟨e', he', hcompletes⟩ := hrules
  obtain rfl := Option.some.inj (haccepted.symm.trans he')
  obtain ⟨e'', he'', -⟩ := (completes_cons_iff ..).1 hcompletes
  rw [h] at he''
  cases he''

/-- Where a rule is expected, there are rules before. -/
theorem isRules_of_after?_rule {tokens : List Token} (h : rule.after? tokens = some rule) :
    IsRules tokens := by
  have happend := completes_append_iff rule tokens []
  rw [List.append_nil, rule_completes_iff] at happend
  exact happend.2 ⟨rule, h, (completes_iff rfl).2 ⟨.inl rfl, List.forall_mem_nil _⟩⟩

theorem after?_append (e : Expectation) (accepted tokens : List Token) :
    e.after? (accepted ++ tokens) = (e.after? accepted).bind (after? · tokens) := by
  induction accepted generalizing e with
  | nil => rfl
  | cons token accepted ih =>
    rw [List.cons_append, after?, after?]
    cases e.next? token with
    | none => rfl
    | some e' => exact ih e'

/-- The last of the tokens led to what is expected after all. -/
theorem after?_eq_some {e e' : Expectation} {tokens : List Token} (h : e.after? tokens = some e') :
    tokens = [] ∧ e = e' ∨ ∃ accepted token e'', tokens = accepted ++ [token] ∧
      e.after? accepted = some e'' ∧ e''.next? token = some e' := by
  rcases List.eq_nil_or_concat tokens with rfl | ⟨accepted, token, rfl⟩
  · exact .inl ⟨rfl, Option.some.inj h⟩
  · rw [List.concat_eq_append, after?_append] at h
    obtain ⟨e'', haccepted, hlast⟩ := Option.bind_eq_some_iff.1 h
    have hnext : e''.next? token = some e' := by simpa [after?] using hlast
    exact .inr ⟨accepted, token, e'', List.concat_eq_append, haccepted, hnext⟩

/-- Where an arrow is expected, the left-hand side of a rule was read last, where a rule was
expected. -/
theorem exists_of_after?_arrow {tokens : List Token} {lhs : Nonterminal}
    (h : rule.after? tokens = some (arrow lhs)) :
    ∃ accepted, tokens = accepted ++ [.identifier lhs.name] ∧ rule.after? accepted = some rule := by
  obtain ⟨-, heq⟩ | ⟨accepted, token, e, rfl, haccepted, hnext⟩ := after?_eq_some h
  · cases heq
  · cases e with
    | rule =>
      cases token with
      | identifier name =>
        cases hnext
        exact ⟨accepted, rfl, haccepted⟩
      | literal | arrow | bar | lineEnd => cases hnext
    | arrow | symbol => cases token <;> cases hnext

/-- Where a rule is expected, there is nothing before or a line has just ended. -/
theorem eq_lineEnd_of_after?_rule {tokens : List Token} (h : rule.after? tokens = some rule) :
    ∀ token ∈ tokens.getLast?, token = .lineEnd := by
  obtain ⟨rfl, -⟩ | ⟨accepted, token, e, rfl, -, hnext⟩ := after?_eq_some h
  · simp
  · have htoken : token = .lineEnd := by
      cases token with
      | lineEnd => rfl
      | identifier | literal | arrow | bar => cases e <;> cases hnext
    simpa using htoken

/-- Conversely, after a line end a rule is expected. -/
theorem after?_eq_rule {tokens : List Token} (h : IsRules tokens)
    (hlast : ∀ token ∈ tokens.getLast?, token = .lineEnd) : rule.after? tokens = some rule := by
  have hgoesOn : ∃ more, IsRules (tokens ++ more) := ⟨[], by rwa [List.append_nil]⟩
  obtain ⟨e, he⟩ := (exists_isRules_append_iff tokens).1 hgoesOn
  obtain ⟨rfl, rfl⟩ | ⟨accepted, token, e', rfl, -, hnext⟩ := after?_eq_some he
  · exact he
  · obtain rfl : token = .lineEnd := hlast token (by simp)
    rw [he, next?_lineEnd hnext]

theorem after?_of_lineEnds {tokens : List Token} (h : ∀ token ∈ tokens, token = .lineEnd) :
    rule.after? tokens = some rule := by
  induction tokens with
  | nil => rfl
  | cons token tokens ih =>
    obtain ⟨rfl, hrest⟩ := List.forall_mem_cons.1 h
    exact ih hrest

end Expectation

/-! ### Errors of the reader -/

/-- The token that does not fit. -/
def ParseReason.token? : ParseReason → Option Token
  | expectedNonterminal found => some found
  | expectedArrow found => some found
  | arrowOnRightHandSide => some .arrow
  | lexical _ | endedBeforeArrow | noRules => none

/-- The reader stops at the first token that does not fit, or where an arrow is missing at the end
of the text. -/
inductive StopsAt (e : Expectation) (placed : List PlacedToken) : ParseReason → List Char → Prop
  | token {accepted : List PlacedToken} {t : PlacedToken} {later : List PlacedToken}
    {e' : Expectation} {reason : ParseReason} (hplaced : placed = accepted ++ t :: later)
    (haccepted : e.after? (accepted.map PlacedToken.token) = some e')
    (hrejected : e'.next? t.token = none) (hreason : reason.token? = some t.token) :
    StopsAt e placed reason t.here
  | ended {lhs : Nonterminal} (h : e.after? (placed.map PlacedToken.token) = some (.arrow lhs)) :
    StopsAt e placed .endedBeforeArrow []

theorem StopsAt.cons {e e' : Expectation} {t : PlacedToken} {placed : List PlacedToken}
    {reason : ParseReason} {here : List Char} (ht : e.next? t.token = some e')
    (h : StopsAt e' placed reason here) : StopsAt e (t :: placed) reason here := by
  cases h with
  | @token accepted t' later e'' reason hplaced haccepted hrejected hreason =>
    have hcons : e.after? ((t :: accepted).map PlacedToken.token) = some e'' := by
      rw [List.map_cons, Expectation.after?, ht]
      exact haccepted
    exact .token (congrArg (t :: ·) hplaced) hcons hrejected hreason
  | @ended lhs h =>
    have hcons : e.after? ((t :: placed).map PlacedToken.token) = some (.arrow lhs) := by
      rw [List.map_cons, Expectation.after?, ht]
      exact h
    exact .ended hcons

theorem stopsAt_of_readRules {e : Expectation} {placed : List PlacedToken} {reason : ParseReason}
    {here : List Char} (h : readRules e placed = .error (reason, here)) :
    StopsAt e placed reason here := by
  fun_induction readRules e placed with
  | case1 | case8 => cases h
  | case2 t placed ht ih => exact .cons (by rw [ht]; rfl) (ih h)
  | case3 t placed name ht ih => exact .cons (by rw [ht]; rfl) (ih h)
  | case4 t placed hlineEnd hname =>
    cases h
    have hrejected : Expectation.rule.next? t.token = none := by
      cases ht : t.token with
      | lineEnd => exact absurd ht hlineEnd
      | identifier name => exact absurd ht (hname name)
      | literal | arrow | bar => rfl
    exact .token (List.nil_append _).symm rfl hrejected rfl
  | case5 => cases h; exact .ended rfl
  | case6 lhs t placed ht ih => exact .cons (by rw [ht]; rfl) (ih h)
  | case7 lhs t placed harrow =>
    cases h
    have hrejected : (Expectation.arrow lhs).next? t.token = none := by
      cases ht : t.token with
      | arrow => exact absurd ht harrow
      | identifier | literal | bar | lineEnd => rfl
    exact .token (List.nil_append _).symm rfl hrejected rfl
  | case9 lhs rhs t placed ht ih | case10 lhs rhs t placed ht ih =>
    exact .cons (by rw [ht]; rfl) (ih (exists_of_map_eq_error h))
  | case11 lhs rhs t placed name ht ih => exact .cons (by rw [ht]; rfl) (ih h)
  | case12 lhs rhs t placed text ht ih => exact .cons (by rw [ht]; rfl) (ih h)
  | case13 lhs rhs t placed ht =>
    cases h
    have hrejected : (Expectation.symbol lhs rhs).next? t.token = none := by
      rw [ht]
      rfl
    exact .token (List.nil_append _).symm rfl hrejected (congrArg some ht.symm)

/-- Without productions there are only line ends. -/
theorem eq_lineEnd_of_readRules_nil {e : Expectation} {placed : List PlacedToken}
    (h : readRules e placed = .ok []) : e = .rule ∧ ∀ t ∈ placed, t.token = .lineEnd := by
  fun_induction readRules e placed with
  | case1 => exact ⟨rfl, List.forall_mem_nil _⟩
  | case2 t placed ht ih => exact ⟨rfl, List.forall_mem_cons.2 ⟨ht, (ih h).2⟩⟩
  | case3 t placed name ht ih => cases (ih h).1
  | case4 | case5 | case7 | case8 | case13 => cases h
  | case6 lhs t placed ht ih => cases (ih h).1
  | case9 lhs rhs t placed ht ih | case10 lhs rhs t placed ht ih =>
    obtain ⟨ps, -, heq⟩ := exists_of_map_eq_ok h
    cases heq
  | case11 lhs rhs t placed name ht ih => cases (ih h).1
  | case12 lhs rhs t placed text ht ih => cases (ih h).1

/-! ### Positions of errors -/

/-- **The error of a text without tokens** is at the first character of what is none.  The text
before it has tokens, and it is reached past these. -/
inductive LexicalErrorAt (cs : List Char) : ParseError → Prop
  | intro {before here : List Char} {tokens : List Token} {fault : LexicalFault}
    (htext : cs = before ++ here) (hreaches : Reaches here cs tokens)
    (hbefore : Lexes before tokens) (hhere : FaultAt here fault) :
    LexicalErrorAt cs ⟨.lexical fault, .after before⟩

/-- The token stands in the text `cs` after `before`, which has the tokens `accepted`; it is reached
past these. -/
inductive StandsAfter (cs before : List Char) (accepted : List Token) (token : Token) : Prop
  | intro {written rest : List Char} (htext : cs = before ++ (written ++ rest))
    (hreaches : Reaches (written ++ rest) cs accepted) (hbefore : Lexes before accepted)
    (hwritten : Lexeme rest (some token) written)

/-- **The error of a text with tokens.** -/
inductive SyntaxErrorAt (cs : List Char) (tokens : List Token) : ParseError → Prop
  /-- A token does not fit: some rules begin with the tokens before it, and none with it as well.
  The error is at its first character. -/
  | rejected {before : List Char} {accepted later : List Token} {token : Token}
    {reason : ParseReason} (hstands : StandsAfter cs before accepted token)
    (htokens : tokens = accepted ++ token :: later)
    (haccepted : ∃ more, IsRules (accepted ++ more))
    (hrejected : ∀ more, ¬IsRules (accepted ++ token :: more))
    (hreason : reason.token? = some token) : SyntaxErrorAt cs tokens ⟨reason, .after before⟩
  /-- The tokens run out after the left-hand side of a rule, on a line after other rules.  The error
  is on this line, in the first column. -/
  | ended {before : List Char} {accepted : List Token} {name : String}
    (hstands : StandsAfter cs before accepted (.identifier name))
    (htokens : tokens = accepted ++ [.identifier name]) (haccepted : IsRules accepted)
    (hlast : ∀ token ∈ accepted.getLast?, token = .lineEnd) :
    SyntaxErrorAt cs tokens ⟨.endedBeforeArrow, ⟨(Position.after before).line, 1⟩⟩
  /-- There are no rules. -/
  | noRules (h : ∀ token ∈ tokens, token = .lineEnd) : SyntaxErrorAt cs tokens ⟨.noRules, ⟨1, 1⟩⟩

section errors

variable {cs here : List Char} {placed : List PlacedToken}

theorem lexicalErrorAt_of_tokenize {fault : LexicalFault} (h : tokenize cs = .error (fault, here)) :
    LexicalErrorAt cs ⟨.lexical fault, .start cs here⟩ := by
  obtain ⟨hfault, tokens, hreaches⟩ := tokenize_eq_error_iff.1 h
  obtain ⟨before, rfl, hbefore⟩ := hreaches.exists_before
  rw [Position.start_append]
  exact .intro rfl hreaches hbefore hfault

theorem position_of_token?_eq_some {reason : ParseReason} {token : Token}
    (h : reason.token? = some token) (cs here : List Char) :
    reason.position cs here = .start cs here := by
  cases reason with
  | expectedNonterminal | expectedArrow | arrowOnRightHandSide => rfl
  | lexical | endedBeforeArrow | noRules => cases h

/-- A token stands after the tokens before it. -/
theorem exists_standsAfter {accepted later : List PlacedToken} {t : PlacedToken}
    (h : tokenize cs = .ok (accepted ++ t :: later)) :
    ∃ before written rest, t.here = written ++ rest ∧ cs = before ++ (written ++ rest) ∧
      StandsAfter cs before (accepted.map PlacedToken.token) t.token ∧
      t.token.Spelled written ∧ tokenize rest = .ok later := by
  obtain ⟨hreaches, written, rest, hhere, hwritten, hlater⟩ := reaches_token h
  obtain ⟨before, htext, hbefore⟩ := hreaches.exists_before
  rw [hhere] at htext hreaches
  refine ⟨before, written, rest, hhere, htext, ⟨htext, hreaches, hbefore, hwritten⟩, ?_, hlater⟩
  cases hwritten with
  | token hspelled => exact hspelled

theorem not_mem_of_isIdentifier {name : String} (h : IsIdentifier name) : '\n' ∉ name.toList := by
  intro hmem
  have hchar := h.2 _ hmem
  revert hchar
  decide +kernel

theorem syntaxErrorAt_of_next?_eq_none {accepted later : List PlacedToken} {t : PlacedToken}
    {e : Expectation} {reason : ParseReason} (hplaced : tokenize cs = .ok (accepted ++ t :: later))
    (haccepted : Expectation.rule.after? (accepted.map PlacedToken.token) = some e)
    (hrejected : e.next? t.token = none) (hreason : reason.token? = some t.token) :
    SyntaxErrorAt cs ((accepted ++ t :: later).map PlacedToken.token)
      ⟨reason, reason.position cs t.here⟩ := by
  obtain ⟨before, written, rest, hhere, rfl, hstands, -⟩ := exists_standsAfter hplaced
  rw [position_of_token?_eq_some hreason, hhere, Position.start_append]
  exact .rejected hstands List.map_append
    ((Expectation.exists_isRules_append_iff _).2 ⟨e, haccepted⟩)
    (Expectation.not_isRules_of_next?_eq_none haccepted hrejected) hreason

theorem syntaxErrorAt_of_after?_arrow {lhs : Nonterminal} (hplaced : tokenize cs = .ok placed)
    (h : Expectation.rule.after? (placed.map PlacedToken.token) = some (.arrow lhs)) :
    SyntaxErrorAt cs (placed.map PlacedToken.token)
      ⟨.endedBeforeArrow, ParseReason.endedBeforeArrow.position cs []⟩ := by
  obtain ⟨accepted, htokens, haccepted⟩ := Expectation.exists_of_after?_arrow h
  obtain ⟨placed, last, rfl, rfl, hlast⟩ := List.map_eq_append_iff.1 htokens
  obtain ⟨t, us, rfl, ht, hus⟩ := List.map_eq_cons_iff.1 hlast
  obtain rfl := List.map_eq_nil_iff.1 hus
  obtain ⟨before, written, rest, -, rfl, hstands, hwritten, hrest⟩ := exists_standsAfter hplaced
  rw [ht] at hstands hwritten
  cases hwritten with
  | identifier hname =>
    -- the text goes on to its end on the same line
    have hline : '\n' ∉ lhs.name.toList ++ rest := fun hmem =>
      (List.mem_append.1 hmem).elim (not_mem_of_isIdentifier hname) (not_mem_of_tokenize_nil hrest)
    have hone : 1 ≤ (Position.after before).line := Nat.le_add_right 1 _
    rw [ParseReason.position, lineCount_append hline (by simp [hname.1]), Nat.max_eq_right hone,
      htokens]
    exact .ended hstands rfl (Expectation.isRules_of_after?_rule haccepted)
      (Expectation.eq_lineEnd_of_after?_rule haccepted)

theorem syntaxErrorAt_of_readRules {reason : ParseReason} (hplaced : tokenize cs = .ok placed)
    (h : readRules .rule placed = .error (reason, here)) :
    SyntaxErrorAt cs (placed.map PlacedToken.token) ⟨reason, reason.position cs here⟩ := by
  cases stopsAt_of_readRules h with
  | token htokens haccepted hrejected hreason =>
    subst htokens
    exact syntaxErrorAt_of_next?_eq_none hplaced haccepted hrejected hreason
  | ended harrow => exact syntaxErrorAt_of_after?_arrow hplaced harrow

end errors

/-! ### One position for each text -/

section unique

variable {cs before before' : List Char} {tokens accepted accepted' later later' : List Token}
  {token token' : Token} {e e' : ParseError}

/-- **A text without tokens** has one error. -/
theorem LexicalErrorAt.unique (h : LexicalErrorAt cs e) (h' : LexicalErrorAt cs e') : e = e' := by
  obtain ⟨htext, hreaches, -, hhere⟩ := h
  obtain ⟨htext', hreaches', -, hhere'⟩ := h'
  have hfault := tokenize_eq_error_iff.2 ⟨hhere, _, hreaches⟩
  rw [tokenize_eq_error_iff.2 ⟨hhere', _, hreaches'⟩] at hfault
  cases hfault
  rw [List.append_cancel_right (htext.symm.trans htext')]

/-- Of the tokens of a text, one only stands after those that are accepted. -/
theorem StandsAfter.before_eq (htokens : Lexes cs tokens) (h : StandsAfter cs before accepted token)
    (h' : StandsAfter cs before' accepted token') : before = before' := by
  obtain ⟨placed, hplaced, -⟩ := htokens
  obtain @⟨written, rest, htext, hreaches, -, hwritten⟩ := h
  obtain @⟨written', rest', htext', hreaches', -, hwritten'⟩ := h'
  obtain ⟨first, later, heq, hfirst⟩ := hreaches.exists_placed rfl hwritten hplaced
  obtain ⟨first', later', heq', hfirst'⟩ := hreaches'.exists_placed rfl hwritten' hplaced
  have hlength : first.length = first'.length := by
    rw [← List.length_map, hfirst, ← hfirst', List.length_map]
  obtain ⟨-, hrest⟩ := List.append_inj (heq.symm.trans heq') hlength
  have hhere : written ++ rest = written' ++ rest' :=
    congrArg PlacedToken.here (List.cons.inj hrest).1
  rw [← hhere] at htext'
  exact List.append_cancel_right (htext.symm.trans htext')

/-- Tokens that rules go on with are accepted before a token that no rules go on with. -/
theorem length_le_of_rejected (h : accepted ++ token :: later = accepted' ++ token' :: later')
    (hrejected : ∀ more, ¬IsRules (accepted ++ token :: more))
    (haccepted' : ∃ more, IsRules (accepted' ++ more)) : accepted'.length ≤ accepted.length := by
  rcases List.append_eq_append_iff.1 h with ⟨mid, rfl, hmid⟩ | ⟨mid, rfl, -⟩
  · cases mid with
    | nil => simp
    | cons first mid =>
      obtain ⟨rfl, -⟩ := List.cons.inj hmid
      obtain ⟨more, hmore⟩ := haccepted'
      rw [List.append_assoc] at hmore
      exact absurd hmore (hrejected (mid ++ more))
  · rw [List.length_append]
    exact Nat.le_add_right ..

/-- If a token is rejected, no rules begin with all tokens. -/
theorem not_goesOn_of_rejected (htokens : tokens = accepted ++ token :: later)
    (hrejected : ∀ more, ¬IsRules (accepted ++ token :: more)) :
    ¬∃ more, IsRules (tokens ++ more) := by
  rintro ⟨more, hmore⟩
  rw [htokens, List.append_assoc] at hmore
  exact hrejected (later ++ more) hmore

/-- If the tokens run out, some rules do. -/
theorem goesOn_of_ended {name : String} (htokens : tokens = accepted ++ [.identifier name])
    (haccepted : IsRules accepted) (hlast : ∀ token ∈ accepted.getLast?, token = .lineEnd) :
    ∃ more, IsRules (tokens ++ more) := by
  rw [Expectation.exists_isRules_append_iff, htokens, Expectation.after?_append,
    Expectation.after?_eq_rule haccepted hlast]
  exact ⟨.arrow ⟨name⟩, rfl⟩

theorem goesOn_of_lineEnds (h : ∀ token ∈ tokens, token = .lineEnd) :
    ∃ more, IsRules (tokens ++ more) := by
  rw [Expectation.exists_isRules_append_iff]
  exact ⟨.rule, Expectation.after?_of_lineEnds h⟩

/-- **A text with tokens** has errors at one position only. -/
theorem SyntaxErrorAt.position_eq (htokens : Lexes cs tokens) (h : SyntaxErrorAt cs tokens e)
    (h' : SyntaxErrorAt cs tokens e') : e.position = e'.position := by
  cases h with
  | rejected hstands heq haccepted hrejected =>
    have hno := not_goesOn_of_rejected heq hrejected
    cases h' with
    | rejected hstands' heq' haccepted' hrejected' =>
      have hlists := heq.symm.trans heq'
      have hlength := Nat.le_antisymm (length_le_of_rejected hlists.symm hrejected' haccepted)
        (length_le_of_rejected hlists hrejected haccepted')
      obtain ⟨rfl, -⟩ := List.append_inj hlists hlength
      exact congrArg Position.after (hstands.before_eq htokens hstands')
    | ended _ heq' haccepted' hlast' => exact absurd (goesOn_of_ended heq' haccepted' hlast') hno
    | noRules hall' => exact absurd (goesOn_of_lineEnds hall') hno
  | @ended _ _ name hstands heq haccepted hlast =>
    cases h' with
    | rejected _ heq' _ hrejected' =>
      exact absurd (goesOn_of_ended heq haccepted hlast) (not_goesOn_of_rejected heq' hrejected')
    | ended hstands' heq' =>
      obtain ⟨rfl, -⟩ := List.append_inj' (heq.symm.trans heq') rfl
      exact congrArg (fun before => Position.mk (Position.after before).line 1)
        (hstands.before_eq htokens hstands')
    | noRules hall' => cases hall' (.identifier name) (heq ▸ by simp)
  | noRules hall =>
    cases h' with
    | rejected _ heq' _ hrejected' =>
      exact absurd (goesOn_of_lineEnds hall) (not_goesOn_of_rejected heq' hrejected')
    | @ended _ _ name _ heq' => cases hall (.identifier name) (heq' ▸ by simp)
    | noRules => rfl

end unique

/-! ### The numbers of lines and columns -/

section bounds

variable {cs : List Char} {e : ParseError}

/-- A place at which the text goes on has no greater numbers than there are characters. -/
theorem Position.after_le (before : List Char) {here : List Char} (hne : here ≠ []) :
    (after before).line ≤ (before ++ here).length ∧
      (after before).column ≤ (before ++ here).length := by
  have hcount : before.count '\n' ≤ before.length := List.count_le_length
  have htake := (List.takeWhile_sublist (· ≠ '\n') (l := before.reverse)).length_le
  have hpos := List.length_pos_iff.2 hne
  rw [List.length_reverse] at htake
  rw [List.length_append, after]
  constructor <;> dsimp only <;> omega

theorem LexicalErrorAt.position_le (h : LexicalErrorAt cs e) :
    e.position.line ≤ cs.length ∧ e.position.column ≤ cs.length := by
  cases h with
  | @intro before here tokens fault htext _ _ hhere =>
    subst htext
    exact Position.after_le before hhere.ne_nil

theorem StandsAfter.position_le {before : List Char} {accepted : List Token} {token : Token}
    (h : StandsAfter cs before accepted token) :
    (Position.after before).line ≤ cs.length ∧ (Position.after before).column ≤ cs.length := by
  obtain ⟨rfl, -, -, hwritten⟩ := h
  cases hwritten with
  | token hspelled =>
    exact Position.after_le before (List.append_ne_nil_of_left_ne_nil hspelled.ne_nil _)

theorem SyntaxErrorAt.position_le {tokens : List Token} (h : SyntaxErrorAt cs tokens e) :
    e.position.line ≤ max 1 cs.length ∧ e.position.column ≤ max 1 cs.length := by
  cases h with
  | rejected hstands =>
    have hle := hstands.position_le
    exact ⟨Nat.le_trans hle.1 (Nat.le_max_right ..), Nat.le_trans hle.2 (Nat.le_max_right ..)⟩
  | ended hstands =>
    have hle := hstands.position_le
    exact ⟨Nat.le_trans hle.1 (Nat.le_max_right ..), Nat.le_max_left ..⟩
  | noRules => exact ⟨Nat.le_max_left .., Nat.le_max_left ..⟩

end bounds

namespace Grammar

/-- What kind of error a text is in depends on whether it has tokens. -/
theorem errorAt_of_read {text : String} {e : ParseError} (h : read text = .error (.parse e)) :
    (∃ fault, tokenize text.toList = .error fault ∧ LexicalErrorAt text.toList e) ∨
      ∃ placed, tokenize text.toList = .ok placed ∧
        SyntaxErrorAt text.toList (placed.map PlacedToken.token) e := by
  rw [read_eq, readProductions] at h
  cases htokens : tokenize text.toList with
  | error fault =>
    obtain ⟨fault, here⟩ := fault
    rw [htokens] at h
    cases h
    exact .inl ⟨_, rfl, lexicalErrorAt_of_tokenize htokens⟩
  | ok placed =>
    refine .inr ⟨placed, rfl, ?_⟩
    rw [htokens] at h
    dsimp only at h
    cases hrules : readRules .rule placed with
    | error fault =>
      obtain ⟨reason, here⟩ := fault
      rw [hrules] at h
      cases h
      exact syntaxErrorAt_of_readRules htokens hrules
    | ok ps =>
      rw [hrules] at h
      cases ps with
      | nil =>
        cases h
        exact .noRules (List.forall_mem_map.2 (eq_lineEnd_of_readRules_nil hrules).2)
      | cons p ps =>
        dsimp only at h
        cases hmake : ofProductions p.lhs (p :: ps) with
        | error e' => rw [hmake] at h; cases h
        | ok g => rw [hmake] at h; cases h

/-- **Positions of errors are exact.**  If the text has no tokens, its error is at the first
character of what is none, where the text before it has tokens (`LexicalErrorAt`).  If it has
tokens, its error is at the first character of the first token that does not fit; or in the first
column of the line on which the tokens run out after the left-hand side of a rule; or at the
beginning, if there are no rules (`SyntaxErrorAt`).  There is no other position of which this holds.
Words of 32 bits hold the line and the column if they can count the characters. -/
theorem parse_error_position {text : String} {e : ParseError} (h : read text = .error (.parse e)) :
    (∀ fault, (Lexer.start text.toList).tokenize = .error fault →
      LexicalErrorAt text.toList e ∧ ∀ e', LexicalErrorAt text.toList e' → e' = e) ∧
    (∀ tokens, (Lexer.start text.toList).tokenize = .ok tokens →
      SyntaxErrorAt text.toList (tokens.map LocatedToken.token) e ∧
      ∀ e', SyntaxErrorAt text.toList (tokens.map LocatedToken.token) e' →
        e'.position = e.position) ∧
    (text.length < halfWordCount →
      e.position.line < halfWordCount ∧ e.position.column < halfWordCount) := by
  rw [Lexer.tokenize_start]
  rcases errorAt_of_read h with ⟨fault, hfault, hlexical⟩ | ⟨placed, hplaced, hsyntactic⟩
  · rw [hfault]
    refine ⟨fun _ _ => ⟨hlexical, fun e' he' => he'.unique hlexical⟩, fun tokens htokens => ?_,
      fun hlength => ?_⟩
    · cases htokens
    · have hle := hlexical.position_le
      rw [String.length_toList] at hle
      omega
  · rw [hplaced]
    refine ⟨fun _ hfault => ?_, fun tokens htokens => ?_, fun hlength => ?_⟩
    · cases hfault
    · obtain rfl := Except.ok.inj htokens
      rw [List.map_map]
      exact ⟨hsyntactic, fun e' he' => he'.position_eq ⟨placed, hplaced, rfl⟩ hsyntactic⟩
    · have hle := hsyntactic.position_le
      have hone : 1 < halfWordCount := by decide
      rw [String.length_toList] at hle
      omega

/-- On the second line a semicolon is found after a comment, and not the quote in the comment; in
another text a literal comes after an identifier there. -/
theorem parse_error_position_second_line :
    (read "# it's fine\n;" = .error (.parse ⟨.lexical (.unexpectedChar ';'), ⟨2, 1⟩⟩) ∧
      LexicalErrorAt "# it's fine\n;".toList ⟨.lexical (.unexpectedChar ';'), ⟨2, 1⟩⟩ ∧
      ¬LexicalErrorAt "# it's fine\n;".toList ⟨.lexical .unterminatedLiteral, ⟨1, 5⟩⟩) ∧
    read "S -> 'a'\nA 'b'" = .error (.parse ⟨.expectedArrow (.literal "b"), ⟨2, 3⟩⟩) ∧
      SyntaxErrorAt "S -> 'a'\nA 'b'".toList
        [.identifier "S", .arrow, .literal "a", .lineEnd, .identifier "A", .literal "b"]
        ⟨.expectedArrow (.literal "b"), ⟨2, 3⟩⟩ := by
  have hfault : (Lexer.start "# it's fine\n;".toList).tokenize =
      .error (.unexpectedChar ';', ⟨2, 1⟩) := by decide +kernel
  have hlexical : read "# it's fine\n;" =
      .error (.parse ⟨.lexical (.unexpectedChar ';'), ⟨2, 1⟩⟩) := by
    rw [read, parseProductions, hfault]
  have htokens : (Lexer.start "S -> 'a'\nA 'b'".toList).tokenize =
      .ok [⟨.identifier "S", ⟨1, 1⟩⟩, ⟨.arrow, ⟨1, 3⟩⟩, ⟨.literal "a", ⟨1, 6⟩⟩,
        ⟨.lineEnd, ⟨1, 9⟩⟩, ⟨.identifier "A", ⟨2, 1⟩⟩, ⟨.literal "b", ⟨2, 3⟩⟩] := by
    decide +kernel
  have hsyntactic : read "S -> 'a'\nA 'b'" =
      .error (.parse ⟨.expectedArrow (.literal "b"), ⟨2, 3⟩⟩) := by
    rw [read, parseProductions, htokens]
    rfl
  obtain ⟨hat, hunique⟩ := (parse_error_position hlexical).1 _ hfault
  refine ⟨⟨hlexical, hat, fun hother => ?_⟩, hsyntactic,
    ((parse_error_position hsyntactic).2.1 _ htokens).1⟩
  cases hunique _ hother

example : parseProductions "S -> 'a".toList = .error ⟨.lexical .unterminatedLiteral, ⟨1, 6⟩⟩ ∧
    parseProductions "S -> A\nA # \r".toList = .error ⟨.endedBeforeArrow, ⟨2, 1⟩⟩ := by
  decide +kernel

end Grammar

end GrammarSampler
