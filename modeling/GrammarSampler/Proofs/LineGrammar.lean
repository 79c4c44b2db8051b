import GrammarSampler.Grammar.Reader
import GrammarSampler.Proofs.LineTokens
import Mathlib.Data.List.Forall2

/-!
# The grammar format, line by line

A text is cut at its line ends, and every line has tokens of its own.  It is a line of the format if
it has none, or has an identifier and an arrow before symbols and bars (`IsLine`); then it lists one
production for each alternative (`lineProductions`).  `ReadsAs` says what is made of the lines: the
first line without tokens is reported, or else the first line that is none of the format, or that no
line has a rule; or the productions of all lines together make a grammar or make none.

The reader, which runs over the whole text with one state, does exactly this (`Grammar.read_iff`):
what is expected after a line end is a rule, whatever was read before.
-/

namespace GrammarSampler

/-! ### Lines of the format -/

/-- The symbol that the token is on a right-hand side. -/
def Token.symbol? : Token → Option Symbol
  | identifier name => some (.nonterminal ⟨name⟩)
  | literal text => some (.terminal ⟨text⟩)
  | _ => none

/-- **The tokens of a line of the format**: none, or an identifier and an arrow before symbols and
bars. -/
def IsLine (tokens : List Token) : Prop :=
  tokens = [] ∨ ∃ name rest, tokens = .identifier name :: .arrow :: rest ∧
    ∀ token ∈ rest, token = .bar ∨ token.symbol?.isSome

/-- The alternatives that stand between the bars. -/
def alternativesOf (tokens : List Token) : List (List Symbol) :=
  (tokens.splitOn .bar).map (List.filterMap Token.symbol?)

/-- **The productions that a line lists**, one for each alternative. -/
def lineProductions : List Token → List Production
  | .identifier name :: .arrow :: rest => (alternativesOf rest).map fun rhs => ⟨⟨name⟩, rhs⟩
  | _ => []

/-- What is wrong with the tokens of a line, and in which column.  Where an arrow is missing at the
end of the line, it matters whether the text ends there as well. -/
inductive LineFault (line : List Char) (last : Bool) :
    List PlacedToken → ParseReason → Nat → Prop
  | nonterminal {t later} (h : ∀ name, t.token ≠ .identifier name) :
      LineFault line last (t :: later) (.expectedNonterminal t.token) (columnAt line t.here)
  | arrow {name here t later} (h : t.token ≠ .arrow) :
      LineFault line last (⟨.identifier name, here⟩ :: t :: later) (.expectedArrow t.token)
        (columnAt line t.here)
  | lineEnd {name here} (h : last = false) :
      LineFault line last [⟨.identifier name, here⟩] (.expectedArrow .lineEnd) (columnAt line [])
  | textEnd {name here} (h : last = true) :
      LineFault line last [⟨.identifier name, here⟩] .endedBeforeArrow 1
  | rightHandSide {name here here' before t later} (hbefore : ∀ u ∈ before, u.token ≠ .arrow)
      (h : t.token = .arrow) :
      LineFault line last (⟨.identifier name, here⟩ :: ⟨.arrow, here'⟩ :: (before ++ t :: later))
        .arrowOnRightHandSide (columnAt line t.here)

/-- **What is made of the lines of a text.** -/
inductive ReadsAs (lines : List (List Char)) : Except ReadError Grammar → Prop
  /-- The first line without tokens is at fault. -/
  | lexical {before line after fault here} (hlines : lines = before ++ line :: after)
      (hbefore : ∀ l ∈ before, ∃ tokens, Lexes l tokens)
      (hfault : tokenize line = .error (fault, here)) :
      ReadsAs lines
        (.error (.parse ⟨.lexical fault, ⟨before.length + 1, columnAt line here⟩⟩))
  /-- All lines have tokens, and the first line that is none of the format is at fault. -/
  | syntactic {before line after placed reason column} (hlines : lines = before ++ line :: after)
      (hbefore : ∀ l ∈ before, ∃ tokens, Lexes l tokens ∧ IsLine tokens)
      (hline : tokenize line = .ok placed)
      (hfault : LineFault line after.isEmpty placed reason column)
      (hafter : ∀ l ∈ after, ∃ tokens, Lexes l tokens) :
      ReadsAs lines (.error (.parse ⟨reason, ⟨before.length + 1, column⟩⟩))
  /-- No line has any token. -/
  | noRules (h : ∀ l ∈ lines, Lexes l []) : ReadsAs lines (.error (.parse ⟨.noRules, ⟨1, 1⟩⟩))
  /-- All lines are of the format, and the first left-hand side is the start symbol. -/
  | productions {tokens p ps} (hlexes : List.Forall₂ Lexes lines tokens)
      (hlines : ∀ line ∈ tokens, IsLine line) (hps : tokens.flatMap lineProductions = p :: ps) :
      ReadsAs lines ((Grammar.ofProductions p.lhs (p :: ps)).mapError .grammar)

/-! ### Reading the tokens of a line -/

theorem symbol?_eq_some {token : Token} {s : Symbol} :
    token.symbol? = some s ↔ token = s.token := by
  constructor
  · intro h
    cases token <;> cases h <;> rfl
  · rintro rfl
    cases s <;> rfl

/-- Only symbols and bars are neither arrows nor line ends. -/
theorem bar_or_symbol {token : Token} (harrow : token ≠ .arrow) (hlineEnd : token ≠ .lineEnd) :
    token = .bar ∨ token.symbol?.isSome := by
  cases token with
  | identifier | literal => exact .inr rfl
  | bar => exact .inl rfl
  | arrow => exact absurd rfl harrow
  | lineEnd => exact absurd rfl hlineEnd

theorem alternativesOf_nil : alternativesOf [] = [[]] := rfl

theorem alternativesOf_bar (tokens : List Token) :
    alternativesOf (.bar :: tokens) = [] :: alternativesOf tokens := by
  simp [alternativesOf, List.splitOn, List.splitOnP_cons_eq_if_modifyHead]

theorem alternativesOf_symbol (s : Symbol) (tokens : List Token) :
    alternativesOf (s.token :: tokens) = (alternativesOf tokens).modifyHead (s :: ·) := by
  have hne : s.token ≠ .bar := by cases s <;> simp [Symbol.token]
  have hsymbol : s.token.symbol? = some s := symbol?_eq_some.2 rfl
  obtain ⟨first, later, hsplit⟩ := List.exists_cons_of_ne_nil (List.splitOn_ne_nil .bar tokens)
  unfold List.splitOn at hsplit
  simp [alternativesOf, List.splitOn, List.splitOnP_cons_eq_if_modifyHead, hne, hsplit, hsymbol]

theorem modifyHead_nil_append (alternatives : List (List Symbol)) :
    alternatives.modifyHead ([] ++ ·) = alternatives := by
  cases alternatives <;> rfl

/-- The tokens are at the end of a line, or there are no more. -/
def EndsTokens (us : List PlacedToken) : Prop :=
  us = [] ∨ ∃ here later, us = ⟨.lineEnd, here⟩ :: later

/-- Symbols and bars go on with the alternatives, the first of which has begun with `rhs`. -/
theorem readRules_symbols (a : Nonterminal) (rhs : List Symbol) {placed us : List PlacedToken}
    (hplaced : ∀ t ∈ placed, t.token = .bar ∨ t.token.symbol?.isSome) (hus : EndsTokens us) :
    readRules (.symbol a rhs) (placed ++ us) = (readRules .rule us).map fun ps =>
      ((alternativesOf (placed.map PlacedToken.token)).modifyHead (rhs ++ ·)).map (⟨a, ·⟩) ++
        ps := by
  induction placed generalizing rhs with
  | nil =>
    rcases hus with rfl | ⟨here, later, rfl⟩
    · simp [readRules, alternativesOf_nil, Except.map]
    · simp [readRules, alternativesOf_nil]
  | cons t placed ih =>
    obtain ⟨token, here⟩ := t
    obtain ⟨htoken, hlater⟩ := List.forall_mem_cons.1 hplaced
    rw [List.map_cons]
    rcases htoken with rfl | hsymbol
    · have hrest := ih [] hlater
      rw [modifyHead_nil_append] at hrest
      simp only [List.cons_append, readRules, hrest, alternativesOf_bar]
      cases readRules .rule us <;> simp [Except.map]
    · obtain ⟨s, hs⟩ := Option.isSome_iff_exists.1 hsymbol
      obtain rfl := symbol?_eq_some.1 hs
      have hstep : readRules (.symbol a rhs) (⟨s.token, here⟩ :: (placed ++ us)) =
          readRules (.symbol a (rhs ++ [s])) (placed ++ us) := by
        cases s <;> rfl
      rw [List.cons_append, hstep, ih _ hlater, alternativesOf_symbol, List.modifyHead_modifyHead]
      simp [Function.comp_def]

/-- **A line of the format** gives its productions before those of the lines after it. -/
theorem readRules_line {placed us : List PlacedToken}
    (hline : IsLine (placed.map PlacedToken.token)) (hus : EndsTokens us) :
    readRules .rule (placed ++ us) =
      (readRules .rule us).map (lineProductions (placed.map PlacedToken.token) ++ ·) := by
  rcases hline with hnil | ⟨name, rest, hcons, hrest⟩
  · obtain rfl := List.map_eq_nil_iff.1 hnil
    cases hread : readRules .rule us <;> simp [lineProductions, hread, Except.map]
  · obtain ⟨⟨_, here⟩, placed, rfl, rfl, harrow⟩ := List.map_eq_cons_iff.1 hcons
    obtain ⟨⟨_, here'⟩, placed, rfl, rfl, rfl⟩ := List.map_eq_cons_iff.1 harrow
    have hsymbols : ∀ t ∈ placed, t.token = .bar ∨ t.token.symbol?.isSome := fun t ht =>
      hrest _ (List.mem_map_of_mem ht)
    have hread := readRules_symbols ⟨name⟩ [] hsymbols hus
    rw [modifyHead_nil_append] at hread
    exact hread

/-! ### Reading the lines of the format -/

section productions

variable {line rest : List Char} {before lines : List (List Char)} {tokens : List (List Token)}

theorem readProductions_of_tokenize {cs : List Char} {placed : List PlacedToken}
    (h : tokenize cs = .ok placed) : readProductions cs = readRules .rule placed := by
  rw [readProductions, h]

/-- After a line of the format the reader expects a rule, as it did at the beginning. -/
theorem readProductions_line {tokens : List Token} (hline : '\n' ∉ line)
    (hlexes : Lexes line tokens) (htokens : IsLine tokens) (rest : List Char) :
    readProductions (line ++ '\n' :: rest) =
      (readProductions rest).map (lineProductions tokens ++ ·) := by
  obtain ⟨placed, hplaced, rfl⟩ := hlexes
  have happend := tokenize_append_of_ok hline (endsLine_cons rest) hplaced
  rw [tokenize_lineEnd] at happend
  unfold readProductions
  rw [happend]
  cases tokenize rest with
  | error e => rfl
  | ok us =>
    rw [← map_token_before placed ('\n' :: rest)] at htokens ⊢
    exact readRules_line htokens (.inr ⟨_, us, rfl⟩)

theorem readProductions_lastLine {tokens : List Token} (hlexes : Lexes line tokens)
    (htokens : IsLine tokens) : readProductions line = .ok (lineProductions tokens) := by
  obtain ⟨placed, hplaced, rfl⟩ := hlexes
  have hread := readRules_line htokens (.inl rfl)
  rw [List.append_nil] at hread
  rw [readProductions_of_tokenize hplaced, hread, readRules, Except.map, List.append_nil]

/-- Lines of the format pass a fault on. -/
theorem readProductions_endedLines_of_error {e : ParseReason × List Char}
    (hbefore : ∀ l ∈ before, '\n' ∉ l)
    (hlexes : ∀ l ∈ before, ∃ tokens, Lexes l tokens ∧ IsLine tokens)
    (h : readProductions rest = .error e) :
    readProductions (endedLines before ++ rest) = .error e := by
  induction before with
  | nil => exact h
  | cons l before ih =>
    obtain ⟨hl, hbefore⟩ := List.forall_mem_cons.1 hbefore
    obtain ⟨⟨tokens, hltokens, htokens⟩, hlexes⟩ := List.forall_mem_cons.1 hlexes
    rw [endedLines_cons, readProductions_line hl hltokens htokens, ih hbefore hlexes]
    rfl

/-- **The productions of a text** all of whose lines are of the format are those of its lines. -/
theorem readProductions_lines (hne : lines ≠ []) (hmem : ∀ l ∈ lines, '\n' ∉ l)
    (hlexes : List.Forall₂ Lexes lines tokens) (hlines : ∀ line ∈ tokens, IsLine line) :
    readProductions (['\n'].intercalate lines) = .ok (tokens.flatMap lineProductions) := by
  induction hlexes with
  | nil => exact absurd rfl hne
  | @cons l ts lines tokens hl hrest ih =>
    obtain ⟨hmeml, hmem⟩ := List.forall_mem_cons.1 hmem
    obtain ⟨hts, hlines⟩ := List.forall_mem_cons.1 hlines
    rw [List.flatMap_cons]
    cases hrest with
    | nil =>
      rw [List.flatMap_nil, List.append_nil, List.intercalate_singleton]
      exact readProductions_lastLine hl hts
    | cons hl' hrest =>
      rw [List.intercalate_cons_of_ne_nil (List.cons_ne_nil _ _), List.append_assoc,
        List.singleton_append, readProductions_line hmeml hl hts,
        ih (List.cons_ne_nil _ _) hmem hlines]
      rfl

end productions

/-! ### Faults -/

/-- Symbols and bars do not keep the reader from an arrow after them. -/
theorem readRules_arrow (a : Nonterminal) (rhs : List Symbol) {before : List PlacedToken}
    {t : PlacedToken} (hbefore : ∀ u ∈ before, u.token ≠ .arrow ∧ u.token ≠ .lineEnd)
    (ht : t.token = .arrow) (us : List PlacedToken) :
    readRules (.symbol a rhs) (before ++ t :: us) = .error (.arrowOnRightHandSide, t.here) := by
  induction before generalizing rhs with
  | nil =>
    obtain ⟨_, here⟩ := t
    cases ht
    rfl
  | cons u before ih =>
    obtain ⟨token, here⟩ := u
    obtain ⟨⟨harrow, hlineEnd⟩, hlater⟩ := List.forall_mem_cons.1 hbefore
    cases token with
    | identifier name => exact ih _ hlater
    | literal text => exact ih _ hlater
    | arrow => exact absurd rfl harrow
    | bar =>
      have hstep : readRules (.symbol a rhs) (⟨.bar, here⟩ :: before ++ t :: us) =
          (readRules (.symbol a []) (before ++ t :: us)).map (⟨a, rhs⟩ :: ·) := rfl
      rw [hstep, ih [] hlater]
      rfl
    | lineEnd => exact absurd rfl hlineEnd

section fault

variable {before after : List (List Char)} {line : List Char} {placed us : List PlacedToken}
variable {reason : ParseReason} {column : Nat}

/-- **The fault of a line** is reported, at its line and column. -/
theorem readRules_of_lineFault (hbefore : ∀ l ∈ before, '\n' ∉ l) (hline : '\n' ∉ line)
    (hplaced : tokenize line = .ok placed)
    (hfault : LineFault line after.isEmpty placed reason column)
    (hus : us = [] ∧ after = [] ∨
      after ≠ [] ∧ ∃ later, us = ⟨.lineEnd, furtherLines after⟩ :: later) :
    ∃ here, readRules .rule (placed.map (PlacedToken.before (furtherLines after)) ++ us) =
        .error (reason, here) ∧
      reason.position (endedLines before ++ (line ++ furtherLines after)) here =
        ⟨before.length + 1, column⟩ := by
  have hlineEnd := ne_lineEnd_of_mem_tokenize hline hplaced
  have hplace (here : List Char) (h : here <:+ line) :=
    position_endedLines hbefore hline h (furtherLines after)
  have hsuffix := suffix_of_mem_tokenize hplaced
  cases hfault with
  | @nonterminal t later h =>
    refine ⟨_, ?_, hplace t.here (hsuffix t List.mem_cons_self)⟩
    obtain ⟨token, here⟩ := t
    cases token with
    | identifier name => exact absurd rfl (h name)
    | lineEnd => exact absurd rfl (hlineEnd _ List.mem_cons_self)
    | literal | arrow | bar => rfl
  | @arrow name here t later h =>
    refine ⟨_, ?_, hplace t.here (hsuffix t (List.mem_cons_of_mem _ List.mem_cons_self))⟩
    obtain ⟨token, here'⟩ := t
    cases token with
    | arrow => exact absurd rfl h
    | identifier | literal | bar | lineEnd => rfl
  | @lineEnd name here h =>
    rcases hus with ⟨-, rfl⟩ | ⟨-, later, rfl⟩
    · cases h
    · exact ⟨_, rfl, hplace [] List.nil_suffix⟩
  | @textEnd name here h =>
    obtain rfl := List.isEmpty_iff.1 h
    obtain ⟨rfl, -⟩ | ⟨hne, -⟩ := hus
    · have hne : line ≠ [] := by
        rintro rfl
        rw [tokenize] at hplaced
        cases hplaced
      refine ⟨[], rfl, ?_⟩
      rw [ParseReason.position, furtherLines, List.flatMap_nil, List.append_nil,
        lineCount_endedLines hbefore hline hne, Nat.max_eq_right (Nat.le_add_left 1 _)]
    · exact absurd rfl hne
  | @rightHandSide name here here' symbols t later hsymbols h =>
    refine ⟨_, ?_, hplace t.here (hsuffix t (by simp))⟩
    have hbetween : ∀ u ∈ symbols.map (PlacedToken.before (furtherLines after)),
        u.token ≠ .arrow ∧ u.token ≠ .lineEnd := by
      intro u hu
      obtain ⟨v, hv, rfl⟩ := List.mem_map.1 hu
      exact ⟨hsymbols v hv, hlineEnd v (by simp [hv])⟩
    have hread := readRules_arrow ⟨name⟩ [] (t := t.before (furtherLines after)) hbetween h
      (later.map (PlacedToken.before (furtherLines after)) ++ us)
    simpa [PlacedToken.before, readRules] using hread

end fault

/-- The list has the property throughout, or there is a first place where it fails. -/
theorem forall_or_exists_first {α : Type} (p : α → Prop) (l : List α) :
    (∀ a ∈ l, p a) ∨ ∃ before a after, l = before ++ a :: after ∧ (∀ b ∈ before, p b) ∧ ¬p a := by
  induction l with
  | nil => exact .inl (List.forall_mem_nil p)
  | cons a l ih =>
    by_cases ha : p a
    · rcases ih with hall | ⟨before, b, after, rfl, hbefore, hb⟩
      · exact .inl (List.forall_mem_cons.2 ⟨ha, hall⟩)
      · exact .inr ⟨a :: before, b, after, rfl, List.forall_mem_cons.2 ⟨ha, hbefore⟩, hb⟩
    · exact .inr ⟨[], a, l, rfl, List.forall_mem_nil p, ha⟩

/-- A line that is none of the format has a fault. -/
theorem exists_lineFault {placed : List PlacedToken} (line : List Char) (last : Bool)
    (hlineEnd : ∀ t ∈ placed, t.token ≠ .lineEnd) (h : ¬IsLine (placed.map PlacedToken.token)) :
    ∃ reason column, LineFault line last placed reason column := by
  match placed with
  | [] => exact absurd (.inl rfl) h
  | [t] =>
    by_cases hname : ∃ name, t.token = .identifier name
    · obtain ⟨_, here⟩ := t
      obtain ⟨name, rfl⟩ := hname
      cases last with
      | false => exact ⟨_, _, .lineEnd rfl⟩
      | true => exact ⟨_, _, .textEnd rfl⟩
    · exact ⟨_, _, .nonterminal (not_exists.1 hname)⟩
  | t :: u :: later =>
    by_cases hname : ∃ name, t.token = .identifier name
    · obtain ⟨_, here⟩ := t
      obtain ⟨name, rfl⟩ := hname
      by_cases harrow : u.token = .arrow
      · obtain ⟨_, here'⟩ := u
        obtain rfl := harrow
        rcases forall_or_exists_first (·.token ≠ .arrow) later with
          hall | ⟨symbols, t, later, rfl, hsymbols, ht⟩
        · refine absurd (.inr ⟨name, later.map PlacedToken.token, rfl, ?_⟩) h
          intro token htoken
          obtain ⟨v, hv, rfl⟩ := List.mem_map.1 htoken
          exact bar_or_symbol (hall v hv) (hlineEnd v (by simp [hv]))
        · exact ⟨_, _, .rightHandSide hsymbols (not_not.1 ht)⟩
      · exact ⟨_, _, .arrow harrow⟩
    · exact ⟨_, _, .nonterminal (not_exists.1 hname)⟩

/-! ### The whole text -/

theorem lineProductions_ne_nil {tokens : List Token} (h : IsLine tokens) (hne : tokens ≠ []) :
    lineProductions tokens ≠ [] := by
  obtain rfl | ⟨name, rest, rfl, -⟩ := h
  · exact absurd rfl hne
  · simp [lineProductions, alternativesOf, List.splitOn_ne_nil]

/-- Something is made of any lines. -/
theorem exists_readsAs {lines : List (List Char)} (hmem : ∀ l ∈ lines, '\n' ∉ l) :
    ∃ r, ReadsAs lines r := by
  -- a line without tokens comes first, then a line that is none of the format
  rcases forall_or_exists_first (fun l => ∃ tokens, Lexes l tokens) lines with
    hlexes | ⟨before, line, after, rfl, hbefore, hline⟩
  swap
  · cases hfault : tokenize line with
    | error e => exact ⟨_, .lexical rfl hbefore hfault⟩
    | ok placed => exact absurd ⟨_, placed, hfault, rfl⟩ hline
  rcases forall_or_exists_first (fun l => ∃ tokens, Lexes l tokens ∧ IsLine tokens) lines with
    hlines | ⟨before, line, after, rfl, hbefore, hline⟩
  swap
  · obtain ⟨_, placed, hplaced, rfl⟩ := hlexes line (by simp)
    have hnot : ¬IsLine (placed.map PlacedToken.token) := fun h =>
      hline ⟨_, ⟨placed, hplaced, rfl⟩, h⟩
    obtain ⟨reason, column, hfault⟩ := exists_lineFault line after.isEmpty
      (ne_lineEnd_of_mem_tokenize (hmem line (by simp)) hplaced) hnot
    exact ⟨_, .syntactic rfl hbefore hplaced hfault fun l hl => hlexes l (by simp [hl])⟩
  choose! tokensOf htokensOf using hlines
  cases hps : (lines.map tokensOf).flatMap lineProductions with
  | nil =>
    refine ⟨_, .noRules fun l hl => ?_⟩
    obtain ⟨htokens, hline⟩ := htokensOf l hl
    have hnil : lineProductions (tokensOf l) = [] :=
      List.flatMap_eq_nil_iff.1 hps _ (List.mem_map_of_mem hl)
    by_cases hne : tokensOf l = []
    · exact hne ▸ htokens
    · exact absurd hnil (lineProductions_ne_nil hline hne)
  | cons p ps =>
    have hall : List.Forall₂ Lexes lines (lines.map tokensOf) :=
      List.forall₂_map_right_iff.2 (List.forall₂_same.2 fun l hl => (htokensOf l hl).1)
    exact ⟨_, .productions hall (List.forall_mem_map.2 fun l hl => (htokensOf l hl).2) hps⟩

section read

variable {text : String} {r : Except ReadError Grammar} {g : Grammar}

theorem read_of_readProductions_error {reason : ParseReason} {here : List Char}
    (h : readProductions text.toList = .error (reason, here)) :
    Grammar.read text = .error (.parse ⟨reason, reason.position text.toList here⟩) := by
  rw [Grammar.read_eq, h]

theorem read_of_readProductions_cons {p : Production} {ps : List Production}
    (h : readProductions text.toList = .ok (p :: ps)) :
    Grammar.read text = (Grammar.ofProductions p.lhs (p :: ps)).mapError .grammar := by
  rw [Grammar.read_eq, h]

/-- What is made of the lines is read from the text. -/
theorem ReadsAs.read_eq (h : ReadsAs (text.toList.splitOn '\n') r) : Grammar.read text = r := by
  have htext : ['\n'].intercalate (text.toList.splitOn '\n') = text.toList :=
    List.intercalate_splitOn '\n'
  have hmem : ∀ l ∈ text.toList.splitOn '\n', '\n' ∉ l := fun _ => not_mem_of_mem_splitOn
  cases h with
  | @lexical before line after fault here hlines hbefore hfault =>
    rw [hlines, intercalate_lines] at htext
    rw [hlines, List.forall_mem_append, List.forall_mem_cons] at hmem
    obtain ⟨hmem, hline, -⟩ := hmem
    have hrest := tokenize_append_of_error hline (endsLine_furtherLines after) hfault
    have hread := tokenize_endedLines_of_error hmem hbefore hrest
    have hplace := position_endedLines hmem hline (suffix_of_tokenize_eq_error hfault)
      (furtherLines after)
    rw [htext] at hread hplace
    have hproductions : readProductions text.toList =
        .error (.lexical fault, here ++ furtherLines after) := by
      rw [readProductions, hread]
    rw [read_of_readProductions_error hproductions, ← hplace]
    rfl
  | @syntactic before line after placed reason column hlines hbefore hplaced hfault hafter =>
    rw [hlines, intercalate_lines] at htext
    rw [hlines, List.forall_mem_append, List.forall_mem_cons] at hmem
    obtain ⟨hmem, hline, hmemafter⟩ := hmem
    obtain ⟨us, hus, hends⟩ := exists_tokenize_furtherLines hmemafter hafter
    obtain ⟨here, hread, hplace⟩ := readRules_of_lineFault hmem hline hplaced hfault hends
    have hrest := tokenize_append_of_ok hline (endsLine_furtherLines after) hplaced
    rw [hus] at hrest
    have hproductions := readProductions_endedLines_of_error hmem hbefore
      ((readProductions_of_tokenize hrest).trans hread)
    rw [htext] at hproductions hplace
    rw [read_of_readProductions_error hproductions, hplace]
  | noRules h =>
    have hlexes : List.Forall₂ Lexes (text.toList.splitOn '\n')
        ((text.toList.splitOn '\n').map fun _ => []) :=
      List.forall₂_map_right_iff.2 (List.forall₂_same.2 h)
    have hproductions := readProductions_lines (List.splitOn_ne_nil _ _) hmem hlexes
      (List.forall_mem_map.2 fun _ _ => .inl rfl)
    have hnil : ((text.toList.splitOn '\n').map fun _ => []).flatMap lineProductions = [] := by
      simp [lineProductions]
    rw [htext, hnil] at hproductions
    rw [Grammar.read_eq, hproductions]
  | productions hlexes hlines hps =>
    have hproductions := readProductions_lines (List.splitOn_ne_nil _ _) hmem hlexes hlines
    rw [htext, hps] at hproductions
    exact read_of_readProductions_cons hproductions

end read

end GrammarSampler
