import GrammarSampler.Grammar.Reader
import GrammarSampler.Proofs.Lexing

/-!
# Tokens stay on their lines

What is read at one place of a line is the same whether the text ends with the line or goes on with
a line end: a literal cannot go on there, and an identifier and a comment stop there.  So the tokens
of a text are those of its lines, with a line end between two (`tokenize_append_of_ok`), and the
first fault of a text is that of the first line that has one (`tokenize_append_of_error`).
-/

namespace GrammarSampler

/-- The text is at its end or at the end of a line. -/
def EndsLine (cs : List Char) : Prop := ∀ c ∈ cs.head?, c = '\n'

theorem endsLine_nil : EndsLine [] := by
  intro c hc
  cases hc

theorem endsLine_cons (cs : List Char) : EndsLine ('\n' :: cs) := by
  intro c hc
  exact (Option.some.inj hc).symm

theorem EndsLine.cases {cs : List Char} (h : EndsLine cs) :
    cs = [] ∨ ∃ rest, cs = '\n' :: rest := by
  cases cs with
  | nil => exact .inl rfl
  | cons c rest => exact .inr ⟨rest, by rw [h c rfl]⟩

/-! ### What is left of a text -/

theorem suffix_of_readLexeme {c : Char} {cs : List Char} {r : Option Token × List Char}
    (h : readLexeme c cs = .ok r) : r.2 <:+ cs := by
  obtain ⟨used, hcs, -⟩ := exists_lexeme_eq h []
  exact ⟨used, hcs.symm⟩

/-- Every token stands somewhere in the text. -/
theorem suffix_of_mem_tokenize {cs : List Char} {tokens : List PlacedToken}
    (h : tokenize cs = .ok tokens) : ∀ t ∈ tokens, t.here <:+ cs := by
  fun_induction tokenize cs generalizing tokens with
  | case1 => cases h; simp
  | case2 => cases h
  | case3 c cs rest hskip _ ih =>
    exact fun t ht => (ih h t ht).trans ((suffix_of_readLexeme hskip).trans (List.suffix_cons ..))
  | case4 c cs token rest hread _ ih =>
    obtain ⟨later, hlater, rfl⟩ := exists_of_map_eq_ok h
    refine List.forall_mem_cons.2 ⟨List.suffix_rfl, fun t ht => ?_⟩
    exact (ih hlater t ht).trans ((suffix_of_readLexeme hread).trans (List.suffix_cons ..))

theorem exists_of_map_eq_error {ε α β : Type} {x : Except ε α} {f : α → β} {e : ε}
    (h : x.map f = .error e) : x = .error e := by
  cases x with
  | error e' => exact congrArg _ (Except.error.inj h)
  | ok a => cases h

/-- A fault stands somewhere in the text. -/
theorem suffix_of_tokenize_eq_error {cs here : List Char} {fault : LexicalFault}
    (h : tokenize cs = .error (fault, here)) : here <:+ cs := by
  fun_induction tokenize cs with
  | case1 => cases h
  | case2 => cases h; exact List.suffix_rfl
  | case3 c cs rest hskip _ ih =>
    exact (ih h).trans ((suffix_of_readLexeme hskip).trans (List.suffix_cons ..))
  | case4 c cs token rest hread _ ih =>
    have hlater := exists_of_map_eq_error h
    exact (ih hlater).trans ((suffix_of_readLexeme hread).trans (List.suffix_cons ..))

/-! ### What is read on a line -/

section line

variable {cs rest : List Char}

theorem takeWhile_append_of_endsLine {p : Char → Bool} (hp : p '\n' = false) (h : EndsLine rest) :
    (cs ++ rest).takeWhile p = cs.takeWhile p := by
  have hrest : rest.takeWhile p = [] := by
    rcases h.cases with rfl | ⟨rest, rfl⟩
    · rfl
    · simp [hp]
  rw [List.takeWhile_append]
  split
  · next hall => rw [hrest, List.append_nil, (List.takeWhile_prefix p).eq_of_length hall]
  · rfl

theorem dropWhile_append_of_endsLine {p : Char → Bool} (hp : p '\n' = false) (h : EndsLine rest) :
    (cs ++ rest).dropWhile p = cs.dropWhile p ++ rest := by
  have hrest : rest.dropWhile p = rest := by
    rcases h.cases with rfl | ⟨rest, rfl⟩
    · rfl
    · simp [hp]
  rw [List.dropWhile_append]
  split
  · next hall => rw [hrest, List.isEmpty_iff.1 hall, List.nil_append]
  · rfl

/-- A literal ends on its line or is at fault there. -/
theorem readLiteral_append {q : Char} (hq : q ≠ '\n') (hcs : '\n' ∉ cs) (h : EndsLine rest) :
    readLiteral q (cs ++ rest) = (readLiteral q cs).map fun r => (r.1, r.2 ++ rest) := by
  fun_induction readLiteral q cs with
  | case1 =>
    rcases h.cases with rfl | ⟨rest, rfl⟩
    · rfl
    · simp [readLiteral, hq.symm, Except.map]
  | case2 =>
    rcases h.cases with rfl | ⟨rest, rfl⟩
    · rfl
    · simp [readLiteral, unescape?, Except.map]
  | case3 c cs hescape => simp [readLiteral, hescape, Except.map]
  | case4 c cs d hescape ih =>
    have ih := ih fun hmem => hcs (List.mem_cons_of_mem _ (List.mem_cons_of_mem _ hmem))
    simp only [List.cons_append, readLiteral, hescape, ih]
    cases readLiteral q cs <;> rfl
  | case5 cs hlone hpair =>
    have hne : q ≠ '\\' := by
      rintro rfl
      cases cs with
      | nil => exact hlone rfl rfl
      | cons c cs => exact hpair c cs rfl rfl
    rw [List.cons_append, readLiteral_cons hne, if_pos rfl]
    rfl
  | case6 cs => exact absurd List.mem_cons_self hcs
  | case7 c cs hlone hpair hquote hline ih =>
    have hne : c ≠ '\\' := by
      rintro rfl
      cases cs with
      | nil => exact hlone rfl rfl
      | cons c cs => exact hpair c cs rfl rfl
    have ih := ih fun hmem => hcs (List.mem_cons_of_mem _ hmem)
    rw [List.cons_append, readLiteral_cons hne, if_neg hquote, if_neg hline, ih]
    cases readLiteral q cs <;> rfl

/-- What begins on a line ends there. -/
theorem readLexeme_append {c : Char} (hcs : '\n' ∉ c :: cs) (h : EndsLine rest) :
    readLexeme c (cs ++ rest) = (readLexeme c cs).map fun r => (r.1, r.2 ++ rest) := by
  have hc : c ≠ '\n' := fun heq => hcs (heq ▸ List.mem_cons_self)
  have hcs : '\n' ∉ cs := fun hmem => hcs (List.mem_cons_of_mem _ hmem)
  unfold readLexeme
  rw [if_neg hc, if_neg hc]
  split
  · rfl
  split
  · rw [dropWhile_append_of_endsLine (by decide) h]
    rfl
  split
  · rfl
  split
  · cases cs with
    | nil =>
      rcases h.cases with rfl | ⟨rest, rfl⟩
      · rfl
      · rfl
    | cons d cs =>
      rw [List.cons_append]
      by_cases hd : d = '>'
      · subst hd
        rfl
      · simp [hd, Except.map]
  split
  · rw [readLiteral_append hc hcs h]
    cases readLiteral c cs <;> rfl
  split
  · have hp : isIdentifierChar '\n' = false := by decide +kernel
    rw [takeWhile_append_of_endsLine hp h, dropWhile_append_of_endsLine hp h]
    rfl
  · rfl

end line

/-! ### The tokens of a text by its lines -/

/-- The token as it stands where the text goes on with `rest`. -/
def PlacedToken.before (rest : List Char) (t : PlacedToken) : PlacedToken :=
  ⟨t.token, t.here ++ rest⟩

theorem map_token_before (tokens : List PlacedToken) (rest : List Char) :
    (tokens.map (PlacedToken.before rest)).map PlacedToken.token =
      tokens.map PlacedToken.token := by
  rw [List.map_map]
  rfl

section text

variable {line rest : List Char}

theorem not_mem_of_readLexeme {c : Char} {cs : List Char} {r : Option Token × List Char}
    (hline : '\n' ∉ c :: cs) (h : readLexeme c cs = .ok r) : '\n' ∉ r.2 :=
  fun hmem => hline (List.mem_cons_of_mem _ ((suffix_of_readLexeme h).subset hmem))

/-- **The tokens of a line** come before those of the rest of the text. -/
theorem tokenize_append_of_ok {tokens : List PlacedToken} (hline : '\n' ∉ line)
    (h : EndsLine rest) (htokens : tokenize line = .ok tokens) :
    tokenize (line ++ rest) =
      (tokenize rest).map (tokens.map (PlacedToken.before rest) ++ ·) := by
  fun_induction tokenize line generalizing tokens with
  | case1 =>
    cases htokens
    cases htail : tokenize rest <;> simp [htail, Except.map]
  | case2 => cases htokens
  | case3 c cs left hskip _ ih =>
    have happend := readLexeme_append hline h
    rw [hskip] at happend
    rw [List.cons_append, tokenize_cons_of_skip happend]
    exact ih (not_mem_of_readLexeme hline hskip) htokens
  | case4 c cs token left hread _ ih =>
    obtain ⟨later, hlater, rfl⟩ := exists_of_map_eq_ok htokens
    have happend := readLexeme_append hline h
    rw [hread] at happend
    rw [List.cons_append, tokenize_cons_of_token happend,
      ih (not_mem_of_readLexeme hline hread) hlater]
    cases tokenize rest <;> rfl

/-- **The fault of a line** is that of the text from the line on. -/
theorem tokenize_append_of_error {fault : LexicalFault} {here : List Char} (hline : '\n' ∉ line)
    (h : EndsLine rest) (hfault : tokenize line = .error (fault, here)) :
    tokenize (line ++ rest) = .error (fault, here ++ rest) := by
  fun_induction tokenize line with
  | case1 => cases hfault
  | case2 c cs fault' hread =>
    cases hfault
    have happend := readLexeme_append hline h
    rw [hread] at happend
    exact tokenize_cons_of_fault happend
  | case3 c cs left hskip _ ih =>
    have happend := readLexeme_append hline h
    rw [hskip] at happend
    rw [List.cons_append, tokenize_cons_of_skip happend]
    exact ih (not_mem_of_readLexeme hline hskip) hfault
  | case4 c cs token left hread _ ih =>
    have happend := readLexeme_append hline h
    rw [hread] at happend
    rw [List.cons_append, tokenize_cons_of_token happend,
      ih (not_mem_of_readLexeme hline hread) (exists_of_map_eq_error hfault)]
    rfl

theorem tokenize_lineEnd (rest : List Char) :
    tokenize ('\n' :: rest) = (tokenize rest).map (⟨.lineEnd, '\n' :: rest⟩ :: ·) :=
  tokenize_cons_of_token rfl

/-- A line end is read from a line end only. -/
theorem eq_of_readLexeme_lineEnd {c : Char} {cs left : List Char}
    (h : readLexeme c cs = .ok (some .lineEnd, left)) : c = '\n' := by
  have hcase := lexemeAt c cs
  rw [h] at hcase
  cases hcase
  rfl

theorem ne_lineEnd_of_mem_tokenize {tokens : List PlacedToken} (hline : '\n' ∉ line)
    (h : tokenize line = .ok tokens) : ∀ t ∈ tokens, t.token ≠ .lineEnd := by
  fun_induction tokenize line generalizing tokens with
  | case1 => cases h; simp
  | case2 => cases h
  | case3 c cs left hskip _ ih => exact ih (not_mem_of_readLexeme hline hskip) h
  | case4 c cs token left hread _ ih =>
    obtain ⟨later, hlater, rfl⟩ := exists_of_map_eq_ok h
    refine List.forall_mem_cons.2 ⟨?_, ih (not_mem_of_readLexeme hline hread) hlater⟩
    rintro rfl
    exact hline (eq_of_readLexeme_lineEnd hread ▸ List.mem_cons_self)

end text

/-! ### Lines of a text -/

/-- The lines, each up to a line end. -/
def endedLines (lines : List (List Char)) : List Char := lines.flatMap (· ++ ['\n'])

/-- The lines, each after a line end. -/
def furtherLines (lines : List (List Char)) : List Char := lines.flatMap ('\n' :: ·)

section lines

variable {before after : List (List Char)} {line : List Char}

theorem endedLines_cons (line : List Char) (lines : List (List Char)) (rest : List Char) :
    endedLines (line :: lines) ++ rest = line ++ '\n' :: (endedLines lines ++ rest) := by
  simp [endedLines]

theorem furtherLines_cons (line : List Char) (lines : List (List Char)) :
    furtherLines (line :: lines) = '\n' :: (line ++ furtherLines lines) := by
  simp [furtherLines]

theorem endsLine_furtherLines (lines : List (List Char)) : EndsLine (furtherLines lines) := by
  cases lines with
  | nil => exact endsLine_nil
  | cons line lines =>
    rw [furtherLines_cons]
    exact endsLine_cons _

theorem intercalate_cons_lines (line : List Char) (after : List (List Char)) :
    ['\n'].intercalate (line :: after) = line ++ furtherLines after := by
  induction after generalizing line with
  | nil => simp [furtherLines]
  | cons l after ih =>
    rw [List.intercalate_cons_of_ne_nil (List.cons_ne_nil l after), ih, furtherLines_cons,
      List.append_assoc, List.singleton_append]

/-- A text around one of its lines. -/
theorem intercalate_lines (before : List (List Char)) (line : List Char)
    (after : List (List Char)) : ['\n'].intercalate (before ++ line :: after) =
      endedLines before ++ (line ++ furtherLines after) := by
  induction before with
  | nil => exact intercalate_cons_lines line after
  | cons l before ih =>
    rw [List.cons_append, List.intercalate_cons_of_ne_nil (by simp), ih, endedLines_cons,
      List.append_assoc, List.singleton_append]

theorem not_mem_of_mem_splitOn {cs l : List Char} {c : Char} (h : l ∈ cs.splitOn c) : c ∉ l := by
  unfold List.splitOn at h
  induction cs generalizing l with
  | nil =>
    rw [List.splitOnP_nil, List.mem_singleton] at h
    simp [h]
  | cons d cs ih =>
    rw [List.splitOnP_cons_eq_if_modifyHead] at h
    split at h
    · rcases List.mem_cons.1 h with rfl | h
      · exact List.not_mem_nil
      · exact ih h
    · next hd =>
      obtain ⟨first, later, hsplit⟩ :=
        List.exists_cons_of_ne_nil (List.splitOnP_ne_nil (· == c) cs)
      rw [hsplit, List.modifyHead_cons] at h
      rcases List.mem_cons.1 h with rfl | h
      · have hfirst := ih (hsplit ▸ List.mem_cons_self)
        exact List.not_mem_cons_of_ne_of_not_mem (fun heq => hd (by simp [heq])) hfirst
      · exact ih (hsplit ▸ List.mem_cons_of_mem _ h)

/-- Lines with tokens pass a fault on. -/
theorem tokenize_endedLines_of_error {rest here : List Char} {fault : LexicalFault}
    (hbefore : ∀ l ∈ before, '\n' ∉ l) (hlexes : ∀ l ∈ before, ∃ tokens, Lexes l tokens)
    (h : tokenize rest = .error (fault, here)) :
    tokenize (endedLines before ++ rest) = .error (fault, here) := by
  induction before with
  | nil => exact h
  | cons l before ih =>
    obtain ⟨hl, hbefore⟩ := List.forall_mem_cons.1 hbefore
    obtain ⟨⟨_, placed, hplaced, -⟩, hlexes⟩ := List.forall_mem_cons.1 hlexes
    rw [endedLines_cons, tokenize_append_of_ok hl (endsLine_cons _) hplaced, tokenize_lineEnd,
      ih hbefore hlexes]
    rfl

/-- Lines with tokens have tokens together, and those after a line begin with its end. -/
theorem exists_tokenize_furtherLines (hafter : ∀ l ∈ after, '\n' ∉ l)
    (hlexes : ∀ l ∈ after, ∃ tokens, Lexes l tokens) :
    ∃ us, tokenize (furtherLines after) = .ok us ∧ (us = [] ∧ after = [] ∨
      after ≠ [] ∧ ∃ later, us = ⟨.lineEnd, furtherLines after⟩ :: later) := by
  induction after with
  | nil => exact ⟨[], by rw [furtherLines, List.flatMap_nil, tokenize], .inl ⟨rfl, rfl⟩⟩
  | cons l after ih =>
    obtain ⟨hl, hafter⟩ := List.forall_mem_cons.1 hafter
    obtain ⟨⟨_, placed, hplaced, -⟩, hlexes⟩ := List.forall_mem_cons.1 hlexes
    obtain ⟨us, hus, -⟩ := ih hafter hlexes
    rw [furtherLines_cons, tokenize_lineEnd,
      tokenize_append_of_ok hl (endsLine_furtherLines after) hplaced, hus]
    exact ⟨_, rfl, .inr ⟨List.cons_ne_nil _ _, _, rfl⟩⟩

/-! ### Places in a text -/

theorem count_endedLines (hbefore : ∀ l ∈ before, '\n' ∉ l) :
    (endedLines before).count '\n' = before.length := by
  induction before with
  | nil => rfl
  | cons l before ih =>
    obtain ⟨hl, hbefore⟩ := List.forall_mem_cons.1 hbefore
    have hcons := endedLines_cons l before []
    rw [List.append_nil, List.append_nil] at hcons
    rw [hcons, List.count_append, List.count_eq_zero.2 hl, List.count_cons_self, ih hbefore,
      List.length_cons, Nat.zero_add]

theorem endsLine_reverse_endedLines (before : List (List Char)) :
    EndsLine (endedLines before).reverse := by
  rcases List.eq_nil_or_concat before with rfl | ⟨before, l, rfl⟩
  · exact endsLine_nil
  · have hreverse : (endedLines (before ++ [l])).reverse =
        '\n' :: (l.reverse ++ (endedLines before).reverse) := by
      simp [endedLines]
    rw [List.concat_eq_append, hreverse]
    exact endsLine_cons _

/-- The column on a line at which the rest `here` of the line stands. -/
def columnAt (line here : List Char) : Nat := 1 + (line.length - here.length)

/-- The characters after the last line end are those on the line. -/
theorem takeWhile_reverse_endedLines {x : List Char} (before : List (List Char)) (hx : '\n' ∉ x) :
    (endedLines before ++ x).reverse.takeWhile (· ≠ '\n') = x.reverse := by
  have hall : ∀ c ∈ x.reverse, decide (c ≠ '\n') = true := fun c hc =>
    decide_eq_true fun heq => hx (heq ▸ List.mem_reverse.1 hc)
  have hnone : (endedLines before).reverse.takeWhile (· ≠ '\n') = [] := by
    rcases (endsLine_reverse_endedLines before).cases with hnil | ⟨rest, hcons⟩
    · rw [hnil, List.takeWhile_nil]
    · rw [hcons, List.takeWhile_cons_of_neg (by simp)]
  rw [List.reverse_append, List.takeWhile_append_of_pos hall, hnone, List.append_nil]

/-- A place on a line is found by the number of lines before it and its column. -/
theorem position_endedLines {here : List Char} (hbefore : ∀ l ∈ before, '\n' ∉ l)
    (hline : '\n' ∉ line) (hhere : here <:+ line) (tail : List Char) :
    Position.after ((endedLines before ++ (line ++ tail)).take
      ((endedLines before ++ (line ++ tail)).length - (here ++ tail).length)) =
        ⟨before.length + 1, columnAt line here⟩ := by
  obtain ⟨x, rfl⟩ := hhere
  have hx : '\n' ∉ x := fun hmem => hline (List.mem_append_left _ hmem)
  have htake : (endedLines before ++ (x ++ here ++ tail)).take
      ((endedLines before ++ (x ++ here ++ tail)).length - (here ++ tail).length) =
        endedLines before ++ x := by
    rw [List.append_assoc x, ← List.append_assoc]
    exact List.take_left' (Nat.sub_eq_of_eq_add List.length_append).symm
  rw [htake, Position.after, takeWhile_reverse_endedLines before hx, List.length_reverse,
    List.count_append, count_endedLines hbefore, List.count_eq_zero.2 hx, columnAt,
    List.length_append, Nat.add_sub_cancel, Nat.add_zero, Nat.add_comm 1 before.length]

/-- A last line that is not empty counts as a line, the one at which it stands. -/
theorem lineCount_append {before line : List Char} (hline : '\n' ∉ line) (hne : line ≠ []) :
    lineCount (before ++ line) = (Position.after before).line := by
  have hlast : (before ++ line).getLast?.any (· ≠ '\n') = true := by
    rw [List.getLast?_append, List.getLast?_eq_some_getLast hne]
    exact decide_eq_true fun heq => hline (heq ▸ List.getLast_mem hne)
  rw [lineCount, if_pos hlast, List.count_append, List.count_eq_zero.2 hline, Nat.add_zero,
    Nat.add_comm, Position.after]

theorem lineCount_endedLines (hbefore : ∀ l ∈ before, '\n' ∉ l) (hline : '\n' ∉ line)
    (hne : line ≠ []) : lineCount (endedLines before ++ line) = before.length + 1 := by
  rw [lineCount_append hline hne, Position.after, count_endedLines hbefore, Nat.add_comm]

end lines

end GrammarSampler
