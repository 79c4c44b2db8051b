import GrammarSampler.Proofs.PlacedReading
import GrammarSampler.Symbol.Basic

/-!
# Tokens of written symbols

A written symbol is one token again: an identifier ends before whatever cannot stand in one, and a
quoted text is read up to its closing quote, as the quotes and backslashes in it are escaped.
`Lexes` says which tokens a text has without their places, and has one lemma for each thing that can
stand first.  Conversely what is read at a place is one of the cases of `LexemeAt`, and every
identifier that is read is one that can be written.
-/

namespace GrammarSampler

/-! ### Characters of identifiers -/

/-- The classes of letters, numbers and blanks have no character in common. -/
theorem not_isBlank_of_isAlphanumeric {c : Char} (h : Text.isAlphanumeric c = true) :
    Text.isBlank c = false := by
  have hdisjoint : ∀ r ∈ Text.alphanumericRanges, ∀ b ∈ Text.blankRanges,
      r.2 < b.1 ∨ b.2 < r.1 := by decide +kernel
  obtain ⟨r, hr, hr₁, hr₂⟩ := Text.inRanges_iff.1 h
  rw [Text.isBlank, Bool.eq_false_iff]
  intro hblank
  obtain ⟨b, hb, hb₁, hb₂⟩ := Text.inRanges_iff.1 hblank
  rcases hdisjoint r hr b hb with hlt | hlt
  · omega
  · omega

theorem not_isBlank_of_isIdentifierChar {c : Char} (h : isIdentifierChar c = true) :
    Text.isBlank c = false := by
  simp only [isIdentifierChar, Bool.or_eq_true, decide_eq_true_eq] at h
  rcases h with ((rfl | rfl) | rfl) | h
  · decide
  · decide
  · decide
  · exact not_isBlank_of_isAlphanumeric h

/-- A character of an identifier is none of those that begin other tokens. -/
theorem ne_of_isIdentifierChar {c d : Char} (h : isIdentifierChar c = true)
    (hd : isIdentifierChar d = false) : c ≠ d := by
  rintro rfl
  rw [h] at hd
  cases hd

/-- The name can stand as an identifier. -/
def IsIdentifier (name : String) : Prop :=
  name.toList ≠ [] ∧ ∀ c ∈ name.toList, isIdentifierChar c = true

instance (name : String) : Decidable (IsIdentifier name) :=
  decidable_of_iff (name.toList ≠ [] ∧ name.toList.all isIdentifierChar = true)
    (by rw [List.all_eq_true, IsIdentifier])

/-- The text does not go on with an identifier. -/
def EndsIdentifier (cs : List Char) : Prop := ∀ c ∈ cs.head?, isIdentifierChar c = false

theorem endsIdentifier_cons {c : Char} (h : isIdentifierChar c = false) (cs : List Char) :
    EndsIdentifier (c :: cs) := by
  intro d hd
  obtain rfl := Option.some.inj hd
  exact h

theorem EndsIdentifier.takeWhile {cs : List Char} (h : EndsIdentifier cs) :
    cs.takeWhile isIdentifierChar = [] := by
  cases cs with
  | nil => rfl
  | cons c cs => rw [List.takeWhile_cons_of_neg (Bool.eq_false_iff.1 (h c rfl))]

theorem EndsIdentifier.dropWhile {cs : List Char} (h : EndsIdentifier cs) :
    cs.dropWhile isIdentifierChar = cs := by
  cases cs with
  | nil => rfl
  | cons c cs => rw [List.dropWhile_cons_of_neg (Bool.eq_false_iff.1 (h c rfl))]

/-! ### What is read at a place -/

/-- What is read where the text begins with `c` and goes on with `cs`. -/
inductive LexemeAt : Char → List Char → Except LexicalFault (Option Token × List Char) → Prop
  | lineEnd {cs : List Char} : LexemeAt '\n' cs (.ok (some .lineEnd, cs))
  | blank {c : Char} {cs : List Char} (hlineEnd : c ≠ '\n') (h : Text.isBlank c = true) :
    LexemeAt c cs (.ok (none, cs))
  | comment {cs : List Char} : LexemeAt '#' cs (.ok (none, cs.dropWhile (· ≠ '\n')))
  | bar {cs : List Char} : LexemeAt '|' cs (.ok (some .bar, cs))
  | arrow {cs : List Char} : LexemeAt '-' ('>' :: cs) (.ok (some .arrow, cs))
  | loneDash {cs : List Char} (h : cs.head? ≠ some '>') : LexemeAt '-' cs (.error .loneDash)
  | literal {q : Char} {cs text rest : List Char} (hquote : q = '\'' ∨ q = '"')
    (h : readLiteral q cs = .ok (text, rest)) :
    LexemeAt q cs (.ok (some (.literal (String.ofList text)), rest))
  | literalFault {q : Char} {cs : List Char} {fault : LexicalFault} (hquote : q = '\'' ∨ q = '"')
    (h : readLiteral q cs = .error fault) : LexemeAt q cs (.error fault)
  | identifier {c : Char} {cs : List Char} (h : isIdentifierChar c = true) :
    LexemeAt c cs (.ok (some (.identifier (String.ofList (c :: cs.takeWhile isIdentifierChar))),
      cs.dropWhile isIdentifierChar))
  | unexpectedChar {c : Char} {cs : List Char} (hblank : Text.isBlank c = false)
    (hidentifier : isIdentifierChar c = false) (h : c ∉ ['\n', '#', '|', '-', '\'', '"']) :
    LexemeAt c cs (.error (.unexpectedChar c))

theorem lexemeAt (c : Char) (cs : List Char) : LexemeAt c cs (readLexeme c cs) := by
  unfold readLexeme
  split
  · next h =>
    subst h
    exact .lineEnd
  next hlineEnd =>
  split
  · next hblank => exact .blank hlineEnd hblank
  next hblank =>
  split
  · next h =>
    subst h
    exact .comment
  next hcomment =>
  split
  · next h =>
    subst h
    exact .bar
  next hbar =>
  split
  · next h =>
    subst h
    split
    · exact .arrow
    · next hne =>
      refine .loneDash fun hhead => ?_
      obtain ⟨later, hlater⟩ := List.head?_eq_some_iff.1 hhead
      exact hne later hlater
  next hdash =>
  split
  · next hquote =>
    have hquote : c = '\'' ∨ c = '"' := by simpa using hquote
    cases h : readLiteral c cs with
    | error fault => exact .literalFault hquote h
    | ok r => exact .literal hquote h
  next hquote =>
  split
  · next hidentifier => exact .identifier hidentifier
  next hidentifier =>
  have hmem : c ∉ ['\n', '#', '|', '-', '\'', '"'] := by
    simpa [hlineEnd, hcomment, hbar, hdash] using hquote
  exact .unexpectedChar (eq_false_of_ne_true hblank) (eq_false_of_ne_true hidentifier) hmem

/-! ### Single tokens -/

theorem readLexeme_of_isIdentifierChar {c : Char} (h : isIdentifierChar c = true)
    (cs : List Char) : readLexeme c cs =
      .ok (some (.identifier (String.ofList (c :: cs.takeWhile isIdentifierChar))),
        cs.dropWhile isIdentifierChar) := by
  have hblank := not_isBlank_of_isIdentifierChar h
  have hnewline : c ≠ '\n' := ne_of_isIdentifierChar h (by decide +kernel)
  have hcomment : c ≠ '#' := ne_of_isIdentifierChar h (by decide +kernel)
  have hbar : c ≠ '|' := ne_of_isIdentifierChar h (by decide +kernel)
  have hdash : c ≠ '-' := ne_of_isIdentifierChar h (by decide +kernel)
  have hquote : ¬(c = '\'' ∨ c = '"') := not_or.2
    ⟨ne_of_isIdentifierChar h (by decide +kernel), ne_of_isIdentifierChar h (by decide +kernel)⟩
  simp [readLexeme, hblank, hnewline, hcomment, hbar, hdash, hquote, h]

/-- A quoted character is read as itself. -/
theorem readLiteral_quotedChar (c : Char) (cs : List Char) :
    readLiteral '\'' (Terminal.quotedChar c ++ cs) =
      (readLiteral '\'' cs).map fun r => (c :: r.1, r.2) := by
  unfold Terminal.quotedChar
  split
  · next h => subst h; rfl
  · next hquote =>
    split
    · next h => subst h; rfl
    · next hbackslash =>
      split
      · next h => subst h; rfl
      · next hnewline =>
        split
        · next h => subst h; rfl
        · rw [List.singleton_append, readLiteral.eq_def]
          split
          · next heq => cases heq
          · next heq => exact absurd (List.cons.inj heq).1 hbackslash
          · next heq => exact absurd (List.cons.inj heq).1 hbackslash
          · next heq =>
            obtain ⟨rfl, rfl⟩ := List.cons.inj heq
            rw [if_neg hquote, if_neg hnewline]

/-- A quoted text is read as itself, whatever is in it. -/
theorem readLiteral_quoted (text cs : List Char) :
    readLiteral '\'' (text.flatMap Terminal.quotedChar ++ '\'' :: cs) = .ok (text, cs) := by
  induction text with
  | nil => simp [readLiteral]
  | cons c text ih =>
    rw [List.flatMap_cons, List.append_assoc, readLiteral_quotedChar, ih]
    rfl

/-! ### Tokens of a text -/

/-- The text falls into the tokens. -/
def Lexes (cs : List Char) (tokens : List Token) : Prop :=
  ∃ placed, tokenize cs = .ok placed ∧ placed.map PlacedToken.token = tokens

/-- These are the tokens that the lexer finds, which counts positions as well. -/
theorem lexes_iff {cs : List Char} {tokens : List Token} : Lexes cs tokens ↔
    ∃ located, (Lexer.start cs).tokenize = .ok located ∧
      located.map LocatedToken.token = tokens := by
  have hlocate (placed : List PlacedToken) :
      (placed.map (PlacedToken.locate cs)).map LocatedToken.token =
        placed.map PlacedToken.token := List.map_map
  rw [Lexes, Lexer.tokenize_start]
  constructor
  · rintro ⟨placed, hplaced, rfl⟩
    rw [hplaced]
    exact ⟨_, rfl, hlocate placed⟩
  · rintro ⟨located, hlocated, rfl⟩
    cases h : tokenize cs with
    | error fault =>
      rw [h] at hlocated
      cases hlocated
    | ok placed =>
      rw [h] at hlocated
      obtain rfl := Except.ok.inj hlocated
      exact ⟨placed, rfl, (hlocate placed).symm⟩

theorem lexes_nil : Lexes [] [] := ⟨[], by rw [tokenize], rfl⟩

section lexes

variable {c : Char} {cs rest : List Char} {tokens : List Token}

theorem tokenize_cons_of_skip (h : readLexeme c cs = .ok (none, rest)) :
    tokenize (c :: cs) = tokenize rest := by
  rw [tokenize]
  split
  · next h' => rw [h] at h'; cases h'
  · next h' => rw [h] at h'; cases h'; rfl
  · next h' => rw [h] at h'; cases h'

theorem tokenize_cons_of_token {token : Token} (h : readLexeme c cs = .ok (some token, rest)) :
    tokenize (c :: cs) = (tokenize rest).map (⟨token, c :: cs⟩ :: ·) := by
  rw [tokenize]
  split
  · next h' => rw [h] at h'; cases h'
  · next h' => rw [h] at h'; cases h'
  · next h' => rw [h] at h'; cases h'; rfl

theorem tokenize_cons_of_fault {fault : LexicalFault} (h : readLexeme c cs = .error fault) :
    tokenize (c :: cs) = .error (fault, c :: cs) := by
  rw [tokenize]
  split
  · next h' => rw [h] at h'; cases h'; rfl
  · next h' => rw [h] at h'; cases h'
  · next h' => rw [h] at h'; cases h'

theorem Lexes.skip (h : readLexeme c cs = .ok (none, rest)) (hrest : Lexes rest tokens) :
    Lexes (c :: cs) tokens := by
  obtain ⟨placed, hplaced, htokens⟩ := hrest
  exact ⟨placed, (tokenize_cons_of_skip h).trans hplaced, htokens⟩

theorem Lexes.cons {token : Token} (h : readLexeme c cs = .ok (some token, rest))
    (hrest : Lexes rest tokens) : Lexes (c :: cs) (token :: tokens) := by
  obtain ⟨placed, hplaced, rfl⟩ := hrest
  refine ⟨⟨token, c :: cs⟩ :: placed, ?_, rfl⟩
  rw [tokenize_cons_of_token h, hplaced]
  rfl

theorem Lexes.space (h : Lexes cs tokens) : Lexes (' ' :: cs) tokens :=
  .skip rfl h

theorem Lexes.lineEnd (h : Lexes cs tokens) : Lexes ('\n' :: cs) (.lineEnd :: tokens) :=
  .cons rfl h

theorem Lexes.bar (h : Lexes cs tokens) : Lexes ('|' :: cs) (.bar :: tokens) :=
  .cons rfl h

theorem Lexes.arrow (h : Lexes cs tokens) : Lexes ('-' :: '>' :: cs) (.arrow :: tokens) :=
  .cons rfl h

theorem Lexes.identifier {name : String} (hname : IsIdentifier name) (hcs : EndsIdentifier cs)
    (h : Lexes cs tokens) : Lexes (name.toList ++ cs) (.identifier name :: tokens) := by
  obtain ⟨hne, hchars⟩ := hname
  obtain ⟨c, name', hcons⟩ := List.exists_cons_of_ne_nil hne
  rw [hcons] at hchars ⊢
  have hname' : ∀ d ∈ name', isIdentifierChar d = true := fun d hd =>
    hchars d (List.mem_cons_of_mem _ hd)
  have hread := readLexeme_of_isIdentifierChar (hchars c List.mem_cons_self) (name' ++ cs)
  rw [List.takeWhile_append_of_pos hname', List.dropWhile_append_of_pos hname', hcs.takeWhile,
    hcs.dropWhile, List.append_nil, ← hcons, String.ofList_toList] at hread
  exact .cons hread h

theorem Lexes.literal (t : Terminal) (h : Lexes cs tokens) :
    Lexes (t.quoted ++ cs) (.literal t.text :: tokens) := by
  have hread : readLexeme '\'' (t.text.toList.flatMap Terminal.quotedChar ++ '\'' :: cs) =
      .ok (some (.literal t.text), cs) := by
    have hquote : readLexeme '\'' (t.text.toList.flatMap Terminal.quotedChar ++ '\'' :: cs) =
        (readLiteral '\'' (t.text.toList.flatMap Terminal.quotedChar ++ '\'' :: cs)).map
          fun r => (some (.literal (String.ofList r.1)), r.2) := rfl
    rw [hquote, readLiteral_quoted]
    simp [Except.map]
  have hquoted : t.quoted ++ cs =
      '\'' :: (t.text.toList.flatMap Terminal.quotedChar ++ '\'' :: cs) := by
    simp [Terminal.quoted]
  rw [hquoted]
  exact .cons hread h

end lexes

/-! ### Symbols -/

namespace Symbol

/-- The token that a written symbol is. -/
def token : Symbol → Token
  | terminal t => .literal t.text
  | nonterminal a => .identifier a.name

/-- A nonterminal has a name that can be read; a terminal may have any text. -/
def Legible : Symbol → Prop
  | terminal _ => True
  | nonterminal a => IsIdentifier a.name

end Symbol

/-- A written symbol is one token. -/
theorem Lexes.symbol {s : Symbol} (hs : s.Legible) {cs : List Char} {tokens : List Token}
    (hcs : EndsIdentifier cs) (h : Lexes cs tokens) :
    Lexes (s.chars ++ cs) (s.token :: tokens) := by
  cases s with
  | terminal t => exact h.literal t
  | nonterminal a => exact h.identifier hs hcs

/-- A written symbol does not end in a blank. -/
theorem exists_chars_eq_append {s : Symbol} (hs : s.Legible) :
    ∃ cs c, s.chars = cs ++ [c] ∧ Text.isBlank c = false := by
  cases s with
  | terminal t => exact ⟨_, '\'', rfl, by decide⟩
  | nonterminal a =>
    obtain ⟨hne, hchars⟩ := hs
    exact ⟨_, _, (List.dropLast_concat_getLast hne).symm,
      not_isBlank_of_isIdentifierChar (hchars _ (List.getLast_mem hne))⟩

/-! ### Identifiers of a text -/

/-- An identifier that is read has a name that can stand as one. -/
def Token.Legible : Token → Prop
  | identifier name => IsIdentifier name
  | _ => True

theorem legible_of_readLexeme {c : Char} {cs rest : List Char} {token : Token}
    (h : readLexeme c cs = .ok (some token, rest)) : token.Legible := by
  have hcase := lexemeAt c cs
  rw [h] at hcase
  cases hcase with
  | lineEnd | bar | arrow | literal => trivial
  | identifier hc =>
    refine ⟨by simp, ?_⟩
    rw [String.toList_ofList]
    exact List.forall_mem_cons.2 ⟨hc, List.all_eq_true.1 List.all_takeWhile⟩

theorem legible_of_tokenize {cs : List Char} {placed : List PlacedToken}
    (h : tokenize cs = .ok placed) : ∀ t ∈ placed, t.token.Legible := by
  fun_induction tokenize cs generalizing placed with
  | case1 => cases h; simp
  | case2 c cs fault hfault => cases h
  | case3 c cs rest hskip _ ih => exact ih h
  | case4 c cs token rest hread _ ih =>
    obtain ⟨placed', hrest, rfl⟩ := exists_of_map_eq_ok h
    exact List.forall_mem_cons.2 ⟨legible_of_readLexeme hread, ih hrest⟩

end GrammarSampler
