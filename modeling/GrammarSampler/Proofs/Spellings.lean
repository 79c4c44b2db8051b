import GrammarSampler.Proofs.LineTokens

/-!
# What the lexer meets

Every token is written in one of a few ways (`Token.Spelled`), and what is no token begins with a
character, a dash or a literal that is at fault (`FaultAt`).  A step of the lexer passes a blank, a
whole comment or a whole token (`Lexeme`), in front of what follows it in the text.

So the lexer can be followed to a place in a text (`Reaches`): what it reads before, it reads as
well where the text stops there (`Reaches.exists_before`).  It stops at a fault exactly if it
reaches one (`tokenize_eq_error_iff`).
-/

namespace GrammarSampler

/-! ### Spellings -/

/-- What stands between the quotes of a literal, and the text that it stands for. -/
inductive LiteralBody (quote : Char) : List Char → List Char → Prop
  | nil : LiteralBody quote [] []
  | escape {c d : Char} {body text : List Char} (h : unescape? c = some d)
    (hbody : LiteralBody quote body text) : LiteralBody quote ('\\' :: c :: body) (d :: text)
  | char {c : Char} {body text : List Char} (h : c ≠ quote ∧ c ≠ '\\' ∧ c ≠ '\n')
    (hbody : LiteralBody quote body text) : LiteralBody quote (c :: body) (c :: text)

/-- The characters that a token is written with. -/
inductive Token.Spelled : Token → List Char → Prop
  | identifier {name : String} (h : IsIdentifier name) : Spelled (.identifier name) name.toList
  | literal {quote : Char} {body : List Char} {text : String} (hquote : quote = '\'' ∨ quote = '"')
    (hbody : LiteralBody quote body text.toList) :
    Spelled (.literal text) (quote :: (body ++ [quote]))
  | arrow : Spelled .arrow ['-', '>']
  | bar : Spelled .bar ['|']
  | lineEnd : Spelled .lineEnd ['\n']

/-- **The text begins with something that is no token**, nor a blank or a comment. -/
inductive FaultAt : List Char → LexicalFault → Prop
  /-- No token begins with the character. -/
  | unexpectedChar {c : Char} {rest : List Char} (hblank : Text.isBlank c = false)
    (hidentifier : isIdentifierChar c = false)
    (h : c ∉ ['\n', '#', '|', '-', '\'', '"']) : FaultAt (c :: rest) (.unexpectedChar c)
  /-- A dash without the rest of an arrow. -/
  | loneDash {rest : List Char} (h : rest.head? ≠ some '>') : FaultAt ('-' :: rest) .loneDash
  /-- The literal is not closed on its line. -/
  | unterminatedLiteral {quote : Char} {body text rest : List Char}
    (hquote : quote = '\'' ∨ quote = '"') (hbody : LiteralBody quote body text)
    (h : EndsLine rest) : FaultAt (quote :: (body ++ rest)) .unterminatedLiteral
  /-- In the literal there is a backslash before nothing that it can stand before. -/
  | invalidEscape {quote : Char} {body text rest : List Char}
    (hquote : quote = '\'' ∨ quote = '"') (hbody : LiteralBody quote body text)
    (h : ∀ c ∈ rest.head?, unescape? c = none) :
    FaultAt (quote :: (body ++ '\\' :: rest)) .invalidEscape

theorem Token.Spelled.ne_nil {token : Token} {written : List Char} (h : token.Spelled written) :
    written ≠ [] := by
  cases h with
  | identifier h => exact h.1
  | literal | arrow | bar | lineEnd => exact List.cons_ne_nil _ _

theorem FaultAt.ne_nil {here : List Char} {fault : LexicalFault} (h : FaultAt here fault) :
    here ≠ [] := by
  cases h <;> exact List.cons_ne_nil _ _

/-! ### Literals -/

section literal

variable {q : Char} {cs : List Char}

theorem readLiteral_body {body text : List Char} (hbody : LiteralBody q body text)
    (rest : List Char) :
    readLiteral q (body ++ rest) = (readLiteral q rest).map fun r => (text ++ r.1, r.2) := by
  induction hbody with
  | nil => cases h : readLiteral q rest <;> simp [h, Except.map]
  | escape h _ ih =>
    simp only [List.cons_append, readLiteral, h, ih]
    cases readLiteral q rest <;> rfl
  | char h _ ih =>
    obtain ⟨hquote, hbackslash, hline⟩ := h
    rw [List.cons_append, readLiteral_cons hbackslash, if_neg hquote, if_neg hline, ih]
    cases readLiteral q rest <;> rfl

/-- A literal is read up to its closing quote. -/
theorem readLiteral_closed (hq : q = '\'' ∨ q = '"') {body text : List Char}
    (hbody : LiteralBody q body text) (rest : List Char) :
    readLiteral q (body ++ q :: rest) = .ok (text, rest) := by
  have hquote : readLiteral q (q :: rest) = .ok ([], rest) := by
    rcases hq with rfl | rfl <;> rfl
  rw [readLiteral_body hbody, hquote]
  exact congrArg (fun text => Except.ok (text, rest)) (List.append_nil text)

theorem exists_literalBody_of_ok {r : List Char × List Char}
    (h : readLiteral q cs = .ok r) : ∃ body, cs = body ++ q :: r.2 ∧ LiteralBody q body r.1 := by
  fun_induction readLiteral q cs generalizing r with
  | case1 | case2 | case3 | case6 => cases h
  | case4 c cs d hescape ih =>
    obtain ⟨s, hs, rfl⟩ := exists_of_map_eq_ok h
    obtain ⟨body, rfl, hbody⟩ := ih hs
    exact ⟨'\\' :: c :: body, rfl, .escape hescape hbody⟩
  | case5 cs =>
    cases h
    exact ⟨[], rfl, .nil⟩
  | case7 c cs hlone hpair hquote hline ih =>
    obtain ⟨s, hs, rfl⟩ := exists_of_map_eq_ok h
    obtain ⟨body, rfl, hbody⟩ := ih hs
    have hbackslash : c ≠ '\\' := by
      rintro rfl
      obtain ⟨d, ds, heq⟩ := List.exists_cons_of_ne_nil (l := body ++ q :: s.2) (by simp)
      exact hpair d ds rfl heq
    exact ⟨c :: body, rfl, .char ⟨hquote, hbackslash, hline⟩ hbody⟩

theorem faultAt_of_readLiteral (hq : q = '\'' ∨ q = '"') {fault : LexicalFault}
    (h : readLiteral q cs = .error fault) : FaultAt (q :: cs) fault := by
  -- what is passed before the fault is the beginning of a literal
  suffices hfault : ∃ body text rest, cs = body ++ rest ∧ LiteralBody q body text ∧
      (fault = .unterminatedLiteral ∧ EndsLine rest ∨ fault = .invalidEscape ∧
        ∃ later, rest = '\\' :: later ∧ ∀ c ∈ later.head?, unescape? c = none) by
    obtain ⟨body, text, rest, rfl, hbody, ⟨rfl, hrest⟩ | ⟨rfl, later, rfl, hlater⟩⟩ := hfault
    · exact .unterminatedLiteral hq hbody hrest
    · exact .invalidEscape hq hbody hlater
  fun_induction readLiteral q cs with
  | case1 =>
    cases h
    exact ⟨[], [], [], rfl, .nil, .inl ⟨rfl, endsLine_nil⟩⟩
  | case2 =>
    cases h
    exact ⟨[], [], ['\\'], rfl, .nil, .inr ⟨rfl, [], rfl, by simp⟩⟩
  | case3 c cs hescape =>
    cases h
    exact ⟨[], [], _, rfl, .nil, .inr ⟨rfl, c :: cs, rfl, by simpa using hescape⟩⟩
  | case4 c cs d hescape ih =>
    obtain ⟨body, text, rest, rfl, hbody, hrest⟩ := ih (exists_of_map_eq_error h)
    exact ⟨'\\' :: c :: body, d :: text, rest, rfl, .escape hescape hbody, hrest⟩
  | case5 => cases h
  | case6 cs =>
    cases h
    exact ⟨[], [], _, rfl, .nil, .inl ⟨rfl, endsLine_cons cs⟩⟩
  | case7 c cs hlone hpair hquote hline ih =>
    have hbackslash : c ≠ '\\' := by
      rintro rfl
      cases cs with
      | nil => exact hlone rfl rfl
      | cons d cs => exact hpair d cs rfl rfl
    obtain ⟨body, text, rest, rfl, hbody, hrest⟩ := ih (exists_of_map_eq_error h)
    exact ⟨c :: body, c :: text, rest, rfl, .char ⟨hquote, hbackslash, hline⟩ hbody, hrest⟩

end literal

/-! ### What is read in one step -/

/-- **What is passed in one step**, before the text `rest`: a blank, a comment with all the rest of
its line, or a token.  An identifier is passed as a whole. -/
inductive Lexeme (rest : List Char) : Option Token → List Char → Prop
  | blank {c : Char} (hlineEnd : c ≠ '\n') (h : Text.isBlank c = true) : Lexeme rest none [c]
  | comment {body : List Char} (hbody : '\n' ∉ body) (h : EndsLine rest) :
    Lexeme rest none ('#' :: body)
  | token {token : Token} {written : List Char} (h : token.Spelled written)
    (hends : ∀ name, token = .identifier name → EndsIdentifier rest) :
    Lexeme rest (some token) written

section lexeme

variable {c q : Char} {cs rest : List Char}

theorem readLexeme_quote (h : q = '\'' ∨ q = '"') (cs : List Char) : readLexeme q cs =
    (readLiteral q cs).map fun r => (some (.literal (String.ofList r.1)), r.2) := by
  rcases h with rfl | rfl <;> rfl

theorem endsLine_dropWhile (cs : List Char) : EndsLine (cs.dropWhile (· ≠ '\n')) := by
  intro c hc
  have hhead := List.head?_dropWhile_not (· ≠ '\n') cs
  rw [hc] at hhead
  simpa using hhead

theorem endsIdentifier_dropWhile (cs : List Char) :
    EndsIdentifier (cs.dropWhile isIdentifierChar) := by
  intro c hc
  have hhead := List.head?_dropWhile_not isIdentifierChar cs
  rw [hc] at hhead
  simpa using hhead

/-- The lexer reads a lexeme. -/
theorem exists_lexeme_of_readLexeme {token : Option Token}
    (h : readLexeme c cs = .ok (token, rest)) :
    ∃ written, c :: cs = written ++ rest ∧ Lexeme rest token written := by
  have hlegible : ∀ t, token = some t → t.Legible := by
    rintro t rfl
    exact legible_of_readLexeme h
  have hcase := lexemeAt c cs
  rw [h] at hcase
  cases hcase with
  | lineEnd => exact ⟨['\n'], rfl, .token .lineEnd (by simp)⟩
  | blank hlineEnd hblank => exact ⟨[c], rfl, .blank hlineEnd hblank⟩
  | comment =>
    refine ⟨'#' :: cs.takeWhile (· ≠ '\n'), ?_, .comment (fun hmem => ?_) (endsLine_dropWhile cs)⟩
    · rw [List.cons_append, List.takeWhile_append_dropWhile]
    · simpa using List.all_eq_true.1 List.all_takeWhile _ hmem
  | bar => exact ⟨['|'], rfl, .token .bar (by simp)⟩
  | arrow => exact ⟨['-', '>'], rfl, .token .arrow (by simp)⟩
  | @literal _ _ text _ hquote hr =>
    obtain ⟨body, rfl, hbody⟩ := exists_literalBody_of_ok hr
    rw [← String.toList_ofList (l := text)] at hbody
    exact ⟨c :: (body ++ [c]), by simp, .token (.literal hquote hbody) (by simp)⟩
  | identifier hc =>
    refine ⟨_, ?_, .token (.identifier (hlegible _ rfl)) fun _ _ => endsIdentifier_dropWhile cs⟩
    rw [String.toList_ofList, List.cons_append, List.takeWhile_append_dropWhile]

/-- A lexeme is read as such. -/
theorem Lexeme.exists_readLexeme {token : Option Token} {written : List Char}
    (h : Lexeme rest token written) :
    ∃ c used, written = c :: used ∧ readLexeme c (used ++ rest) = .ok (token, rest) := by
  cases h with
  | @blank c hlineEnd h =>
    refine ⟨c, [], rfl, ?_⟩
    unfold readLexeme
    rw [if_neg hlineEnd, if_pos h, List.nil_append]
  | @comment body hbody h =>
    have hall : ∀ c ∈ body, decide (c ≠ '\n') = true := fun c hc => by
      simpa using fun heq : c = '\n' => hbody (heq ▸ hc)
    have hrest : (body ++ rest).dropWhile (· ≠ '\n') = rest := by
      rw [List.dropWhile_append_of_pos hall]
      rcases h.cases with rfl | ⟨later, rfl⟩ <;> rfl
    exact ⟨'#', body, rfl, congrArg (fun left => Except.ok (none, left)) hrest⟩
  | token h hends =>
    cases h with
    | arrow => exact ⟨'-', ['>'], rfl, rfl⟩
    | bar => exact ⟨'|', [], rfl, rfl⟩
    | lineEnd => exact ⟨'\n', [], rfl, rfl⟩
    | @literal quote body text hquote hbody =>
      refine ⟨quote, body ++ [quote], rfl, ?_⟩
      rw [readLexeme_quote hquote, List.append_assoc, List.singleton_append,
        readLiteral_closed hquote hbody]
      exact congrArg (fun text => Except.ok (some (Token.literal text), rest))
        String.ofList_toList
    | @identifier name h =>
      obtain ⟨hne, hchars⟩ := h
      have hrest := hends name rfl
      obtain ⟨c, used, hcons⟩ := List.exists_cons_of_ne_nil hne
      rw [hcons] at hchars
      obtain ⟨hc, hused⟩ := List.forall_mem_cons.1 hchars
      refine ⟨c, used, hcons, ?_⟩
      rw [readLexeme_of_isIdentifierChar hc, List.takeWhile_append_of_pos hused,
        List.dropWhile_append_of_pos hused, hrest.takeWhile, hrest.dropWhile, List.append_nil,
        ← hcons, String.ofList_toList]

/-- A lexeme is one as well if the text stops somewhere after it. -/
theorem Lexeme.of_prefix {stop : List Char} {token : Option Token} {written : List Char}
    (h : Lexeme rest token written) (hstop : stop <+: rest) : Lexeme stop token written := by
  have hhead : ∀ c ∈ stop.head?, c ∈ rest.head? := by
    obtain ⟨later, rfl⟩ := hstop
    intro c hc
    rw [List.head?_append, hc]
    rfl
  cases h with
  | blank hlineEnd h => exact .blank hlineEnd h
  | comment hbody h => exact .comment hbody fun c hc => h c (hhead c hc)
  | token h hends => exact .token h fun name heq c hc => hends name heq c (hhead c hc)

/-- What cannot be read is at fault. -/
theorem faultAt_of_readLexeme {fault : LexicalFault} (h : readLexeme c cs = .error fault) :
    FaultAt (c :: cs) fault := by
  have hcase := lexemeAt c cs
  rw [h] at hcase
  cases hcase with
  | loneDash hhead => exact .loneDash hhead
  | literalFault hquote hr => exact faultAt_of_readLiteral hquote hr
  | unexpectedChar hblank hidentifier hmem => exact .unexpectedChar hblank hidentifier hmem

/-- What is at fault cannot be read. -/
theorem FaultAt.exists_readLexeme {here : List Char} {fault : LexicalFault}
    (h : FaultAt here fault) : ∃ c cs, here = c :: cs ∧ readLexeme c cs = .error fault := by
  cases h with
  | @unexpectedChar c rest hblank hidentifier hmem =>
    refine ⟨c, rest, rfl, ?_⟩
    simp only [List.mem_cons, List.not_mem_nil, or_false, not_or] at hmem
    simp [readLexeme, hblank, hidentifier, hmem]
  | @loneDash rest hhead =>
    refine ⟨'-', rest, rfl, ?_⟩
    have hblank : ¬Text.isBlank '-' = true := by decide +kernel
    unfold readLexeme
    rw [if_neg (by decide), if_neg hblank, if_neg (by decide), if_neg (by decide), if_pos rfl]
    split
    · exact absurd rfl hhead
    · rfl
  | @unterminatedLiteral quote body text rest hquote hbody hrest =>
    refine ⟨quote, body ++ rest, rfl, ?_⟩
    have hfault : readLiteral quote rest = .error .unterminatedLiteral := by
      rcases hrest.cases with rfl | ⟨later, rfl⟩ <;> rcases hquote with rfl | rfl <;> rfl
    rw [readLexeme_quote hquote, readLiteral_body hbody, hfault]
    rfl
  | @invalidEscape quote body text rest hquote hbody hescape =>
    refine ⟨quote, body ++ '\\' :: rest, rfl, ?_⟩
    have hfault : readLiteral quote ('\\' :: rest) = .error .invalidEscape := by
      cases rest with
      | nil => rfl
      | cons c rest => rw [readLiteral, hescape c rfl]
    rw [readLexeme_quote hquote, readLiteral_body hbody, hfault]
    rfl

/-- No line end is skipped. -/
theorem Lexeme.not_mem {written : List Char} (h : Lexeme rest none written) : '\n' ∉ written := by
  cases h with
  | blank hlineEnd => exact fun hmem => hlineEnd (List.mem_singleton.1 hmem).symm
  | comment hbody => exact List.not_mem_cons_of_ne_of_not_mem (by decide) hbody

end lexeme

/-! ### The way to a place -/

/-- **The tokens that are passed** in the text `cs` on the way to its part `here`.  Blanks and
comments are skipped; the place is in none of them, nor inside a token. -/
inductive Reaches (here : List Char) : List Char → List Token → Prop
  | here : Reaches here here []
  | skip {written rest : List Char} {tokens : List Token} (h : Lexeme rest none written)
    (hrest : Reaches here rest tokens) : Reaches here (written ++ rest) tokens
  | token {token : Token} {written rest : List Char} {tokens : List Token}
    (h : Lexeme rest (some token) written) (hrest : Reaches here rest tokens) :
    Reaches here (written ++ rest) (token :: tokens)

section reaches

variable {cs here : List Char} {tokens : List Token}

/-- The text before the place has the tokens that have been passed. -/
theorem Reaches.exists_before (h : Reaches here cs tokens) :
    ∃ before, cs = before ++ here ∧ Lexes before tokens := by
  induction h with
  | here => exact ⟨[], rfl, lexes_nil⟩
  | @skip written rest tokens h _ ih =>
    obtain ⟨before, rfl, hbefore⟩ := ih
    obtain ⟨c, used, rfl, hread⟩ :=
      (h.of_prefix (List.prefix_append before here)).exists_readLexeme
    exact ⟨c :: used ++ before, (List.append_assoc ..).symm, .skip hread hbefore⟩
  | @token token written rest tokens h _ ih =>
    obtain ⟨before, rfl, hbefore⟩ := ih
    obtain ⟨c, used, rfl, hread⟩ :=
      (h.of_prefix (List.prefix_append before here)).exists_readLexeme
    exact ⟨c :: used ++ before, (List.append_assoc ..).symm, .cons hread hbefore⟩

/-- **The lexer stops at a fault** exactly where one is reached. -/
theorem tokenize_eq_error_iff {fault : LexicalFault} : tokenize cs = .error (fault, here) ↔
    FaultAt here fault ∧ ∃ tokens, Reaches here cs tokens := by
  constructor
  · intro h
    fun_induction tokenize cs with
    | case1 => cases h
    | case2 c cs fault' hread =>
      cases h
      exact ⟨faultAt_of_readLexeme hread, [], .here⟩
    | case3 c cs rest hread _ ih =>
      obtain ⟨hfault, tokens, hrest⟩ := ih h
      obtain ⟨written, hwritten, hlexeme⟩ := exists_lexeme_of_readLexeme hread
      exact ⟨hfault, tokens, hwritten ▸ .skip hlexeme hrest⟩
    | case4 c cs token rest hread _ ih =>
      obtain ⟨hfault, tokens, hrest⟩ := ih (exists_of_map_eq_error h)
      obtain ⟨written, hwritten, hlexeme⟩ := exists_lexeme_of_readLexeme hread
      exact ⟨hfault, token :: tokens, hwritten ▸ .token hlexeme hrest⟩
  · rintro ⟨hfault, tokens, hreaches⟩
    induction hreaches with
    | here =>
      obtain ⟨c, cs, rfl, hread⟩ := hfault.exists_readLexeme
      exact tokenize_cons_of_fault hread
    | skip h _ ih =>
      obtain ⟨c, used, rfl, hread⟩ := h.exists_readLexeme
      exact (tokenize_cons_of_skip hread).trans ih
    | token h _ ih =>
      obtain ⟨c, used, rfl, hread⟩ := h.exists_readLexeme
      rw [List.cons_append, tokenize_cons_of_token hread, ih]
      rfl

/-- Every token is reached, and the later tokens are read from the text after it. -/
theorem reaches_token {accepted later : List PlacedToken} {t : PlacedToken}
    (h : tokenize cs = .ok (accepted ++ t :: later)) :
    Reaches t.here cs (accepted.map PlacedToken.token) ∧ ∃ written rest,
      t.here = written ++ rest ∧ Lexeme rest (some t.token) written ∧
        tokenize rest = .ok later := by
  fun_induction tokenize cs generalizing accepted with
  | case1 => simp at h
  | case2 => cases h
  | case3 c cs rest hread _ ih =>
    obtain ⟨hreaches, hlater⟩ := ih h
    obtain ⟨written, hwritten, hlexeme⟩ := exists_lexeme_of_readLexeme hread
    exact ⟨hwritten ▸ .skip hlexeme hreaches, hlater⟩
  | case4 c cs token rest hread _ ih =>
    obtain ⟨placed, hplaced, heq⟩ := exists_of_map_eq_ok h
    obtain ⟨written, hwritten, hlexeme⟩ := exists_lexeme_of_readLexeme hread
    cases accepted with
    | nil =>
      obtain ⟨rfl, rfl⟩ := List.cons.inj heq
      exact ⟨.here, written, rest, hwritten, hlexeme, hplaced⟩
    | cons u accepted =>
      obtain ⟨rfl, rfl⟩ := List.cons.inj heq
      obtain ⟨hreaches, hlater⟩ := ih hplaced
      exact ⟨hwritten ▸ .token hlexeme hreaches, hlater⟩

/-- A token that is reached is one of those of the text, after those that were passed. -/
theorem Reaches.exists_placed (h : Reaches here cs tokens) {token : Token}
    {written rest : List Char} (hhere : here = written ++ rest)
    (hlexeme : Lexeme rest (some token) written) {placed : List PlacedToken}
    (hplaced : tokenize cs = .ok placed) : ∃ accepted later,
      placed = accepted ++ ⟨token, here⟩ :: later ∧ accepted.map PlacedToken.token = tokens := by
  induction h generalizing placed with
  | here =>
    subst hhere
    obtain ⟨c, used, rfl, hread⟩ := hlexeme.exists_readLexeme
    rw [List.cons_append, tokenize_cons_of_token hread] at hplaced
    obtain ⟨later, -, rfl⟩ := exists_of_map_eq_ok hplaced
    exact ⟨[], later, rfl, rfl⟩
  | skip h _ ih =>
    obtain ⟨c, used, rfl, hread⟩ := h.exists_readLexeme
    rw [List.cons_append, tokenize_cons_of_skip hread] at hplaced
    exact ih hplaced
  | @token token' written' rest' tokens h _ ih =>
    obtain ⟨c, used, rfl, hread⟩ := h.exists_readLexeme
    rw [List.cons_append, tokenize_cons_of_token hread] at hplaced
    obtain ⟨placed, hrest, rfl⟩ := exists_of_map_eq_ok hplaced
    obtain ⟨accepted, later, rfl, rfl⟩ := ih hrest
    exact ⟨⟨token', c :: (used ++ rest')⟩ :: accepted, later, rfl, rfl⟩

/-- A text without tokens has no line end. -/
theorem not_mem_of_tokenize_nil (h : tokenize cs = .ok []) : '\n' ∉ cs := by
  fun_induction tokenize cs with
  | case1 => exact List.not_mem_nil
  | case2 => cases h
  | case3 c cs rest hread _ ih =>
    obtain ⟨written, hwritten, hlexeme⟩ := exists_lexeme_of_readLexeme hread
    rw [hwritten, List.mem_append, not_or]
    exact ⟨hlexeme.not_mem, ih h⟩
  | case4 c cs token rest hread _ ih =>
    obtain ⟨placed, -, heq⟩ := exists_of_map_eq_ok h
    cases heq

end reaches

end GrammarSampler
