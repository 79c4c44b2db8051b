import GrammarSampler.Grammar.Token

/-!
# The lexer

`Lexer.tokenize` cuts a text into tokens.  On its way the lexer counts lines and columns, with every
character that it passes; each token has the position of its first character.
-/

namespace GrammarSampler

/-- A place in a text, counted from 1. -/
structure Position where
  line : Nat
  column : Nat
  deriving DecidableEq

/-- The position after the character `c`. -/
def Position.next (p : Position) (c : Char) : Position :=
  if c = '\n' then ⟨p.line + 1, 1⟩ else ⟨p.line, p.column + 1⟩

/-- A token and the position of its first character. -/
structure LocatedToken where
  token : Token
  position : Position
  deriving DecidableEq

/-- What is left of a text, and where it starts. -/
structure Lexer where
  rest : List Char
  position : Position
  deriving DecidableEq

theorem exists_of_map_eq_ok {ε α β : Type} {x : Except ε α} {f : α → β} {y : β}
    (h : x.map f = .ok y) : ∃ z, x = .ok z ∧ f z = y := by
  cases x with
  | error e => cases h
  | ok z => exact ⟨z, rfl, Except.ok.inj h⟩

namespace Lexer

/-- Before a text. -/
def start (cs : List Char) : Lexer := ⟨cs, ⟨1, 1⟩⟩

/-- Passes characters as long as they have the property. -/
def span (test : Char → Bool) (p : Position) : List Char → List Char × Lexer
  | [] => ([], ⟨[], p⟩)
  | c :: cs =>
    if test c then
      let (taken, l) := span test (p.next c) cs
      (c :: taken, l)
    else ([], ⟨c :: cs, p⟩)

/-- Reads a literal up to its closing quote. -/
def literal (quote : Char) (p : Position) : List Char → Except LexicalFault (List Char × Lexer)
  | [] => .error .unterminatedLiteral
  | c :: cs =>
    if c = quote then .ok ([], ⟨cs, p.next c⟩)
    else if c = '\\' then
      match cs with
      | [] => .error .invalidEscape
      | d :: cs =>
        match unescape? d with
        | none => .error .invalidEscape
        | some e => (literal quote ((p.next c).next d) cs).map fun r => (e :: r.1, r.2)
    else if c = '\n' then .error .unterminatedLiteral
    else (literal quote (p.next c) cs).map fun r => (c :: r.1, r.2)

/-- Reads what starts with the character `c`, before `cs`: a token, or nothing if a blank or a
comment is skipped. -/
def lexeme (p : Position) (c : Char) (cs : List Char) :
    Except LexicalFault (Option Token × Lexer) :=
  if c = '\n' then .ok (some .lineEnd, ⟨cs, p.next c⟩)
  else if Text.isBlank c then .ok (none, ⟨cs, p.next c⟩)
  else if c = '#' then .ok (none, (span (· ≠ '\n') (p.next c) cs).2)
  else if c = '|' then .ok (some .bar, ⟨cs, p.next c⟩)
  else if c = '-' then
    match cs with
    | '>' :: cs => .ok (some .arrow, ⟨cs, (p.next c).next '>'⟩)
    | _ => .error .loneDash
  else if c = '\'' || c = '"' then
    (literal c (p.next c) cs).map fun r => (some (.literal (String.ofList r.1)), r.2)
  else if isIdentifierChar c then
    let (name, l) := span isIdentifierChar (p.next c) cs
    .ok (some (.identifier (String.ofList (c :: name))), l)
  else .error (.unexpectedChar c)

/-- Characters have been passed from the text `cs` at `p` to where the lexer is now. -/
inductive Passes (l : Lexer) : Position → List Char → Prop
  | here : Passes l l.position l.rest
  | next {p : Position} {c : Char} {cs : List Char} (h : Passes l (p.next c) cs) :
    Passes l p (c :: cs)

section passes

variable {l : Lexer} {p : Position} {c : Char} {cs : List Char}

theorem Passes.length_le (h : Passes l p cs) : l.rest.length ≤ cs.length := by
  induction h with
  | here => exact Nat.le_refl _
  | next _ ih => exact Nat.le_succ_of_le ih

theorem passes_span (test : Char → Bool) (p : Position) (cs : List Char) :
    Passes (span test p cs).2 p cs := by
  fun_induction span test p cs with
  | case1 | case3 => exact .here
  | case2 p c cs _ taken l hspan ih =>
    rw [hspan] at ih
    exact .next ih

theorem passes_of_literal {q : Char} {r : List Char × Lexer} (h : literal q p cs = .ok r) :
    Passes r.2 p cs := by
  fun_induction literal q p cs generalizing r with
  | case1 | case3 | case4 | case6 => cases h
  | case2 => cases h; exact .next .here
  | case5 p d cs e _ _ ih =>
    obtain ⟨s, hs, rfl⟩ := exists_of_map_eq_ok h
    have hpasses := ih hs
    exact .next (.next hpasses)
  | case7 p c cs _ _ _ ih =>
    obtain ⟨s, hs, rfl⟩ := exists_of_map_eq_ok h
    have hpasses := ih hs
    exact .next hpasses

theorem passes_of_lexeme {r : Option Token × Lexer} (h : lexeme p c cs = .ok r) :
    Passes r.2 (p.next c) cs := by
  unfold lexeme at h
  split at h
  · cases h; exact .here
  split at h
  · cases h; exact .here
  split at h
  · cases h; exact passes_span ..
  split at h
  · cases h; exact .here
  split at h
  · split at h
    · cases h; exact .next .here
    · cases h
  split at h
  · obtain ⟨s, hs, rfl⟩ := exists_of_map_eq_ok h
    exact passes_of_literal hs
  split at h
  · cases h; exact passes_span ..
  · cases h

end passes

/-- The tokens of what is left, or the first fault and where it starts. -/
def tokenize : Lexer → Except (LexicalFault × Position) (List LocatedToken)
  | ⟨[], _⟩ => .ok []
  | ⟨c :: cs, p⟩ =>
    match h : lexeme p c cs with
    | .error fault => .error (fault, p)
    | .ok (none, l) =>
      have : l.rest.length ≤ cs.length := (passes_of_lexeme h).length_le
      tokenize l
    | .ok (some token, l) =>
      have : l.rest.length ≤ cs.length := (passes_of_lexeme h).length_le
      (tokenize l).map (⟨token, p⟩ :: ·)
  termination_by l => l.rest.length

theorem tokenize_cons (c : Char) (cs : List Char) (p : Position) :
    tokenize ⟨c :: cs, p⟩ = match lexeme p c cs with
      | .error fault => .error (fault, p)
      | .ok (none, l) => tokenize l
      | .ok (some token, l) => (tokenize l).map (⟨token, p⟩ :: ·) := by
  rw [tokenize]
  split
  · next h => simp only [h]
  · next h => simp only [h]
  · next h => simp only [h]

end Lexer

end GrammarSampler
