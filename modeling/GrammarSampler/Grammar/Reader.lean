import GrammarSampler.Grammar.Basic
import GrammarSampler.Grammar.FileError
import GrammarSampler.Grammar.Lexer
import GrammarSampler.Text.Quoted

/-!
# Reading grammars

A grammar is written with one rule on a line, `S -> A 'b' | "c" |`.  Identifiers are nonterminals,
literals are terminals, and an alternative may be empty.  Several lines may share a left-hand side,
and the left-hand side of the first rule is the start symbol.
-/

namespace GrammarSampler

/-- Why a text is no grammar. -/
inductive ParseReason where
  | lexical (fault : LexicalFault)
  | expectedNonterminal (found : Token)
  | expectedArrow (found : Token)
  | arrowOnRightHandSide
  | endedBeforeArrow
  | noRules
  deriving DecidableEq

/-- A text that is no grammar, and where that shows. -/
structure ParseError where
  reason : ParseReason
  position : Position
  deriving DecidableEq

/-- A token in words. -/
def Token.described : Token → String
  | identifier name => "identifier `" ++ name ++ "`"
  | literal text => "literal " ++ Text.quotedText text
  | arrow => "`->`"
  | bar => "`|`"
  | lineEnd => "end of line"

/-- The fault in words. -/
def LexicalFault.message : LexicalFault → String
  | loneDash => "expected `->`"
  | unterminatedLiteral => "unterminated literal"
  | invalidEscape => "invalid escape in literal"
  | unexpectedChar c => "unexpected character " ++ Text.quotedChar c

/-- The reason in words. -/
def ParseReason.message : ParseReason → String
  | lexical fault => fault.message
  | expectedNonterminal found => "expected a nonterminal, found " ++ found.described
  | expectedArrow found => "expected `->`, found " ++ found.described
  | arrowOnRightHandSide => "unexpected `->` on a right-hand side"
  | endedBeforeArrow => "expected `->`, found end of input"
  | noRules => "the grammar has no rules"

/-- What a reader of tokens expects next. -/
inductive Expectation where
  /-- The left-hand side of a rule. -/
  | rule
  /-- The arrow after the left-hand side `lhs`. -/
  | arrow (lhs : Nonterminal)
  /-- The rest of an alternative that begins with `rhs`. -/
  | symbol (lhs : Nonterminal) (rhs : List Symbol)
  deriving DecidableEq

/-- The productions of a sequence of rules, or the first token that does not fit.  Tokens that end
too early are in error at `ended`. -/
def parseRules (ended : Position) :
    Expectation → List LocatedToken → Except ParseError (List Production)
  | .rule, [] => .ok []
  | .rule, t :: ts =>
    match t.token with
    | .lineEnd => parseRules ended .rule ts
    | .identifier name => parseRules ended (.arrow ⟨name⟩) ts
    | found => .error ⟨.expectedNonterminal found, t.position⟩
  | .arrow _, [] => .error ⟨.endedBeforeArrow, ended⟩
  | .arrow lhs, t :: ts =>
    match t.token with
    | .arrow => parseRules ended (.symbol lhs []) ts
    | found => .error ⟨.expectedArrow found, t.position⟩
  | .symbol lhs rhs, [] => .ok [⟨lhs, rhs⟩]
  | .symbol lhs rhs, t :: ts =>
    match t.token with
    | .lineEnd => (parseRules ended .rule ts).map (⟨lhs, rhs⟩ :: ·)
    | .bar => (parseRules ended (.symbol lhs []) ts).map (⟨lhs, rhs⟩ :: ·)
    | .identifier name => parseRules ended (.symbol lhs (rhs ++ [.nonterminal ⟨name⟩])) ts
    | .literal text => parseRules ended (.symbol lhs (rhs ++ [.terminal ⟨text⟩])) ts
    | .arrow => .error ⟨.arrowOnRightHandSide, t.position⟩

/-- The number of lines; a line end at the end of the text begins no further line. -/
def lineCount (cs : List Char) : Nat :=
  cs.count '\n' + if cs.getLast?.any (· ≠ '\n') then 1 else 0

/-- The productions that a text lists.  A text that ends too early is in error on its last line. -/
def parseProductions (cs : List Char) : Except ParseError (List Production) :=
  match (Lexer.start cs).tokenize with
  | .error (fault, position) => .error ⟨.lexical fault, position⟩
  | .ok tokens => parseRules ⟨max 1 (lineCount cs), 1⟩ .rule tokens

/-- Why no grammar could be read. -/
inductive ReadError where
  | parse (error : ParseError)
  | grammar (error : GrammarError)
  | file (error : FileError)
  deriving DecidableEq

/-- The error in words. -/
def ReadError.message : ReadError → String
  | parse e =>
    "Parse error at line " ++ toString e.position.line ++ " column " ++
      toString e.position.column ++ ": " ++ e.reason.message
  | grammar e => e.message
  | file e => "could not read grammar: " ++ e.message

/-- The words of the error behind this one. -/
def ReadError.cause? : ReadError → Option String
  | parse _ => none
  | grammar e => some e.message
  | file e => some e.message

namespace Grammar

/-- Reads a grammar from a text.  One without rules is in error at its beginning. -/
def read (text : String) : Except ReadError Grammar :=
  match parseProductions text.toList with
  | .error e => .error (.parse e)
  | .ok [] => .error (.parse ⟨.noRules, ⟨1, 1⟩⟩)
  | .ok (p :: ps) =>
    match ofProductions p.lhs (p :: ps) with
    | .error e => .error (.grammar e)
    | .ok g => .ok g

/-- Reads a grammar from the bytes of a file, if the system gave them. -/
def readBytes : Except SystemError ByteArray → Except ReadError Grammar
  | .error e => .error (.file (.system e))
  | .ok bytes =>
    match String.fromUTF8? bytes with
    | none => .error (.file .invalidEncoding)
    | some text => read text

end Grammar

end GrammarSampler
