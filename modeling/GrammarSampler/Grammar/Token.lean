import GrammarSampler.Text.Alphanumeric
import GrammarSampler.Text.Blank

/-!
# Tokens of the grammar format

A text falls into identifiers, quoted literals, arrows, bars and line ends, with blanks and comments
between them.
-/

namespace GrammarSampler

/-- A token of the grammar format. -/
inductive Token where
  | identifier (name : String)
  | literal (text : String)
  | arrow
  | bar
  | lineEnd
  deriving DecidableEq

/-- Why a text has no tokens. -/
inductive LexicalFault where
  | loneDash
  | unterminatedLiteral
  | invalidEscape
  | unexpectedChar (c : Char)
  deriving DecidableEq

/-- A character of an identifier: a letter or number of any script, or one of `_`, `$` and `.`. -/
def isIdentifierChar (c : Char) : Bool :=
  c = '_' || c = '$' || c = '.' || Text.isAlphanumeric c

/-- The character that `c` stands for after a backslash. -/
def unescape? (c : Char) : Option Char :=
  if c = '\\' || c = '\'' || c = '"' then some c
  else if c = 'n' then some '\n'
  else if c = 't' then some '\t'
  else none

end GrammarSampler
