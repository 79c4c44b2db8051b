import GrammarSampler.Text.Combining
import GrammarSampler.Text.Invisible

/-!
# Quotation for messages

A message shows a text between quotes, so that every character of it can be seen: line breaks, tabs
and `NUL` by their short escapes, the quote and the backslash after a backslash, and combining or
invisible characters by their code points.
-/

namespace GrammarSampler.Text

/-- The lower-case hexadecimal digits of `n`, without leading zeros. -/
def hexadecimal (n : Nat) : String := String.ofList (Nat.toDigits 16 n)

/-- A character by its code point. -/
def escapedCodePoint (c : Char) : String := "\\u\x7b" ++ hexadecimal c.toNat ++ "\x7d"

/-- One character between quotes of the kind `quote`. -/
def quotedPart (quote c : Char) : String :=
  if c = Char.ofNat 0 then "\\0"
  else if c = '\t' then "\\t"
  else if c = '\r' then "\\r"
  else if c = '\n' then "\\n"
  else if c = '\\' then "\\\\"
  else if c = quote then String.ofList ['\\', c]
  else if isCombining c || isInvisible c then escapedCodePoint c
  else String.singleton c

/-- A text between double quotes. -/
def quotedText (s : String) : String :=
  "\"" ++ String.join (s.toList.map (quotedPart '"')) ++ "\""

/-- A character between single quotes. -/
def quotedChar (c : Char) : String := "'" ++ quotedPart '\'' c ++ "'"

end GrammarSampler.Text
