import GrammarSampler.Number.Shortest

/-!
# JSON text

The JSON values that commands write: strings, lists of lists of strings on one line, and an object
with one field on a line.
-/

namespace GrammarSampler.CommandLine.Json

/-- Four hexadecimal digits, in lower case. -/
def fourHexDigits (n : Nat) : String :=
  let digits := Nat.toDigits 16 n
  String.ofList (List.replicate (4 - digits.length) '0' ++ digits)

/-- One character of a string.  Quotes, backslashes and control characters below the space are
escaped, and nothing else. -/
def escaped (c : Char) : String :=
  if c = '"' then "\\\""
  else if c = '\\' then "\\\\"
  else if c = Char.ofNat 8 then "\\b"
  else if c = Char.ofNat 12 then "\\f"
  else if c = '\n' then "\\n"
  else if c = '\r' then "\\r"
  else if c = '\t' then "\\t"
  else if c.toNat < 32 then "\\u" ++ fourHexDigits c.toNat
  else String.singleton c

/-- A string. -/
def string (s : String) : String := "\"" ++ String.join (s.toList.map escaped) ++ "\""

/-- A list of written values. -/
def array (xs : List String) : String := "[" ++ ",".intercalate xs ++ "]"

/-- A list of lists of strings. -/
def stringLists (xss : List (List String)) : String :=
  array (xss.map fun xs => array (xs.map string))

/-- A number that is zero or more, or `null` if it is infinite. -/
def number (x : Float) : String := (Number.shortestText? x).getD "null"

/-- An object with written values, each field on a line of its own. -/
def object (fields : List (String × String)) : String :=
  "\x7b\n" ++ ",\n".intercalate (fields.map fun f => "  " ++ string f.1 ++ ": " ++ f.2) ++ "\n\x7d"

end GrammarSampler.CommandLine.Json
