import GrammarSampler.Number.Word

/-!
# Options and operands

Splits the arguments of a command into options, each of which has a value, and operands.  A value
follows its option as an argument of its own, or it is attached: `--length 2`, `--length=2`, `-l 2`,
`-l2` and `-l=2` are the same.  After `--` all arguments are operands.
-/

namespace GrammarSampler.CommandLine

/-- An option that takes a value, by its long name and its letter. -/
structure OptionName where
  long : String
  letter : Option Char
  deriving DecidableEq

/-- The values of options by their long names, and the operands. -/
structure Arguments where
  options : List (String × String)
  operands : List String
  deriving DecidableEq

namespace Arguments

def empty : Arguments := ⟨[], []⟩

/-- The value of the option `long`. -/
def value? (a : Arguments) (long : String) : Option String := a.options.lookup long

/-- Sets an option, which must not be set yet. -/
def set? (a : Arguments) (o : OptionName) (value : String) : Option Arguments :=
  match a.value? o.long with
  | some _ => none
  | none => some { a with options := a.options ++ [(o.long, value)] }

def addOperands (a : Arguments) (xs : List String) : Arguments :=
  { a with operands := a.operands ++ xs }

end Arguments

/-- How an argument is meant. -/
inductive Shape where
  /-- The end of options, `--`. -/
  | separator
  /-- `--name` or `--name=value`. -/
  | long (name : String) (value : Option String)
  /-- `-c`, `-cvalue` or `-c=value`. -/
  | short (letter : Char) (value : Option String)
  | operand

/-- The shape of an argument.  A lone `-` is an operand. -/
def shape (s : String) : Shape :=
  match s.toList with
  | ['-', '-'] => .separator
  | '-' :: '-' :: cs =>
    let name := String.ofList (cs.takeWhile (· ≠ '='))
    match cs.dropWhile (· ≠ '=') with
    | _ :: value => .long name (some (String.ofList value))
    | [] => .long name none
  | ['-', c] => .short c none
  | '-' :: c :: '=' :: value => .short c (some (String.ofList value))
  | '-' :: c :: value => .short c (some (String.ofList value))
  | _ => .operand

/-- An argument that can stand for the value of the option before it. -/
def isValue (s : String) : Bool :=
  match shape s with
  | .operand => true
  | _ => false

/-- The option that an argument names, with an attached value. -/
def named? (names : List OptionName) : Shape → Option (OptionName × Option String)
  | .long name value => (names.find? fun o => o.long = name).map (·, value)
  | .short letter value => (names.find? fun o => o.letter = some letter).map (·, value)
  | _ => none

/-- Adds arguments to `a`.  There is no result for an unknown or repeated option, or one without a
value. -/
def Arguments.add? (names : List OptionName) : List String → Arguments → Option Arguments
  | [], a => some a
  | x :: xs, a =>
    match shape x, named? names (shape x) with
    | .separator, _ => some (a.addOperands xs)
    | .operand, _ => add? names xs (a.addOperands [x])
    | _, none => none
    | _, some (o, some value) => (a.set? o value).bind (add? names xs)
    | _, some (o, none) =>
      match xs with
      | value :: xs => if isValue value then (a.set? o value).bind (add? names xs) else none
      | [] => none

/-- The options and operands of a command with options `names`. -/
def Arguments.ofList? (names : List OptionName) (xs : List String) : Option Arguments :=
  add? names xs empty

/-- A word of 64 bits in decimal digits, perhaps after a plus sign. -/
def word? (s : String) : Option Nat :=
  let digits := match s.toList with
    | '+' :: cs => cs
    | cs => cs
  if digits = [] ∨ !digits.all Char.isDigit then none
  else
    let n := digits.foldl (fun n c => 10 * n + (c.toNat - '0'.toNat)) 0
    if n < wordCount then some n else none

end GrammarSampler.CommandLine
