import GrammarSampler.CommandLine.Arguments

/-!
# Commands

The four commands with their options, and how they are read from arguments.
-/

namespace GrammarSampler.CommandLine

/-- How results are written. -/
inductive Format where
  | string
  | json
  deriving DecidableEq

/-- What `generate` is asked for. -/
structure GenerateRequest where
  file : String
  /-- The number of strings. -/
  number : Nat
  /-- The length of each string; it is drawn from 1 to 10 if there is none. -/
  length : Option Nat
  format : Format
  /-- The file to write to. -/
  output : Option String
  seed : Option Nat
  /-- What stands between two terminals. -/
  separator : String
  deriving DecidableEq

/-- What `ambiguity` is asked for. -/
structure AmbiguityRequest where
  file : String
  samples : Nat
  seed : Option Nat
  format : Format
  deriving DecidableEq

/-- A command for the grammar in a file. -/
inductive Command where
  /-- Writes random strings. -/
  | generate (request : GenerateRequest)
  /-- Writes the normal form of the grammar. -/
  | normalForm (file : String)
  /-- Writes the number of derivation trees for each length up to `length`. -/
  | count (file : String) (length : Nat) (nonterminal : Option String)
  /-- Writes an estimate of ambiguity. -/
  | ambiguity (request : AmbiguityRequest)
  deriving DecidableEq

/-- The file with the grammar. -/
def Command.file : Command → String
  | generate r => r.file
  | normalForm file => file
  | count file _ _ => file
  | ambiguity r => r.file

/-- The format with the given name. -/
def Format.ofName? (s : String) : Option Format :=
  if s = "string" then some string else if s = "json" then some json else none

/-- A path, which is not empty. -/
def path? (s : String) : Option String := if s.isEmpty then none else some s

namespace Arguments

/-- The only operand, a path. -/
def file? (a : Arguments) : Option String :=
  match a.operands with
  | [s] => path? s
  | _ => none

/-- The value of an option as `read` reads it; `default` if the option is not set. -/
def get? {α : Type} (a : Arguments) (long : String) (read : String → Option α) (default : α) :
    Option α :=
  match a.value? long with
  | none => some default
  | some s => read s

/-- The value of an option that may be missing. -/
def getOptional? {α : Type} (a : Arguments) (long : String) (read : String → Option α) :
    Option (Option α) :=
  a.get? long (fun s => (read s).map some) none

end Arguments

def numberOption : OptionName := ⟨"number", some 'n'⟩
def lengthOption : OptionName := ⟨"length", some 'l'⟩
def formatOption : OptionName := ⟨"format", some 'f'⟩
def outputOption : OptionName := ⟨"outfile", some 'o'⟩
def seedOption : OptionName := ⟨"seed", none⟩
def separatorOption : OptionName := ⟨"separator", none⟩
def nonterminalOption : OptionName := ⟨"nonterminal", none⟩
def samplesOption : OptionName := ⟨"samples", none⟩

def GenerateRequest.ofArguments? (xs : List String) : Option GenerateRequest := do
  let a ← Arguments.ofList? [numberOption, lengthOption, formatOption, outputOption, seedOption,
    separatorOption] xs
  return {
    file := ← a.file?
    number := ← a.get? numberOption.long word? 1
    length := ← a.getOptional? lengthOption.long word?
    format := ← a.get? formatOption.long Format.ofName? .string
    output := ← a.getOptional? outputOption.long path?
    seed := ← a.getOptional? seedOption.long word?
    separator := ← a.get? separatorOption.long some " " }

def AmbiguityRequest.ofArguments? (xs : List String) : Option AmbiguityRequest := do
  let a ← Arguments.ofList? [samplesOption, seedOption, formatOption] xs
  return {
    file := ← a.file?
    samples := ← a.get? samplesOption.long word? 1000
    seed := ← a.getOptional? seedOption.long word?
    format := ← a.get? formatOption.long Format.ofName? .string }

/-- The command that the arguments give, if they give one. -/
def Command.ofArguments? : List String → Option Command
  | [] => none
  | name :: xs =>
    if name = "generate" then (GenerateRequest.ofArguments? xs).map generate
    else if name = "cnf" then do
      let a ← Arguments.ofList? [] xs
      return normalForm (← a.file?)
    else if name = "count" then do
      let a ← Arguments.ofList? [lengthOption, nonterminalOption] xs
      return count (← a.file?) (← (a.value? lengthOption.long).bind word?)
        (a.value? nonterminalOption.long)
    else if name = "ambiguity" then (AmbiguityRequest.ofArguments? xs).map ambiguity
    else none

end GrammarSampler.CommandLine
