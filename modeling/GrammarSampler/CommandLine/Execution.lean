import GrammarSampler.CommandLine.Command
import GrammarSampler.CommandLine.Failure
import GrammarSampler.CommandLine.Json
import GrammarSampler.Grammar.Printer
import GrammarSampler.Number.FixedPoint
import GrammarSampler.Sampling.Ambiguity

/-!
# Carrying out commands

A command has a result, which is a text and the file that it goes to, or it fails.  The text is
complete before anything is written, so that a command that fails writes nothing.
-/

namespace GrammarSampler.CommandLine

/-- A text, and the file to write it to; without one it goes to standard output. -/
structure Output where
  text : String
  file : Option String
  deriving DecidableEq

/-- The normal form of the grammar in a file. -/
def normalForm (content : Except SystemError ByteArray) : Except Failure Grammar :=
  match Grammar.readBytes content with
  | .error e => .error (.read e)
  | .ok g =>
    match g.toChomsky with
    | .error e => .error (.normalForm e)
    | .ok c => .ok c

/-- The generator for a grammar, with the seed `entropy` if none is given. -/
def generatorFor (g : Grammar) (seed : Option Nat) (entropy : UInt64) :
    Except Failure Generator :=
  match Generator.new g (.seeded ((seed.map Nat.toUInt64).getD entropy)) with
  | .error e => .error (.generator e)
  | .ok generator => .ok generator

/-- Counts derivations up to a positive length ahead of time. -/
def prepare (g : Generator) : Option Nat → Except Failure Generator
  | none => .ok g
  | some 0 => .ok g
  | some (n + 1) =>
    match g.preprocess (n + 1) with
    | .error e => .error (.generator e)
    | .ok g => .ok g

/-- Draws up to `attempts` lengths from 1 to 10 until there is a string of one.  The last length
drawn so far is `last`. -/
def generateAnyLength : Nat → Nat → Generator → Except GenerateError (List Terminal) × Generator
  | 0, last, g => (.error (.noString last), g)
  | attempts + 1, _, g =>
    let (n, g) := g.drawInRange 1 10
    match g.generate n with
    | (.error (.noString n), g) => generateAnyLength attempts n g
    | result => result

/-- One string, of the given length or of any. -/
def generateOne (length : Option Nat) (g : Generator) :
    Except GenerateError (List Terminal) × Generator :=
  match length with
  | some n => g.generate n
  | none => generateAnyLength 20 10 g

/-- The strings of `n` generations in turn. -/
def generateMany (length : Option Nat) :
    Nat → Generator → Except GenerateError (List (List Terminal)) × Generator
  | 0, g => (.ok [], g)
  | n + 1, g =>
    match generateOne length g with
    | (.error e, g) => (.error e, g)
    | (.ok w, g) =>
      match generateMany length n g with
      | (.error e, g) => (.error e, g)
      | (.ok ws, g) => (.ok (w :: ws), g)

/-- Strings as they are written, each on a line or all in a JSON list. -/
def stringsText (format : Format) (separator : String) (ws : List (List Terminal)) : String :=
  match format with
  | .string => String.join (ws.map fun w => separator.intercalate (w.map Terminal.text) ++ "\n")
  | .json => Json.stringLists (ws.map fun w => w.map Terminal.text) ++ "\n"

/-- Carries out `generate`. -/
def GenerateRequest.execute (r : GenerateRequest) (content : Except SystemError ByteArray)
    (entropy : UInt64) : Except Failure Output := do
  let g ← generatorFor (← normalForm content) r.seed entropy
  let g ← prepare g r.length
  if sequenceLimit < r.number then .error .tooMany
  else
    match (generateMany r.length r.number g).1 with
    | .error e => .error (.generate e)
    | .ok ws => .ok ⟨stringsText r.format r.separator ws, r.output⟩

/-- The lines of `count` for the lengths from `n` on, as many as `lines`. -/
def countLines (a : Nonterminal) : Nat → Nat → Generator → Except Failure (List String)
  | 0, _, _ => .ok []
  | lines + 1, n, g =>
    match g.count? a n with
    | none => .error (.generator .tooLong)
    | some (k, g) =>
      (countLines a lines (n + 1) g).map ((toString n ++ "\t" ++ toString k ++ "\n") :: ·)

/-- Carries out `count`. -/
def executeCount (content : Except SystemError ByteArray) (length : Nat)
    (nonterminal : Option String) (entropy : UInt64) : Except Failure Output := do
  let g ← generatorFor (← normalForm content) none entropy
  let a := (nonterminal.map Nonterminal.mk).getD g.grammar.start
  return ⟨String.join (← countLines a length 1 g), none⟩

/-- A report as it is written. -/
def reportText (format : Format) (r : AmbiguityReport) : String :=
  match format with
  | .string =>
    String.join ([
      ("length", toString r.length),
      ("samples", toString r.frequencies.total),
      ("derivation trees", toString r.trees),
      ("distinct strings", toString r.frequencies.distinct),
      ("expected probability", Number.fixedPoint 6 r.expectedProbability),
      ("max deviation", Number.fixedPoint 6 r.maxDeviation),
      ("trees per string", Number.fixedPoint 3 r.treesPerString)].map
        fun f => f.1 ++ ": " ++ f.2 ++ "\n")
  | .json =>
    Json.object [
      ("length", toString r.length),
      ("samples", toString r.frequencies.total),
      ("trees", Json.string (toString r.trees)),
      ("distinct", toString r.frequencies.distinct),
      ("expected_probability", Json.number r.expectedProbability),
      ("max_deviation", Json.number r.maxDeviation),
      ("trees_per_string", Json.number r.treesPerString)] ++ "\n"

/-- Carries out `ambiguity`. -/
def AmbiguityRequest.execute (r : AmbiguityRequest) (content : Except SystemError ByteArray)
    (entropy : UInt64) : Except Failure Output := do
  let g ← generatorFor (← normalForm content) r.seed entropy
  match (g.estimateAmbiguity { samples := r.samples }).1 with
  | .error e => .error (.generate e)
  | .ok report => .ok ⟨reportText r.format report, none⟩

/-- Carries out a command on the bytes of its grammar file, if the system gave them. -/
def Command.execute (c : Command) (content : Except SystemError ByteArray) (entropy : UInt64) :
    Except Failure Output :=
  match c with
  | generate r => r.execute content entropy
  | .normalForm _ => do return ⟨(← CommandLine.normalForm content).written, none⟩
  | count _ length nonterminal => executeCount content length nonterminal entropy
  | ambiguity r => r.execute content entropy

/-- What is left after a run: the exit code, what was written to the standard streams, and to a
file. -/
structure Outcome where
  code : Nat
  stdout : String
  stderr : String
  written : Option (String × String)
  deriving DecidableEq

/-- The outcome of a failure. -/
def Failure.outcome (f : Failure) : Outcome := ⟨f.code, "", "Error: " ++ f.text ++ "\n", none⟩

/-- The outcome of arguments that give no command. -/
def usageOutcome : Outcome :=
  ⟨2, "", "usage: generate | cnf | count | ambiguity FILE [OPTIONS]\n", none⟩

/-- The outcome of a command, where `refusal?` tells why a text cannot be written to a path. -/
def Command.outcome (c : Command) (content : Except SystemError ByteArray) (entropy : UInt64)
    (refusal? : String → String → Option SystemError) : Outcome :=
  match c.execute content entropy with
  | .error f => f.outcome
  | .ok ⟨text, none⟩ => ⟨0, text, "", none⟩
  | .ok ⟨text, some path⟩ =>
    match refusal? path text with
    | none => ⟨0, "", "", some (path, text)⟩
    | some e => (Failure.output e).outcome

end GrammarSampler.CommandLine
