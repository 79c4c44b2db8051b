import GrammarSampler.CommandLine.Execution

/-!
# The program

Reads the grammar file, carries out the command, and writes its output.
-/

namespace GrammarSampler.CommandLine

/-- The number of the system behind an error, 0 where there is none. -/
def systemNumber : IO.Error → Nat
  | .alreadyExists _ n _ | .otherError n _ | .resourceBusy n _ | .resourceVanished n _
  | .unsupportedOperation n _ | .hardwareFault n _ | .unsatisfiedConstraints n _
  | .illegalOperation n _ | .protocolError n _ | .timeExpired n _ | .interrupted _ n _
  | .noFileOrDirectory _ n _ | .invalidArgument _ n _ | .permissionDenied _ n _
  | .resourceExhausted _ n _ | .inappropriateType _ n _ | .noSuchThing _ n _ => n.toNat
  | .unexpectedEof | .userError _ => 0

/-- Why the system refused a path.  What has no name of its own counts as an input/output error. -/
def systemError (e : IO.Error) : SystemError :=
  (SystemError.ofNumber? (systemNumber e)).getD .inputOutput

/-- The bytes of a file, if it can be read. -/
def readContent (path : String) : IO (Except SystemError ByteArray) := do
  try
    return .ok (← IO.FS.withFile path .read fun file => file.readBinToEnd)
  catch e => return .error (systemError e)

/-- Writes to a file, or tells why that was not possible. -/
def writeContent (path text : String) : IO (Option SystemError) := do
  try
    IO.FS.withFile path .write fun file => do
      file.putStr text
      file.flush
    return none
  catch e => return some (systemError e)

/-- A word from the system's source of random bytes. -/
def systemEntropy : IO UInt64 := do
  return (← IO.getRandomBytes 8).foldl (fun word byte => word * 256 + byte.toUInt64) 0

/-- Writes an outcome to the standard streams. -/
def report (o : Outcome) : IO UInt32 := do
  IO.print o.stdout
  IO.eprint o.stderr
  return o.code.toUInt32

end GrammarSampler.CommandLine

open GrammarSampler.CommandLine

def main (args : List String) : IO UInt32 := do
  match Command.ofArguments? args with
  | none => report usageOutcome
  | some command =>
    match command.execute (← readContent command.file) (← systemEntropy) with
    | .error failure => report failure.outcome
    | .ok ⟨text, none⟩ => report ⟨0, text, "", none⟩
    | .ok ⟨text, some path⟩ =>
      match ← writeContent path text with
      | none => return 0
      | some e => report (Failure.output e).outcome
