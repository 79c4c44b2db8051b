import GrammarSampler.Grammar.Reader
import GrammarSampler.NormalForm.Chomsky
import GrammarSampler.Sampling.Generator

/-!
# Failures of commands

Why a command gives no result, and the line that is written about it.
-/

namespace GrammarSampler.CommandLine

/-- Why a command fails. -/
inductive Failure where
  | read (error : ReadError)
  | normalForm (error : NormalFormError)
  | generator (error : GeneratorError)
  | generate (error : GenerateError)
  /-- The output file cannot be created or written. -/
  | output (error : SystemError)
  /-- So many strings do not fit into memory. -/
  | tooMany
  deriving DecidableEq

/-- A value with named fields. -/
def withFields (name : String) (fields : List (String × String)) : String :=
  name ++ " \x7b " ++ ", ".intercalate (fields.map fun f => f.1 ++ ": " ++ f.2) ++ " \x7d"

/-- A value with one part. -/
def withPart (name part : String) : String := name ++ "(" ++ part ++ ")"

/-- A nonterminal in a failure line. -/
def nonterminalText (a : Nonterminal) : String := withPart "Nonterminal" (Text.quotedText a.name)

/-- The name of the kind of error.  Some errors have no kind of their own. -/
def systemErrorKind : SystemError → String
  | .notPermitted => "PermissionDenied"
  | .notFound => "NotFound"
  | .inputOutput => "InputOutputError"
  | .noSuchAddress => "Uncategorized"
  | .wouldBlock => "WouldBlock"
  | .outOfMemory => "OutOfMemory"
  | .permissionDenied => "PermissionDenied"
  | .busy => "ResourceBusy"
  | .noSuchDevice => "Uncategorized"
  | .notADirectory => "NotADirectory"
  | .isDirectory => "IsADirectory"
  | .invalidArgument => "InvalidInput"
  | .fileBusy => "ExecutableFileBusy"
  | .fileTooLarge => "FileTooLarge"
  | .storageFull => "StorageFull"
  | .notSeekable => "NotSeekable"
  | .readOnly => "ReadOnlyFilesystem"
  | .brokenPipe => "BrokenPipe"
  | .nameTooLong => "InvalidFilename"
  | .linkLoop => "FilesystemLoop"
  | .notSupported => "Unsupported"
  | .quotaExceeded => "QuotaExceeded"

/-- What a failure line says of a refusal by the system. -/
def systemErrorText (e : SystemError) : String :=
  withFields "Os" [("code", toString e.number), ("kind", systemErrorKind e),
    ("message", Text.quotedText e.message)]

/-- What a failure line says of a file. -/
def fileErrorText : FileError → String
  | .system e => systemErrorText e
  | .invalidEncoding =>
    withFields "Error" [("kind", "InvalidData"),
      ("message", Text.quotedText FileError.invalidEncoding.message)]

/-- What a failure line says of a text that is no grammar. -/
def readErrorText : ReadError → String
  | .parse e =>
    withFields "Parse" [("reason", Text.quotedText e.reason.message),
      ("line", toString e.position.line), ("col", toString e.position.column)]
  | .grammar (.undefined a) =>
    withPart "Grammar" (withFields "Malformed" [("nonterminal", nonterminalText a)])
  | .file e => withPart "Io" (fileErrorText e)

/-- The failure in a line. -/
def Failure.text : Failure → String
  | read e => readErrorText e
  | normalForm (.noProductions a) =>
    withFields "NotNormalizable" [("nonterminal", nonterminalText a)]
  | generator .notChomsky => "NotCnf"
  | generator .zeroLength =>
    withFields "InvalidConfiguration"
      [("reason", Text.quotedText "preprocessing length must be at least 1")]
  | generator .tooLong => GeneratorError.tooLong.message
  | generate (.noString n) => withFields "GenerationFailure" [("length", toString n)]
  | generate .weightMismatch => "InvariantViolation"
  | generate .tooLong => GenerateError.tooLong.message
  | output e => systemErrorText e
  | tooMany => "capacity overflow"

/-- The exit code: 101 where memory is at its end, else 1. -/
def Failure.code : Failure → Nat
  | generator .tooLong => 101
  | generate .tooLong => 101
  | tooMany => 101
  | _ => 1

end GrammarSampler.CommandLine
