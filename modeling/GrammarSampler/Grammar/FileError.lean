/-!
# Errors of files

Why a file cannot be read or written.  The operating system refuses by a number (`SystemError`); a
file that can be read may still hold no text.
-/

namespace GrammarSampler

/-- Why the operating system refuses to open a path, to read it or to write to it. -/
inductive SystemError where
  | notPermitted
  | notFound
  | inputOutput
  | noSuchAddress
  | wouldBlock
  | outOfMemory
  | permissionDenied
  | busy
  | noSuchDevice
  | notADirectory
  | isDirectory
  | invalidArgument
  | fileBusy
  | fileTooLarge
  | storageFull
  | notSeekable
  | readOnly
  | brokenPipe
  | nameTooLong
  | linkLoop
  | notSupported
  | quotaExceeded
  deriving DecidableEq

namespace SystemError

/-- All the errors. -/
def all : List SystemError :=
  [notPermitted, notFound, inputOutput, noSuchAddress, wouldBlock, outOfMemory, permissionDenied,
    busy, noSuchDevice, notADirectory, isDirectory, invalidArgument, fileBusy, fileTooLarge,
    storageFull, notSeekable, readOnly, brokenPipe, nameTooLong, linkLoop, notSupported,
    quotaExceeded]

/-- The number of the error in the operating system. -/
def number : SystemError → Nat
  | notPermitted => 1
  | notFound => 2
  | inputOutput => 5
  | noSuchAddress => 6
  | wouldBlock => 11
  | outOfMemory => 12
  | permissionDenied => 13
  | busy => 16
  | noSuchDevice => 19
  | notADirectory => 20
  | isDirectory => 21
  | invalidArgument => 22
  | fileBusy => 26
  | fileTooLarge => 27
  | storageFull => 28
  | notSeekable => 29
  | readOnly => 30
  | brokenPipe => 32
  | nameTooLong => 36
  | linkLoop => 40
  | notSupported => 95
  | quotaExceeded => 122

/-- The error with a number. -/
def ofNumber? (n : Nat) : Option SystemError := all.find? fun e => e.number == n

/-- An error is found again by its number. -/
theorem ofNumber?_number (e : SystemError) : ofNumber? e.number = some e := by
  cases e <;> rfl

/-- The error in the words of the operating system. -/
def message : SystemError → String
  | notPermitted => "Operation not permitted"
  | notFound => "No such file or directory"
  | inputOutput => "Input/output error"
  | noSuchAddress => "No such device or address"
  | wouldBlock => "Resource temporarily unavailable"
  | outOfMemory => "Cannot allocate memory"
  | permissionDenied => "Permission denied"
  | busy => "Device or resource busy"
  | noSuchDevice => "No such device"
  | notADirectory => "Not a directory"
  | isDirectory => "Is a directory"
  | invalidArgument => "Invalid argument"
  | fileBusy => "Text file busy"
  | fileTooLarge => "File too large"
  | storageFull => "No space left on device"
  | notSeekable => "Illegal seek"
  | readOnly => "Read-only file system"
  | brokenPipe => "Broken pipe"
  | nameTooLong => "File name too long"
  | linkLoop => "Too many levels of symbolic links"
  | notSupported => "Operation not supported"
  | quotaExceeded => "Disk quota exceeded"

end SystemError

/-- Why a file holds no readable text. -/
inductive FileError where
  | system (error : SystemError)
  | invalidEncoding
  deriving DecidableEq

/-- The error in words. -/
def FileError.message : FileError → String
  | system e => e.message ++ " (os error " ++ toString e.number ++ ")"
  | invalidEncoding => "stream did not contain valid UTF-8"

end GrammarSampler
