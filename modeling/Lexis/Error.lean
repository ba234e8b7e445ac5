import Lexis.Fault

/-!
The errors of the library, each with its message, its status, the diagnostic that reports it and,
where it has a place in a source, its offset.
-/

namespace Lexis

/-- Why a file could not be read. -/
inductive ReadFailure where
  | notFound
  | permissionDenied
  | notADirectory
  | isADirectory
  | nameTooLong
  | other (message : String)
  deriving DecidableEq, Repr

def ReadFailure.message : ReadFailure → String
  | .notFound => "No such file or directory (os error 2)"
  | .permissionDenied => "Permission denied (os error 13)"
  | .notADirectory => "Not a directory (os error 20)"
  | .isADirectory => "Is a directory (os error 21)"
  | .nameTooLong => "File name too long (os error 36)"
  | .other message => message

/-- One flat tag for every outcome. The codes are fixed. -/
inductive Status where
  | success
  | missingArgument
  | invalidArgument
  | allocation
  | unreadable
  | truncated
  | badLead
  | unrecognized
  | badContinuation
  deriving DecidableEq, Repr

namespace Status

def all : List Status :=
  [.success,.missingArgument,.invalidArgument,.allocation,.unreadable,.truncated,.badLead,
   .unrecognized,.badContinuation]

def code : Status → Nat
  | .success => 0
  | .missingArgument => 1
  | .invalidArgument => 2
  | .allocation => 3
  | .unreadable => 4
  | .truncated => 5
  | .badLead => 6
  | .unrecognized => 7
  | .badContinuation => 8

/-- The name of the status, as it is shown. -/
def label : Status → String
  | .success => "Success"
  | .missingArgument => "NullArgument"
  | .invalidArgument => "InvalidArgument"
  | .allocation => "AllocationFailed"
  | .unreadable => "IoError"
  | .truncated => "TruncatedSequence"
  | .badLead => "InvalidLeadByte"
  | .unrecognized => "UnrecognizedCharacter"
  | .badContinuation => "InvalidContinuationByte"

end Status

inductive Error where
  | missingArgument (what : String)
  | invalidArgument (reason : String)
  | allocation (bytes : Nat)
  | unreadable (path : String) (failure : ReadFailure)
  | lexical (offset : Nat) (fault : Fault)
  deriving DecidableEq, Repr

namespace Error

def message : Error → String
  | .missingArgument what => "missing argument: "++what
  | .invalidArgument reason => "invalid argument: "++reason
  | .allocation bytes => s!"could not allocate {bytes} bytes for source buffer"
  | .unreadable path _ => "could not read '"++path++"'"
  | .lexical offset fault => fault.message offset

/-- Where the input at fault begins. -/
def offset? : Error → Option Nat
  | .lexical offset _ => some offset
  | _ => none

/-- How many bytes to pass before reading on. -/
def resync? : Error → Option Nat
  | .lexical _ fault => some fault.resync
  | _ => none

def isRecoverable (e : Error) : Bool := e.resync?.isSome

def label? : Error → Option Label
  | .lexical offset fault => some (fault.label offset)
  | _ => none

def status : Error → Status
  | .missingArgument _ => .missingArgument
  | .invalidArgument _ => .invalidArgument
  | .allocation _ => .allocation
  | .unreadable _ _ => .unreadable
  | .lexical _ (.malformed (.truncated _ _)) => .truncated
  | .lexical _ (.malformed (.badLead _)) => .badLead
  | .lexical _ (.malformed (.badContinuation _ _)) => .badContinuation
  | .lexical _ (.unrecognized _) => .unrecognized

/-- The code that heads the report of an error. -/
def diagnostic : Error → String
  | .missingArgument _ => "lex::null_argument"
  | .invalidArgument _ => "lex::invalid_argument"
  | .allocation _ => "lex::allocation"
  | .unreadable _ _ => "lex::io"
  | .lexical _ (.malformed (.truncated _ _)) => "lex::truncated"
  | .lexical _ (.malformed (.badLead _)) => "lex::invalid_lead_byte"
  | .lexical _ (.malformed (.badContinuation _ _)) => "lex::invalid_continuation_byte"
  | .lexical _ (.unrecognized _) => "lex::unrecognized_character"

def help? : Error → Option String
  | .lexical _ (.malformed (.truncated _ _)) =>
      some "the input ends in the middle of a multi-byte character"
  | _ => none

/-- The error beneath this one. -/
def cause? : Error → Option ReadFailure
  | .unreadable _ failure => some failure
  | _ => none

end Error

end Lexis
