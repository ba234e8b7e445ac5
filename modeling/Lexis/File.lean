import Lexis.Source

/-!
Sources from files. What reads a file is a function from paths to content, so that a directory kept
in memory does as well as a real one.
-/

namespace Lexis

namespace File

abbrev Access := String → Except ReadFailure (List UInt8)

def load (access : Access) (path : String) : Except Error (List UInt8) :=
  if path = "" then .error (.missingArgument "path")
  else
    match access path with
    | .ok bytes => .ok bytes
    | .error failure => .error (.unreadable path failure)

end File

/-- The content of a file as a source with the path for its name. The file is read before the
encoding is looked at. -/
def Source.ofFile (access : File.Access) (path : String) (encoding : Encoding) :
    Except Error Source :=
  match File.load access path with
  | .error e => .error e
  | .ok bytes => (Source.ofBytes bytes encoding).map (Source.withName path)

end Lexis
