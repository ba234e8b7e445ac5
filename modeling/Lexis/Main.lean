import Lexis.CommandLine

/-!
The executable. It fetches the one input that the arguments ask for and prints the outcome.
-/

namespace Lexis.Main

/-- The number of a system error, which is reported with either sign. -/
def errorNumber (code : UInt32) : Nat := min code.toNat (0-code).toNat

def readFailure : IO.Error → ReadFailure
  | .noFileOrDirectory _ _ _ => .notFound
  | .permissionDenied _ _ _ => .permissionDenied
  | .inappropriateType _ code details =>
      match errorNumber code with
      | 20 => .notADirectory
      | 21 => .isADirectory
      | _ => .other details
  | .invalidArgument _ code details =>
      if errorNumber code = 36 then .nameTooLong else .other details
  | e => .other (toString e)

/-- The content of a real file. -/
def fetch (path : String) : IO (Except ReadFailure (List UInt8)) := do
  try
    let bytes ← IO.FS.readBinFile path
    return .ok bytes.toList
  catch e => return .error (readFailure e)

/-- Reads the file of the arguments, or standard input if they name none. -/
def outcome (args : List String) : IO Outcome := do
  let missing : File.Access := fun _ => .error .notFound
  match CommandLine.Options.ofArguments args with
  | none => return CommandLine.run missing [] args
  | some o =>
    match o.file with
    | some path =>
      let content ← fetch path
      return CommandLine.run (fun _ => content) [] args
    | none =>
      let stdin ← IO.getStdin
      let input ← stdin.readBinToEnd
      return CommandLine.run missing input.toList args

end Lexis.Main

def main (args : List String) : IO UInt32 := do
  let o ← Lexis.Main.outcome args
  IO.print o.output
  o.diagnostics.forM (fun line => IO.eprintln line)
  o.fatal.forM (fun message => IO.eprintln ("Error: "++message))
  return o.exit.toUInt32
