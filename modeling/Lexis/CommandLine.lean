import Lexis.CommandLine.Options
import Lexis.File
import Lexis.Interactive

/-!
The program: it dumps the tokens of a file, or those of standard input line by line.
-/

namespace Lexis

namespace CommandLine

/-- The dump of a file. Its tokens are written whether or not there are errors. -/
def dump (o : Options) (access : File.Access) (path : String) : Outcome :=
  match Source.ofFile access path o.encoding with
  | .error e =>
      .failure (Outcome.explain e.message (e.cause?.toList.map ReadFailure.message))
  | .ok source =>
    let scan := Scan.ofWindow o.recovery 0 source.bytes
    let listing := Dump.render o.format (Lexeme.ofTokens source scan.tokens)
    let output := match o.format with
      | .text => listing
      | .json => listing++"\n"
    let fatal :=
      if scan.errors.isEmpty then none else some s!"{scan.errors.length} error(s)"
    ⟨if scan.errors.isEmpty then 0 else 1,output,scan.errors.map Error.diagnostic,fatal⟩

/-- A failure at standard input is told twice: as that of the conversation and of the stream. -/
def account (f : Interactive.Failure) : String :=
  Outcome.explain "run REPL" [f.message,f.message]

def run (access : File.Access) (input : List UInt8) (args : List String) : Outcome :=
  match Options.ofArguments args with
  | none => .badUsage
  | some o =>
    if o.encoding.decoder?.isNone then
      .failure ("unsupported encoding '"++o.encoding.name++"'")
    else
      match o.file with
      | some path => dump o access path
      | none => (Interactive.run o.encoding input).outcome account

end CommandLine

end Lexis
