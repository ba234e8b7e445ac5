import Lexis.Lexeme
import Lexis.Named
import Lexis.Text.Json

/-!
Listings of tokens: one line of text for each, or a JSON list of records.
-/

namespace Lexis

namespace Dump

inductive Format where
  | text
  | json
  deriving DecidableEq, Repr, Inhabited

def Format.ofName : String → Except NameError Format :=
  Named.find [("text",.text),("json",.json)]

/-- Line, column, class, text and offset. -/
def line (l : Lexeme) : String :=
  s!"{l.position.line}:{l.position.column} "++l.display++"\n"

def text (ls : List Lexeme) : String := String.join (ls.map line)

def field (r : Record) : Text.Json :=
  .record [("kind",.text r.kind.label),("code",.number r.code),("begin",.number r.start),
    ("end",.number r.stop),("text",.text r.text)]

def json (ls : List Lexeme) : String :=
  Text.Json.pretty 0 (.list (ls.map (fun l => field l.record)))

def render : Format → List Lexeme → String
  | .text => text
  | .json => json

end Dump

end Lexis
