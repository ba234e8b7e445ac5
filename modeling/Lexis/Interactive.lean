import Lexis.Dump
import Lexis.Outcome
import Lexis.Scan
import Lexis.Unicode.WhiteSpace

/-!
Scanning line by line. Each line is a source of its own, so positions begin anew on every line.
-/

namespace Lexis

namespace Interactive

inductive Failure where
  | notUtf8
  deriving DecidableEq, Repr

def Failure.message : Failure → String
  | .notUtf8 => "stream did not contain valid UTF-8"

/-- Output and headings of reports, up to the failure if there was one. -/
structure Transcript where
  output : String
  diagnostics : List String
  failure : Option Failure
  deriving DecidableEq, Repr

def silent : Transcript := ⟨"",[],none⟩

/-- The input cut after every newline. -/
def lines : List UInt8 → List (List UInt8)
  | [] => []
  | b::rest =>
    if b = Source.newline then [b]::lines rest
    else
      match lines rest with
      | [] => [[b]]
      | line::more => (b::line)::more

/-- A line without its newline and one carriage return before that. -/
def body (line : List UInt8) : List UInt8 :=
  match line.reverse with
  | 0x0A::0x0D::before => before.reverse
  | 0x0A::before => before.reverse
  | _ => line

/-- What a line asks for. -/
inductive Request where
  | nothing
  | quit
  | scan
  deriving DecidableEq, Repr

def Request.ofText (text : String) : Request :=
  match String.ofList (Unicode.trim text.toList) with
  | "" => .nothing
  | ":q" => .quit
  | ":quit" => .quit
  | _ => .scan

/-- The dump of one line. Faults are skipped and reported. -/
def answer (encoding : Encoding) (line : List UInt8) : Transcript :=
  match Source.ofBytes line encoding with
  | .error e => ⟨"",[e.message],none⟩
  | .ok source =>
    let scan := Scan.ofWindow .skip 0 source.bytes
    ⟨Dump.text (Lexeme.ofTokens source scan.tokens),scan.errors.map Error.diagnostic,none⟩

/-- Answers the lines in order until one of them quits or is no text. -/
def converse (encoding : Encoding) : List (List UInt8) → Transcript
  | [] => silent
  | line::rest =>
    match String.fromUTF8? (body line).toByteArray with
    | none => ⟨"",[],some .notUtf8⟩
    | some text =>
      match Request.ofText text with
      | .nothing => converse encoding rest
      | .quit => silent
      | .scan =>
        let first := answer encoding (body line)
        let later := converse encoding rest
        ⟨first.output++later.output,first.diagnostics++later.diagnostics,later.failure⟩

/-- The transcript of a whole input. -/
def run (encoding : Encoding) (input : List UInt8) : Transcript := converse encoding (lines input)

/-- A failure ends the run with the given account of it. -/
def Transcript.outcome (account : Failure → String) (t : Transcript) : Outcome :=
  match t.failure with
  | none => ⟨0,t.output,t.diagnostics,none⟩
  | some failure => ⟨1,t.output,t.diagnostics,some (account failure)⟩

theorem lines_flatten (input : List UInt8) : (lines input).flatten = input := by
  induction input with
  | nil => rfl
  | cons b rest ih =>
    simp only [lines]
    split
    · simp [ih]
    · cases hl : lines rest with
      | nil => simp_all
      | cons line more => simp_all

end Interactive

end Lexis
