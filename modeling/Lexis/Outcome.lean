/-!
What a run of the program leaves behind.
-/

namespace Lexis

structure Outcome where
  exit : Nat
  output : String
  /-- The headings of the reports, in order. -/
  diagnostics : List String
  /-- Why the run failed. -/
  fatal : Option String
  deriving DecidableEq, Repr

namespace Outcome

/-- Arguments that make no sense leave nothing but the status. -/
def badUsage : Outcome := ⟨2,"",[],none⟩

def failure (message : String) : Outcome := ⟨1,"",[],some message⟩

/-- A number at the right of five columns. -/
def causeNumber (n : Nat) : String :=
  String.ofList (List.replicate (5-n.repr.length) ' ')++n.repr

/-- A message with the causes beneath it, numbered if there are several. -/
def explain (message : String) : List String → String
  | [] => message
  | [cause] => message++"\n\nCaused by:\n    "++cause
  | causes =>
      message++"\n\nCaused by:"++
        String.join (causes.zipIdx.map (fun c => "\n"++causeNumber c.2++": "++c.1))

end Outcome

end Lexis
