/-!
Values that are chosen by name.
-/

namespace Lexis

/-- Why a name chooses nothing. -/
inductive NameError where
  | unmatched
  deriving DecidableEq, Repr

def NameError.message : NameError → String
  | .unmatched => "Matching variant not found"

namespace Named

/-- The value listed under exactly this name. -/
def find {α : Type} (names : List (String × α)) (name : String) : Except NameError α :=
  match names.lookup name with
  | some value => .ok value
  | none => .error .unmatched

/-- The value listed under this name in small letters; only A to Z have another case. -/
def findAnyCase {α : Type} (names : List (String × α)) (name : String) : Except NameError α :=
  find names name.toLower

end Named

end Lexis
