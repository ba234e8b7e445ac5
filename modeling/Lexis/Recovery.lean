import Lexis.Named

/-!
What a scan does at input that begins no token.
-/

namespace Lexis

inductive Recovery where
  | abort
  | skip
  deriving DecidableEq, Repr, Inhabited

namespace Recovery

def name : Recovery → String
  | .abort => "abort"
  | .skip => "skip"

def label : Recovery → String
  | .abort => "Abort"
  | .skip => "Skip"

def ofName : String → Except NameError Recovery :=
  Named.findAnyCase [("abort",.abort),("skip",.skip)]

end Recovery

end Lexis
