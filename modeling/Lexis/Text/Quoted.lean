import Lexis.Text.Hex
import Lexis.Unicode.DefaultIgnorable
import Lexis.Unicode.GraphemeExtend
import Lexis.Unicode.Unprintable

/-!
Text between double quotes, for descriptions. What would break the quotes, cannot be seen or would
attach to the character before it is escaped.
-/

namespace Lexis.Text

/-- Cannot be shown as itself: it has no shape, is left out of view, or is drawn onto another. -/
def isHidden (c : Char) : Bool :=
  Unicode.isUnprintable c || Unicode.isDefaultIgnorable c || Unicode.isCombining c

def escape (c : Char) : String :=
  if c = '\x00' then "\\0"
  else if c = '\t' then "\\t"
  else if c = '\r' then "\\r"
  else if c = '\n' then "\\n"
  else if c = '"' then "\\\""
  else if c = '\\' then "\\\\"
  else if isHidden c then "\\u\x7b"++lowerHex 1 c.toNat++"\x7d"
  else String.singleton c

def quoted (s : String) : String := "\""++String.join (s.toList.map escape)++"\""

end Lexis.Text
