import Lexis.Text.Hex

/-!
JSON values and their layout over several lines, two spaces a level.
-/

namespace Lexis.Text

inductive Json where
  | number (value : Int)
  | text (value : String)
  | list (items : List Json)
  | record (fields : List (String × Json))

namespace Json

/-- Only quotes, backslashes and control characters need an escape. -/
def escape (c : Char) : String :=
  if c = '"' then "\\\""
  else if c = '\\' then "\\\\"
  else if c = '\x08' then "\\b"
  else if c = '\t' then "\\t"
  else if c = '\n' then "\\n"
  else if c = '\x0c' then "\\f"
  else if c = '\r' then "\\r"
  else if c < ' ' then "\\u"++lowerHex 4 c.toNat
  else String.singleton c

def quoted (s : String) : String := "\""++String.join (s.toList.map escape)++"\""

/-- A new line at the given level. -/
def newline (level : Nat) : String := String.ofList ('\n'::List.replicate (2*level) ' ')

mutual

/-- A value that begins at the given level. Empty lists and records stay on one line. -/
def pretty (level : Nat) : Json → String
  | .number value => value.repr
  | .text value => quoted value
  | .list [] => "[]"
  | .list (item::items) =>
      "["++newline (level+1)++pretty (level+1) item++
        String.join (prettyItems (level+1) items)++newline level++"]"
  | .record [] => "\x7b\x7d"
  | .record ((name,value)::fields) =>
      "\x7b"++newline (level+1)++quoted name++": "++pretty (level+1) value++
        String.join (prettyFields (level+1) fields)++newline level++"\x7d"

/-- The items after the first, each behind its comma. -/
def prettyItems (level : Nat) : List Json → List String
  | [] => []
  | item::items => (","++newline level++pretty level item)::prettyItems level items

/-- The fields after the first, each behind its comma. -/
def prettyFields (level : Nat) : List (String × Json) → List String
  | [] => []
  | (name,value)::fields =>
      (","++newline level++quoted name++": "++pretty level value)::prettyFields level fields

end

end Json

end Lexis.Text
