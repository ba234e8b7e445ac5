/-!
The classes of tokens. Their codes are fixed: other programs store them.
-/

namespace Lexis

inductive Kind where
  | unknown
  | identifier
  | integer
  | leftParen
  | rightParen
  | plus
  | minus
  | star
  | slash
  | equals
  | endOfFile
  deriving DecidableEq, Repr

namespace Kind

def all : List Kind :=
  [.unknown,.identifier,.integer,.leftParen,.rightParen,.plus,.minus,.star,.slash,.equals,
   .endOfFile]

def code : Kind → Int
  | .unknown => 0
  | .identifier => 1
  | .integer => 2
  | .leftParen => 3
  | .rightParen => 4
  | .plus => 5
  | .minus => 6
  | .star => 7
  | .slash => 8
  | .equals => 9
  | .endOfFile => -1

def ofCode? : Int → Option Kind
  | 0 => some .unknown
  | 1 => some .identifier
  | 2 => some .integer
  | 3 => some .leftParen
  | 4 => some .rightParen
  | 5 => some .plus
  | 6 => some .minus
  | 7 => some .star
  | 8 => some .slash
  | 9 => some .equals
  | -1 => some .endOfFile
  | _ => none

/-- The name of the class, as dumps write it. -/
def label : Kind → String
  | .unknown => "Unknown"
  | .identifier => "Identifier"
  | .integer => "IntegerLiteral"
  | .leftParen => "LeftParen"
  | .rightParen => "RightParen"
  | .plus => "Plus"
  | .minus => "Minus"
  | .star => "Star"
  | .slash => "Slash"
  | .equals => "Equals"
  | .endOfFile => "EndOfFile"

/-- A punctuator shows as itself, another class as a word in capitals. -/
def symbol : Kind → String
  | .unknown => "UNKNOWN"
  | .identifier => "IDENTIFIER"
  | .integer => "INTEGER"
  | .leftParen => "("
  | .rightParen => ")"
  | .plus => "+"
  | .minus => "-"
  | .star => "*"
  | .slash => "/"
  | .equals => "="
  | .endOfFile => "EOF"

/-- The class of a token that is this one character. -/
def punctuator? : Char → Option Kind
  | '(' => some .leftParen
  | ')' => some .rightParen
  | '+' => some .plus
  | '-' => some .minus
  | '*' => some .star
  | '/' => some .slash
  | '=' => some .equals
  | _ => none

theorem ofCode_code (k : Kind) : ofCode? k.code = some k := by cases k <;> rfl

end Kind

end Lexis
