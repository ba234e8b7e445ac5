import Lexis.Source
import Lexis.Text.Quoted
import Lexis.Token

/-!
Tokens in their source: the bytes that spell them, and how they are shown.
-/

namespace Lexis

structure Lexeme where
  source : Source
  token : Token
  deriving DecidableEq

/-- What a dump tells of a token. -/
structure Record where
  kind : Kind
  code : Int
  start : Nat
  stop : Nat
  text : String
  deriving DecidableEq, Repr

namespace Lexeme

def bytes (l : Lexeme) : List UInt8 := l.source.slice l.token.span.start l.token.span.stop

/-- The bytes as text. Strict UTF-8 knows only the shortest sequence of a character, so a lexeme
with a longer one has no text. -/
def text (l : Lexeme) : String := (String.fromUTF8? l.bytes.toByteArray).getD ""

def position (l : Lexeme) : Position := l.source.position l.token.span.start

def record (l : Lexeme) : Record :=
  ⟨l.token.kind,l.token.kind.code,l.token.span.start,l.token.span.stop,l.text⟩

def display (l : Lexeme) : String :=
  l.token.kind.label++" '"++l.text++s!"' @{l.token.span.start}"

def describe (l : Lexeme) : String :=
  "Token \x7b kind: "++l.token.kind.label++", span: Span \x7b begin: "++l.token.span.start.repr++
    ", end: "++l.token.span.stop.repr++" \x7d, text: "++Text.quoted l.text++" \x7d"

/-- Tokens of one source. -/
def ofTokens (source : Source) (tokens : List Token) : List Lexeme :=
  tokens.map (Lexeme.mk source)

end Lexeme

end Lexis
