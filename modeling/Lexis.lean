import Lexis.Unicode.Ranges
import Lexis.Unicode.Alphabetic
import Lexis.Unicode.WhiteSpace
import Lexis.Unicode.DefaultIgnorable
import Lexis.Unicode.GraphemeExtend
import Lexis.Unicode.Unprintable
import Lexis.Text.Hex
import Lexis.Text.Quoted
import Lexis.Text.Json
import Lexis.Named
import Lexis.Sequence
import Lexis.Sequence.Encode
import Lexis.Encoding
import Lexis.Recovery
import Lexis.Fault
import Lexis.Error
import Lexis.Span
import Lexis.Source
import Lexis.Reader
import Lexis.Kind
import Lexis.Item
import Lexis.Token
import Lexis.Scan
import Lexis.Lexeme
import Lexis.Dump
import Lexis.Session
import Lexis.File
import Lexis.Directory
import Lexis.Outcome
import Lexis.Interactive
import Lexis.CommandLine.Options
import Lexis.CommandLine
import Lexis.Main
import Lexis.Proofs.Extension
import Lexis.Proofs.Run
import Lexis.Proofs.Class
import Lexis.Proofs.Alphabet
import Lexis.Proofs.Course
import Lexis.Proofs.Tiling
import Lexis.Proofs.Glyph
import Lexis.Proofs.Shift
import Lexis.Proofs.Walk
import Lexis.Proofs.Separator
import Lexis.Proofs.Spacing
import Lexis.Proofs.Next
import Lexis.Proofs.Drive
import Lexis.Proofs.Tape
import Lexis.Proofs.Synchrony
import Lexis.Proofs.Stability
import Lexis.Proofs.Suffix
import Lexis.Proofs.Spelling
import Lexis.Proofs.Characters
import Lexis.Proofs.Schedule
import Lexis.Proofs.Bench
import Lexis.Proofs.Sharing
import Lexis.Proofs.Munch
import Lexis.Proofs.Exits
import Lexis.Proofs.Reading
import Lexis.Proofs.Grammar
import Lexis.Proofs.Strict
import Lexis.Proofs.Texts
import Lexis.Proofs.Rows
import Lexis.Proofs.Program
import Lexis.Proofs.Conversation
import Lexis.Proofs.Payload
import Lexis.Proofs.Inverse
import Lexis.Proofs.Defects
import Lexis.Proofs.Diagnosis
import Lexis.Proofs.Tail
import Lexis.Proofs.Lines
import Lexis.Proofs.Listing
