import Lexis.Dump
import Lexis.Proofs.Grammar
import Lexis.Proofs.Texts

/-!
Listings in text, row by row. No token has a newline or a quote in its text, so a listing has one row
for each token, and can be cut into its rows and read again: `entries_text`.
-/

namespace Lexis

namespace Kind

/-- The names of the classes, as listings write them. -/
def names : List (String × Kind) :=
  [("Unknown",.unknown),("Identifier",.identifier),("IntegerLiteral",.integer),
   ("LeftParen",.leftParen),("RightParen",.rightParen),("Plus",.plus),("Minus",.minus),
   ("Star",.star),("Slash",.slash),("Equals",.equals),("EndOfFile",.endOfFile)]

def ofLabel? (label : String) : Option Kind := names.lookup label

theorem ofLabel_label (k : Kind) : ofLabel? k.label = some k := by cases k <;> decide

/-- A label is one word. -/
theorem label_space (k : Kind) : ' ' ∉ k.label.toList := by cases k <;> decide

end Kind

/-- What a row tells of a token. -/
structure Entry where
  position : Position
  kind : Kind
  text : String
  start : Nat
  deriving DecidableEq, Repr

def Lexeme.entry (l : Lexeme) : Entry := ⟨l.position,l.token.kind,l.text,l.token.span.start⟩

/-- What is before the first character of its kind, and what is behind it. -/
def cutAt (c : Char) (cs : List Char) : List Char × List Char :=
  (cs.takeWhile (· != c),(cs.dropWhile (· != c)).tail)

theorem cutAt_append (c : Char) (front back : List Char) (h : c ∉ front) :
    cutAt c (front++c::back) = (front,back) := by
  have hfront : ∀ d ∈ front,(d != c) = true := by
    intro d hd
    rw [bne_iff_ne]
    rintro rfl
    exact h hd
  rw [cutAt,List.takeWhile_append_of_pos hfront,List.dropWhile_append_of_pos hfront]
  simp

namespace Entry

/-- The row of an entry, without its newline. -/
def row (e : Entry) : String :=
  s!"{e.position.line}:{e.position.column} "++(e.kind.label++" '"++e.text++s!"' @{e.start}")

theorem toDigits_newline (n : Nat) : '\n' ∉ Nat.toDigits 10 n := by
  intro h
  cases Nat.isDigit_of_mem_toDigits (by omega) (by omega) h

/-- Only the text of an entry could break its row. -/
theorem row_newline (e : Entry) (h : '\n' ∉ e.text.toList) : '\n' ∉ e.row.toList := by
  have hlabel : '\n' ∉ e.kind.label.toList := by cases e.kind <;> decide
  simp [row,String.toList_append,toDigits_newline,hlabel,h]
  decide

/-- A row read from the left: two numbers with a colon and a space behind them, a label, and a text
between quotes, which has no quote in it. -/
def ofRow? (row : List Char) : Option Entry := do
  let (line,':'::row) ← Text.Json.natural row | none
  let (column,' '::row) ← Text.Json.natural row | none
  let (label,row) := cutAt ' ' row
  let kind ← Kind.ofLabel? (String.ofList label)
  let '\''::row := row | none
  let (text,row) := cutAt '\'' row
  let ' ' :: '@' :: row := row | none
  let (start,[]) ← Text.Json.natural row | none
  some ⟨⟨line,column⟩,kind,String.ofList text,start⟩

theorem toList_row (e : Entry) :
    e.row.toList = e.position.line.repr.toList++ ':'::(e.position.column.repr.toList++ ' '::
      (e.kind.label.toList++ ' ' :: '\'' :: (e.text.toList++ '\'' :: ' ' :: '@' ::
        (e.start.repr.toList++[])))) := by
  have hrow : e.row = e.position.line.repr++":"++e.position.column.repr++" "++
      (e.kind.label++" '"++e.text++("' @"++e.start.repr)) := rfl
  simp [hrow,String.toList_append]

/-- A row without a quote in its text is read as its entry. -/
theorem ofRow_row (e : Entry) (h : '\'' ∉ e.text.toList) : ofRow? e.row.toList = some e := by
  have hline (back : List Char) := (Text.Json.numeral_repr e.position.line).natural_eq
    (':'::back) (Text.Json.noDigit_cons ':' back rfl)
  have hcolumn (back : List Char) := (Text.Json.numeral_repr e.position.column).natural_eq
    (' '::back) (Text.Json.noDigit_cons ' ' back rfl)
  have hlabel (back : List Char) := cutAt_append ' ' e.kind.label.toList back e.kind.label_space
  have htext (back : List Char) := cutAt_append '\'' e.text.toList back h
  have hstart := (Text.Json.numeral_repr e.start).natural_eq [] (by simp [Text.Json.NoDigit])
  rw [toList_row,ofRow?]
  simp only [Option.bind_eq_bind,Option.bind_some,hline,hcolumn,hlabel,htext,hstart,
    String.ofList_toList,Kind.ofLabel_label]

end Entry

namespace Lexeme

/-- A character that neither begins nor continues a token is in no text of one. -/
theorem Given.not_mem_text {l : Lexeme} (h : l.Given) (c : Char) (hfirst : Kind.ofFirst? c = none)
    (hnext : ∀ kind : Kind,kind.continuedBy c = false) : c ∉ l.text.toList := by
  rcases h.text_spelled with htext | hspelled
  · rw [htext]
    simp
  · exact hspelled.not_mem c hfirst (hnext _)

theorem Given.text_newline {l : Lexeme} (h : l.Given) : '\n' ∉ l.text.toList :=
  h.not_mem_text '\n' rfl (fun kind => by cases kind <;> rfl)

theorem Given.text_quote {l : Lexeme} (h : l.Given) : '\'' ∉ l.text.toList :=
  h.not_mem_text '\'' rfl (fun kind => by cases kind <;> rfl)

end Lexeme

namespace Reader

/-- Every token of a scan was given by a reader of the source. -/
theorem given_of_scan (r : Reader) (recovery : Recovery) (t : Token)
    (ht : t ∈ (r.scan recovery).1.tokens) : (Lexeme.mk r.source t).Given := by
  induction r using next_induction with
  | finish r u r' hn hu =>
    rw [scan_of_end recovery hn hu] at ht
    obtain rfl := List.mem_singleton.mp ht
    exact ⟨r,rfl,by rw [hn]⟩
  | token r u r' hn hu ih =>
    rw [scan_of_token recovery hn hu] at ht
    rcases List.mem_cons.mp ht with rfl | ht
    · exact ⟨r,rfl,by rw [hn]⟩
    · rw [← (next_of_token hn hu).1.source]
      exact ih ht
  | fault r e r' hn ih =>
    cases recovery with
    | abort => simp [scan_abort_of_error hn] at ht
    | skip =>
      rw [scan_skip_of_error hn] at ht
      rw [← (next_of_error hn).1.source]
      exact ih ht

end Reader

namespace Dump

/-- The rows of a text in which each row ends with a newline. -/
def rows (output : String) : List String :=
  ((output.toList.splitOn '\n').dropLast).map String.ofList

/-- The entries of a listing in text, read row by row. -/
def entries? (output : String) : Option (List Entry) :=
  (rows output).mapM (fun row => Entry.ofRow? row.toList)

/-- A listing in text tells nothing but the entries. -/
theorem text_eq (ls : List Lexeme) :
    text ls = String.join ((ls.map Lexeme.entry).map (fun e => e.row++"\n")) := by
  rw [text,List.map_map]
  rfl

theorem toList_text_cons (l : Lexeme) (ls : List Lexeme) :
    (text (l::ls)).toList = l.entry.row.toList++ '\n'::(text ls).toList := by
  simp [text_eq,String.toList_append,String.toList_join]

/-- A listing has one row for each token. -/
theorem rows_text (ls : List Lexeme) (h : ∀ l ∈ ls,l.Given) :
    rows (text ls) = ls.map (fun l => l.entry.row) := by
  have hsplit : (text ls).toList.splitOn '\n' = ls.map (fun l => l.entry.row.toList)++[[]] := by
    induction ls with
    | nil => rfl
    | cons l ls ih =>
      have hrow := l.entry.row_newline (h l List.mem_cons_self).text_newline
      rw [toList_text_cons,List.splitOn_append_cons_self_of_not_mem hrow,
        ih (fun m hm => h m (List.mem_cons_of_mem l hm))]
      rfl
  rw [rows,hsplit,List.dropLast_concat,List.map_map]
  exact List.map_congr_left (fun l _ => String.ofList_toList)

theorem entries_text (ls : List Lexeme) (h : ∀ l ∈ ls,l.Given) :
    entries? (text ls) = some (ls.map Lexeme.entry) := by
  rw [entries?,rows_text ls h]
  induction ls with
  | nil => rfl
  | cons l ls ih =>
    have hread := l.entry.ofRow_row (h l List.mem_cons_self).text_quote
    rw [List.map_cons,List.mapM_cons,hread,ih (fun m hm => h m (List.mem_cons_of_mem l hm))]
    rfl

/-- The newlines of a listing in text are those that end its rows. -/
theorem count_text (ls : List Lexeme) (h : ∀ l ∈ ls,l.Given) :
    (text ls).toList.count '\n' = ls.length := by
  induction ls with
  | nil => rfl
  | cons l ls ih =>
    have hrow := l.entry.row_newline (h l List.mem_cons_self).text_newline
    rw [toList_text_cons,List.count_append,List.count_eq_zero_of_not_mem hrow,List.count_cons_self,
      ih (fun m hm => h m (List.mem_cons_of_mem l hm)),List.length_cons,Nat.zero_add]

end Dump

end Lexis
