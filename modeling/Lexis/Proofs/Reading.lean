import Lexis.Text.Json

/-!
JSON text read back. The reader knows the values that listings are made of, with any blanks between
their parts, and takes nothing that is not JSON. The lemmas say what one step of it does with the
text in front of it.
-/

namespace Lexis.Text.Json

/-- Characters that may stand between the parts of a value. -/
def isGap (c : Char) : Bool := c == ' ' || c == '\t' || c == '\n' || c == '\r'

def pastGap (cs : List Char) : List Char := cs.dropWhile isGap

/-- A natural number at the front, without zeros before it, and what is left behind it. -/
def natural (cs : List Char) : Option (Nat × List Char) :=
  match cs.takeWhile Char.isDigit with
  | [] => none
  | '0'::_::_ => none
  | digits => some (Nat.ofDigitChars 10 digits 0,cs.dropWhile Char.isDigit)

def integer : List Char → Option (Int × List Char)
  | '-'::rest => (natural rest).map (fun (n,rest) => (-n,rest))
  | cs => (natural cs).map (fun (n,rest) => (n,rest))

def hexValue? (c : Char) : Option Nat :=
  if c.isDigit then some (c.toNat - '0'.toNat)
  else if 'a' ≤ c ∧ c ≤ 'f' then some (c.toNat - 'a'.toNat+10)
  else if 'A' ≤ c ∧ c ≤ 'F' then some (c.toNat - 'A'.toNat+10)
  else none

/-- The character of a code in base sixteen. Half a surrogate pair is none. -/
def ofHex? (digits : List Char) : Option Char := do
  let values ← digits.mapM hexValue?
  let code := values.foldl (fun code value => 16*code+value) 0
  if code.isValidChar then some (Char.ofNat code) else none

def ofEscape? : Char → Option Char
  | '"' => some '"'
  | '\\' => some '\\'
  | '/' => some '/'
  | 'b' => some '\x08'
  | 'f' => some '\x0c'
  | 'n' => some '\n'
  | 'r' => some '\r'
  | 't' => some '\t'
  | _ => none

/-- The characters up to the closing quote, and what is left behind it. -/
def characters : List Char → Option (List Char × List Char)
  | [] => none
  | '"'::rest => some ([],rest)
  | '\\' :: 'u' :: a::b::c::d::rest => do
      let first ← ofHex? [a,b,c,d]
      let (more,rest) ← characters rest
      some (first::more,rest)
  | '\\'::e::rest => do
      let first ← ofEscape? e
      let (more,rest) ← characters rest
      some (first::more,rest)
  | c::rest =>
      if c < ' ' then none
      else do
        let (more,rest) ← characters rest
        some (c::more,rest)

/-- A quoted text at the front, and what is left behind it. -/
def quotation : List Char → Option (String × List Char)
  | '"'::rest => (characters rest).map (fun (cs,rest) => (String.ofList cs,rest))
  | _ => none

theorem pastGap_length (cs : List Char) : (pastGap cs).length ≤ cs.length :=
  (List.dropWhile_suffix isGap).length_le

mutual

/-- The value at the front, and what is left behind it. -/
def value (cs : List Char) : Option (Json × List Char) :=
  match _ : pastGap cs with
  | '['::rest =>
    if (pastGap rest).head? = some ']' then some (.list [],(pastGap rest).tail)
    else do
      let (first,rest) ← items rest
      some (.list first,rest)
  | '\x7b'::rest =>
    if (pastGap rest).head? = some '\x7d' then some (.record [],(pastGap rest).tail)
    else do
      let (first,rest) ← fields rest
      some (.record first,rest)
  | '"'::rest => (quotation ('"'::rest)).map (fun (s,rest) => (.text s,rest))
  | rest => (integer rest).map (fun (i,rest) => (.number i,rest))
termination_by 2*cs.length
decreasing_by
  all_goals
    have hl := pastGap_length cs
    simp_all
    omega

/-- Values with commas between them, up to the closing bracket. -/
def items (cs : List Char) : Option (List Json × List Char) := do
  let (first,rest) ← value cs
  match pastGap rest with
  | ','::rest =>
    -- There is always less left to read; the comparison only says so.
    if rest.length < cs.length then do
      let (more,rest) ← items rest
      some (first::more,rest)
    else none
  | ']'::rest => some ([first],rest)
  | _ => none
termination_by 2*cs.length+1

/-- Names and values with commas between them, up to the closing brace. -/
def fields (cs : List Char) : Option (List (String × Json) × List Char) := do
  let (name,rest) ← quotation (pastGap cs)
  match pastGap rest with
  | ':'::rest =>
    if rest.length < cs.length then do
      let (first,rest) ← value rest
      match pastGap rest with
      | ','::rest =>
        if rest.length < cs.length then do
          let (more,rest) ← fields rest
          some ((name,first)::more,rest)
        else none
      | '\x7d'::rest => some ([(name,first)],rest)
      | _ => none
    else none
  | _ => none
termination_by 2*cs.length+1

end

/-- The value of a whole text. -/
def read (s : String) : Option Json :=
  match value s.toList with
  | some (v,rest) => if rest.all isGap then some v else none
  | none => none

theorem pastGap_cons (c : Char) (cs : List Char) (h : isGap c = false) :
    pastGap (c::cs) = c::cs := by
  simp [pastGap,h]

theorem pastGap_append (gap cs : List Char) (h : gap.all isGap = true) :
    pastGap (gap++cs) = pastGap cs := by
  rw [pastGap,List.dropWhile_append_of_pos (List.all_eq_true.mp h)]
  rfl

/-- Nothing that would go on with a number. -/
def NoDigit (cs : List Char) : Prop := ∀ c ∈ cs.head?,c.isDigit = false

theorem noDigit_cons (c : Char) (cs : List Char) (h : c.isDigit = false) : NoDigit (c::cs) := by
  intro d hd
  obtain rfl : c = d := by simpa using hd
  exact h

theorem isDigit_of_gap (c : Char) (h : isGap c = true) : c.isDigit = false := by
  simp only [isGap,Bool.or_eq_true,beq_iff_eq] at h
  rcases h with ((rfl | rfl) | rfl) | rfl <;> rfl

theorem pastGap_digit (c : Char) (cs : List Char) (h : c.isDigit = true) :
    pastGap (c::cs) = c::cs := by
  apply pastGap_cons
  cases hc : isGap c with
  | false => rfl
  | true =>
    rw [isDigit_of_gap c hc] at h
    cases h

theorem noDigit_gap (gap rest : List Char) (hgap : gap.all isGap = true) (h : NoDigit rest) :
    NoDigit (gap++rest) := by
  cases gap with
  | nil => exact h
  | cons c gap =>
    have hc : isGap c = true := List.all_eq_true.mp hgap c List.mem_cons_self
    exact noDigit_cons c _ (isDigit_of_gap c hc)

/-- A gap ends before anything that is not a blank. -/
theorem lt_length_pastGap (front back : List Char) (c : Char) (hc : isGap c = false) :
    back.length < (pastGap (front++c::back)).length := by
  induction front with
  | nil =>
    rw [List.nil_append,pastGap_cons c back hc]
    exact Nat.lt_succ_self _
  | cons d front ih =>
    cases hd : isGap d with
    | true =>
      rw [List.cons_append,← List.singleton_append,pastGap_append [d] _ (by simp [hd])]
      exact ih
    | false =>
      rw [List.cons_append,pastGap_cons d _ hd,List.length_cons,List.length_append,
        List.length_cons]
      omega

/-- What is behind a character of the text is shorter than the text. -/
theorem length_of_pastGap {cs front back : List Char} (c : Char) (hc : isGap c = false)
    (h : pastGap cs = pastGap (front++c::back)) : back.length < cs.length := by
  have hl := pastGap_length cs
  have hback := lt_length_pastGap front back c hc
  rw [h] at hl
  omega

section Steps

variable {cs rest : List Char}

theorem value_empty_list {back : List Char} (h : pastGap cs = '['::back)
    (hback : pastGap back = ']'::rest) : value cs = some (.list [],rest) := by
  rw [value]
  split <;> simp_all

theorem value_empty_record {back : List Char} (h : pastGap cs = '\x7b'::back)
    (hback : pastGap back = '\x7d'::rest) : value cs = some (.record [],rest) := by
  rw [value]
  split <;> simp_all

theorem value_list (h : pastGap cs = '['::rest) (hfirst : (pastGap rest).head? ≠ some ']') :
    value cs = (items rest).map (fun (l,rest) => (.list l,rest)) := by
  rw [value]
  split
  · next rest' he =>
    obtain rfl : rest = rest' := by simpa [h] using he
    rw [if_neg hfirst]
    cases items rest <;> rfl
  all_goals simp_all

theorem value_record (h : pastGap cs = '\x7b'::rest) (hfirst : (pastGap rest).head? ≠ some '\x7d') :
    value cs = (fields rest).map (fun (l,rest) => (.record l,rest)) := by
  rw [value]
  split
  · simp_all
  · next rest' he =>
    obtain rfl : rest = rest' := by simpa [h] using he
    rw [if_neg hfirst]
    cases fields rest <;> rfl
  all_goals simp_all

theorem value_text (h : pastGap cs = '"'::rest) :
    value cs = (quotation ('"'::rest)).map (fun (s,rest) => (.text s,rest)) := by
  rw [value]
  split <;> simp_all

theorem value_integer {c : Char} (h : pastGap cs = c::rest) (hc : c = '-' ∨ c.isDigit = true) :
    value cs = (integer (c::rest)).map (fun (i,rest) => (.number i,rest)) := by
  have hne : c ≠ '[' ∧ c ≠ '\x7b' ∧ c ≠ '"' := by
    rcases hc with rfl | hd
    · decide
    · refine ⟨?_,?_,?_⟩ <;> rintro rfl <;> cases hd
  rw [value]
  split
  · next he => exact absurd (List.cons.inj (h.symm.trans he)).1 hne.1
  · next he => exact absurd (List.cons.inj (h.symm.trans he)).1 hne.2.1
  · next he => exact absurd (List.cons.inj (h.symm.trans he)).1 hne.2.2
  · rw [h]

/-- A value that is a text is a quotation. -/
theorem quotation_of_value {s : String} (h : value cs = some (.text s,rest)) :
    quotation (pastGap cs) = some (s,rest) := by
  rw [value] at h
  split at h
  · split at h
    · cases h
    · obtain ⟨_,_,hv⟩ := Option.bind_eq_some_iff.mp h
      cases hv
  · split at h
    · cases h
    · obtain ⟨_,_,hv⟩ := Option.bind_eq_some_iff.mp h
      cases hv
  · next he =>
    obtain ⟨found,hfound,hv⟩ := Option.map_eq_some_iff.mp h
    cases hv
    rw [he]
    exact hfound
  · obtain ⟨_,_,hv⟩ := Option.map_eq_some_iff.mp h
    cases hv

theorem items_last {v : Json} {tail : List Char} (h : value cs = some (v,tail))
    (ht : pastGap tail = ']'::rest) : items cs = some ([v],rest) := by
  rw [items,h]
  simp [ht]

theorem items_more {v : Json} {tail : List Char} (h : value cs = some (v,tail))
    (ht : pastGap tail = ','::rest) (hl : rest.length < cs.length) :
    items cs = (items rest).map (fun (more,rest) => (v::more,rest)) := by
  rw [items,h]
  simp only [Option.bind_eq_bind,Option.bind_some,ht,if_pos hl]
  cases items rest <;> rfl

section Field

variable {name : String} {v : Json} {colon after tail : List Char}
  (hname : quotation (pastGap cs) = some (name,colon)) (hcolon : pastGap colon = ':'::after)
  (hafter : after.length < cs.length) (h : value after = some (v,tail))

include hname hcolon hafter h

theorem fields_last (ht : pastGap tail = '\x7d'::rest) : fields cs = some ([(name,v)],rest) := by
  rw [fields,hname]
  simp only [Option.bind_eq_bind,Option.bind_some,hcolon,if_pos hafter,h,ht]

theorem fields_more (ht : pastGap tail = ','::rest) (hl : rest.length < cs.length) :
    fields cs = (fields rest).map (fun (more,rest) => ((name,v)::more,rest)) := by
  rw [fields,hname]
  simp only [Option.bind_eq_bind,Option.bind_some,hcolon,if_pos hafter,h,ht,if_pos hl]
  cases fields rest <;> rfl

end Field

end Steps

/-- A comma needs an item behind it. -/
example : (read "[1,]").isNone = true := by decide +kernel

end Lexis.Text.Json
