import Lexis.Proofs.Reading
import Mathlib.Data.List.TakeWhile
import Mathlib.Tactic.SplitIfs

/-!
The grammar of JSON text, as a relation between a value and the ways to write it. Every layout of
the grammar is read as its value, so a text is written for one value at most, and `pretty` is one of
the layouts. `read_pretty` says that the text of a value is read as that value.
-/

namespace Lexis.Text.Json

/-- The forms a character has in a text: itself, a short escape or its code. -/
inductive Form (c : Char) : List Char → Prop
  | plain (hquote : c ≠ '"') (hback : c ≠ '\\') (hlow : ¬ c < ' ') : Form c [c]
  | short (e : Char) (h : ofEscape? e = some c) : Form c ['\\',e]
  | code (digits : List Char) (hlength : digits.length = 4) (h : ofHex? digits = some c) :
      Form c ('\\' :: 'u' :: digits)

/-- The digits of a number, without a zero in front of others. -/
structure Numeral (n : Nat) (digits : List Char) : Prop where
  all : ∀ c ∈ digits,c.isDigit = true
  ne_nil : digits ≠ []
  front : ∀ more,digits = '0'::more → more = []
  value : Nat.ofDigitChars 10 digits 0 = n

/-- A field, with the text of its name and that of its value. -/
structure Field where
  name : String
  value : Json
  front : List Char
  back : List Char

def Field.content (f : Field) : String × Json := (f.name,f.value)

def Field.text (f : Field) : List Char := f.front++ ':'::f.back

/-- The texts of a value, by the grammar of JSON. Blanks may stand around each value and each name,
and the parts of a text, a list or a record come with the texts they are written in. -/
inductive Written : Json → List Char → Prop
  | natural (n : Nat) (digits : List Char) (h : Numeral n digits) : Written (.number n) digits
  | negative (n : Nat) (digits : List Char) (h : Numeral n digits) :
      Written (.number (-n)) ('-'::digits)
  | text (parts : List (Char × List Char)) (h : ∀ part ∈ parts,Form part.1 part.2) :
      Written (.text (String.ofList (parts.map Prod.fst))) ('"'::(parts.flatMap Prod.snd++['"']))
  | list (items : List (Json × List Char)) (gap : List Char) (hgap : gap.all isGap = true)
      (h : ∀ item ∈ items,Written item.1 item.2) :
      Written (.list (items.map Prod.fst))
        ('['::([','].intercalate (items.map Prod.snd)++(gap++[']'])))
  | record (fields : List Field) (gap : List Char) (hgap : gap.all isGap = true)
      (hname : ∀ f ∈ fields,Written (.text f.name) f.front)
      (h : ∀ f ∈ fields,Written f.value f.back) :
      Written (.record (fields.map Field.content))
        ('\x7b'::([','].intercalate (fields.map Field.text)++(gap++['\x7d'])))
  | gap (v : Json) (text before after : List Char) (hbefore : before.all isGap = true)
      (hafter : after.all isGap = true) (h : Written v text) : Written v (before++(text++after))

theorem newline_gap (level : Nat) : (newline level).toList.all isGap = true := by
  simp [newline,isGap]

/-- No number but zero is written with a zero in front. -/
theorem toDigits_zero_cons (n : Nat) (digits : List Char) (h : Nat.toDigits 10 n = '0'::digits) :
    digits = [] := by
  induction n using Nat.strongRecOn generalizing digits with
  | ind n ih =>
    rcases Nat.lt_or_ge n 10 with hn | hn
    · rw [Nat.toDigits_of_lt_base hn] at h
      exact (List.cons.inj h).2.symm
    · rw [Nat.toDigits_of_base_le (by omega) hn] at h
      obtain ⟨front,hfront,rfl⟩ : ∃ front,Nat.toDigits 10 (n/10) = '0'::front ∧
          digits = front++[Nat.digitChar (n%10)] := by
        cases hd : Nat.toDigits 10 (n/10) with
        | nil => exact absurd hd Nat.toDigits_ne_nil
        | cons c front =>
          rw [hd] at h
          obtain ⟨rfl,hdigits⟩ := List.cons.inj h
          exact ⟨front,rfl,hdigits.symm⟩
      obtain rfl := ih (n/10) (by omega) front hfront
      have hvalue := congrArg (fun digits => Nat.ofDigitChars 10 digits 0) hfront
      simp only [Nat.ofDigitChars_ten_toDigits] at hvalue
      have : n/10 = 0 := hvalue
      omega

theorem numeral_repr (n : Nat) : Numeral n n.repr.toList := by
  rw [Nat.toList_repr]
  exact ⟨fun c hc => Nat.isDigit_of_mem_toDigits (by omega) (by omega) hc,Nat.toDigits_ne_nil,
    fun more h => toDigits_zero_cons n more h,Nat.ofDigitChars_ten_toDigits⟩

theorem written_repr (i : Int) : Written (.number i) i.repr.toList := by
  rw [Int.repr_eq_if]
  split
  · next hi =>
    have hn := Written.natural _ _ (numeral_repr i.toNat)
    rw [Int.toNat_of_nonneg hi] at hn
    exact hn
  · next hi =>
    have hn := Written.negative _ _ (numeral_repr (-i).toNat)
    have hback : -((-i).toNat : Int) = i := by omega
    rw [hback] at hn
    rw [String.toList_append]
    exact hn

theorem ofHex_hexDigits : ∀ n : Fin 32,(hexDigits 4 n).length = 4 ∧
    ofHex? (hexDigits 4 n) = some (Char.ofNat n) := by
  decide +kernel

/-- Whatever `escape` does with a character, it is one of the forms. -/
theorem form_escape (c : Char) : Form c (escape c).toList := by
  unfold escape
  split_ifs with hquote hback hb ht hn hf hr hlow
  · exact .short '"' (by rw [hquote]; rfl)
  · exact .short '\\' (by rw [hback]; rfl)
  · exact .short 'b' (by rw [hb]; rfl)
  · exact .short 't' (by rw [ht]; rfl)
  · exact .short 'n' (by rw [hn]; rfl)
  · exact .short 'f' (by rw [hf]; rfl)
  · exact .short 'r' (by rw [hr]; rfl)
  · obtain ⟨hlength,hread⟩ := ofHex_hexDigits ⟨c.toNat,hlow⟩
    rw [Char.ofNat_toNat] at hread
    have htext : ("\\u"++lowerHex 4 c.toNat).toList = '\\' :: 'u' :: hexDigits 4 c.toNat := by
      simp [String.toList_append,lowerHex]
    rw [htext]
    exact .code (hexDigits 4 c.toNat) hlength hread
  · rw [String.toList_singleton]
    exact .plain hquote hback hlow

theorem written_quoted (s : String) : Written (.text s) (quoted s).toList := by
  have h := Written.text (s.toList.map (fun c => (c,(escape c).toList))) (by
    intro part hpart
    obtain ⟨c,_,rfl⟩ := List.mem_map.mp hpart
    exact form_escape c)
  have htext : (quoted s).toList = '"'::((s.toList.map (fun c => (c,(escape c).toList))).flatMap
      Prod.snd++['"']) := by
    simp [quoted,String.toList_append,String.toList_join,List.flatMap_map]
  have hs : String.ofList ((s.toList.map (fun c => (c,(escape c).toList))).map Prod.fst) = s := by
    rw [List.map_map]
    exact (congrArg String.ofList (List.map_id _)).trans String.ofList_toList
  rw [hs] at h
  rw [htext]
  exact h

theorem intercalate_cons (c : Char) (text : List Char) (texts : List (List Char)) :
    [c].intercalate (text::texts) = text++texts.flatMap (fun text => c::text) := by
  induction texts generalizing text with
  | nil => simp
  | cons second texts ih =>
    rw [List.intercalate_cons_cons,ih,List.flatMap_cons]
    simp

/-- An item as it is laid out. -/
def itemAt (level : Nat) (v : Json) : Json × List Char :=
  (v,(newline level).toList++(pretty level v).toList)

/-- A field as it is laid out. -/
def fieldAt (level : Nat) (f : String × Json) : Field :=
  ⟨f.1,f.2,(newline level).toList++(quoted f.1).toList,' '::(pretty level f.2).toList⟩

/-- The layout of a list that has items. -/
theorem toList_pretty_list (level : Nat) (first : Json) (more : List Json) :
    (pretty level (.list (first::more))).toList =
      '['::([','].intercalate (((first::more).map (itemAt (level+1))).map Prod.snd)++
        ((newline level).toList++[']'])) := by
  have hmore : (prettyItems (level+1) more).flatMap String.toList =
      more.flatMap (fun v => ','::(itemAt (level+1) v).2) := by
    induction more with
    | nil => rfl
    | cons v more ih =>
      rw [prettyItems,List.flatMap_cons,ih,List.flatMap_cons]
      simp [String.toList_append,itemAt]
  rw [List.map_map,List.map_cons,intercalate_cons,List.flatMap_map]
  simp only [Function.comp_apply,← hmore]
  simp [pretty,String.toList_append,String.toList_join,itemAt]

/-- The layout of a record that has fields. -/
theorem toList_pretty_record (level : Nat) (first : String × Json) (more : List (String × Json)) :
    (pretty level (.record (first::more))).toList =
      '\x7b'::([','].intercalate (((first::more).map (fieldAt (level+1))).map Field.text)++
        ((newline level).toList++['\x7d'])) := by
  have hmore : (prettyFields (level+1) more).flatMap String.toList =
      more.flatMap (fun f => ','::(fieldAt (level+1) f).text) := by
    induction more with
    | nil => rfl
    | cons f more ih =>
      rw [prettyFields,List.flatMap_cons,ih,List.flatMap_cons]
      simp [String.toList_append,Field.text,fieldAt]
  rw [List.map_map,List.map_cons,intercalate_cons,List.flatMap_map]
  simp only [Function.comp_apply,← hmore]
  simp [pretty,String.toList_append,String.toList_join,Field.text,fieldAt]

theorem Written.behind {v : Json} {text : List Char} (h : Written v text) (gap : List Char)
    (hgap : gap.all isGap = true) : Written v (gap++text) := by
  have hbehind := Written.gap v text gap [] hgap rfl h
  rwa [List.append_nil] at hbehind

theorem written_list (level : Nat) (l : List Json)
    (h : ∀ v ∈ l,Written v (pretty (level+1) v).toList) :
    Written (.list l) (pretty level (.list l)).toList := by
  cases l with
  | nil =>
    rw [pretty]
    exact .list [] [] rfl (by simp)
  | cons first more =>
    have hitems : ∀ item ∈ (first::more).map (itemAt (level+1)),Written item.1 item.2 := by
      intro item hitem
      obtain ⟨v,hv,rfl⟩ := List.mem_map.mp hitem
      exact (h v hv).behind _ (newline_gap (level+1))
    have hlist := Written.list _ (newline level).toList (newline_gap level) hitems
    have hvalues : ((first::more).map (itemAt (level+1))).map Prod.fst = first::more := by
      rw [List.map_map]
      exact List.map_id _
    rw [hvalues] at hlist
    rw [toList_pretty_list]
    exact hlist

theorem written_record (level : Nat) (l : List (String × Json))
    (h : ∀ f ∈ l,Written f.2 (pretty (level+1) f.2).toList) :
    Written (.record l) (pretty level (.record l)).toList := by
  cases l with
  | nil =>
    rw [pretty]
    exact .record [] [] rfl (by simp) (by simp)
  | cons first more =>
    have hnames : ∀ f ∈ (first::more).map (fieldAt (level+1)),Written (.text f.name) f.front := by
      intro f hf
      obtain ⟨content,_,rfl⟩ := List.mem_map.mp hf
      exact (written_quoted content.1).behind _ (newline_gap (level+1))
    have hvalues : ∀ f ∈ (first::more).map (fieldAt (level+1)),Written f.value f.back := by
      intro f hf
      obtain ⟨content,hcontent,rfl⟩ := List.mem_map.mp hf
      exact (h content hcontent).behind [' '] rfl
    have hrecord := Written.record _ (newline level).toList (newline_gap level) hnames hvalues
    have hcontents : ((first::more).map (fieldAt (level+1))).map Field.content = first::more := by
      rw [List.map_map]
      exact List.map_id _
    rw [hcontents] at hrecord
    rw [toList_pretty_record]
    exact hrecord

/-- The layout of a value is a text of it. -/
theorem written_pretty (level : Nat) : (v : Json) → Written v (pretty level v).toList
  | .number i => by
    rw [pretty]
    exact written_repr i
  | .text s => by
    rw [pretty]
    exact written_quoted s
  | .list l => written_list level l (fun v _ => written_pretty (level+1) v)
  | .record l => written_record level l (fun f _ => written_pretty (level+1) f.2)
termination_by v => sizeOf v
decreasing_by
  · have := List.sizeOf_lt_of_mem (by assumption)
    simp
    omega
  · have := List.sizeOf_lt_of_mem (by assumption)
    rcases f with ⟨name,v⟩
    simp at this ⊢
    omega

/-- The value is read in front of anything that does not go on with a number. Behind it, only blanks
of its own may be left. -/
def Reads (v : Json) (text : List Char) : Prop :=
  ∀ cs rest : List Char,pastGap cs = pastGap (text++rest) → NoDigit rest →
    ∃ tail,value cs = some (v,tail) ∧ pastGap tail = pastGap rest

/-- A value begins with something that is neither a blank nor closes a list or a record. -/
theorem Written.front {v : Json} {text : List Char} (h : Written v text) (rest : List Char) :
    ∃ c cs,pastGap (text++rest) = c::cs ∧ c ≠ ']' ∧ c ≠ '\x7d' := by
  induction h generalizing rest with
  | natural n digits h =>
    obtain ⟨c,ds,rfl⟩ := List.exists_cons_of_ne_nil h.ne_nil
    have hc := h.all c List.mem_cons_self
    refine ⟨c,ds++rest,pastGap_digit c _ hc,?_,?_⟩ <;> rintro rfl <;> cases hc
  | negative n digits h => exact ⟨'-',_,pastGap_cons '-' _ rfl,by decide,by decide⟩
  | text parts h => exact ⟨'"',_,pastGap_cons '"' _ rfl,by decide,by decide⟩
  | list items gap hgap h ih => exact ⟨'[',_,pastGap_cons '[' _ rfl,by decide,by decide⟩
  | record fields gap hgap hname h ihname ih =>
    exact ⟨'\x7b',_,pastGap_cons '\x7b' _ rfl,by decide,by decide⟩
  | gap v text before after hbefore hafter h ih =>
    rw [List.append_assoc,pastGap_append before _ hbefore,List.append_assoc]
    exact ih (after++rest)

theorem Numeral.natural_eq {n : Nat} {digits : List Char} (h : Numeral n digits) (rest : List Char)
    (hrest : NoDigit rest) : natural (digits++rest) = some (n,rest) := by
  have htake : rest.takeWhile Char.isDigit = [] ∧ rest.dropWhile Char.isDigit = rest := by
    cases rest with
    | nil => exact ⟨rfl,rfl⟩
    | cons c rest =>
      have hc := hrest c rfl
      simp [hc]
  rw [natural,List.takeWhile_append_of_pos h.all,List.dropWhile_append_of_pos h.all,htake.1,
    htake.2,List.append_nil]
  split
  · exact absurd rfl h.ne_nil
  · next d ds => cases h.front (d::ds) rfl
  · rw [h.value]

/-- A character is read in whatever form it has. -/
theorem Form.characters_eq {c : Char} {text : List Char} (h : Form c text) (rest : List Char) :
    characters (text++rest) = (characters rest).map (fun (cs,rest) => (c::cs,rest)) := by
  cases h with
  | plain hquote hback hlow =>
    change characters (c::rest) = _
    rw [characters,if_neg hlow]
    · cases characters rest <;> rfl
    · simp [hquote]
    · simp [hback]
    · simp [hback]
  | short e he =>
    have hu : e ≠ 'u' := by
      rintro rfl
      cases he
    change characters ('\\'::e::rest) = _
    rw [characters,he]
    · cases characters rest <;> rfl
    · simp [hu]
  | code digits hlength hc =>
    match digits,hlength with
    | [a,b,d,e],_ =>
      change characters ('\\' :: 'u' :: a::b::d::e::rest) = _
      rw [characters,hc]
      cases characters rest <;> rfl

theorem characters_parts (parts : List (Char × List Char)) (rest : List Char)
    (h : ∀ part ∈ parts,Form part.1 part.2) :
    characters (parts.flatMap Prod.snd++ '"'::rest) = some (parts.map Prod.fst,rest) := by
  induction parts with
  | nil => rfl
  | cons part parts ih =>
    have hpart := h part List.mem_cons_self
    rw [List.flatMap_cons,List.append_assoc,hpart.characters_eq,
      ih (fun p hp => h p (List.mem_cons_of_mem part hp))]
    rfl

theorem intercalate_append {α : Type} (text : α → List Char) (first second : α) (more : List α)
    (c : Char) (rest : List Char) :
    [c].intercalate ((first::second::more).map text)++rest =
      text first++c::([c].intercalate ((second::more).map text)++rest) := by
  simp

/-- The items of a list, with all that is written from the first of them to the closing bracket. -/
theorem items_eq (first : Json × List Char) (more : List (Json × List Char))
    (cs gap rest : List Char) (hread : ∀ item ∈ first::more,Reads item.1 item.2)
    (hgap : gap.all isGap = true)
    (hcs : pastGap cs =
      pastGap ([','].intercalate ((first::more).map Prod.snd)++(gap++ ']'::rest))) :
    items cs = some ((first::more).map Prod.fst,rest) := by
  have hfirst := hread first List.mem_cons_self
  induction more generalizing first cs with
  | nil =>
    rw [List.map_singleton,List.intercalate_singleton] at hcs
    have hend := noDigit_gap gap _ hgap (noDigit_cons ']' rest rfl)
    obtain ⟨tail,hv,ht⟩ := hfirst cs (gap++ ']'::rest) hcs hend
    rw [pastGap_append gap _ hgap,pastGap_cons ']' rest rfl] at ht
    exact items_last hv ht
  | cons second more ih =>
    -- Behind the comma the text has the same form, with the second item for the first.
    have hmore := fun item hitem => hread item (List.mem_cons_of_mem first hitem)
    rw [intercalate_append] at hcs
    obtain ⟨tail,hv,ht⟩ := hfirst cs _ hcs (noDigit_cons ',' _ rfl)
    rw [pastGap_cons ',' _ rfl] at ht
    rw [items_more hv ht (length_of_pastGap ',' rfl hcs),
      ih second _ hmore rfl (hmore second List.mem_cons_self)]
    rfl

/-- One field of a record is read with what follows it left behind. -/
theorem field_eq (f : Field) (cs rest : List Char) (hname : Reads (.text f.name) f.front)
    (hvalue : Reads f.value f.back) (hcs : pastGap cs = pastGap (f.text++rest))
    (hrest : NoDigit rest) :
    ∃ colon tail,quotation (pastGap cs) = some (f.name,colon) ∧
      pastGap colon = ':'::(f.back++rest) ∧ (f.back++rest).length < cs.length ∧
      value (f.back++rest) = some (f.value,tail) ∧ pastGap tail = pastGap rest := by
  rw [Field.text,List.append_assoc,List.cons_append] at hcs
  obtain ⟨colon,hq,hcolon⟩ := hname cs (':'::(f.back++rest)) hcs (noDigit_cons ':' _ rfl)
  rw [pastGap_cons ':' _ rfl] at hcolon
  obtain ⟨tail,hv,ht⟩ := hvalue (f.back++rest) rest rfl hrest
  exact ⟨colon,tail,quotation_of_value hq,hcolon,length_of_pastGap ':' rfl hcs,hv,ht⟩

/-- The fields of a record, likewise. -/
theorem fields_eq (first : Field) (more : List Field) (cs gap rest : List Char)
    (hname : ∀ f ∈ first::more,Reads (.text f.name) f.front)
    (hvalue : ∀ f ∈ first::more,Reads f.value f.back) (hgap : gap.all isGap = true)
    (hcs : pastGap cs =
      pastGap ([','].intercalate ((first::more).map Field.text)++(gap++ '\x7d'::rest))) :
    fields cs = some ((first::more).map Field.content,rest) := by
  have hn := hname first List.mem_cons_self
  have hv := hvalue first List.mem_cons_self
  induction more generalizing first cs with
  | nil =>
    rw [List.map_singleton,List.intercalate_singleton] at hcs
    have hend := noDigit_gap gap _ hgap (noDigit_cons '\x7d' rest rfl)
    obtain ⟨colon,tail,hq,hcolon,hafter,hread,ht⟩ := field_eq first cs _ hn hv hcs hend
    rw [pastGap_append gap _ hgap,pastGap_cons '\x7d' rest rfl] at ht
    exact fields_last hq hcolon hafter hread ht
  | cons second more ih =>
    have hnames := fun f hf => hname f (List.mem_cons_of_mem first hf)
    have hvalues := fun f hf => hvalue f (List.mem_cons_of_mem first hf)
    rw [intercalate_append] at hcs
    obtain ⟨colon,tail,hq,hcolon,hafter,hread,ht⟩ :=
      field_eq first cs _ hn hv hcs (noDigit_cons ',' _ rfl)
    rw [pastGap_cons ',' _ rfl] at ht
    rw [fields_more hq hcolon hafter hread ht (length_of_pastGap ',' rfl hcs),
      ih second _ hnames hvalues rfl (hnames second List.mem_cons_self)
        (hvalues second List.mem_cons_self)]
    rfl

theorem Numeral.reads {n : Nat} {digits : List Char} (h : Numeral n digits) :
    Reads (.number n) digits := by
  intro cs rest hcs hrest
  have hread := h.natural_eq rest hrest
  obtain ⟨c,ds,rfl⟩ := List.exists_cons_of_ne_nil h.ne_nil
  have hc := h.all c List.mem_cons_self
  rw [List.cons_append] at hcs hread
  rw [pastGap_digit c _ hc] at hcs
  have hminus : ∀ back,c::(ds++rest) ≠ '-'::back := by
    intro back he
    obtain ⟨rfl,_⟩ := List.cons.inj he
    cases hc
  rw [value_integer hcs (.inr hc),integer,hread]
  · exact ⟨rest,rfl,rfl⟩
  · exact hminus

theorem reads_list (items : List (Json × List Char)) (gap : List Char)
    (hgap : gap.all isGap = true) (h : ∀ item ∈ items,Written item.1 item.2)
    (hread : ∀ item ∈ items,Reads item.1 item.2) :
    Reads (.list (items.map Prod.fst))
      ('['::([','].intercalate (items.map Prod.snd)++(gap++[']']))) := by
  intro cs rest hcs _
  rw [List.cons_append,pastGap_cons '[' _ rfl,List.append_assoc,List.append_assoc,
    List.singleton_append] at hcs
  cases items with
  | nil =>
    refine ⟨rest,value_empty_list hcs ?_,rfl⟩
    exact (pastGap_append gap _ hgap).trans (pastGap_cons ']' rest rfl)
  | cons first more =>
    have hfirst : (pastGap ([','].intercalate ((first::more).map Prod.snd)++
        (gap++ ']'::rest))).head? ≠ some ']' := by
      rw [List.map_cons,intercalate_cons,List.append_assoc]
      obtain ⟨c,back,hc,hne,_⟩ := (h first List.mem_cons_self).front _
      rw [hc]
      simpa using hne
    rw [value_list hcs hfirst,items_eq first more _ gap rest hread hgap rfl]
    exact ⟨rest,rfl,rfl⟩

theorem reads_record (fields : List Field) (gap : List Char) (hgap : gap.all isGap = true)
    (h : ∀ f ∈ fields,Written (.text f.name) f.front)
    (hname : ∀ f ∈ fields,Reads (.text f.name) f.front)
    (hvalue : ∀ f ∈ fields,Reads f.value f.back) :
    Reads (.record (fields.map Field.content))
      ('\x7b'::([','].intercalate (fields.map Field.text)++(gap++['\x7d']))) := by
  intro cs rest hcs _
  rw [List.cons_append,pastGap_cons '\x7b' _ rfl,List.append_assoc,List.append_assoc,
    List.singleton_append] at hcs
  cases fields with
  | nil =>
    refine ⟨rest,value_empty_record hcs ?_,rfl⟩
    exact (pastGap_append gap _ hgap).trans (pastGap_cons '\x7d' rest rfl)
  | cons first more =>
    have hfirst : (pastGap ([','].intercalate ((first::more).map Field.text)++
        (gap++ '\x7d'::rest))).head? ≠ some '\x7d' := by
      rw [List.map_cons,intercalate_cons,Field.text,List.append_assoc,List.append_assoc]
      obtain ⟨c,back,hc,_,hne⟩ := (h first List.mem_cons_self).front _
      rw [hc]
      simpa using hne
    rw [value_record hcs hfirst,fields_eq first more _ gap rest hname hvalue hgap rfl]
    exact ⟨rest,rfl,rfl⟩

/-- Every text of a value is read as that value. -/
theorem Written.reads {v : Json} {text : List Char} (h : Written v text) : Reads v text := by
  induction h with
  | natural n digits h => exact h.reads
  | negative n digits h =>
    intro cs rest hcs hrest
    have hread := h.natural_eq rest hrest
    rw [List.cons_append,pastGap_cons '-' _ rfl] at hcs
    rw [value_integer hcs (.inl rfl),integer,hread]
    exact ⟨rest,rfl,rfl⟩
  | text parts h =>
    intro cs rest hcs _
    have hread := characters_parts parts rest h
    rw [List.cons_append,pastGap_cons '"' _ rfl,List.append_assoc,List.singleton_append] at hcs
    rw [value_text hcs,quotation,hread]
    exact ⟨rest,rfl,rfl⟩
  | list items gap hgap h ih => exact reads_list items gap hgap h ih
  | record fields gap hgap hname _ ihname ih =>
    exact reads_record fields gap hgap hname ihname ih
  | gap v text before after hbefore hafter h ih =>
    intro cs rest hcs hrest
    rw [List.append_assoc,pastGap_append before _ hbefore,List.append_assoc] at hcs
    obtain ⟨tail,hv,ht⟩ := ih cs (after++rest) hcs (noDigit_gap after rest hafter hrest)
    rw [pastGap_append after rest hafter] at ht
    exact ⟨tail,hv,ht⟩

theorem read_of_written {v : Json} {s : String} (h : Written v s.toList) : read s = some v := by
  obtain ⟨tail,hv,ht⟩ := h.reads s.toList [] (by rw [List.append_nil]) (by simp [NoDigit])
  have hgap : tail.all isGap = true := List.all_eq_true.mpr (List.dropWhile_eq_nil_iff.mp ht)
  simp [read,hv,hgap]

/-- A text is written for one value at most. -/
theorem Written.unique {v w : Json} {s : String} (hv : Written v s.toList)
    (hw : Written w s.toList) : v = w := by
  have hread := read_of_written hv
  rw [read_of_written hw] at hread
  exact (Option.some.inj hread).symm

/-- What is written for a value is read as it, whatever blanks come after it. -/
theorem read_pretty (v : Json) (level : Nat) (gap : String) (h : gap.toList.all isGap = true) :
    read (pretty level v++gap) = some v := by
  apply read_of_written
  rw [String.toList_append]
  exact .gap v _ [] gap.toList rfl h (written_pretty level v)

end Lexis.Text.Json
