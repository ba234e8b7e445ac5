import Lexis.Proofs.Program

/-!
Listings read back. A row tells the position, class, text and offset of its token, and a record its
class, code, span and text. Nothing in a listing can be read in two ways: `text_readable` says that
two listings in text are the same if their rows tell the same, and `json_readable` that two listings
in JSON are the same if their records are.
-/

namespace Lexis

/-- A listing in text has one line for each token, with a newline at its end and no other newline
in it. It can be read back to the line, column, class, text and offset of every token, so two
listings are the same exactly if they tell the same of their tokens, in the same order. -/
theorem text_readable (ls ms : List Lexeme) (hls : ∀ l ∈ ls,l.Given) (hms : ∀ m ∈ ms,m.Given) :
    (∃ lines : List String,lines.length = ls.length ∧ (∀ line ∈ lines,'\n' ∉ line.toList) ∧
      Dump.text ls = String.join (lines.map (fun line => line++"\n"))) ∧
    (Dump.text ls).toList.count '\n' = ls.length ∧
    Dump.entries? (Dump.text ls) = some (ls.map Lexeme.entry) ∧
    (Dump.text ls = Dump.text ms ↔ ls.map Lexeme.entry = ms.map Lexeme.entry) := by
  refine ⟨⟨(ls.map Lexeme.entry).map Entry.row,by simp,?_,?_⟩,Dump.count_text ls hls,
    Dump.entries_text ls hls,?_⟩
  · intro line hline
    rw [List.map_map] at hline
    obtain ⟨l,hl,rfl⟩ := List.mem_map.mp hline
    exact l.entry.row_newline (hls l hl).text_newline
  · simp only [Dump.text_eq,List.map_map,Function.comp_def]
  · constructor
    · intro h
      have hread := Dump.entries_text ls hls
      rw [h,Dump.entries_text ms hms] at hread
      exact (Option.some.inj hread).symm
    · intro h
      rw [Dump.text_eq,Dump.text_eq,h]

/-- Two sources that begin with the same letter, and a sign behind it in one of them. -/
theorem text_readable_letter_sign :
    let short : Lexeme := ⟨.ofUtf8 [0x61],⟨.identifier,.ofWidth 0 1⟩⟩
    let long : Lexeme := ⟨.ofUtf8 [0x61,0x0A,0x2B],⟨.identifier,.ofWidth 0 1⟩⟩
    let sign : Lexeme := ⟨.ofUtf8 [0x61,0x0A,0x2B],⟨.plus,.ofWidth 2 1⟩⟩
    (∀ l ∈ [short,sign],l.Given) ∧ (∀ m ∈ [long,sign],m.Given) ∧ short ≠ long ∧
      Dump.text [short,sign] = Dump.text [long,sign] ∧
      Dump.entries? (Dump.text [short,sign]) =
        some [⟨⟨1,1⟩,.identifier,"a",0⟩,⟨⟨2,1⟩,.plus,"+",2⟩] := by
  intro short long sign
  have hshort : short.Given := ⟨.ofSource short.source,rfl,by decide +kernel⟩
  have hlong : long.Given := ⟨.ofSource long.source,rfl,by decide +kernel⟩
  have hsign : sign.Given := ⟨(Reader.ofSource sign.source).forward 1,rfl,by decide +kernel⟩
  have hls : ∀ l ∈ [short,sign],l.Given := by simp [hshort,hsign]
  have hms : ∀ m ∈ [long,sign],m.Given := by simp [hlong,hsign]
  obtain ⟨_,_,hread,hsame⟩ := text_readable [short,sign] [long,sign] hls hms
  refine ⟨hls,hms,by decide,hsame.mpr (by decide +kernel),?_⟩
  rw [hread]
  decide +kernel

namespace Dump

theorem written_json (ls : List Lexeme) :
    Text.Json.Written (.list ((ls.map Lexeme.record).map field)) (json ls).toList := by
  rw [json_eq]
  exact Text.Json.written_pretty 0 _

theorem field_injective : Function.Injective field := by
  intro r r' h
  simp only [field,Text.Json.record.injEq,List.cons.injEq,Prod.mk.injEq,Text.Json.text.injEq,
    Text.Json.number.injEq,Int.ofNat_inj] at h
  obtain ⟨⟨_,hlabel⟩,⟨_,hcode⟩,⟨_,hstart⟩,⟨_,hstop⟩,⟨_,htext⟩,_⟩ := h
  have hkind : r.kind = r'.kind := by
    have hread := Kind.ofLabel_label r.kind
    rw [hlabel,Kind.ofLabel_label] at hread
    exact (Option.some.inj hread).symm
  cases r
  cases r'
  simp_all

end Dump

/-- A listing in JSON is one JSON list with one record for each token, in their order, and it is the
text of no other value. A record has the name of the class, its code, the span and the text of its
token. The name is that of the class, and the code decides the class too. So two listings are the
same exactly if their records are. -/
theorem json_readable (ls ms : List Lexeme) :
    let listing := Text.Json.list (ls.map (fun l => .record [
      ("kind",.text l.token.kind.label),("code",.number l.token.kind.code),
      ("begin",.number l.token.span.start),("end",.number l.token.span.stop),
      ("text",.text l.text)]))
    Text.Json.Written listing (Dump.json ls).toList ∧
    (∀ v,Text.Json.Written v (Dump.json ls).toList → v = listing) ∧
    Text.Json.read (Dump.json ls) = some listing ∧
    (∀ l ∈ ls,Kind.ofLabel? l.token.kind.label = some l.token.kind ∧
      Kind.ofCode? l.token.kind.code = some l.token.kind) ∧
    (Dump.json ls = Dump.json ms ↔ ls.map Lexeme.record = ms.map Lexeme.record) := by
  intro listing
  have hlisting : listing = .list ((ls.map Lexeme.record).map Dump.field) := by
    rw [List.map_map]
    rfl
  have hwritten := Dump.written_json ls
  rw [← hlisting] at hwritten
  refine ⟨hwritten,fun v hv => hv.unique hwritten,Text.Json.read_of_written hwritten,
    fun l _ => ⟨l.token.kind.ofLabel_label,l.token.kind.ofCode_code⟩,?_⟩
  constructor
  · intro h
    have hother := Dump.written_json ms
    rw [← h] at hother
    have hfields := Text.Json.list.inj (hlisting.symm.trans (hwritten.unique hother))
    exact List.map_injective_iff.mpr Dump.field_injective hfields
  · intro h
    rw [Dump.json_eq,Dump.json_eq,h]

end Lexis
