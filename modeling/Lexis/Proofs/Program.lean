import Lexis.CommandLine
import Lexis.Proofs.Drive
import Lexis.Proofs.Grammar
import Lexis.Proofs.Rows

/-!
The program on a file, run in both formats and with both recoveries. `run_four` says how the four
outcomes belong together: what stops at the first fault is the beginning of what skips faults, and
the format changes neither status nor reports.
-/

namespace Lexis

namespace CommandLine

namespace Draft

theorem setFile_file (d d' : Draft) (path : String) (h : d.setFile path = some d') :
    d'.file ≠ some "" := by
  unfold setFile at h
  split at h
  · cases h
  · next hn =>
    obtain rfl := Option.some.inj h
    intro he
    exact hn (.inr (Option.some.inj he))

theorem setOption_file (d d' : Draft) (name value : String) (h : d.setOption name value = some d') :
    d'.file = d.file := by
  unfold setOption at h
  split at h
  · obtain ⟨_,_,hd⟩ := Option.bind_eq_some_iff.mp h
    rw [← Option.some.inj hd]
  · obtain ⟨_,_,hd⟩ := Option.bind_eq_some_iff.mp h
    rw [← Option.some.inj hd]
  · obtain ⟨_,_,hd⟩ := Option.bind_eq_some_iff.mp h
    rw [← Option.some.inj hd]
  · cases h

theorem setFlags_file (d d' : Draft) (letters : List Char) (h : d.setFlags letters = some d') :
    d'.file = d.file := by
  unfold setFlags at h
  split at h
  · rw [← Option.some.inj h]
  · cases h

theorem foldlM_file (paths : List String) (d d' : Draft) (h : paths.foldlM setFile d = some d')
    (hd : d.file ≠ some "") : d'.file ≠ some "" := by
  induction paths generalizing d with
  | nil => rwa [← Option.some.inj h]
  | cons path paths ih =>
    rw [List.foldlM_cons] at h
    obtain ⟨e,he,hrest⟩ := Option.bind_eq_some_iff.mp h
    exact ih e hrest (setFile_file d e path he)

/-- No argument names a file by the empty path. -/
theorem read_file (args : List String) (d d' : Draft) (h : d.read args = some d')
    (hd : d.file ≠ some "") : d'.file ≠ some "" := by
  fun_induction read d args with
  | case1 d => rwa [← Option.some.inj h]
  | case2 d arg rest hs => exact foldlM_file rest d d' h hd
  | case3 d arg rest path hs ih =>
    obtain ⟨e,he,hrest⟩ := Option.bind_eq_some_iff.mp h
    exact ih e hrest (setFile_file d e path he)
  | case4 d arg rest letters hs ih =>
    obtain ⟨e,he,hrest⟩ := Option.bind_eq_some_iff.mp h
    exact ih e hrest (setFlags_file d e letters he ▸ hd)
  | case5 d arg rest hs ih => exact ih h hd
  | case6 d arg rest name value hs ih =>
    obtain ⟨e,he,hrest⟩ := Option.bind_eq_some_iff.mp h
    exact ih e hrest (setOption_file d e name value he ▸ hd)
  | case7 d arg name hs => cases h
  | case8 d arg name _ hs value rest ih =>
    obtain ⟨e,he,hrest⟩ := Option.bind_eq_some_iff.mp h
    exact ih e hrest (setOption_file d e name value he ▸ hd)

end Draft

theorem Options.file_ne_empty (args : List String) (o : Options)
    (h : Options.ofArguments args = some o) : o.file ≠ some "" := by
  obtain ⟨d,hd,ho⟩ := Option.bind_eq_some_iff.mp h
  rw [← Option.some.inj ho]
  exact Draft.read_file args .empty d hd (by simp [Draft.empty])

end CommandLine

namespace Dump

/-- A listing as the program writes it. -/
def printed : Format → List Lexeme → String
  | .text,ls => text ls
  | .json,ls => json ls++"\n"

/-- Text is written row by row, so the beginning of a list is written as the beginning of its
listing. -/
theorem text_prefix (ls ms : List Lexeme) (h : ls <+: ms) :
    (text ls).toList <+: (text ms).toList := by
  obtain ⟨more,rfl⟩ := h
  rw [text,text,List.map_append,String.join_append,String.toList_append]
  exact List.prefix_append _ _

/-- A listing does not tell the name of the source. -/
theorem printed_withName (format : Format) (path : String) (s : Source) (tokens : List Token) :
    printed format (Lexeme.ofTokens (s.withName path) tokens) =
      printed format (Lexeme.ofTokens s tokens) := by
  cases format with
  | text =>
    rw [printed,printed,text,text,Lexeme.ofTokens,Lexeme.ofTokens,List.map_map,List.map_map]
    rfl
  | json =>
    rw [printed,printed,json,json,Lexeme.ofTokens,Lexeme.ofTokens,List.map_map,List.map_map]
    rfl

/-- A listing in JSON tells nothing but the records. -/
theorem json_eq (ls : List Lexeme) :
    json ls = Text.Json.pretty 0 (.list ((ls.map Lexeme.record).map field)) := by
  rw [json,List.map_map]
  rfl

theorem read_json (ls : List Lexeme) :
    Text.Json.read (printed .json ls) =
      some (.list ((ls.map Lexeme.record).map field)) := by
  rw [printed,json_eq,Text.Json.read_pretty _ 0 "\n" rfl]

end Dump

/-- The rows of a listing in text tell of the records that JSON lists, each at its place. -/
theorem Source.entries_records (s : Source) (recovery : Recovery) :
    Dump.entries? (Dump.text (Lexeme.ofTokens s (s.scan recovery).tokens)) =
      some (((Lexeme.ofTokens s (s.scan recovery).tokens).map Lexeme.record).map
        (fun record => ⟨s.position record.start,record.kind,record.text,record.start⟩)) := by
  have hgiven : ∀ l ∈ Lexeme.ofTokens s (s.scan recovery).tokens,l.Given := by
    intro l hl
    obtain ⟨t,ht,rfl⟩ := List.mem_map.mp hl
    exact (Reader.ofSource s).given_of_scan recovery t ht
  rw [Dump.entries_text _ hgiven,Lexeme.ofTokens,List.map_map,List.map_map,List.map_map]
  rfl

/-- A source has errors for both recoveries or for none. -/
theorem Source.scan_clean (s : Source) (recovery : Recovery) :
    (s.scan recovery).errors.isEmpty = (s.scan .abort).errors.isEmpty := by
  have hfirst := (Reader.scan_abort_prefix (.ofSource s)).2.1
  cases recovery with
  | abort => rfl
  | skip =>
    change (s.scan .skip).errors.isEmpty = ((Reader.ofSource s).scan .abort).1.errors.isEmpty
    rw [hfirst]
    change (s.scan .skip).errors.isEmpty = ((s.scan .skip).errors.take 1).isEmpty
    cases (s.scan .skip).errors <;> rfl

namespace CommandLine

/-- The outcome for a file that can be read is that of the scan of its bytes. -/
theorem run_of_file (access : File.Access) (input : List UInt8) (args : List String)
    (path : String) (bytes : List UInt8) (o : Options) (ho : Options.ofArguments args = some o)
    (hpath : o.file = some path) (hencoding : o.encoding = .utf8)
    (hfile : access path = .ok bytes) :
    let source := Source.ofUtf8 bytes
    let scan := source.scan o.recovery
    run access input args =
      ⟨if scan.errors.isEmpty then 0 else 1,
        Dump.printed o.format (Lexeme.ofTokens source scan.tokens),
        scan.errors.map Error.diagnostic,
        if scan.errors.isEmpty then none else some s!"{scan.errors.length} error(s)"⟩ := by
  intro source scan
  have hne : path ≠ "" := by
    rintro rfl
    exact Options.file_ne_empty args o ho hpath
  have hsource : Source.ofFile access path .utf8 = .ok (source.withName path) := by
    rw [Source.ofFile,File.load,if_neg hne,hfile]
    rfl
  rw [← Dump.printed_withName o.format path source scan.tokens,run,ho]
  simp only [hencoding,hpath,Encoding.decoder_utf8,dump,hsource]
  cases o.format <;> rfl

/-- Without a file the program holds the conversation on its standard input, whatever the options
for listings are. -/
theorem run_of_input (access : File.Access) (input : List UInt8) (args : List String) (o : Options)
    (ho : Options.ofArguments args = some o) (hnone : o.file = none)
    (hencoding : o.encoding = .utf8) :
    run access input args = (Interactive.run .utf8 input).outcome account := by
  rw [run,ho]
  simp only [hencoding,hnone,Encoding.decoder_utf8]
  rfl

/-- Four runs on one file: the status is the same and zero if nothing is reported, the format
changes no report, and the run that stops at the first fault writes the beginning of what the run
that skips faults writes, and reports the first of its errors. The listing in JSON has a record for
each row of the listing in text, with the class, the offset and the text that the row has. -/
theorem run_four (access : File.Access) (input bytes : List UInt8) (path : String)
    (args : Dump.Format → Recovery → List String)
    (hargs : ∀ format recovery,∃ verbosity,Options.ofArguments (args format recovery) =
      some ⟨some path,.utf8,format,recovery,verbosity⟩)
    (hfile : access path = .ok bytes) :
    let run := fun format recovery => run access input (args format recovery)
    let errors := fun recovery => ((Source.ofUtf8 bytes).scan recovery).errors
    (∀ format recovery format' recovery',
      (run format recovery).exit = (run format' recovery').exit) ∧
    (∀ format recovery,(run format recovery).exit = 0 ↔
      ∀ format' recovery',(run format' recovery').diagnostics = []) ∧
    (∀ format recovery,
      (run format recovery).diagnostics = (errors recovery).map Error.diagnostic ∧
      (run format recovery).fatal = if (run format recovery).exit = 0 then none
        else some s!"{(run format recovery).diagnostics.length} error(s)") ∧
    errors .abort = (errors .skip).take 1 ∧
    (∀ format,(run format .abort).diagnostics = (run format .skip).diagnostics.take 1) ∧
    (∀ recovery,(run .text recovery).diagnostics = (run .json recovery).diagnostics ∧
      (run .text recovery).fatal = (run .json recovery).fatal) ∧
    (run .text .abort).output.toList <+: (run .text .skip).output.toList ∧
    ∃ records : Recovery → List Record,
      (∀ recovery,Text.Json.read (run .json recovery).output =
        some (.list ((records recovery).map (fun record => .record [
          ("kind",.text record.kind.label),("code",.number record.code),
          ("begin",.number record.start),("end",.number record.stop),
          ("text",.text record.text)])))) ∧
      (∀ kind : Kind,Kind.ofLabel? kind.label = some kind) ∧
      records .abort <+: records .skip ∧
      ((run .text .abort).exit = 0 → (run .text .abort).output = (run .text .skip).output ∧
        records .abort = records .skip) ∧
      ∀ recovery,Dump.entries? (run .text recovery).output = some ((records recovery).map
        (fun record => ⟨(Source.ofUtf8 bytes).position record.start,record.kind,record.text,
          record.start⟩)) := by
  intro run errors
  -- Whether a run fails is decided for all four by the scan that stops at the first fault.
  have hrun (format : Dump.Format) (recovery : Recovery) : run format recovery =
      ⟨if (errors .abort).isEmpty then 0 else 1,
        Dump.printed format (Lexeme.ofTokens (.ofUtf8 bytes)
          ((Source.ofUtf8 bytes).scan recovery).tokens),
        (errors recovery).map Error.diagnostic,
        if (errors .abort).isEmpty then none
          else some s!"{(errors recovery).length} error(s)"⟩ := by
    obtain ⟨verbosity,ho⟩ := hargs format recovery
    have hfile := run_of_file access input _ path bytes _ ho rfl rfl hfile
    simp only [(Source.ofUtf8 bytes).scan_clean recovery] at hfile
    exact hfile
  have hexit (format : Dump.Format) (recovery : Recovery) :
      (run format recovery).exit = 0 ↔ (errors .abort).isEmpty = true := by
    rw [hrun]
    cases (errors .abort).isEmpty <;> simp
  obtain ⟨htokens,hfirst,hsame⟩ := Reader.scan_abort_prefix (.ofSource (.ofUtf8 bytes))
  refine ⟨?_,?_,?_,hfirst,?_,?_,?_,?_⟩
  · intro format recovery format' recovery'
    rw [hrun,hrun]
  · intro format recovery
    rw [hexit]
    constructor
    · intro hclean format' recovery'
      rw [hrun,List.map_eq_nil_iff,← List.isEmpty_iff]
      exact ((Source.ofUtf8 bytes).scan_clean recovery').trans hclean
    · intro hnone
      have hnil := hnone .text .abort
      rw [hrun,List.map_eq_nil_iff] at hnil
      rw [hnil]
      rfl
  · intro format recovery
    rw [hrun]
    refine ⟨rfl,?_⟩
    simp only [List.length_map]
    cases (errors .abort).isEmpty <;> rfl
  · intro format
    rw [hrun,hrun]
    change (errors .abort).map _ = ((errors .skip).map _).take 1
    rw [← List.map_take]
    exact congrArg (List.map Error.diagnostic) hfirst
  · intro recovery
    rw [hrun,hrun]
    exact ⟨rfl,rfl⟩
  · rw [hrun,hrun]
    exact Dump.text_prefix _ _ (htokens.map _)
  · refine ⟨fun recovery => (Lexeme.ofTokens (.ofUtf8 bytes)
      ((Source.ofUtf8 bytes).scan recovery).tokens).map Lexeme.record,?_,Kind.ofLabel_label,
      ?_,?_,?_⟩
    · intro recovery
      rw [hrun]
      exact Dump.read_json _
    · exact (htokens.map _).map _
    · intro hclean
      have hscan := hsame (List.isEmpty_iff.mp ((hexit .text .abort).mp hclean))
      have htokens : ((Source.ofUtf8 bytes).scan .abort).tokens =
          ((Source.ofUtf8 bytes).scan .skip).tokens := congrArg (fun scan => scan.1.tokens) hscan
      rw [hrun,hrun]
      simp only [htokens,and_self]
    · intro recovery
      rw [hrun]
      exact (Source.ofUtf8 bytes).entries_records recovery

/-- Two letters with a byte between them that begins no character. -/
theorem run_four_letters :
    let bytes : List UInt8 := [0x61,0x20,0xFF,0x62]
    let access : File.Access := fun _ => .ok bytes
    let args := fun (format : Dump.Format) (recovery : Recovery) =>
      ["--recovery",recovery.name,"--format",
        match format with | .text => "text" | .json => "json","letters"]
    (∀ format recovery,∃ verbosity,Options.ofArguments (args format recovery) =
        some ⟨some "letters",.utf8,format,recovery,verbosity⟩) ∧
      access "letters" = .ok bytes ∧
      (run access [] (args .text .abort)).output = "1:1 Identifier 'a' @0\n" ∧
      (run access [] (args .text .abort)).output.toList <+:
        (run access [] (args .text .skip)).output.toList ∧
      (run access [] (args .json .abort)).diagnostics = ["lex::invalid_lead_byte"] ∧
      (run access [] (args .text .abort)).diagnostics =
        (run access [] (args .json .abort)).diagnostics := by
  intro bytes access args
  have hargs (format : Dump.Format) (recovery : Recovery) :
      ∃ verbosity,Options.ofArguments (args format recovery) =
        some ⟨some "letters",.utf8,format,recovery,verbosity⟩ := by
    refine ⟨0,?_⟩
    cases format <;> cases recovery <;> decide +kernel
  obtain ⟨_,_,_,_,_,hformat,hbegin,_⟩ :=
    run_four access [] bytes "letters" args hargs rfl
  exact ⟨hargs,rfl,by decide +kernel,hbegin,by decide +kernel,(hformat .abort).1⟩

end CommandLine

end Lexis
