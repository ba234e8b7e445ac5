import Lexis.Proofs.Program

/-!
The program on standard input, line by line. What a line is answered with depends on that line
alone: `run_lines` says that it is what the program writes for a file that holds the line, and that
an input cut behind a newline is answered part by part.
-/

namespace Lexis

namespace Interactive

/-- The line without white space at its ends, if it is text. -/
def trimmed? (line : List UInt8) : Option String :=
  (String.fromUTF8? (body line).toByteArray).map
    (fun text => String.ofList (Unicode.trim text.toList))

/-- No line is read after this one: it quits, or it is no text. -/
def closes (line : List UInt8) : Bool :=
  match trimmed? line with
  | none => true
  | some text => text == ":q" || text == ":quit"

/-- The lines that are answered: those before the first one that closes, less the blank ones. -/
def heard (ls : List (List UInt8)) : List (List UInt8) :=
  (ls.takeWhile (fun line => !closes line)).filter (fun line => trimmed? line != some "")

section Lines

variable {line : List UInt8} (encoding : Encoding) (rest : List (List UInt8))

/-- What a line asks for is said by its trimmed text. -/
theorem converse_cons (text : String) (h : String.fromUTF8? (body line).toByteArray = some text) :
    converse encoding (line::rest) =
      match Request.ofText text with
      | .nothing => converse encoding rest
      | .quit => silent
      | .scan => ⟨(answer encoding (body line)).output++(converse encoding rest).output,
          (answer encoding (body line)).diagnostics++(converse encoding rest).diagnostics,
          (converse encoding rest).failure⟩ := by
  cases hr : Request.ofText text <;> simp only [converse,h,hr]

theorem converse_of_close (h : closes line = true) :
    converse encoding (line::rest) =
      ⟨"",[],if trimmed? line = none then some .notUtf8 else none⟩ := by
  cases htext : String.fromUTF8? (body line).toByteArray with
  | none => simp [converse,trimmed?,htext]
  | some text =>
    rw [converse_cons encoding rest text htext,Request.ofText]
    simp only [closes,trimmed?,htext,Option.map_some,Bool.or_eq_true,beq_iff_eq] at h ⊢
    rcases h with h | h <;> rw [h] <;> rfl

theorem converse_of_blank (h : trimmed? line = some "") :
    converse encoding (line::rest) = converse encoding rest := by
  obtain ⟨text,htext,hblank⟩ := Option.map_eq_some_iff.mp h
  rw [converse_cons encoding rest text htext,Request.ofText,hblank]
  rfl

theorem converse_of_answer (h : closes line = false) (hblank : trimmed? line ≠ some "") :
    converse encoding (line::rest) =
      ⟨(answer encoding (body line)).output++(converse encoding rest).output,
        (answer encoding (body line)).diagnostics++(converse encoding rest).diagnostics,
        (converse encoding rest).failure⟩ := by
  cases htext : String.fromUTF8? (body line).toByteArray with
  | none => simp [closes,trimmed?,htext] at h
  | some text =>
    simp only [closes,trimmed?,htext,Option.map_some,Bool.or_eq_false_iff,beq_eq_false_iff_ne,
      ne_eq,Option.some.injEq] at h hblank
    have hscan : Request.ofText text = .scan := by
      unfold Request.ofText
      split
      · next he => exact absurd he hblank
      · next he => exact absurd he h.1
      · next he => exact absurd he h.2
      · rfl
    rw [converse_cons encoding rest text htext,hscan]

end Lines

theorem heard_of_close {line : List UInt8} (rest : List (List UInt8)) (h : closes line = true) :
    heard (line::rest) = [] := by
  simp [heard,h]

theorem heard_of_blank {line : List UInt8} (rest : List (List UInt8)) (hclose : closes line = false)
    (h : trimmed? line = some "") : heard (line::rest) = heard rest := by
  simp [heard,hclose,h]

theorem heard_of_answer {line : List UInt8} (rest : List (List UInt8))
    (hclose : closes line = false) (h : trimmed? line ≠ some "") :
    heard (line::rest) = line::heard rest := by
  simp [heard,hclose,h]

/-- The answers to the lines that are heard, one after the other. -/
theorem converse_eq (encoding : Encoding) (ls : List (List UInt8)) :
    (converse encoding ls).output =
        String.join ((heard ls).map (fun line => (answer encoding (body line)).output)) ∧
      (converse encoding ls).diagnostics =
        (heard ls).flatMap (fun line => (answer encoding (body line)).diagnostics) ∧
      (converse encoding ls).failure =
        if (ls.find? closes).any (fun line => trimmed? line = none) then some .notUtf8
        else none := by
  induction ls with
  | nil => exact ⟨rfl,rfl,rfl⟩
  | cons line ls ih =>
    obtain ⟨houtput,hdiagnostics,hfailure⟩ := ih
    cases hclose : closes line with
    | true =>
      rw [converse_of_close encoding ls hclose,heard_of_close ls hclose]
      refine ⟨rfl,rfl,?_⟩
      simp [hclose]
    | false =>
      by_cases hblank : trimmed? line = some ""
      · rw [converse_of_blank encoding ls hblank,heard_of_blank ls hclose hblank]
        refine ⟨houtput,hdiagnostics,?_⟩
        rw [hfailure,List.find?_cons,hclose]
      · rw [converse_of_answer encoding ls hclose hblank,heard_of_answer ls hclose hblank]
        refine ⟨?_,?_,?_⟩
        · simp [houtput]
        · simp [hdiagnostics]
        · rw [hfailure,List.find?_cons,hclose]

/-- Cut behind a newline, an input has the lines of its parts. -/
theorem lines_append (s t : List UInt8) (h : s = [] ∨ s.getLast? = some Source.newline) :
    lines (s++t) = lines s++lines t := by
  induction s with
  | nil => rfl
  | cons b s ih =>
    rcases s with _ | ⟨c,s⟩
    · obtain rfl : b = Source.newline := by simpa using h
      rfl
    · -- The rest still ends with a newline, and has a first line for the byte to go to.
      have hrest := ih (.inr (by simpa [List.getLast?_cons_cons] using h))
      rw [List.cons_append,lines,lines,hrest]
      split
      · rfl
      · cases hl : lines (c::s) with
        | nil =>
          have hflat := lines_flatten (c::s)
          simp [hl] at hflat
        | cons line more => rfl

theorem heard_append (ls ms : List (List UInt8)) (h : ∀ line ∈ ls,closes line = false) :
    heard (ls++ms) = heard ls++heard ms := by
  have hopen : ∀ line ∈ ls,(!closes line) = true := by
    intro line hline
    rw [h line hline]
    rfl
  have hall : (ls++[]).takeWhile (fun line => !closes line) = ls++[] :=
    List.takeWhile_append_of_pos hopen
  rw [List.append_nil] at hall
  rw [heard,heard,heard,List.takeWhile_append_of_pos hopen,List.filter_append,hall]

/-- What ends a conversation is not in a part of it where no line closes. -/
theorem find_append (ls ms : List (List UInt8)) (h : ∀ line ∈ ls,closes line = false) :
    (ls++ms).find? closes = ms.find? closes := by
  have hnone : ls.find? closes = none := by
    rw [List.find?_eq_none]
    intro line hline
    simp [h line hline]
  rw [List.find?_append,hnone]
  rfl

theorem outcome_eq (account : Failure → String) (t : Transcript) :
    (t.outcome account).output = t.output ∧ (t.outcome account).diagnostics = t.diagnostics ∧
      (t.outcome account).exit = (if t.failure.isSome then 1 else 0) ∧
      (t.outcome account).fatal = t.failure.map account := by
  rw [Transcript.outcome]
  cases t.failure <;> exact ⟨rfl,rfl,rfl,rfl⟩

/-- A line is answered as the program answers for a file that holds the line. -/
theorem answer_eq_run (access : File.Access) (input line : List UInt8) (args : List String)
    (path : String) (verbosity : Nat)
    (hargs : CommandLine.Options.ofArguments args = some ⟨some path,.utf8,.text,.skip,verbosity⟩)
    (hfile : access path = .ok line) :
    (answer .utf8 line).output = (CommandLine.run access input args).output ∧
      (answer .utf8 line).diagnostics = (CommandLine.run access input args).diagnostics := by
  rw [CommandLine.run_of_file access input args path line _ hargs rfl rfl hfile]
  exact ⟨rfl,rfl⟩

/-- A conversation goes line by line: an input cut behind a newline is answered part by part unless
the first part ends the conversation, and a line that is heard gets the output and the reports that
the program has for a file with that line alone. The program without a file is this conversation. -/
theorem run_lines (account : Failure → String) (input : List UInt8)
    (args : List String) (path : String) (verbosity : Nat) (files : List UInt8 → File.Access)
    (hargs : CommandLine.Options.ofArguments args = some ⟨some path,.utf8,.text,.skip,verbosity⟩)
    (hfiles : ∀ bytes,files bytes path = .ok bytes) :
    let talk := fun input => (run .utf8 input).outcome account
    let dump := fun line => CommandLine.run (files (body line)) input args
    (∀ s t : List UInt8,(s = [] ∨ s.getLast? = some Source.newline) →
      (∀ line ∈ lines s,closes line = false) →
        (talk (s++t)).output = (talk s).output++(talk t).output ∧
        (talk (s++t)).diagnostics = (talk s).diagnostics++(talk t).diagnostics ∧
        (talk (s++t)).exit = (talk t).exit ∧ (talk (s++t)).fatal = (talk t).fatal) ∧
    (∀ s : List UInt8,
      (talk s).output = String.join ((heard (lines s)).map (fun line => (dump line).output)) ∧
      (talk s).diagnostics = (heard (lines s)).flatMap (fun line => (dump line).diagnostics) ∧
      (talk s).exit =
        if ((lines s).find? closes).any (fun line => trimmed? line = none) then 1 else 0) ∧
    ∀ (access : File.Access) (s : List UInt8) (options : List String) (o : CommandLine.Options),
      CommandLine.Options.ofArguments options = some o → o.file = none → o.encoding = .utf8 →
        CommandLine.run access s options = (run .utf8 s).outcome CommandLine.account := by
  intro talk dump
  have hoccurs (s : List UInt8) := outcome_eq account (run .utf8 s)
  have hanswers (s : List UInt8) := converse_eq .utf8 (lines s)
  have hdump (line : List UInt8) := answer_eq_run (files (body line)) input (body line) args path
    verbosity hargs (hfiles (body line))
  refine ⟨?_,?_,CommandLine.run_of_input⟩
  · intro s t hs hopen
    obtain ⟨houtput,hdiagnostics,hexit,hfatal⟩ := hoccurs (s++t)
    obtain ⟨houtput₁,hdiagnostics₁,_⟩ := hoccurs s
    obtain ⟨houtput₂,hdiagnostics₂,hexit₂,hfatal₂⟩ := hoccurs t
    have hlines := lines_append s t hs
    have hheard := heard_append (lines s) (lines t) hopen
    have hfailure : (run .utf8 (s++t)).failure = (run .utf8 t).failure := by
      rw [run,run,(hanswers (s++t)).2.2,(hanswers t).2.2,hlines,find_append _ _ hopen]
    refine ⟨?_,?_,?_,?_⟩
    · rw [houtput,houtput₁,houtput₂,run,run,run,(hanswers (s++t)).1,(hanswers s).1,(hanswers t).1,
        hlines,hheard,List.map_append,String.join_append]
    · rw [hdiagnostics,hdiagnostics₁,hdiagnostics₂,run,run,run,(hanswers (s++t)).2.1,
        (hanswers s).2.1,(hanswers t).2.1,hlines,hheard,List.flatMap_append]
    · rw [hexit,hexit₂,hfailure]
    · rw [hfatal,hfatal₂,hfailure]
  · intro s
    obtain ⟨houtput,hdiagnostics,hexit,_⟩ := hoccurs s
    refine ⟨?_,?_,?_⟩
    · rw [houtput,run,(hanswers s).1]
      congr 2
      funext line
      exact (hdump line).1
    · rw [hdiagnostics,run,(hanswers s).2.1]
      congr 1
      funext line
      exact (hdump line).2
    · rw [hexit,run,(hanswers s).2.2]
      split <;> rfl

/-- A letter and a blank line, then a number with a stray character and a line that quits. -/
theorem run_lines_letter_number :
    let talk := fun input => (run .utf8 input).outcome Failure.message
    let args := ["--recovery","skip","line"]
    let files : List UInt8 → File.Access := fun bytes _ => .ok bytes
    let s : List UInt8 := [0x61,0x0D,0x0A,0x20,0x0A]
    let t : List UInt8 := [0x31,0x3F,0x0A,0x3A,0x71,0x0A,0x62]
    CommandLine.Options.ofArguments args = some ⟨some "line",.utf8,.text,.skip,0⟩ ∧
      (∀ bytes,files bytes "line" = .ok bytes) ∧
      (s = [] ∨ s.getLast? = some Source.newline) ∧ (∀ line ∈ lines s,closes line = false) ∧
      (talk (s++t)).output = (talk s).output++(talk t).output ∧
      (talk s).output = "1:1 Identifier 'a' @0\n1:2 EndOfFile '' @1\n" ∧
      (talk t).output = String.join ((heard (lines t)).map
        (fun line => (CommandLine.run (files (body line)) [] args).output)) ∧
      (heard (lines t)).map body = [[0x31,0x3F]] ∧
      (talk t).diagnostics = ["lex::unrecognized_character"] ∧
      CommandLine.run (fun _ => .error .notFound) t ["--format","json"] =
        (run .utf8 t).outcome CommandLine.account := by
  intro talk args files s t
  have hargs : CommandLine.Options.ofArguments args = some ⟨some "line",.utf8,.text,.skip,0⟩ := by
    decide +kernel
  have hs : s = [] ∨ s.getLast? = some Source.newline := .inr rfl
  have hopen : ∀ line ∈ lines s,closes line = false := by decide +kernel
  have hoptions : CommandLine.Options.ofArguments ["--format","json"] =
      some ⟨none,.utf8,.json,.abort,0⟩ := by
    decide +kernel
  obtain ⟨happend,hlines,hprogram⟩ :=
    run_lines Failure.message [] args "line" 0 files hargs (fun _ => rfl)
  exact ⟨hargs,fun _ => rfl,hs,hopen,(happend s t hs hopen).1,by decide +kernel,(hlines t).1,
    by decide +kernel,by decide +kernel,hprogram _ t _ _ hoptions rfl rfl⟩

end Interactive

end Lexis
