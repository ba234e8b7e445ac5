import Lexis.Dump
import Lexis.Encoding
import Lexis.Recovery

/-!
Command line arguments. An option that takes a value takes it after an equals sign or as the next
argument, and at most once; only `-v` may be repeated.
-/

namespace Lexis

namespace CommandLine

structure Options where
  /-- The file to scan, if it is not to be standard input. -/
  file : Option String
  encoding : Encoding
  format : Dump.Format
  recovery : Recovery
  verbosity : Nat
  deriving DecidableEq, Repr

/-- One argument by its shape. -/
inductive Argument where
  | separator
  | named (name : String) (value : Option String)
  | flags (letters : List Char)
  | file (path : String)
  deriving DecidableEq, Repr

def Argument.ofString (s : String) : Argument :=
  match s.toList with
  | ['-','-'] => .separator
  | '-' :: '-' :: cs =>
    let name := String.ofList (cs.takeWhile (· != '='))
    match cs.dropWhile (· != '=') with
    | [] => .named name none
    | _::value => .named name (some (String.ofList value))
  | '-' :: c :: cs => .flags (c::cs)
  | _ => .file s

/-- What the arguments so far have set. -/
structure Draft where
  file : Option String
  encoding : Option Encoding
  format : Option Dump.Format
  recovery : Option Recovery
  verbosity : Nat

namespace Draft

def empty : Draft := ⟨none,none,none,none,0⟩

/-- The new value, unless it is refused or there is an old one. -/
def once {α : Type} (old : Option α) (new : Except NameError α) : Option α :=
  match old,new with
  | none,.ok value => some value
  | _,_ => none

def setFile (d : Draft) (path : String) : Option Draft :=
  if d.file.isSome ∨ path = "" then none else some { d with file := some path }

def setOption (d : Draft) (name value : String) : Option Draft :=
  match name with
  | "encoding" => do
      let e ← once d.encoding (Encoding.ofName value)
      some { d with encoding := some e }
  | "format" => do
      let f ← once d.format (Dump.Format.ofName value)
      some { d with format := some f }
  | "recovery" => do
      let r ← once d.recovery (Recovery.ofName value)
      some { d with recovery := some r }
  | _ => none

def setFlags (d : Draft) (letters : List Char) : Option Draft :=
  if letters.all (· == 'v') then some { d with verbosity := d.verbosity+letters.length } else none

/-- Reads the arguments in order; none is the answer to bad usage. -/
def read (d : Draft) : List String → Option Draft
  | [] => some d
  | arg::rest =>
    match Argument.ofString arg with
    | .separator => rest.foldlM setFile d
    | .file path => do
        let d ← d.setFile path
        read d rest
    | .flags letters => do
        let d ← d.setFlags letters
        read d rest
    | .named "verbose" none => read { d with verbosity := d.verbosity+1 } rest
    | .named name (some value) => do
        let d ← d.setOption name value
        read d rest
    | .named name none =>
      match rest with
      | [] => none
      | value::rest => do
        let d ← d.setOption name value
        read d rest

end Draft

/-- What is not set is UTF-8, text and to abort. -/
def Options.ofArguments (args : List String) : Option Options := do
  let d ← Draft.empty.read args
  some ⟨d.file,d.encoding.getD .utf8,d.format.getD .text,d.recovery.getD .abort,d.verbosity⟩

end CommandLine

end Lexis
