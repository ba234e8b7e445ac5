import Lexis.File

/-!
A directory tree in memory. Paths are looked up one component at a time from the directory itself;
outside of it nothing but the directories above can be found.
-/

namespace Lexis

/-- Files by their path components. A proper beginning of such a path is a directory. -/
structure Directory where
  files : List (List String × List UInt8)

namespace Directory

/-- The most bytes of a component. -/
def maxComponent : Nat := 255

/-- The least bytes of a path that is too long. -/
def pathLimit : Nat := 4096

/-- The pieces of a text between its slashes. -/
def pieces : List Char → List (List Char)
  | [] => [[]]
  | c::cs =>
    if c = '/' then []::pieces cs
    else
      match pieces cs with
      | [] => [[c]]
      | piece::rest => (c::piece)::rest

def components (path : String) : List String := (pieces path.toList).map String.ofList

def ofFiles (files : List (String × List UInt8)) : Directory :=
  ⟨files.map (fun f => ((components f.1).filter (fun c => c != "" && c != "."),f.2))⟩

def content? (d : Directory) (path : List String) : Option (List UInt8) := d.files.lookup path

def hasDirectory (d : Directory) (path : List String) : Bool :=
  path.isEmpty || d.files.any (fun f => path.isPrefixOf f.1 && path.length < f.1.length)

/-- Where a look-up stands: above the directory, or at a path in it. -/
inductive Place where
  | above
  | inside (path : List String)
  deriving DecidableEq, Repr

def isFile (d : Directory) : Place → Bool
  | .above => false
  | .inside path => (d.content? path).isSome

/-- Follows one component. Only a directory has components, itself and its parent included. -/
def follow (d : Directory) (p : Place) (component : String) : Except ReadFailure Place :=
  if d.isFile p then .error .notADirectory
  else if component = "" ∨ component = "." then .ok p
  else if component = ".." then
    match p with
    | .inside (c::cs) => .ok (.inside (c::cs).dropLast)
    | _ => .ok .above
  else if maxComponent < component.utf8ByteSize then .error .nameTooLong
  else
    match p with
    | .above => .error .notFound
    | .inside path =>
      let path := path++[component]
      if (d.content? path).isSome || d.hasDirectory path then .ok (.inside path)
      else .error .notFound

def read (d : Directory) : File.Access := fun path =>
  if path.toList.contains '\x00' then
    .error (.other "file name contained an unexpected NUL byte")
  else if pathLimit ≤ path.utf8ByteSize then .error .nameTooLong
  else
    let start := if path.toList.head? = some '/' then Place.above else .inside []
    match (components path).foldlM d.follow start with
    | .error failure => .error failure
    | .ok .above => .error .isADirectory
    | .ok (.inside path) =>
      match d.content? path with
      | some bytes => .ok bytes
      | none => .error .isADirectory

end Directory

end Lexis
