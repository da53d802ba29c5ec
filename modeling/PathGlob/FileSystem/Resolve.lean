import PathGlob.FileSystem.Basic
import PathGlob.Path
import PathGlob.Text.Quoted

/-!
# Resolving paths

`resolve` follows the components of a path from a location, through links where they stand in the
way. It stops at the first component that cannot be followed.
-/
namespace PathGlob

/-- Why a path leads nowhere. -/
inductive Fault where
  | notFound
  | denied
  | notDirectory
  | isDirectory
  | linkLoop
  deriving DecidableEq, Repr

namespace Fault

/-- The number that stands for the fault in messages. -/
def number : Fault → Nat
  | notFound => 2
  | denied => 13
  | notDirectory => 20
  | isDirectory => 21
  | linkLoop => 40

def text : Fault → String
  | notFound => "No such file or directory"
  | denied => "Permission denied"
  | notDirectory => "Not a directory"
  | isDirectory => "Is a directory"
  | linkLoop => "Too many levels of symbolic links"

end Fault

/-- A fault with the path for which it arose. -/
structure SystemError where
  fault : Fault
  path : String
  deriving DecidableEq, Repr

def SystemError.message (e : SystemError) : String :=
  "[Errno " ++ toString e.fault.number ++ "] " ++ e.fault.text ++ ": " ++ Text.quoted e.path

/-- How many links one path may lead through. -/
def maxLinks : Nat := 40

namespace FileSystem

/-- Follows components from a location; `onLink` goes on where a link has to be followed, with the
components that are left then. A last link is followed only on request. -/
def resolveWith (fs : FileSystem) (followLast : Bool)
    (onLink : Location → List String → Except Fault Location) :
    Location → List String → Except Fault Location
  | here, [] => .ok here
  | here, c :: rest =>
    match fs.node? here with
    | some (.directory access) =>
      if c = "" then resolveWith fs followLast onLink here rest
      else if !access.searchable then .error .denied
      else if c = "." then resolveWith fs followLast onLink here rest
      else if c = ".." then resolveWith fs followLast onLink here.dropLast rest
      else
        match Name.ofText? c with
        | none => .error .notFound
        | some n =>
          match fs.node? (here ++ [n]) with
          | none => .error .notFound
          | some (.link target) =>
            if rest = [] ∧ ¬ followLast then .ok (here ++ [n])
            else
              onLink (if Path.isAbsolute target then [] else here) (Path.components target ++ rest)
          | some _ => resolveWith fs followLast onLink (here ++ [n]) rest
    | _ => .error .notDirectory

/-- Follows components from a location through at most the given number of links. -/
def resolve (fs : FileSystem) (followLast : Bool) : (links : Nat) → Location → List String →
    Except Fault Location
  | 0 => resolveWith fs followLast fun _ _ => .error .linkLoop
  | links + 1 => resolveWith fs followLast (resolve fs followLast links)

end FileSystem

/-- A file system with a working directory. -/
structure Host where
  files : FileSystem
  /-- The working directory, an absolute path. -/
  cwd : String

namespace Host

def startOf (h : Host) (path : String) : Location :=
  if Path.isAbsolute path then [] else Location.ofText h.cwd

def locate (h : Host) (followLast : Bool) (path : String) : Except Fault Location :=
  if path = "" then .error .notFound
  else h.files.resolve followLast maxLinks (h.startOf path) (Path.components path)

end Host

inductive Kind where
  | directory
  | file
  | link
  deriving DecidableEq, Repr

def Node.kind : Node → Kind
  | .directory _ => .directory
  | .file .. => .file
  | .link _ => .link

/-- Which node it is: where it is, and which of those that were there. -/
structure Identity where
  location : Location
  stamp : Nat
  deriving DecidableEq, Repr

/-- What is known of a node without looking into it. -/
structure Status where
  kind : Kind
  identity : Identity
  deriving DecidableEq, Repr

/-- A name in a directory. Links count as directories if they lead to one; a link whose target
cannot be told is taken for a plain file. -/
structure Entry where
  name : Name
  isDir : Bool
  isLink : Bool
  deriving DecidableEq, Repr

namespace Host

def status (h : Host) (followLast : Bool) (path : String) : Except Fault Status := do
  let loc ← h.locate followLast path
  match h.files.node? loc with
  | some node => return ⟨node.kind, loc, h.files.stampAt loc⟩
  | none => throw .notFound

/-- The entry for a name, seen from a directory's path. -/
def entry (h : Host) (dir : String) (n : Name) (node : Node) : Entry :=
  match node with
  | .directory _ => ⟨n, true, false⟩
  | .file .. => ⟨n, false, false⟩
  | .link _ =>
    match h.status true (Path.child dir n.text) with
    | .ok s => ⟨n, s.kind = .directory, true⟩
    | .error .notFound => ⟨n, false, true⟩
    | .error _ => ⟨n, false, false⟩

/-- The entries of a directory, oldest first. -/
def list (h : Host) (path : String) : Except Fault (List Entry) := do
  let loc ← h.locate true path
  match h.files.node? loc with
  | some (.directory access) =>
    if access.readable then
      return (h.files.children loc).map fun (n, node) => h.entry path n node
    else throw .denied
  | _ => throw .notDirectory

def read (h : Host) (path : String) : Except Fault (List UInt8) := do
  let loc ← h.locate true path
  match h.files.node? loc with
  | some (.file readable content) => if readable then return content else throw .denied
  | some (.directory _) => throw .isDirectory
  | _ => throw .notFound

end Host

end PathGlob
