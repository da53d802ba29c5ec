import PathGlob.FileSystem.Resolve

/-!
# Canonical paths

The canonical form of a path has no links, dots or empty components. Components are taken from left
to right; a double dot takes the last one back, whatever it is. A strict form exists only for what
exists; otherwise missing components are kept as they are.
-/
namespace PathGlob

/-- A null character stands in a path where it is looked up. -/
structure NullInPath where
  deriving DecidableEq, Repr

def hasNull (path : String) : Bool := path.toList.contains '\x00'

/-- The part of a path that is in canonical form. -/
structure Spelling where
  rooted : Bool
  parts : List String
  deriving DecidableEq, Repr

namespace Spelling

def push (s : Spelling) (c : String) : Spelling := { s with parts := s.parts ++ [c] }

/-- One level up. A relative spelling may start with double dots. -/
def up (s : Spelling) : Spelling :=
  if s.rooted then { s with parts := s.parts.dropLast }
  else if s.parts = [] ∨ s.parts.getLast? = some ".." then s.push ".."
  else { s with parts := s.parts.dropLast }

/-- Where links with the given target are read from. -/
def base (s : Spelling) (target : String) : Spelling :=
  if Path.isAbsolute target then ⟨true, []⟩ else s

/-- The spelling joined with a path that is given by its components. An empty component in front of
others makes that path absolute, so that it stands for itself. -/
def append (s : Spelling) : List String → Spelling
  | "" :: c :: rest => ⟨true, c :: rest⟩
  | more => { s with parts := s.parts ++ more }

/-- As an absolute path in normal form. -/
def toPath (cwd : String) (s : Spelling) : String :=
  if s.rooted then Path.normalize ("/" ++ "/".intercalate s.parts)
  else Path.absolute cwd ("/".intercalate s.parts)

end Spelling

/-- How far the way to a canonical form leads. -/
inductive Journey where
  | arrived (there : Spelling)
  /-- A link leads back to itself; the link, with the components that were left. -/
  | looped (link : Spelling)
  deriving DecidableEq, Repr

inductive CanonicalError where
  | null
  | fault (f : Fault)
  deriving DecidableEq, Repr

namespace Host

/-- The node at a spelling, the last link not followed. -/
def peek (h : Host) (s : Spelling) : Except Fault Node := do
  let loc ← h.files.resolve false maxLinks (if s.rooted then [] else Location.ofText h.cwd) s.parts
  match h.files.node? loc with
  | some node => return node
  | none => throw .notFound

/-- What a link that leads back to itself amounts to. -/
def endInLoop (strict : Bool) (link : Spelling) : Except CanonicalError Journey :=
  if strict then .error (.fault .linkLoop) else .ok (.looped link)

/-- Goes through components; `active` holds the links on the way, and `onLink` goes through the
target of one more. -/
def travelWith (h : Host) (strict : Bool) (active : List Spelling)
    (onLink : Spelling → Spelling → List String → Except CanonicalError Journey) :
    Spelling → List String → Except CanonicalError Journey
  | here, [] => .ok (.arrived here)
  | here, c :: rest =>
    if c = "" ∨ c = "." then travelWith h strict active onLink here rest
    else if c = ".." then travelWith h strict active onLink here.up rest
    else if hasNull c then .error .null
    else
      let next := here.push c
      match h.peek next with
      | .ok (.link target) =>
        if next ∈ active then endInLoop strict (next.append rest)
        else
          match onLink next (here.base target) (Path.components target) with
          | .ok (.arrived there) => travelWith h strict active onLink there rest
          | .ok (.looped there) => .ok (.looped (there.append rest))
          | .error e => .error e
      | .ok _ => travelWith h strict active onLink next rest
      | .error f =>
        if strict then .error (.fault f) else travelWith h strict active onLink next rest

/-- Goes through components, with at most `depth` links inside each other. -/
def travel (h : Host) (strict : Bool) : (depth : Nat) → List Spelling → Spelling → List String →
    Except CanonicalError Journey
  | 0, active => travelWith h strict active fun link _ _ => endInLoop strict link
  | depth + 1, active =>
    travelWith h strict active fun link start target =>
      travel h strict depth (link :: active) start target

/-- More links than can be inside each other: each has at most one rooted spelling, and a bounded
number of relative ones. -/
def linkDepth (h : Host) : Nat := 4 * h.files.linkCount + 4

def journey (h : Host) (strict : Bool) (path : String) : Except CanonicalError Journey :=
  h.travel strict h.linkDepth [] ⟨Path.isAbsolute path, []⟩ (Path.components path)

/-- The canonical form of a path that exists; `none` if it does not. -/
def canonical (h : Host) (path : String) : Except NullInPath (Option String) :=
  match h.journey true path with
  | .ok (.arrived s) => .ok (some (s.toPath h.cwd))
  | .ok (.looped _) => .ok none
  | .error .null => .error {}
  | .error (.fault _) => .ok none

end Host

end PathGlob
