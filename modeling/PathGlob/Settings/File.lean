import PathGlob.FileSystem.Content
import PathGlob.Settings.Basic
import PathGlob.Toml.Reader

/-!
# Settings files

Settings are in a file of their own or in one table of a project file. The file that counts is the
nearest one, from a directory upward.
-/
namespace PathGlob.Settings

inductive LoadError where
  | read (e : ReadError)
  /-- The project file has something else than a table in the place of its tables for tools. -/
  | toolNotTable
  /-- A whole number has too many digits to be read, or to be shown in a notice. -/
  | tooManyDigits
  /-- The directory to start from is behind a link that leads back to itself. -/
  | linkLoop
  deriving DecidableEq, Repr

def LoadError.message : LoadError → String
  | read e => e.message
  | toolNotTable => "the tools of a project file are no table"
  | tooManyDigits => "a number has too many digits"
  | linkLoop => "the directory is behind a link that leads back to itself"

/-- The name of a project file, in which settings are one table among others. -/
def projectFile : String := "pyproject.toml"

/-- The names of settings files, in the order in which they are looked for. -/
def fileNames : List String := [".shellglob.toml", "shellglob.toml", projectFile]

/-- The settings table of a project file. -/
def projectTable (fields : Toml.Fields) : Except LoadError (Option Toml.Fields) :=
  match fields.lookup "tool" with
  | none => .ok none
  | some (.table tools) =>
    match tools.lookup "shellglob" with
    | some (.table table) => .ok (some table)
    | _ => .ok none
  | some _ => .error .toolNotTable

/-- The settings table of the project file at a path. A file that cannot be read, or that is
malformed, has none. -/
def readProject (h : Host) (path : String) : Except LoadError (Option Toml.Fields) :=
  match h.readText path with
  | .error (.system _) => .ok none
  | .error e => .error (.read e)
  | .ok text =>
    match Toml.read text with
    | .ok fields => projectTable fields
    | .error .malformed => .ok none
    | .error .tooManyDigits => .error .tooManyDigits

/-- Settings together with the notices about their file, provided that these can be shown. -/
def noted (r : Settings × List Notice) : Except LoadError (Settings × List Notice) :=
  if r.2.all Notice.showable then .ok r else .error .tooManyDigits

/-- The settings in a file, given by a tidy path. -/
def load (h : Host) (path : String) : Except LoadError (Settings × List Notice) :=
  if Path.baseName path = projectFile then
    match readProject h path with
    | .error e => .error e
    | .ok none => .ok (empty, [])
    | .ok (some fields) => noted (ofFields fields)
  else
    match h.readText path with
    | .error e => .error (.read e)
    | .ok text =>
      match Toml.read text with
      | .ok fields => noted (ofFields fields)
      | .error .malformed => .ok (empty, [.malformed])
      | .error .tooManyDigits => .error .tooManyDigits

/-- Whether a path leads to a file. Being kept from looking is an error. -/
def isFile (h : Host) (path : String) : Except LoadError Bool :=
  if hasNull path then .ok false
  else
    match h.status true path with
    | .ok s => .ok (s.kind = .file)
    | .error .denied => .error (.read (.system ⟨.denied, path⟩))
    | .error _ => .ok false

/-- Whether a path leads to a file that settings are taken from. -/
def isUsable (h : Host) (name path : String) : Except LoadError Bool := do
  if ← isFile h path then
    if name = projectFile then return (← readProject h path).isSome
    else return true
  else return false

def firstUsable (h : Host) : List (String × String) → Except LoadError (Option String)
  | [] => .ok none
  | (name, path) :: rest => do
    if ← isUsable h name path then return some path else firstUsable h rest

/-- A directory, given by the names that lead there, and those above it, nearest first. -/
def upward (parts : List String) : List (List String) :=
  (List.range (parts.length + 1)).map fun n => parts.take (parts.length - n)

def pathIn (dir : List String) (name : String) : String :=
  "/" ++ "/".intercalate (dir ++ [name])

/-- The paths to look at, nearest first, each with its name. -/
def candidates (start : String) : List (String × String) :=
  (upward ((Path.components start).filter (· ≠ ""))).flatMap fun dir =>
    fileNames.map fun name => (name, pathIn dir name)

/-- The directory to start from, without links as far as it exists. -/
def startingPoint (h : Host) (start : String) : Except LoadError String :=
  match h.journey false (Path.tidy start) with
  | .error .null => .error (.read .null)
  | .error (.fault f) => .error (.read (.system ⟨f, start⟩))
  | .ok journey =>
    let path := match journey with
      | .arrived s => s.toPath h.cwd
      | .looped s => s.toPath h.cwd
    match h.status true path with
    | .error .linkLoop => .error .linkLoop
    | _ => .ok path

/-- The settings file that counts for a directory. -/
def find (h : Host) (start : String) : Except LoadError (Option String) := do
  firstUsable h (candidates (← startingPoint h start))

end PathGlob.Settings
