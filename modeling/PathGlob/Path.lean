/-!
# Path spellings

Operations on spelled paths alone, which look at no directory: joining, and the normal form without
empty components, dots and such double dots as can be taken back.
-/
namespace PathGlob.Path

def components (path : String) : List String :=
  (path.toList.splitOn '/').map String.ofList

def isAbsolute (path : String) : Bool := path.toList.head? == some '/'

def endsWithSlash (path : String) : Bool := path.toList.getLast? == some '/'

/-- Puts a path behind a directory; an absolute path stands for itself. -/
def join (dir path : String) : String :=
  if isAbsolute path then path
  else if dir = "" ∨ endsWithSlash dir then dir ++ path
  else dir ++ "/" ++ path

def child (dir name : String) : String :=
  if endsWithSlash dir then dir ++ name else dir ++ "/" ++ name

/-- The slashes that a normal form begins with: two stay two, more count as one. -/
def leadingSlashes : List Char → Nat
  | '/' :: '/' :: '/' :: _ => 1
  | '/' :: '/' :: _ => 2
  | '/' :: _ => 1
  | _ => 0

/-- Adds a component to a normal form. A double dot takes the last component back, stays at the
start of a relative path and vanishes at the root. -/
def climb (rooted : Bool) (done : List String) (c : String) : List String :=
  if c = "" ∨ c = "." then done
  else if c ≠ ".." then done ++ [c]
  else if done.getLast? = some ".." then done ++ [c]
  else if done = [] then (if rooted then [] else [c])
  else done.dropLast

def normalize (path : String) : String :=
  let slashes := leadingSlashes path.toList
  let parts := (components path).foldl (climb (slashes != 0)) []
  let normal := String.ofList (List.replicate slashes '/') ++ "/".intercalate parts
  if normal = "" then "." else normal

/-- The normal form of a path that is read from a working directory. -/
def absolute (cwd path : String) : String := normalize (join cwd path)

/-- A path without its empty components and dots; double dots stay. -/
def tidy (path : String) : String :=
  let parts := (components path).filter fun c => c ≠ "" ∧ c ≠ "."
  let slashes := String.ofList (List.replicate (leadingSlashes path.toList) '/')
  let tidied := slashes ++ "/".intercalate parts
  if tidied = "" then "." else tidied

/-- The last component of a tidy path; empty if there is none. -/
def baseName (path : String) : String :=
  let last := (components path).getLast?.getD ""
  if last = "." then "" else last

/-- A path without the slashes at its start. -/
def dropLeadingSlashes (path : String) : String :=
  String.ofList (path.toList.dropWhile (· = '/'))

end PathGlob.Path
