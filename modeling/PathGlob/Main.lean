import PathGlob.CommandLine.Run

/-!
# The command

Reads a file tree from the standard input and runs the command line on it, with the top of the tree
as working directory. The tree has a line for each path: a directory ends with a slash, a link is
written `path -> target`, and anything else is an empty file.
-/

namespace PathGlob.Terminal

/-- A link's path and its target. -/
def splitArrow : List Char → Option (List Char × List Char)
  | ' ' :: '-' :: '>' :: ' ' :: target => some ([], target)
  | c :: rest => (splitArrow rest).map fun (path, target) => (c :: path, target)
  | [] => none

/-- What a line adds to the tree. -/
def changeOfLine (line : List Char) : Change :=
  match splitArrow line with
  | some (path, target) => .link (.ofText (String.ofList path)) (String.ofList target)
  | none =>
    let loc := Location.ofText (String.ofList line)
    if line.getLast? = some '/' then .directory loc else .file loc []

/-- A host with the paths of some lines. -/
def hostOfText (text : String) : Host where
  files := (Text.linesBy (· == '\n') text.toList).foldl
    (fun fs line => fs.apply (changeOfLine line)) FileSystem.empty
  cwd := "/"

def usage : String :=
  "usage: shellglob [OPTION ...] [PATTERN ...] < TREE
options: " ++ " ".intercalate (CommandLine.spellings.map Prod.fst) ++ "\n"

partial def readAll (input : IO.FS.Stream) (done : String) : IO String := do
  let line ← input.getLine
  if line.isEmpty then return done else readAll input (done ++ line)

def report (messages : List String) : IO Unit := do
  let err ← IO.getStderr
  for m in messages do
    err.putStrLn m

end PathGlob.Terminal

open PathGlob PathGlob.Terminal in
def main (args : List String) : IO UInt32 := do
  let host := hostOfText (← readAll (← IO.getStdin) "")
  match CommandLine.run host args with
  | .ok .help =>
    IO.print usage
    return 0
  | .ok (.finished status output messages) =>
    report messages
    IO.print output
    return status.toUInt32
  | .error e =>
    report [e.message]
    return 3
