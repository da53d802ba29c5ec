import PathGlob.CommandLine.Word
import PathGlob.Settings.Basic

/-!
# Arguments

A command line is read word by word into the choices that were made and the patterns. The patterns
are the first run of plain words; plain words elsewhere are not understood. Of choices that exclude
each other the last one counts.
-/
namespace PathGlob.CommandLine

/-- A choice that was made, with its value; the value is empty for options that take none. -/
structure Occurrence where
  choice : Choice
  value : String
  deriving DecidableEq, Repr

/-- The run of plain words that patterns are taken from. -/
inductive PatternRun where
  | awaited
  | growing (words : List String)
  | ended (words : List String)
  deriving DecidableEq, Repr

def PatternRun.words : PatternRun → List String
  | awaited => []
  | growing ws => ws
  | ended ws => ws

structure Reading where
  occurrences : List Occurrence
  run : PatternRun
  /-- Words that are not understood. -/
  extras : List String
  deriving DecidableEq, Repr

inductive Stop where
  | help
  | error (e : ArgumentError)
  deriving DecidableEq, Repr

namespace Reading

def start : Reading := ⟨[], .awaited, []⟩

def plain (r : Reading) (w : String) : Reading :=
  match r.run with
  | .awaited => { r with run := .growing [w] }
  | .growing ws => { r with run := .growing (ws ++ [w]) }
  | .ended _ => { r with extras := r.extras ++ [w] }

/-- Takes a separator. It belongs to a run of plain words but is none itself. -/
def separator (r : Reading) : Reading :=
  match r.run with
  | .awaited => { r with run := .growing [] }
  | .growing _ => r
  | .ended _ => { r with extras := r.extras ++ ["--"] }

def close (r : Reading) : Reading :=
  match r.run with
  | .growing ws => { r with run := .ended ws }
  | _ => r

def take (r : Reading) (c : Choice) (value : String) : Reading :=
  { r with occurrences := r.occurrences ++ [⟨c, value⟩] }

def takeAll (r : Reading) (cs : List Choice) : Reading := cs.foldl (fun r c => r.take c "") r

def extra (r : Reading) (w : String) : Reading := { r with extras := r.extras ++ [w] }

/-- Takes choices without values; asking for help ends the reading. -/
def finish (r : Reading) (cs : List Choice) : Except Stop Reading :=
  if .help ∈ cs then .error .help else .ok (r.takeAll cs)

end Reading

/-- The choices in a cluster of letters, and what is not understood of it. No option of one letter
takes a value. -/
def clusterOf (c : Choice) : List Char → Except ArgumentError (List Choice × Option String)
  | [] => .ok ([c], none)
  | '-' :: more => .error (.unwantedValue c (String.ofList ('-' :: more)))
  | letter :: more =>
    match Word.choice? ['-', letter] with
    | none => .ok ([c], some (String.ofList ('-' :: letter :: more)))
    | some d =>
      match more with
      | '=' :: value => .error (.unwantedValue d (String.ofList value))
      | _ => (clusterOf d more).map fun (ds, left) => (c :: ds, left)

def readWords : List (String × Word) → Reading → Except Stop Reading
  | [], r => .ok r
  | (w, .plain) :: rest, r => readWords rest (r.plain w)
  | (_, .separator) :: rest, r => readWords rest r.separator
  | (w, .unknown) :: rest, r => readWords rest (r.close.extra w)
  | (_, .withValue c value) :: rest, r =>
    if c.takesValue then readWords rest (r.close.take c value)
    else .error (.error (.unwantedValue c value))
  | (_, .cluster c more) :: rest, r =>
    match clusterOf c more with
    | .error e => .error (.error e)
    | .ok (cs, left) =>
      match r.close.finish cs with
      | .error stop => .error stop
      | .ok r =>
        readWords rest (match left with
          | some w => r.extra w
          | none => r)
  | (_, .option c) :: rest, r =>
    if c.takesValue then
      match rest with
      | (value, .plain) :: rest => readWords rest (r.close.take c value)
      | _ => .error (.error (.missingValue c))
    else
      match r.close.finish [c] with
      | .error stop => .error stop
      | .ok r => readWords rest r

/-- What a command line says. -/
structure Arguments where
  patterns : List String := []
  cwd : String := ""
  /-- The settings that are given. -/
  given : Settings := .empty
  ignoreFiles : List String := []
  sync : Bool := false
  print0 : Bool := false
  useConfig : Bool := true
  verbose : Bool := false
  version : Bool := false

namespace Arguments

def apply (a : Arguments) (o : Occurrence) : Arguments :=
  match o.choice with
  | .help => a
  | .cwd => { a with cwd := o.value }
  | .ignore =>
    { a with given := { a.given with ignore := some (a.given.ignore.getD [] ++ [o.value]) } }
  | .ignoreFile => { a with ignoreFiles := a.ignoreFiles ++ [o.value] }
  | .flag f b => { a with given := a.given.apply (.flag f b) }
  | .sync => { a with sync := true }
  | .print0 => { a with print0 := true }
  | .noConfig => { a with useConfig := false }
  | .verbose => { a with verbose := true }
  | .version => { a with version := true }

/-- The arguments that some patterns and choices amount to. -/
def ofOccurrences (patterns : List String) (os : List Occurrence) : Arguments :=
  os.foldl apply { patterns := patterns }

/-- Reads a command line into patterns and choices. -/
def readingOf (args : List String) : Except Stop Reading :=
  match wordsOf args with
  | .error e => .error (.error e)
  | .ok words =>
    match readWords words .start with
    | .error stop => .error stop
    | .ok r => if r.extras = [] then .ok r else .error (.error (.unrecognized r.extras))

def parse (args : List String) : Except Stop Arguments :=
  (readingOf args).map fun r => ofOccurrences r.run.words r.occurrences

end Arguments

end PathGlob.CommandLine
