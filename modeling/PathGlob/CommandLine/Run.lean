import PathGlob.CommandLine.Request
import PathGlob.Glob.Concurrent
import PathGlob.Ignore.File
import PathGlob.Settings.File

/-!
# Running a command line

A run reads the settings and the ignore files, searches, and prints what was found. It ends with
status 0 if something was found, with 1 if nothing was, and with 2 for an error. Unless its walks are
to run one after another, they take turns by a schedule, which no argument decides.

Arguments, the texts of files and the output are sequences of Unicode scalar values: there are no
lone surrogates, and an output is not encoded. Nor is a limit set to recursion: no run ends because
directories or the groups of a pattern are nested too deeply.
-/
namespace PathGlob.CommandLine

/-- What stops a run before it has a status. -/
inductive Failure where
  | settings (e : Settings.LoadError)
  | ignore (e : Ignore.LineError)
  /-- A path with a null character was looked up. -/
  | null
  deriving DecidableEq, Repr

def Failure.message : Failure → String
  | settings e => e.message
  | ignore (.invalid line) => "invalid ignore line " ++ Text.quoted line
  | ignore (.badRange line) => "invalid range in ignore line " ++ Text.quoted line
  | null => "embedded null byte"

inductive Outcome where
  | help
  | finished (status : Nat) (output : String) (messages : List String)
  deriving DecidableEq, Repr

def versionText : String := "v0.1.0\n"

def noPattern : String :=
  "Error: No pattern specified. Provide one or more glob patterns. Use --help for more options."

def errorLine (message : String) : String := "Error: " ++ message

/-- A run that ends with an error, behind other messages. -/
def failed (messages : List String) (message : String) : Outcome :=
  .finished 2 "" (messages ++ [errorLine message])

/-- A request with what the settings file has to say, and the notices about that file. -/
def settle (h : Host) (a : Arguments) : Except Failure (Request × List String) :=
  if !a.useConfig then .ok (a.request, [])
  else
    match Settings.find h (if a.cwd = "" then "." else a.cwd) with
    | .error e => .error (.settings e)
    | .ok none => .ok (a.request, [])
    | .ok (some path) =>
      match Settings.load h path with
      | .error e => .error (.settings e)
      | .ok (s, notices) => .ok (a.request.adopt a.given s, notices.map (Notice.line path))

/-- The lines of ignore files, up to the first file that cannot be read. -/
def ignoreLines (h : Host) : List String → Except ReadError (List String)
  | [] => .ok []
  | file :: rest => do
    let lines ← Ignore.rulesIn h file
    return lines ++ (← ignoreLines h rest)

/-- Paths with an end behind each. -/
def printed (terminator : String) (paths : List String) : String :=
  String.join (paths.map (· ++ terminator))

/-- What a log says about a search. -/
def logOf (g : Glob) (events : List Event) : List String :=
  ("DEBUG shellglob.resolver: " ++ g.summary) ::
    (events.filterMap Event.logLine?).map ("DEBUG shellglob.walker: " ++ ·)

/-- What the search of a request reports and how it ends. -/
def searchFor (schedule : List Nat) (h : Host) (r : Request) (g : Glob) : Run Cache (List String) :=
  if r.sync then g.search h .empty
  else
    let p := g.poolBy schedule h .empty
    ⟨p.reports, g.resultOf p, p.cache⟩

/-- Searches with a glob and prints what is found. -/
def searchWith (schedule : List Nat) (h : Host) (r : Request) (messages : List String) (g : Glob) :
    Except Failure Outcome :=
  let found := searchFor schedule h r g
  let messages := if r.verbose then messages ++ logOf g found.events else messages
  match found.result with
  | .error .null => .error .null
  | .error (.walk e) => .ok (failed messages e.message)
  | .ok paths =>
    .ok (.finished (if paths.isEmpty then 1 else 0)
      (printed (if r.print0 then "\x00" else "\n") paths) messages)

def fulfil (schedule : List Nat) (h : Host) (r : Request) (messages : List String) :
    Except Failure Outcome :=
  match ignoreLines h r.ignoreFiles with
  | .error .null => .error .null
  | .error e => .ok (failed messages e.message)
  | .ok lines =>
    match Glob.make (r.options lines) false (r.patterns.map Given.text) with
    | .error (.options e) => .ok (failed messages e.message)
    | .error (.pattern e) => .ok (failed messages e.message)
    | .error (.ignore e) => .error (.ignore e)
    | .ok g => searchWith schedule h r messages g

/-- Runs a command line. -/
def runBy (schedule : List Nat) (h : Host) (args : List String) : Except Failure Outcome :=
  match Arguments.parse args with
  | .error .help => .ok .help
  | .error (.error e) => .ok (.finished 2 "" ["shellglob: error: " ++ e.message])
  | .ok a =>
    if a.version then .ok (.finished 0 versionText [])
    else if a.patterns.isEmpty then .ok (.finished 1 "" [noPattern])
    else
      match settle h a with
      | .error e => .error e
      | .ok (r, messages) => fulfil schedule h r messages

/-- A run whose walks, if they are not to run one after another, are completed in their order. -/
def run (h : Host) (args : List String) : Except Failure Outcome := runBy [] h args

end PathGlob.CommandLine
