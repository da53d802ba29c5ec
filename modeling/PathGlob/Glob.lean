import PathGlob.Collation
import PathGlob.Ignore.Filter
import PathGlob.OrderedSet
import PathGlob.Walk

/-!
# Globs

A glob is a list of patterns, read and ready to be searched for. A search walks every alternative
and merges what the walks find: with `nonull` an alternative that matched nothing stands for itself,
without `nounique` each text appears once, and without `nosort` the texts are sorted.
-/
namespace PathGlob

/-- A combination of options that makes no sense. -/
inductive OptionsError where
  /-- A value of the named kind was given for the options. -/
  | notOptions (kind : String)
  | unknown (name : String)
  /-- Base names are matched by means of a globstar. -/
  | baseNeedsGlobstar
  deriving DecidableEq, Repr

def OptionsError.message : OptionsError → String
  | .notOptions kind => "Glob options must be GlobOptions or Glob, not " ++ kind
  | .unknown name => "GlobOptions.__init__() got an unexpected keyword argument '" ++ name ++ "'"
  | .baseNeedsGlobstar => "Base name matching requires globstar"

inductive GlobError where
  | options (e : OptionsError)
  | pattern (e : PatternError)
  | ignore (e : Ignore.LineError)
  deriving DecidableEq, Repr

/-- What is given for a pattern: a text, or a value of some other kind. -/
inductive Given where
  | text (s : String)
  | other (kind : String)
  deriving DecidableEq, Repr

def Given.map (f : String → String) : Given → Given
  | .text s => .text (f s)
  | .other kind => .other kind

/-- Patterns with the options to search for them. -/
structure Glob where
  patterns : List String
  options : Options
  alternatives : List Alternative
  ignore : Ignore.Filter

namespace Glob

def toSlashes (s : String) : String :=
  String.ofList (s.toList.map fun c => if c = '\\' then '/' else c)

/-- Lets a pattern without a slash match at any depth. -/
def atAnyDepth (s : String) : String := if s.toList.contains '/' then s else "**/" ++ s

/-- Reads patterns in order; their alternatives are numbered through. -/
def compileAll (o : Options) (drives : Bool) : (patternIndex startIndex : Nat) → List Given →
    Except PatternError (List String × List Alternative)
  | _, _, [] => .ok ([], [])
  | _, _, .other kind :: _ => .error (.notText kind)
  | i, start, .text p :: rest => do
    let alternatives ← Pattern.compile o drives i start p
    let (ps, more) ← compileAll o drives (i + 1) (start + alternatives.length) rest
    return (p :: ps, alternatives ++ more)

def settle (o : Options) (backslashes : Bool) : Options :=
  { o with
    cwd := if backslashes then toSlashes o.cwd else o.cwd
    windowsPathsNoEscape := o.noEscape }

def prepare (o : Options) (patterns : List Given) : List Given :=
  let patterns := if o.noEscape then patterns.map (Given.map toSlashes) else patterns
  if o.matchBase then patterns.map (Given.map atAnyDepth) else patterns

/-- Makes a glob. `backslashes` tells whether the host separates directories by backslashes and so
has drives. -/
def make (o : Options) (backslashes : Bool) (patterns : List Given) : Except GlobError Glob := do
  if o.matchBase && o.noglobstar then throw (.options .baseNeedsGlobstar)
  let settled := settle o backslashes
  let (texts, alternatives) ←
    (compileAll settled backslashes 0 0 (prepare o patterns)).mapError GlobError.pattern
  let filter ← (Ignore.Filter.ofLines settled.ignore.toList).mapError GlobError.ignore
  return ⟨texts, settled, alternatives, filter⟩

/-- The directory of relative alternatives. -/
def directory (o : Options) (h : Host) : String :=
  Path.absolute h.cwd (if o.cwd = "" then "." else o.cwd)

def walk (g : Glob) (h : Host) (a : Alternative) : Walk :=
  { alternative := a
    options := g.options
    ignored := g.ignore.ignores
    cwd := directory g.options h }

/-- Walks alternatives one after another, with one cache, up to the first walk that fails. -/
def walkAll (g : Glob) (h : Host) : List Alternative → Cache → Run Cache (List (List String))
  | [], c => ⟨[], .ok [], c⟩
  | a :: rest, c =>
    let r := (g.walk h a).run h c
    match r.result with
    | .error e => ⟨r.events, .error e, r.state⟩
    | .ok () =>
      let more := walkAll g h rest r.state
      ⟨r.events ++ more.events, more.result.map (Event.paths r.events :: ·), more.state⟩

/-! ## Merging -/

/-- The alternatives that matched nothing, as written, if they are asked for. -/
def nulls (g : Glob) (results : List (List String)) : List String :=
  if g.options.nonull then
    ((g.alternatives.zip results).filter fun (_, found) => found.isEmpty).map fun (a, _) => a.glob
  else []

/-- Puts the results of the walks together. If repeats are kept, the first result stands twice,
with the nulls and without repeats of its own. -/
def gather (nounique : Bool) (results : List (List String)) (nulls : List String) : List String :=
  match results with
  | [] => []
  | first :: rest =>
    if nounique then
      let head := (first ++ nulls).eraseDups
      head ++ head ++ rest.flatten
    else (results.flatten ++ nulls).eraseDups

/-- What a search reports, given the results of its walks. -/
def merge (g : Glob) (results : List (List String)) : List String :=
  let gathered := gather g.options.nounique results (g.nulls results)
  if g.options.nosort then gathered else Collation.sort gathered

/-- Searches a host, with a cache. -/
def search (g : Glob) (h : Host) (c : Cache) : Run Cache (List String) :=
  let r := g.walkAll h g.alternatives c
  ⟨r.events, r.result.map g.merge, r.state⟩

/-- How many patterns and alternatives there are, for a log. -/
def summary (g : Glob) : String :=
  "Compiled " ++ toString g.patterns.length ++ " pattern(s) into " ++
    toString g.alternatives.length ++ " alternative(s)"

end Glob

/-- A report as a log shows it; results are not logged. -/
def Event.logLine? : Event → Option String
  | .found _ => none
  | .loop dir => some ("Not descending into " ++ dir ++ " again (symlink loop)")
  | .unreadable dir e => some ("Skipping unreadable directory " ++ dir ++ ": " ++ e.message)

end PathGlob
