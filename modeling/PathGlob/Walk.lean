import PathGlob.Lookup.Cache
import PathGlob.Pattern

/-!
# Walks

A walk lays the segments of an alternative over a file system, from left to right and starting at a
root directory, and reports every path that fits. A directory that cannot be read is passed over,
unless it is the root.
-/
namespace PathGlob

/-- An alternative with what its walk depends on. -/
structure Walk where
  alternative : Alternative
  options : Options
  /-- Whether a path is ignored; asked with the path as spelled and whether it is a directory. -/
  ignored : (path : String) → (isDir : Bool) → Bool
  /-- The directory of relative alternatives, an absolute path. -/
  cwd : String

namespace Walk

def root (w : Walk) : String :=
  if w.alternative.isAbsolute then w.alternative.root else w.cwd

def spell (out : List String) : String := "/".intercalate out

/-! ## Lookups -/

def isDirectory (path : String) : Script Bool :=
  .ask (.stat path) fun s => .done (s.any fun s => s.kind = .directory)

/-- Whether a path leads to a directory, looked up only if that is not known. -/
def whetherDirectory (known : Option Bool) (path : String) : Script Bool :=
  match known with
  | some d => return d
  | none => isDirectory path

/-- Whether a path leads to something, be it a link that leads nowhere. -/
def isThere (path : String) : Script Bool :=
  .ask (.lstat path) fun s => .done s.isSome

def identity (path : String) : Script (Option Identity) :=
  .ask (.stat path) fun s => .done (s.map Status.identity)

/-- The entries of a directory; none if it cannot be read. -/
def entries (w : Walk) (dir : String) : Script (List Entry) :=
  .ask (.list dir) fun
    | .ok es => .done es
    | .error e =>
      if dir = w.root then .fail (.unreadable dir e)
      else .report (.unreadable dir e) (.done [])

/-! ## Reporting -/

/-- A result, with a slash behind it where one is called for. -/
def marked (w : Walk) (isDir : Bool) (path : String) : String :=
  if (w.alternative.dirOnly || (w.options.mark && isDir)) && !Path.endsWithSlash path then
    path ++ "/"
  else path

def display (w : Walk) (path rel : String) (isDir : Bool) : Script (Option String) :=
  if w.options.realpath then
    .ask (.realpath path) fun r => .done (r.map (w.marked isDir))
  else if w.options.absolute && !w.alternative.isAbsolute then
    .done (some (w.marked isDir (Path.absolute w.cwd rel)))
  else .done (some (w.marked isDir rel))

/-- Reports a path that fits. `known` tells whether it is a directory, if that is known. -/
def found (w : Walk) (known : Option Bool) (path : String) (out : List String) : Script Unit :=
  let rel := spell out
  if rel = "" then .nothing
  else do
    let isDir ← whetherDirectory known path
    if (w.options.nodir && isDir) || w.ignored rel isDir then .nothing
    else
      match ← w.display path rel isDir with
      | some result => .report (.found result) .nothing
      | none => .nothing

/-! ## Segments -/

/-- Goes on at a name that fits: reports it if it is the last, else lays the rest inside it. -/
def descend (w : Walk) (isLast : Bool) (next : String → List String → Script Unit)
    (known : Option Bool) (path : String) (out : List String) : Script Unit :=
  if isLast then w.found known path out
  else do
    let isDir ← whetherDirectory known path
    if isDir && !w.ignored (spell out) true then next path out else .nothing

/-- Directories that were entered below followed globstars. -/
abbrev Chain := List Identity

/-- A globstar stands for no directory: the segments behind it are laid where it begins. A bare
working directory is no result of its own. -/
def anchor (w : Walk) (rest : List Segment) (next : String → List String → Script Unit)
    (dir : String) (out : List String) : Script Unit :=
  match rest with
  | [] => if out = [] then .nothing else w.found (some true) dir out
  | first :: _ => if out = [] && first.isEmpty then .nothing else next dir out

/-- Goes into a directory below a globstar; followed globstars go into none that is on the way to
itself. -/
def enter (w : Walk) (chain : Chain) (dir : String) : Script (Option Chain) :=
  if w.options.follow then do
    let id ← identity dir
    return id.bind fun id => if id ∈ chain then none else some (id :: chain)
  else return some chain

/-- What a globstar does at an entry: `deeper` goes on with the globstar in it, `next` leaves the
globstar behind. -/
def pass (w : Walk) (rest : List Segment) (deeper next : String → List String → Script Unit)
    (dir : String) (out : List String) (e : Entry) : Script Unit :=
  let name := e.name.text
  if name.toList.head? = some '.' && !w.options.dot then .nothing
  else
    let path := Path.child dir name
    let out := out ++ [name]
    let descends := w.options.follow || !e.isLink
    if e.isDir && (descends || !rest.isEmpty) then
      if w.ignored (spell out) true then .nothing
      else if descends then deeper path out
      else next path out
    else if rest.isEmpty then w.found (some e.isDir) path out
    else .nothing

/-- Lays the segments behind a globstar at a directory and at every directory below it. `next` lays
them at one directory, and `rest` holds them. At most `depth` globstars may be inside each other. -/
def globstar (w : Walk) (rest : List Segment)
    (next : Nat → Chain → String → List String → Script Unit) :
    (depth : Nat) → Chain → String → List String → Script Unit
  | 0, _, _, _ => .fail .tooDeep
  | depth + 1, chain, dir, out => do
    w.anchor rest (next depth chain) dir out
    match ← w.enter chain dir with
    | none => .report (.loop dir) .nothing
    | some chain =>
      let es ← w.entries dir
      Script.each es
        (w.pass rest (globstar w rest next depth chain) (next depth chain) dir out)

def lay (w : Walk) : List Segment → (depth : Nat) → Chain → String → List String → Script Unit
  | [], _, _, dir, out => w.found none dir out
  | .empty :: rest, depth, chain, dir, out => do
    if ← isDirectory dir then lay w rest depth chain dir (out ++ [""]) else .nothing
  | .literal _ name :: rest, depth, chain, dir, out => do
    let path := Path.child dir name
    if ← isThere path then
      w.descend rest.isEmpty (lay w rest depth chain) none path (out ++ [name])
    else .nothing
  | .magic _ mode tokens :: rest, depth, chain, dir, out => do
    let es ← w.entries dir
    Script.each es fun e =>
      let name := e.name.text
      if Wildcard.accepts mode tokens name.toList then
        w.descend rest.isEmpty (lay w rest depth chain) (some e.isDir) (Path.child dir name)
          (out ++ [name])
      else .nothing
  | .globstar :: rest, depth, chain, dir, out =>
    w.globstar rest (lay w rest) depth chain dir out

def script (w : Walk) (depth : Nat) : Script Unit := do
  if ← isDirectory w.root then
    let segments := w.alternative.segments
    if w.alternative.isAbsolute then
      w.lay (segments.drop 1) depth [] w.root (w.alternative.parts.take 1)
    else w.lay segments depth [] w.root []
  else .fail (.notDirectory w.root)

/-- How deep globstars can be inside each other: below a globstar, every level leads to another
directory of the file system or to a longer path with a stored answer. -/
def depthOn (w : Walk) (h : Host) (c : Cache) : Nat :=
  w.alternative.segments.length * (h.files.size + c.longest + c.size + 2)

/-- Walks on a host, with a cache in between. -/
def run (w : Walk) (h : Host) (c : Cache) : Run Cache Unit :=
  (w.script (w.depthOn h c)).runCached h c

def runOn (w : Walk) (h : Host) : Run Unit Unit :=
  (w.script (w.depthOn h .empty)).runOn h

end Walk

end PathGlob
