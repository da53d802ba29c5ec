/-!
# Options

The settings of a search. All switches are off by default.
-/
namespace PathGlob

/-- The ignore lines as they were given. -/
inductive IgnoreLines where
  | unset
  | single (line : String)
  | several (lines : List String)
  deriving DecidableEq, Repr

def IgnoreLines.toList : IgnoreLines → List String
  | .unset => []
  | .single line => [line]
  | .several lines => lines

structure Options where
  ignore : IgnoreLines := .unset
  /-- Descend into linked directories below a globstar. -/
  follow : Bool := false
  /-- Wildcards match names that begin with a dot. -/
  dot : Bool := false
  /-- Put a slash behind directories. -/
  mark : Bool := false
  nodir : Bool := false
  /-- Keep repeats between alternatives. -/
  nounique : Bool := false
  nosort : Bool := false
  /-- The directory of relative patterns; empty for the working directory. -/
  cwd : String := ""
  realpath : Bool := false
  /-- Report an alternative itself when it matches nothing. -/
  nonull : Bool := false
  absolute : Bool := false
  /-- Match a pattern without a slash at any depth. -/
  matchBase : Bool := false
  /-- Read the backslash as a separator. -/
  windowsPathsNoEscape : Bool := false
  /-- The older spelling of `windowsPathsNoEscape`, with the opposite sense. -/
  allowWindowsEscape : Option Bool := none
  /-- Read `**` like `*`. -/
  noglobstar : Bool := false
  nocase : Bool := false
  /-- Read braces as ordinary characters. -/
  nobrace : Bool := false
  /-- Read extended groups as ordinary characters. -/
  noext : Bool := false
  deriving DecidableEq, Repr

namespace Options

/-- Whether the backslash separates directories and so escapes nothing. -/
def noEscape (o : Options) : Bool :=
  o.windowsPathsNoEscape || o.allowWindowsEscape == some false

def globstar (o : Options) : Bool := !o.noglobstar

def extended (o : Options) : Bool := !o.noext

end Options

end PathGlob
