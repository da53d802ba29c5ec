import PathGlob.Options

/-!
# Flags

The switches among the options, as settings files and command lines name them.
-/
namespace PathGlob

inductive Flag where
  | dot
  | follow
  | mark
  | nodir
  | nounique
  | nosort
  | realpath
  | nonull
  | absolute
  | matchBase
  | windowsPathsNoEscape
  | noglobstar
  | nocase
  | nobrace
  | noext
  deriving DecidableEq, Repr

namespace Flag

/-- All switches, in the order in which they are listed. -/
def all : List Flag :=
  [dot, follow, mark, nodir, nounique, nosort, realpath, nonull, absolute, matchBase,
    windowsPathsNoEscape, noglobstar, nocase, nobrace, noext]

theorem mem_all (f : Flag) : f ∈ all := by cases f <;> decide

/-- The name in a settings file, with underscores between its words. -/
def name : Flag → String
  | dot => "dot"
  | follow => "follow"
  | mark => "mark"
  | nodir => "nodir"
  | nounique => "nounique"
  | nosort => "nosort"
  | realpath => "realpath"
  | nonull => "nonull"
  | absolute => "absolute"
  | matchBase => "match_base"
  | windowsPathsNoEscape => "windows_paths_no_escape"
  | noglobstar => "noglobstar"
  | nocase => "nocase"
  | nobrace => "nobrace"
  | noext => "noext"

def ofName? (s : String) : Option Flag := all.find? fun f => f.name = s

theorem ofName?_name (f : Flag) : ofName? f.name = some f := by cases f <;> decide

def get : Flag → Options → Bool
  | dot, o => o.dot
  | follow, o => o.follow
  | mark, o => o.mark
  | nodir, o => o.nodir
  | nounique, o => o.nounique
  | nosort, o => o.nosort
  | realpath, o => o.realpath
  | nonull, o => o.nonull
  | absolute, o => o.absolute
  | matchBase, o => o.matchBase
  | windowsPathsNoEscape, o => o.windowsPathsNoEscape
  | noglobstar, o => o.noglobstar
  | nocase, o => o.nocase
  | nobrace, o => o.nobrace
  | noext, o => o.noext

end Flag

end PathGlob
