import PathGlob.Ignore.Rule
import PathGlob.Path

/-!
# Ignoring paths

A filter holds the rules of its lines in order. Among the rules that match a path the last one
decides, except that a match by a directory on the way does not overrule a match of the whole path.
-/
namespace PathGlob.Ignore

/-- The rules of some lines; `active` tells whether any line was not blank. -/
structure Filter where
  active : Bool
  rules : List Rule
  deriving DecidableEq, Repr

namespace Filter

def none : Filter := ⟨false, []⟩

/-- Reads lines; the first line that is refused is the error. -/
def ofLines (lines : List String) : Except LineError Filter := do
  let kept := lines.filter fun l => !Text.isBlankLine l.toList
  let rules ← kept.mapM Rule.read
  return ⟨!kept.isEmpty, rules.filterMap id⟩

/-- Takes the match of one more rule into account. -/
def decide (path : List Char) (current : Option (Bool × Hit)) (r : Rule) : Option (Bool × Hit) :=
  match r.match? path, current with
  | .none, _ => current
  | some hit, .none => some (!r.negated, hit)
  | some hit, some (_, before) =>
    if before.weight ≤ hit.weight then some (!r.negated, hit) else current

/-- Whether the rules ignore a path, which ends with a slash if it is a directory's. -/
def ignoresPath (f : Filter) (path : List Char) : Bool :=
  match f.rules.foldl (decide path) Option.none with
  | some (verdict, _) => verdict
  | .none => false

/-- A path as the rules see it: normal, and relative to the top of the tree. -/
def relative (path : String) : String :=
  let normal := Path.normalize path
  if normal = "." then "" else Path.dropLeadingSlashes normal

/-- Whether a path is ignored. The top of the tree never is. -/
def ignores (f : Filter) (path : String) (isDir : Bool) : Bool :=
  let rel := relative path
  f.active && rel != "" && f.ignoresPath (if isDir then rel ++ "/" else rel).toList

end Filter

end PathGlob.Ignore
