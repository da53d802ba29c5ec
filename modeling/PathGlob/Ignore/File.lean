import PathGlob.FileSystem.Content
import PathGlob.Text.Blank

/-!
# Ignore files

A file with one ignore rule to a line. Blank lines and comments are left out.
-/
namespace PathGlob.Ignore

/-- Whether a line of an ignore file is a rule: it is not blank and does not begin with a hash. -/
def isRuleLine (line : List Char) : Bool :=
  match Text.trim line with
  | [] => false
  | c :: _ => c != '#'

/-- The rules in the text of an ignore file. -/
def linesOf (text : List Char) : List String :=
  ((Text.lines text).filter isRuleLine).map String.ofList

/-- The rules in an ignore file. -/
def rulesIn (h : Host) (path : String) : Except ReadError (List String) :=
  (h.readText (Path.tidy path)).map linesOf

end PathGlob.Ignore
