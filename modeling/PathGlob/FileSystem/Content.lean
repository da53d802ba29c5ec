import PathGlob.FileSystem.Canonical
import PathGlob.Text.Lines
import PathGlob.Text.Utf8

/-!
# Texts of files

The content of a file read as text, with every line end made a newline.
-/
namespace PathGlob

inductive ReadError where
  /-- A null character is in the path. -/
  | null
  | system (e : SystemError)
  | encoding (e : Text.Utf8.DecodeError)
  deriving DecidableEq, Repr

def ReadError.message : ReadError → String
  | null => "embedded null byte"
  | system e => e.message
  | encoding e => e.message

def Host.readText (h : Host) (path : String) : Except ReadError (List Char) :=
  if hasNull path then .error .null
  else
    match h.read path with
    | .error f => .error (.system ⟨f, path⟩)
    | .ok bytes =>
      match Text.Utf8.decode bytes with
      | .error e => .error (.encoding e)
      | .ok cs => .ok (Text.unifyNewlines cs)

end PathGlob
