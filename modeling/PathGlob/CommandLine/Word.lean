import PathGlob.CommandLine.Choice
import PathGlob.Text.Quoted

/-!
# Words of a command line

What each word is, told by its spelling alone: an option, perhaps with a value attached to it, or a
plain word. A long option may be shortened as long as it is clear which one is meant. All words
behind `--` are plain.
-/
namespace PathGlob.CommandLine

/-- Why a command line cannot be read. -/
inductive ArgumentError where
  | ambiguous (word : String) (spellings : List String)
  | missingValue (c : Choice)
  | unwantedValue (c : Choice) (value : String)
  | unrecognized (words : List String)
  deriving DecidableEq, Repr

def ArgumentError.message : ArgumentError → String
  | ambiguous word spellings =>
    "ambiguous option: " ++ word ++ " could match " ++ ", ".intercalate spellings
  | missingValue c => "argument " ++ c.names ++ ": expected one argument"
  | unwantedValue c value =>
    "argument " ++ c.names ++ ": ignored explicit argument " ++ Text.quoted value
  | unrecognized words => "unrecognized arguments: " ++ " ".intercalate words

inductive Word where
  | plain
  /-- All words behind it are plain. -/
  | separator
  | option (c : Choice)
  /-- An option with a value behind an equals sign. -/
  | withValue (c : Choice) (value : String)
  /-- An option of one letter, with more characters behind it. -/
  | cluster (c : Choice) (more : List Char)
  /-- It looks like an option, but there is none of that spelling. -/
  | unknown
  deriving DecidableEq, Repr

namespace Word

def choice? (spelling : List Char) : Option Choice := spellings.lookup (String.ofList spelling)

/-- The part of a word in front of an equals sign, and the part behind it. -/
def splitValue (cs : List Char) : List Char × Option (List Char) :=
  match cs.dropWhile (· ≠ '=') with
  | [] => (cs, none)
  | _ :: value => (cs.takeWhile (· ≠ '='), some value)

/-- An option with the value that may be attached to it. -/
def attach (c : Choice) : Option (List Char) → Word
  | none => .option c
  | some value => .withValue c (String.ofList value)

/-- A word that is no spelling of an option. -/
def other (cs : List Char) : Word := if ' ' ∈ cs then .plain else .unknown

/-- What a word is that begins with two hyphens. -/
def ofLong (cs : List Char) : Except ArgumentError Word :=
  let (name, value) := splitValue cs
  match spellings.filter fun (s, _) => name.isPrefixOf s.toList with
  | [] => .ok (other cs)
  | [(_, c)] => .ok (attach c value)
  | several => .error (.ambiguous (String.ofList cs) (several.map Prod.fst))

/-- What a word is that begins with one hyphen. -/
def ofShort (cs : List Char) : Word :=
  match choice? (cs.take 2) with
  | some c => .cluster c (cs.drop 2)
  | none => other cs

/-- What a word is, apart from the separator. -/
def ofChars (cs : List Char) : Except ArgumentError Word :=
  match cs with
  | '-' :: second :: _ =>
    match choice? cs, splitValue cs with
    | some c, _ => .ok (.option c)
    | none, (name, value) =>
      match value.bind fun v => (choice? name).map fun c => (c, v) with
      | some (c, v) => .ok (.withValue c (String.ofList v))
      | none => if second = '-' then ofLong cs else .ok (ofShort cs)
  | _ => .ok .plain

end Word

/-- What the words of a command line are. The first word that is ambiguous is the error. -/
def wordsOf : List String → Except ArgumentError (List (String × Word))
  | [] => .ok []
  | w :: rest =>
    if w = "--" then .ok ((w, .separator) :: rest.map fun w => (w, .plain))
    else do
      let word ← Word.ofChars w.toList
      return (w, word) :: (← wordsOf rest)

end PathGlob.CommandLine
