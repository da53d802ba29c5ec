import PathGlob.Brace
import PathGlob.Options
import PathGlob.Pattern.Escape
import PathGlob.Text.Quoted
import PathGlob.Wildcard.Match

/-!
# Patterns

A pattern stands for alternatives, one for each way to choose from its braces. An alternative is a
list of segments between slashes, and each segment is empty, a literal name, a wildcard or a
globstar. Reading a pattern looks at no directory. A leading `!` or `#` is an ordinary character.
-/
namespace PathGlob

open Text (quoted)

inductive PatternError where
  /-- A value of the named kind was given for a pattern. -/
  | notText (kind : String)
  | tooLong
  /-- The braces of the pattern stand for too many texts. -/
  | tooMany (pattern : String)
  deriving DecidableEq, Repr

def PatternError.message : PatternError → String
  | .notText kind => "Glob pattern must be a string, not " ++ kind
  | .tooLong => "Glob pattern is too long"
  | .tooMany pattern => "Brace expansion limit exceeded: " ++ quoted pattern

/-- One path component of an alternative. -/
inductive Segment where
  /-- Nothing between two slashes, or behind the last. -/
  | empty
  /-- A name, written as `text`. -/
  | literal (text name : String)
  /-- A description of names. -/
  | magic (text : String) (mode : Wildcard.Mode) (tokens : List Wildcard.Token)
  /-- Any number of directories. -/
  | globstar

def globstarText : String := "**"

namespace Segment

def text : Segment → String
  | .empty => ""
  | .literal text _ => text
  | .magic text _ _ => text
  | .globstar => globstarText

/-- Whether the segment describes a name by itself. -/
def accepts : Segment → String → Bool
  | .literal _ value, name => name == value
  | .magic _ mode tokens, name => Wildcard.accepts mode tokens name.toList
  | .empty, _ => false
  | .globstar, _ => false

def isEmpty : Segment → Bool
  | .empty => true
  | _ => false

/-- Whether finding what the segment describes takes reading a directory. -/
def isMagic : Segment → Bool
  | .magic .. => true
  | .globstar => true
  | _ => false

end Segment

/-- One way to choose from the braces of a pattern. -/
structure Alternative where
  segments : List Segment
  /-- The place among all alternatives of a search. -/
  index : Nat
  /-- The place of the pattern it comes from. -/
  patternIndex : Nat
  /-- The directory that an absolute alternative starts from; empty for a relative one. -/
  root : String

namespace Alternative

def parts (a : Alternative) : List String := a.segments.map Segment.text

def glob (a : Alternative) : String := "/".intercalate a.parts

def isAbsolute (a : Alternative) : Bool := a.root != ""

/-- Whether the alternative ends with a slash and so matches directories only. -/
def dirOnly (a : Alternative) : Bool :=
  a.segments.length > 1 && (a.segments.getLast?.map Segment.isEmpty).getD false

end Alternative

namespace Pattern

/-- The greatest number of characters in a pattern. -/
def maxLength : Nat := 65536

/-- Whether a segment holds a wildcard: an unescaped star, question mark or opening bracket, or the
opening of an extended group. -/
def hasWildcard (extended : Bool) : List Char → Bool
  | '\\' :: _ :: cs => hasWildcard extended cs
  | '\\' :: [] => false
  | c :: cs =>
    c == '*' || c == '?' || c == '[' ||
      (extended && (c == '@' || c == '!' || c == '+') && cs.head? == some '(') ||
      hasWildcard extended cs
  | [] => false

def matchMode (o : Options) : Wildcard.Mode := ⟨o.dot, o.nocase⟩

/-- Reads one segment. When case is ignored, a name with letters is a wildcard too, since only a
listing tells how it is spelled. -/
def readSegment (o : Options) (cs : List Char) : Segment :=
  if cs = [] then .empty
  else if cs = ['*', '*'] ∧ o.globstar then .globstar
  else
    let name := unescapeChars .backslash cs
    if hasWildcard o.extended cs || (o.nocase && name.any Text.hasCase) then
      .magic (String.ofList cs) (matchMode o) (Wildcard.read o.extended cs)
    else .literal (String.ofList cs) (String.ofList name)

/-- Makes one of neighbouring globstars. -/
def mergeGlobstars : List (List Char) → List (List Char)
  | a :: b :: rest =>
    if a = ['*', '*'] ∧ b = ['*', '*'] then mergeGlobstars (b :: rest)
    else a :: mergeGlobstars (b :: rest)
  | rest => rest

def splitParts (o : Options) (cs : List Char) : List (List Char) :=
  if o.globstar then mergeGlobstars (cs.splitOn '/') else cs.splitOn '/'

def isDrive : List Char → Bool
  | [c, ':'] => c.isAlpha
  | _ => false

/-- The root that the components start from, if they do. -/
def rootOf (drives : Bool) : List (List Char) → String
  | first :: _ :: _ =>
    if first = [] then "/"
    else if drives && isDrive first then String.ofList (first ++ ['/'])
    else ""
  | _ => ""

/-- Reads one alternative, braces already chosen. -/
def readAlternative (o : Options) (drives : Bool) (patternIndex index : Nat) (cs : List Char) :
    Alternative :=
  let parts := splitParts o cs
  { segments := parts.map (readSegment o)
    index := index
    patternIndex := patternIndex
    root := rootOf drives parts }

/-- The texts that a pattern stands for. -/
def expand (o : Options) (pattern : String) : Except PatternError (List (List Char)) :=
  if o.nobrace then .ok [pattern.toList]
  else
    match Brace.expand? pattern.toList with
    | some texts => .ok texts
    | none => .error (.tooMany pattern)

/-- Reads a pattern. The alternatives are numbered from `startIndex` on; with `drives`, a pattern
that begins with a drive is absolute. -/
def compile (o : Options) (drives : Bool) (patternIndex startIndex : Nat) (pattern : String) :
    Except PatternError (List Alternative) :=
  if pattern.length > maxLength then .error .tooLong
  else do
    let texts ← expand o pattern
    return texts.mapIdx fun i cs => readAlternative o drives patternIndex (startIndex + i) cs

/-- Whether a pattern takes a walk: it has several alternatives, a wildcard or a globstar. -/
def hasMagic (o : Options) (pattern : String) : Except PatternError Bool := do
  let alternatives ← compile o false 0 0 pattern
  return alternatives.length > 1 || alternatives.any fun a => a.segments.any Segment.isMagic

end Pattern

end PathGlob
