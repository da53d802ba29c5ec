/-!
# Escaped texts

`escape` writes a text as a pattern for exactly that text, and `unescape` takes the marks away
again. Where the backslash separates directories, brackets around a character take its place.
-/
namespace PathGlob.Pattern

/-- How a magic character is made ordinary. -/
inductive EscapeStyle where
  /-- A backslash goes before it. -/
  | backslash
  /-- Brackets go around it. -/
  | brackets
  deriving DecidableEq, Repr

/-- The characters that need an escape: brackets cannot protect braces or the backslash. -/
def EscapeStyle.protects : EscapeStyle → Char → Bool
  | .backslash, c => c ∈ ['*', '?', '[', ']', '\x7b', '\x7d', '(', ')', '\\']
  | .brackets, c => c ∈ ['*', '?', '[', ']', '(', ')']

/-- One character, made ordinary if need be. -/
def EscapeStyle.protect (style : EscapeStyle) (c : Char) : List Char :=
  if style.protects c then
    match style with
    | .backslash => ['\\', c]
    | .brackets => ['[', c, ']']
  else [c]

def escapeChars (style : EscapeStyle) (cs : List Char) : List Char :=
  cs.flatMap style.protect

/-- Drops each backslash that has a character behind it, and keeps that character. -/
def dropBackslashes : List Char → List Char
  | '\\' :: c :: cs => c :: dropBackslashes cs
  | c :: cs => c :: dropBackslashes cs
  | [] => []

/-- Drops brackets around a single character that is no slash. -/
def dropBrackets : List Char → List Char
  | '[' :: c :: ']' :: cs =>
    if c = '/' then '[' :: dropBrackets (c :: ']' :: cs) else c :: dropBrackets cs
  | c :: cs => c :: dropBrackets cs
  | [] => []

/-- The text that an escaped text stands for. -/
def unescapeChars : EscapeStyle → List Char → List Char
  | .backslash => dropBackslashes
  | .brackets => dropBrackets

def escape (style : EscapeStyle) (text : String) : String :=
  String.ofList (escapeChars style text.toList)

def unescape (style : EscapeStyle) (text : String) : String :=
  String.ofList (unescapeChars style text.toList)

end PathGlob.Pattern
