import PathGlob.Text.Folding

/-!
# Wildcards

A wildcard describes names of directory entries. It is a sequence of tokens; `read` takes one from
its text, with extended groups or without. What cannot be read as a bracket or a group stands for
its own characters.
-/
namespace PathGlob.Wildcard

inductive NamedClass where
  | alnum | alpha | ascii | blank | cntrl | digit | graph | lower | print | punct | space | upper
  | word | xdigit
  deriving DecidableEq, Repr

namespace NamedClass

def name : NamedClass → String
  | alnum => "alnum"
  | alpha => "alpha"
  | ascii => "ascii"
  | blank => "blank"
  | cntrl => "cntrl"
  | digit => "digit"
  | graph => "graph"
  | lower => "lower"
  | print => "print"
  | punct => "punct"
  | space => "space"
  | upper => "upper"
  | word => "word"
  | xdigit => "xdigit"

def all : List NamedClass :=
  [alnum, alpha, ascii, blank, cntrl, digit, graph, lower, print, punct, space, upper, word, xdigit]

def contains : NamedClass → Char → Bool
  | alnum, c => c.isAlphanum
  | alpha, c => c.isAlpha
  | ascii, c => c.toNat < 128
  | blank, c => c = ' ' || c = '\t'
  | cntrl, c => c.toNat < 32 || c.toNat = 127
  | digit, c => c.isDigit
  | graph, c => 33 ≤ c.toNat && c.toNat ≤ 126
  | lower, c => c.isLower
  | print, c => 32 ≤ c.toNat && c.toNat ≤ 126
  | punct, c => 33 ≤ c.toNat && c.toNat ≤ 126 && !c.isAlphanum
  | space, c => c = ' ' || (9 ≤ c.toNat && c.toNat ≤ 13)
  | upper, c => c.isUpper
  | word, c => c.isAlphanum || c = '_'
  | xdigit, c => c.isDigit || ('a' ≤ c && c ≤ 'f') || ('A' ≤ c && c ≤ 'F')

end NamedClass

inductive SetItem where
  | range (low high : Char)
  | named (cls : NamedClass)
  deriving DecidableEq, Repr

def SetItem.contains : SetItem → Char → Bool
  | .range low high, c => low ≤ c && c ≤ high
  | .named cls, c => cls.contains c

/-- A bracket: the characters it lists, or all others. -/
structure CharSet where
  negated : Bool
  items : List SetItem
  deriving DecidableEq, Repr

def CharSet.contains (s : CharSet) (c : Char) : Bool :=
  s.items.any (·.contains c) != s.negated

/-- How often the alternatives of a group apply. -/
inductive Times where
  | once
  | atMostOnce
  | anyNumber
  | atLeastOnce
  /-- No alternative may fit; anything else does. -/
  | none
  deriving DecidableEq, Repr

inductive Token where
  | char (c : Char)
  | any
  | run
  | set (s : CharSet)
  | group (times : Times) (alternatives : List (List Token))

/-! ## Brackets -/

def dropStart? : List Char → List Char → Option (List Char)
  | [], cs => some cs
  | _ :: _, [] => none
  | p :: ps, c :: cs => if p = c then dropStart? ps cs else none

/-- A named class behind the bracket that opens it. -/
def readNamed : List Char → Option (NamedClass × List Char)
  | ':' :: cs =>
    NamedClass.all.findSome? fun cls =>
      (dropStart? (cls.name.toList ++ [':', ']']) cs).map fun rest => (cls, rest)
  | _ => none

/-- What stands before a hyphen in a bracket decides what the hyphen is. -/
inductive Before where
  /-- A character, which may begin a range. -/
  | char (c : Char)
  /-- A named class or a whole range: the hyphen is an ordinary character. -/
  | closed
  deriving DecidableEq, Repr

/-- A range from `low` to `high`, left out if it runs backwards. -/
def rangeItem (low high : Char) : List SetItem :=
  if low ≤ high then [.range low high] else []

/-- The item for a character that begins no range. -/
def Before.items : Before → List SetItem
  | .char c => [.range c c]
  | .closed => []

/-- Reads the items of a bracket up to the bracket that closes it. The character in `before` is not
among the items yet. -/
def readItems (fuel : Nat) (before : Before) (cs : List Char) :
    Option (List SetItem × List Char) :=
  match fuel, cs with
  | 0, _ => none
  | _, [] => none
  | _, ']' :: rest => some (before.items, rest)
  | fuel + 1, '-' :: rest =>
    match before with
    | .closed => readItems fuel (.char '-') rest
    | .char low =>
      match rest with
      | ']' :: rest => some ([.range low low, .range '-' '-'], rest)
      | ['\\'] => none
      | '\\' :: high :: rest => do
        let (items, rest) ← readItems fuel .closed rest
        some (rangeItem low high ++ items, rest)
      | high :: rest =>
        match if high = '[' then readNamed rest else none with
        | some (cls, rest) => do
          let (items, rest) ← readItems fuel .closed rest
          some (.range low low :: .range '-' '-' :: .named cls :: items, rest)
        | none => do
          let (items, rest) ← readItems fuel .closed rest
          some (rangeItem low high ++ items, rest)
      | [] => none
  | _, ['\\'] => none
  | fuel + 1, '\\' :: c :: rest => do
    let (items, rest) ← readItems fuel (.char c) rest
    some (before.items ++ items, rest)
  | fuel + 1, c :: rest =>
    match if c = '[' then readNamed rest else none with
    | some (cls, rest) => do
      let (items, rest) ← readItems fuel .closed rest
      some (before.items ++ .named cls :: items, rest)
    | none => do
      let (items, rest) ← readItems fuel (.char c) rest
      some (before.items ++ items, rest)

/-- Reads the first item, which may be a closing bracket or a hyphen, and the others. -/
def readSetBody (cs : List Char) : Option (List SetItem × List Char) :=
  match cs with
  | ']' :: rest => readItems rest.length.succ (.char ']') rest
  | '-' :: rest => readItems rest.length.succ (.char '-') rest
  | _ => readItems cs.length.succ .closed cs

/-- Reads a bracket behind its opening character. -/
def readSet (cs : List Char) : Option (CharSet × List Char) :=
  match cs with
  | '!' :: rest => (readSetBody rest).map fun (items, rest) => (⟨true, items⟩, rest)
  | '^' :: rest => (readSetBody rest).map fun (items, rest) => (⟨true, items⟩, rest)
  | _ => (readSetBody cs).map fun (items, rest) => (⟨false, items⟩, rest)

/-! ## Groups and whole wildcards -/

/-- The character in front of a parenthesis that makes it a group. -/
def times? : Char → Option Times
  | '@' => some .once
  | '?' => some .atMostOnce
  | '*' => some .anyNumber
  | '+' => some .atLeastOnce
  | '!' => some .none
  | _ => none

/-- The kind of group that a text begins with, and what is behind its parenthesis. -/
def readOpening : List Char → Option (Times × List Char)
  | c :: '(' :: rest => (times? c).map fun t => (t, rest)
  | _ => none

/-- The token of a single character, no bracket and no group. -/
def plainToken : Char → Token
  | '*' => .run
  | '?' => .any
  | c => .char c

mutual

/-- Reads one alternative of a group, up to the bar or parenthesis that ends it. -/
def readAlternative (fuel : Nat) (cs : List Char) : Option (List Token × List Char) :=
  match fuel, cs with
  | 0, _ => none
  | _, [] => none
  | _, '|' :: _ => some ([], cs)
  | _, ')' :: _ => some ([], cs)
  | _, ['\\'] => none
  | fuel + 1, '\\' :: c :: rest => do
    let (ts, rest) ← readAlternative fuel rest
    some (.char c :: ts, rest)
  | fuel + 1, c :: rest =>
    match readOpening (c :: rest) with
    | some (times, rest) => do
      let (alternatives, rest) ← readAlternatives fuel rest
      let (ts, rest) ← readAlternative fuel rest
      some (.group times alternatives :: ts, rest)
    | none =>
      match if c = '[' then readSet rest else none with
      | some (s, rest) => do
        let (ts, rest) ← readAlternative fuel rest
        some (.set s :: ts, rest)
      | none => do
        let (ts, rest) ← readAlternative fuel rest
        some (plainToken c :: ts, rest)

/-- Reads the alternatives of a group and the parenthesis that closes it. -/
def readAlternatives (fuel : Nat) (cs : List Char) : Option (List (List Token) × List Char) :=
  match fuel with
  | 0 => none
  | fuel + 1 => do
    let (ts, rest) ← readAlternative fuel cs
    match rest with
    | '|' :: rest => do
      let (alternatives, rest) ← readAlternatives fuel rest
      some (ts :: alternatives, rest)
    | _ :: rest => some ([ts], rest)
    | [] => none

end

/-- Reads a whole wildcard; a backslash at the end is passed over. -/
def readTokens (extended : Bool) (fuel : Nat) (cs : List Char) : List Token :=
  match fuel, cs with
  | 0, _ => []
  | _, [] => []
  | _, ['\\'] => []
  | fuel + 1, '\\' :: c :: rest => .char c :: readTokens extended fuel rest
  | fuel + 1, c :: rest =>
    match (if extended then readOpening (c :: rest) else none).bind fun (times, inside) =>
        (readAlternatives (2 * inside.length + 2) inside).map fun (alternatives, rest) =>
          (Token.group times alternatives, rest) with
    | some (t, rest) => t :: readTokens extended fuel rest
    | none =>
      match if c = '[' then readSet rest else none with
      | some (s, rest) => .set s :: readTokens extended fuel rest
      | none => plainToken c :: readTokens extended fuel rest

def read (extended : Bool) (cs : List Char) : List Token := readTokens extended cs.length cs

end PathGlob.Wildcard
