import PathGlob.Wildcard.Token

/-!
# Matching names

A token consumes a beginning of a name; `rests` lists what it may leave. A wildcard accepts a name
if it can leave nothing. At the start of a name that begins with a dot, only a literal dot matches,
unless hidden names are asked for.
-/
namespace PathGlob.Wildcard

/-- What matching depends on besides the wildcard. -/
structure Mode where
  /-- Whether wildcards match a leading dot. -/
  hidden : Bool
  ignoreCase : Bool
  deriving DecidableEq, Repr

structure Subject where
  mode : Mode
  name : List Char
  deriving DecidableEq, Repr

/-- Whether a wildcard token may apply to the given rest of the name: not at a leading dot. -/
def Subject.admits (s : Subject) (rest : List Char) : Bool :=
  s.mode.hidden || s.name.head? != some '.' || rest.length < s.name.length

/-- Equality of characters, up to case if case is ignored. -/
def Mode.same (m : Mode) (a b : Char) : Bool :=
  if m.ignoreCase then Text.caseKey a == Text.caseKey b else a == b

/-- Membership in a bracket; if case is ignored, the bracket holds all variants of its members. -/
def Mode.inSet (m : Mode) (s : CharSet) (c : Char) : Bool :=
  if m.ignoreCase then (Text.caseVariants c).any (fun v => s.items.any (·.contains v)) != s.negated
  else s.contains c

/-- All ends of a text, from the whole to nothing. -/
def ends : List Char → List (List Char)
  | [] => [[]]
  | c :: cs => (c :: cs) :: ends cs

/-- Everything that can be reached in at most the given number of rounds. -/
def closure (step : List Char → List (List Char)) : Nat → List (List Char) → List (List Char)
  | 0, reached => reached
  | n + 1, reached => closure step n (reached ++ reached.flatMap step).eraseDups

/-- Nothing is left, or only a final line end. -/
def isEnd (rest : List Char) : Bool := rest == [] || rest == ['\n']

mutual

/-- What a token may leave of a text. A group that forbids its alternatives depends on what follows
it and is dealt with in `seqRests`. -/
def tokenRests (s : Subject) : Token → List Char → List (List Char)
  | .char c, rest =>
    match rest with
    | x :: more => if s.mode.same c x then [more] else []
    | [] => []
  | .any, rest =>
    match rest with
    | _ :: more => if s.admits rest then [more] else []
    | [] => []
  | .run, rest => if s.admits rest then ends rest else []
  | .set cs, rest =>
    match rest with
    | x :: more => if s.admits rest && s.mode.inSet cs x then [more] else []
    | [] => []
  | .group .once alternatives, rest => anyRests s alternatives rest
  | .group .atMostOnce alternatives, rest => rest :: anyRests s alternatives rest
  | .group .anyNumber alternatives, rest => closure (anyRests s alternatives) rest.length [rest]
  | .group .atLeastOnce alternatives, rest =>
    closure (anyRests s alternatives) rest.length (anyRests s alternatives rest)
  | .group .none _, _ => []

/-- What one of several alternatives may leave. -/
def anyRests (s : Subject) : List (List Token) → List Char → List (List Char)
  | [], _ => []
  | alternative :: others, rest => seqRests s alternative [rest] ++ anyRests s others rest

/-- What a sequence of tokens may leave of any of the given texts. Where a group forbids its
alternatives, none of them may fit there together with what follows in the sequence. -/
def seqRests (s : Subject) : List Token → List (List Char) → List (List Char)
  | [], rests => rests
  | .group .none alternatives :: more, rests =>
    let free := rests.filter fun rest => s.admits rest &&
      !(anyRests s alternatives rest).any fun r => (seqRests s more [r]).any isEnd
    seqRests s more (free.flatMap ends).eraseDups
  | t :: more, rests => seqRests s more (rests.flatMap (tokenRests s t)).eraseDups

end

/-- Whether a wildcard describes a name; no wildcard describes the empty name. -/
def accepts (mode : Mode) (tokens : List Token) (name : List Char) : Bool :=
  name != [] && (seqRests ⟨mode, name⟩ tokens [name]).contains []

end PathGlob.Wildcard
