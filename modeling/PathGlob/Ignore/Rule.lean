import PathGlob.Text.Blank

/-!
# Ignore rules

One line of an ignore file. `Rule.read` takes it apart; `Rule.match?` tells whether it matches a
path, and whether it does so as a whole or only by a directory on the way.
-/
namespace PathGlob.Ignore

inductive LineError where
  /-- The line holds no pattern, or ends in a backslash that escapes nothing. -/
  | invalid (line : String)
  /-- A bracket of the line holds a range that runs backwards. -/
  | badRange (line : String)
  deriving DecidableEq, Repr

/-- A bracket: characters from ranges, or all others. -/
structure Bracket where
  negated : Bool
  ranges : List (Char × Char)
  deriving DecidableEq, Repr

def Bracket.contains (b : Bracket) (c : Char) : Bool :=
  b.ranges.any (fun (low, high) => low ≤ c && c ≤ high) != b.negated

/-- What a rule demands next of a path. -/
inductive Step where
  | char (c : Char)
  /-- One character that is no slash. -/
  | any
  /-- Any run of characters without a slash. -/
  | run
  /-- Such a run that is not empty. -/
  | name
  /-- A run of characters, not empty and without a line end. -/
  | line
  | bracket (b : Bracket)
  /-- Nothing, or leading directories with their slash. -/
  | leading
  /-- Nothing, or a slash and directories behind it. -/
  | inner
  deriving DecidableEq, Repr

inductive Ending where
  /-- At the end of the path, or at a slash. -/
  | entry
  | directory
  /-- At a slash, which counts as part of the match. -/
  | below
  /-- Anywhere: the rule matches every path. -/
  | everything
  /-- Nowhere: the rule matches no path. -/
  | never
  deriving DecidableEq, Repr

structure Rule where
  negated : Bool
  steps : List Step
  ending : Ending
  deriving DecidableEq, Repr

/-! ## Reading -/

/-- The ranges of a bracket; a backslash is an ordinary character, and a hyphen is one where it
stands last. `none` if a range runs backwards. -/
def readRanges : List Char → Option (List (Char × Char))
  | low :: '-' :: high :: rest =>
    if low ≤ high then (readRanges rest).map ((low, high) :: ·) else none
  | c :: rest => (readRanges rest).map ((c, c) :: ·)
  | [] => some []

/-- What lies between an opening bracket and the one that closes it, which is not the first
character of the list of members. -/
def readBracketBody (cs : List Char) : Option (List Char × List Char) :=
  let (first, rest) := match cs with
    | ']' :: rest => ([']'], rest)
    | rest => ([], rest)
  match rest.dropWhile (· ≠ ']') with
  | _ :: after => some (first ++ rest.takeWhile (· ≠ ']'), after)
  | [] => none

/-- What a segment of a line may turn out to be. -/
inductive SegmentReading where
  | steps (steps : List Step)
  | unclosed
  /-- The last backslash escapes nothing. -/
  | dangling
  | badRange

def SegmentReading.cons (s : Step) : SegmentReading → SegmentReading
  | .steps ss => .steps (s :: ss)
  | other => other

/-- Marks a reading as faulty, unless it is faulty already in a way that comes first. -/
def SegmentReading.withBadRange : SegmentReading → SegmentReading
  | .dangling => .dangling
  | .unclosed => .unclosed
  | _ => .badRange

/-- Reads a segment that is not made of stars alone. -/
def readSegment (fuel : Nat) (cs : List Char) : SegmentReading :=
  match fuel, cs with
  | _, [] => .steps []
  | 0, _ => .steps []
  | _, ['\\'] => .dangling
  | fuel + 1, '\\' :: c :: rest => (readSegment fuel rest).cons (.char c)
  | fuel + 1, '*' :: rest => (readSegment fuel rest).cons .run
  | fuel + 1, '?' :: rest => (readSegment fuel rest).cons .any
  | fuel + 1, '[' :: rest =>
    let (negated, body) := match rest with
      | '!' :: body => (true, body)
      | '^' :: body => (true, body)
      | body => (false, body)
    match readBracketBody body with
    | none =>
      match readSegment fuel rest with
      | .dangling => .dangling
      | _ => .unclosed
    | some (members, after) =>
      match readRanges members with
      | some ranges => (readSegment fuel after).cons (.bracket ⟨negated, ranges⟩)
      | none => (readSegment fuel after).withBadRange
  | fuel + 1, c :: rest => (readSegment fuel rest).cons (.char c)

def anyDepth : List Char := ['*', '*']

/-- Makes one of neighbouring `**`. -/
def mergeAnyDepth : List (List Char) → List (List Char)
  | a :: b :: rest =>
    if a = anyDepth ∧ b = anyDepth then mergeAnyDepth (b :: rest)
    else a :: mergeAnyDepth (b :: rest)
  | rest => rest

/-- The segments, counted from the top of the tree: a leading slash is dropped, and a single name
is preceded by any number of directories. -/
def anchor : List (List Char) → List (List Char)
  | [] :: rest => rest
  | [a] => if a = anyDepth then [a] else [anyDepth, a]
  | [a, []] => if a = anyDepth then [a, []] else [anyDepth, a, []]
  | segments => segments

/-- Makes an empty last segment, behind another one, any number of directories. -/
def openEnd : List (List Char) → List (List Char)
  | [] => []
  | [a] => [a]
  | [a, []] => [a, anyDepth]
  | a :: b :: rest => a :: openEnd (b :: rest)

/-- Reads the segments behind the first; a slash goes in front of each name if `slash` is set. -/
def readSegments (isDirectory slash : Bool) : List (List Char) → SegmentReading × Ending
  | [] => (.steps [], .entry)
  | [last] =>
    if last = anyDepth then (.steps [], if isDirectory then .directory else .below)
    else (withSlash slash (readName last), .entry)
  | segment :: rest =>
    let (more, ending) := readSegments isDirectory true rest
    if segment = anyDepth then (more.cons .inner, ending)
    else (append (withSlash slash (readName segment)) more, ending)
where
  readName (segment : List Char) : SegmentReading :=
    if segment = ['*'] then .steps [.name] else readSegment segment.length segment
  withSlash (slash : Bool) (r : SegmentReading) : SegmentReading :=
    if slash then r.cons (.char '/') else r
  append (a b : SegmentReading) : SegmentReading :=
    match a, b with
    | .steps ss, .steps ts => .steps (ss ++ ts)
    | .dangling, _ => .dangling
    | _, .dangling => .dangling
    | .unclosed, _ => .unclosed
    | _, .unclosed => .unclosed
    | _, _ => .badRange

def readAnchored (isDirectory : Bool) (segments : List (List Char)) : SegmentReading × Ending :=
  match segments with
  | [a] => if a = anyDepth then (.steps [], .everything) else readSegments isDirectory false [a]
  | a :: rest =>
    if a = anyDepth then
      if rest = [['*']] then (.steps [], .everything)
      else
        let (more, ending) := readSegments isDirectory false rest
        (more.cons .leading, ending)
    else readSegments isDirectory false (a :: rest)
  | [] => (.steps [], .never)

/-- A line without the white space at its end, which a backslash keeps. -/
def trimLine (cs : List Char) : List Char :=
  if ['\\', ' '].isSuffixOf cs then cs else Text.trimEnd cs

/-- Reads a line; `none` for a line that is blank, a comment or a lone slash. -/
def Rule.read (line : String) : Except LineError (Option Rule) :=
  let cs := trimLine line.toList
  if cs = [] ∨ cs.head? = some '#' ∨ cs = ['/'] then .ok none
  else
    let (negated, pattern) := match cs with
      | '!' :: rest => (true, rest)
      | _ => (false, cs)
    let written := pattern.splitOn '/'
    let isDirectory := written.getLast? = some []
    let merged := mergeAnyDepth written
    if merged = [anyDepth, []] then .ok (some ⟨negated, [.line], .directory⟩)
    else
      let segments := openEnd (anchor merged)
      if segments = [] then .error (.invalid line)
      else
        match readAnchored isDirectory segments with
        | (.steps steps, ending) => .ok (some ⟨negated, steps, ending⟩)
        | (.unclosed, _) => .ok (some ⟨negated, [], .never⟩)
        | (.dangling, _) => .error (.invalid line)
        | (.badRange, _) => .error (.badRange line)

/-! ## Matching -/

/-- What may be left behind any beginning without a line end. -/
def afterLine : List Char → List (List Char)
  | [] => [[]]
  | c :: cs => (c :: cs) :: if c = '\n' then [] else afterLine cs

/-- What may be left behind any beginning without a slash. -/
def afterName : List Char → List (List Char)
  | [] => [[]]
  | c :: cs => (c :: cs) :: if c = '/' then [] else afterName cs

/-- What may be left behind a beginning without a line end that is not empty. -/
def afterLine1 : List Char → List (List Char)
  | [] => []
  | c :: cs => if c = '\n' then [] else afterLine cs

def behindSlash? : List Char → Option (List Char)
  | '/' :: cs => some cs
  | _ => none

def Step.rests : Step → List Char → List (List Char)
  | .char c, rest =>
    match rest with
    | x :: more => if x = c then [more] else []
    | [] => []
  | .any, rest =>
    match rest with
    | x :: more => if x ≠ '/' then [more] else []
    | [] => []
  | .run, rest => afterName rest
  | .name, rest =>
    match rest with
    | x :: more => if x ≠ '/' then afterName more else []
    | [] => []
  | .bracket b, rest =>
    match rest with
    | x :: more => if b.contains x then [more] else []
    | [] => []
  | .line, rest => afterLine1 rest
  | .leading, rest => rest :: (afterLine1 rest).filterMap behindSlash?
  | .inner, rest =>
    rest :: match behindSlash? rest with
      | some more => afterLine1 more
      | none => []

def restsOf (steps : List Step) (rests : List (List Char)) : List (List Char) :=
  steps.foldl (fun rests s => (rests.flatMap s.rests).eraseDups) rests

inductive Hit where
  /-- By a directory that the path is, or is below. -/
  | directory
  | whole
  deriving DecidableEq, Repr

/-- Later lines overrule earlier ones of no greater weight. -/
def Hit.weight : Hit → Nat
  | .directory => 1
  | .whole => 2

/-- Nothing is left, or only a final line end. -/
def isEnd (rest : List Char) : Bool := rest == [] || rest == ['\n']

/-- A slash and a single line are left. -/
def isBelow (rest : List Char) : Bool :=
  match rest with
  | '/' :: more => isEnd (more.dropWhile (· ≠ '\n'))
  | _ => false

/-- Whether and how a rule matches a path. A directory's path ends with a slash. -/
def Rule.match? (r : Rule) (path : List Char) : Option Hit :=
  let rests := restsOf r.steps [path]
  match r.ending with
  | .entry =>
    if rests.any isEnd then some .whole else if rests.any isBelow then some .directory else none
  | .directory => if rests.any isBelow then some .directory else none
  | .below => if rests.any isBelow then some .whole else none
  | .everything => some .whole
  | .never => none

end PathGlob.Ignore
