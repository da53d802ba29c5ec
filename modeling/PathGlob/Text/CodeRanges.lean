/-!
# Sets and maps of code points

Tables of character properties are kept as texts of hexadecimal numbers and read once. A set is a
list of ranges; a map is a list of runs that share a step and an offset.
-/
namespace PathGlob.Text

/-- The value of a hexadecimal digit in lower case. -/
def hexDigit? (c : Char) : Option Nat :=
  if '0' ≤ c ∧ c ≤ '9' then some (c.toNat - 48)
  else if 'a' ≤ c ∧ c ≤ 'f' then some (c.toNat - 87)
  else none

/-- The number that a run of hexadecimal digits stands for; other characters are passed over. -/
def hexNumber (cs : List Char) : Nat :=
  cs.foldl (fun n c => match hexDigit? c with | some d => 16 * n + d | none => n) 0

/-- A hexadecimal number with an optional minus sign. -/
def hexInteger : List Char → Int
  | '-' :: cs => -(hexNumber cs : Int)
  | cs => hexNumber cs

/-- The words of a table, which blanks and line ends separate. -/
def words (s : String) : List (List Char) :=
  (s.toList.splitOnP fun c => c = ' ' || c = '\n').filter (· ≠ [])

structure CodeRanges where
  bounds : List (Nat × Nat)
  deriving Repr

namespace CodeRanges

/-- Reads one range: a number stands for itself, two numbers around a hyphen for a range. -/
def readRange (cs : List Char) : Nat × Nat :=
  match cs.splitOn '-' with
  | [a, b] => (hexNumber a, hexNumber b)
  | _ => (hexNumber cs, hexNumber cs)

def ofText (s : String) : CodeRanges := ⟨(words s).map readRange⟩

def contains (r : CodeRanges) (n : Nat) : Bool :=
  r.bounds.any fun (a, b) => a ≤ n && n ≤ b

end CodeRanges

/-- The code points `start, start + step, …` (`count` of them), each mapped to itself plus `offset`. -/
structure CodeRun where
  start : Nat
  count : Nat
  step : Nat
  offset : Int
  deriving Repr

namespace CodeRun

/-- Reads the four numbers of a run, separated by colons. -/
def read (cs : List Char) : CodeRun :=
  match cs.splitOn ':' with
  | [a, n, s, d] => ⟨hexNumber a, hexNumber n, hexNumber s, hexInteger d⟩
  | _ => ⟨0, 0, 1, 0⟩

def contains (r : CodeRun) (n : Nat) : Bool :=
  r.start ≤ n && (n - r.start) % r.step == 0 && (n - r.start) / r.step < r.count

/-- The image of a code point of the run. -/
def image? (r : CodeRun) (n : Nat) : Option Nat :=
  if r.contains n then some (n + r.offset).toNat else none

/-- The code point of the run whose image is given. -/
def source? (r : CodeRun) (image : Nat) : Option Nat :=
  let n := (image - r.offset).toNat
  if r.image? n = some image then some n else none

end CodeRun

/-- A map on code points that moves the members of its runs and keeps all others. -/
structure CodeMap where
  runs : List CodeRun
  deriving Repr

namespace CodeMap

def ofText (s : String) : CodeMap := ⟨(words s).map CodeRun.read⟩

def image (m : CodeMap) (n : Nat) : Nat :=
  (m.runs.findSome? (·.image? n)).getD n

/-- The code points that some run moves to the given one. -/
def sources (m : CodeMap) (image : Nat) : List Nat :=
  m.runs.filterMap (·.source? image)

end CodeMap

end PathGlob.Text
