/-!
# Braces

A text with brace groups stands for a list of texts. `read` takes a text apart into pieces and
`texts` multiplies them out; the piece to the right varies fastest. `count` tells how many texts
there are without writing them, so that a limit can be kept beforehand.
-/
namespace PathGlob.Brace

/-- Whole numbers from `first` towards `last`; `width` is zero, or the width to fill with zeros. -/
structure Numbers where
  first : Int
  last : Int
  step : Nat
  width : Nat
  deriving DecidableEq, Repr

/-- ASCII letters and what lies between them, from `first` towards `last`. -/
structure Letters where
  first : Nat
  last : Nat
  step : Nat
  deriving DecidableEq, Repr

inductive Piece where
  | text (cs : List Char)
  | numbers (range : Numbers)
  | letters (range : Letters)
  /-- One of several slots. -/
  | choice (slots : List (List Piece))

/-! ## Ranges -/

/-- The values `first, first ± step, …` up to `last`. -/
def steps (first last : Int) (step : Nat) : List Int :=
  (List.range ((last - first).natAbs / step + 1)).map fun i =>
    if first ≤ last then first + (i * step : Nat) else first - (i * step : Nat)

/-- A number with at least `width` characters, filled with zeros behind its sign. -/
def padded (width : Nat) (n : Int) : List Char :=
  let digits := Nat.toDigits 10 n.natAbs
  if n < 0 then '-' :: (List.replicate (width - 1 - digits.length) '0' ++ digits)
  else List.replicate (width - digits.length) '0' ++ digits

def Numbers.count (r : Numbers) : Nat := (r.last - r.first).natAbs / r.step + 1

def Numbers.texts (r : Numbers) : List (List Char) :=
  (steps r.first r.last r.step).map (padded r.width)

def Letters.count (r : Letters) : Nat := ((r.last : Int) - r.first).natAbs / r.step + 1

/-- The backslash, which lies between the cases, is written as nothing. -/
def Letters.texts (r : Letters) : List (List Char) :=
  (steps r.first r.last r.step).map fun n =>
    if Char.ofNat n.toNat = '\\' then [] else [Char.ofNat n.toNat]

/-! ## Reading -/

/-- An optional minus sign and digits, at the start of a text. -/
def readInteger (cs : List Char) : Option (List Char × List Char) :=
  let (sign, rest) := match cs with
    | '-' :: r => (['-'], r)
    | r => ([], r)
  let digits := rest.takeWhile Char.isDigit
  if digits.isEmpty then none else some (sign ++ digits, rest.dropWhile Char.isDigit)

/-- The number that an operand stands for. Ranges are specified for operands of 64 bits, so for up to
nineteen digits and the zeros to fill with: the limit on digits that settings files can run into is far
beyond them, and none is set here. Any longer operand is read by the same rule. -/
def integerValue : List Char → Int
  | '-' :: cs => -(cs.foldl (fun n c => 10 * n + (c.toNat - 48)) 0 : Nat)
  | cs => (cs.foldl (fun n c => 10 * n + (c.toNat - 48)) 0 : Nat)

/-- Digits of more than one place that start with zero ask for equal widths. -/
def isPadded : List Char → Bool
  | '-' :: '0' :: _ :: _ => true
  | '0' :: _ :: _ => true
  | _ => false

/-- The step that an operand asks for: its size, or one in place of zero. -/
def stepValue (cs : List Char) : Nat :=
  let n := (integerValue cs).natAbs
  if n = 0 then 1 else n

/-- The optional step and the closing brace behind a range. -/
def readStep : List Char → Option (Nat × List Char)
  | '\x7d' :: cs => some (1, cs)
  | '.' :: '.' :: cs =>
    match readInteger cs with
    | some (n, '\x7d' :: rest) => some (stepValue n, rest)
    | _ => none
  | _ => none

/-- A range of whole numbers or letters, behind its opening brace. -/
def readRange (cs : List Char) : Option (Piece × List Char) :=
  match readInteger cs with
  | some (first, '.' :: '.' :: more) =>
    match readInteger more with
    | some (last, more) => do
      let (step, rest) ← readStep more
      let width := if isPadded first || isPadded last then max first.length last.length else 0
      some (.numbers ⟨integerValue first, integerValue last, step, width⟩, rest)
    | none => none
  | _ =>
    match cs with
    | first :: '.' :: '.' :: last :: more =>
      if first.isAlpha && last.isAlpha then do
        let (step, rest) ← readStep more
        some (.letters ⟨first.toNat, last.toNat, step⟩, rest)
      else none
    | _ => none

mutual

/-- Reads pieces inside a group, up to the comma or brace that ends them. A dollar sign makes the
brace behind it ordinary. -/
def readSlot (fuel : Nat) (afterDollar : Bool) (cs : List Char) : Option (List Piece × List Char) :=
  match fuel, cs with
  | 0, _ => none
  | _, [] => none
  | _, ',' :: _ => some ([], cs)
  | _, '\x7d' :: _ => some ([], cs)
  | _, ['\\'] => none
  | fuel + 1, '\\' :: c :: rest => do
    let (ps, rest) ← readSlot fuel false rest
    some (.text ['\\', c] :: ps, rest)
  | fuel + 1, '\x7b' :: rest =>
    if afterDollar then do
      let (ps, rest) ← readSlot fuel false rest
      some (.text ['\x7b'] :: ps, rest)
    else do
      let (p, rest) ← readGroup fuel false false rest
      let (ps, rest) ← readSlot fuel false rest
      some (p :: ps, rest)
  | fuel + 1, c :: rest => do
    let (ps, rest) ← readSlot fuel (c = '$') rest
    some (.text [c] :: ps, rest)

/-- Reads a group behind its opening brace. In an outermost group (`outer`) a closing brace before
the first comma belongs to the slot, unless the group is empty and begins the whole text. -/
def readGroup (fuel : Nat) (outer atStart : Bool) (cs : List Char) : Option (Piece × List Char) :=
  match fuel with
  | 0 => none
  | fuel + 1 =>
    match readRange cs with
    | some found => some found
    | none =>
      match atStart, cs with
      | true, '\x7d' :: rest => some (.text ['\x7b', '\x7d'], rest)
      | _, _ => do
        let (slot, rest) ← readSlot fuel false cs
        readSlots fuel outer [] slot rest

/-- Continues a group behind a slot; `slots` holds the slots before it. -/
def readSlots (fuel : Nat) (outer : Bool) (slots : List (List Piece)) (slot : List Piece)
    (cs : List Char) : Option (Piece × List Char) :=
  match fuel, cs with
  | 0, _ => none
  | fuel + 1, ',' :: rest => do
    let (next, rest) ← readSlot fuel false rest
    readSlots fuel outer (slots ++ [slot]) next rest
  | fuel + 1, '\x7d' :: rest =>
    match slots with
    | _ :: _ => some (.choice (slots ++ [slot]), rest)
    | [] =>
      if outer then do
        let (more, rest) ← readSlot fuel false rest
        readSlots fuel outer [] (slot ++ .text ['\x7d'] :: more) rest
      else some (.choice [.text ['\x7b'] :: slot ++ [.text ['\x7d']]], rest)
  | _, _ => none

end

/-- Reads a whole text. Where a group is not closed, its brace is ordinary and reading goes on
behind it. -/
def readPieces (fuel : Nat) (atStart afterDollar : Bool) (cs : List Char) : List Piece :=
  match fuel, cs with
  | _, [] => []
  | 0, _ => [.text cs]
  | fuel + 1, '\\' :: c :: rest => .text ['\\', c] :: readPieces fuel false false rest
  | fuel + 1, '\x7b' :: rest =>
    match if afterDollar then none else readGroup (2 * rest.length + 2) true atStart rest with
    | some (p, rest) => p :: readPieces fuel false false rest
    | none => .text ['\x7b'] :: readPieces fuel false false rest
  | fuel + 1, c :: rest => .text [c] :: readPieces fuel false (c = '$') rest

def read (cs : List Char) : List Piece := readPieces cs.length true false cs

/-! ## Multiplying out -/

mutual

def Piece.count : Piece → Nat
  | .text _ => 1
  | .numbers r => r.count
  | .letters r => r.count
  | .choice slots => countSlots slots

def countPieces : List Piece → Nat
  | [] => 1
  | p :: ps => p.count * countPieces ps

def countSlots : List (List Piece) → Nat
  | [] => 0
  | s :: ss => countPieces s + countSlots ss

end

/-- Puts one text behind another; `none` stands for nothing written at all. -/
def join : Option (List Char) → Option (List Char) → Option (List Char)
  | none, b => b
  | a, none => a
  | some a, some b => some (a ++ b)

mutual

/-- The texts a piece stands for. An empty slot writes nothing, which is not the same as writing
an empty text. -/
def Piece.texts : Piece → List (Option (List Char))
  | .text cs => [some cs]
  | .numbers r => r.texts.map some
  | .letters r => r.texts.map some
  | .choice slots => slotTexts slots

def pieceTexts : List Piece → List (Option (List Char))
  | [] => [none]
  | p :: ps =>
    let tails := pieceTexts ps
    p.texts.flatMap fun a => tails.map (join a)

def slotTexts : List (List Piece) → List (Option (List Char))
  | [] => []
  | s :: ss => pieceTexts s ++ slotTexts ss

end

/-- The most texts that one text may stand for. -/
def limit : Nat := 1000

/-- The texts that a text with braces stands for, less those to which nothing was written; `none`
if there are more than `limit`. -/
def expand? (cs : List Char) : Option (List (List Char)) :=
  let pieces := read cs
  if countPieces pieces ≤ limit then some ((pieceTexts pieces).filterMap id) else none

end PathGlob.Brace
