import PathGlob.Toml.Value

/-!
# TOML lexemes

The smallest parts of a TOML text: layout, keys, quoted texts, numbers, dates and times. A reader
takes what it can from the start of a text and gives what is left; `none` means that the text cannot
go on like that.
-/
namespace PathGlob.Toml

/-- A value read from the start of a text, and the rest of the text. -/
abbrev Reading (α : Type) := Option (α × List Char)

/-! ## Layout -/

def isSpace (c : Char) : Bool := c == ' ' || c == '\t'

def isLayout (c : Char) : Bool := isSpace c || c == '\n'

/-- Control characters other than the tab. -/
def isControl (c : Char) : Bool := (c.toNat < 0x20 && c != '\t') || c.toNat == 0x7f

def skipSpaces (cs : List Char) : List Char := cs.dropWhile isSpace

/-- The text behind a comment, if there is one, at the end of its line. -/
def skipComment : List Char → Option (List Char)
  | '#' :: rest =>
    if (rest.takeWhile (· != '\n')).any isControl then none else some (rest.dropWhile (· != '\n'))
  | cs => some cs

/-- The text behind spaces, newlines and comments. -/
def skipLayout : (inComment : Bool) → List Char → Option (List Char)
  | _, [] => some []
  | true, c :: rest =>
    if c = '\n' then skipLayout false rest
    else if isControl c then none
    else skipLayout true rest
  | false, c :: rest =>
    if isLayout c then skipLayout false rest
    else if c = '#' then skipLayout true rest
    else some (c :: rest)

/-! ## Quoted texts -/

def hexValue? (cs : List Char) : Option Nat :=
  cs.foldl (fun n c => n.bind fun n =>
    if c.isDigit then some (16 * n + (c.toNat - '0'.toNat))
    else if 'a' ≤ c ∧ c ≤ 'f' then some (16 * n + (c.toNat - 'a'.toNat + 10))
    else if 'A' ≤ c ∧ c ≤ 'F' then some (16 * n + (c.toNat - 'A'.toNat + 10))
    else none) (some 0)

/-- The character with a number given by hexadecimal digits. -/
def codePoint? (count : Nat) (cs : List Char) : Reading Char :=
  if cs.length < count then none
  else
    match hexValue? (cs.take count) with
    | some n => if n.isValidChar then some (Char.ofNat n, cs.drop count) else none
    | none => none

/-- The character that stands for itself behind a backslash, or for which a letter does. -/
def escaped? : Char → Option Char
  | 'b' => some '\x08'
  | 't' => some '\t'
  | 'n' => some '\n'
  | 'f' => some '\x0c'
  | 'r' => some '\r'
  | '"' => some '"'
  | '\\' => some '\\'
  | _ => none

def readEscape : List Char → Reading Char
  | 'u' :: rest => codePoint? 4 rest
  | 'U' :: rest => codePoint? 8 rest
  | c :: rest => (escaped? c).map fun c => (c, rest)
  | [] => none

/-- The text behind a backslash at the end of a line: all layout is passed over. -/
def joinLines? (cs : List Char) : Option (List Char) :=
  match skipSpaces cs with
  | '\n' :: rest => some (rest.dropWhile isLayout)
  | _ => none

/-- A text in double quotes, read behind the first quote, or behind three of them if `long`. -/
def readBasic (long : Bool) : (fuel : Nat) → List Char → Reading (List Char)
  | 0, _ => none
  | _, [] => none
  | fuel + 1, '"' :: rest =>
    if !long then some ([], rest)
    else
      match rest with
      | '"' :: '"' :: rest => some ([], rest)
      | rest => (readBasic long fuel rest).map fun (s, r) => ('"' :: s, r)
  | fuel + 1, '\\' :: rest =>
    match rest with
    | c :: _ =>
      if long && isLayout c then (joinLines? rest).bind (readBasic long fuel)
      else
        (readEscape rest).bind fun (c, rest) =>
          (readBasic long fuel rest).map fun (s, r) => (c :: s, r)
    | [] => none
  | fuel + 1, c :: rest =>
    if isControl c && !(long && c == '\n') then none
    else (readBasic long fuel rest).map fun (s, r) => (c :: s, r)

/-- A text in single quotes, read behind the first quote, or behind three of them if `long`. -/
def readLiteral (long : Bool) : List Char → Reading (List Char)
  | [] => none
  | '\'' :: rest =>
    if !long then some ([], rest)
    else
      match rest with
      | '\'' :: '\'' :: rest => some ([], rest)
      | rest => (readLiteral long rest).map fun (s, r) => ('\'' :: s, r)
  | c :: rest =>
    if isControl c && !(long && c == '\n') then none
    else (readLiteral long rest).map fun (s, r) => (c :: s, r)

/-- Up to two more quotes belong to a text that ends with three. -/
def moreQuotes (quote : Char) : List Char × List Char → List Char × List Char
  | (s, c :: c' :: rest) =>
    if c ≠ quote then (s, c :: c' :: rest)
    else if c' ≠ quote then (s ++ [quote], c' :: rest)
    else (s ++ [quote, quote], rest)
  | (s, [c]) => if c = quote then (s ++ [quote], []) else (s, [c])
  | (s, []) => (s, [])

/-- A text without the newline that it begins with. -/
def dropNewline : List Char → List Char
  | '\n' :: rest => rest
  | cs => cs

/-- A quoted text on one line, as keys may be, too. -/
def readShort : List Char → Reading String
  | '"' :: rest => (readBasic false (rest.length + 1) rest).map fun (s, r) => (String.ofList s, r)
  | '\'' :: rest => (readLiteral false rest).map fun (s, r) => (String.ofList s, r)
  | _ => none

def readQuoted : List Char → Reading String
  | '"' :: '"' :: '"' :: rest =>
    let rest := dropNewline rest
    (readBasic true (rest.length + 1) rest).map fun r =>
      let (s, r) := moreQuotes '"' r
      (String.ofList s, r)
  | '\'' :: '\'' :: '\'' :: rest =>
    (readLiteral true (dropNewline rest)).map fun r =>
      let (s, r) := moreQuotes '\'' r
      (String.ofList s, r)
  | cs => readShort cs

/-! ## Keys -/

def isBare (c : Char) : Bool := c.isAlphanum || c == '-' || c == '_'

def readKeyPart (cs : List Char) : Reading String :=
  match cs.takeWhile isBare with
  | [] => readShort cs
  | bare => some (String.ofList bare, cs.dropWhile isBare)

/-- A dotted key with the spaces around its dots and behind it. -/
def readKey : (fuel : Nat) → List Char → Reading (List String)
  | 0, _ => none
  | fuel + 1, cs =>
    (readKeyPart cs).bind fun (part, rest) =>
      match skipSpaces rest with
      | '.' :: rest => (readKey fuel (skipSpaces rest)).map fun (key, r) => (part :: key, r)
      | rest => some ([part], rest)

/-! ## Numbers -/

/-- Digits behind others, with single underscores between them. -/
def moreDigits (isDigit : Char → Bool) : List Char → List Char × List Char
  | '_' :: c :: rest =>
    if isDigit c then
      let (ds, r) := moreDigits isDigit rest
      (c :: ds, r)
    else ([], '_' :: c :: rest)
  | c :: rest =>
    if isDigit c then
      let (ds, r) := moreDigits isDigit rest
      (c :: ds, r)
    else ([], c :: rest)
  | [] => ([], [])

def readDigits (isDigit : Char → Bool) : List Char → Reading (List Char)
  | c :: rest =>
    if isDigit c then
      let (ds, r) := moreDigits isDigit rest
      some (c :: ds, r)
    else none
  | [] => none

def decimalValue (ds : List Char) : Nat := ds.foldl (fun n c => 10 * n + (c.toNat - '0'.toNat)) 0

/-- A sign; true for a minus. -/
def readSign : List Char → Bool × List Char
  | '-' :: rest => (true, rest)
  | '+' :: rest => (false, rest)
  | cs => (false, cs)

/-- A whole number in another base than ten. -/
def readRadix : List Char → Reading Nat
  | '0' :: 'x' :: rest =>
    (readDigits (fun c => (hexValue? [c]).isSome) rest).bind fun (ds, r) =>
      (hexValue? ds).map fun n => (n, r)
  | '0' :: 'o' :: rest =>
    (readDigits (fun c => '0' ≤ c && c ≤ '7') rest).map fun (ds, r) =>
      (ds.foldl (fun n c => 8 * n + (c.toNat - '0'.toNat)) 0, r)
  | '0' :: 'b' :: rest =>
    (readDigits (fun c => c == '0' || c == '1') rest).map fun (ds, r) =>
      (ds.foldl (fun n c => 2 * n + (c.toNat - '0'.toNat)) 0, r)
  | _ => none

/-- The digits in front of a point: a zero alone, or a number without a zero at its start. -/
def readWhole : List Char → Reading (List Char)
  | '0' :: rest => some (['0'], rest)
  | cs => readDigits Char.isDigit cs

/-- The digits behind a point, if there are any. -/
def readFraction : List Char → Reading (List Char)
  | '.' :: rest => readDigits Char.isDigit rest
  | _ => none

/-- A power of ten, if there is one. -/
def readExponent : List Char → Reading Int
  | c :: rest =>
    if c = 'e' ∨ c = 'E' then
      let (negative, rest) := readSign rest
      (readDigits Char.isDigit rest).map fun (ds, r) =>
        (if negative then -(decimalValue ds : Int) else decimalValue ds, r)
    else none
  | [] => none

/-- A decimal number, of which the digits and the parts that make it a fraction are given. -/
structure Numeral where
  negative : Bool
  whole : List Char
  fraction : Option (List Char)
  exponent : Option Int
  deriving DecidableEq, Repr

def optional {α : Type} (r : Reading α) (cs : List Char) : Option α × List Char :=
  match r with
  | some (a, rest) => (some a, rest)
  | none => (none, cs)

def readNumeral (cs : List Char) : Reading Numeral :=
  let (negative, cs) := readSign cs
  (readWhole cs).map fun (whole, rest) =>
    let (fraction, rest) := optional (readFraction rest) rest
    let (exponent, rest) := optional (readExponent rest) rest
    (⟨negative, whole, fraction, exponent⟩, rest)

/-- The numbers that are spelled with letters. -/
def readSpecial (cs : List Char) : Reading Decimal.Binary64 :=
  let (negative, rest) := readSign cs
  match rest with
  | 'i' :: 'n' :: 'f' :: rest => some (.infinite negative, rest)
  | 'n' :: 'a' :: 'n' :: rest => some (.nan, rest)
  | _ => none

/-! ## Dates and times -/

/-- A number of exactly so many digits. -/
def readFixed (count : Nat) (cs : List Char) : Reading Nat :=
  let ds := cs.take count
  if ds.length = count ∧ ds.all Char.isDigit then some (decimalValue ds, cs.drop count) else none

def expect (c : Char) : List Char → Option (List Char)
  | c' :: rest => if c' = c then some rest else none
  | [] => none

def isLeapYear (y : Nat) : Bool := y % 4 = 0 && (y % 100 ≠ 0 || y % 400 = 0)

def daysInMonth (y m : Nat) : Nat :=
  if m = 2 then (if isLeapYear y then 29 else 28)
  else if m = 4 ∨ m = 6 ∨ m = 9 ∨ m = 11 then 30
  else 31

def Date.isValid (d : Date) : Bool :=
  1 ≤ d.year && 1 ≤ d.month && d.month ≤ 12 && 1 ≤ d.day && d.day ≤ daysInMonth d.year d.month

/-- A date as it is spelled, be it in the calendar or not. -/
def readDate (cs : List Char) : Option (Date × List Char) := do
  let (year, cs) ← readFixed 4 cs
  let cs ← expect '-' cs
  let (month, cs) ← readFixed 2 cs
  let cs ← expect '-' cs
  let (day, cs) ← readFixed 2 cs
  return (⟨year, month, day⟩, cs)

def readMinutes (cs : List Char) : Option ((Nat × Nat) × List Char) := do
  let (hour, cs) ← readFixed 2 cs
  let cs ← expect ':' cs
  let (minute, cs) ← readFixed 2 cs
  if hour < 24 ∧ minute < 60 then return ((hour, minute), cs) else none

/-- Microseconds, from the first six digits behind a point. -/
def readMicroseconds : List Char → Nat × List Char
  | '.' :: rest =>
    match rest.takeWhile Char.isDigit with
    | [] => (0, '.' :: rest)
    | ds =>
      let six := ds.take 6
      (decimalValue (six ++ List.replicate (6 - six.length) '0'), rest.dropWhile Char.isDigit)
  | cs => (0, cs)

def readTime (cs : List Char) : Option (Time × List Char) := do
  let ((hour, minute), cs) ← readMinutes cs
  let cs ← expect ':' cs
  let (second, cs) ← readFixed 2 cs
  if second < 60 then
    let (micro, cs) := readMicroseconds cs
    return (⟨hour, minute, second, micro⟩, cs)
  else none

/-- By how many minutes a time is ahead of universal time. -/
def readZone : List Char → Reading Int
  | c :: rest =>
    if c = 'Z' ∨ c = 'z' then some (0, rest)
    else if c = '+' ∨ c = '-' then
      (readMinutes rest).map fun ((hour, minute), r) =>
        let minutes : Int := 60 * hour + minute
        (if c = '-' then -minutes else minutes, r)
    else none
  | [] => none

/-- A time behind a date and a separator. -/
def readTimeOfDay : List Char → Reading Time
  | c :: rest => if c = 'T' ∨ c = 't' ∨ c = ' ' then readTime rest else none
  | [] => none

/-- A date with a time perhaps, or a time alone. The outer option says whether the text is of this
form at all; a date out of the calendar is no value. -/
def readMoment (cs : List Char) : Option (Reading Value) :=
  match readDate cs with
  | some (d, rest) =>
    some <|
      if !d.isValid then none
      else
        match readTimeOfDay rest with
        | none => some (.date d, rest)
        | some (t, rest) =>
          let (ahead, rest) := optional (readZone rest) rest
          some (.moment d t ahead, rest)
  | none => (readTime cs).map fun (t, rest) => some (.time t, rest)

end PathGlob.Toml
