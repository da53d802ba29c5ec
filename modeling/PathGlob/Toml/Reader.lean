import PathGlob.Toml.Document
import PathGlob.Toml.Lexeme

/-!
# Reading TOML

A document is read statement by statement: headers of tables, headers of array elements, and
entries. The first fault ends the reading.
-/
namespace PathGlob.Toml

inductive ReadFault where
  | malformed
  /-- A whole number has too many digits. -/
  | tooManyDigits
  deriving DecidableEq, Repr

/-- What the text has to go on with. -/
def require {α : Type} : Option α → Except ReadFault α
  | some a => .ok a
  | none => .error .malformed

/-! ## Values -/

/-- A fraction's value, or a whole number. -/
def Numeral.value (n : Numeral) : Except ReadFault Value :=
  match n.fraction, n.exponent with
  | none, none =>
    if n.whole.length > mostDigits then .error .tooManyDigits
    else
      let m : Int := decimalValue n.whole
      .ok (.integer (if n.negative then -m else m))
  | fraction, exponent =>
    let behind := fraction.getD []
    .ok (.decimal (Decimal.Binary64.ofDecimal n.negative (decimalValue (n.whole ++ behind))
      (exponent.getD 0 - behind.length)))

def readNumber (cs : List Char) : Except ReadFault (Value × List Char) :=
  match readRadix cs with
  | some (n, rest) => .ok (.integer n, rest)
  | none =>
    match readNumeral cs with
    | some (n, rest) => n.value.map fun v => (v, rest)
    | none => (require (readSpecial cs)).map fun (x, rest) => (.decimal x, rest)

/-- A value that holds no others. -/
def readAtom : List Char → Except ReadFault (Value × List Char)
  | '"' :: rest => (require (readQuoted ('"' :: rest))).map fun (s, r) => (.text s, r)
  | '\'' :: rest => (require (readQuoted ('\'' :: rest))).map fun (s, r) => (.text s, r)
  | 't' :: 'r' :: 'u' :: 'e' :: rest => .ok (.flag true, rest)
  | 'f' :: 'a' :: 'l' :: 's' :: 'e' :: rest => .ok (.flag false, rest)
  | cs =>
    match readMoment cs with
    | some r => require r
    | none => readNumber cs

/-- A key with the sign behind it. -/
def readEntryKey (cs : List Char) : Except ReadFault (Key × List Char) := do
  let (key, rest) ← require (readKey (cs.length + 1) cs)
  let rest ← require (expect '=' rest)
  return (key, skipSpaces rest)

mutual

def readValue : (fuel : Nat) → List Char → Except ReadFault (Value × List Char)
  | 0, _ => .error .malformed
  | fuel + 1, '[' :: rest => do
    let rest ← require (skipLayout false rest)
    match rest with
    | ']' :: rest => return (.array [], rest)
    | rest =>
      let (items, rest) ← readItems fuel rest
      return (.array items, rest)
  | fuel + 1, '\x7b' :: rest =>
    match skipSpaces rest with
    | '\x7d' :: rest => .ok (.table [], rest)
    | rest => (readInline fuel ⟨[], []⟩ rest).map fun (fields, rest) => (.table fields, rest)
  | _ + 1, cs => readAtom cs

/-- The members of an array, of which there is one at least, with the bracket behind them. -/
def readItems : (fuel : Nat) → List Char → Except ReadFault (List Value × List Char)
  | 0, _ => .error .malformed
  | fuel + 1, cs => do
    let (v, rest) ← readValue fuel cs
    match ← require (skipLayout false rest) with
    | ']' :: rest => return ([v], rest)
    | ',' :: rest =>
      match ← require (skipLayout false rest) with
      | ']' :: rest => return ([v], rest)
      | rest =>
        let (vs, rest) ← readItems fuel rest
        return (v :: vs, rest)
    | _ => throw .malformed

/-- The entries of an inline table, of which there is one at least, with the brace behind them. -/
def readInline : (fuel : Nat) → Inline → List Char → Except ReadFault (Fields × List Char)
  | 0, _, _ => .error .malformed
  | fuel + 1, table, cs => do
    let (key, rest) ← readEntryKey cs
    let (v, rest) ← readValue fuel rest
    let table ← require (table.add key v)
    match skipSpaces rest with
    | '\x7d' :: rest => return (table.fields, rest)
    | ',' :: rest => readInline fuel table (skipSpaces rest)
    | _ => throw .malformed

end

/-- Enough fuel for a text: a value takes one character at least, and so does what follows it. -/
def fuelFor (cs : List Char) : Nat := 2 * cs.length + 2

/-! ## Statements -/

/-- The header of a table, read behind its bracket. -/
def readTableHeader (d : Document) (cs : List Char) : Except ReadFault (Document × List Char) := do
  let cs := skipSpaces cs
  let (key, rest) ← require (readKey (cs.length + 1) cs)
  let d ← require (d.declareTable key)
  let rest ← require (expect ']' rest)
  return (d, rest)

/-- The header of an array element, read behind its brackets. -/
def readElementHeader (d : Document) (cs : List Char) :
    Except ReadFault (Document × List Char) := do
  let cs := skipSpaces cs
  let (key, rest) ← require (readKey (cs.length + 1) cs)
  let d ← require (d.declareElement key)
  let rest ← require ((expect ']' rest).bind (expect ']'))
  return (d, rest)

def readEntry (d : Document) (cs : List Char) : Except ReadFault (Document × List Char) := do
  let (key, rest) ← readEntryKey cs
  let (v, rest) ← readValue (fuelFor rest) rest
  let d ← require (d.addEntry key v)
  return (d, rest)

/-- What stands on a line, or on the first of the lines that a value is spread over; a line may be
blank. -/
def readStatement (d : Document) : List Char → Except ReadFault (Document × List Char)
  | '[' :: '[' :: rest => readElementHeader d.close rest
  | '[' :: rest => readTableHeader d.close rest
  | c :: rest =>
    if c = '\n' ∨ c = '#' then .ok (d, c :: rest)
    else readEntry d (c :: rest)
  | [] => .ok (d, [])

/-- Reads statements, each with its line end. -/
def readStatements : (fuel : Nat) → Document → List Char → Except ReadFault Document
  | 0, _, _ => .error .malformed
  | fuel + 1, d, cs => do
    let (d, rest) ← readStatement d (skipSpaces cs)
    match ← require (skipComment (skipSpaces rest)) with
    | [] => return d
    | '\n' :: rest => readStatements fuel d rest
    | _ => throw .malformed

def read (cs : List Char) : Except ReadFault Fields :=
  (readStatements (cs.length + 1) .empty cs).map Document.fields

end PathGlob.Toml
