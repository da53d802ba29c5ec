import PathGlob.Text.Quoted

/-!
# UTF-8

Reading bytes as text. Every byte is taken once; a character that is not finished yet is kept as the
state between two bytes. The first sequence that belongs to no character is the error.
-/
namespace PathGlob.Text.Utf8

inductive Cause where
  | invalidStart
  | invalidContinuation
  | unexpectedEnd
  deriving DecidableEq, Repr

def Cause.text : Cause → String
  | invalidStart => "invalid start byte"
  | invalidContinuation => "invalid continuation byte"
  | unexpectedEnd => "unexpected end of data"

/-- Bytes that belong to no character. -/
structure DecodeError where
  cause : Cause
  first : UInt8
  /-- The position of the first of them. -/
  start : Nat
  /-- The position behind the last of them. -/
  stop : Nat
  deriving DecidableEq, Repr

def DecodeError.message (e : DecodeError) : String :=
  let bytes :=
    if e.stop = e.start + 1 then
      "byte 0x" ++ String.ofList (hexDigits 2 e.first.toNat) ++ " in position " ++ toString e.start
    else "bytes in position " ++ toString e.start ++ "-" ++ toString (e.stop - 1)
  "'utf-8' codec can't decode " ++ bytes ++ ": " ++ e.cause.text

/-- A character of which bytes are still missing. -/
structure Pending where
  first : UInt8
  start : Nat
  /-- The bits so far. -/
  value : Nat
  /-- One less than the number of missing bytes. -/
  further : Nat
  /-- The least and the greatest byte that may come next. -/
  low : Nat
  high : Nat
  deriving DecidableEq, Repr

inductive Lead where
  | whole (c : Char)
  | opens (p : Pending)
  | nothing
  deriving DecidableEq, Repr

/-- A byte at a position between two characters. The ranges leave out longer spellings than needed,
surrogates, and numbers that are too large. -/
def lead (position : Nat) (b : UInt8) : Lead :=
  let n := b.toNat
  if n < 0x80 then .whole (Char.ofNat n)
  else if n < 0xc2 then .nothing
  else if n < 0xe0 then .opens ⟨b, position, n - 0xc0, 0, 0x80, 0xbf⟩
  else if n < 0xf0 then
    let low := if n = 0xe0 then 0xa0 else 0x80
    let high := if n = 0xed then 0x9f else 0xbf
    .opens ⟨b, position, n - 0xe0, 1, low, high⟩
  else if n < 0xf5 then
    let low := if n = 0xf0 then 0x90 else 0x80
    let high := if n = 0xf4 then 0x8f else 0xbf
    .opens ⟨b, position, n - 0xf0, 2, low, high⟩
  else .nothing

/-- Reads bytes from a position on, with the character that is not finished yet. -/
def decodeFrom : (position : Nat) → Option Pending → List UInt8 → Except DecodeError (List Char)
  | _, none, [] => .ok []
  | position, some p, [] => .error ⟨.unexpectedEnd, p.first, p.start, position⟩
  | position, none, b :: rest =>
    match lead position b with
    | .whole c => (decodeFrom (position + 1) none rest).map (c :: ·)
    | .opens p => decodeFrom (position + 1) (some p) rest
    | .nothing => .error ⟨.invalidStart, b, position, position + 1⟩
  | position, some p, b :: rest =>
    if p.low ≤ b.toNat ∧ b.toNat ≤ p.high then
      let value := 64 * p.value + b.toNat % 64
      match p.further with
      | 0 => (decodeFrom (position + 1) none rest).map (Char.ofNat value :: ·)
      | further + 1 =>
        let p := { p with value := value, further := further, low := 0x80, high := 0xbf }
        decodeFrom (position + 1) (some p) rest
    else .error ⟨.invalidContinuation, p.first, p.start, position⟩

def decode (bytes : List UInt8) : Except DecodeError (List Char) := decodeFrom 0 none bytes

end PathGlob.Text.Utf8
