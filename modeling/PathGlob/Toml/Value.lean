import PathGlob.Decimal.Shortest
import PathGlob.Text.Quoted

/-!
# TOML values

What a key can stand for in a TOML document, and how a value is shown in a message. The fields of a
table keep the order in which they were written.
-/
namespace PathGlob.Toml

structure Date where
  year : Nat
  month : Nat
  day : Nat
  deriving DecidableEq, Repr

structure Time where
  hour : Nat
  minute : Nat
  second : Nat
  microsecond : Nat
  deriving DecidableEq, Repr

inductive Value where
  | text (s : String)
  | integer (n : Int)
  | decimal (x : Decimal.Binary64)
  | flag (b : Bool)
  | date (d : Date)
  | time (t : Time)
  /-- A date and a time, perhaps with the minutes by which they are ahead of universal time. -/
  | moment (d : Date) (t : Time) (ahead : Option Int)
  | array (items : List Value)
  | table (fields : List (String × Value))

/-- Keys with what they stand for, oldest first. -/
abbrev Fields := List (String × Value)

/-- Whether a value's inner keys are complete with it. -/
def Value.isContainer : Value → Bool
  | .array _ => true
  | .table _ => true
  | _ => false

/-- The text of a value that is one, and of the members of an array that are all texts. -/
def Value.text? : Value → Option String
  | .text s => some s
  | _ => none

def Value.texts? : Value → Option (List String)
  | .text s => some [s]
  | .array items => items.mapM Value.text?
  | _ => none

def Value.flag? : Value → Option Bool
  | .flag b => some b
  | _ => none

/-! ## Showing values -/

def call (name : String) (args : List String) : String :=
  name ++ "(" ++ ", ".intercalate args ++ ")"

def Date.args (d : Date) : List String := [toString d.year, toString d.month, toString d.day]

/-- Hours and minutes, and as much of the rest as is not zero. -/
def Time.args (t : Time) : List String :=
  [toString t.hour, toString t.minute] ++
    if t.microsecond ≠ 0 then [toString t.second, toString t.microsecond]
    else if t.second ≠ 0 then [toString t.second]
    else []

/-- Days and seconds of some minutes, with the days rounded down. -/
def spanText (minutes : Int) : String :=
  let seconds := toString (minutes * 60 % 86400)
  if minutes < 0 then call "datetime.timedelta" ["days=-1", "seconds=" ++ seconds]
  else call "datetime.timedelta" ["seconds=" ++ seconds]

/-- A time zone, given by the minutes by which it is ahead. -/
def zoneText (ahead : Int) : String :=
  if ahead = 0 then "datetime.timezone.utc" else call "datetime.timezone" [spanText ahead]

mutual

def Value.shown : Value → String
  | .text s => Text.quoted s
  | .integer n => toString n
  | .decimal x => x.text
  | .flag b => if b then "True" else "False"
  | .date d => call "datetime.date" d.args
  | .time t => call "datetime.time" t.args
  | .moment d t ahead =>
    let zone := match ahead with
      | none => []
      | some minutes => ["tzinfo=" ++ zoneText minutes]
    call "datetime.datetime" (d.args ++ t.args ++ zone)
  | .array items => "[" ++ ", ".intercalate (shownItems items) ++ "]"
  | .table fields => "\x7b" ++ ", ".intercalate (shownFields fields) ++ "\x7d"

def shownItems : List Value → List String
  | [] => []
  | v :: rest => v.shown :: shownItems rest

def shownFields : List (String × Value) → List String
  | [] => []
  | (k, v) :: rest => (Text.quoted k ++ ": " ++ v.shown) :: shownFields rest

end

/-- The most decimal digits that a whole number may be read or shown with. -/
def mostDigits : Nat := 4300

mutual

/-- Whether a value can be shown: no whole number in it has too many digits. -/
def Value.showable : Value → Bool
  | .integer n => n.natAbs < Decimal.tenTo mostDigits
  | .array items => showableItems items
  | .table fields => showableFields fields
  | _ => true

def showableItems : List Value → Bool
  | [] => true
  | v :: rest => v.showable && showableItems rest

def showableFields : List (String × Value) → Bool
  | [] => true
  | (_, v) :: rest => v.showable && showableFields rest

end

end PathGlob.Toml
