import PathGlob.Toml.Value

/-!
# TOML documents

A document grows statement by statement. A header names a table, which is made on the way; the
entries below a header go into its table. What has been written once cannot be written again: a
table is declared at most once, an array or an inline table is complete with its declaration, and
dotted keys do not reach into declared tables.
-/
namespace PathGlob.Toml

abbrev Key := List String

def Fields.replace (k : String) (v : Value) : Fields → Fields
  | [] => []
  | (k', v') :: rest => if k' = k then (k, v) :: rest else (k', v') :: replace k v rest

/-- Changes the table that a key leads to; missing tables are made. With `intoArrays`, an array
leads on to its last table. -/
def Fields.update (intoArrays : Bool) (f : Fields → Option Fields) : Key → Fields → Option Fields
  | [], fields => f fields
  | k :: rest, fields =>
    match fields.lookup k with
    | none => (update intoArrays f rest []).map fun inner => fields ++ [(k, .table inner)]
    | some (.table inner) =>
      (update intoArrays f rest inner).map fun inner => replace k (.table inner) fields
    | some (.array items) =>
      if intoArrays then
        match items.getLast? with
        | some (.table inner) =>
          (update intoArrays f rest inner).map fun inner =>
            replace k (.array (items.dropLast ++ [.table inner])) fields
        | _ => none
      else none
    | some _ => none

/-- Adds a field that is not there yet. -/
def Fields.add (k : String) (v : Value) (fields : Fields) : Option Fields :=
  match fields.lookup k with
  | none => some (fields ++ [(k, v)])
  | some _ => none

/-- Adds an empty table to an array, which is made if it is missing. -/
def Fields.extend (k : String) (fields : Fields) : Option Fields :=
  match fields.lookup k with
  | none => some (fields ++ [(k, .array [.table []])])
  | some (.array items) => some (replace k (.array (items ++ [.table []])) fields)
  | some _ => none

/-- Whether a key or one that it begins with is among some keys. -/
def Key.reaches (frozen : List Key) (key : Key) : Bool := frozen.any fun f => f.isPrefixOf key

/-- What has been read of a document. -/
structure Document where
  fields : Fields
  /-- The table that entries go into. -/
  header : Key
  /-- Keys that cannot be declared as tables. -/
  declared : List Key
  /-- Keys that cannot be declared as tables from the next header on. -/
  dotted : List Key
  /-- Keys with complete values. -/
  frozen : List Key

namespace Document

def empty : Document := ⟨[], [], [], [], []⟩

/-- Closes the section of a header. -/
def close (d : Document) : Document :=
  { d with declared := d.declared ++ d.dotted, dotted := [] }

def declareTable (d : Document) (key : Key) : Option Document :=
  if key ∈ d.declared ∨ Key.reaches d.frozen key then none
  else
    (d.fields.update true some key).map fun fields =>
      { d with fields := fields, header := key, declared := d.declared ++ [key] }

/-- Declares one more table of an array. What was said about the one before is forgotten. -/
def declareElement (d : Document) (key : Key) : Option Document :=
  if Key.reaches d.frozen key then none
  else
    (d.fields.update true (Fields.extend (key.getLast?.getD "")) key.dropLast).map fun fields =>
      { d with
        fields := fields
        header := key
        declared := d.declared.filter (fun k => !key.isPrefixOf k) ++ [key]
        frozen := d.frozen.filter fun k => !key.isPrefixOf k }

/-- The tables that a dotted key leads through, below a header. -/
def tablesOf (header key : Key) : List Key :=
  (List.range (key.length - 1)).map fun n => header ++ key.take (n + 1)

def addEntry (d : Document) (key : Key) (v : Value) : Option Document :=
  let through := tablesOf d.header key
  if through.any (· ∈ d.declared) then none
  else if Key.reaches d.frozen (d.header ++ key.dropLast) then none
  else
    (d.fields.update true (Fields.add (key.getLast?.getD "") v) (d.header ++ key.dropLast)).map
      fun fields =>
        { d with
          fields := fields
          dotted := d.dotted ++ through
          frozen := if v.isContainer then d.frozen ++ [d.header ++ key] else d.frozen }

end Document

/-- The entries of an inline table so far, with those that are complete. -/
structure Inline where
  fields : Fields
  frozen : List Key

def Inline.add (t : Inline) (key : Key) (v : Value) : Option Inline :=
  if Key.reaches t.frozen key then none
  else
    (t.fields.update false (Fields.add (key.getLast?.getD "") v) key.dropLast).map fun fields =>
      ⟨fields, if v.isContainer then t.frozen ++ [key] else t.frozen⟩

end PathGlob.Toml
