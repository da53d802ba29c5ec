import PathGlob.Settings.Flag
import PathGlob.Toml.Value

/-!
# Settings

What a settings file says about the options. Its entries are taken in order: those at the top level,
and in between those of the known sections. A later entry overrules an earlier one; what cannot be
used is noted and passed over.
-/
namespace PathGlob

structure Settings where
  flags : Flag → Option Bool
  ignore : Option (List String)

/-- What is wrong with a settings file. Entries are named by their keys as written. -/
inductive Notice where
  | malformed
  | unknownSection (key : String)
  | unknownKey (key : String)
  | ignoreNotTexts (key : String)
  | notFlag (flag : Flag) (value : Toml.Value) (key : String)

def Notice.text : Notice → String
  | malformed => "ignoring malformed config file"
  | unknownSection key => "unrecognized config section [" ++ key ++ "]"
  | unknownKey key => "unrecognized config key; skipping " ++ Text.quoted key
  | ignoreNotTexts key =>
    "ignore must be a string or a list of strings; skipping " ++ Text.quoted key
  | notFlag flag value key =>
    flag.name ++ " must be true or false, not " ++ value.shown ++ "; skipping " ++ Text.quoted key

def Notice.showable : Notice → Bool
  | notFlag _ value _ => value.showable
  | _ => true

/-- A notice about a file, on a line of its own. -/
def Notice.line (path : String) (n : Notice) : String :=
  "Warning: " ++ path ++ ": " ++ n.text

namespace Settings

def empty : Settings := ⟨fun _ => none, none⟩

inductive Change where
  | flag (f : Flag) (b : Bool)
  | ignore (lines : List String)
  deriving DecidableEq, Repr

def apply (s : Settings) : Change → Settings
  | .flag f b => { s with flags := fun f' => if f' = f then some b else s.flags f' }
  | .ignore lines => { s with ignore := some lines }

/-- The name of an entry's setting: hyphens stand for underscores. -/
def nameOf (key : String) : String :=
  String.ofList (key.toList.map fun c => if c = '-' then '_' else c)

/-- What an entry sets, or what is wrong with it. -/
def change (key : String) (v : Toml.Value) : Except Notice Change :=
  if nameOf key = "ignore" then
    match v.texts? with
    | some lines => .ok (.ignore lines)
    | none => .error (.ignoreNotTexts key)
  else
    match Flag.ofName? (nameOf key) with
    | none => .error (.unknownKey key)
    | some f =>
      match v.flag? with
      | some b => .ok (.flag f b)
      | none => .error (.notFlag f v key)

/-- The tables whose entries are settings. -/
def sections : List String := ["matching", "traversal", "output"]

/-- A part of a settings table: an entry, or a section that is not known. -/
inductive Part where
  | entry (key : String) (value : Toml.Value)
  | unknown (key : String)

/-- The parts that a field of a settings table stands for. -/
def partsOf : String × Toml.Value → List Part
  | (key, .table fields) =>
    if key ∈ sections then fields.map fun (k, v) => .entry k v else [.unknown key]
  | (key, v) => [.entry key v]

def parts (fields : Toml.Fields) : List Part := fields.flatMap partsOf

def step (r : Settings × List Notice) : Part → Settings × List Notice
  | .unknown key => (r.1, r.2 ++ [.unknownSection key])
  | .entry key v =>
    match change key v with
    | .ok c => (r.1.apply c, r.2)
    | .error n => (r.1, r.2 ++ [n])

/-- The settings in a table, and what is wrong with it. -/
def ofFields (fields : Toml.Fields) : Settings × List Notice :=
  (parts fields).foldl step (empty, [])

end Settings

end PathGlob
