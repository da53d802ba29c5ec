/-!
# File systems

A file system maps locations to nodes and remembers the order in which they came to be, which is the
order of directory listings. A location is the list of names that leads there from the root.

Names, paths and the targets of links are texts, and so sequences of Unicode scalar values: names that
are not UTF-8, which would be texts with lone surrogates, are left out. Directories may be nested
without limit.
-/
namespace PathGlob

/-- Whether a text may name a directory entry. -/
def isName (s : String) : Bool :=
  s != "" && s != "." && s != ".." && s.toList.all fun c => c != '/' && c != '\x00'

structure Name where
  text : String
  valid : isName text = true
  deriving DecidableEq, Repr

def Name.ofText? (s : String) : Option Name :=
  if h : isName s then some ⟨s, h⟩ else none

/-- The way from the root to a node. -/
abbrev Location := List Name

/-- What may be done with a directory. -/
structure Access where
  /-- Its names may be listed. -/
  readable : Bool := true
  /-- Its names may be looked up. -/
  searchable : Bool := true
  deriving DecidableEq, Repr

inductive Node where
  | directory (access : Access)
  | file (readable : Bool) (content : List UInt8)
  | link (target : String)
  deriving DecidableEq

structure Item where
  location : Location
  /-- Tells a node from others that were at the same location before. -/
  stamp : Nat
  node : Node
  deriving DecidableEq

/-- A file system. The root is a directory that is always there. -/
structure FileSystem where
  root : Access
  /-- All other nodes, oldest first. -/
  items : List Item
  nextStamp : Nat
  distinct : (items.map Item.location).Nodup

namespace FileSystem

def empty : FileSystem := ⟨{}, [], 1, by simp⟩

/-- The item at a location other than the root. -/
def item? (fs : FileSystem) (loc : Location) : Option Item :=
  fs.items.find? fun i => i.location = loc

def node? (fs : FileSystem) (loc : Location) : Option Node :=
  if loc = [] then some (.directory fs.root) else (fs.item? loc).map Item.node

def stampAt (fs : FileSystem) (loc : Location) : Nat :=
  if loc = [] then 0 else ((fs.item? loc).map Item.stamp).getD 0

/-- The name of a location within a directory. -/
def childOf? : (dir : Location) → Location → Option Name
  | [], [n] => some n
  | a :: dir, b :: loc => if a = b then childOf? dir loc else none
  | _, _ => none

/-- The names in a directory with their nodes, oldest first. -/
def children (fs : FileSystem) (dir : Location) : List (Name × Node) :=
  fs.items.filterMap fun i => (childOf? dir i.location).map fun n => (n, i.node)

/-- The number of nodes, the root included. -/
def size (fs : FileSystem) : Nat := fs.items.length + 1

def linkCount (fs : FileSystem) : Nat :=
  fs.items.countP fun i => match i.node with
    | .link _ => true
    | _ => false

/-! ## Changes -/

/-- Adds a node at a location where there is none. -/
def append (fs : FileSystem) (loc : Location) (node : Node) : FileSystem :=
  if h : loc ∈ fs.items.map Item.location then fs
  else
    { fs with
      items := fs.items ++ [⟨loc, fs.nextStamp, node⟩]
      nextStamp := fs.nextStamp + 1
      distinct := by
        rw [List.map_append, List.nodup_append]
        refine ⟨fs.distinct, by simp, fun a ha b hb => ?_⟩
        simp only [List.map_cons, List.map_nil, List.mem_singleton] at hb
        rintro rfl
        exact h (hb ▸ ha) }

def mapItems (fs : FileSystem) (f : Item → Node × Nat) : FileSystem :=
  { fs with
    items := fs.items.map fun i => { i with node := (f i).1, stamp := (f i).2 }
    distinct := by
      have h := fs.distinct
      simpa [List.map_map, Function.comp_def] using h }

def filterItems (fs : FileSystem) (keep : Item → Bool) : FileSystem :=
  { fs with
    items := fs.items.filter keep
    distinct := fs.distinct.sublist (List.filter_sublist.map _) }

/-- Removes a node and all below it. -/
def remove (fs : FileSystem) (loc : Location) : FileSystem :=
  fs.filterItems fun i => !loc.isPrefixOf i.location

/-- Adds a directory and those that lead there, as far as they are missing. -/
def addDirectory (fs : FileSystem) (loc : Location) : FileSystem :=
  (List.range loc.length).foldl (fun fs n => fs.append (loc.take (n + 1)) (.directory {})) fs

/-- Puts a new node at a location, in the place of what was there before. -/
def put (fs : FileSystem) (loc : Location) (node : Node) : FileSystem :=
  let fs := fs.addDirectory loc.dropLast
  match fs.item? loc with
  | none => fs.append loc node
  | some _ =>
    let stamp := fs.nextStamp
    let fs := fs.filterItems fun i => !(loc.isPrefixOf i.location && i.location != loc)
    let fs := fs.mapItems fun i => if i.location = loc then (node, stamp) else (i.node, i.stamp)
    { fs with nextStamp := stamp + 1 }

/-- Forbids listing a directory or reading a file. -/
def Node.forbidReading : Node → Node
  | .directory a => .directory { a with readable := false }
  | .file _ content => .file false content
  | .link target => .link target

def Node.forbidSearching : Node → Node
  | .directory a => .directory { a with searchable := false }
  | other => other

def modify (fs : FileSystem) (loc : Location) (f : Node → Node) : FileSystem :=
  if loc = [] then
    match f (.directory fs.root) with
    | .directory root => { fs with root := root }
    | _ => fs
  else fs.mapItems fun i => if i.location = loc then (f i.node, i.stamp) else (i.node, i.stamp)

end FileSystem

inductive Change where
  | directory (loc : Location)
  | file (loc : Location) (content : List UInt8)
  | link (loc : Location) (target : String)
  | remove (loc : Location)
  | forbidReading (loc : Location)
  | forbidSearching (loc : Location)

def FileSystem.apply (fs : FileSystem) : Change → FileSystem
  | .directory loc => fs.addDirectory loc
  | .file loc content => fs.put loc (.file true content)
  | .link loc target => fs.put loc (.link target)
  | .remove loc => fs.remove loc
  | .forbidReading loc => fs.modify loc Node.forbidReading
  | .forbidSearching loc => fs.modify loc Node.forbidSearching

/-- A location, spelled with slashes; what is no name is passed over. -/
def Location.ofText (path : String) : Location :=
  (path.toList.splitOn '/').filterMap fun cs => Name.ofText? (String.ofList cs)

end PathGlob
