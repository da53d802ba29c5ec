import PathGlob.Lookup.Script
import Std.Data.DHashMap.Basic

/-!
# The lookup cache

A cache keeps the answers to lookups, by the question as it was spelled, and counts how often an
answer was there. A lookup is a check and, if nothing was stored, a computation and a store; of two
answers to one question the first that is stored stays.
-/
namespace PathGlob

structure Cache where
  stored : Std.DHashMap Query Query.Answer
  hits : Nat
  misses : Nat

namespace Cache

def empty : Cache := ⟨∅, 0, 0⟩

def get? (c : Cache) (q : Query) : Option q.Answer := c.stored.get? q

/-- Looks for a stored answer and counts. -/
def check (c : Cache) (q : Query) : Option q.Answer × Cache :=
  match c.get? q with
  | some a => (some a, { c with hits := c.hits + 1 })
  | none => (none, { c with misses := c.misses + 1 })

/-- Stores an answer unless there is one, and gives the one that is stored then. -/
def store (c : Cache) (q : Query) (a : q.Answer) : q.Answer × Cache :=
  match c.get? q with
  | some b => (b, c)
  | none => (a, { c with stored := c.stored.insert q a })

/-- A whole lookup. A computation that fails leaves the stored answers as they are. -/
def lookup (compute : (q : Query) → Except NullInPath q.Answer) (q : Query) (c : Cache) :
    Except NullInPath q.Answer × Cache :=
  match c.check q with
  | (some a, c) => (.ok a, c)
  | (none, c) =>
    match compute q with
    | .ok a =>
      let (a, c) := c.store q a
      (.ok a, c)
    | .error e => (.error e, c)

def clear (_ : Cache) : Cache := empty

def size (c : Cache) : Nat := c.stored.size

/-- The length of the longest path with a stored answer. -/
def longest (c : Cache) : Nat := c.stored.fold (fun n q _ => max n q.path.length) 0

end Cache

/-- Runs a script on a host with a cache in between. -/
def Script.runCached {α : Type} (h : Host) (s : Script α) (c : Cache) : Run Cache α :=
  s.run (Cache.lookup h.answer) c

end PathGlob
