import PathGlob.Glob
import PathGlob.Lookup.Pool

/-!
# Concurrent searches

The walks of a glob as tasks that share a cache. A schedule says which task takes the next step;
when it is used up, the tasks are completed one after another. The first failure fails the search;
the other walks are completed all the same, which only a log and the cache can tell.
-/
namespace PathGlob.Glob

def pool (g : Glob) (h : Host) (c : Cache) : Pool Unit :=
  .start h c <| g.alternatives.map fun a =>
    let w := g.walk h a
    w.script (w.depthOn h c)

/-- What a search reports that ends with a pool of tasks. -/
def resultOf (g : Glob) (p : Pool Unit) : Except RunError (List String) :=
  match p.failures with
  | e :: _ => .error e
  | [] => .ok (g.merge (p.tasks.map fun t => t.found.toList))

/-- The pool when all walks have ended that take their steps by a schedule. -/
def poolBy (schedule : List Nat) (g : Glob) (h : Host) (c : Cache) : Pool Unit :=
  ((g.pool h c).run (schedule.map .step)).finish

/-- Searches a host with walks that take their steps by a schedule. -/
def searchBy (schedule : List Nat) (g : Glob) (h : Host) (c : Cache) :
    Except RunError (List String) × Cache :=
  let p := g.poolBy schedule h c
  (g.resultOf p, p.cache)

end PathGlob.Glob
