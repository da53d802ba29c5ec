import PathGlob.Lookup.Cache
import PathGlob.OrderedSet

/-!
# Pools of tasks

Several scripts share one cache and one set of found paths. A task takes one step at a time: a
lookup is a check of the cache, a computation that looks at the file system, and a store, and other
tasks may take steps in between. The file system may change between two steps.
-/
namespace PathGlob

inductive Phase (α : Type) where
  | ready (s : Script α)
  /-- Nothing is stored for a question, so that its answer has to be computed. -/
  | missed (q : Query) (next : q.Answer → Script α)
  /-- An answer is computed but not stored. -/
  | computed (q : Query) (a : q.Answer) (next : q.Answer → Script α)
  | ended (result : Except RunError α)

/-- A script on its way, with the paths that it has found. -/
structure Task (α : Type) where
  phase : Phase α
  found : OrderedSet

inductive Act where
  /-- A lookup finds a stored answer. -/
  | hit (q : Query) (a : q.Answer)
  | miss (q : Query)
  | compute (q : Query) (a : q.Answer)
  /-- A computation fails, and so does the lookup. -/
  | refuse (q : Query)
  /-- A lookup ends with the answer that is stored then. -/
  | store (q : Query) (a : q.Answer)
  /-- A path that is new to the task is added to the shared set; `new` tells whether it is new to
  that as well. -/
  | add (path : String) (new : Bool)
  | report (e : Event)
  | stop

structure Pool (α : Type) where
  host : Host
  cache : Cache
  matched : OrderedSet
  tasks : List (Task α)
  /-- The failures of tasks, oldest first. -/
  failures : List RunError
  /-- The steps so far, oldest first, each with its task. -/
  history : List (Nat × Act)

inductive Move where
  | step (task : Nat)
  /-- All stored answers are forgotten. -/
  | clear
  /-- The file system is another one from now on. -/
  | change (h : Host)

/-- The failure that a result stands for, if any. -/
def failureOf {α : Type} : Except RunError α → List RunError
  | .ok _ => []
  | .error e => [e]

namespace Pool

variable {α : Type}

/-- Tasks that are about to start. -/
def start (h : Host) (c : Cache) (scripts : List (Script α)) : Pool α :=
  ⟨h, c, .empty, scripts.map fun s => ⟨.ready s, .empty⟩, [], []⟩

/-- Brings a task to another phase. -/
def put (p : Pool α) (i : Nat) (t : Task α) (phase : Phase α) (act : Act) : Pool α :=
  { p with
    tasks := p.tasks.set i { t with phase := phase }
    history := p.history ++ [(i, act)] }

def stop (p : Pool α) (i : Nat) (t : Task α) (result : Except RunError α) (act : Act) : Pool α :=
  let p := p.put i t (.ended result) act
  { p with failures := p.failures ++ failureOf result }

def report (p : Pool α) (i : Nat) (t : Task α) (e : Event) (next : Script α) : Pool α :=
  match e with
  | .found path =>
    let (newHere, found) := t.found.add path
    if newHere then
      let (new, matched) := p.matched.add path
      let p := p.put i { t with found := found } (.ready next) (.add path new)
      { p with matched := matched }
    else p.put i t (.ready next) (.report e)
  | e => p.put i t (.ready next) (.report e)

def step (p : Pool α) (i : Nat) : Pool α :=
  match p.tasks[i]? with
  | none => p
  | some t =>
    match t.phase with
    | .ended _ => p
    | .ready (.done a) => p.stop i t (.ok a) .stop
    | .ready (.fail e) => p.stop i t (.error (.walk e)) .stop
    | .ready (.report e next) => p.report i t e next
    | .ready (.ask q next) =>
      match p.cache.check q with
      | (some a, c) => { p.put i t (.ready (next a)) (.hit q a) with cache := c }
      | (none, c) => { p.put i t (.missed q next) (.miss q) with cache := c }
    | .missed q next =>
      match p.host.answer q with
      | .ok a => p.put i t (.computed q a next) (.compute q a)
      | .error _ => p.stop i t (.error .null) (.refuse q)
    | .computed q a next =>
      let (b, c) := p.cache.store q a
      { p.put i t (.ready (next b)) (.store q b) with cache := c }

def move (p : Pool α) : Move → Pool α
  | .step i => p.step i
  | .clear => { p with cache := p.cache.clear }
  | .change h => { p with host := h }

def run (p : Pool α) (moves : List Move) : Pool α := moves.foldl move p

end Pool

/-- Runs what is left of a task without a pause. -/
def Phase.complete {α : Type} (h : Host) (c : Cache) : Phase α → Run Cache α
  | .ready s => s.runCached h c
  | .missed q next =>
    match h.answer q with
    | .ok a =>
      let (b, c) := c.store q a
      (next b).runCached h c
    | .error _ => ⟨[], .error .null, c⟩
  | .computed q a next =>
    let (b, c) := c.store q a
    (next b).runCached h c
  | .ended result => ⟨[], result, c⟩

namespace Pool

variable {α : Type}

/-- Completes a task without letting others take a step. Of its steps only those are noted that report
something, and the last. -/
def complete (p : Pool α) (i : Nat) : Pool α :=
  match p.tasks[i]? with
  | none => p
  | some t =>
    match t.phase with
    | .ended _ => p
    | phase =>
      let r := phase.complete p.host p.cache
      let found := t.found.addAll (Event.paths r.events)
      { p with
        cache := r.state
        matched := p.matched.addAll (found.toList.drop t.found.size)
        tasks := p.tasks.set i ⟨.ended r.result, found⟩
        failures := p.failures ++ failureOf r.result
        history := p.history ++ r.events.map (fun e => (i, .report e)) ++ [(i, .stop)] }

/-- Completes all tasks one after another. -/
def finish (p : Pool α) : Pool α := (List.range p.tasks.length).foldl complete p

/-- What tasks have reported, oldest first. -/
def reports (p : Pool α) : List Event :=
  p.history.filterMap fun
    | (_, .report e) => some e
    | (_, .add path _) => some (.found path)
    | _ => none

end Pool

end PathGlob
