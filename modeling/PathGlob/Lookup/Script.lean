import PathGlob.FileSystem.Canonical

/-!
# Lookup scripts

A script says what to look up next, given the answers so far, and what to report on the way. It can
be run directly on a host, or with a cache in between, or step by step among other scripts.
-/
namespace PathGlob

inductive Query where
  /-- What is in a directory? -/
  | list (path : String)
  /-- What is the node, a last link not followed? -/
  | lstat (path : String)
  /-- What is the node, all links followed? -/
  | stat (path : String)
  /-- What is the canonical form of a path? -/
  | realpath (path : String)
  deriving DecidableEq, Hashable, Repr

namespace Query

def path : Query → String
  | list p => p
  | lstat p => p
  | stat p => p
  | realpath p => p

/-- What answers a question. A listing that fails is an answer too. -/
abbrev Answer : Query → Type
  | list _ => Except SystemError (List Entry)
  | lstat _ => Option Status
  | stat _ => Option Status
  | realpath _ => Option String

end Query

/-- A file system's answer to a question. -/
def Host.answer (h : Host) : (q : Query) → Except NullInPath q.Answer
  | .list p =>
    if hasNull p then .error {}
    else .ok ((h.list p).mapError fun f => ⟨f, p⟩)
  | .lstat p => if hasNull p then .error {} else .ok (h.status false p).toOption
  | .stat p => if hasNull p then .error {} else .ok (h.status true p).toOption
  | .realpath p => h.canonical p

inductive Event where
  | found (path : String)
  /-- A directory is on the way to itself. -/
  | loop (dir : String)
  | unreadable (dir : String) (error : SystemError)
  deriving DecidableEq, Repr

/-- The paths among some reports, each once. -/
def Event.paths (events : List Event) : List String :=
  (events.filterMap fun
    | .found path => some path
    | _ => none).eraseDups

inductive WalkError where
  | notDirectory (root : String)
  | unreadable (root : String) (cause : SystemError)
  /-- Globstars are nested deeper than was allowed for. -/
  | tooDeep
  deriving DecidableEq, Repr

namespace WalkError

def message : WalkError → String
  | notDirectory root => "Glob root is not a directory: " ++ root
  | unreadable root cause => "Cannot read glob root " ++ root ++ ": " ++ cause.fault.text
  | tooDeep => "Directories are nested too deeply"

def root : WalkError → String
  | notDirectory root => root
  | unreadable root _ => root
  | tooDeep => ""

end WalkError

/-- Lookups, reports and a result. -/
inductive Script (α : Type) where
  | done (a : α)
  | fail (e : WalkError)
  | report (e : Event) (next : Script α)
  | ask (q : Query) (next : q.Answer → Script α)

namespace Script

variable {α β : Type}

/-- Goes on with a second script where the first is done. -/
def bind : Script α → (α → Script β) → Script β
  | done a, f => f a
  | fail e, _ => fail e
  | report e next, f => report e (next.bind f)
  | ask q next, f => ask q fun a => (next a).bind f

instance : Monad Script where
  pure := done
  bind := bind

def lookup (q : Query) : Script q.Answer := ask q done

def nothing : Script Unit := done ()

def each : List α → (α → Script Unit) → Script Unit
  | [], _ => nothing
  | a :: as, f => (f a).bind fun _ => each as f

end Script

inductive RunError where
  | walk (e : WalkError)
  /-- A path with a null character was looked up. -/
  | null
  deriving DecidableEq, Repr

/-- What a run reports, how it ends, and what it leaves behind. -/
structure Run (σ α : Type) where
  events : List Event
  result : Except RunError α
  state : σ

/-- Runs a script; `answer` looks things up and may keep a state. -/
def Script.run {σ α : Type} (answer : (q : Query) → σ → Except NullInPath q.Answer × σ) :
    Script α → σ → Run σ α
  | .done a, s => ⟨[], .ok a, s⟩
  | .fail e, s => ⟨[], .error (.walk e), s⟩
  | .report e next, s =>
    let r := next.run answer s
    ⟨e :: r.events, r.result, r.state⟩
  | .ask q next, s =>
    match answer q s with
    | (.ok a, s) => (next a).run answer s
    | (.error _, s) => ⟨[], .error .null, s⟩

/-- Runs a script on a host, with nothing in between. -/
def Script.runOn {α : Type} (h : Host) (s : Script α) : Run Unit α :=
  s.run (fun q _ => (h.answer q, ())) ()

end PathGlob
