import PathGlob.CommandLine.Arguments

/-!
# Requests

What a command line asks for in full: what it leaves open is taken from a settings file, and what
that leaves open too has a default.
-/
namespace PathGlob.CommandLine

structure Request where
  patterns : List String
  cwd : String
  ignore : List String
  ignoreFiles : List String
  flags : Flag → Bool
  sync : Bool
  print0 : Bool
  useConfig : Bool
  verbose : Bool
  version : Bool

/-- The request that arguments alone amount to. -/
def Arguments.request (a : Arguments) : Request where
  patterns := a.patterns
  cwd := a.cwd
  ignore := a.given.ignore.getD []
  ignoreFiles := a.ignoreFiles
  flags := fun f => (a.given.flags f).getD false
  sync := a.sync
  print0 := a.print0
  useConfig := a.useConfig
  verbose := a.verbose
  version := a.version

namespace Request

/-- Takes settings over, except for those that were given before. -/
def adopt (r : Request) (given settings : Settings) : Request :=
  { r with
    flags := fun f =>
      match given.flags f with
      | some _ => r.flags f
      | none => (settings.flags f).getD (r.flags f)
    ignore :=
      match given.ignore with
      | some _ => r.ignore
      | none => settings.ignore.getD r.ignore }

/-- The options of the search, with ignore lines from files behind those of the request. -/
def options (r : Request) (fromFiles : List String) : Options where
  ignore := .several (r.ignore ++ fromFiles)
  cwd := r.cwd
  dot := r.flags .dot
  follow := r.flags .follow
  mark := r.flags .mark
  nodir := r.flags .nodir
  nounique := r.flags .nounique
  nosort := r.flags .nosort
  realpath := r.flags .realpath
  nonull := r.flags .nonull
  absolute := r.flags .absolute
  matchBase := r.flags .matchBase
  windowsPathsNoEscape := r.flags .windowsPathsNoEscape
  noglobstar := r.flags .noglobstar
  nocase := r.flags .nocase
  nobrace := r.flags .nobrace
  noext := r.flags .noext

end Request

end PathGlob.CommandLine
