import PathGlob.Settings.Flag

/-!
# Choices on a command line

What an option asks for, and how options are spelled. Every switch among the options can be turned
on and off.
-/
namespace PathGlob.CommandLine

inductive Choice where
  | help
  | cwd
  | ignore
  | ignoreFile
  | flag (f : Flag) (on : Bool)
  | sync
  | print0
  | noConfig
  | verbose
  | version
  deriving DecidableEq, Repr

/-- A switch's name with hyphens between its words. -/
def hyphenated (f : Flag) : String :=
  String.ofList (f.name.toList.map fun c => if c = '_' then '-' else c)

/-- How options are spelled, in the order in which they are listed. -/
def spellings : List (String × Choice) :=
  [("-h", .help), ("--help", .help), ("--cwd", .cwd), ("--ignore", .ignore),
    ("--ignore-file", .ignoreFile)] ++
  Flag.all.flatMap (fun f =>
    [("--" ++ hyphenated f, .flag f true), ("--no-" ++ hyphenated f, .flag f false)]) ++
  [("--sync", .sync), ("-0", .print0), ("--print0", .print0), ("--no-config", .noConfig),
    ("-v", .verbose), ("--verbose", .verbose), ("--version", .version)]

namespace Choice

def takesValue : Choice → Bool
  | cwd => true
  | ignore => true
  | ignoreFile => true
  | _ => false

/-- Whether two choices are made by the same option. -/
def sameOption : Choice → Choice → Bool
  | flag f _, flag g _ => f = g
  | c, d => c = d

/-- The spellings of the option that makes a choice. -/
def names (c : Choice) : String :=
  "/".intercalate ((spellings.filter fun (_, d) => c.sameOption d).map Prod.fst)

end Choice

end PathGlob.CommandLine
