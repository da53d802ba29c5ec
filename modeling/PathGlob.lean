import PathGlob.Main
import PathGlob.Proofs.Collation.Ascii
import PathGlob.Proofs.CommandLine.Precedence
import PathGlob.Proofs.CommandLine.Printed
import PathGlob.Proofs.Glob.Brackets
import PathGlob.Proofs.Glob.Composition
import PathGlob.Proofs.Glob.Fatal
import PathGlob.Proofs.Glob.Folding
import PathGlob.Proofs.Glob.Inside
import PathGlob.Proofs.Glob.Magic
import PathGlob.Proofs.Glob.Reorder
import PathGlob.Proofs.Glob.Slash
import PathGlob.Proofs.Glob.Snapshot
import PathGlob.Proofs.Glob.Sorted
import PathGlob.Proofs.Glob.Union
import PathGlob.Proofs.Ignore.File
import PathGlob.Proofs.Lookup.Forgetting
import PathGlob.Proofs.Settings.Nearest
import PathGlob.Proofs.Walk.Absolute
import PathGlob.Proofs.Walk.Follow
import PathGlob.Proofs.Walk.Ignoring
import PathGlob.Proofs.Walk.Locked
import PathGlob.Proofs.Walk.Nesting
import PathGlob.Proofs.Walk.Reach
