import TraceWeave.Diff.Unified
import TraceWeave.Program.Application

/-!
Patches from the contents of files to their instrumented trees.
-/

namespace TraceWeave.Program

open TraceWeave.Source

/-- The name of a file in a patch. -/
def patchName (root path : Path) : String := ((path.relativeTo? root).getD path).text

/-- The patch of a file that has changed; generated files have none. -/
def filePatch? (root : Path) (file : SourceFile) : Option String :=
  if file.generated || !file.isChanged then none
  else some (Diff.unified (patchName root file.path) file.contents file.tree.print)

/-- The packages by import path, and by id where these agree. -/
def patchOrder (packages : List Package) : List Package :=
  packages.mergeSort fun first second =>
    match compare first.path second.path with
    | .lt => true
    | .gt => false
    | .eq => compare first.id second.id != .gt

/-- The patches of all changed files. -/
def patches (root : Path) (app : Application) : List String :=
  (patchOrder app.packages.values).flatMap fun package =>
    package.files.filterMap (filePatch? root)

end TraceWeave.Program
