import TraceWeave.Agent.Names
import TraceWeave.Source.Load

/-!
An application together with the disk that it was loaded from.
-/

namespace TraceWeave.Source

open TraceWeave.Agent TraceWeave.Program TraceWeave.Syntax

structure Options where
  /-- The root folder of the application. -/
  root : Path
  /-- The name to report under; empty to leave it to the environment. -/
  appName : String := ""
  /-- The variable of the agent's application. -/
  agent : String := defaultAgentVariable

structure Workspace where
  disk : Node
  root : Path
  module : String
  app : Application

namespace Workspace

/-- Loads the application of a disk. -/
def load (disk : Node) (options : Options) : Except Failure Workspace := do
  let loaded ← Source.load disk options.root
  return {
    disk
    root := options.root
    module := loaded.module
    app := .ofPackages loaded.packages loaded.types options.agent options.appName }

def files (workspace : Workspace) : List SourceFile :=
  workspace.app.packages.values.flatMap (·.files)

/-- The files as they print now, by path. -/
def printed (workspace : Workspace) : List (Path × String) :=
  workspace.files.map fun file => (file.path, file.tree.print)

/-- The disk with all files as they print now; generated ones stay. -/
def save (workspace : Workspace) : Node :=
  workspace.files.foldl (fun disk file =>
    if file.generated then disk else disk.write file.path file.tree.print.toUTF8) workspace.disk

end Workspace

end TraceWeave.Source
