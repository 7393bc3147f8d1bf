import TraceWeave.Program.Failure
import TraceWeave.Program.Imports

/-!
The modules of new imports, which have to be fetched.
-/

namespace TraceWeave.Program

open TraceWeave.Source TraceWeave.Syntax

/-- Fetches the module of an import for a directory, or says why it cannot. -/
abbrev Fetcher := AddedImport → Option Failure

/-- The failure of a command that fetches a module. -/
def fetchFailure (tool path detail : String) : Failure :=
  .moduleResolver (tool ++ " get " ++ path) detail

/-- The fetcher of a system that lacks the tool. -/
def missingTool (tool : String) : Fetcher := fun added =>
  some (fetchFailure tool added.path "No such file or directory (os error 2)")

/-- The fetcher that fetches nothing. -/
def fetchNothing : Fetcher := fun _ => none

/-- Fetches the imports in order up to a first failure; yields what was asked for. -/
def fetchUntilFailure (fetcher : Fetcher) : List AddedImport → List AddedImport × Option Failure
  | [] => ([], none)
  | added :: rest =>
      match fetcher added with
      | some failure => ([added], some failure)
      | none =>
          let (asked, failure) := fetchUntilFailure fetcher rest
          (added :: asked, failure)

/-- Fetches the imports that are not of the standard library. -/
def fetchModules (fetcher : Fetcher) (imports : List AddedImport) :
    List AddedImport × Option Failure :=
  fetchUntilFailure fetcher (imports.filter fun added => !isStandardPath added.path)

end TraceWeave.Program
