import TraceWeave.Detect.Roots
import TraceWeave.Program.CallSites
import TraceWeave.Program.Modules
import TraceWeave.Program.Patch
import TraceWeave.Program.Sink
import TraceWeave.Source.Workspace

/-!
A whole run: facts about the application, tracing from its roots, the detectors
that need no transaction, call sites, imports, modules and the patch.
-/

namespace TraceWeave

open TraceWeave.Agent TraceWeave.Detect TraceWeave.Program TraceWeave.Source TraceWeave.Syntax
  TraceWeave.Tracing TraceWeave.Types

/-! ## The passes -/

/-- Some package is a program with an entry function. -/
def hasEntryPoint (app : Application) : Bool :=
  app.packages.values.any fun package =>
    !package.test && package.name == "main" && package.funcs.contains "main"

/--
Fills the tables of functions and facts.  The application is changed even where
the result is a failure.
-/
def discover (app : Application) : Application × Option Failure :=
  let app := app.registerFunctions.pinGeneratedCallees
  let (facts, conflicts) := discoverFacts app
  let app := { app with facts }
  let failures :=
    (if conflicts.isEmpty then [] else [.facts conflicts]) ++
      if hasEntryPoint app then [] else [.noEntryPoint]
  (app, Failure.combine? failures)

/-- The functions that detectors look at, by package and key. -/
def candidates (app : Application) : List FuncRef :=
  let refs := (app.packages.values.filter (!·.test)).flatMap fun package =>
    package.funcs.keys.map fun key => { package := package.id, key }
  refs.filter (!app.isGenerated ·)

/-- Lets the plain detectors see a list of statements, at most `depth` nested lists deep. -/
def sweep (package : String) : (depth : Nat) → List Stmt → Weave (List Stmt)
  | 0, stmts => pure stmts
  | depth + 1, stmts =>
      walkList stmts.length (fun cursor => do
        let cursor ← plainDetectors.foldlM (fun cursor detector => detector.detect package cursor)
          cursor
        return cursor.replace (← cursor.current.editBlocks (sweep package depth))) stmts

/-- Lets the plain detectors see a function. -/
def sweepFunction (ref : FuncRef) : Weave Unit := do
  let _ ← Weave.withBody ref fun body =>
    return { body with stmts := ← sweep ref.package (depthOfStmts body.stmts + 1) body.stmts }

/-- Lets one detector look for roots; yields the functions that it instrumented. -/
def traceRoots (detector : RootDetector) : Weave (List FuncRef) := do
  (candidates (← get)).filterM detector.detect

/-- Traces from all roots of some detectors, then sweeps all functions; yields the roots. -/
def weaveFrom (detectors : List RootDetector) : Weave (List FuncRef) := do
  let roots ← detectors.mapM traceRoots
  (candidates (← get)).forM sweepFunction
  return roots.flatten

def weave : Weave (List FuncRef) := weaveFrom rootDetectors

/-! ## Runs -/

/-- What a run changed. -/
structure Report where
  module : String
  /-- The roots of traces. -/
  instrumented : List String
  callSitesFixed : Nat
  imports : List AddedImport
  filesPatched : Nat := 0

/-- What comes of a run. -/
structure Outcome where
  result : Except Failure Report
  /-- What was written: the patches, one for each changed file. -/
  patches : List String := []
  /-- The imports whose modules were asked for. -/
  asked : List AddedImport := []
  console : Console := {}

/-- Fetches the modules of new imports, then writes the patches. -/
def Source.Workspace.deliver (workspace : Workspace) (fetcher : Fetcher) (sink : Sink)
    (app : Application) (report : Report) : Outcome :=
  let (asked, failure) := fetchModules fetcher report.imports
  match failure with
  | some failure => { result := .error failure, asked, console := app.console }
  | none =>
      let patches := patches workspace.root app
      let (written, failure) := sink.write [] patches
      let result :=
        match failure with
        | some failure => .error failure
        | none => .ok { report with filesPatched := patches.length }
      { result, patches := written, asked, console := app.console }

/-- Instruments the application of a workspace once it has passed discovery. -/
def Source.Workspace.instrumented (workspace : Workspace) (fetcher : Fetcher) (sink : Sink)
    (app : Application) : Outcome :=
  let (roots, app) := weave.run app
  let (app, callSitesFixed) := fixCallSites app
  let (app, imports) := addImports app
  workspace.deliver fetcher sink app {
    module := workspace.module
    instrumented := roots.map fun ref => ref.package ++ "." ++ ref.key
    callSitesFixed
    imports }

/-- Loads and instruments the application of a disk, and writes its patches to a sink. -/
def instrumentTo (sink : Sink) (fetcher : Fetcher) (disk : Node) (options : Options) : Outcome :=
  if !disk.isFolderAt options.root then
    { result := .error (.notADirectory options.root.text) }
  else
    match Workspace.load disk options with
    | .error failure => { result := .error failure }
    | .ok workspace =>
        match discover workspace.app with
        | (_, some failure) => { result := .error failure }
        | (app, none) => workspace.instrumented fetcher sink app

/-- Loads and instruments the application of a disk. -/
def instrument : (fetcher : Fetcher) → (disk : Node) → (options : Options) → Outcome :=
  instrumentTo .unlimited

/-! ## Runs that leave their patch on the disk -/

/-- Some folder on the way to a place is a file. -/
def Source.Node.isBlocked (node : Node) : List String → Bool
  | [] => false
  | [_] => !node.isFolder
  | name :: names => !node.isFolder || (node.child? name).any (·.isBlocked names)

/-- Makes a file empty, or says why it cannot be made. -/
def createFile (disk : Node) (path : Path) : Except String Node :=
  if disk.isFolderAt path then .error "Is a directory (os error 21)"
  else if disk.isBlocked path.parts then .error "Not a directory (os error 20)"
  else if disk.isFolderAt path.parent then .ok (disk.write path .empty)
  else .error "No such file or directory (os error 2)"

/-- What comes of a run that leaves its patch on the disk. -/
structure Execution where
  result : Except String Report
  disk : Node
  console : Console := {}

/-- Instruments an application and writes the patch to a file. -/
def execute (fetcher : Fetcher) (disk : Node) (options : Options) (patchFile : Path) :
    Execution :=
  if !disk.isFolderAt options.root then
    { result := .error (Failure.notADirectory options.root.text).message, disk }
  else
    match createFile disk patchFile with
    | .error detail =>
        { result := .error ("Failed to create " ++ patchFile.text ++ ": " ++ detail), disk }
    | .ok disk =>
        let outcome := instrument fetcher disk options
        { result := outcome.result.mapError fun failure =>
            "Failed to instrument " ++ options.root.text ++ ": " ++ failure.fullMessage
          disk := disk.write patchFile (String.join outcome.patches).toUTF8
          console := outcome.console }

end TraceWeave
