import TraceWeave.Program.Application
import TraceWeave.Program.Failure
import TraceWeave.Source.Generated
import TraceWeave.Source.Ignore
import TraceWeave.Syntax.Reader
import TraceWeave.Types.Resolve

/-!
Loading an application: its files, its packages and their types.

Files are grouped by their folder and their package clause.  Tests that belong
to the package they test form a group of their own.
-/

namespace TraceWeave.Source

open TraceWeave.Order TraceWeave.Program TraceWeave.Syntax TraceWeave.Types

/-! ## Files -/

/-- Folders that hold no code of the application. -/
def isForeignFolder (name : String) : Bool := name == "vendor" || name == "testdata"

def isSourceName (name : String) : Bool := name.endsWith ".go" && !name.startsWith "_"

mutual

/-- The source files below a node at a place. -/
def sourcesBelow (levels : List IgnoreLevel) (parts : List String) : Node → List (List String)
  | .file _ => if parts.getLast?.any isSourceName then [parts] else []
  | .folder entries =>
      sourcesOfEntries (IgnoreLevel.ofFolder parts (.folder entries) :: levels) parts entries

/-- The source files of entries that no rule leaves out. -/
def sourcesOfEntries (levels : List IgnoreLevel) (parts : List String) :
    List Entry → List (List String)
  | [] => []
  | ⟨name, node⟩ :: entries =>
      let skipped :=
        isIgnored levels (parts ++ [name]) node.isFolder || (node.isFolder && isForeignFolder name)
      (if skipped then [] else sourcesBelow levels (parts ++ [name]) node) ++
        sourcesOfEntries levels parts entries

end

/-- The rules of the folders above a place, nearest first. -/
def levelsAbove (node : Node) (parts : List String) : List IgnoreLevel :=
  ((List.range parts.length).map fun depth =>
    let above := parts.take depth
    IgnoreLevel.ofFolder above ((node.find? above).getD (.folder []))).reverse

/-- The source files of an application, in order. -/
def sourceFiles (disk : Node) (root : Path) : Except Failure (List Path) :=
  match disk.at? root with
  | none =>
      .error (.walk (root.text ++ ": IO error for operation on " ++ root.text ++
        ": No such file or directory (os error 2)"))
  | some node =>
      let levels := if node.isFolder then levelsAbove disk root.parts else []
      .ok (sortedDistinct ((sourcesBelow levels root.parts node).map fun parts =>
        { root with parts }))

/-! ## Packages -/

/-- The module path that the application declares, or else the name of its folder. -/
def modulePath (disk : Node) (root : Path) : String :=
  ((disk.textAt? (root.child "go.mod")).bind declaredModule?).getD (root.name?.getD "app")

/-- The import path of a folder. -/
def importPath (module : String) (root dir : Path) : String :=
  let rest := ((dir.relativeTo? root).map Path.text).getD ""
  if rest.isEmpty || rest == "." then module else module ++ "/" ++ rest

/-- Reads one file; names are numbered on. -/
def readSource (disk : Node) (path : Path) : StateT Nat (Except Failure) SourceFile := do
  match disk.textAt? path with
  | none => throw (.read path.text "stream did not contain valid UTF-8")
  | some contents =>
      match (File.read? contents).run (← get) with
      | none => throw (.parse path.text none)
      | some (tree, next) =>
          set next
          return { path, contents, baseline := tree.print, tree, generated := isGenerated contents }

/-- A test inside the package that it tests. -/
def isInternalTest (file : SourceFile) : Bool :=
  file.path.name?.any (·.endsWith "_test.go") && !file.tree.package.endsWith "_test"

/-- What the files of a package have in common. -/
structure PackageKey where
  dir : Path
  name : String
  internalTest : Bool
  deriving DecidableEq, Ord

namespace PackageKey

theorem compare_eq : (compare : PackageKey → PackageKey → Ordering) =
    compareLex (compareOn (·.dir)) (compareLex (compareOn (·.name)) (compareOn (·.internalTest))) := by
  funext key other
  obtain ⟨dir, name, internalTest⟩ := key
  obtain ⟨dir', name', internalTest'⟩ := other
  show (compare dir dir').then
    ((compare name name').then ((compare internalTest internalTest').then .eq)) = _
  rw [Ordering.then_eq]
  rfl

instance : Std.TransOrd PackageKey := by
  unfold Std.TransOrd
  rw [compare_eq]
  infer_instance

instance : Std.LawfulEqOrd PackageKey where
  eq_of_compare {key other} h := by
    rw [compare_eq, compareLex, Ordering.then_eq_eq, compareLex, Ordering.then_eq_eq] at h
    cases key
    cases other
    simpa [compareOn] using h

end PackageKey

def packageKey (file : SourceFile) : PackageKey :=
  { dir := file.path.parent, name := file.tree.package, internalTest := isInternalTest file }

/-- Groups files by their packages, in order. -/
def groupFiles (files : List SourceFile) : List (PackageKey × List SourceFile) :=
  let add (groups : Table PackageKey (List SourceFile)) (file : SourceFile) :=
    let key := packageKey file
    groups.insert key ((groups.get? key).getD [] ++ [file])
  (files.foldl add {}).entries

def makePackage (module : String) (root : Path) (key : PackageKey) (files : List SourceFile) :
    Package :=
  let base := importPath module root key.dir
  if key.internalTest then
    { id := base ++ " [test]", path := base, name := key.name, dir := key.dir, files, test := true }
  else if key.name.endsWith "_test" then
    let path := base ++ "_test"
    { id := path, path, name := key.name, dir := key.dir, files, test := true }
  else { id := base, path := base, name := key.name, dir := key.dir, files, test := false }

def makePackages (module : String) (root : Path) (groups : List (PackageKey × List SourceFile)) :
    List Package :=
  groups.map fun (key, files) => makePackage module root key files

/-- The files that names are resolved in together, by import path. -/
def packageSources (packages : List Package) : List PackageSource :=
  let add (sources : Table String PackageSource) (package : Package) :=
    let files := package.files.map (·.tree)
    match sources.get? package.path with
    | some source => sources.insert package.path { source with files := source.files ++ files }
    | none => sources.insert package.path { path := package.path, name := package.name, files }
  (packages.foldl add {}).values

structure Loaded where
  module : String
  packages : List Package
  types : Info

/-- Loads the application at a place. -/
def load (disk : Node) (root : Path) : Except Failure Loaded := do
  let module := modulePath disk root
  let paths ← sourceFiles disk root
  let (known, next) := Info.known
  let (files, _) ← (paths.mapM (readSource disk)).run next
  let packages := makePackages module root (groupFiles files)
  return { module, packages, types := known.check (packageSources packages) }

end TraceWeave.Source
