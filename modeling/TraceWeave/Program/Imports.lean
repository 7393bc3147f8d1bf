import TraceWeave.Agent.Names
import TraceWeave.Program.Application
import TraceWeave.Syntax.Imports
import TraceWeave.Syntax.Qualifiers

/-!
Imports for instrumented code: each file gains those that it refers to.
-/

namespace TraceWeave.Program

open TraceWeave.Agent TraceWeave.Order TraceWeave.Source TraceWeave.Syntax

/-- An import that some file of the package in a directory gained. -/
structure AddedImport where
  dir : Path
  path : String
  deriving DecidableEq, Ord, Repr

namespace AddedImport

theorem compare_eq : (compare : AddedImport → AddedImport → Ordering) =
    compareLex (compareOn (·.dir)) (compareOn (·.path)) := by
  funext added other
  obtain ⟨dir, path⟩ := added
  obtain ⟨dir', path'⟩ := other
  show (compare dir dir').then ((compare path path').then .eq) = _
  rw [Ordering.then_eq]
  rfl

instance : Std.TransOrd AddedImport := by
  unfold Std.TransOrd
  rw [compare_eq]
  infer_instance

instance : Std.LawfulEqOrd AddedImport where
  eq_of_compare {added other} h := by
    rw [compare_eq, compareLex, Ordering.then_eq_eq] at h
    cases added
    cases other
    simpa [compareOn] using h

end AddedImport

/-- The names in front of dots in the parameters and the body of a function. -/
def funcQualifiers (func : FuncDecl) : List String :=
  qualifiersOfFields func.params.fields ++
    qualifiersOfStmts ((func.body.map (·.stmts)).getD [])

def fileQualifiers (file : File) : List String := file.funcs.flatMap funcQualifiers

/-- The imports of a list that a file refers to and does not have. -/
def missingImports (paths : List String) (file : File) : List String :=
  let used := fileQualifiers file
  paths.filter fun path => used.contains (packageName path) && !file.hasImport path

/-- Adds the imports that the files of a package need. -/
def importInPackage (package : Package) : Package × List AddedImport :=
  let missing (file : SourceFile) : List String :=
    if file.generated then [] else missingImports package.imports file.tree
  let files := package.files.map fun file =>
    { file with tree := (missing file).foldl (fun tree path => tree.addImport path) file.tree }
  let added := package.files.flatMap fun file =>
    (missing file).map fun path => { dir := package.dir, path }
  ({ package with files }, added)

/-- Adds the needed imports everywhere; each addition to a package is listed once, in order. -/
def addImports (app : Application) : Application × List AddedImport :=
  let entries := app.packages.entries.map fun (id, package) => (id, importInPackage package)
  let added := entries.flatMap fun (_, _, added) => added
  ({ app with packages := ⟨entries.map fun (id, package, _) => (id, package)⟩ },
   sortedDistinct added)

end TraceWeave.Program
