import TraceWeave.Order.Sorted
import TraceWeave.Order.Table
import TraceWeave.Source.Path
import TraceWeave.Syntax.Printer

/-!
Packages: their files and the table of their functions.
-/

namespace TraceWeave.Program

open TraceWeave.Order TraceWeave.Source TraceWeave.Syntax

structure SourceFile where
  path : Path
  /-- The contents as they were read. -/
  contents : String
  /-- The tree as it was read, printed. -/
  baseline : String
  tree : File
  /-- Marked as the output of a tool, and never changed. -/
  generated : Bool

/-- A file is changed once its tree prints differently. -/
def SourceFile.isChanged (file : SourceFile) : Bool := file.tree.print != file.baseline

/-- Where a function is declared, and whether tracing has reached it. -/
structure FuncEntry where
  file : Nat
  decl : Nat
  traced : Bool := false
  deriving DecidableEq, Repr

structure Package where
  id : String
  /-- The import path that its names are resolved under. -/
  path : String
  name : String
  dir : Path
  files : List SourceFile
  /-- Functions by key. -/
  funcs : Table String FuncEntry := {}
  /-- The imports that its instrumentation needs, in order. -/
  imports : List String := []
  test : Bool

namespace Package

/-- The declaration at a place of a file. -/
def declAt? (package : Package) (file decl : Nat) : Option FuncDecl :=
  ((package.files[file]?).bind (·.tree.decls[decl]?)).bind Decl.func?

def func? (package : Package) (key : String) : Option FuncDecl :=
  (package.funcs.get? key).bind fun entry => package.declAt? entry.file entry.decl

/-- The file that declares a function. -/
def fileOf? (package : Package) (key : String) : Option SourceFile :=
  (package.funcs.get? key).bind fun entry => package.files[entry.file]?

/-- Changes the declaration of a function. -/
def modifyFunc (package : Package) (key : String) (f : FuncDecl → FuncDecl) : Package :=
  match package.funcs.get? key with
  | none => package
  | some entry =>
      { package with
        files := package.files.modify entry.file fun file =>
          { file with tree := { file.tree with
              decls := file.tree.decls.modify entry.decl (Decl.mapFunc f) } } }

/-- Functions that no call can name, or that no table can tell apart. -/
def isUnlisted (key : String) : Bool := key == "init" || key == "_"

/-- Enters the function that is declared at a place into the table. -/
def register (package : Package) (file decl : Nat) : Package :=
  match package.declAt? file decl with
  | none => package
  | some func =>
      if isUnlisted func.key then package
      else { package with funcs := package.funcs.insert func.key { file, decl } }

/-- The places of all declarations. -/
def declPlaces (package : Package) : List (Nat × Nat) :=
  package.files.zipIdx.flatMap fun (file, index) =>
    (List.range file.tree.decls.length).map fun decl => (index, decl)

def registerAll (package : Package) : Package :=
  package.declPlaces.foldl (fun package (file, decl) => package.register file decl) package

/-- Notes that a function has been reached by tracing. -/
def markTraced (package : Package) (key : String) : Package :=
  { package with funcs := package.funcs.modify key fun entry => { entry with traced := true } }

def needImport (package : Package) (path : String) : Package :=
  { package with imports := insertSorted path package.imports }

end Package

end TraceWeave.Program
