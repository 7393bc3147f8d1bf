import TraceWeave.Agent.Advisory
import TraceWeave.Program.Console
import TraceWeave.Program.Fact
import TraceWeave.Program.Package
import TraceWeave.Syntax.Walk
import TraceWeave.Types.Info

/-!
The application that is being instrumented.
-/

namespace TraceWeave.Program

open TraceWeave.Agent TraceWeave.Order TraceWeave.Syntax TraceWeave.Types

/-- A function of the application: the id of its package and its key. -/
structure FuncRef where
  package : String
  key : String
  deriving DecidableEq, Ord, Repr, Inhabited

structure Application where
  /-- Packages by id. -/
  packages : Table String Package
  types : Info
  facts : Facts := {}
  /-- Functions that gained a parameter for the transaction. -/
  extended : List FuncRef := []
  /-- Functions that generated files call, so that their parameters must stay. -/
  pinned : List FuncRef := []
  /-- Functions whose bodies tracing has gone into, the latest first. -/
  entered : List FuncRef := []
  /-- The variable of the agent's application. -/
  agent : String
  /-- The name to report under; empty to leave it to the environment. -/
  appName : String
  console : Console := {}

namespace Application

/-- An application of packages; of two with the same id, the later one counts. -/
def ofPackages (packages : List Package) (types : Info) (agent appName : String) : Application :=
  { packages := .ofList (packages.map fun package => (package.id, package)), types, agent, appName }

def package? (app : Application) (id : String) : Option Package := app.packages.get? id

def modifyPackage (app : Application) (id : String) (f : Package → Package) : Application :=
  { app with packages := app.packages.modify id f }

/-! ## Functions -/

/-- All functions, by package and key. -/
def refs (app : Application) : List FuncRef :=
  app.packages.entries.flatMap fun (id, package) =>
    package.funcs.keys.map fun key => { package := id, key }

def entry? (app : Application) (ref : FuncRef) : Option FuncEntry :=
  (app.package? ref.package).bind (·.funcs.get? ref.key)

def func? (app : Application) (ref : FuncRef) : Option FuncDecl :=
  (app.package? ref.package).bind (·.func? ref.key)

def modifyFunc (app : Application) (ref : FuncRef) (f : FuncDecl → FuncDecl) : Application :=
  app.modifyPackage ref.package (·.modifyFunc ref.key f)

def body? (app : Application) (ref : FuncRef) : Option Block := (app.func? ref).bind (·.body)

def setBody (app : Application) (ref : FuncRef) (body : Option Block) : Application :=
  app.modifyFunc ref fun func => { func with body }

def markTraced (app : Application) (ref : FuncRef) : Application :=
  app.modifyPackage ref.package (·.markTraced ref.key)

/-- Notes that tracing goes into the body of a function. -/
def noteEntered (app : Application) (ref : FuncRef) : Application :=
  { app with entered := ref :: app.entered }

def needImport (app : Application) (package path : String) : Application :=
  app.modifyPackage package (·.needImport path)

def markExtended (app : Application) (ref : FuncRef) : Application :=
  { app with extended := insertSorted ref app.extended }

/-- The function is declared in a generated file. -/
def isGenerated (app : Application) (ref : FuncRef) : Bool :=
  ((app.package? ref.package).bind (·.fileOf? ref.key)).any (·.generated)

/--
Tracing may enter the function and change it: it has a body of its own, no
generated file is concerned, and it has not been entered before.
-/
def mayInstrument (app : Application) (ref : FuncRef) : Bool :=
  match app.package? ref.package, app.entry? ref with
  | some package, some entry =>
      !entry.traced && !package.test && ref.key != "main" && !app.pinned.contains ref &&
        (package.fileOf? ref.key).any (!·.generated) &&
        (app.func? ref).any (·.body.isSome)
  | _, _ => false

/-! ## Calls -/

/-- The key of the function that a call aims at. -/
def calleeKey (callee : Callee) : String :=
  match callee.receiver with
  | some receiver => receiver ++ "." ++ callee.name
  | none => callee.name

/--
The function of the application that a call aims at.  In a test, the package
under test is searched too.
-/
def resolve? (app : Application) (call : Call) (forTest : Option String := none) :
    Option FuncRef :=
  (app.types.callee? call).bind fun callee =>
    let key := calleeKey callee
    (callee.package :: forTest.toList).findSome? fun id =>
      (app.package? id).bind fun package =>
        if package.funcs.contains key then some { package := package.id, key } else none

/-- The calls that a statement makes itself, outside blocks and function literals. -/
def ownCalls (stmt : Stmt) : List Call :=
  stmt.ownExprs.flatMap fun expr => (expr.parts false).filterMap Expr.call?

/-- The functions of the application that a statement calls itself. -/
def calledBy (app : Application) (stmt : Stmt) (forTest : Option String := none) : List FuncRef :=
  (ownCalls stmt).filterMap (app.resolve? · forTest)

/-- All calls in the body of a function. -/
def callsOf (func : FuncDecl) : List Call :=
  (partsOfStmts ((func.body.map (·.stmts)).getD [])).filterMap Expr.call?

/-! ## Preparation -/

def registerFunctions (app : Application) : Application :=
  { app with packages := app.packages.map Package.registerAll }

/-- The functions that the generated files of a package call. -/
def generatedCallees (app : Application) (package : Package) : List FuncRef :=
  let forTest := if package.test then some package.path else none
  (package.files.filter (·.generated)).flatMap fun file =>
    (file.tree.funcs.flatMap callsOf).filterMap (app.resolve? · forTest)

/-- Generated files are not changed, so what they call must keep its parameters. -/
def pinGeneratedCallees (app : Application) : Application :=
  { app with pinned := sortedDistinct (app.packages.values.flatMap app.generatedCallees) }

end Application

/-! ## Changing the application -/

/-- A change of the application that yields a value. -/
abbrev Weave := StateM Application

namespace Weave

def needImport (package path : String) : Weave Unit := modify (·.needImport package path)

/-- Attaches an advisory to a statement and tells the user, unless it is attached already. -/
def attach (advisory : Advisory) (stmt : Stmt) : Weave Stmt :=
  match advisory.attach? stmt with
  | none => pure stmt
  | some stmt => do
      modify fun app => { app with console := app.console.warn advisory.message }
      return stmt

/-- Changes a body while the application has none in its place. -/
def withBody (ref : FuncRef) (f : Block → Weave Block) : Weave Bool := do
  match (← get).body? ref with
  | none => return false
  | some body =>
      modify (·.setBody ref none)
      let body ← f body
      modify (·.setBody ref (some body))
      return true

end Weave

end TraceWeave.Program
