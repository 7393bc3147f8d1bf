import TraceWeave.Program.Application
import TraceWeave.Syntax.Edit

/-!
Calls of functions that gained a parameter.

Where tracing did not reach a call, it passes `nil` for the transaction.
-/

namespace TraceWeave.Program

open TraceWeave.Syntax TraceWeave.Types

/--
The number of parameters of the extended functions, by package path and key.  Of
two packages with the same path, the later one comes first.
-/
def extendedArities (app : Application) : List ((String × String) × Nat) :=
  app.extended.reverse.filterMap fun ref =>
    (app.package? ref.package).bind fun package =>
      (package.func? ref.key).map fun func => ((package.path, ref.key), func.params.arity)

/-- The only argument is a call that yields several values. -/
def spreadsResults (info : Info) (call : Call) : Bool :=
  match call.args with
  | [arg] => arg.call?.any fun inner => (info.resultsOf inner).length > 1
  | _ => false

/-- The call lacks exactly the last argument of an extended function. -/
def lacksTransaction (info : Info) (arities : List ((String × String) × Nat)) (call : Call) :
    Bool :=
  !call.spread && !spreadsResults info call &&
    ((info.callee? call).bind fun callee =>
      arities.lookup (callee.package, Application.calleeKey callee)).any fun arity =>
        call.args.length + 1 == arity

/-- Appends the missing argument of a call and counts it. -/
def fixCall (info : Info) (arities : List ((String × String) × Nat)) (call : Call) :
    StateM Nat Call := do
  if lacksTransaction info arities call then
    modify (· + 1)
    return call.addArg .nil
  else return call

def fixDecl (info : Info) (arities : List ((String × String) × Nat)) (decl : Decl) :
    StateM Nat Decl := do
  match decl.kind with
  | .func ⟨receiver, name, typeParams, params, results, some body⟩ =>
      let stmts ← editStmts (Edits.calls true (fixCall info arities)) body.stmts
      return { decl with
        kind := .func ⟨receiver, name, typeParams, params, results, some { body with stmts }⟩ }
  | _ => return decl

def fixFile (info : Info) (arities : List ((String × String) × Nat)) (file : SourceFile) :
    StateM Nat SourceFile := do
  if file.generated then return file
  else
    let decls ← file.tree.decls.mapM (fixDecl info arities)
    return { file with tree := { file.tree with decls } }

def fixPackage (info : Info) (arities : List ((String × String) × Nat)) (package : Package) :
    StateM Nat Package :=
  return { package with files := ← package.files.mapM (fixFile info arities) }

/-- Completes the calls of extended functions in all files that may change; counts them. -/
def fixCallSites (app : Application) : Application × Nat :=
  let arities := extendedArities app
  let (entries, count) := (app.packages.entries.mapM fun (id, package) =>
    return (id, ← fixPackage app.types arities package) : StateM Nat _).run 0
  ({ app with packages := ⟨entries⟩ }, count)

end TraceWeave.Program
