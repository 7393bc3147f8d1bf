import TraceWeave.Agent.Layout
import TraceWeave.Detect.Calls
import TraceWeave.Syntax.Cursor
import TraceWeave.Tracing.Frame

/-!
The first query of a database in the entry function, which runs inside a
transaction that its context carries.
-/

namespace TraceWeave.Detect

open TraceWeave.Agent TraceWeave.Syntax TraceWeave.Tracing TraceWeave.Types

/-- The variable of a database that a statement opens. -/
def openedDatabase? (info : Info) (stmt : Stmt) : Option String :=
  match primaryCall? stmt with
  | none => none
  | some call =>
      if callsFunc info Path.databaseSql ["Open"] call then
        (assignedNames stmt).head?.filter (· != "_")
      else none

def queryMethods : List String := ["QueryRow", "Query", "Exec"]

/-- The method by which a statement queries a database. -/
def queryMethod? (info : Info) (database : String) (stmt : Stmt) : Option String :=
  (primaryCall? stmt).bind fun call =>
    if call.callee.selector?.any fun (operand, _) => operand.isIdent database then
      (info.callee? call).bind fun callee =>
        queryMethods.find? (callee.isMethod Path.databaseSql "DB")
    else none

/-- The variant of a query that takes a context. -/
def queryWithContext (method : String) (call : Call) : Call :=
  let callee :=
    match call.callee.kind with
    | .selector operand _ =>
        { call.callee with kind := .selector operand { name := method ++ "Context" } }
    | _ => call.callee
  let before := ((call.args.head?).map (·.decs.before)).getD .sameLine
  let ctx := { Expr.ident contextVariable with decs := { before } }
  { call with callee, args := ctx :: call.args }

/-- The last statement that reads one of the names. -/
def lastUse? (names : List String) (stmts : List Stmt) : Option Nat :=
  (stmts.zipIdx.reverse.find? fun (stmt, _) => names.any stmt.mentions).map (·.2)

/-- Ends the transaction of a query behind the last use of its results. -/
def endQuery (offset : Nat) (cursor : Cursor) : Cursor :=
  let after := ((cursor.rest[offset]?).map (·.decs.after)).getD .sameLine
  let ending := endTransaction transactionVariable
  let ending := { ending with decs := { ending.decs with after } }
  let rest := cursor.rest.modify offset fun stmt => { stmt with decs := stmt.decs.withoutAfter }
  ({ cursor with rest }).insertLater offset ending

/-- Runs a query inside a transaction. -/
def runInTransaction (method : String) (cursor : Cursor) : Trace Cursor := do
  modify fun frame => { frame with queried := true }
  let results := (assignedNames cursor.current).filter (· != "_")
  let last := lastUse? results cursor.rest
  let stmt := mapPrimaryCall (queryWithContext method) cursor.current
  let frame ← get
  let start :=
    startTransaction frame.agent transactionVariable method (frame.isDeclared transactionVariable)
  modify (·.declare transactionVariable)
  let background := Expr.call (.qualified "context" "Background") []
  let bindContext ←
    modifyGet (Frame.bind · contextVariable (newContext background (.ident transactionVariable)))
  let (start, stmt, ending) := surround start stmt (endTransaction transactionVariable)
  let cursor := ((cursor.replace stmt).insertBefore start).insertBefore bindContext
  Trace.needImport Path.newrelic
  Trace.needImport Path.context
  match last with
  | some offset =>
      modify (·.startTransaction transactionVariable)
      return endQuery offset cursor
  | none => return cursor.insertAfter ending

def traceQuery (cursor : Cursor) : Trace Cursor := do
  let frame ← get
  let info ← Trace.types
  if !frame.inMain then return cursor
  match openedDatabase? info cursor.current with
  | some database =>
      modify fun frame => { frame with database := some database }
      return cursor
  | none =>
      if frame.queried || frame.hasTransaction then return cursor
      match frame.database.bind (queryMethod? info · cursor.current) with
      | none => return cursor
      | some method => runInTransaction method cursor

end TraceWeave.Detect
