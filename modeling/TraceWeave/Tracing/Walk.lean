import TraceWeave.Detect.Errors
import TraceWeave.Detect.Grpc
import TraceWeave.Detect.Http
import TraceWeave.Detect.Logging
import TraceWeave.Detect.Queries
import TraceWeave.Detect.Routers

/-!
The tracing walk.

The walk goes through the body of a traced function, hands the transaction to
every function of the application that it calls, and goes on inside those that
have not been entered before.  All parts but `walkBlock` take the walk through
nested lists of statements as an argument; `walkBlock` ties the knot, up to a
number of nested lists.  A function is entered once, so that the depth of all
bodies taken together is enough.
-/

namespace TraceWeave.Tracing

open TraceWeave.Agent TraceWeave.Detect TraceWeave.Program TraceWeave.Syntax TraceWeave.Types

/-- A way to trace a list of statements. -/
abbrev Walk := List Stmt → Trace (List Stmt)

/-! ## Bodies -/

/-- Where a body binds the transaction of a context already, and to which name. -/
def existingBinding? (stmts : List Stmt) : Option (Nat × String) :=
  stmts.zipIdx.findSome? fun (stmt, index) =>
    (fromContextBinding? stmt).map fun name => (index, name)

/-- Traces a body, then puts at its top what turned out to be needed there. -/
def traceBody (walk : Walk) (body : Block) : Trace Block := do
  let existing := if (← get).pending.isSome then existingBinding? body.stmts else none
  let top ←
    match existing with
    | none => pure 0
    | some (index, name) => do
        modify fun frame => { frame with txn := name, pending := none }
        pure (index + 1)
  let hasSegment := body.stmts.any isDeferSegment
  let stmts ← walk body.stmts
  let prologue ← modifyGet (Frame.prologue · hasSegment)
  return { body with stmts := stmts.take top ++ prologue ++ stmts.drop top }

/-- Traces the body of a function in a frame of its own. -/
def traceFunction (walk : Walk) (ref : FuncRef) (frame : Frame) : Weave Unit := do
  let _ ← Weave.withBody ref fun body => do
    modify (·.noteEntered ref)
    let (body, _) ← (traceBody walk body).run frame
    return body

/-! ## Calls -/

/-- The frame of a function that a call reaches. -/
def childFrame (caller : Frame) (ref : FuncRef) (child : Option Carrier) (async : Bool) : Frame :=
  match child with
  | none => .untraced ref.package caller.agent
  | some carrier =>
      { Frame.traced ref.package caller.agent carrier transactionVariable with
        segment := some (if async then "async " ++ ref.key else ref.key) }

/-- The callee's declaration follows what became of its parameters. -/
def Passing.applyTo (passing : Passing) (ref : FuncRef) (app : Application) : Application :=
  if passing.extended then
    (app.modifyFunc ref fun func => { func with params := passing.params }).markExtended ref
  else app

/-- The packages of the caller and of the callee get the imports that they need now. -/
def Passing.addImports (passing : Passing) (caller : String) (ref : FuncRef) (app : Application) :
    Application :=
  let app := if passing.needsImport then app.needImport caller Path.newrelic else app
  if passing.extended then app.needImport ref.package Path.newrelic else app

/-- Brings the application in line with a call, and traces the callee if it may be entered. -/
def followCall (walk : Walk) (caller : Frame) (async : Bool) (ref : FuncRef) (mayEnter : Bool)
    (passing : Passing) : Weave Unit := do
  modify (passing.applyTo ref)
  if mayEnter then
    modify (·.markTraced ref)
    traceFunction walk ref (childFrame caller ref passing.child async)
  modify (passing.addImports caller.package ref)

/-- Passes the transaction into one call, and traces the callee if it is entered now. -/
def passCall (walk : Walk) (async : Bool) (call : Call) : StateT (List Advisory) Trace Call := do
  let frame ← liftM (get : Trace Frame)
  let app ← liftM Trace.app
  match app.resolve? call, frame.carrier with
  | some ref, some carrier =>
      if ref.key == "main" then return call
      match app.func? ref with
      | none => return call
      | some func =>
          let mayExtend := app.mayInstrument ref
          let passing :=
            carrier.pass app.types func.params call async mayExtend (.ident frame.txn)
          liftM (modify fun frame => { frame with used := frame.used || passing.usesTransaction } :
            Trace Unit)
          liftM (followCall walk frame async ref mayExtend passing)
          modify (· ++ passing.advisory.toList)
          return passing.call
  | _, _ => return call

/-- Passes the transaction into the calls of a statement itself. -/
def passCalls (walk : Walk) (stmt : Stmt) : StateT (List Advisory) Trace Stmt := do
  match stmt.kind with
  | .spawn value =>
      match value.call? with
      | none => return stmt
      | some call =>
          let args ← call.args.mapM (·.edit (Edits.calls false (passCall walk false)))
          let call ← passCall walk true { call with args }
          return { stmt with kind := .spawn { value with kind := .call call } }
  | _ => stmt.editOwn (Edits.calls false (passCall walk false))

/-- The first function that a statement of the entry function would take a transaction into. -/
def firstReached? (app : Application) (carrier : Carrier) (stmt : Stmt) : Option FuncRef :=
  match stmt.kind with
  | .decl _ => none
  | _ =>
      (Application.ownCalls stmt).findSome? fun call =>
        (app.resolve? call).bind fun ref =>
          if ref.key == "main" then none
          else
            (app.func? ref).bind fun func =>
              if carrier.wouldPass app.types func.params call (app.mayInstrument ref) then some ref
              else none

def isSpawn (stmt : Stmt) : Bool :=
  match stmt.kind with
  | .spawn _ => true
  | _ => false

/-- The statement runs at the end of the function or leaves it. -/
def isExit (stmt : Stmt) : Bool :=
  match stmt.kind with
  | .defer _ => true
  | .ret _ => true
  | _ => false

/-- Passes the transaction on and attaches the advisories that come of it. -/
def passAndAdvise (walk : Walk) (cursor : Cursor) : Trace Cursor := do
  let (stmt, advisories) ← (passCalls walk cursor.current).run []
  return cursor.replace (← advisories.foldlM (fun stmt advisory => Trace.attach advisory stmt) stmt)

/-- Puts a transaction of its own around a statement of the entry function. -/
def startOwnTransaction (name : String) (cursor : Cursor) : Trace Cursor := do
  let frame ← get
  let txn := transactionVariable
  let (start, stmt, ending) :=
    surround (startTransaction frame.agent txn name (frame.isDeclared txn)) cursor.current
      (endTransaction txn)
  modify fun frame => (frame.declare txn).startTransaction txn
  return ((cursor.replace stmt).insertBefore start).insertAfter ending

/--
Passes the transaction into the functions that a statement calls.  In the entry
function, the statement gets a transaction of its own first; the result says
whether it did.
-/
def traceCalls (walk : Walk) (cursor : Cursor) : Trace (Cursor × Bool) := do
  let frame ← get
  let app ← Trace.app
  let stmt := cursor.current
  if (app.calledBy stmt).all (·.key == "main") then return (cursor, false)
  if frame.inMain && isSpawn stmt then
    return (cursor.replace (← Trace.attach .goroutineInMain stmt), false)
  if frame.inMain && !frame.hasTransaction then
    if isExit stmt then return (cursor, false)
    match firstReached? app (.transaction transactionVariable) stmt with
    | none => return (cursor, false)
    | some ref =>
        let cursor ← startOwnTransaction ref.key cursor
        return (← passAndAdvise walk cursor, true)
  else return (← passAndAdvise walk cursor, false)

/-! ## Goroutines -/

/-- A spawned function literal. -/
structure SpawnedLiteral where
  value : Expr
  call : Call
  params : FieldList
  results : Option Results
  body : Block

def spawnedLiteral? (stmt : Stmt) : Option SpawnedLiteral :=
  match stmt.kind with
  | .spawn value =>
      value.call?.bind fun call =>
        match call.callee.kind with
        | .func params results body => some { value, call, params, results, body }
        | _ => none
  | _ => none

def SpawnedLiteral.kind (literal : SpawnedLiteral) : StmtKind :=
  let callee :=
    { literal.call.callee with kind := .func literal.params literal.results literal.body }
  .spawn { literal.value with kind := .call { literal.call with callee } }

/-- The parameter of a literal that holds a transaction. -/
def transactionParam? (info : Info) (params : FieldList) : Option String :=
  params.params.findSome? fun (name, type) =>
    name.bind fun name =>
      if paramType? info type == some transactionTy then some name.name else none

/-- Makes sure that a spawned literal has a transaction of its own. -/
def handTransaction (literal : SpawnedLiteral) : Trace (Option (SpawnedLiteral × String)) := do
  match transactionParam? (← Trace.types) literal.params with
  | some name => return some (literal, name)
  | none =>
      match ← Trace.transaction with
      | none => return none
      | some parent =>
          Trace.needImport Path.newrelic
          return some ({ literal with
            params := literal.params.add (transactionParameter transactionVariable)
            call := literal.call.addArg (newGoroutine parent) }, transactionVariable)

/-- Hands a goroutine of a function literal its own transaction and traces the literal. -/
def traceLiteral (walk : Walk) (cursor : Cursor) : Trace Cursor := do
  match spawnedLiteral? cursor.current with
  | none => return cursor
  | some literal =>
      let frame ← get
      if frame.inMain then
        return cursor.replace (← Trace.attach .goroutineInMain cursor.current)
      if !frame.hasTransaction || literal.params.isVariadic then return cursor
      match ← handTransaction literal with
      | none => return cursor
      | some (literal, name) =>
          let child :=
            { Frame.traced frame.package frame.agent (.transaction name) transactionVariable with
              segment := some "async literal" }
          let (body, _) ← liftM ((traceBody walk literal.body).run child)
          return cursor.modify fun stmt => { stmt with kind := { literal with body }.kind }

/-! ## Statements -/

/-- A detector that works inside the walk. -/
structure StatementDetector where
  name : String
  detect : Cursor → Trace Cursor

/-- The detectors of the walk, in the order in which they see a statement. -/
def statementDetectors (walk : Walk) : List StatementDetector :=
  [⟨"goroutine", traceLiteral walk⟩, ⟨"handler registration", wrapRegistration⟩,
   ⟨"outbound request", traceRequest⟩, ⟨"router middleware", installMiddleware⟩,
   ⟨"grpc server", interceptServers⟩, ⟨"slog handler", wrapHandlers⟩,
   ⟨"database query", traceQuery⟩]

/-- Follows the transactions that the entry function starts and ends itself. -/
def followTransaction (stmt : Stmt) (frame : Frame) : Frame :=
  match stmt.kind with
  | .assign [target] _ [value] =>
      match target.ident? with
      | some ident =>
          if value.call?.any (·.name? == some "StartTransaction") then
            frame.startTransaction ident.name
          else frame
      | none => frame
  | .expr value =>
      let ends := value.call?.any fun call =>
        call.name? == some "End" &&
          call.callee.selector?.any fun (operand, _) => operand.isIdent frame.txn
      if frame.hasTransaction && ends then frame.endTransaction else frame
  | _ => frame

/-- Lets the detectors see a statement, then walks through its blocks. -/
def finishVisit (walk : Walk) (started : Bool) (cursor : Cursor) : Trace Cursor := do
  let cursor ← (statementDetectors walk).foldlM (fun cursor detector => detector.detect cursor) cursor
  let stmt ← cursor.current.editBlocks walk
  modify fun frame =>
    let frame := frame.declareStmt stmt
    if started then frame.endTransaction
    else if frame.inMain then followTransaction stmt frame
    else frame
  return cursor.replace stmt

def visit (walk : Walk) (cursor : Cursor) : Trace Cursor := do
  let (cursor, started) ← traceCalls walk cursor
  let frame ← get
  let cursor ← if !frame.inMain && frame.hasTransaction then noticeErrors cursor else pure cursor
  finishVisit walk started cursor

/-- Traces a list of statements, at most `depth` nested lists deep. -/
def walkBlock : Nat → Walk
  | 0 => pure
  | depth + 1 => fun stmts => do
      modify Frame.pushScope
      let stmts ← walkList (stmts.length + 1) (visit (walkBlock depth)) stmts
      modify Frame.popScope
      return stmts

end TraceWeave.Tracing

namespace TraceWeave.Program.Application

open TraceWeave.Syntax

/--
The number of nested lists of statements that a walk through the body of a function
can meet.  The set-up of the agent is one list deep.
-/
def bodyDepth (func : Option FuncDecl) : Nat :=
  ((func.bind (·.body)).map fun body => depthOfStmts body.stmts + 2).getD 0

/-- The number of nested lists that a walk through all functions can meet. -/
def depth (app : Application) : Nat :=
  (app.refs.map fun ref => bodyDepth (app.func? ref)).foldr (· + ·) 0

end TraceWeave.Program.Application
