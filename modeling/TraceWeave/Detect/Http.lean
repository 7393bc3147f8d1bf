import TraceWeave.Agent.Integration
import TraceWeave.Agent.Layout
import TraceWeave.Detect.Calls
import TraceWeave.Syntax.Cursor
import TraceWeave.Tracing.Frame

/-!
Registrations of handlers, clients and requests of `net/http`.
-/

namespace TraceWeave.Detect

open TraceWeave.Agent TraceWeave.Program TraceWeave.Syntax TraceWeave.Tracing TraceWeave.Types

/-! ## Registrations -/

def isRegistration (info : Info) (call : Call) : Bool :=
  callsFunc info Path.netHttp ["HandleFunc", "Handle"] call ||
    callsMethod info Path.netHttp "ServeMux" ["HandleFunc", "Handle"] call

def isLiteral (expr : Expr) : Bool :=
  match expr.kind with
  | .func _ _ _ => true
  | _ => false

/-- Sends the registration of a handler through the agent's wrapper. -/
def wrapRegistration (cursor : Cursor) : Trace Cursor := do
  match primaryCall? cursor.current with
  | none => return cursor
  | some call =>
      if call.args.length != 2 || isWrappedHandler call then return cursor
      if !isRegistration (← Trace.types) call then return cursor
      match ← Trace.application with
      | none => return cursor
      | some agent =>
          match wrapHandler? agent call with
          | none => return cursor
          | some wrapped =>
              let cursor := cursor.modify (mapPrimaryCall fun _ => wrapped)
              Trace.needImport Path.newrelic
              if call.args.getLast?.any isLiteral then
                return cursor.replace (← Trace.attach .anonymousHandler cursor.current)
              else return cursor

/-! ## Clients -/

def isClient (type : Ty) : Bool :=
  type.isPointerTo Path.netHttp "Client" || type.isNamed Path.netHttp "Client"

/-- Installs the agent's round tripper on a client that has just been made. -/
def installRoundTripper (package : String) (cursor : Cursor) : Weave Cursor := do
  match cursor.current.kind with
  | .assign [client] _ [value] =>
      let info := (← get).types
      if !(info.typeOf? value).any isClient || client.ident?.all (·.isBlank) ||
          cursor.rest.head?.any isRoundTripper then
        return cursor
      let after := cursor.current.decs.after
      let cursor := cursor.modify fun stmt => { stmt with decs := stmt.decs.withoutAfter }
      Weave.needImport package Path.newrelic
      return cursor.insertAfter (roundTripper (bare client) after)
  | _ => return cursor

/-- The functions of `net/http` that send a request which the agent cannot observe. -/
def requestHelpers : List String := ["Get", "Post", "Head", "PostForm"]

def adviseHelpers (_package : String) (cursor : Cursor) : Weave Cursor := do
  let info := (← get).types
  if anyOwnCall (callsFunc info Path.netHttp requestHelpers) cursor.current then
    return cursor.replace (← Weave.attach .httpHelper cursor.current)
  else return cursor

/-! ## Requests -/

/-- `http.DefaultClient` -/
def isDefaultClient (info : Info) (client : Expr) : Bool :=
  client.selector?.any fun (operand, member) =>
    member.name == "DefaultClient" && info.importedPath? operand == some Path.netHttp

/-- The statement is a call of a member of the agent's package, or binds the result of one. -/
def isAgentCall (name : String) (stmt : Stmt) : Bool :=
  (primaryCall? stmt).any fun call => isQualified call.callee "newrelic" name

/-- The variable that receives the response of a request. -/
def responseName? (stmt : Stmt) : Option String :=
  (assignedNames stmt).head?.filter (· != "_")

/-- Puts an external segment around a request of the default client. -/
def segmentRequest (req : Expr) (cursor : Cursor) : Trace Cursor := do
  if cursor.previous?.any (isAgentCall "StartExternalSegment") then return cursor
  match ← Trace.transaction with
  | none => return cursor
  | some txn =>
      let segment := externalSegmentVariable
      let declared := (← get).isDeclared segment
      modify (·.declare segment)
      let (start, stmt, ending) :=
        surround (startExternalSegment txn req segment declared) cursor.current
          (endExternalSegment segment)
      let captures := (responseName? cursor.current).toList.map fun name =>
        captureResponse segment (.ident name)
      Trace.needImport Path.newrelic
      return ((captures ++ [ending]).foldl Cursor.insertAfter
        ((cursor.replace stmt).insertBefore start))

/-- Attaches the transaction to a request before it is sent. -/
def attachToRequest (req : Expr) (cursor : Cursor) : Trace Cursor := do
  if req.ident?.isNone || cursor.previous?.any (isAgentCall "RequestWithTransactionContext") then
    return cursor
  match ← Trace.transaction with
  | none => return cursor
  | some txn =>
      let decs := cursor.current.decs
      let wrap := wrapRequest req txn
      let wrap :=
        { wrap with decs := { wrap.decs with before := decs.before, lead := decs.lead } }
      Trace.needImport Path.newrelic
      return (cursor.modify fun stmt =>
        { stmt with decs := stmt.decs.withoutLead }).insertBefore wrap

/-- Records the requests that a client sends. -/
def traceRequest (cursor : Cursor) : Trace Cursor := do
  if !(← get).hasTransaction then return cursor
  let info ← Trace.types
  match primaryCall? cursor.current with
  | none => return cursor
  | some call =>
      if !callsMethod info Path.netHttp "Client" ["Do"] call then return cursor
      match call.args.head? with
      | none => return cursor
      | some req =>
          let default := call.callee.selector?.any fun (client, _) => isDefaultClient info client
          if default then segmentRequest (bare req) cursor else attachToRequest (bare req) cursor

end TraceWeave.Detect
