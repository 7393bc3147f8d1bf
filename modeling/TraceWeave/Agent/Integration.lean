import TraceWeave.Agent.Transaction

/-!
Hooks into libraries: `net/http` handlers and requests, gRPC interceptors, router
middleware and log handlers.
-/

namespace TraceWeave.Agent

open TraceWeave.Syntax

/-! ## Handlers of `net/http` -/

/-- The call passes its arguments through one of the agent's wrappers. -/
def isWrappedHandler (call : Call) : Bool :=
  call.args.head?.any fun arg =>
    isQualifiedCall arg "newrelic" "WrapHandleFunc" || isQualifiedCall arg "newrelic" "WrapHandle"

/-- The agent's wrapper for a registration. -/
def handlerWrapper (call : Call) : String :=
  if call.name? == some "Handle" then "WrapHandle" else "WrapHandleFunc"

/-- Passes the pattern and the handler of a registration through the agent's wrapper. -/
def wrapHandler? (agent : Expr) (call : Call) : Option Call :=
  match call.args with
  | [pattern, handler] =>
      if isWrappedHandler call then none
      else
        let inline (arg : Expr) : Expr := { arg with decs := { arg.decs with before := .sameLine } }
        let wrapped :=
          Expr.call (newrelic (handlerWrapper call)) [agent, inline pattern, inline handler]
        some { call with args := [{ wrapped with decs := pattern.decs }] }
  | _ => none

/-! ## Requests of `net/http` -/

/-- `client.Transport = newrelic.NewRoundTripper(client.Transport)` -/
def roundTripper (client : Expr) (after : Gap) : Stmt :=
  let transport := Expr.selector client "Transport"
  let stmt := Stmt.assign [transport] [.call (newrelic "NewRoundTripper") [transport]]
  { stmt with decs := { stmt.decs with after } }

def isRoundTripper (stmt : Stmt) : Bool :=
  match stmt.kind with
  | .assign _ _ right => right.any (isQualifiedCall · "newrelic" "NewRoundTripper")
  | _ => false

/-- `segment := newrelic.StartExternalSegment(txn, req)` -/
def startExternalSegment (txn req : Expr) (segment : String) (declared : Bool) : Stmt :=
  bindVariable segment (.call (newrelic "StartExternalSegment") [txn, req]) declared

/-- `segment.End()` -/
def endExternalSegment (segment : String) : Stmt := .expr (methodCall (.ident segment) "End" [])

/-- `segment.Response = resp` -/
def captureResponse (segment : String) (resp : Expr) : Stmt :=
  .assign [.selector (.ident segment) "Response"] [resp]

/-- `req = newrelic.RequestWithTransactionContext(req, txn)` -/
def wrapRequest (req txn : Expr) : Stmt :=
  .assign [req] [.call (newrelic "RequestWithTransactionContext") [req, txn]]

/-! ## Interceptors of gRPC -/

/-- An option that installs an interceptor. -/
def interceptorOption (grpc option : String) (interceptor : Expr) : Expr :=
  .call (.qualified grpc option) [interceptor]

/-- Appends the interceptors of a client to a call that dials. -/
def addClientInterceptors (grpc : String) (call : Call) : Call :=
  (call.addArg (interceptorOption grpc "WithUnaryInterceptor"
      (.qualified "nrgrpc" "UnaryClientInterceptor"))).addArg
    (interceptorOption grpc "WithStreamInterceptor"
      (.qualified "nrgrpc" "StreamClientInterceptor"))

/-- Appends the interceptors of a server to the call that creates it. -/
def addServerInterceptors (grpc : String) (agent : Expr) (call : Call) : Call :=
  let interceptor (name : String) : Expr := .call (.qualified "nrgrpc" name) [agent]
  (call.addArg (interceptorOption grpc "UnaryInterceptor"
      (interceptor "UnaryServerInterceptor"))).addArg
    (interceptorOption grpc "StreamInterceptor" (interceptor "StreamServerInterceptor"))

/-- The expression names, or calls, a member of the agent's gRPC package. -/
def isInterceptor (expr : Expr) : Bool :=
  let target := (expr.call?.map (·.callee)).getD expr
  target.selector?.any fun (operand, _) => operand.isIdent "nrgrpc"

/-- The call passes one of the agent's interceptors. -/
def hasInterceptors (call : Call) : Bool :=
  call.args.any fun arg => arg.call?.any fun option => option.args.any isInterceptor

/-! ## Routers and log handlers -/

/-- `router.Use(package.Middleware(agent))` -/
def useMiddleware (router : Expr) (package : String) (agent : Expr) : Stmt :=
  .expr (methodCall router "Use" [.call (.qualified package "Middleware") [agent]])

def isMiddlewareUse (package : String) (stmt : Stmt) : Bool :=
  stmt.call?.any fun call =>
    call.name? == some "Use" && call.args.any (isQualifiedCall · package "Middleware")

/-- `nrslog.WrapHandler(agent, handler)` -/
def wrapLogHandler (agent handler : Expr) : Expr :=
  .call (.qualified "nrslog" "WrapHandler") [agent, handler]

def isLogHandlerWrapper (expr : Expr) : Bool := isQualifiedCall expr "nrslog" "WrapHandler"

end TraceWeave.Agent
