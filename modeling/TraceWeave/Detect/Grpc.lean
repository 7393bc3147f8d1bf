import TraceWeave.Agent.Integration
import TraceWeave.Detect.Calls
import TraceWeave.Syntax.Cursor
import TraceWeave.Tracing.Frame

/-!
gRPC: the types that serve requests, and the interceptors of clients and servers.
-/

namespace TraceWeave.Detect

open TraceWeave.Agent TraceWeave.Program TraceWeave.Syntax TraceWeave.Tracing TraceWeave.Types

/-! ## Facts -/

/-- The stream types of gRPC itself. -/
def genericStreams : List String :=
  ["ServerStream", "ServerStreamingServer", "ClientStreamingServer", "BidiStreamingServer"]

def isGenericStream (type : Ty) : Bool :=
  type.name?.any fun (package, name) => package == Path.grpc && genericStreams.contains name

/-- The name that facts about a type are kept under. -/
def factName? (type : Ty) : Option String :=
  type.deref.name?.bind fun (package, name) =>
    if package.isEmpty then none else some (package ++ "." ++ name)

/-- Values of the type are server streams. -/
def isServerStream (facts : Facts) (type : Ty) : Bool :=
  isGenericStream type ||
    type.name?.any fun (package, name) =>
      facts.get? (package ++ "." ++ name) == some .serverStream

/-- The call registers a service, as the code that is generated for it does. -/
def isServiceRegistration (call : Call) : Bool :=
  call.args.length == 2 &&
    call.name?.any fun name => name.startsWith "Register" && name.endsWith "Server"

/-- The types that a file registers as services. -/
def registeredServices (info : Info) (file : File) : List String :=
  (file.funcs.flatMap Application.callsOf).filterMap fun call =>
    if isServiceRegistration call then
      (call.args.getLast?.bind info.typeOf?).bind factName?
    else none

/-- The specification declares a server stream. -/
def declaresStream (info : Info) (isAlias : Bool) (definition : TypeDef) : Bool :=
  let isStream (expr : Expr) : Bool := (info.typeExpr? expr).any isGenericStream
  match definition with
  | .interface embeds _ => embeds.any isStream
  | .other type => isAlias && isStream type
  | .struct _ => false

/-- The server streams that a file declares. -/
def declaredStreams (info : Info) (path : String) (file : File) : List String :=
  file.decls.flatMap fun decl =>
    match decl.kind with
    | .gen group => group.specs.filterMap fun spec =>
        match spec with
        | .type name isAlias definition =>
            if declaresStream info isAlias definition then some (path ++ "." ++ name) else none
        | _ => none
    | _ => []

/-- Classifies the services and the streams of an application. -/
def discoverFacts (app : Application) : Facts × List FactError :=
  let packages := app.packages.values
  let streams := packages.flatMap fun package =>
    package.files.flatMap fun file => declaredStreams app.types package.path file.tree
  let services := packages.flatMap fun package =>
    package.files.flatMap fun file => registeredServices app.types file.tree
  services.foldl (Facts.record .serverHandler)
    (streams.foldl (Facts.record .serverStream) (app.facts, []))

/-! ## Interceptors -/

/-- The call dials a server and has none of the agent's interceptors. -/
def dialsBare (info : Info) (call : Call) : Bool :=
  callsFunc info Path.grpc ["Dial", "DialContext", "NewClient"] call && !hasInterceptors call

/-- The call makes a server and has none of the agent's interceptors. -/
def servesBare (info : Info) (call : Call) : Bool :=
  callsFunc info Path.grpc ["NewServer"] call && !hasInterceptors call

/-- The name of the gRPC package in a call of it. -/
def grpcName (call : Call) : String := (qualifier? call).getD "grpc"

/-- Adds interceptors to one call, and notes that there was one to add them to. -/
def interceptClient (info : Info) (call : Call) : StateM Bool Call := do
  if dialsBare info call then
    set true
    return addClientInterceptors (grpcName call) call
  else return call

/-- Adds the interceptors of a client to calls that dial. -/
def interceptClients (package : String) (cursor : Cursor) : Weave Cursor := do
  let info := (← get).types
  let (stmt, changed) :=
    (cursor.current.editOwn (Edits.calls true (interceptClient info))).run false
  if changed then Weave.needImport package Path.nrgrpc
  return cursor.replace stmt

/-- Adds the interceptors of a server to calls that make one. -/
def interceptServers (cursor : Cursor) : Trace Cursor := do
  let info ← Trace.types
  if !anyOwnCall (servesBare info) cursor.current then return cursor
  match ← Trace.application with
  | none => return cursor
  | some agent =>
      Trace.needImport Path.nrgrpc
      return cursor.modify (mapOwnCalls false fun call =>
        if servesBare info call then addServerInterceptors (grpcName call) agent call else call)

end TraceWeave.Detect
