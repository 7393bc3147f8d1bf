import TraceWeave.Tracing.Walk

/-!
Functions that a trace starts at: the entry function, HTTP handlers and methods of
gRPC services.
-/

namespace TraceWeave.Detect

open TraceWeave.Agent TraceWeave.Program TraceWeave.Syntax TraceWeave.Tracing TraceWeave.Types

/-- The walk of a family that is deep enough for an application. -/
def fullWalk (walks : Nat → Walk) : Weave Walk := return walks (← get).depth

/-! ## The entry function -/

/-- The variable that a body binds the agent to. -/
def existingAgent? (stmts : List Stmt) : Option String := stmts.findSome? agentBinding?

/-- The names that a `:=` introduces, if it assigns to names only. -/
def definedNames? (stmt : Stmt) : Option (List String) :=
  match stmt.kind with
  | .assign left .define _ =>
      if left.all (·.ident?.isSome) then
        some (((left.filterMap Expr.ident?).filter (!·.isBlank)).map (·.name))
      else none
  | _ => none

/-- Makes a `:=` an assignment. -/
def assignOnly (stmt : Stmt) : Stmt :=
  match stmt.kind with
  | .assign left _ right => { stmt with kind := .assign left .assign right }
  | _ => stmt

/-- Makes every `:=` an assignment whose names are declared in front of it. -/
def lowerRedeclarations : (declared : List String) → List Stmt → List Stmt
  | _, [] => []
  | declared, stmt :: stmts =>
      match definedNames? stmt with
      | none => stmt :: lowerRedeclarations declared stmts
      | some names =>
          let lowered :=
            if !names.isEmpty && names.all declared.contains then assignOnly stmt else stmt
          lowered :: lowerRedeclarations (declared ++ names) stmts

/-- Starts and stops the agent in the entry function, unless it does so itself. -/
def setUpAgent (ref : FuncRef) (body : Block) : Weave (Block × String) := do
  match existingAgent? body.stmts with
  | some agent => return (body, agent)
  | none =>
      let app ← get
      let stmts := lowerRedeclarations [app.agent, "err"] body.stmts
      Weave.needImport ref.package Path.newrelic
      Weave.needImport ref.package Path.time
      return ({ body with
        stmts := agentInit app.agent app.appName ++ stmts ++ [agentShutdown app.agent] }, app.agent)

/-- The function is the entry function of a program. -/
def isEntryPoint (app : Application) (ref : FuncRef) : Bool :=
  ref.key == "main" &&
    (app.package? ref.package).any (fun package => package.name == "main" && !package.test) &&
    !app.isGenerated ref

/-- Sets up the agent in the entry function of a program and traces it. -/
def traceMain (walks : Nat → Walk) (ref : FuncRef) : Weave Bool := do
  let app ← get
  if !isEntryPoint app ref || (app.body? ref).isNone then return false
  let walk ← fullWalk walks
  modify (·.markTraced ref)
  Weave.withBody ref fun body => do
    modify (·.noteEntered ref)
    let (body, agent) ← setUpAgent ref body
    let frame := (Frame.main ref.package agent).declare agent
    let (body, _) ← (traceBody walk body).run frame
    return body

/-! ## HTTP handlers -/

/-- The request parameter of a function that has the signature of a handler. -/
def requestParam? (info : Info) (params : FieldList) : Option String :=
  match params.params with
  | [(_, writer), (some request, type)] =>
      if (paramType? info writer).any (·.isNamed Path.netHttp "ResponseWriter") &&
          (paramType? info type).any (·.isPointerTo Path.netHttp "Request") &&
          !request.isBlank then
        some request.name
      else none
  | _ => none

/-- Traces a handler with the transaction of its request's context. -/
def traceHandler (walks : Nat → Walk) (ref : FuncRef) : Weave Bool := do
  let app ← get
  if !app.mayInstrument ref then return false
  match (app.func? ref).bind fun func => requestParam? app.types func.params with
  | none => return false
  | some request =>
      let walk ← fullWalk walks
      Weave.needImport ref.package Path.newrelic
      modify (·.markTraced ref)
      let binding :=
        bindFromContext transactionVariable (methodCall (.ident request) "Context" [])
      traceFunction walk ref (.withBinding ref.package app.agent transactionVariable binding)
      return true

/-! ## Methods of services -/

/-- The stream that a method serves, or else its context. -/
def serviceCarrier? (app : Application) (params : FieldList) : Option Carrier :=
  let typed := params.params.filterMap fun (name, type) =>
    (name.filter (!·.isBlank)).bind fun name =>
      (paramType? app.types type).map fun type => (name.name, type)
  let stream := typed.find? fun (_, type) => isServerStream app.facts type
  let context := typed.find? fun (_, type) => type == contextTy
  match stream, context with
  | some (name, type), _ => some (.stream name type)
  | none, some (name, _) => some (.context name)
  | none, none => none

/-- The function is a method of a type that is registered as a service. -/
def isServiceMethod (app : Application) (ref : FuncRef) (func : FuncDecl) : Bool :=
  match func.receiverType?, app.package? ref.package with
  | some type, some package =>
      app.facts.get? (package.path ++ "." ++ type) == some .serverHandler
  | _, _ => false

/-- Traces a method of a service with the transaction that the interceptors started. -/
def traceServiceMethod (walks : Nat → Walk) (ref : FuncRef) : Weave Bool := do
  let app ← get
  if !app.mayInstrument ref then return false
  match app.func? ref with
  | none => return false
  | some func =>
      if !isServiceMethod app ref func then return false
      match serviceCarrier? app func.params with
      | none => return false
      | some carrier =>
          let walk ← fullWalk walks
          modify (·.markTraced ref)
          traceFunction walk ref (.traced ref.package app.agent carrier transactionVariable)
          return true

/-! ## The detectors -/

/-- A detector that decides whether a trace starts at a function. -/
structure RootDetector where
  name : String
  /-- The result says whether the function was instrumented. -/
  detect : FuncRef → Weave Bool

/-- The detectors that trace with the walks of a family, one for each depth. -/
def rootDetectorsWith (walks : Nat → Walk) : List RootDetector :=
  [⟨"entry point", traceMain walks⟩, ⟨"http handler", traceHandler walks⟩,
   ⟨"grpc server method", traceServiceMethod walks⟩]

def rootDetectors : List RootDetector := rootDetectorsWith walkBlock

/-- A detector that needs no transaction; it gets the package of the statement. -/
structure PlainDetector where
  name : String
  detect : String → Cursor → Weave Cursor

def plainDetectors : List PlainDetector :=
  [⟨"http client", installRoundTripper⟩, ⟨"http helper", adviseHelpers⟩,
   ⟨"grpc client", interceptClients⟩]

end TraceWeave.Detect
