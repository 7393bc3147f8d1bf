import TraceWeave.Syntax.Walk
import TraceWeave.Agent.Names

/-!
The agent's application, its transactions and their segments.

Each constructor of a statement that must not be written twice stands beside the
test that recognises it.
-/

namespace TraceWeave.Agent

open TraceWeave.Syntax

/-! ## Calls -/

/-- A member of the agent's package. -/
def newrelic (name : String) : Expr := .qualified "newrelic" name

def methodCall (receiver : Expr) (name : String) (args : List Expr) : Expr :=
  .call (.selector receiver name) args

/-- The expression is the member of the package of that name. -/
def isQualified (expr : Expr) (package name : String) : Bool :=
  expr.selector?.any fun (operand, member) => operand.isIdent package && member.name == name

/-- The expression is a call of the member of the package. -/
def isQualifiedCall (expr : Expr) (package name : String) : Bool :=
  expr.call?.any fun call => isQualified call.callee package name

/-- Declares a variable, or assigns to it if it is declared. -/
def bindVariable (name : String) (value : Expr) (declared : Bool) : Stmt :=
  if declared then .assign [.ident name] [value] else .define [.ident name] [value]

/-! ## The application -/

/-- `agent, err := newrelic.NewApplication(…)` and the check of the error. -/
def agentInit (agent appName : String) : List Stmt :=
  let name :=
    if appName.isEmpty then []
    else [Expr.call (newrelic "ConfigAppName") [.string appName]]
  let options := name ++ [.call (newrelic "ConfigFromEnvironment") []]
  let init := Stmt.define [.ident agent, .ident "err"] [.call (newrelic "NewApplication") options]
  let check :=
    Stmt.cond (.binary (.ident "err") "!=" .nil) [.expr (.call (.ident "panic") [.ident "err"])]
  [init, { check with decs := { check.decs with after := .blankLine } }]

/-- `agent.Shutdown(5 * time.Second)` -/
def agentShutdown (agent : String) : Stmt :=
  let timeout := Expr.binary (.literal "5") "*" (.qualified "time" "Second")
  { kind := .expr (methodCall (.ident agent) "Shutdown" [timeout]),
    decs := { before := .blankLine } }

/-- The variable that a statement binds the agent's application to. -/
def agentBinding? (stmt : Stmt) : Option String :=
  match stmt.kind with
  | .assign (target :: _) _ (value :: _) =>
      if isQualifiedCall value "newrelic" "NewApplication" then target.ident?.map (·.name) else none
  | _ => none

/-! ## Transactions -/

/-- `*newrelic.Transaction` -/
def transactionType : Expr := .star (newrelic "Transaction")

/-- A parameter for a transaction. -/
def transactionParameter (name : String) : Field := .single name transactionType

/-- `txn := agent.StartTransaction("name")` -/
def startTransaction (agent txn name : String) (declared : Bool) : Stmt :=
  bindVariable txn (methodCall (.ident agent) "StartTransaction" [.string name]) declared

/-- `txn.End()` -/
def endTransaction (txn : String) : Stmt := .expr (methodCall (.ident txn) "End" [])

/-- `txn.NewGoroutine()` -/
def newGoroutine (txn : Expr) : Expr := methodCall txn "NewGoroutine" []

/-- `txn.Application()` -/
def transactionApplication (txn : String) : Expr := methodCall (.ident txn) "Application" []

/-- `defer txn.StartSegment("name").End()` -/
def deferSegment (name txn : String) : Stmt :=
  .defer (methodCall (methodCall (.ident txn) "StartSegment" [.string name]) "End" [])

def isDeferSegment (stmt : Stmt) : Bool :=
  match stmt.kind with
  | .defer value =>
      value.call?.any fun ending =>
        ending.name? == some "End" &&
          ending.callee.selector?.any fun (operand, _) =>
            operand.call?.any (·.name? == some "StartSegment")
  | _ => false

/-! ## Contexts -/

/-- The expression without room and comments around it. -/
def bare (expr : Expr) : Expr := { expr with decs := {} }

/-- `newrelic.NewContext(ctx, txn)` -/
def newContext (ctx txn : Expr) : Expr := .call (newrelic "NewContext") [bare ctx, txn]

def isNewContext (expr : Expr) : Bool := isQualifiedCall expr "newrelic" "NewContext"

/-- `name := newrelic.FromContext(ctx)` -/
def bindFromContext (name : String) (ctx : Expr) : Stmt :=
  .define [.ident name] [.call (newrelic "FromContext") [ctx]]

/-- The variable that a statement binds to the transaction of a context. -/
def fromContextBinding? (stmt : Stmt) : Option String :=
  match stmt.kind with
  | .assign [target] _ [value] =>
      if isQualifiedCall value "newrelic" "FromContext" then target.ident?.map (·.name) else none
  | _ => none

/-- `stream.Context()` -/
def streamContext (stream : String) : Expr := methodCall (.ident stream) "Context" []

/-! ## Errors -/

/-- `txn.NoticeError(err)` -/
def noticeError (err txn : Expr) : Stmt := .expr (methodCall txn "NoticeError" [bare err])

/-- `if err != nil { txn.NoticeError(err) }` -/
def noticeErrorIfAny (err txn : Expr) : Stmt :=
  .cond (.binary (bare err) "!=" .nil) [noticeError err txn]

/-- Some statement reports an error, function literals aside. -/
def callsNoticeError (stmts : List Stmt) : Bool :=
  (allStmts stmts).any fun stmt =>
    stmt.ownExprs.any fun expr =>
      (expr.parts false).any fun part => part.call?.any (·.name? == some "NoticeError")

end TraceWeave.Agent
