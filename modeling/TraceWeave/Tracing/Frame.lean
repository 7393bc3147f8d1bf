import TraceWeave.Program.Application
import TraceWeave.Tracing.Carrier

/-!
What is known while the body of one function is traced.
-/

namespace TraceWeave.Tracing

open TraceWeave.Agent TraceWeave.Program TraceWeave.Syntax TraceWeave.Types

structure Frame where
  /-- The package whose imports grow. -/
  package : String
  /-- The variable of the agent's application. -/
  agent : String
  carrier : Option Carrier := none
  /-- The variable of the transaction. -/
  txn : String := ""
  /-- The statement that has to bind that variable at the top of the body once it is used. -/
  pending : Option Stmt := none
  /-- The transaction has been read. -/
  used : Bool := false
  /-- In the entry function, where statements start transactions of their own. -/
  inMain : Bool := false
  /-- The segment to open at the top of the body. -/
  segment : Option String := none
  /-- The names declared in the open blocks, the innermost block first. -/
  scopes : List (List String) := [[]]
  /-- The database that the entry function opened. -/
  database : Option String := none
  /-- A query of the database is traced already. -/
  queried : Bool := false

namespace Frame

/-! ## Kinds of frames -/

/-- For the entry function. -/
def main (package agent : String) : Frame := { package, agent, inMain := true }

/-- For a function that no transaction reaches. -/
def untraced (package agent : String) : Frame := { package, agent }

/-- For a function that a carrier reaches. -/
def traced (package agent : String) (carrier : Carrier) (txn : String) : Frame :=
  let name :=
    match carrier with
    | .transaction name => name
    | _ => txn
  { package, agent, carrier := some carrier, txn := name, pending := carrier.binding? txn }

/-- For a function that has to bind its transaction. -/
def withBinding (package agent txn : String) (binding : Stmt) : Frame :=
  { package, agent, carrier := some (.transaction txn), txn, pending := some binding }

/-! ## The transaction -/

def hasTransaction (frame : Frame) : Bool := frame.carrier.isSome

/-- The transaction, which counts as used from now on. -/
def transaction (frame : Frame) : Option Expr × Frame :=
  if frame.hasTransaction then (some (.ident frame.txn), { frame with used := true })
  else (none, frame)

/-- The application: the agent in the entry function, that of the transaction elsewhere. -/
def application (frame : Frame) : Option Expr × Frame :=
  if frame.inMain then (some (.ident frame.agent), frame)
  else if frame.hasTransaction then
    (some (transactionApplication frame.txn), { frame with used := true })
  else (none, frame)

/-- The statements that follow belong to a transaction of the entry function. -/
def startTransaction (frame : Frame) (name : String) : Frame :=
  { frame with carrier := some (.transaction name), txn := name, pending := none }

def endTransaction (frame : Frame) : Frame := { frame with carrier := none, txn := "" }

/-! ## Declared names -/

def pushScope (frame : Frame) : Frame := { frame with scopes := [] :: frame.scopes }

/-- The outermost block is never left. -/
def popScope (frame : Frame) : Frame :=
  match frame.scopes with
  | _ :: scope :: scopes => { frame with scopes := scope :: scopes }
  | _ => frame

def declare (frame : Frame) (name : String) : Frame :=
  match frame.scopes with
  | [] => frame
  | scope :: scopes => { frame with scopes := (name :: scope) :: scopes }

/-- The innermost block declares the name. -/
def isDeclared (frame : Frame) (name : String) : Bool := frame.scopes.head?.any (·.contains name)

/-- Notes the names that a `:=` introduces. -/
def declareStmt (frame : Frame) (stmt : Stmt) : Frame :=
  match stmt.kind with
  | .assign left .define _ =>
      ((left.filterMap Expr.ident?).filter (!·.isBlank)).foldl
        (fun frame ident => frame.declare ident.name) frame
  | _ => frame

/-- Binds a variable of the innermost block. -/
def bind (frame : Frame) (name : String) (value : Expr) : Stmt × Frame :=
  (bindVariable name value (frame.isDeclared name), frame.declare name)

/-! ## The top of the body -/

/-- The segment to open, unless the body has one. -/
def opening? (frame : Frame) (hasSegment : Bool) : Option Stmt :=
  if hasSegment || !frame.hasTransaction then none
  else frame.segment.map (deferSegment · frame.txn)

/-- What has to stand at the top: the pending binding if it is used, then the segment. -/
def prologue (frame : Frame) (hasSegment : Bool) : List Stmt × Frame :=
  let opening := frame.opening? hasSegment
  let frame := { frame with used := frame.used || opening.isSome }
  let binding := if frame.used then frame.pending else none
  (binding.toList ++ opening.toList, frame)

end Frame

/-! ## Tracing a body -/

/-- Tracing a body changes the frame and the application. -/
abbrev Trace := StateT Frame Weave

namespace Trace

def app : Trace Application := liftM (get : Weave Application)

def types : Trace Info := return (← app).types

/-- The package of the frame needs an import. -/
def needImport (path : String) : Trace Unit := do
  liftM (Weave.needImport (← get).package path)

def transaction : Trace (Option Expr) := modifyGet Frame.transaction

def application : Trace (Option Expr) := modifyGet Frame.application

def attach (advisory : Advisory) (stmt : Stmt) : Trace Stmt := liftM (Weave.attach advisory stmt)

end Trace

end TraceWeave.Tracing
