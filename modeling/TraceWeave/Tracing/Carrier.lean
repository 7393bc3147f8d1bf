import TraceWeave.Agent.Advisory
import TraceWeave.Agent.Transaction
import TraceWeave.Types.Info

/-!
How a transaction travels from a caller into a callee.

`Carrier.pass` brings a call and the parameters of its callee in line: it hands
the transaction to a parameter that can hold it, wraps a context that does not
carry it, or adds a parameter.
-/

namespace TraceWeave.Tracing

open TraceWeave.Agent TraceWeave.Syntax TraceWeave.Types

/-- What holds the transaction inside a function. -/
inductive Carrier where
  | transaction (name : String)
  /-- A context that carries the transaction. -/
  | context (name : String)
  /-- A gRPC server stream whose context carries the transaction. -/
  | stream (name : String) (type : Ty)
  deriving DecidableEq

def transactionTy : Ty := .pointer (.named Path.newrelic "Transaction")

def contextTy : Ty := .named Path.context "Context"

/-- The type of a parameter; one that was added is known by its text. -/
def paramType? (info : Info) (type : Expr) : Option Ty :=
  match info.typeExpr? type with
  | some type => some type
  | none =>
      if type.text == "*newrelic.Transaction" then some transactionTy
      else if type.text == "context.Context" then some contextTy
      else none

namespace Carrier

/-- The variable. -/
def name : Carrier → String
  | .transaction name => name
  | .context name => name
  | .stream name _ => name

def type : Carrier → Ty
  | .transaction _ => transactionTy
  | .context _ => contextTy
  | .stream _ type => type

def isContext : Carrier → Bool
  | .context _ => true
  | _ => false

/-- The carrier of the same kind in another variable. -/
def renamed : Carrier → String → Carrier
  | .transaction _, name => .transaction name
  | .context _, name => .context name
  | .stream _ type, name => .stream name type

/-- The statement that takes the transaction out of the carrier. -/
def binding? (carrier : Carrier) (target : String) : Option Stmt :=
  match carrier with
  | .transaction _ => none
  | .context name => some (bindFromContext target (.ident name))
  | .stream name _ => some (bindFromContext target (streamContext name))

end Carrier

/-- What becomes of a call and of its callee's parameters. -/
structure Passing where
  call : Call
  params : FieldList
  /-- What holds the transaction inside the callee. -/
  child : Option Carrier := none
  /-- The call refers to the agent's package now. -/
  needsImport : Bool := false
  /-- The callee gained a parameter. -/
  extended : Bool := false
  advisory : Option Advisory := none
  /-- The transaction of the caller is read. -/
  usesTransaction : Bool := false

/-- A parameter as far as passing looks at it; a blank name is none. -/
structure Param where
  name : Option String
  type : Option Ty

def paramsOf (info : Info) (list : FieldList) : List Param :=
  list.params.map fun (name, type) =>
    { name := (name.filter (!·.isBlank)).map (·.name), type := paramType? info type }

/-- The first parameter of a type, with its position. -/
def findParam? (params : List Param) (type : Ty) : Option (Nat × Param) :=
  (params.zipIdx.find? fun (param, _) => param.type == some type).map fun (param, index) =>
    (index, param)

namespace Carrier

/-- Passes the carrier itself to the parameter at a position. -/
def passItself (carrier : Carrier) (list : FieldList) (call : Call) (txn : Expr) (index : Nat)
    (param : Param) : Passing :=
  let child := param.name.map carrier.renamed
  if call.args.length == index && !call.spread then
    match carrier with
    | .transaction _ =>
        { call := call.addArg txn, params := list, child, usesTransaction := true }
    | _ => { call := call.addArg (.ident carrier.name), params := list, child }
  else { call, params := list, child }

/-- Makes the context at a position carry the transaction. -/
def passContext (carrier : Carrier) (list : FieldList) (call : Call) (async : Bool) (txn : Expr)
    (index : Nat) (param : Param) : Passing :=
  let child := param.name.map Carrier.context
  match call.args[index]? with
  | none => { call, params := list, child }
  | some arg =>
      let same := carrier.isContext && arg.isIdent carrier.name
      if (same && !async) || isNewContext arg then { call, params := list, child }
      else
        let wrapped := { newContext arg txn with decs := arg.decs }
        { call := { call with args := call.args.set index wrapped }
          params := list
          child
          needsImport := true
          advisory := if carrier.isContext && !same then some .contextWrapped else none
          usesTransaction := true }

/-- Adds a parameter for the transaction, where the list admits one. -/
def passNew (list : FieldList) (call : Call) (txn : Expr) : Passing :=
  if list.isVariadic || list.isUnnamed then { call, params := list }
  else
    { call := call.addArg txn
      params := list.add (transactionParameter transactionVariable)
      child := some (.transaction transactionVariable)
      needsImport := true
      extended := true
      usesTransaction := true }

/--
Passes the transaction into a call whose callee has the given parameters.  The
expression `txn` reads the caller's transaction.  The parameters stay as they
are unless they may be extended.
-/
def pass (carrier : Carrier) (info : Info) (list : FieldList) (call : Call)
    (async mayExtend : Bool) (txn : Expr) : Passing :=
  let txn := if async then newGoroutine txn else txn
  let params := paramsOf info list
  let own := if carrier.isContext then none else findParam? params carrier.type
  match own with
  | some (index, param) => carrier.passItself list call txn index param
  | none =>
      match findParam? params contextTy with
      | some (index, param) => carrier.passContext list call async txn index param
      | none => if mayExtend then passNew list call txn else { call, params := list }

/-- Passing would reach the callee, through an argument or through a parameter. -/
def wouldPass (carrier : Carrier) (info : Info) (list : FieldList) (call : Call)
    (mayExtend : Bool) : Bool :=
  let passing := carrier.pass info list call false mayExtend (.ident carrier.name)
  passing.child.isSome || passing.needsImport || passing.extended || passing.advisory.isSome ||
    passing.call.args.length != call.args.length

end Carrier

end TraceWeave.Tracing
