import TraceWeave.Syntax.Edit
import TraceWeave.Types.Info

/-!
The calls that detectors look at.
-/

namespace TraceWeave.Detect

open TraceWeave.Syntax TraceWeave.Types

/-- The call of an expression statement, or the only value of an assignment. -/
def primaryCall? (stmt : Stmt) : Option Call :=
  match stmt.kind with
  | .assign _ _ [value] => value.call?
  | .expr value => value.call?
  | _ => none

/-- Changes the primary call. -/
def mapPrimaryCall (f : Call → Call) (stmt : Stmt) : Stmt :=
  match stmt.kind with
  | .assign left op [value] => { stmt with kind := .assign left op [value.mapCall f] }
  | .expr value => { stmt with kind := .expr (value.mapCall f) }
  | _ => stmt

/-- The names on the left of an assignment, blank ones included. -/
def assignedNames (stmt : Stmt) : List String :=
  match stmt.kind with
  | .assign left _ _ => left.filterMap fun expr => expr.ident?.map (·.name)
  | _ => []

/-- The name in front of the dot of the called function. -/
def qualifier? (call : Call) : Option String :=
  call.callee.selector?.bind fun (operand, _) => operand.ident?.map (·.name)

/-- Some expression of the statement itself, outside function literals, is a call of a kind. -/
def anyOwnCall (test : Call → Bool) (stmt : Stmt) : Bool :=
  stmt.ownExprs.any fun expr => (expr.parts false).any fun part => part.call?.any test

/-- The call aims at one of the functions of a package. -/
def callsFunc (info : Info) (package : String) (names : List String) (call : Call) : Bool :=
  (info.callee? call).any fun callee => names.any (callee.isFunc package)

/-- The call aims at one of the methods of a type. -/
def callsMethod (info : Info) (package type : String) (names : List String) (call : Call) : Bool :=
  (info.callee? call).any fun callee => names.any (callee.isMethod package type)

/-- Changes the calls of a statement itself. -/
def mapOwnCalls (literals : Bool) (f : Call → Call) (stmt : Stmt) : Stmt :=
  Id.run (stmt.editOwn (Edits.calls literals fun call => pure (f call)))

end TraceWeave.Detect
