import TraceWeave.Syntax.Printer

/-!
Building trees by hand, and questions about single nodes.
-/

namespace TraceWeave.Syntax

/-! ## String literals -/

namespace Quoted

/-- A character as it stands in an interpreted string literal. -/
def escape : Char → List Char
  | '\x22' => ['\\', '\x22']
  | '\\' => ['\\', '\\']
  | '\n' => ['\\', 'n']
  | c => [c]

/-- The interpreted string literal with the given contents. -/
def encode (value : String) : String :=
  "\"" ++ String.ofList (value.toList.flatMap escape) ++ "\""

end Quoted

/-! ## Expressions -/

namespace Expr

def ident (name : String) : Expr := { kind := .ident { name } }

def literal (text : String) : Expr := { kind := .literal text }

def string (value : String) : Expr := literal (Quoted.encode value)

def nil : Expr := ident "nil"

def selector (operand : Expr) (member : String) : Expr :=
  { kind := .selector operand { name := member } }

/-- A member of a package. -/
def qualified (package name : String) : Expr := selector (ident package) name

def call (callee : Expr) (args : List Expr) : Expr := { kind := .call { callee, args } }

def star (operand : Expr) : Expr := { kind := .star operand }

def unary (op : String) (operand : Expr) : Expr := { kind := .unary op operand }

def binary (left : Expr) (op : String) (right : Expr) : Expr := { kind := .binary left op right }

def verbatim (text : String) : Expr := { kind := .verbatim text }

def ident? (expr : Expr) : Option Ident :=
  match expr.kind with
  | .ident ident => some ident
  | _ => none

def isIdent (expr : Expr) (name : String) : Bool :=
  expr.ident?.any (·.name == name)

def isNil (expr : Expr) : Bool := expr.isIdent "nil"

def call? (expr : Expr) : Option Call :=
  match expr.kind with
  | .call call => some call
  | _ => none

def selector? (expr : Expr) : Option (Expr × Ident) :=
  match expr.kind with
  | .selector operand member => some (operand, member)
  | _ => none

/-- The expression without the parentheses around it. -/
def unparen : Expr → Expr
  | ⟨.paren inner, _⟩ => inner.unparen
  | ⟨kind, decs⟩ => ⟨kind, decs⟩

/-- Two expressions are the same when they are written alike. -/
def same (first second : Expr) : Bool := first.text == second.text

/-- Changes the call that an expression is. -/
def mapCall (f : Call → Call) (expr : Expr) : Expr :=
  match expr.kind with
  | .call call => { expr with kind := .call (f call) }
  | _ => expr

end Expr

/-! ## Calls and parameter lists -/

namespace Call

/-- Appends an argument, on a line of its own if the last one has one. -/
def addArg (call : Call) (arg : Expr) : Call :=
  let arg :=
    if call.args.getLast?.any Expr.breaks then
      { arg with decs := { arg.decs with before := .newLine } }
    else arg
  { call with args := call.args ++ [arg] }

/-- The name of the called function or method. -/
def name? (call : Call) : Option String :=
  match call.callee.kind with
  | .ident ident => some ident.name
  | .selector _ member => some member.name
  | _ => none

end Call

namespace FieldList

/-- The number of parameters; every name of a field counts. -/
def arity (list : FieldList) : Nat :=
  (list.fields.map fun field => max field.names.length 1).foldr (· + ·) 0

def isVariadic (list : FieldList) : Bool := list.fields.getLast?.any (·.variadic)

/-- There are parameters and none has a name. -/
def isUnnamed (list : FieldList) : Bool :=
  !list.fields.isEmpty && list.fields.all (·.names.isEmpty)

/-- The parameters in order, each with its type. -/
def params (list : FieldList) : List (Option Ident × Expr) :=
  list.fields.flatMap fun field =>
    if field.names.isEmpty then [(none, field.type)]
    else field.names.map fun name => (some name, field.type)

/-- Appends a field, on a line of its own if the last one has one. -/
def add (list : FieldList) (field : Field) : FieldList :=
  let field :=
    if list.fields.getLast?.any Field.breaks then
      { field with decs := { field.decs with before := .newLine } }
    else field
  { list with fields := list.fields ++ [field] }

end FieldList

/-- A parameter of one name. -/
def Field.single (name : String) (type : Expr) : Field := { names := [{ name }], type }

/-! ## Statements -/

namespace Stmt

def expr (value : Expr) : Stmt := { kind := .expr value }

def define (left right : List Expr) : Stmt := { kind := .assign left .define right }

def assign (left right : List Expr) : Stmt := { kind := .assign left .assign right }

def defer (call : Expr) : Stmt := { kind := .defer call }

def spawn (call : Expr) : Stmt := { kind := .spawn call }

def cond (test : Expr) (body : List Stmt) : Stmt :=
  { kind := .cond none test { stmts := body } none }

def verbatim (text : String) : Stmt := { kind := .verbatim text }

/-- The call of an expression statement, a spawned call or a deferred call. -/
def call? (stmt : Stmt) : Option Call :=
  match stmt.kind with
  | .expr value => value.call?
  | .spawn call => call.call?
  | .defer call => call.call?
  | _ => none

end Stmt

/-- The lists of statements inside a statement, in source order. -/
def StmtKind.blocks : StmtKind → List (List Stmt)
  | .cond _ _ body alternative =>
      body.stmts ::
        match alternative with
        | some ⟨kind, _⟩ => kind.blocks
        | none => []
  | .loop _ body => [body.stmts]
  | .switch _ clauses _ => clauses.map (·.body)
  | .select clauses _ => clauses.map (·.body)
  | .block body => [body.stmts]
  | .labeled _ ⟨kind, _⟩ => kind.blocks
  | _ => []

def Stmt.blocks (stmt : Stmt) : List (List Stmt) := stmt.kind.blocks

end TraceWeave.Syntax
