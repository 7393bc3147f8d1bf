import TraceWeave.Exchange.Value
import TraceWeave.Syntax.Build

/-!
Decorated trees from plain values.  What is missing is empty; a text alone is an
identifier where an expression is expected, and a verbatim statement where a
statement is.
-/

namespace TraceWeave.Exchange

open TraceWeave.Syntax

def readGap (value : Value) (key : String) : Gap :=
  match value.textAt? key with
  | some "newline" => .newLine
  | some "empty" => .blankLine
  | _ => .sameLine

def readDecs (value : Value) : Decorations :=
  let decs := value.field "d"
  { before := readGap decs "before", lead := decs.textsAt "start", trail := decs.textsAt "end",
    after := readGap decs "after" }

def readOp (text : String) : AssignOp := if text == "=" then .assign else .define

/-- Reads a field list, given how to read the types. -/
def readFieldListWith (expr : Value → Expr) (value : Value) : FieldList :=
  { fields := (value.listAt "fields").map fun field =>
      { names := (field.textsAt "names").map fun name => { name }
        type := expr (field.field "ty")
        variadic := field.flagAt "variadic"
        decs := readDecs field }
    closesLine := value.flagAt "rparen_newline" }

/-- Reads a list of results, given how to read the types. -/
def readResultsWith (expr : Value → Expr) (value : Value) : Results :=
  { text := value.textAt "text", types := (value.listAt "types").map expr }

/-- Reads a block, given how to read statements. -/
def readBlockWith (stmt : Value → Stmt) (value : Value) : Block :=
  { stmts := (value.listAt "stmts").map stmt, trailing := value.textsAt "trailing",
    inline := value.flagAt "inline" }

/-- Reads a clause, given how to read statements. -/
def readClauseWith (stmt : Value → Stmt) (value : Value) : Clause :=
  { head := value.textAt "head", body := (value.listAt "body").map stmt,
    trailing := value.textsAt "trailing", decs := readDecs value }

/-- Reads the header of a loop, given how to read expressions. -/
def readHeaderWith (expr : Value → Expr) (value : Value) : LoopHeader :=
  match value.textAt "k" with
  | "cond" => .cond (expr (value.field "e"))
  | "clause" => .clauses (value.textAt "text")
  | "range" =>
      .range ((value.field? "key").map expr) ((value.field? "value").map expr)
        ((value.textAt? "op").map readOp) (expr (value.field "x"))
  | _ => .infinite

/-- Reads the kind of an expression, given how to read its parts. -/
def readExprKind (expr : Value → Expr) (stmt : Value → Stmt) (value : Value) : ExprKind :=
  let sub (key : String) : Expr := expr (value.field key)
  match value.textAt "k" with
  | "ident" => .ident { name := value.textAt "name" }
  | "lit" => .literal (value.textAt "text")
  | "sel" => .selector (sub "x") { name := value.textAt "sel" }
  | "call" =>
      .call { callee := sub "fun", args := (value.listAt "args").map expr,
              spread := value.flagAt "ellipsis", closesLine := value.flagAt "rparen_newline" }
  | "star" => .star (sub "x")
  | "paren" => .paren (sub "x")
  | "unary" => .unary (value.textAt "op") (sub "x")
  | "binary" => .binary (sub "x") (value.textAt "op") (sub "y")
  | "index" => .index (sub "x") ((value.listAt "indices").map expr)
  | "composite" => .composite ((value.field? "ty").map expr) (value.textAt "body")
  | "func" =>
      .func (readFieldListWith expr (value.field "params"))
        ((value.field? "results").map (readResultsWith expr))
        (readBlockWith stmt (value.field "body"))
  | _ => .verbatim (value.textAt "text")

/-- Reads the kind of a statement, given how to read its parts. -/
def readStmtKind (expr : Value → Expr) (stmt : Value → Stmt) (value : Value) : StmtKind :=
  let sub (key : String) : Expr := expr (value.field key)
  let subs (key : String) : List Expr := (value.listAt key).map expr
  let clauses := (value.listAt "clauses").map (readClauseWith stmt)
  let body := readBlockWith stmt (value.field "body")
  match value.textAt "k" with
  | "expr" => .expr (sub "e")
  | "assign" => .assign (subs "lhs") (readOp (value.textAt "op")) (subs "rhs")
  | "go" => .spawn (sub "e")
  | "defer" => .defer (sub "e")
  | "return" => .ret (subs "results")
  | "if" =>
      .cond ((value.field? "init").map stmt) (sub "cond") body ((value.field? "els").map stmt)
  | "for" => .loop (readHeaderWith expr (value.field "header")) body
  | "switch" => .switch (value.textAt? "header") clauses (value.textsAt "trailing")
  | "select" => .select clauses (value.textsAt "trailing")
  | "block" => .block (readBlockWith stmt (value.field "block"))
  | "labeled" => .labeled (value.textAt "label") (stmt (value.field "stmt"))
  | "decl" => .decl { text := value.textAt "text", specs := [] }
  | _ => .verbatim (value.textAt "text")

mutual

/-- Reads an expression, at most `depth` values deep. -/
def readExprWithin : Nat → Value → Expr
  | 0, _ => .verbatim ""
  | depth + 1, value =>
      match value with
      | .text name => .ident name
      | _ =>
          { kind := readExprKind (readExprWithin depth) (readStmtWithin depth) value
            decs := readDecs value }

/-- Reads a statement, at most `depth` values deep. -/
def readStmtWithin : Nat → Value → Stmt
  | 0, _ => .verbatim ""
  | depth + 1, value =>
      match value with
      | .text text => { kind := .verbatim text, decs := {} }
      | _ =>
          { kind := readStmtKind (readExprWithin depth) (readStmtWithin depth) value
            decs := readDecs value }

end

def readExpr (value : Value) : Expr := readExprWithin (value.depth + 1) value

def readStmt (value : Value) : Stmt := readStmtWithin (value.depth + 1) value

def readFieldList (value : Value) : FieldList := readFieldListWith readExpr value

end TraceWeave.Exchange
