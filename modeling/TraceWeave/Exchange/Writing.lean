import TraceWeave.Exchange.Value
import TraceWeave.Syntax.Build

/-!
Decorated trees as plain values.  A node is a record; its kind is the field `k`
and its decorations are the field `d`.
-/

namespace TraceWeave.Exchange

open TraceWeave.Syntax

def gapValue : Gap → Value
  | .sameLine => .null
  | .newLine => .text "newline"
  | .blankLine => .text "empty"

def decsValue (decs : Decorations) : Value :=
  .ofFields [("before", gapValue decs.before), ("start", .ofTexts decs.lead),
    ("end", .ofTexts decs.trail), ("after", gapValue decs.after)]

/-- The field for decorations, which says nothing when there are none. -/
def decsField (decs : Decorations) : String × Value :=
  ("d", if decs.isEmpty then .null else decsValue decs)

def opValue : AssignOp → Value
  | .define => .text ":="
  | .assign => .text "="

def identTexts (idents : List Ident) : Value := .ofTexts (idents.map (·.name))

mutual

def exprValue : Expr → Value
  | ⟨kind, decs⟩ => .ofFields (exprFields kind ++ [decsField decs])

def exprFields : ExprKind → List (String × Value)
  | .ident ident => [("k", .text "ident"), ("name", .text ident.name)]
  | .literal text => [("k", .text "lit"), ("text", .text text)]
  | .selector operand member =>
      [("k", .text "sel"), ("x", exprValue operand), ("sel", .text member.name)]
  | .call ⟨callee, args, spread, closesLine⟩ =>
      [("k", .text "call"), ("fun", exprValue callee), ("args", .list (exprValues args)),
       ("ellipsis", .bool spread), ("rparen_newline", .bool closesLine)]
  | .star operand => [("k", .text "star"), ("x", exprValue operand)]
  | .paren inner => [("k", .text "paren"), ("x", exprValue inner)]
  | .unary op operand => [("k", .text "unary"), ("op", .text op), ("x", exprValue operand)]
  | .binary left op right =>
      [("k", .text "binary"), ("x", exprValue left), ("op", .text op), ("y", exprValue right)]
  | .index operand indices =>
      [("k", .text "index"), ("x", exprValue operand), ("indices", .list (exprValues indices))]
  | .composite type body =>
      [("k", .text "composite"), ("ty", optExprValue type), ("body", .text body)]
  | .func params results body =>
      [("k", .text "func"), ("params", fieldListValue params), ("results", resultsValue results),
       ("body", blockValue body)]
  | .verbatim text => [("k", .text "raw"), ("text", .text text)]

def exprValues : List Expr → List Value
  | [] => []
  | expr :: exprs => exprValue expr :: exprValues exprs

def optExprValue : Option Expr → Value
  | some expr => exprValue expr
  | none => .null

def fieldListValue : FieldList → Value
  | ⟨fields, closesLine⟩ =>
      .ofFields [("fields", .list (fieldValues fields)), ("rparen_newline", .bool closesLine)]

def fieldValues : List Field → List Value
  | [] => []
  | ⟨names, type, variadic, decs⟩ :: fields =>
      .ofFields [("names", identTexts names), ("ty", exprValue type),
        ("variadic", .bool variadic), decsField decs] :: fieldValues fields

def resultsValue : Option Results → Value
  | some ⟨text, types⟩ => .ofFields [("text", .text text), ("types", .list (exprValues types))]
  | none => .null

def blockValue : Block → Value
  | ⟨stmts, trailing, inline⟩ =>
      .ofFields [("stmts", .list (stmtValues stmts)), ("trailing", .ofTexts trailing),
        ("inline", .bool inline)]

def stmtValue : Stmt → Value
  | ⟨kind, decs⟩ => .ofFields (stmtFields kind ++ [decsField decs])

def stmtValues : List Stmt → List Value
  | [] => []
  | stmt :: stmts => stmtValue stmt :: stmtValues stmts

def optStmtValue : Option Stmt → Value
  | some stmt => stmtValue stmt
  | none => .null

def stmtFields : StmtKind → List (String × Value)
  | .expr value => [("k", .text "expr"), ("e", exprValue value)]
  | .assign left op right =>
      [("k", .text "assign"), ("lhs", .list (exprValues left)), ("op", opValue op),
       ("rhs", .list (exprValues right))]
  | .spawn call => [("k", .text "go"), ("e", exprValue call)]
  | .defer call => [("k", .text "defer"), ("e", exprValue call)]
  | .ret results => [("k", .text "return"), ("results", .list (exprValues results))]
  | .cond init test body alternative =>
      [("k", .text "if"), ("init", optStmtValue init), ("cond", exprValue test),
       ("body", blockValue body), ("els", optStmtValue alternative)]
  | .loop header body =>
      [("k", .text "for"), ("header", headerValue header), ("body", blockValue body)]
  | .switch header clauses trailing =>
      [("k", .text "switch"), ("header", .ofText? header),
       ("clauses", .list (clauseValues clauses)), ("trailing", .ofTexts trailing)]
  | .select clauses trailing =>
      [("k", .text "select"), ("clauses", .list (clauseValues clauses)),
       ("trailing", .ofTexts trailing)]
  | .block body => [("k", .text "block"), ("block", blockValue body)]
  | .labeled label stmt =>
      [("k", .text "labeled"), ("label", .text label), ("stmt", stmtValue stmt)]
  | .decl ⟨text, specs⟩ =>
      [("k", .text "decl"), ("text", .text text), ("specs", .list (specValues specs))]
  | .verbatim text => [("k", .text "raw"), ("text", .text text)]

def headerValue : LoopHeader → Value
  | .infinite => .ofFields [("k", .text "infinite")]
  | .cond test => .ofFields [("k", .text "cond"), ("e", exprValue test)]
  | .clauses text => .ofFields [("k", .text "clause"), ("text", .text text)]
  | .range key value op operand =>
      .ofFields [("k", .text "range"), ("key", optExprValue key), ("value", optExprValue value),
        ("op", (op.map opValue).getD .null), ("x", exprValue operand)]

def clauseValues : List Clause → List Value
  | [] => []
  | ⟨head, body, trailing, decs⟩ :: clauses =>
      .ofFields [("head", .text head), ("body", .list (stmtValues body)),
        ("trailing", .ofTexts trailing), decsField decs] :: clauseValues clauses

def specValues : List Spec → List Value
  | [] => []
  | .value names type values constant :: specs =>
      .ofFields [("k", .text "value"), ("names", identTexts names), ("ty", optExprValue type),
        ("values", .list (exprValues values)), ("constant", .bool constant)] :: specValues specs
  | .type name isAlias definition :: specs =>
      .ofFields [("k", .text "type"), ("name", .text name), ("alias", .bool isAlias),
        ("def", typeDefValue definition)] :: specValues specs

def typeDefValue : TypeDef → Value
  | .struct fields =>
      .ofFields [("k", .text "struct"), ("fields", .list (structFieldValues fields))]
  | .interface embeds methods =>
      .ofFields [("k", .text "interface"), ("embeds", .list (exprValues embeds)),
        ("methods", .list (methodValues methods))]
  | .other type => .ofFields [("k", .text "other"), ("ty", exprValue type)]

def structFieldValues : List StructField → List Value
  | [] => []
  | ⟨name, type⟩ :: fields =>
      .ofFields [("name", .ofText? name), ("ty", exprValue type)] :: structFieldValues fields

def methodValues : List Method → List Value
  | [] => []
  | ⟨name, params, results⟩ :: methods =>
      .ofFields [("name", .text name), ("params", fieldListValue params),
        ("results", resultsValue results)] :: methodValues methods

end

/-! ## Files -/

def importValue (spec : ImportSpec) : Value :=
  .ofFields [("name", .ofText? spec.name), ("path", .text spec.path), decsField spec.decs]

def declFields : DeclKind → List (String × Value)
  | .imports decl =>
      [("k", .text "import"), ("specs", .list (decl.specs.map importValue)),
       ("grouped", .bool decl.grouped), ("trailing", .ofTexts decl.trailing)]
  | .func func =>
      [("k", .text "func"), ("key", .text func.key),
       ("recv", (func.receiver.map fieldListValue).getD .null),
       ("recv_name", .ofText? func.receiverName?), ("name", .text func.name.name),
       ("type_params", .ofText? func.typeParams), ("params", fieldListValue func.params),
       ("arity", .number func.params.arity), ("results", resultsValue func.results),
       ("body", (func.body.map blockValue).getD .null)]
  | .gen group =>
      [("k", .text "gen"), ("text", .text group.text), ("specs", .list (specValues group.specs))]
  | .verbatim text => [("k", .text "raw"), ("text", .text text)]

def declValue (decl : Decl) : Value := .ofFields (declFields decl.kind ++ [decsField decl.decs])

def fileValue (file : File) : Value :=
  .ofFields [("package", .text file.package), decsField file.packageDecs,
    ("decls", .list (file.decls.map declValue)), ("trailing", .ofTexts file.trailing)]

end TraceWeave.Exchange
