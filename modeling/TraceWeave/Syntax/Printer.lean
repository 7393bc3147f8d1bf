import TraceWeave.Syntax.File
import TraceWeave.Syntax.Operator

/-!
Writing decorated trees in the standard layout of Go.

Blocks are indented by tabs.  Blanks around a binary operator depend on a
cutoff: in `a + b*c` only the weaker operator is spaced.  A function body that
was written on one line stays on it while it is short enough.

Every writer appends to the text in front of it, since the width of a one-line
body depends on the column where it starts.
-/

namespace TraceWeave.Syntax

/-- How tightly unary operators bind. -/
def unaryPrecedence : Nat := 6

/-- How tightly selectors, calls and indices bind. -/
def operandPrecedence : Nat := 7

/-- The widest line, in bytes, that a one-line function body may make. -/
def widestOneLine : Nat := 100

/-! ## Spacing of binary operators -/

def reduceDepth (depth : Nat) : Nat := max (depth - 1) 1

/-- Operands of the same level do not nest deeper. -/
def levelStep (operand : Expr) (level : Nat) : Nat :=
  match operand.kind with
  | .binary _ op _ => if precedence op == level then 0 else 1
  | _ => 1

/-- What the operators of a binary expression have in common. -/
structure OperatorMix where
  additive : Bool
  multiplicative : Bool
  /-- The level up to which operators must be spaced to stay apart from a unary operator. -/
  clash : Nat
  deriving DecidableEq, Repr

namespace OperatorMix

def join (first second : OperatorMix) : OperatorMix :=
  { additive := first.additive || second.additive
    multiplicative := first.multiplicative || second.multiplicative
    clash := max first.clash second.clash }

/-- The clash of an operator with the start of its right operand. -/
def withUnary (mix : OperatorMix) (op : String) (right : ExprKind) : OperatorMix :=
  match right with
  | .star _ => if op == "/" then { mix with clash := 5 } else mix
  | .unary sign _ =>
      let pair := op ++ sign
      if ["/*", "&&", "&^"].contains pair then { mix with clash := 5 }
      else if ["++", "--"].contains pair then { mix with clash := max mix.clash 4 }
      else mix
  | _ => mix

end OperatorMix

/-- The operators that share a level of spacing with a binary expression. -/
def ExprKind.operatorMix : ExprKind → OperatorMix
  | .binary ⟨left, _⟩ op ⟨right, _⟩ =>
      let level := precedence op
      let mix : OperatorMix :=
        { additive := level == 4, multiplicative := level == 5, clash := 0 }
      let mix :=
        match left with
        | .binary _ leftOp _ =>
            if level ≤ precedence leftOp then mix.join left.operatorMix else mix
        | _ => mix
      match right with
      | .binary _ rightOp _ =>
          if level < precedence rightOp then mix.join right.operatorMix else mix
      | _ => mix.withUnary op right
  | _ => { additive := false, multiplicative := false, clash := 0 }

/-- Operators that bind less tightly than the cutoff are spaced. -/
def ExprKind.cutoff (kind : ExprKind) (depth : Nat) : Nat :=
  let mix := kind.operatorMix
  if mix.clash > 0 then mix.clash + 1
  else if mix.additive && mix.multiplicative then if depth == 1 then 5 else 4
  else if depth == 1 then 6
  else 4

/-! ## Parentheses around conditions -/

mutual

/-- Parentheses around such an expression keep its brace apart from a block. -/
def Expr.hasBrace : Expr → Bool
  | ⟨.composite _ _, _⟩ => true
  | ⟨.verbatim text, _⟩ => text.contains '\x7b'
  | ⟨.selector operand _, _⟩ => operand.hasBrace
  | ⟨.star operand, _⟩ => operand.hasBrace
  | ⟨.paren inner, _⟩ => inner.hasBrace
  | ⟨.unary _ operand, _⟩ => operand.hasBrace
  | ⟨.binary left _ right, _⟩ => left.hasBrace || right.hasBrace
  | ⟨.call ⟨callee, args, _, _⟩, _⟩ => callee.hasBrace || anyBrace args
  | _ => false

def anyBrace : List Expr → Bool
  | [] => false
  | expr :: exprs => expr.hasBrace || anyBrace exprs

end

/-! ## Pieces of layout -/

namespace Printer

def tabs (count : Nat) (out : String) : String :=
  count.repeat (·.push '\t') out

def newLine (indent : Nat) (out : String) : String := tabs indent (out.push '\n')

def trail (decs : Decorations) (out : String) : String :=
  decs.trail.foldl (· ++ ·) out

/-- Comment lines, each on a line of its own. -/
def commentLines (lines : List String) (indent : Nat) (out : String) : String :=
  lines.foldl (fun out line => (if line.isEmpty then out else tabs indent out ++ line).push '\n') out

/-- Comment lines in front of something that starts the next line. -/
def leadBreaks (lines : List String) (indent : Nat) (out : String) : String :=
  newLine indent (lines.foldl (fun out line => newLine indent out ++ line) out)

/-- The number of bytes behind the last line break. -/
def column (out : String) : Nat :=
  (String.ofList (out.toList.reverse.takeWhile (· != '\n'))).utf8ByteSize

def assignSign : AssignOp → String
  | .define => " := "
  | .assign => " = "

/-- The one-line form of a body, if it fits on the line. -/
def oneLine (parts : List String) (out : String) : Option String :=
  let line := "\x7b " ++ "; ".intercalate parts ++ " \x7d"
  if column out + line.utf8ByteSize ≤ widestOneLine then some line else none

/-- A block around statements that are written at one more level. -/
def block (indent : Nat) (empty inline : Bool) (trailing : List String)
    (body : String → String) (out : String) : String :=
  if empty && trailing.isEmpty then
    if inline then out ++ "\x7b\x7d" else (newLine indent (out ++ "\x7b")) ++ "\x7d"
  else
    tabs indent (commentLines trailing (indent + 1) (body (out ++ "\x7b\n"))) ++ "\x7d"

end Printer

open Printer

def StmtKind.isLabeled : StmtKind → Bool
  | .labeled _ _ => true
  | _ => false

/-- A statement that may share a line with others. -/
def Stmt.isPlain (stmt : Stmt) : Bool :=
  stmt.decs.before == .sameLine && stmt.decs.lead.isEmpty && stmt.decs.trail.isEmpty &&
    !stmt.kind.isLabeled

def Field.breaks (field : Field) : Bool := field.decs.before.isBreak

def Expr.breaks (expr : Expr) : Bool := expr.decs.before.isBreak

def Call.isMultiline (call : Call) : Bool := call.args.any Expr.breaks

/-! ## Expressions and statements -/

mutual

def Expr.write (indent level depth : Nat) : Expr → String → String
  | ⟨kind, _⟩, out => kind.write indent level depth out

/-- `level` is the precedence of the surroundings and `depth` the nesting of operators. -/
def ExprKind.write (indent level depth : Nat) : ExprKind → String → String
  | .ident ident, out => out ++ ident.name
  | .literal text, out => out ++ text
  | .verbatim text, out => out ++ text
  | .selector operand member, out =>
      operand.write indent operandPrecedence depth out ++ "." ++ member.name
  | .call ⟨callee, args, spread, closesLine⟩, out =>
      let depth := if args.length > 1 then depth + 1 else depth
      let out := callee.write indent operandPrecedence depth out ++ "("
      let multiline := args.any Expr.breaks
      let out := writeArgs indent depth multiline spread closesLine true args out
      (if multiline && closesLine then newLine indent out else out) ++ ")"
  | .star operand, out =>
      if unaryPrecedence < level then operand.write indent 0 1 (out ++ "(*") ++ ")"
      else operand.write indent 0 1 (out ++ "*")
  | .unary op operand, out =>
      if unaryPrecedence < level then
        operand.write indent unaryPrecedence 1 (out ++ "(" ++ op) ++ ")"
      else operand.write indent unaryPrecedence depth (out ++ op)
  | .binary left op right, out =>
      let own := precedence op
      let enclosed := decide (own < level)
      let depth := if enclosed then reduceDepth depth else max depth 1
      let blank := if own < (ExprKind.binary left op right).cutoff depth then " " else ""
      let out := if enclosed then out ++ "(" else out
      let out := left.write indent own (depth + levelStep left own) out ++ blank ++ op ++ blank
      let out := right.write indent (own + 1) (depth + 1) out
      if enclosed then out ++ ")" else out
  | .paren inner, out =>
      match inner.kind with
      | .paren _ => inner.write indent 0 depth out
      | _ => inner.write indent 0 (reduceDepth depth) (out ++ "(") ++ ")"
  | .index operand indices, out =>
      writeExprs indent (depth + 1) true indices (operand.write indent operandPrecedence 1 out ++ "[")
        ++ "]"
  | .composite type body, out =>
      match type with
      | some type => type.write indent operandPrecedence depth out ++ body
      | none => out ++ body
  | .func params results body, out =>
      let out := params.write indent (out ++ "func")
      let out :=
        match results with
        | some ⟨text, _⟩ => out ++ " " ++ text
        | none => out
      body.writeBody indent (out ++ " ")

/-- A condition without the parentheses around it. -/
def Expr.writeStripped (indent : Nat) : Expr → String → String
  | ⟨.paren inner, _⟩, out =>
      if inner.hasBrace then
        match inner.kind with
        | .paren _ => inner.write indent 0 1 out
        | _ => inner.write indent 0 (reduceDepth 1) (out ++ "(") ++ ")"
      else inner.writeStripped indent out
  | ⟨kind, _⟩, out => kind.write indent 0 1 out

def writeExprs (indent depth : Nat) (first : Bool) : List Expr → String → String
  | [], out => out
  | expr :: exprs, out =>
      let out := if first then out else out ++ ", "
      writeExprs indent depth false exprs (expr.write indent 0 depth out)

/-- Arguments of a call, on lines of their own where their layout says so. -/
def writeArgs (indent depth : Nat) (multiline spread closesLine first : Bool) :
    List Expr → String → String
  | [], out => out
  | ⟨kind, decs⟩ :: args, out =>
      let last := args.isEmpty
      let out :=
        if multiline && decs.before.isBreak then
          leadBreaks decs.lead (indent + 1)
            (if !first && decs.before == .blankLine then out.push '\n' else out)
        else if first then out
        else out ++ " "
      let out := kind.write (if multiline then indent + 1 else indent) 0 depth out
      let out := if last && spread then out ++ "..." else out
      let out :=
        if multiline then trail decs (if !last || closesLine then out ++ "," else out)
        else
          let out := trail decs out
          if last then out else out ++ ","
      writeArgs indent depth multiline spread closesLine false args out

def FieldList.write (indent : Nat) : FieldList → String → String
  | ⟨fields, closesLine⟩, out =>
      let multiline := fields.any Field.breaks
      let out := writeFields indent (multiline && closesLine) true fields (out ++ "(")
      (if multiline && closesLine then newLine indent out else out) ++ ")"

def writeFields (indent : Nat) (closed first : Bool) : List Field → String → String
  | [], out => out
  | ⟨names, type, variadic, decs⟩ :: fields, out =>
      let out :=
        if decs.before.isBreak then leadBreaks decs.lead (indent + 1) out
        else if first then out
        else out ++ " "
      let out := out ++ ", ".intercalate (names.map (·.name))
      let out := if names.isEmpty then out else out ++ " "
      let out := if variadic then out ++ "..." else out
      let out := type.write indent 0 1 out
      let out := if !fields.isEmpty || closed then out ++ "," else out
      writeFields indent closed false fields (trail decs out)

def Block.write (indent : Nat) : Block → String → String
  | ⟨stmts, trailing, inline⟩, out =>
      Printer.block indent stmts.isEmpty inline trailing
        (fun out => writeStmts (indent + 1) none stmts out) out

/-- The body of a function, which may stay on one line. -/
def Block.writeBody (indent : Nat) : Block → String → String
  | ⟨stmts, trailing, inline⟩, out =>
      let line :=
        if inline && !stmts.isEmpty then (writeParts stmts).bind (oneLine · out) else none
      match line with
      | some line => out ++ line
      | none =>
          Printer.block indent stmts.isEmpty inline trailing
            (fun out => writeStmts (indent + 1) none stmts out) out

/-- The texts of statements that can stand on one line together. -/
def writeParts : List Stmt → Option (List String)
  | [] => some []
  | ⟨kind, decs⟩ :: stmts =>
      let text := kind.write 0 false ""
      if (Stmt.mk kind decs).isPlain && !text.contains '\n' then
        (writeParts stmts).map (text :: ·)
      else none

/-- Statements on lines of their own; `after` is the room behind the statement in front. -/
def writeStmts (indent : Nat) (after : Option Gap) : List Stmt → String → String
  | [], out => out
  | ⟨kind, decs⟩ :: stmts, out =>
      let apart : Bool :=
        match after with
        | some gap => gap == .blankLine || decs.before == .blankLine
        | none => false
      let out := commentLines decs.lead indent (if apart then out.push '\n' else out)
      let out := tabs (if kind.isLabeled then indent - 1 else indent) out
      let out := kind.write indent true out
      writeStmts indent (some decs.after) stmts ((trail decs out).push '\n')

/-- A label stands on a line of its own where its statement does. -/
def StmtKind.write (indent : Nat) (ownLine : Bool) : StmtKind → String → String
  | .expr value, out => value.write indent 0 1 out
  | .assign left op right, out =>
      let depth := if left.length > 1 && right.length > 1 then 2 else 1
      let out := writeExprs indent depth true left out ++ assignSign op
      writeExprs indent depth true right out
  | .spawn call, out => call.write indent 0 1 (out ++ "go ")
  | .defer call, out => call.write indent 0 1 (out ++ "defer ")
  | .ret results, out =>
      if results.isEmpty then out ++ "return"
      else writeExprs indent 1 true results (out ++ "return ")
  | .cond init test body alternative, out =>
      let out := out ++ "if "
      let out :=
        match init with
        | some ⟨kind, _⟩ => kind.write indent false out ++ "; "
        | none => out
      let out := body.write indent (test.writeStripped indent out ++ " ")
      match alternative with
      | some ⟨kind, _⟩ => kind.write indent false (out ++ " else ")
      | none => out
  | .loop header body, out => body.write indent (header.write indent (out ++ "for "))
  | .switch header clauses trailing, out =>
      let out := out ++ "switch "
      let out :=
        match header with
        | some header => out ++ header ++ " "
        | none => out
      if clauses.isEmpty && trailing.isEmpty then out ++ "\x7b\x7d"
      else
        let out := writeClauses indent clauses (out ++ "\x7b\n")
        tabs indent (commentLines trailing indent out) ++ "\x7d"
  | .select clauses trailing, out =>
      let out := out ++ "select "
      if clauses.isEmpty && trailing.isEmpty then out ++ "\x7b\x7d"
      else
        let out := writeClauses indent clauses (out ++ "\x7b\n")
        tabs indent (commentLines trailing indent out) ++ "\x7d"
  | .block block, out => block.write indent out
  | .labeled label ⟨kind, decs⟩, out =>
      if ownLine then trail decs (kind.write indent false (newLine indent (out ++ label ++ ":")))
      else kind.write indent false (out ++ label ++ ": ")
  | .decl ⟨text, _⟩, out => out ++ text
  | .verbatim text, out => out ++ text

def LoopHeader.write (indent : Nat) : LoopHeader → String → String
  | .infinite, out => out
  | .cond test, out => test.writeStripped indent out ++ " "
  | .clauses text, out => out ++ text ++ " "
  | .range key value op operand, out =>
      let out :=
        match key with
        | none => out
        | some key =>
            let out := key.write indent 0 1 out
            let out :=
              match value with
              | some value => value.write indent 0 1 (out ++ ", ")
              | none => out
            out ++ assignSign (op.getD .define)
      operand.writeStripped indent (out ++ "range ") ++ " "

def writeClauses (indent : Nat) : List Clause → String → String
  | [], out => out
  | ⟨head, body, trailing, decs⟩ :: clauses, out =>
      let out := if decs.before == .blankLine then out.push '\n' else out
      let out := tabs indent (commentLines decs.lead indent out) ++ head
      let out := writeStmts (indent + 1) none body ((trail decs out).push '\n')
      writeClauses indent clauses (commentLines trailing (indent + 1) out)

end

/-- The text of an expression on its own. -/
def Expr.text (expr : Expr) : String := expr.write 0 0 1 ""

/-- The text of a list of statements inside a block at the given level. -/
def stmtsText (stmts : List Stmt) (indent : Nat) : String := writeStmts indent none stmts ""

/-- The text of a single statement. -/
def Stmt.text (stmt : Stmt) : String := stmtsText [stmt] 0

/-! ## Files -/

namespace ImportSpec

def write (spec : ImportSpec) (out : String) : String :=
  let out :=
    match spec.name with
    | some name => out ++ name ++ " "
    | none => out
  trail spec.decs (out ++ "\"" ++ spec.path ++ "\"")

/-- A specification on a line of its own between parentheses. -/
def writeLine (first : Bool) (spec : ImportSpec) (out : String) : String :=
  let out := out.push '\n'
  let out := if !first && spec.decs.before == .blankLine then out.push '\n' else out
  spec.write (tabs 1 (commentLines spec.decs.lead 1 out))

end ImportSpec

def ImportDecl.write (decl : ImportDecl) (out : String) : String :=
  let out := out ++ "import "
  if decl.grouped then
    let out :=
      match decl.specs with
      | [] => out ++ "("
      | first :: rest =>
          rest.foldl (fun out (spec : ImportSpec) => spec.writeLine false out)
            (first.writeLine true (out ++ "("))
    commentLines decl.trailing 1 (out.push '\n') ++ ")"
  else
    match decl.specs with
    | [] => out
    | spec :: _ => spec.write out

def FuncDecl.write (decl : FuncDecl) (out : String) : String :=
  let out := out ++ "func "
  let out :=
    match decl.receiver with
    | some receiver => receiver.write 0 out ++ " "
    | none => out
  let out := decl.params.write 0 (out ++ decl.name.name ++ decl.typeParams.getD "")
  let out :=
    match decl.results with
    | some results => out ++ " " ++ results.text
    | none => out
  match decl.body with
  | some body => body.writeBody 0 (out ++ " ")
  | none => out

def DeclKind.write (kind : DeclKind) (out : String) : String :=
  match kind with
  | .imports decl => decl.write out
  | .func decl => decl.write out
  | .gen decl => out ++ decl.text
  | .verbatim text => out ++ text

def Decl.write (decl : Decl) (out : String) : String :=
  let out := if decl.decs.before == .blankLine then out.push '\n' else out
  let out := decl.kind.write (commentLines decl.decs.lead 0 out)
  (trail decl.decs out).push '\n'

/-- The text of a file. -/
def File.print (file : File) : String :=
  let out := commentLines file.packageDecs.lead 0 ""
  let out := (trail file.packageDecs (out ++ "package " ++ file.package)).push '\n'
  let out := file.decls.foldl (fun out decl => decl.write out) out
  commentLines file.trailing 0 out

end TraceWeave.Syntax
