import TraceWeave.Syntax.Walk

/-!
Editing walks over trees.

`Edits` says what becomes of identifiers and calls.  A call is edited after
everything in it.  Declarations are written back verbatim, so their values are
not offered for editing; neither are the types of composite literals.
-/

namespace TraceWeave.Syntax

structure Edits (m : Type → Type) where
  ident : Ident → m Ident
  call : Call → m Call
  /-- Enter the bodies of function literals. -/
  literals : Bool := true

/-- Which parts of a statement are edited. -/
inductive EditScope where
  /-- Its own expressions only. -/
  | own
  /-- Everything, every branch of a conditional being a statement of its own. -/
  | full
  /-- Its own expressions and its nested blocks. -/
  | labeled
  /-- Its nested blocks only. -/
  | nested
  deriving DecidableEq, Repr

namespace EditScope

def hasOwn (scope : EditScope) : Bool := scope != .nested

def hasNested (scope : EditScope) : Bool := scope != .own

/-- The scope of the branch behind `else`. -/
def branch : EditScope → EditScope
  | .full => .full
  | _ => .nested

/-- The scope of a statement behind a label. -/
def behindLabel : EditScope → EditScope
  | .full => .labeled
  | scope => scope

end EditScope

/-- Edits a part of a tree where it is covered. -/
def editIf {m : Type → Type} [Monad m] {α : Type} (covered : Bool) (part : α) (edit : m α) : m α :=
  if covered then edit else pure part

section

variable {m : Type → Type} [Monad m] (edits : Edits m)

mutual

def Expr.edit : Expr → m Expr
  | ⟨kind, decs⟩ => do return ⟨← kind.edit, decs⟩

def ExprKind.edit : ExprKind → m ExprKind
  | .ident ident => .ident <$> edits.ident ident
  | .selector operand member => do return .selector (← operand.edit) member
  | .star operand => do return .star (← operand.edit)
  | .unary op operand => do return .unary op (← operand.edit)
  | .paren inner => do return .paren (← inner.edit)
  | .binary left op right => do
      let left ← left.edit
      return .binary left op (← right.edit)
  | .call ⟨callee, args, spread, closesLine⟩ => do
      let callee ← callee.edit
      let args ← editExprs args
      return .call (← edits.call ⟨callee, args, spread, closesLine⟩)
  | .index operand indices => do
      let operand ← operand.edit
      return .index operand (← editExprs indices)
  | .func params results ⟨body, trailing, inline⟩ => do
      let body ← editIf edits.literals body (editStmts body)
      return .func params results ⟨body, trailing, inline⟩
  | kind => pure kind

def editExprs : List Expr → m (List Expr)
  | [] => pure []
  | expr :: exprs => do
      let expr ← expr.edit
      return expr :: (← editExprs exprs)

def StmtKind.edit (scope : EditScope) : StmtKind → m StmtKind
  | .expr value => do return .expr (← editIf scope.hasOwn value value.edit)
  | .spawn call => do return .spawn (← editIf scope.hasOwn call call.edit)
  | .defer call => do return .defer (← editIf scope.hasOwn call call.edit)
  | .assign left op right => do
      let left ← editIf scope.hasOwn left (editExprs left)
      return .assign left op (← editIf scope.hasOwn right (editExprs right))
  | .ret results => do return .ret (← editIf scope.hasOwn results (editExprs results))
  | .cond init test ⟨body, trailing, inline⟩ alternative => do
      let init ← editIf scope.hasOwn init (editOptional .own init)
      let test ← editIf scope.hasOwn test test.edit
      let body ← editIf scope.hasNested body (editStmts body)
      let alternative ←
        editIf scope.hasNested alternative (editOptional scope.branch alternative)
      return .cond init test ⟨body, trailing, inline⟩ alternative
  | .loop header ⟨body, trailing, inline⟩ => do
      let header ← editIf scope.hasOwn header header.edit
      let body ← editIf scope.hasNested body (editStmts body)
      return .loop header ⟨body, trailing, inline⟩
  | .switch header clauses trailing => do
      return .switch header (← editIf scope.hasNested clauses (editClauses clauses)) trailing
  | .select clauses trailing => do
      return .select (← editIf scope.hasNested clauses (editClauses clauses)) trailing
  | .block ⟨body, trailing, inline⟩ => do
      return .block ⟨← editIf scope.hasNested body (editStmts body), trailing, inline⟩
  | .labeled label ⟨kind, decs⟩ => do
      return .labeled label ⟨← kind.edit scope.behindLabel, decs⟩
  | kind => pure kind

/-- Edits the first statement of a conditional, or the branch behind `else`, if there is one. -/
def editOptional (scope : EditScope) : Option Stmt → m (Option Stmt)
  | none => pure none
  | some ⟨kind, decs⟩ => do return some ⟨← kind.edit scope, decs⟩

def LoopHeader.edit : LoopHeader → m LoopHeader
  | .cond test => do return .cond (← test.edit)
  | .range key value op operand => do return .range key value op (← operand.edit)
  | header => pure header

def editStmts : List Stmt → m (List Stmt)
  | [] => pure []
  | ⟨kind, decs⟩ :: stmts => do
      let kind ← kind.edit .full
      return ⟨kind, decs⟩ :: (← editStmts stmts)

def editClauses : List Clause → m (List Clause)
  | [] => pure []
  | ⟨head, body, trailing, decs⟩ :: clauses => do
      let body ← editStmts body
      return ⟨head, body, trailing, decs⟩ :: (← editClauses clauses)

end

/-- Edits the own expressions of a statement. -/
def Stmt.editOwn (stmt : Stmt) : m Stmt :=
  return { stmt with kind := ← stmt.kind.edit edits .own }

end

/-- Changes the lists of statements inside a statement, in source order. -/
def StmtKind.editBlocks {m : Type → Type} [Monad m] (edit : List Stmt → m (List Stmt)) :
    StmtKind → m StmtKind
  | .cond init test ⟨body, trailing, inline⟩ alternative => do
      let body ← edit body
      let alternative ←
        match alternative with
        | some ⟨kind, decs⟩ => do pure (some ⟨← kind.editBlocks edit, decs⟩)
        | none => pure none
      return .cond init test ⟨body, trailing, inline⟩ alternative
  | .loop header ⟨body, trailing, inline⟩ => do
      return .loop header ⟨← edit body, trailing, inline⟩
  | .switch header clauses trailing => do
      return .switch header (← clauses.mapM fun clause =>
        return { clause with body := ← edit clause.body }) trailing
  | .select clauses trailing => do
      return .select (← clauses.mapM fun clause =>
        return { clause with body := ← edit clause.body }) trailing
  | .block ⟨body, trailing, inline⟩ => do return .block ⟨← edit body, trailing, inline⟩
  | .labeled label ⟨kind, decs⟩ => do return .labeled label ⟨← kind.editBlocks edit, decs⟩
  | kind => pure kind

def Stmt.editBlocks {m : Type → Type} [Monad m] (edit : List Stmt → m (List Stmt))
    (stmt : Stmt) : m Stmt :=
  return { stmt with kind := ← stmt.kind.editBlocks edit }

/-- Edits of the calls alone. -/
def Edits.calls {m : Type → Type} [Monad m] (literals : Bool) (visit : Call → m Call) : Edits m :=
  { ident := pure, call := visit, literals }

/-- Edits of the identifiers alone. -/
def Edits.idents {m : Type → Type} [Monad m] (visit : Ident → m Ident) : Edits m :=
  { ident := visit, call := pure }

end TraceWeave.Syntax
