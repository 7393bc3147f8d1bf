import TraceWeave.Syntax.Build

/-!
Reading walks over trees.

`Expr.parts` lists an expression and everything in it, every node in front of
what it holds.  `Stmt.all` lists a statement and the statements of its nested
blocks.  The branches of a conditional behind `else` count as statements of
their own, except where the conditional has a label.
-/

namespace TraceWeave.Syntax

/-! ## Statements and their own expressions -/

/-- The values of the specifications of a declaration. -/
def Spec.values : Spec → List Expr
  | .value _ _ values _ => values
  | .type _ _ _ => []

/-- The expressions of a statement outside its nested blocks. -/
def StmtKind.ownExprs : StmtKind → List Expr
  | .expr value => [value]
  | .spawn call => [call]
  | .defer call => [call]
  | .assign left _ right => left ++ right
  | .ret results => results
  | .cond init test _ _ =>
      (match init with
        | some ⟨kind, _⟩ => kind.ownExprs
        | none => []) ++ [test]
  | .loop (.cond test) _ => [test]
  | .loop (.range _ _ _ operand) _ => [operand]
  | .labeled _ ⟨kind, _⟩ => kind.ownExprs
  | .decl group => group.specs.flatMap Spec.values
  | _ => []

def Stmt.ownExprs (stmt : Stmt) : List Expr := stmt.kind.ownExprs

mutual

/-- A statement and the statements of its nested blocks, outer ones first. -/
def Stmt.all : Stmt → List Stmt
  | ⟨.cond init test ⟨body, trailing, inline⟩ alternative, decs⟩ =>
      ⟨.cond init test ⟨body, trailing, inline⟩ alternative, decs⟩ :: allStmts body ++
        match alternative with
        | some stmt => stmt.all
        | none => []
  | ⟨kind, decs⟩ => ⟨kind, decs⟩ :: kind.nested

/-- The statements of the nested blocks alone. -/
def StmtKind.nested : StmtKind → List Stmt
  | .cond _ _ ⟨body, _, _⟩ alternative =>
      allStmts body ++
        match alternative with
        | some ⟨kind, _⟩ => kind.nested
        | none => []
  | .loop _ ⟨body, _, _⟩ => allStmts body
  | .switch _ clauses _ => clauseStmts clauses
  | .select clauses _ => clauseStmts clauses
  | .block ⟨body, _, _⟩ => allStmts body
  | .labeled _ ⟨kind, _⟩ => kind.nested
  | _ => []

def allStmts : List Stmt → List Stmt
  | [] => []
  | stmt :: stmts => stmt.all ++ allStmts stmts

def clauseStmts : List Clause → List Stmt
  | [] => []
  | ⟨_, body, _, _⟩ :: clauses => allStmts body ++ clauseStmts clauses

end

/-! ## Expressions -/

mutual

/-- An expression and what it holds; bodies of function literals count if asked for. -/
def Expr.parts (literals : Bool) : Expr → List Expr
  | ⟨kind, decs⟩ => ⟨kind, decs⟩ :: kind.parts literals

def ExprKind.parts (literals : Bool) : ExprKind → List Expr
  | .selector operand _ => operand.parts literals
  | .star operand => operand.parts literals
  | .unary _ operand => operand.parts literals
  | .paren inner => inner.parts literals
  | .binary left _ right => left.parts literals ++ right.parts literals
  | .call ⟨callee, args, _, _⟩ => callee.parts literals ++ partsOfExprs literals args
  | .index operand indices => operand.parts literals ++ partsOfExprs literals indices
  | .composite (some type) _ => type.parts literals
  | .func _ _ ⟨body, _, _⟩ => if literals then partsOfStmts body else []
  | _ => []

def partsOfExprs (literals : Bool) : List Expr → List Expr
  | [] => []
  | expr :: exprs => expr.parts literals ++ partsOfExprs literals exprs

/-- The parts of the own expressions of a statement, function literals included. -/
def StmtKind.ownParts : StmtKind → List Expr
  | .expr value => value.parts true
  | .spawn call => call.parts true
  | .defer call => call.parts true
  | .assign left _ right => partsOfExprs true left ++ partsOfExprs true right
  | .ret results => partsOfExprs true results
  | .cond init test _ _ =>
      (match init with
        | some ⟨kind, _⟩ => kind.ownParts
        | none => []) ++ test.parts true
  | .loop (.cond test) _ => test.parts true
  | .loop (.range _ _ _ operand) _ => operand.parts true
  | .labeled _ ⟨kind, _⟩ => kind.ownParts
  | .decl ⟨_, specs⟩ => partsOfSpecs specs
  | _ => []

def partsOfSpecs : List Spec → List Expr
  | [] => []
  | .value _ _ values _ :: specs => partsOfExprs true values ++ partsOfSpecs specs
  | .type _ _ _ :: specs => partsOfSpecs specs

/-- The parts of all expressions of a statement and its nested blocks. -/
def Stmt.parts : Stmt → List Expr
  | ⟨kind, _⟩ => kind.ownParts ++ kind.nestedParts true

/-- The parts of the nested blocks; `branches` adds the headers of `else if` branches. -/
def StmtKind.nestedParts (branches : Bool) : StmtKind → List Expr
  | .cond _ _ ⟨body, _, _⟩ alternative =>
      partsOfStmts body ++
        match alternative with
        | some ⟨kind, _⟩ => (if branches then kind.ownParts else []) ++ kind.nestedParts branches
        | none => []
  | .loop _ ⟨body, _, _⟩ => partsOfStmts body
  | .switch _ clauses _ => partsOfClauses clauses
  | .select clauses _ => partsOfClauses clauses
  | .block ⟨body, _, _⟩ => partsOfStmts body
  | .labeled _ ⟨kind, _⟩ => kind.nestedParts false
  | _ => []

def partsOfStmts : List Stmt → List Expr
  | [] => []
  | stmt :: stmts => stmt.parts ++ partsOfStmts stmts

def partsOfClauses : List Clause → List Expr
  | [] => []
  | ⟨_, body, _, _⟩ :: clauses => partsOfStmts body ++ partsOfClauses clauses

end

/-! ## Nesting -/

mutual

/-- How deep blocks are nested in a statement, bodies of spawned function literals included. -/
def StmtKind.depth : StmtKind → Nat
  | .cond _ _ ⟨body, _, _⟩ alternative =>
      max (depthOfStmts body + 1)
        (match alternative with
          | some ⟨kind, _⟩ => kind.depth
          | none => 0)
  | .loop _ ⟨body, _, _⟩ => depthOfStmts body + 1
  | .switch _ clauses _ => depthOfClauses clauses + 1
  | .select clauses _ => depthOfClauses clauses + 1
  | .block ⟨body, _, _⟩ => depthOfStmts body + 1
  | .labeled _ ⟨kind, _⟩ => kind.depth
  | .spawn ⟨.call ⟨⟨.func _ _ ⟨body, _, _⟩, _⟩, _, _, _⟩, _⟩ => depthOfStmts body + 1
  | _ => 0

def depthOfStmts : List Stmt → Nat
  | [] => 0
  | ⟨kind, _⟩ :: stmts => max kind.depth (depthOfStmts stmts)

def depthOfClauses : List Clause → Nat
  | [] => 0
  | ⟨_, body, _, _⟩ :: clauses => max (depthOfStmts body) (depthOfClauses clauses)

end

/-- Some expression of the statement refers to the name. -/
def Stmt.mentions (stmt : Stmt) (name : String) : Bool :=
  stmt.parts.any (·.isIdent name)

end TraceWeave.Syntax
