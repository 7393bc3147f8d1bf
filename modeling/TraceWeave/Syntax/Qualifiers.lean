import TraceWeave.Syntax.Walk

/-!
The names in front of dots.

The walk goes where `Expr.parts` goes, and into the types of the parameters of function
literals besides.  It may be asked whether code refers to a package.
-/

namespace TraceWeave.Syntax

/-- The name in front of the dot of a selector. -/
def ExprKind.qualifier? : ExprKind → Option String
  | .selector operand _ => operand.ident?.map (·.name)
  | _ => none

mutual

def Expr.qualifiers : Expr → List String
  | ⟨kind, _⟩ => kind.qualifier?.toList ++ kind.qualifiersInside

def ExprKind.qualifiersInside : ExprKind → List String
  | .selector operand _ => operand.qualifiers
  | .star operand => operand.qualifiers
  | .unary _ operand => operand.qualifiers
  | .paren inner => inner.qualifiers
  | .binary left _ right => left.qualifiers ++ right.qualifiers
  | .call ⟨callee, args, _, _⟩ => callee.qualifiers ++ qualifiersOfExprs args
  | .index operand indices => operand.qualifiers ++ qualifiersOfExprs indices
  | .composite (some type) _ => type.qualifiers
  | .func ⟨fields, _⟩ _ ⟨body, _, _⟩ => qualifiersOfFields fields ++ qualifiersOfStmts body
  | _ => []

def qualifiersOfExprs : List Expr → List String
  | [] => []
  | expr :: exprs => expr.qualifiers ++ qualifiersOfExprs exprs

def qualifiersOfFields : List Field → List String
  | [] => []
  | ⟨_, type, _, _⟩ :: fields => type.qualifiers ++ qualifiersOfFields fields

/-- Those in the own expressions of a statement. -/
def StmtKind.ownQualifiers : StmtKind → List String
  | .expr value => value.qualifiers
  | .spawn call => call.qualifiers
  | .defer call => call.qualifiers
  | .assign left _ right => qualifiersOfExprs left ++ qualifiersOfExprs right
  | .ret results => qualifiersOfExprs results
  | .cond init test _ _ =>
      (match init with
        | some ⟨kind, _⟩ => kind.ownQualifiers
        | none => []) ++ test.qualifiers
  | .loop (.cond test) _ => test.qualifiers
  | .loop (.range _ _ _ operand) _ => operand.qualifiers
  | .labeled _ ⟨kind, _⟩ => kind.ownQualifiers
  | .decl ⟨_, specs⟩ => qualifiersOfSpecs specs
  | _ => []

def qualifiersOfSpecs : List Spec → List String
  | [] => []
  | .value _ _ values _ :: specs => qualifiersOfExprs values ++ qualifiersOfSpecs specs
  | .type _ _ _ :: specs => qualifiersOfSpecs specs

/-- Those in the nested blocks; `branches` adds the headers of `else if` branches. -/
def StmtKind.nestedQualifiers (branches : Bool) : StmtKind → List String
  | .cond _ _ ⟨body, _, _⟩ alternative =>
      qualifiersOfStmts body ++
        match alternative with
        | some ⟨kind, _⟩ =>
            (if branches then kind.ownQualifiers else []) ++ kind.nestedQualifiers branches
        | none => []
  | .loop _ ⟨body, _, _⟩ => qualifiersOfStmts body
  | .switch _ clauses _ => qualifiersOfClauses clauses
  | .select clauses _ => qualifiersOfClauses clauses
  | .block ⟨body, _, _⟩ => qualifiersOfStmts body
  | .labeled _ ⟨kind, _⟩ => kind.nestedQualifiers false
  | _ => []

def qualifiersOfStmts : List Stmt → List String
  | [] => []
  | ⟨kind, _⟩ :: stmts =>
      kind.ownQualifiers ++ kind.nestedQualifiers true ++ qualifiersOfStmts stmts

def qualifiersOfClauses : List Clause → List String
  | [] => []
  | ⟨_, body, _, _⟩ :: clauses => qualifiersOfStmts body ++ qualifiersOfClauses clauses

end

end TraceWeave.Syntax
