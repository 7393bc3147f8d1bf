import TraceWeave.Proofs.Syntax.Lists

/-!
The expressions that a tree holds, each with whether it is called.

An expression is called if it is the callee of a call, parentheses aside.  The callees of all
calls occur with all that they hold (`StmtKind.holds_callees`), and so do the names that a
statement assigns to (`StmtKind.mem_mentions_of_targets`).
-/

namespace TraceWeave.Syntax

mutual

def Expr.occurrences (called : Bool) : Expr → List (Bool × Expr)
  | ⟨kind, decs⟩ => (called, ⟨kind, decs⟩) :: kind.occurrences called

def ExprKind.occurrences (called : Bool) : ExprKind → List (Bool × Expr)
  | .selector operand _ => operand.occurrences false
  | .star operand => operand.occurrences false
  | .unary _ operand => operand.occurrences false
  | .paren inner => inner.occurrences called
  | .binary left _ right => left.occurrences false ++ right.occurrences false
  | .call ⟨callee, args, _, _⟩ => callee.occurrences true ++ occurrencesOfExprs args
  | .index operand indices => operand.occurrences false ++ occurrencesOfExprs indices
  | .composite (some type) _ => type.occurrences false
  | .func _ _ ⟨body, _, _⟩ => occurrencesOfStmts body
  | _ => []

def occurrencesOfExprs : List Expr → List (Bool × Expr)
  | [] => []
  | expr :: exprs => expr.occurrences false ++ occurrencesOfExprs exprs

def StmtKind.occurrences : StmtKind → List (Bool × Expr)
  | .expr value => value.occurrences false
  | .spawn call => call.occurrences false
  | .defer call => call.occurrences false
  | .assign left _ right => occurrencesOfExprs left ++ occurrencesOfExprs right
  | .ret results => occurrencesOfExprs results
  | .cond init test ⟨body, _, _⟩ alternative =>
      occurrencesOfOptional init ++ (test.occurrences false ++
        (occurrencesOfStmts body ++ occurrencesOfOptional alternative))
  | .loop header ⟨body, _, _⟩ => header.occurrences ++ occurrencesOfStmts body
  | .switch _ clauses _ => occurrencesOfClauses clauses
  | .select clauses _ => occurrencesOfClauses clauses
  | .block ⟨body, _, _⟩ => occurrencesOfStmts body
  | .labeled _ ⟨kind, _⟩ => kind.occurrences
  | .decl ⟨_, specs⟩ => occurrencesOfSpecs specs
  | .verbatim _ => []

def occurrencesOfOptional : Option Stmt → List (Bool × Expr)
  | none => []
  | some ⟨kind, _⟩ => kind.occurrences

def LoopHeader.occurrences : LoopHeader → List (Bool × Expr)
  | .cond test => test.occurrences false
  | .range key value _ operand =>
      occurrencesOfOptionalExpr key ++ (occurrencesOfOptionalExpr value ++ operand.occurrences false)
  | _ => []

def occurrencesOfOptionalExpr : Option Expr → List (Bool × Expr)
  | none => []
  | some expr => expr.occurrences false

def occurrencesOfStmts : List Stmt → List (Bool × Expr)
  | [] => []
  | ⟨kind, _⟩ :: stmts => kind.occurrences ++ occurrencesOfStmts stmts

def occurrencesOfClauses : List Clause → List (Bool × Expr)
  | [] => []
  | ⟨_, body, _, _⟩ :: clauses => occurrencesOfStmts body ++ occurrencesOfClauses clauses

def occurrencesOfSpecs : List Spec → List (Bool × Expr)
  | [] => []
  | .value _ _ values _ :: specs => occurrencesOfExprs values ++ occurrencesOfSpecs specs
  | .type _ _ _ :: specs => occurrencesOfSpecs specs

end

theorem Expr.mem_occurrences_self (expr : Expr) (called : Bool) :
    (called, expr) ∈ expr.occurrences called := by
  cases expr
  exact List.mem_cons_self

theorem occurrences_subset_exprs {exprs : List Expr} {expr : Expr} (h : expr ∈ exprs) :
    expr.occurrences false ⊆ occurrencesOfExprs exprs := by
  induction exprs with
  | nil => contradiction
  | cons other exprs ih =>
      obtain rfl | h := List.mem_cons.1 h
      · exact List.subset_append_left ..
      · exact List.subset_append_of_subset_right _ (ih h)

theorem occurrences_subset_stmts {stmts : List Stmt} {stmt : Stmt} (h : stmt ∈ stmts) :
    stmt.kind.occurrences ⊆ occurrencesOfStmts stmts := by
  induction stmts with
  | nil => contradiction
  | cons other stmts ih =>
      obtain ⟨kind, decs⟩ := other
      obtain rfl | h := List.mem_cons.1 h
      · exact List.subset_append_left ..
      · exact List.subset_append_of_subset_right _ (ih h)

/-! ## Callees -/

section

variable {all : List (Bool × Expr)}

mutual

theorem Expr.holds_callees (expr : Expr) (reached : Bool) {called : Bool}
    (h : expr.occurrences called ⊆ all) :
    Holds (fun _ call => call.callee.occurrences true ⊆ all) (expr.calls reached) := by
  obtain ⟨kind, decs⟩ := expr
  exact kind.holds_callees reached (List.subset_of_cons_subset h)

theorem ExprKind.holds_callees (kind : ExprKind) (reached : Bool) {called : Bool}
    (h : kind.occurrences called ⊆ all) :
    Holds (fun _ call => call.callee.occurrences true ⊆ all) (kind.calls reached) := by
  cases kind with
  | selector operand member => exact operand.holds_callees reached h
  | star operand => exact operand.holds_callees reached h
  | unary op operand => exact operand.holds_callees reached h
  | paren inner => exact inner.holds_callees reached h
  | binary left op right =>
      obtain ⟨hleft, hright⟩ := List.append_subset.1 h
      exact Holds.append.2 ⟨left.holds_callees reached hleft, right.holds_callees reached hright⟩
  | call call =>
      obtain ⟨callee, args, spread, closesLine⟩ := call
      obtain ⟨hcallee, hargs⟩ := List.append_subset.1 h
      exact Holds.cons.2 ⟨hcallee, Holds.append.2
        ⟨callee.holds_callees reached hcallee, holds_calleesOfExprs args reached hargs⟩⟩
  | index operand indices =>
      obtain ⟨hoperand, hindices⟩ := List.append_subset.1 h
      exact Holds.append.2 ⟨operand.holds_callees reached hoperand,
        holds_calleesOfExprs indices reached hindices⟩
  | composite type body =>
      cases type with
      | none => exact .nil
      | some type => exact type.holds_callees false h
  | func params results body =>
      obtain ⟨stmts, trailing, inline⟩ := body
      exact holds_calleesOfStmts stmts reached h
  | _ => exact .nil

theorem holds_calleesOfExprs (exprs : List Expr) (reached : Bool)
    (h : occurrencesOfExprs exprs ⊆ all) :
    Holds (fun _ call => call.callee.occurrences true ⊆ all) (callsOfExprs reached exprs) := by
  cases exprs with
  | nil => exact .nil
  | cons expr exprs =>
      obtain ⟨hexpr, hexprs⟩ := List.append_subset.1 h
      exact holds_exprs_cons.2
        ⟨expr.holds_callees reached hexpr, holds_calleesOfExprs exprs reached hexprs⟩

theorem StmtKind.holds_callees (kind : StmtKind) (reached : Bool) (scope : EditScope)
    (h : kind.occurrences ⊆ all) :
    Holds (fun _ call => call.callee.occurrences true ⊆ all) (kind.calls reached scope) := by
  cases kind with
  | expr value => exact value.holds_callees _ h
  | spawn call => exact call.holds_callees _ h
  | defer call => exact call.holds_callees _ h
  | assign left op right =>
      obtain ⟨hleft, hright⟩ := List.append_subset.1 h
      exact Holds.append.2 ⟨holds_calleesOfExprs left _ hleft, holds_calleesOfExprs right _ hright⟩
  | ret results => exact holds_calleesOfExprs results _ h
  | cond init test body alternative =>
      obtain ⟨body, trailing, inline⟩ := body
      obtain ⟨hinit, h⟩ := List.append_subset.1 h
      obtain ⟨htest, h⟩ := List.append_subset.1 h
      obtain ⟨hbody, halternative⟩ := List.append_subset.1 h
      exact Holds.append.2 ⟨holds_calleesOfOptional init _ _ hinit,
        Holds.append.2 ⟨test.holds_callees _ htest, Holds.append.2
          ⟨holds_calleesOfStmts body _ hbody, holds_calleesOfOptional alternative _ _ halternative⟩⟩⟩
  | loop header body =>
      obtain ⟨body, trailing, inline⟩ := body
      obtain ⟨hheader, hbody⟩ := List.append_subset.1 h
      exact Holds.append.2 ⟨header.holds_callees _ hheader, holds_calleesOfStmts body _ hbody⟩
  | switch header clauses trailing => exact holds_calleesOfClauses clauses _ h
  | select clauses trailing => exact holds_calleesOfClauses clauses _ h
  | block body =>
      obtain ⟨body, trailing, inline⟩ := body
      exact holds_calleesOfStmts body _ h
  | labeled label stmt =>
      obtain ⟨kind, decs⟩ := stmt
      exact kind.holds_callees reached _ h
  | decl group =>
      obtain ⟨text, specs⟩ := group
      exact holds_calleesOfSpecs specs h
  | verbatim text => exact .nil

theorem holds_calleesOfOptional (stmt : Option Stmt) (reached : Bool) (scope : EditScope)
    (h : occurrencesOfOptional stmt ⊆ all) :
    Holds (fun _ call => call.callee.occurrences true ⊆ all) (callsOfOptional reached scope stmt) := by
  cases stmt with
  | none => exact .nil
  | some stmt =>
      obtain ⟨kind, decs⟩ := stmt
      exact kind.holds_callees reached scope h

theorem LoopHeader.holds_callees (header : LoopHeader) (reached : Bool)
    (h : header.occurrences ⊆ all) :
    Holds (fun _ call => call.callee.occurrences true ⊆ all) (header.calls reached) := by
  cases header with
  | cond test => exact test.holds_callees reached h
  | range key value op operand =>
      obtain ⟨hkey, h⟩ := List.append_subset.1 h
      obtain ⟨hvalue, hoperand⟩ := List.append_subset.1 h
      exact Holds.append.2 ⟨holds_calleesOfOptionalExpr key hkey, Holds.append.2
        ⟨holds_calleesOfOptionalExpr value hvalue, operand.holds_callees reached hoperand⟩⟩
  | _ => exact .nil

theorem holds_calleesOfOptionalExpr (expr : Option Expr)
    (h : occurrencesOfOptionalExpr expr ⊆ all) :
    Holds (fun _ call => call.callee.occurrences true ⊆ all) (callsOfOptionalExpr expr) := by
  cases expr with
  | none => exact .nil
  | some expr => exact expr.holds_callees false h

theorem holds_calleesOfStmts (stmts : List Stmt) (reached : Bool)
    (h : occurrencesOfStmts stmts ⊆ all) :
    Holds (fun _ call => call.callee.occurrences true ⊆ all) (callsOfStmts reached stmts) := by
  cases stmts with
  | nil => exact .nil
  | cons stmt stmts =>
      obtain ⟨kind, decs⟩ := stmt
      obtain ⟨hkind, hstmts⟩ := List.append_subset.1 h
      exact Holds.append.2
        ⟨kind.holds_callees reached .full hkind, holds_calleesOfStmts stmts reached hstmts⟩

theorem holds_calleesOfClauses (clauses : List Clause) (reached : Bool)
    (h : occurrencesOfClauses clauses ⊆ all) :
    Holds (fun _ call => call.callee.occurrences true ⊆ all) (callsOfClauses reached clauses) := by
  cases clauses with
  | nil => exact .nil
  | cons clause clauses =>
      obtain ⟨head, body, trailing, decs⟩ := clause
      obtain ⟨hbody, hclauses⟩ := List.append_subset.1 h
      exact Holds.append.2
        ⟨holds_calleesOfStmts body reached hbody, holds_calleesOfClauses clauses reached hclauses⟩

theorem holds_calleesOfSpecs (specs : List Spec) (h : occurrencesOfSpecs specs ⊆ all) :
    Holds (fun _ call => call.callee.occurrences true ⊆ all) (callsOfSpecs specs) := by
  cases specs with
  | nil => exact .nil
  | cons spec specs =>
      cases spec with
      | value names type values constant =>
          obtain ⟨hvalues, hspecs⟩ := List.append_subset.1 h
          exact Holds.append.2
            ⟨holds_calleesOfExprs values false hvalues, holds_calleesOfSpecs specs hspecs⟩
      | type name isAlias definition => exact holds_calleesOfSpecs specs h

end

end

/-! ## Names -/

/-- The names that occur. -/
def mentioned (occurrences : List (Bool × Expr)) : List String :=
  namesOf (occurrences.map (·.2))

theorem mem_mentioned {name : String} {all : List (Bool × Expr)} :
    name ∈ mentioned all ↔
      ∃ occurrence ∈ all, ∃ ident, occurrence.2.ident? = some ident ∧ ident.name = name := by
  simp only [mentioned, mem_namesOf, List.mem_map, exists_exists_and_eq_and]

theorem mentioned_mono {front back : List (Bool × Expr)} (h : front ⊆ back) :
    mentioned front ⊆ mentioned back := by
  intro name hname
  obtain ⟨occurrence, hmem, hident⟩ := mem_mentioned.1 hname
  exact mem_mentioned.2 ⟨occurrence, h hmem, hident⟩

theorem mentioned_append (front back : List (Bool × Expr)) :
    mentioned (front ++ back) = mentioned front ++ mentioned back := by
  simp [mentioned, namesOf]

theorem namesOf_mentioned (exprs : List Expr) : namesOf exprs ⊆ mentioned (occurrencesOfExprs exprs) := by
  induction exprs with
  | nil => exact List.nil_subset _
  | cons expr exprs ih =>
      intro name hname
      obtain ⟨other, hmem, ident, hident, rfl⟩ := mem_namesOf.1 hname
      rw [occurrencesOfExprs, mentioned_append, List.mem_append]
      rcases List.mem_cons.1 hmem with rfl | hmem
      · exact .inl (mem_mentioned.2 ⟨(false, other), other.mem_occurrences_self false, ident, hident, rfl⟩)
      · exact .inr (ih (mem_namesOf.2 ⟨other, hmem, ident, hident, rfl⟩))

mutual

theorem StmtKind.targets_mentioned (kind : StmtKind) : kind.targets ⊆ mentioned kind.occurrences := by
  cases kind with
  | assign left op right =>
      exact List.Subset.trans (namesOf_mentioned left) (mentioned_mono (List.subset_append_left ..))
  | cond init test body alternative =>
      obtain ⟨body, trailing, inline⟩ := body
      simp only [StmtKind.targets, StmtKind.occurrences, mentioned_append]
      refine List.append_subset.2 ⟨?_, ?_⟩
      · exact List.Subset.trans (targetsOfStmts_mentioned body) fun name hname => by simp [hname]
      · exact List.Subset.trans (targetsOfOptional_mentioned alternative) fun name hname => by simp [hname]
  | loop header body =>
      obtain ⟨body, trailing, inline⟩ := body
      exact List.Subset.trans (targetsOfStmts_mentioned body)
        (mentioned_mono (List.subset_append_right ..))
  | switch header clauses trailing => exact targetsOfClauses_mentioned clauses
  | select clauses trailing => exact targetsOfClauses_mentioned clauses
  | block body =>
      obtain ⟨body, trailing, inline⟩ := body
      exact targetsOfStmts_mentioned body
  | labeled label stmt =>
      obtain ⟨kind, decs⟩ := stmt
      exact kind.targets_mentioned
  | _ => simp [StmtKind.targets]

theorem targetsOfOptional_mentioned (stmt : Option Stmt) :
    targetsOfOptional stmt ⊆ mentioned (occurrencesOfOptional stmt) := by
  cases stmt with
  | none => exact List.nil_subset _
  | some stmt =>
      obtain ⟨kind, decs⟩ := stmt
      exact kind.targets_mentioned

theorem targetsOfStmts_mentioned (stmts : List Stmt) :
    targetsOfStmts stmts ⊆ mentioned (occurrencesOfStmts stmts) := by
  cases stmts with
  | nil => exact List.nil_subset _
  | cons stmt stmts =>
      obtain ⟨kind, decs⟩ := stmt
      rw [occurrencesOfStmts, mentioned_append]
      exact List.append_subset.2
        ⟨List.Subset.trans kind.targets_mentioned (List.subset_append_left ..),
          List.Subset.trans (targetsOfStmts_mentioned stmts) (List.subset_append_right ..)⟩

theorem targetsOfClauses_mentioned (clauses : List Clause) :
    targetsOfClauses clauses ⊆ mentioned (occurrencesOfClauses clauses) := by
  cases clauses with
  | nil => exact List.nil_subset _
  | cons clause clauses =>
      obtain ⟨head, body, trailing, decs⟩ := clause
      rw [occurrencesOfClauses, mentioned_append]
      exact List.append_subset.2
        ⟨List.Subset.trans (targetsOfStmts_mentioned body) (List.subset_append_left ..),
          List.Subset.trans (targetsOfClauses_mentioned clauses) (List.subset_append_right ..)⟩

end

end TraceWeave.Syntax
