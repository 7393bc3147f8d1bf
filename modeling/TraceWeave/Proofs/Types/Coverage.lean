import TraceWeave.Proofs.Syntax.Occurrences
import TraceWeave.Proofs.Types.Scoping

/-!
The identifiers that reading a body comes by.

Every identifier that stands as an expression in a body has an event (`covered_stmts`), if the
types of composite literals are written with names, as those read from a source are: where they
hold other expressions they are kept as text.
-/

namespace TraceWeave.Types

open TraceWeave.Syntax

mutual

/-- What names a type, or stands for one as text. -/
def isTypeName : Expr → Bool
  | ⟨.ident _, _⟩ => true
  | ⟨.selector operand _, _⟩ =>
      match operand with
      | ⟨.ident _, _⟩ => true
      | _ => false
  | ⟨.star operand, _⟩ => isTypeName operand
  | ⟨.paren inner, _⟩ => isTypeName inner
  | ⟨.index operand indices, _⟩ => isTypeName operand && areTypeNames indices
  | ⟨.literal _, _⟩ => true
  | ⟨.verbatim _, _⟩ => true
  | _ => false

def areTypeNames : List Expr → Bool
  | [] => true
  | type :: types => isTypeName type && areTypeNames types

end

/-- A qualified type is a member of what an identifier names. -/
theorem exists_ident_of_isTypeName {operand : Expr} {member : Ident} {decs : Decorations}
    (h : isTypeName ⟨.selector operand member, decs⟩ = true) :
    ∃ ident decs', operand = ⟨.ident ident, decs'⟩ := by
  obtain ⟨kind, decs'⟩ := operand
  cases kind with
  | ident ident => exact ⟨ident, decs', rfl⟩
  | _ => exact nomatch h

/-- The types of the composite literals are written with names. -/
def NamesTypes (occurrences : List (Bool × Expr)) : Prop :=
  ∀ {called : Bool} {type : Expr} {body : String} {decs : Decorations},
    (called, ⟨.composite (some type) body, decs⟩) ∈ occurrences → isTypeName type = true

/-- The identifiers of the expressions are among those of the events. -/
def Covered (occurrences : List (Bool × Expr)) (events : List Event) : Prop :=
  NamesTypes occurrences → ∀ {called : Bool} {ident : Ident} {decs : Decorations},
    (called, ⟨.ident ident, decs⟩) ∈ occurrences → ident ∈ identsOf events

namespace Covered

variable {first second : List (Bool × Expr)} {events front back : List Event}

theorem nil (events : List Event) : Covered [] events := fun _ _ _ _ h => by contradiction

theorem both (hfirst : Covered first events) (hsecond : Covered second events) :
    Covered (first ++ second) events := by
  intro hnames called ident decs hmem
  obtain hmem | hmem := List.mem_append.1 hmem
  · exact hfirst (fun h => hnames (List.mem_append_left _ h)) hmem
  · exact hsecond (fun h => hnames (List.mem_append_right _ h)) hmem

theorem left (h : Covered first front) (back : List Event) : Covered first (front ++ back) := by
  intro hnames called ident decs hmem
  rw [identsOf, List.filterMap_append]
  exact List.mem_append_left _ (h hnames hmem)

theorem right (h : Covered first back) (front : List Event) : Covered first (front ++ back) := by
  intro hnames called ident decs hmem
  rw [identsOf, List.filterMap_append]
  exact List.mem_append_right _ (h hnames hmem)

theorem append (hfirst : Covered first front) (hsecond : Covered second back) :
    Covered (first ++ second) (front ++ back) :=
  both (hfirst.left back) (hsecond.right front)

/-- What is evaluated first may be written last. -/
theorem swap (hfirst : Covered first back) (hsecond : Covered second front) :
    Covered (first ++ second) (front ++ back) :=
  both (hfirst.right front) (hsecond.left back)

theorem block (h : Covered first events) : Covered first (.enter :: (events ++ [.leave])) :=
  (h.left [.leave]).right [.enter]

theorem cons {entry : Bool × Expr} (h : Covered first events)
    (hentry : ∀ ident, entry.2.kind ≠ .ident ident) : Covered (entry :: first) events := by
  intro hnames called ident decs hmem
  obtain rfl | hmem := List.mem_cons.1 hmem
  · exact absurd rfl (hentry ident)
  · exact h (fun hmem => hnames (List.mem_cons_of_mem _ hmem)) hmem

theorem ident (called : Bool) (ident : Ident) (decs : Decorations)
    (h : ident ∈ identsOf events) : Covered [(called, ⟨.ident ident, decs⟩)] events := by
  intro _ called' ident' decs' hmem
  obtain ⟨-, hexpr⟩ := Prod.mk.inj (List.mem_singleton.1 hmem)
  obtain ⟨hkind, -⟩ := Expr.mk.inj hexpr
  obtain rfl := ExprKind.ident.inj hkind
  exact h

end Covered

/-! ## Types -/

mutual

theorem covered_type : ∀ (type : Expr) (called : Bool), isTypeName type = true →
    Covered (type.occurrences called) (eventsOfType type)
  | ⟨.ident ident, decs⟩, called, _ => by
      rw [eventsOfType]
      exact .ident called ident decs List.mem_cons_self
  | ⟨.selector operand member, decs⟩, called, h => by
      obtain ⟨ident, decs', rfl⟩ := exists_ident_of_isTypeName h
      rw [eventsOfType]
      exact .cons (.ident false ident decs' List.mem_cons_self) nofun
  | ⟨.star operand, decs⟩, called, h => by
      rw [isTypeName] at h
      rw [eventsOfType]
      exact .cons (covered_type operand false h) nofun
  | ⟨.paren inner, decs⟩, called, h => by
      rw [isTypeName] at h
      rw [eventsOfType]
      exact .cons (covered_type inner called h) nofun
  | ⟨.index operand indices, decs⟩, called, h => by
      rw [isTypeName, Bool.and_eq_true] at h
      rw [eventsOfType]
      exact .cons (.swap (covered_type operand false h.1) (covered_types indices h.2)) nofun
  | ⟨.literal text, decs⟩, called, _ => .cons (.nil _) nofun
  | ⟨.verbatim text, decs⟩, called, _ => .cons (.nil _) nofun

theorem covered_types : ∀ types : List Expr, areTypeNames types = true →
    Covered (occurrencesOfExprs types) (eventsOfTypes types)
  | [], _ => .nil _
  | type :: types, h => by
      rw [areTypeNames, Bool.and_eq_true] at h
      rw [eventsOfTypes]
      exact .append (covered_type type false h.1) (covered_types types h.2)

end

/-! ## Statements -/

theorem covered_target (op : Option AssignOp) {expr : Expr}
    (h : Covered (expr.occurrences false) (eventsOfExpr expr)) :
    Covered (expr.occurrences false) (eventsOfTarget op (some expr)) := by
  obtain ⟨kind, decs⟩ := expr
  cases kind with
  | ident ident =>
      rw [eventsOfTarget]
      refine .ident false ident decs ?_
      split <;> exact List.mem_cons_self
  | _ =>
      rw [eventsOfTarget]
      · exact h
      · simp

mutual

theorem covered_expr : ∀ (expr : Expr) (called : Bool),
    Covered (expr.occurrences called) (eventsOfExpr expr)
  | ⟨.ident ident, decs⟩, called => by
      rw [eventsOfExpr]
      exact .ident called ident decs List.mem_cons_self
  | ⟨.selector operand member, decs⟩, called => by
      rw [eventsOfExpr]
      exact .cons (covered_expr operand false) nofun
  | ⟨.call ⟨callee, args, spread, closesLine⟩, decs⟩, called => by
      rw [eventsOfExpr]
      exact .cons (.append (covered_expr callee true) (covered_exprs args)) nofun
  | ⟨.star operand, decs⟩, called => by
      rw [eventsOfExpr]
      exact .cons (covered_expr operand false) nofun
  | ⟨.unary op operand, decs⟩, called => by
      rw [eventsOfExpr]
      exact .cons (covered_expr operand false) nofun
  | ⟨.paren inner, decs⟩, called => by
      rw [eventsOfExpr]
      exact .cons (covered_expr inner called) nofun
  | ⟨.binary left op right, decs⟩, called => by
      rw [eventsOfExpr]
      exact .cons (.append (covered_expr left false) (covered_expr right false)) nofun
  | ⟨.index operand indices, decs⟩, called => by
      rw [eventsOfExpr]
      exact .cons (.append (covered_expr operand false) (covered_exprs indices)) nofun
  | ⟨.composite (some type) body, decs⟩, called => by
      rw [eventsOfExpr]
      intro hnames
      refine (covered_type type false (hnames List.mem_cons_self)).cons ?_ hnames
      nofun
  | ⟨.composite none body, decs⟩, called => .cons (.nil _) nofun
  | ⟨.func params results ⟨body, trailing, inline⟩, decs⟩, called => by
      rw [eventsOfExpr]
      have hbody := ((((covered_stmts body).left [.leave]).right (eventsOfResults results)).right
        (eventsOfParams params)).right [.enter]
      exact .cons hbody nofun
  | ⟨.literal text, decs⟩, called => .cons (.nil _) nofun
  | ⟨.verbatim text, decs⟩, called => .cons (.nil _) nofun

theorem covered_exprs : ∀ exprs : List Expr, Covered (occurrencesOfExprs exprs) (eventsOfExprs exprs)
  | [] => .nil _
  | expr :: exprs => by
      rw [eventsOfExprs]
      exact .append (covered_expr expr false) (covered_exprs exprs)

theorem covered_defined : ∀ exprs : List Expr,
    Covered (occurrencesOfExprs exprs) (eventsOfDefined exprs)
  | [] => .nil _
  | expr :: exprs => by
      rw [eventsOfDefined]
      refine .append ?_ (covered_defined exprs)
      have hexpr := covered_expr expr false
      obtain ⟨kind, decs⟩ := expr
      cases kind with
      | ident ident => exact .ident false ident decs List.mem_cons_self
      | _ => exact hexpr

theorem covered_kind : ∀ kind : StmtKind, Covered kind.occurrences (eventsOfKind kind)
  | .expr value => by
      rw [eventsOfKind]
      exact covered_expr value false
  | .spawn call => by
      rw [eventsOfKind]
      exact covered_expr call false
  | .defer call => by
      rw [eventsOfKind]
      exact covered_expr call false
  | .assign left .assign right => by
      rw [eventsOfKind]
      exact .swap (covered_exprs left) (covered_exprs right)
  | .assign left .define right => by
      rw [eventsOfKind]
      exact .swap (covered_defined left) (covered_exprs right)
  | .ret results => by
      rw [eventsOfKind]
      exact covered_exprs results
  | .cond init test ⟨body, trailing, inline⟩ alternative => by
      rw [eventsOfKind]
      have hbranches := (covered_stmts body).append
        (((covered_optional alternative).left [.leave]).right [.leave])
      have hall := (covered_optional init).append
        ((covered_expr test false).append (hbranches.right [.enter]))
      exact hall.right [.enter]
  | .loop header ⟨body, trailing, inline⟩ => by
      rw [eventsOfKind]
      exact (Covered.append (covered_header header)
        (((covered_stmts body).left [.leave, .leave]).right [.enter])).right [.enter]
  | .switch header clauses trailing => by
      rw [eventsOfKind]
      exact covered_clauses clauses
  | .select clauses trailing => by
      rw [eventsOfKind]
      exact covered_clauses clauses
  | .block ⟨body, trailing, inline⟩ => by
      rw [eventsOfKind]
      exact (covered_stmts body).block
  | .labeled label ⟨kind, decs⟩ => by
      rw [eventsOfKind, eventsOfStmt]
      exact covered_kind kind
  | .decl ⟨text, specs⟩ => by
      rw [eventsOfKind]
      exact covered_specs specs
  | .verbatim text => .nil _

theorem covered_optional : ∀ stmt : Option Stmt,
    Covered (occurrencesOfOptional stmt) (eventsOfOptional stmt)
  | none => .nil _
  | some ⟨kind, decs⟩ => by
      rw [eventsOfOptional, eventsOfStmt]
      exact covered_kind kind

theorem covered_header : ∀ header : LoopHeader, Covered header.occurrences (eventsOfHeader header)
  | .infinite => .nil _
  | .cond test => by
      rw [eventsOfHeader]
      exact covered_expr test false
  | .clauses text => .nil _
  | .range key value op operand => by
      rw [eventsOfHeader]
      have hvalue : Covered (occurrencesOfOptionalExpr value) (eventsOfTarget op value) := by
        cases value with
        | none => exact .nil _
        | some value => exact covered_target op (covered_expr value false)
      have hkey : Covered (occurrencesOfOptionalExpr key) (eventsOfTarget op key) := by
        cases key with
        | none => exact .nil _
        | some key => exact covered_target op (covered_expr key false)
      exact .both ((hkey.left _).right _) (.swap (hvalue.right _) (covered_expr operand false))

theorem covered_stmts : ∀ stmts : List Stmt, Covered (occurrencesOfStmts stmts) (eventsOfStmts stmts)
  | [] => .nil _
  | ⟨kind, decs⟩ :: stmts => by
      rw [eventsOfStmts, eventsOfStmt]
      exact .append (covered_kind kind) (covered_stmts stmts)

theorem covered_clauses : ∀ clauses : List Clause,
    Covered (occurrencesOfClauses clauses) (eventsOfClauses clauses)
  | [] => .nil _
  | ⟨head, body, trailing, decs⟩ :: clauses => by
      rw [eventsOfClauses]
      exact (Covered.append (covered_stmts body) ((covered_clauses clauses).right [.leave])).right
        [.enter]

theorem covered_specs : ∀ specs : List Spec,
    Covered (occurrencesOfSpecs specs) (eventsOfSpecs specs)
  | [] => .nil _
  | .value names type values constant :: specs => by
      rw [eventsOfSpecs]
      exact .append (covered_exprs values) ((covered_specs specs).right _)
  | .type name isAlias definition :: specs => by
      rw [eventsOfSpecs]
      exact (covered_specs specs).right [.declareType name]

end

/-! ## Files -/

/-- The expressions of a body, or of the values of package variables. -/
def occurrencesOfDecl (decl : Decl) : List (Bool × Expr) :=
  match decl.kind with
  | .func func => ((func.body.map (·.stmts)).map occurrencesOfStmts).getD []
  | .gen gen => occurrencesOfSpecs gen.specs
  | _ => []

theorem covered_values : ∀ specs : List Spec,
    Covered (occurrencesOfSpecs specs) (specs.flatMap eventsOfValues)
  | [] => .nil _
  | .value _ _ values _ :: specs => .append (covered_exprs values) (covered_values specs)
  | .type _ _ _ :: specs => covered_values specs

theorem covered_decl (decl : Decl) : Covered (occurrencesOfDecl decl) (eventsOfDecl decl) := by
  unfold occurrencesOfDecl eventsOfDecl
  obtain ⟨kind, decs⟩ := decl
  cases kind with
  | func func =>
      obtain ⟨receiver, name, typeParams, params, results, body⟩ := func
      cases body with
      | none => exact .nil _
      | some body =>
          have hbody := ((covered_stmts body.stmts).left [.leave]).right (eventsOfResults results)
          exact ((hbody.right (eventsOfParams params)).right _).right [.enter]
  | gen gen => exact covered_values gen.specs
  | imports specs => exact .nil _
  | verbatim text => exact .nil _

theorem covered_file {file : File} {decl : Decl} (h : decl ∈ file.decls) :
    Covered (occurrencesOfDecl decl) (eventsOfFile file) := by
  obtain ⟨front, back, hdecls⟩ := List.append_of_mem h
  rw [eventsOfFile, hdecls, List.flatMap_append, List.flatMap_cons]
  exact ((covered_decl decl).left _).right _

end TraceWeave.Types
