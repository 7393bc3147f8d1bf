import TraceWeave.Proofs.Syntax.Comments

/-!
Where a tree reads a variable.

An occurrence of a name counts unless it stands in a function literal that has a parameter
of that name.  What a change of one part may add to the occurrences is what the part gains
(`StmtsRewrite.reads`, `StmtKind.Nests.reads`).
-/

namespace TraceWeave.Syntax

/-- The names that a list of parameters declares. -/
def FieldList.declared (list : FieldList) : List String :=
  list.fields.flatMap fun field => field.names.map (·.name)

section

variable (name : String)

mutual

def Expr.reads : Expr → Bool
  | ⟨kind, _⟩ => kind.reads

def ExprKind.reads : ExprKind → Bool
  | .ident ident => ident.name == name
  | .selector operand _ => operand.reads
  | .star operand => operand.reads
  | .unary _ operand => operand.reads
  | .paren inner => inner.reads
  | .binary left _ right => left.reads || right.reads
  | .call ⟨callee, args, _, _⟩ => callee.reads || readsInExprs args
  | .index operand indices => operand.reads || readsInExprs indices
  | .composite (some type) _ => type.reads
  | .func params _ ⟨body, _, _⟩ => !params.declared.contains name && readsInStmts body
  | _ => false

def readsInExprs : List Expr → Bool
  | [] => false
  | expr :: exprs => expr.reads || readsInExprs exprs

def StmtKind.reads : StmtKind → Bool
  | .expr value => value.reads
  | .spawn call => call.reads
  | .defer call => call.reads
  | .assign left _ right => readsInExprs left || readsInExprs right
  | .ret results => readsInExprs results
  | .cond init test ⟨body, _, _⟩ alternative =>
      readsInOptional init || (test.reads || (readsInStmts body || readsInOptional alternative))
  | .loop header ⟨body, _, _⟩ => header.reads || readsInStmts body
  | .switch _ clauses _ => readsInClauses clauses
  | .select clauses _ => readsInClauses clauses
  | .block ⟨body, _, _⟩ => readsInStmts body
  | .labeled _ ⟨kind, _⟩ => kind.reads
  | .decl ⟨_, specs⟩ => readsInSpecs specs
  | .verbatim _ => false

def readsInOptional : Option Stmt → Bool
  | none => false
  | some ⟨kind, _⟩ => kind.reads

def LoopHeader.reads : LoopHeader → Bool
  | .cond test => test.reads
  | .range key value _ operand =>
      readsInOptionalExpr key || (readsInOptionalExpr value || operand.reads)
  | _ => false

def readsInOptionalExpr : Option Expr → Bool
  | none => false
  | some expr => expr.reads

def readsInStmts : List Stmt → Bool
  | [] => false
  | ⟨kind, _⟩ :: stmts => kind.reads || readsInStmts stmts

def readsInClauses : List Clause → Bool
  | [] => false
  | ⟨_, body, _, _⟩ :: clauses => readsInStmts body || readsInClauses clauses

def readsInSpecs : List Spec → Bool
  | [] => false
  | .value _ _ values _ :: specs => readsInExprs values || readsInSpecs specs
  | .type _ _ _ :: specs => readsInSpecs specs

end

end

/-! ## Lists -/

section

variable {name : String}

theorem readsInExprs_eq_any (exprs : List Expr) :
    readsInExprs name exprs = exprs.any (·.reads name) := by
  induction exprs with
  | nil => rfl
  | cons expr exprs ih => simp [readsInExprs, ih]

theorem readsInStmts_eq_any (stmts : List Stmt) :
    readsInStmts name stmts = stmts.any (·.kind.reads name) := by
  induction stmts with
  | nil => rfl
  | cons stmt stmts ih =>
      cases stmt
      simp [readsInStmts, ih]

theorem readsInClauses_eq_any (clauses : List Clause) :
    readsInClauses name clauses = clauses.any fun clause => readsInStmts name clause.body := by
  induction clauses with
  | nil => rfl
  | cons clause clauses ih =>
      cases clause
      simp [readsInClauses, ih]

theorem StmtKind.reads_cond (init : Option Stmt) (test : Expr) (body : Block)
    (alternative : Option Stmt) :
    (StmtKind.cond init test body alternative).reads name =
      (readsInOptional name init || (test.reads name ||
        (readsInStmts name body.stmts || readsInOptional name alternative))) := by
  cases body
  simp [StmtKind.reads]

theorem StmtKind.reads_loop (header : LoopHeader) (body : Block) :
    (StmtKind.loop header body).reads name =
      (header.reads name || readsInStmts name body.stmts) := by
  cases body
  simp [StmtKind.reads]

/-- The callee and the arguments of a call. -/
def Call.reads (name : String) (call : Call) : Bool :=
  call.callee.reads name || readsInExprs name call.args

theorem ExprKind.reads_call (call : Call) : (ExprKind.call call).reads name = call.reads name := by
  cases call
  rfl

/-! ## Expressions built by hand -/

@[simp]
theorem ExprKind.reads_kind (expr : Expr) : expr.kind.reads name = expr.reads name := by
  cases expr
  rfl

@[simp]
theorem Expr.reads_mk (kind : ExprKind) (decs : Decorations) :
    (⟨kind, decs⟩ : Expr).reads name = kind.reads name := rfl

@[simp]
theorem readsInExprs_nil : readsInExprs name [] = false := rfl

@[simp]
theorem readsInExprs_cons (expr : Expr) (exprs : List Expr) :
    readsInExprs name (expr :: exprs) = (expr.reads name || readsInExprs name exprs) := rfl

@[simp]
theorem Expr.reads_ident (other : String) : (Expr.ident other).reads name = (other == name) := rfl

@[simp]
theorem Expr.reads_selector (operand : Expr) (member : String) :
    (Expr.selector operand member).reads name = operand.reads name := rfl

@[simp]
theorem Expr.reads_qualified (package member : String) :
    (Expr.qualified package member).reads name = (package == name) := rfl

@[simp]
theorem Expr.reads_call (callee : Expr) (args : List Expr) :
    (Expr.call callee args).reads name = (callee.reads name || readsInExprs name args) := rfl

@[simp]
theorem Expr.reads_string (text : String) : (Expr.string text).reads name = false := rfl

end

/-! ## Gains -/

/-- What holds behind a change held in front of it, unless the change brings it. -/
def Gains (gain : Prop) (before after : Bool) : Prop := after = true → before = true ∨ gain

namespace Gains

variable {gain gain' : Prop} {before after last : Bool}

theorem refl : Gains gain before before := .inl

theorem trans (h : Gains gain before after) (h' : Gains gain after last) :
    Gains gain before last := fun hlast => (h' hlast).elim h .inr

theorem mono (h : Gains gain before after) (hgain : gain → gain') : Gains gain' before after :=
  fun hafter => (h hafter).imp_right hgain

theorem left (h : Gains gain before after) (other : Bool) :
    Gains gain (before || other) (after || other) := by
  intro hafter
  rw [Bool.or_eq_true] at hafter ⊢
  rcases hafter with hafter | hother
  · exact (h hafter).imp_left .inl
  · exact .inl (.inr hother)

theorem right (h : Gains gain before after) (other : Bool) :
    Gains gain (other || before) (other || after) := by
  rw [Bool.or_comm other, Bool.or_comm other]
  exact h.left other

/-- Both parts of what holds are changed. -/
theorem or {before' after' : Bool} (h : Gains gain before after) (h' : Gains gain before' after') :
    Gains gain (before || before') (after || after') :=
  (h.left before').trans (h'.right after)

theorem and (h : Gains gain before after) (other : Bool) :
    Gains gain (other && before) (other && after) := by
  cases other with
  | false => exact fun hafter => nomatch hafter
  | true => simpa using h

end Gains

/-! ## Changes of expressions -/

section

variable {name : String} {literals : Bool} {part part' : Expr} {gain : Prop}

theorem gains_within_exprs (front back : List Expr) {expr expr' : Expr}
    (h : Gains gain (expr.reads name) (expr'.reads name)) :
    Gains gain (readsInExprs name (front ++ expr :: back))
      (readsInExprs name (front ++ expr' :: back)) := by
  simp only [readsInExprs_eq_any, List.any_append, List.any_cons]
  exact (h.left _).right _

theorem gains_within_stmts (front back : List Stmt) {stmt stmt' : Stmt}
    (h : Gains gain (stmt.kind.reads name) (stmt'.kind.reads name)) :
    Gains gain (readsInStmts name (front ++ stmt :: back))
      (readsInStmts name (front ++ stmt' :: back)) := by
  simp only [readsInStmts_eq_any, List.any_append, List.any_cons]
  exact (h.left _).right _

theorem gains_within_clauses (front back : List Clause) {head : String} {stmts stmts' : List Stmt}
    {trailing : List String} {decs : Decorations}
    (h : Gains gain (readsInStmts name stmts) (readsInStmts name stmts')) :
    Gains gain (readsInClauses name (front ++ ⟨head, stmts, trailing, decs⟩ :: back))
      (readsInClauses name (front ++ ⟨head, stmts', trailing, decs⟩ :: back)) := by
  simp only [readsInClauses_eq_any, List.any_append, List.any_cons]
  exact (h.left _).right _

theorem gains_cond {init init' : Option Stmt} {test test' : Expr} {body body' : Block}
    {alternative alternative' : Option Stmt}
    (hinit : Gains gain (readsInOptional name init) (readsInOptional name init'))
    (htest : Gains gain (test.reads name) (test'.reads name))
    (hbody : Gains gain (readsInStmts name body.stmts) (readsInStmts name body'.stmts))
    (halternative : Gains gain (readsInOptional name alternative)
      (readsInOptional name alternative')) :
    Gains gain ((StmtKind.cond init test body alternative).reads name)
      ((StmtKind.cond init' test' body' alternative').reads name) := by
  simp only [StmtKind.reads_cond]
  exact hinit.or (htest.or (hbody.or halternative))

mutual

theorem Expr.Rewrites.reads (hpart : Gains gain (part.reads name) (part'.reads name)) :
    ∀ {expr expr' : Expr}, Expr.Rewrites literals part part' expr expr' →
      Gains gain (expr.reads name) (expr'.reads name)
  | _, _, .here => hpart
  | _, _, .selector h => h.reads hpart
  | _, _, .star h => h.reads hpart
  | _, _, .unary h => h.reads hpart
  | _, _, .paren h => h.reads hpart
  | _, _, .left h => (h.reads hpart).left _
  | _, _, .right h => (h.reads hpart).right _
  | _, _, .callee h => (h.reads hpart).left _
  | _, _, .arg h => (gains_within_exprs _ _ (h.reads hpart)).right _
  | _, _, .operand h => (h.reads hpart).left _
  | _, _, .index h => (gains_within_exprs _ _ (h.reads hpart)).right _
  | _, _, .body _ h => (h.reads hpart).and _

theorem StmtKind.Rewrites.reads (hpart : Gains gain (part.reads name) (part'.reads name)) :
    ∀ {scope : EditScope} {kind kind' : StmtKind},
      StmtKind.Rewrites literals part part' scope kind kind' →
        Gains gain (kind.reads name) (kind'.reads name)
  | _, _, _, .expr _ h => h.reads hpart
  | _, _, _, .spawn _ h => h.reads hpart
  | _, _, _, .defer _ h => h.reads hpart
  | _, _, _, .target _ h => (gains_within_exprs _ _ (h.reads hpart)).left _
  | _, _, _, .value _ h => (gains_within_exprs _ _ (h.reads hpart)).right _
  | _, _, _, .result _ h => gains_within_exprs _ _ (h.reads hpart)
  | _, _, _, .init _ h => gains_cond (h.reads hpart) .refl .refl .refl
  | _, _, _, .test _ h => gains_cond .refl (h.reads hpart) .refl .refl
  | _, _, _, .branch _ h => gains_cond .refl .refl (h.reads hpart) .refl
  | _, _, _, .alternative _ h => gains_cond .refl .refl .refl (h.reads hpart)
  | _, _, _, .loopTest _ h => by
      simp only [StmtKind.reads_loop]
      exact Gains.left (h.reads hpart) _
  | _, _, _, .range _ h => by
      simp only [StmtKind.reads_loop]
      exact (((h.reads hpart).right _).right _).left _
  | _, _, _, .loopBody _ h => (h.reads hpart).right _
  | _, _, _, .switchClause _ h => gains_within_clauses _ _ (h.reads hpart)
  | _, _, _, .selectClause _ h => gains_within_clauses _ _ (h.reads hpart)
  | _, _, _, .block _ h => h.reads hpart
  | _, _, _, .labeled h => h.reads hpart

theorem StmtsRewrite.reads (hpart : Gains gain (part.reads name) (part'.reads name)) :
    ∀ {stmts stmts' : List Stmt}, StmtsRewrite literals part part' stmts stmts' →
      Gains gain (readsInStmts name stmts) (readsInStmts name stmts')
  | _, _, .within front h => gains_within_stmts front _ (h.reads hpart)

end

/-! ## Changes of lists inside -/

theorem StmtKind.Replaces.reads {stmts stmts' : List Stmt} {kind kind' : StmtKind}
    (hstmts : Gains gain (readsInStmts name stmts) (readsInStmts name stmts'))
    (h : StmtKind.Replaces stmts stmts' kind kind') :
    Gains gain (kind.reads name) (kind'.reads name) := by
  induction h with
  | branch => exact gains_cond .refl .refl hstmts .refl
  | alternative _ ih => exact gains_cond .refl .refl .refl ih
  | loop => exact hstmts.right _
  | switch => exact gains_within_clauses _ _ hstmts
  | select => exact gains_within_clauses _ _ hstmts
  | block => exact hstmts
  | labeled _ ih => exact ih

end

end TraceWeave.Syntax
