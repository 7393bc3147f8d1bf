import TraceWeave.Proofs.Syntax.Blocks
import TraceWeave.Syntax.Build

/-!
The comments of a tree.

They stand in the bands of statements, case clauses and arguments of calls, and behind the
last statement of a block.  A change that loses none of the comments of a part loses none
of the whole (`StmtsRewrite.comments_sublist`, `StmtKind.Nests.comments_sublist`).
-/

namespace TraceWeave.Syntax

open scoped List

/-! ## In source order -/

mutual

/-- The comments inside an expression, without its own bands. -/
def Expr.comments : Expr → List String
  | ⟨kind, _⟩ => kind.comments

def ExprKind.comments : ExprKind → List String
  | .selector operand _ => operand.comments
  | .star operand => operand.comments
  | .unary _ operand => operand.comments
  | .paren inner => inner.comments
  | .binary left _ right => left.comments ++ right.comments
  | .call ⟨callee, args, _, _⟩ => callee.comments ++ commentsOfArgs args
  | .index operand indices => operand.comments ++ commentsOfExprs indices
  | .composite (some type) _ => type.comments
  | .func _ _ ⟨body, trailing, _⟩ => commentsOfStmts body ++ trailing
  | _ => []

/-- The comments of the arguments of a call, bands included. -/
def commentsOfArgs : List Expr → List String
  | [] => []
  | ⟨kind, decs⟩ :: args => decs.lead ++ (kind.comments ++ (decs.trail ++ commentsOfArgs args))

def commentsOfExprs : List Expr → List String
  | [] => []
  | expr :: exprs => expr.comments ++ commentsOfExprs exprs

/-- The comments inside a statement, without its own bands. -/
def StmtKind.comments : StmtKind → List String
  | .expr value => value.comments
  | .spawn call => call.comments
  | .defer call => call.comments
  | .assign left _ right => commentsOfExprs left ++ commentsOfExprs right
  | .ret results => commentsOfExprs results
  | .cond init test ⟨body, trailing, _⟩ alternative =>
      commentsOfOptional init ++ (test.comments ++
        (commentsOfStmts body ++ (trailing ++ commentsOfOptional alternative)))
  | .loop header ⟨body, trailing, _⟩ => header.comments ++ (commentsOfStmts body ++ trailing)
  | .switch _ clauses trailing => commentsOfClauses clauses ++ trailing
  | .select clauses trailing => commentsOfClauses clauses ++ trailing
  | .block ⟨body, trailing, _⟩ => commentsOfStmts body ++ trailing
  | .labeled _ ⟨kind, decs⟩ => decs.lead ++ (kind.comments ++ decs.trail)
  | .decl ⟨_, specs⟩ => commentsOfSpecs specs
  | .verbatim _ => []

def commentsOfOptional : Option Stmt → List String
  | none => []
  | some ⟨kind, decs⟩ => decs.lead ++ (kind.comments ++ decs.trail)

def LoopHeader.comments : LoopHeader → List String
  | .cond test => test.comments
  | .range key value _ operand =>
      commentsOfOptionalExpr key ++ (commentsOfOptionalExpr value ++ operand.comments)
  | _ => []

def commentsOfOptionalExpr : Option Expr → List String
  | none => []
  | some expr => expr.comments

/-- The comments of a list of statements, bands included. -/
def commentsOfStmts : List Stmt → List String
  | [] => []
  | ⟨kind, decs⟩ :: stmts =>
      decs.lead ++ (kind.comments ++ (decs.trail ++ commentsOfStmts stmts))

/-- The comments of the clauses of a switch; a clause closes its bands in front of its body. -/
def commentsOfClauses : List Clause → List String
  | [] => []
  | ⟨_, body, trailing, decs⟩ :: clauses =>
      decs.lead ++ (decs.trail ++ (commentsOfStmts body ++ (trailing ++ commentsOfClauses clauses)))

def commentsOfSpecs : List Spec → List String
  | [] => []
  | .value _ _ values _ :: specs => commentsOfExprs values ++ commentsOfSpecs specs
  | .type _ _ _ :: specs => commentsOfSpecs specs

end

/-- All comments of a body, in source order. -/
def Block.comments (block : Block) : List String := commentsOfStmts block.stmts ++ block.trailing

/-! ## Lists -/

theorem commentsOfArgs_append (front back : List Expr) :
    commentsOfArgs (front ++ back) = commentsOfArgs front ++ commentsOfArgs back := by
  induction front with
  | nil => simp [commentsOfArgs]
  | cons arg front ih =>
      obtain ⟨kind, decs⟩ := arg
      simp [commentsOfArgs, ih]

theorem commentsOfExprs_append (front back : List Expr) :
    commentsOfExprs (front ++ back) = commentsOfExprs front ++ commentsOfExprs back := by
  induction front with
  | nil => simp [commentsOfExprs]
  | cons expr front ih => simp [commentsOfExprs, ih]

theorem commentsOfStmts_cons (stmt : Stmt) (stmts : List Stmt) :
    commentsOfStmts (stmt :: stmts) =
      stmt.decs.lead ++ (stmt.kind.comments ++ (stmt.decs.trail ++ commentsOfStmts stmts)) := by
  cases stmt
  simp [commentsOfStmts]

theorem commentsOfStmts_append (front back : List Stmt) :
    commentsOfStmts (front ++ back) = commentsOfStmts front ++ commentsOfStmts back := by
  induction front with
  | nil => simp [commentsOfStmts]
  | cons stmt front ih => simp [commentsOfStmts_cons, ih]

theorem StmtKind.comments_cond (init : Option Stmt) (test : Expr) (body : Block)
    (alternative : Option Stmt) :
    (StmtKind.cond init test body alternative).comments =
      commentsOfOptional init ++ (test.comments ++
        (commentsOfStmts body.stmts ++ (body.trailing ++ commentsOfOptional alternative))) := by
  cases body
  simp [StmtKind.comments]

theorem StmtKind.comments_loop (header : LoopHeader) (body : Block) :
    (StmtKind.loop header body).comments =
      header.comments ++ (commentsOfStmts body.stmts ++ body.trailing) := by
  cases body
  simp [StmtKind.comments]

theorem commentsOfClauses_append (front back : List Clause) :
    commentsOfClauses (front ++ back) = commentsOfClauses front ++ commentsOfClauses back := by
  induction front with
  | nil => simp [commentsOfClauses]
  | cons clause front ih =>
      obtain ⟨head, body, trailing, decs⟩ := clause
      simp [commentsOfClauses, ih]

/-! ## Bands -/

/-- The second decorations hold the comments of the first ones, each in its band. -/
structure Decorations.Keeps (decs decs' : Decorations) : Prop where
  lead : decs.lead <+ decs'.lead
  trail : decs.trail <+ decs'.trail

theorem Decorations.Keeps.refl (decs : Decorations) : decs.Keeps decs :=
  ⟨.refl _, .refl _⟩

theorem Decorations.Keeps.withoutAfter (decs : Decorations) : decs.Keeps decs.withoutAfter :=
  ⟨.refl _, .refl _⟩

/-- A statement in the middle of a list that keeps its comments. -/
theorem comments_sublist_within (front back : List Stmt) {stmt stmt' : Stmt}
    (hdecs : stmt.decs.Keeps stmt'.decs) (hkind : stmt.kind.comments <+ stmt'.kind.comments) :
    commentsOfStmts (front ++ stmt :: back) <+ commentsOfStmts (front ++ stmt' :: back) := by
  simp only [commentsOfStmts_append, commentsOfStmts_cons]
  refine List.Sublist.append_left ?_ _
  exact hdecs.lead.append (hkind.append (hdecs.trail.append_right _))

/-- A statement that hands the band above it to a new one in front of it. -/
theorem comments_sublist_precede (front back : List Stmt) {first stmt stmt' : Stmt}
    (hkind : stmt'.kind = stmt.kind) (hlead : stmt.decs.lead <+ first.decs.lead)
    (htrail : stmt.decs.trail <+ stmt'.decs.trail) :
    commentsOfStmts (front ++ stmt :: back) <+
      commentsOfStmts (front ++ first :: stmt' :: back) := by
  simp only [commentsOfStmts_append, commentsOfStmts_cons, hkind]
  refine List.Sublist.append_left (hlead.append ?_) _
  have hrest : stmt.kind.comments ++ (stmt.decs.trail ++ commentsOfStmts back) <+
      stmt.kind.comments ++ (stmt'.decs.trail ++ commentsOfStmts back) :=
    (htrail.append_right _).append_left _
  -- what else the two statements bring stands in front
  refine hrest.trans ?_
  simp only [← List.append_assoc]
  exact (List.sublist_append_right ..).append_right _ |>.append_right _

/-! ## Changes of expressions -/

/-- The part is replaced by one with the same bands that loses no comment. -/
structure Expr.Retains (part part' : Expr) : Prop where
  decs : part'.decs = part.decs
  comments : part.comments <+ part'.comments

section

variable {literals : Bool} {part part' : Expr}

theorem Expr.Rewrites.decs_eq (hpart : part.Retains part') {expr expr' : Expr}
    (h : Expr.Rewrites literals part part' expr expr') : expr'.decs = expr.decs := by
  cases h with
  | here => exact hpart.decs
  | _ => rfl

theorem commentsOfArgs_sublist (front back : List Expr) {arg arg' : Expr}
    (hdecs : arg'.decs = arg.decs) (harg : arg.comments <+ arg'.comments) :
    commentsOfArgs (front ++ arg :: back) <+ commentsOfArgs (front ++ arg' :: back) := by
  obtain ⟨kind, decs⟩ := arg
  obtain ⟨kind', decs'⟩ := arg'
  obtain rfl : decs' = decs := hdecs
  have hkind : kind.comments <+ kind'.comments := harg
  simpa [commentsOfArgs_append, commentsOfArgs] using hkind

theorem commentsOfExprs_sublist (front back : List Expr) {expr expr' : Expr}
    (hexpr : expr.comments <+ expr'.comments) :
    commentsOfExprs (front ++ expr :: back) <+ commentsOfExprs (front ++ expr' :: back) := by
  simpa [commentsOfExprs_append, commentsOfExprs] using hexpr

theorem commentsOfClauses_sublist (front back : List Clause) {head : String}
    {stmts stmts' : List Stmt} {trailing : List String} {decs : Decorations}
    (hstmts : commentsOfStmts stmts <+ commentsOfStmts stmts') :
    commentsOfClauses (front ++ ⟨head, stmts, trailing, decs⟩ :: back) <+
      commentsOfClauses (front ++ ⟨head, stmts', trailing, decs⟩ :: back) := by
  simpa [commentsOfClauses_append, commentsOfClauses] using hstmts

mutual

theorem Expr.Rewrites.comments_sublist (hpart : part.Retains part') :
    ∀ {expr expr' : Expr}, Expr.Rewrites literals part part' expr expr' →
      expr.comments <+ expr'.comments
  | _, _, .here => hpart.comments
  | _, _, .selector h => h.comments_sublist hpart
  | _, _, .star h => h.comments_sublist hpart
  | _, _, .unary h => h.comments_sublist hpart
  | _, _, .paren h => h.comments_sublist hpart
  | _, _, .left h => (h.comments_sublist hpart).append_right _
  | _, _, .right h => (h.comments_sublist hpart).append_left _
  | _, _, .callee h => (h.comments_sublist hpart).append_right _
  | _, _, .arg h =>
      (commentsOfArgs_sublist _ _ (h.decs_eq hpart) (h.comments_sublist hpart)).append_left _
  | _, _, .operand h => (h.comments_sublist hpart).append_right _
  | _, _, .index h => (commentsOfExprs_sublist _ _ (h.comments_sublist hpart)).append_left _
  | _, _, .body _ h => (h.comments_sublist hpart).append_right _

theorem StmtKind.Rewrites.comments_sublist (hpart : part.Retains part') :
    ∀ {scope : EditScope} {kind kind' : StmtKind},
      StmtKind.Rewrites literals part part' scope kind kind' → kind.comments <+ kind'.comments
  | _, _, _, .expr _ h => h.comments_sublist hpart
  | _, _, _, .spawn _ h => h.comments_sublist hpart
  | _, _, _, .defer _ h => h.comments_sublist hpart
  | _, _, _, .target _ h =>
      (commentsOfExprs_sublist _ _ (h.comments_sublist hpart)).append_right _
  | _, _, _, .value _ h =>
      (commentsOfExprs_sublist _ _ (h.comments_sublist hpart)).append_left _
  | _, _, _, .result _ h => commentsOfExprs_sublist _ _ (h.comments_sublist hpart)
  | _, _, _, .init _ h => by
      simpa [StmtKind.comments_cond, commentsOfOptional] using h.comments_sublist hpart
  | _, _, _, .test _ h => by simpa [StmtKind.comments_cond] using h.comments_sublist hpart
  | _, _, _, .branch _ h => by simpa [StmtKind.comments_cond] using h.comments_sublist hpart
  | _, _, _, .alternative _ h => by
      simpa [StmtKind.comments_cond, commentsOfOptional] using h.comments_sublist hpart
  | _, _, _, .loopTest _ h => by
      simpa [StmtKind.comments_loop, LoopHeader.comments] using h.comments_sublist hpart
  | _, _, _, .range _ h => by
      simpa [StmtKind.comments_loop, LoopHeader.comments] using h.comments_sublist hpart
  | _, _, _, .loopBody _ h => by simpa [StmtKind.comments_loop] using h.comments_sublist hpart
  | _, _, _, .switchClause _ h =>
      (commentsOfClauses_sublist _ _ (h.comments_sublist hpart)).append_right _
  | _, _, _, .selectClause _ h =>
      (commentsOfClauses_sublist _ _ (h.comments_sublist hpart)).append_right _
  | _, _, _, .block _ h => (h.comments_sublist hpart).append_right _
  | _, _, _, .labeled h => by simpa [StmtKind.comments] using h.comments_sublist hpart

theorem StmtsRewrite.comments_sublist (hpart : part.Retains part') :
    ∀ {stmts stmts' : List Stmt}, StmtsRewrite literals part part' stmts stmts' →
      commentsOfStmts stmts <+ commentsOfStmts stmts'
  | _, _, .within front h =>
      comments_sublist_within front _ (.refl _) (h.comments_sublist hpart)

end

end

/-! ## Changes of lists inside -/

theorem StmtKind.Replaces.comments_sublist {stmts stmts' : List Stmt} {kind kind' : StmtKind}
    (hstmts : commentsOfStmts stmts <+ commentsOfStmts stmts')
    (h : StmtKind.Replaces stmts stmts' kind kind') : kind.comments <+ kind'.comments := by
  induction h with
  | branch => simpa [StmtKind.comments_cond] using hstmts
  | alternative _ ih => simpa [StmtKind.comments_cond, commentsOfOptional] using ih
  | loop => simpa [StmtKind.comments_loop] using hstmts
  | switch => exact (commentsOfClauses_sublist _ _ hstmts).append_right _
  | select => exact (commentsOfClauses_sublist _ _ hstmts).append_right _
  | block => exact hstmts.append_right _
  | labeled _ ih => simpa [StmtKind.comments] using ih

theorem StmtKind.Nests.comments_sublist {stmts stmts' : List Stmt} {kind kind' : StmtKind}
    (hstmts : commentsOfStmts stmts <+ commentsOfStmts stmts')
    (h : StmtKind.Nests stmts stmts' kind kind') : kind.comments <+ kind'.comments := by
  cases h with
  | block hreplaces => exact hreplaces.comments_sublist hstmts
  | spawned => exact (hstmts.append_right _).append_right _

end TraceWeave.Syntax
