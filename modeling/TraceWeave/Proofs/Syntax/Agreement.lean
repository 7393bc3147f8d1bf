import TraceWeave.Syntax.Edit
import TraceWeave.Proofs.Syntax.Blocks

/-!
Edits that agree.

A `Congruence` relates computations in a way that sequencing keeps.  Two edits whose
visits are related do related things to every tree (`StmtKind.edit_rel`), and so do two
ways of changing the blocks of a statement (`StmtKind.editBlocks_rel`).
-/

namespace TraceWeave.Syntax

structure Congruence (m : Type → Type) [Monad m] where
  rel : {α : Type} → m α → m α → Prop
  rel_pure : ∀ {α : Type} (a : α), rel (pure a) (pure a)
  rel_bind : ∀ {α β : Type} {x y : m α} {f g : α → m β}, rel x y → (∀ a, rel (f a) (g a)) →
    rel (x >>= f) (y >>= g)
  rel_map : ∀ {α β : Type} (f : α → β) {x y : m α}, rel x y → rel (f <$> x) (f <$> y)

namespace Congruence

variable {m : Type → Type} [Monad m] (congruence : Congruence m)

theorem rel_mapM [LawfulMonad m] {α β : Type} {f g : α → m β} (as : List α)
    (h : ∀ a ∈ as, congruence.rel (f a) (g a)) : congruence.rel (as.mapM f) (as.mapM g) := by
  induction as with
  | nil => simpa using congruence.rel_pure []
  | cons a as ih =>
      simp only [List.mapM_cons]
      refine congruence.rel_bind (h a (by simp)) fun _ => ?_
      refine congruence.rel_bind (ih fun a hmem => h a (by simp [hmem])) fun _ => ?_
      exact congruence.rel_pure _

theorem rel_editIf {α : Type} (covered : Bool) (part : α) {x y : m α} (h : congruence.rel x y) :
    congruence.rel (editIf covered part x) (editIf covered part y) := by
  unfold editIf
  split
  · exact h
  · exact congruence.rel_pure part

end Congruence

/-! ## Edits -/

section

variable {m : Type → Type} [Monad m]

/-- The visits of two edits are related. -/
structure Edits.Agree (congruence : Congruence m) (edits edits' : Edits m) : Prop where
  ident : ∀ ident, congruence.rel (edits.ident ident) (edits'.ident ident)
  call : ∀ call, congruence.rel (edits.call call) (edits'.call call)
  literals : edits'.literals = edits.literals

theorem Edits.agree_calls (congruence : Congruence m) (literals : Bool) {visit visit' : Call → m Call}
    (h : ∀ call, congruence.rel (visit call) (visit' call)) :
    Edits.Agree congruence (.calls literals visit) (.calls literals visit') :=
  ⟨fun ident => congruence.rel_pure ident, h, rfl⟩

variable {congruence : Congruence m} {edits edits' : Edits m}

mutual

theorem Expr.edit_rel (agree : Edits.Agree congruence edits edits') :
    ∀ expr : Expr, congruence.rel (expr.edit edits) (expr.edit edits')
  | ⟨kind, decs⟩ => by
      simp only [Expr.edit]
      exact congruence.rel_bind (kind.edit_rel agree) fun _ => congruence.rel_pure _

theorem ExprKind.edit_rel (agree : Edits.Agree congruence edits edits') :
    ∀ kind : ExprKind, congruence.rel (kind.edit edits) (kind.edit edits')
  | .ident ident => by
      simp only [ExprKind.edit]
      exact congruence.rel_map _ (agree.ident ident)
  | .selector operand _ => by
      simp only [ExprKind.edit]
      exact congruence.rel_bind (operand.edit_rel agree) fun _ => congruence.rel_pure _
  | .star operand => by
      simp only [ExprKind.edit]
      exact congruence.rel_bind (operand.edit_rel agree) fun _ => congruence.rel_pure _
  | .unary _ operand => by
      simp only [ExprKind.edit]
      exact congruence.rel_bind (operand.edit_rel agree) fun _ => congruence.rel_pure _
  | .paren inner => by
      simp only [ExprKind.edit]
      exact congruence.rel_bind (inner.edit_rel agree) fun _ => congruence.rel_pure _
  | .binary left _ right => by
      simp only [ExprKind.edit]
      refine congruence.rel_bind (left.edit_rel agree) fun _ => ?_
      exact congruence.rel_bind (right.edit_rel agree) fun _ => congruence.rel_pure _
  | .call ⟨callee, args, _, _⟩ => by
      simp only [ExprKind.edit]
      refine congruence.rel_bind (callee.edit_rel agree) fun _ => ?_
      refine congruence.rel_bind (editExprs_rel agree args) fun _ => ?_
      exact congruence.rel_bind (agree.call _) fun _ => congruence.rel_pure _
  | .index operand indices => by
      simp only [ExprKind.edit]
      refine congruence.rel_bind (operand.edit_rel agree) fun _ => ?_
      exact congruence.rel_bind (editExprs_rel agree indices) fun _ => congruence.rel_pure _
  | .func _ _ ⟨body, _, _⟩ => by
      simp only [ExprKind.edit, agree.literals]
      refine congruence.rel_bind ?_ fun _ => congruence.rel_pure _
      exact congruence.rel_editIf _ body (editStmts_rel agree body)
  | .literal _ => congruence.rel_pure _
  | .composite _ _ => congruence.rel_pure _
  | .verbatim _ => congruence.rel_pure _

theorem editExprs_rel (agree : Edits.Agree congruence edits edits') :
    ∀ exprs : List Expr, congruence.rel (editExprs edits exprs) (editExprs edits' exprs)
  | [] => congruence.rel_pure []
  | expr :: exprs => by
      simp only [editExprs]
      refine congruence.rel_bind (expr.edit_rel agree) fun _ => ?_
      exact congruence.rel_bind (editExprs_rel agree exprs) fun _ => congruence.rel_pure _

theorem StmtKind.edit_rel (agree : Edits.Agree congruence edits edits') (scope : EditScope) :
    ∀ kind : StmtKind, congruence.rel (kind.edit edits scope) (kind.edit edits' scope)
  | .expr value => by
      simp only [StmtKind.edit]
      refine congruence.rel_bind ?_ fun _ => congruence.rel_pure _
      exact congruence.rel_editIf _ value (value.edit_rel agree)
  | .spawn call => by
      simp only [StmtKind.edit]
      refine congruence.rel_bind ?_ fun _ => congruence.rel_pure _
      exact congruence.rel_editIf _ call (call.edit_rel agree)
  | .defer call => by
      simp only [StmtKind.edit]
      refine congruence.rel_bind ?_ fun _ => congruence.rel_pure _
      exact congruence.rel_editIf _ call (call.edit_rel agree)
  | .assign left _ right => by
      simp only [StmtKind.edit]
      refine congruence.rel_bind (congruence.rel_editIf _ left (editExprs_rel agree left)) fun _ => ?_
      refine congruence.rel_bind ?_ fun _ => congruence.rel_pure _
      exact congruence.rel_editIf _ right (editExprs_rel agree right)
  | .ret results => by
      simp only [StmtKind.edit]
      refine congruence.rel_bind ?_ fun _ => congruence.rel_pure _
      exact congruence.rel_editIf _ results (editExprs_rel agree results)
  | .cond init test ⟨body, _, _⟩ alternative => by
      simp only [StmtKind.edit]
      refine congruence.rel_bind
        (congruence.rel_editIf _ init (editOptional_rel agree .own init)) fun _ => ?_
      refine congruence.rel_bind (congruence.rel_editIf _ test (test.edit_rel agree)) fun _ => ?_
      refine congruence.rel_bind (congruence.rel_editIf _ body (editStmts_rel agree body)) fun _ => ?_
      refine congruence.rel_bind ?_ fun _ => congruence.rel_pure _
      exact congruence.rel_editIf _ alternative (editOptional_rel agree scope.branch alternative)
  | .loop header ⟨body, _, _⟩ => by
      simp only [StmtKind.edit]
      refine congruence.rel_bind (congruence.rel_editIf _ header (header.edit_rel agree)) fun _ => ?_
      refine congruence.rel_bind ?_ fun _ => congruence.rel_pure _
      exact congruence.rel_editIf _ body (editStmts_rel agree body)
  | .switch _ clauses _ => by
      simp only [StmtKind.edit]
      refine congruence.rel_bind ?_ fun _ => congruence.rel_pure _
      exact congruence.rel_editIf _ clauses (editClauses_rel agree clauses)
  | .select clauses _ => by
      simp only [StmtKind.edit]
      refine congruence.rel_bind ?_ fun _ => congruence.rel_pure _
      exact congruence.rel_editIf _ clauses (editClauses_rel agree clauses)
  | .block ⟨body, _, _⟩ => by
      simp only [StmtKind.edit]
      refine congruence.rel_bind ?_ fun _ => congruence.rel_pure _
      exact congruence.rel_editIf _ body (editStmts_rel agree body)
  | .labeled _ ⟨kind, _⟩ => by
      simp only [StmtKind.edit]
      exact congruence.rel_bind (kind.edit_rel agree scope.behindLabel) fun _ => congruence.rel_pure _
  | .decl _ => congruence.rel_pure _
  | .verbatim _ => congruence.rel_pure _

theorem editOptional_rel (agree : Edits.Agree congruence edits edits') (scope : EditScope) :
    ∀ stmt : Option Stmt,
      congruence.rel (editOptional edits scope stmt) (editOptional edits' scope stmt)
  | none => congruence.rel_pure none
  | some ⟨kind, _⟩ => by
      simp only [editOptional]
      exact congruence.rel_bind (kind.edit_rel agree scope) fun _ => congruence.rel_pure _

theorem LoopHeader.edit_rel (agree : Edits.Agree congruence edits edits') :
    ∀ header : LoopHeader, congruence.rel (header.edit edits) (header.edit edits')
  | .infinite => congruence.rel_pure _
  | .cond test => by
      simp only [LoopHeader.edit]
      exact congruence.rel_bind (test.edit_rel agree) fun _ => congruence.rel_pure _
  | .clauses _ => congruence.rel_pure _
  | .range _ _ _ operand => by
      simp only [LoopHeader.edit]
      exact congruence.rel_bind (operand.edit_rel agree) fun _ => congruence.rel_pure _

theorem editStmts_rel (agree : Edits.Agree congruence edits edits') :
    ∀ stmts : List Stmt, congruence.rel (editStmts edits stmts) (editStmts edits' stmts)
  | [] => congruence.rel_pure []
  | ⟨kind, _⟩ :: stmts => by
      simp only [editStmts]
      refine congruence.rel_bind (kind.edit_rel agree .full) fun _ => ?_
      exact congruence.rel_bind (editStmts_rel agree stmts) fun _ => congruence.rel_pure _

theorem editClauses_rel (agree : Edits.Agree congruence edits edits') :
    ∀ clauses : List Clause, congruence.rel (editClauses edits clauses) (editClauses edits' clauses)
  | [] => congruence.rel_pure []
  | ⟨_, body, _, _⟩ :: clauses => by
      simp only [editClauses]
      refine congruence.rel_bind (editStmts_rel agree body) fun _ => ?_
      exact congruence.rel_bind (editClauses_rel agree clauses) fun _ => congruence.rel_pure _

end

/-! ## Blocks -/

theorem depthOfStmts_le_of_mem {clause : Clause} {clauses : List Clause} (h : clause ∈ clauses) :
    depthOfStmts clause.body ≤ depthOfClauses clauses := by
  obtain ⟨front, back, rfl⟩ := List.append_of_mem h
  obtain ⟨head, body, trailing, decs⟩ := clause
  simp only [depthOfClauses_append, depthOfClauses]
  omega

/-- Ways of changing the blocks of a statement, related on all lists less deep than it. -/
theorem StmtKind.editBlocks_rel [LawfulMonad m] {edit edit' : List Stmt → m (List Stmt)} : ∀ kind : StmtKind,
    (∀ stmts, depthOfStmts stmts < kind.depth → congruence.rel (edit stmts) (edit' stmts)) →
      congruence.rel (kind.editBlocks edit) (kind.editBlocks edit')
  | .cond init test ⟨body, trailing, inline⟩ none, h => by
      simp only [StmtKind.depth_cond] at h
      simp only [StmtKind.editBlocks]
      refine congruence.rel_bind (h body (by omega)) fun _ => ?_
      exact congruence.rel_bind (congruence.rel_pure none) fun _ => congruence.rel_pure _
  | .cond init test ⟨body, trailing, inline⟩ (some ⟨kind, decs⟩), h => by
      simp only [StmtKind.depth_cond, Option.map_some, Option.getD_some] at h
      simp only [StmtKind.editBlocks]
      refine congruence.rel_bind (h body (by omega)) fun _ => ?_
      refine congruence.rel_bind (kind.editBlocks_rel fun stmts hlt => h stmts (by omega)) fun _ => ?_
      exact congruence.rel_bind (congruence.rel_pure _) fun _ => congruence.rel_pure _
  | .loop header ⟨body, trailing, inline⟩, h => by
      simp only [StmtKind.depth_loop] at h
      simp only [StmtKind.editBlocks]
      exact congruence.rel_bind (h body (by omega)) fun _ => congruence.rel_pure _
  | .switch header clauses trailing, h => by
      simp only [StmtKind.depth] at h
      simp only [StmtKind.editBlocks]
      refine congruence.rel_bind (congruence.rel_mapM clauses fun clause hmem => ?_)
        fun _ => congruence.rel_pure _
      have hle := depthOfStmts_le_of_mem hmem
      exact congruence.rel_bind (h clause.body (by omega)) fun _ => congruence.rel_pure _
  | .select clauses trailing, h => by
      simp only [StmtKind.depth] at h
      simp only [StmtKind.editBlocks]
      refine congruence.rel_bind (congruence.rel_mapM clauses fun clause hmem => ?_)
        fun _ => congruence.rel_pure _
      have hle := depthOfStmts_le_of_mem hmem
      exact congruence.rel_bind (h clause.body (by omega)) fun _ => congruence.rel_pure _
  | .block ⟨body, trailing, inline⟩, h => by
      simp only [StmtKind.depth] at h
      simp only [StmtKind.editBlocks]
      exact congruence.rel_bind (h body (by omega)) fun _ => congruence.rel_pure _
  | .labeled label ⟨kind, decs⟩, h => by
      simp only [StmtKind.depth] at h
      simp only [StmtKind.editBlocks]
      exact congruence.rel_bind (kind.editBlocks_rel h) fun _ => congruence.rel_pure _
  | .expr _, _ => congruence.rel_pure _
  | .assign _ _ _, _ => congruence.rel_pure _
  | .spawn _, _ => congruence.rel_pure _
  | .defer _, _ => congruence.rel_pure _
  | .ret _, _ => congruence.rel_pure _
  | .decl _, _ => congruence.rel_pure _
  | .verbatim _, _ => congruence.rel_pure _

end

end TraceWeave.Syntax
