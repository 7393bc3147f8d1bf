import TraceWeave.Proofs.Syntax.Visits
import TraceWeave.Proofs.Syntax.Lists

/-!
Edits of the own expressions of a statement.

Each own expression becomes what the edit makes of it, and the blocks stay as they are.
Edits of the calls alone leave names in place, too.
-/

namespace TraceWeave.Syntax

section

variable {m : Type → Type} [Monad m] {σ : Type}

/-- What an edit makes of an expression in some state. -/
def Edits.Makes (edits : Edits m) (threaded : Threaded m σ) (expr expr' : Expr) : Prop :=
  ∃ s, expr' = (threaded.run (expr.edit edits) s).1

variable {edits : Edits m} {threaded : Threaded m σ}

theorem editIf_hasOwn {α : Type} (part : α) (edit : m α) :
    editIf EditScope.own.hasOwn part edit = edit := rfl

theorem editIf_hasNested {α : Type} (part : α) (edit : m α) :
    editIf EditScope.own.hasNested part edit = pure part := rfl

theorem editExprs_makes (exprs : List Expr) (s : σ) :
    List.Forall₂ (edits.Makes threaded) exprs (threaded.run (editExprs edits exprs) s).1 := by
  induction exprs generalizing s with
  | nil =>
      simp only [editExprs, Threaded.run_pure]
      exact .nil
  | cons expr exprs ih =>
      simp only [editExprs, Threaded.run_bind, Threaded.run_pure]
      exact .cons ⟨s, rfl⟩ (ih _)

/-- The expression is edited, or left alone as one that is written back verbatim. -/
def Edits.MakesOwn (edits : Edits m) (threaded : Threaded m σ) (expr expr' : Expr) : Prop :=
  expr' = expr ∨ edits.Makes threaded expr expr'

theorem StmtKind.edit_ownExprs (kind : StmtKind) (s : σ) :
    List.Forall₂ (edits.MakesOwn threaded) kind.ownExprs
      (threaded.run (kind.edit edits .own) s).1.ownExprs := by
  have hone : ∀ (expr : Expr) (s : σ), List.Forall₂ (edits.MakesOwn threaded) [expr]
      [(threaded.run (expr.edit edits) s).1] := fun expr s => .cons (.inr ⟨s, rfl⟩) .nil
  have hexprs : ∀ (exprs : List Expr) (s : σ), List.Forall₂ (edits.MakesOwn threaded) exprs
      (threaded.run (editExprs edits exprs) s).1 :=
    fun exprs s => (editExprs_makes exprs s).imp fun _ _ => .inr
  have hsame : ∀ exprs : List Expr, List.Forall₂ (edits.MakesOwn threaded) exprs exprs :=
    fun exprs => List.forall₂_same.2 fun _ _ => .inl rfl
  match kind with
  | .expr value =>
      simp only [StmtKind.edit, editIf_hasOwn, Threaded.run_bind, Threaded.run_pure]
      exact hone value s
  | .spawn call =>
      simp only [StmtKind.edit, editIf_hasOwn, Threaded.run_bind, Threaded.run_pure]
      exact hone call s
  | .defer call =>
      simp only [StmtKind.edit, editIf_hasOwn, Threaded.run_bind, Threaded.run_pure]
      exact hone call s
  | .assign left op right =>
      simp only [StmtKind.edit, editIf_hasOwn, Threaded.run_bind, Threaded.run_pure]
      exact List.rel_append (hexprs left s) (hexprs right _)
  | .ret results =>
      simp only [StmtKind.edit, editIf_hasOwn, Threaded.run_bind, Threaded.run_pure]
      exact hexprs results s
  | .cond none test ⟨body, trailing, inline⟩ alternative =>
      simp only [StmtKind.edit, editOptional, editIf_hasOwn, editIf_hasNested,
        Threaded.run_bind, Threaded.run_pure]
      exact hone test _
  | .cond (some ⟨kind, decs⟩) test ⟨body, trailing, inline⟩ alternative =>
      simp only [StmtKind.edit, editOptional, editIf_hasOwn, editIf_hasNested,
        Threaded.run_bind, Threaded.run_pure]
      exact List.rel_append (kind.edit_ownExprs s) (hone test _)
  | .loop .infinite ⟨body, trailing, inline⟩ =>
      simp only [StmtKind.edit, LoopHeader.edit, editIf_hasOwn, editIf_hasNested,
        Threaded.run_bind, Threaded.run_pure]
      exact .nil
  | .loop (.clauses text) ⟨body, trailing, inline⟩ =>
      simp only [StmtKind.edit, LoopHeader.edit, editIf_hasOwn, editIf_hasNested,
        Threaded.run_bind, Threaded.run_pure]
      exact .nil
  | .loop (.cond test) ⟨body, trailing, inline⟩ =>
      simp only [StmtKind.edit, LoopHeader.edit, editIf_hasOwn, editIf_hasNested,
        Threaded.run_bind, Threaded.run_pure]
      exact hone test _
  | .loop (.range key value op operand) ⟨body, trailing, inline⟩ =>
      simp only [StmtKind.edit, LoopHeader.edit, editIf_hasOwn, editIf_hasNested,
        Threaded.run_bind, Threaded.run_pure]
      exact hone operand _
  | .switch header clauses trailing =>
      simp only [StmtKind.edit, Threaded.run_bind, Threaded.run_pure]
      exact .nil
  | .select clauses trailing =>
      simp only [StmtKind.edit, Threaded.run_bind, Threaded.run_pure]
      exact .nil
  | .block ⟨body, trailing, inline⟩ =>
      simp only [StmtKind.edit, Threaded.run_bind, Threaded.run_pure]
      exact .nil
  | .labeled label ⟨kind, decs⟩ =>
      simp only [StmtKind.edit, Threaded.run_bind, Threaded.run_pure]
      exact kind.edit_ownExprs s
  | .decl group =>
      simp only [StmtKind.edit, Threaded.run_pure]
      exact hsame _
  | .verbatim text =>
      simp only [StmtKind.edit, Threaded.run_pure]
      exact hsame _

theorem StmtKind.edit_blocks (kind : StmtKind) (s : σ) :
    (threaded.run (kind.edit edits .own) s).1.blocks = kind.blocks := by
  match kind with
  | .cond init test ⟨body, trailing, inline⟩ none =>
      simp [StmtKind.edit, editIf_hasNested, StmtKind.blocks]
  | .cond init test ⟨body, trailing, inline⟩ (some ⟨kind, decs⟩) =>
      simp [StmtKind.edit, editIf_hasNested, StmtKind.blocks]
  | .loop header ⟨body, trailing, inline⟩ =>
      simp [StmtKind.edit, editIf_hasNested, StmtKind.blocks]
  | .switch header clauses trailing => simp [StmtKind.edit, editIf_hasNested]
  | .select clauses trailing => simp [StmtKind.edit, editIf_hasNested]
  | .block ⟨body, trailing, inline⟩ => simp [StmtKind.edit, editIf_hasNested]
  | .labeled label ⟨kind, decs⟩ =>
      simp only [StmtKind.edit, Threaded.run_bind, Threaded.run_pure]
      exact kind.edit_blocks s
  | .expr _ => simp [StmtKind.edit, StmtKind.blocks]
  | .assign _ _ _ => simp [StmtKind.edit, StmtKind.blocks]
  | .spawn _ => simp [StmtKind.edit, StmtKind.blocks]
  | .defer _ => simp [StmtKind.edit, StmtKind.blocks]
  | .ret _ => simp [StmtKind.edit, StmtKind.blocks]
  | .decl _ => simp [StmtKind.edit]
  | .verbatim _ => simp [StmtKind.edit]

/-- The own edit of an assignment is one of both its sides. -/
theorem StmtKind.edit_assign (left right : List Expr) (op : AssignOp) (s : σ) :
    ∃ left' right', (threaded.run ((StmtKind.assign left op right).edit edits .own) s).1 =
        .assign left' op right' ∧
      List.Forall₂ (edits.Makes threaded) left left' ∧
      List.Forall₂ (edits.Makes threaded) right right' := by
  simp only [StmtKind.edit, editIf_hasOwn, Threaded.run_bind, Threaded.run_pure]
  exact ⟨_, _, rfl, editExprs_makes left s, editExprs_makes right _⟩

/-- A name stays the name, and nothing else becomes one. -/
theorem Edits.Makes.ident?_eq (hident : ∀ ident s, threaded.run (edits.ident ident) s = (ident, s))
    {expr expr' : Expr} (h : edits.Makes threaded expr expr') : expr'.ident? = expr.ident? := by
  obtain ⟨s, rfl⟩ := h
  obtain ⟨kind, decs⟩ := expr
  simp only [Expr.edit, Threaded.run_bind, Threaded.run_pure]
  cases kind with
  | ident ident => simp only [ExprKind.edit, Threaded.run_map, hident]
  | call call =>
      obtain ⟨callee, args, spread, closesLine⟩ := call
      simp [ExprKind.edit, Expr.ident?]
  | func params results body =>
      obtain ⟨body, trailing, inline⟩ := body
      simp [ExprKind.edit, Expr.ident?]
  | _ => simp [ExprKind.edit, Expr.ident?]

/-- A member access stays one of the same member, and nothing else becomes one. -/
theorem Edits.Makes.selector? {expr expr' : Expr} (h : edits.Makes threaded expr expr') :
    (expr.selector? = none ∧ expr'.selector? = none) ∨
      ∃ operand operand' member, expr.selector? = some (operand, member) ∧
        expr'.selector? = some (operand', member) ∧ edits.Makes threaded operand operand' := by
  obtain ⟨s, rfl⟩ := h
  obtain ⟨kind, decs⟩ := expr
  simp only [Expr.edit, Threaded.run_bind, Threaded.run_pure]
  cases kind with
  | selector operand member =>
      simp only [ExprKind.edit, Threaded.run_bind, Threaded.run_pure]
      exact .inr ⟨operand, _, member, rfl, rfl, s, rfl⟩
  | call call =>
      obtain ⟨callee, args, spread, closesLine⟩ := call
      simp [ExprKind.edit, Expr.selector?]
  | func params results body =>
      obtain ⟨body, trailing, inline⟩ := body
      simp [ExprKind.edit, Expr.selector?]
  | _ => simp [ExprKind.edit, Expr.selector?]

/-- Nothing but a call becomes one. -/
theorem Edits.Makes.call?_eq_none {expr expr' : Expr} (h : edits.Makes threaded expr expr')
    (hcall : expr.call? = none) : expr'.call? = none := by
  obtain ⟨s, rfl⟩ := h
  obtain ⟨kind, decs⟩ := expr
  simp only [Expr.edit, Threaded.run_bind, Threaded.run_pure]
  cases kind with
  | call call => contradiction
  | func params results body =>
      obtain ⟨body, trailing, inline⟩ := body
      simp [ExprKind.edit, Expr.call?]
  | _ => simp [ExprKind.edit, Expr.call?]

/-- Nothing but an assignment becomes one. -/
theorem StmtKind.edit_ne_assign (kind : StmtKind) (s : σ)
    (h : ∀ left op right, kind ≠ .assign left op right) (left : List Expr) (op : AssignOp)
    (right : List Expr) : (threaded.run (kind.edit edits .own) s).1 ≠ .assign left op right := by
  match kind with
  | .assign left op right => exact absurd rfl (h left op right)
  | .cond init test ⟨body, trailing, inline⟩ alternative => simp [StmtKind.edit]
  | .loop header ⟨body, trailing, inline⟩ => simp [StmtKind.edit]
  | .block ⟨body, trailing, inline⟩ => simp [StmtKind.edit]
  | .labeled label ⟨kind, decs⟩ => simp [StmtKind.edit]
  | .switch _ _ _ => simp [StmtKind.edit]
  | .select _ _ => simp [StmtKind.edit]
  | .expr _ => simp [StmtKind.edit]
  | .spawn _ => simp [StmtKind.edit]
  | .defer _ => simp [StmtKind.edit]
  | .ret _ => simp [StmtKind.edit]
  | .decl _ => simp [StmtKind.edit]
  | .verbatim _ => simp [StmtKind.edit]

end

/-! ## Blocks -/

section

variable {m : Type → Type} [Monad m] [LawfulMonad m] {σ : Type} {threaded : Threaded m σ}
  {edit : List Stmt → m (List Stmt)}

theorem mapM_clauses_same {clauses : List Clause} {s : σ}
    (h : ∀ body ∈ clauses.map (·.body), threaded.run (edit body) s = (body, s)) :
    threaded.run (clauses.mapM fun clause =>
      return { clause with body := ← edit clause.body }) s = (clauses, s) := by
  induction clauses with
  | nil => simp
  | cons clause clauses ih =>
      obtain ⟨head, body, trailing, decs⟩ := clause
      simp only [List.map_cons, List.forall_mem_cons] at h
      simp only [List.mapM_cons, Threaded.run_bind, Threaded.run_pure, h.1, ih h.2]

/-- An edit that leaves every block of a statement alone leaves the statement alone. -/
theorem StmtKind.editBlocks_same (kind : StmtKind) (s : σ)
    (h : ∀ block ∈ kind.blocks, threaded.run (edit block) s = (block, s)) :
    threaded.run (kind.editBlocks edit) s = (kind, s) := by
  match kind with
  | .cond init test ⟨body, trailing, inline⟩ none =>
      have hbody := h body List.mem_cons_self
      simp only [StmtKind.editBlocks, Threaded.run_bind, Threaded.run_pure, hbody]
  | .cond init test ⟨body, trailing, inline⟩ (some ⟨kind, decs⟩) =>
      rw [StmtKind.blocks, List.forall_mem_cons] at h
      simp only [StmtKind.editBlocks, Threaded.run_bind, Threaded.run_pure, h.1,
        kind.editBlocks_same s h.2]
  | .loop header ⟨body, trailing, inline⟩ =>
      have hbody := h body List.mem_cons_self
      simp only [StmtKind.editBlocks, Threaded.run_bind, Threaded.run_pure, hbody]
  | .switch header clauses trailing =>
      simp only [StmtKind.editBlocks, Threaded.run_bind, Threaded.run_pure, mapM_clauses_same h]
  | .select clauses trailing =>
      simp only [StmtKind.editBlocks, Threaded.run_bind, Threaded.run_pure, mapM_clauses_same h]
  | .block ⟨body, trailing, inline⟩ =>
      have hbody := h body List.mem_cons_self
      simp only [StmtKind.editBlocks, Threaded.run_bind, Threaded.run_pure, hbody]
  | .labeled label ⟨kind, decs⟩ =>
      simp only [StmtKind.editBlocks, Threaded.run_bind, Threaded.run_pure,
        kind.editBlocks_same s h]
  | .expr _ => simp only [StmtKind.editBlocks, Threaded.run_pure]
  | .assign _ _ _ => simp only [StmtKind.editBlocks, Threaded.run_pure]
  | .spawn _ => simp only [StmtKind.editBlocks, Threaded.run_pure]
  | .defer _ => simp only [StmtKind.editBlocks, Threaded.run_pure]
  | .ret _ => simp only [StmtKind.editBlocks, Threaded.run_pure]
  | .decl _ => simp only [StmtKind.editBlocks, Threaded.run_pure]
  | .verbatim _ => simp only [StmtKind.editBlocks, Threaded.run_pure]

theorem Stmt.editBlocks_same (stmt : Stmt) (s : σ)
    (h : ∀ block ∈ stmt.kind.blocks, threaded.run (edit block) s = (block, s)) :
    threaded.run (stmt.editBlocks edit) s = (stmt, s) := by
  obtain ⟨kind, decs⟩ := stmt
  simp only [Stmt.editBlocks, Threaded.run_bind, Threaded.run_pure, kind.editBlocks_same s h]

end

section

variable {stmts stmts' : List Stmt} {kind kind' : StmtKind}

theorem StmtKind.Replaces.ownExprs_eq (h : StmtKind.Replaces stmts stmts' kind kind') :
    kind'.ownExprs = kind.ownExprs := by
  induction h with
  | @branch _ init => rcases init with _ | ⟨_, _⟩ <;> rfl
  | @alternative init => rcases init with _ | ⟨_, _⟩ <;> rfl
  | @loop header => cases header <;> rfl
  | labeled _ ih => exact ih
  | _ => rfl

/-- The own calls of a statement are not in its blocks. -/
theorem StmtKind.Replaces.holds_own {P : CallTest} (hP : ∀ call, P false call)
    (h : StmtKind.Replaces stmts stmts' kind kind') (hcalls : Holds P (kind.calls true .own)) :
    Holds P (kind'.calls true .own) := by
  have hfalse : ∀ {entries : List (Bool × Call)}, Holds unreached entries → Holds P entries :=
    fun h => h.imp fun reached call hreached => hreached ▸ hP call
  induction h with
  | branch _ =>
      rw [StmtKind.calls_cond] at hcalls ⊢
      obtain ⟨hinit, hcalls⟩ := Holds.append.1 hcalls
      obtain ⟨htest, hcalls⟩ := Holds.append.1 hcalls
      obtain ⟨-, halternative⟩ := Holds.append.1 hcalls
      exact Holds.append.2 ⟨hinit, Holds.append.2 ⟨htest,
        Holds.append.2 ⟨hfalse (callsOfStmts_false _), halternative⟩⟩⟩
  | alternative _ _ =>
      rw [StmtKind.calls_cond] at hcalls ⊢
      obtain ⟨hinit, hcalls⟩ := Holds.append.1 hcalls
      obtain ⟨htest, hcalls⟩ := Holds.append.1 hcalls
      obtain ⟨hbody, -⟩ := Holds.append.1 hcalls
      exact Holds.append.2 ⟨hinit, Holds.append.2 ⟨htest,
        Holds.append.2 ⟨hbody, hfalse (callsOfOptional_false _ _)⟩⟩⟩
  | loop => exact Holds.append.2 ⟨(Holds.append.1 hcalls).1, hfalse (callsOfStmts_false _)⟩
  | switch => exact hfalse (callsOfClauses_false _)
  | select => exact hfalse (callsOfClauses_false _)
  | block => exact hfalse (callsOfStmts_false _)
  | labeled _ ih => exact ih hcalls

end

end TraceWeave.Syntax
