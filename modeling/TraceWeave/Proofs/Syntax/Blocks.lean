import Mathlib.Logic.Relation
import TraceWeave.Proofs.Syntax.Rewriting
import TraceWeave.Syntax.Cursor

/-!
Walks along a list of statements, the lists inside a statement, and how deep these are
nested.

`StmtKind.Replaces` says that one of these lists has been replaced.  Changing the
blocks of a statement replaces them one after the other (`StmtKind.editBlocks_steps`).
The body of a spawned function literal counts as such a list, too (`StmtKind.Nests`);
every list lies less deep than the statement (`StmtKind.Nests.depth_lt`), and changes of
expressions leave the depth alone (`StmtsRewrite.depth_eq`).
-/

namespace TraceWeave.Syntax

/-! ## Walking along a list -/

theorem Cursor.toList_eq (cursor : Cursor) :
    cursor.toList = cursor.before.reverse ++ cursor.current :: (cursor.after ++ cursor.rest) := by
  simp [toList, passed]

/-- What every visit does to the list that the cursor is on, the whole walk does. -/
theorem walkFrom_preserves {m : Type → Type} [Monad m] {σ : Type} (threaded : Threaded m σ)
    {visit : Cursor → m Cursor} {R : List Stmt × σ → List Stmt × σ → Prop} (hrefl : ∀ x, R x x)
    (htrans : ∀ {x y z}, R x y → R y z → R x z)
    (hvisit : ∀ cursor s, R (cursor.toList, s)
      ((threaded.run (visit cursor) s).1.toList, (threaded.run (visit cursor) s).2))
    (limit : Nat) (passed rest : List Stmt) (s : σ) :
    R (passed.reverse ++ rest, s) (threaded.run (walkFrom visit limit passed rest) s) := by
  induction limit generalizing passed rest s with
  | zero => cases rest <;> simp [walkFrom, hrefl]
  | succ limit ih =>
      cases rest with
      | nil => simp [walkFrom, hrefl]
      | cons current rest =>
          rw [walkFrom, Threaded.run_bind]
          have hfirst := hvisit { before := passed, current, rest } s
          have hlist : ({ before := passed, current, rest } : Cursor).toList =
              passed.reverse ++ current :: rest := by
            simp [Cursor.toList_eq]
          rw [hlist] at hfirst
          exact htrans hfirst (ih _ _ _)

/-! ## Lists inside a statement -/

/-- One of the lists of statements inside a statement has been replaced. -/
inductive StmtKind.Replaces (stmts stmts' : List Stmt) : StmtKind → StmtKind → Prop where
  | branch (inline' : Bool) {init : Option Stmt} {test : Expr} {trailing : List String}
      {inline : Bool} {alternative : Option Stmt} :
      StmtKind.Replaces stmts stmts' (.cond init test ⟨stmts, trailing, inline⟩ alternative)
        (.cond init test ⟨stmts', trailing, inline'⟩ alternative)
  | alternative {init : Option Stmt} {test : Expr} {body : Block} {kind kind' : StmtKind}
      {decs : Decorations} :
      StmtKind.Replaces stmts stmts' kind kind' →
      StmtKind.Replaces stmts stmts' (.cond init test body (some ⟨kind, decs⟩))
        (.cond init test body (some ⟨kind', decs⟩))
  | loop {header : LoopHeader} {trailing : List String} {inline : Bool} :
      StmtKind.Replaces stmts stmts' (.loop header ⟨stmts, trailing, inline⟩)
        (.loop header ⟨stmts', trailing, inline⟩)
  | switch {header : Option String} {front back : List Clause} {head : String}
      {trailing final : List String} {decs : Decorations} :
      StmtKind.Replaces stmts stmts'
        (.switch header (front ++ ⟨head, stmts, trailing, decs⟩ :: back) final)
        (.switch header (front ++ ⟨head, stmts', trailing, decs⟩ :: back) final)
  | select {front back : List Clause} {head : String} {trailing final : List String}
      {decs : Decorations} :
      StmtKind.Replaces stmts stmts'
        (.select (front ++ ⟨head, stmts, trailing, decs⟩ :: back) final)
        (.select (front ++ ⟨head, stmts', trailing, decs⟩ :: back) final)
  | block {trailing : List String} {inline : Bool} :
      StmtKind.Replaces stmts stmts' (.block ⟨stmts, trailing, inline⟩)
        (.block ⟨stmts', trailing, inline⟩)
  | labeled {label : String} {kind kind' : StmtKind} {decs : Decorations} :
      StmtKind.Replaces stmts stmts' kind kind' →
      StmtKind.Replaces stmts stmts' (.labeled label ⟨kind, decs⟩) (.labeled label ⟨kind', decs⟩)

/-- A list inside a statement, or the body of the literal that it spawns, has been replaced. -/
inductive StmtKind.Nests (stmts stmts' : List Stmt) : StmtKind → StmtKind → Prop where
  | block {kind kind' : StmtKind} :
      StmtKind.Replaces stmts stmts' kind kind' → StmtKind.Nests stmts stmts' kind kind'
  | spawned {params : FieldList} {results : Option Results} {trailing : List String}
      {inline : Bool} {calleeDecs decs : Decorations} {args : List Expr}
      {spread closesLine : Bool} :
      StmtKind.Nests stmts stmts'
        (.spawn ⟨.call ⟨⟨.func params results ⟨stmts, trailing, inline⟩, calleeDecs⟩, args, spread,
          closesLine⟩, decs⟩)
        (.spawn ⟨.call ⟨⟨.func params results ⟨stmts', trailing, inline⟩, calleeDecs⟩, args, spread,
          closesLine⟩, decs⟩)

/-! ## Changing the blocks -/

section

variable {m : Type → Type} [Monad m] {σ : Type}

/-- One list inside a statement has become what its edit makes of it. -/
def BlockChanges (threaded : Threaded m σ) (edit : List Stmt → m (List Stmt))
    (before after : StmtKind × σ) : Prop :=
  ∃ stmts, StmtKind.Replaces stmts (threaded.run (edit stmts) before.2).1 before.1 after.1 ∧
    after.2 = (threaded.run (edit stmts) before.2).2

/-- The edits of the lists inside a statement. -/
abbrev BlockSteps (threaded : Threaded m σ) (edit : List Stmt → m (List Stmt)) :=
  Relation.ReflTransGen (BlockChanges threaded edit)

variable {threaded : Threaded m σ} {edit : List Stmt → m (List Stmt)}

private theorem BlockSteps.one {stmts : List Stmt} {kind kind' : StmtKind} {s : σ}
    (h : StmtKind.Replaces stmts (threaded.run (edit stmts) s).1 kind kind') :
    BlockSteps threaded edit (kind, s) (kind', (threaded.run (edit stmts) s).2) :=
  .single ⟨stmts, h, rfl⟩

private theorem BlockSteps.inside (whole : StmtKind → StmtKind)
    (h : ∀ stmts stmts' kind kind', StmtKind.Replaces stmts stmts' kind kind' →
      StmtKind.Replaces stmts stmts' (whole kind) (whole kind'))
    {kind kind' : StmtKind} {s s' : σ} (steps : BlockSteps threaded edit (kind, s) (kind', s')) :
    BlockSteps threaded edit (whole kind, s) (whole kind', s') :=
  Relation.ReflTransGen.lift (fun x : StmtKind × σ => (whole x.1, x.2))
    (fun _ _ ⟨stmts, hreplaces, hstate⟩ => ⟨stmts, h _ _ _ _ hreplaces, hstate⟩) _ _ steps

/-- The clauses in front of those that are left have been edited. -/
private theorem editClauseBodies_steps [LawfulMonad m] (whole : List Clause → StmtKind)
    (h : ∀ front back head stmts stmts' trailing decs, StmtKind.Replaces stmts stmts'
      (whole (front ++ ⟨head, stmts, trailing, decs⟩ :: back))
      (whole (front ++ ⟨head, stmts', trailing, decs⟩ :: back)))
    (front clauses : List Clause) (s : σ) :
    BlockSteps threaded edit (whole (front ++ clauses), s)
      (whole (front ++ (threaded.run (clauses.mapM fun clause =>
          return { clause with body := ← edit clause.body }) s).1),
        (threaded.run (clauses.mapM fun clause =>
          return { clause with body := ← edit clause.body }) s).2) := by
  induction clauses generalizing front s with
  | nil => simp [Relation.ReflTransGen.refl]
  | cons clause clauses ih =>
      obtain ⟨head, stmts, trailing, decs⟩ := clause
      simp only [List.mapM_cons, Threaded.run_bind, Threaded.run_pure]
      refine .trans (BlockSteps.one (h front clauses head stmts _ trailing decs)) ?_
      have hrest := ih (front ++ [⟨head, (threaded.run (edit stmts) s).1, trailing, decs⟩])
        (threaded.run (edit stmts) s).2
      simpa only [List.append_assoc, List.singleton_append] using hrest

theorem StmtKind.editBlocks_steps [LawfulMonad m] (kind : StmtKind) (s : σ) :
    BlockSteps threaded edit (kind, s) (threaded.run (kind.editBlocks edit) s) := by
  match kind with
  | .cond init test ⟨body, trailing, inline⟩ none =>
      simp only [StmtKind.editBlocks, Threaded.run_bind, Threaded.run_pure]
      exact BlockSteps.one (.branch inline)
  | .cond init test ⟨body, trailing, inline⟩ (some ⟨kind, decs⟩) =>
      simp only [StmtKind.editBlocks, Threaded.run_bind, Threaded.run_pure]
      refine .trans (BlockSteps.one (.branch inline)) ?_
      exact BlockSteps.inside
        (fun kind => .cond init test ⟨_, trailing, inline⟩ (some ⟨kind, decs⟩))
        (fun _ _ _ _ h => .alternative h) (kind.editBlocks_steps _)
  | .loop header ⟨body, trailing, inline⟩ =>
      simp only [StmtKind.editBlocks, Threaded.run_bind, Threaded.run_pure]
      exact BlockSteps.one .loop
  | .switch header clauses trailing =>
      simp only [StmtKind.editBlocks, Threaded.run_bind, Threaded.run_pure]
      exact editClauseBodies_steps (fun clauses => .switch header clauses trailing)
        (fun _ _ _ _ _ _ _ => .switch) [] clauses s
  | .select clauses trailing =>
      simp only [StmtKind.editBlocks, Threaded.run_bind, Threaded.run_pure]
      exact editClauseBodies_steps (fun clauses => .select clauses trailing)
        (fun _ _ _ _ _ _ _ => .select) [] clauses s
  | .block ⟨body, trailing, inline⟩ =>
      simp only [StmtKind.editBlocks, Threaded.run_bind, Threaded.run_pure]
      exact BlockSteps.one .block
  | .labeled label ⟨kind, decs⟩ =>
      simp only [StmtKind.editBlocks, Threaded.run_bind, Threaded.run_pure]
      exact BlockSteps.inside (fun kind => .labeled label ⟨kind, decs⟩)
        (fun _ _ _ _ h => .labeled h) (kind.editBlocks_steps s)
  | .expr _ => simp [StmtKind.editBlocks, Relation.ReflTransGen.refl]
  | .assign _ _ _ => simp [StmtKind.editBlocks, Relation.ReflTransGen.refl]
  | .spawn _ => simp [StmtKind.editBlocks, Relation.ReflTransGen.refl]
  | .defer _ => simp [StmtKind.editBlocks, Relation.ReflTransGen.refl]
  | .ret _ => simp [StmtKind.editBlocks, Relation.ReflTransGen.refl]
  | .decl _ => simp [StmtKind.editBlocks, Relation.ReflTransGen.refl]
  | .verbatim _ => simp [StmtKind.editBlocks, Relation.ReflTransGen.refl]

end

/-! ## Depth -/

theorem depthOfStmts_cons (stmt : Stmt) (stmts : List Stmt) :
    depthOfStmts (stmt :: stmts) = max stmt.kind.depth (depthOfStmts stmts) := by
  cases stmt
  rfl

theorem depthOfStmts_append (front back : List Stmt) :
    depthOfStmts (front ++ back) = max (depthOfStmts front) (depthOfStmts back) := by
  induction front with
  | nil => simp [depthOfStmts]
  | cons stmt front ih =>
      obtain ⟨kind, decs⟩ := stmt
      simp only [List.cons_append, depthOfStmts, ih, Nat.max_assoc]

theorem depth_le_of_mem {stmt : Stmt} {stmts : List Stmt} (h : stmt ∈ stmts) :
    stmt.kind.depth ≤ depthOfStmts stmts := by
  obtain ⟨front, back, rfl⟩ := List.append_of_mem h
  rw [depthOfStmts_append, depthOfStmts_cons]
  omega

theorem depthOfClauses_append (front back : List Clause) :
    depthOfClauses (front ++ back) = max (depthOfClauses front) (depthOfClauses back) := by
  induction front with
  | nil => simp [depthOfClauses]
  | cons clause front ih =>
      obtain ⟨head, body, trailing, decs⟩ := clause
      simp only [List.cons_append, depthOfClauses, ih, Nat.max_assoc]

theorem StmtKind.depth_cond (init : Option Stmt) (test : Expr) (body : Block)
    (alternative : Option Stmt) :
    (StmtKind.cond init test body alternative).depth =
      max (depthOfStmts body.stmts + 1) ((alternative.map (·.kind.depth)).getD 0) := by
  obtain ⟨stmts, trailing, inline⟩ := body
  match alternative with
  | none => simp [StmtKind.depth]
  | some ⟨kind, decs⟩ => simp [StmtKind.depth]

theorem StmtKind.depth_loop (header : LoopHeader) (body : Block) :
    (StmtKind.loop header body).depth = depthOfStmts body.stmts + 1 := by
  cases body
  rfl

namespace StmtKind.Replaces

variable {stmts stmts' : List Stmt} {kind kind' : StmtKind}

theorem depth_lt (h : StmtKind.Replaces stmts stmts' kind kind') :
    depthOfStmts stmts < kind.depth := by
  induction h with
  | branch => simp only [StmtKind.depth_cond]; omega
  | alternative _ ih => simp only [StmtKind.depth_cond, Option.map_some, Option.getD_some]; omega
  | loop => simp only [StmtKind.depth_loop]; omega
  | switch => simp only [StmtKind.depth, depthOfClauses_append, depthOfClauses]; omega
  | select => simp only [StmtKind.depth, depthOfClauses_append, depthOfClauses]; omega
  | block => simp only [StmtKind.depth]; omega
  | labeled _ ih => simpa only [StmtKind.depth] using ih

theorem depth_le (h : StmtKind.Replaces stmts stmts' kind kind')
    (hle : depthOfStmts stmts' ≤ depthOfStmts stmts) : kind'.depth ≤ kind.depth := by
  induction h with
  | branch => simp only [StmtKind.depth_cond]; omega
  | alternative _ ih => simp only [StmtKind.depth_cond, Option.map_some, Option.getD_some]; omega
  | loop => simp only [StmtKind.depth_loop]; omega
  | switch => simp only [StmtKind.depth, depthOfClauses_append, depthOfClauses]; omega
  | select => simp only [StmtKind.depth, depthOfClauses_append, depthOfClauses]; omega
  | block => simp only [StmtKind.depth]; omega
  | labeled _ ih => simpa only [StmtKind.depth] using ih

end StmtKind.Replaces

namespace StmtKind.Nests

variable {stmts stmts' : List Stmt} {kind kind' : StmtKind}

theorem depth_lt (h : StmtKind.Nests stmts stmts' kind kind') : depthOfStmts stmts < kind.depth := by
  cases h with
  | block h => exact h.depth_lt
  | spawned => simp only [StmtKind.depth]; omega

theorem depth_le (h : StmtKind.Nests stmts stmts' kind kind')
    (hle : depthOfStmts stmts' ≤ depthOfStmts stmts) : kind'.depth ≤ kind.depth := by
  cases h with
  | block h => exact h.depth_le hle
  | spawned => simp only [StmtKind.depth]; omega

end StmtKind.Nests

/-! ## Changes of expressions -/

/-- A change that keeps the callee of a call and the number of an identifier. -/
inductive Expr.Adjusts : Expr → Expr → Prop where
  | call {call call' : Call} {decs : Decorations} :
      call'.callee = call.callee → Expr.Adjusts ⟨.call call, decs⟩ ⟨.call call', decs⟩
  | ident {ident ident' : Ident} {decs : Decorations} :
      ident'.id = ident.id → Expr.Adjusts ⟨.ident ident, decs⟩ ⟨.ident ident', decs⟩

/-- The depth of the body of a function literal. -/
def Expr.literalDepth (expr : Expr) : Nat :=
  match expr.kind with
  | .func _ _ body => depthOfStmts body.stmts + 1
  | _ => 0

/-- The depth of the body of a function literal that is called. -/
def Expr.calledDepth (expr : Expr) : Nat := (expr.call?.map (·.callee.literalDepth)).getD 0

theorem StmtKind.depth_spawn (call : Expr) :
    (StmtKind.spawn call).depth = call.calledDepth := by
  obtain ⟨kind, decs⟩ := call
  cases kind with
  | call call =>
      obtain ⟨⟨kind, calleeDecs⟩, args, spread, closesLine⟩ := call
      cases kind with
      | func params results body => cases body; rfl
      | _ => rfl
  | _ => rfl

section

variable {literals : Bool} {part part' : Expr}

mutual

theorem Expr.Rewrites.depth_eq (hpart : part.Adjusts part') :
    ∀ {expr expr' : Expr}, Expr.Rewrites literals part part' expr expr' →
      expr'.literalDepth = expr.literalDepth ∧ expr'.calledDepth = expr.calledDepth
  | _, _, .here => by
      cases hpart with
      | call hcallee => simp [Expr.literalDepth, Expr.calledDepth, Expr.call?, hcallee]
      | ident _ => exact ⟨rfl, rfl⟩
  | _, _, .callee h =>
      ⟨rfl, by simpa [Expr.calledDepth, Expr.call?] using (h.depth_eq hpart).1⟩
  | _, _, .body _ h => ⟨by simp [Expr.literalDepth, h.depth_eq hpart], rfl⟩
  | _, _, .selector _ => ⟨rfl, rfl⟩
  | _, _, .star _ => ⟨rfl, rfl⟩
  | _, _, .unary _ => ⟨rfl, rfl⟩
  | _, _, .paren _ => ⟨rfl, rfl⟩
  | _, _, .left _ => ⟨rfl, rfl⟩
  | _, _, .right _ => ⟨rfl, rfl⟩
  | _, _, .arg _ => ⟨rfl, rfl⟩
  | _, _, .operand _ => ⟨rfl, rfl⟩
  | _, _, .index _ => ⟨rfl, rfl⟩

theorem StmtKind.Rewrites.depth_eq
    (hpart : part.Adjusts part') :
    ∀ {scope : EditScope} {kind kind' : StmtKind},
      StmtKind.Rewrites literals part part' scope kind kind' → kind'.depth = kind.depth
  | _, _, _, .spawn _ h => by simp only [StmtKind.depth_spawn, (h.depth_eq hpart).2]
  | _, _, _, .branch _ h => by simp only [StmtKind.depth_cond, h.depth_eq hpart]
  | _, _, _, .alternative _ h => by
      simp only [StmtKind.depth_cond, Option.map_some, Option.getD_some, h.depth_eq hpart]
  | _, _, _, .loopBody _ h => by simp only [StmtKind.depth, h.depth_eq hpart]
  | _, _, _, .switchClause _ h => by
      simp only [StmtKind.depth, depthOfClauses_append, depthOfClauses, h.depth_eq hpart]
  | _, _, _, .selectClause _ h => by
      simp only [StmtKind.depth, depthOfClauses_append, depthOfClauses, h.depth_eq hpart]
  | _, _, _, .block _ h => by simp only [StmtKind.depth, h.depth_eq hpart]
  | _, _, _, .labeled h => by simp only [StmtKind.depth, h.depth_eq hpart]
  | _, _, _, .init _ _ => by simp only [StmtKind.depth_cond]
  | _, _, _, .test _ _ => by simp only [StmtKind.depth_cond]
  | _, _, _, .expr _ _ => rfl
  | _, _, _, .defer _ _ => rfl
  | _, _, _, .target _ _ => rfl
  | _, _, _, .value _ _ => rfl
  | _, _, _, .result _ _ => rfl
  | _, _, _, .loopTest _ _ => by simp only [StmtKind.depth_loop]
  | _, _, _, .range _ _ => by simp only [StmtKind.depth_loop]

theorem StmtsRewrite.depth_eq (hpart : part.Adjusts part') :
    ∀ {stmts stmts' : List Stmt}, StmtsRewrite literals part part' stmts stmts' →
      depthOfStmts stmts' = depthOfStmts stmts
  | _, _, .within front h => by simp only [depthOfStmts_append, depthOfStmts, h.depth_eq hpart]

end

end

end TraceWeave.Syntax
