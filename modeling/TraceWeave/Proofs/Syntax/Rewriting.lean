import Mathlib.Logic.Relation
import TraceWeave.Syntax.Edit

/-!
Editing as a sequence of single changes.

`StmtsRewrite` says that one expression of a list of statements has changed, at a
place that edits reach.  The edits of `Syntax.Edit` run in any monad that threads
a state; each of their runs is a sequence of such changes, in which every change
accounts for the state that it leaves behind (`editStmts_steps`).
-/

namespace TraceWeave.Syntax

/-! ## Single changes -/

section

variable (literals : Bool) (part part' : Expr)

mutual

/-- One occurrence of a part has been replaced, here or inside. -/
inductive Expr.Rewrites : Expr → Expr → Prop where
  | here : Expr.Rewrites part part'
  | selector {operand operand' : Expr} {member : Ident} {decs : Decorations} :
      Expr.Rewrites operand operand' →
      Expr.Rewrites ⟨.selector operand member, decs⟩ ⟨.selector operand' member, decs⟩
  | star {operand operand' : Expr} {decs : Decorations} :
      Expr.Rewrites operand operand' → Expr.Rewrites ⟨.star operand, decs⟩ ⟨.star operand', decs⟩
  | unary {op : String} {operand operand' : Expr} {decs : Decorations} :
      Expr.Rewrites operand operand' →
      Expr.Rewrites ⟨.unary op operand, decs⟩ ⟨.unary op operand', decs⟩
  | paren {inner inner' : Expr} {decs : Decorations} :
      Expr.Rewrites inner inner' → Expr.Rewrites ⟨.paren inner, decs⟩ ⟨.paren inner', decs⟩
  | left {left left' right : Expr} {op : String} {decs : Decorations} :
      Expr.Rewrites left left' →
      Expr.Rewrites ⟨.binary left op right, decs⟩ ⟨.binary left' op right, decs⟩
  | right {left right right' : Expr} {op : String} {decs : Decorations} :
      Expr.Rewrites right right' →
      Expr.Rewrites ⟨.binary left op right, decs⟩ ⟨.binary left op right', decs⟩
  | callee {callee callee' : Expr} {args : List Expr} {spread closesLine : Bool}
      {decs : Decorations} :
      Expr.Rewrites callee callee' →
      Expr.Rewrites ⟨.call ⟨callee, args, spread, closesLine⟩, decs⟩
        ⟨.call ⟨callee', args, spread, closesLine⟩, decs⟩
  | arg {callee arg arg' : Expr} {front back : List Expr} {spread closesLine : Bool}
      {decs : Decorations} :
      Expr.Rewrites arg arg' →
      Expr.Rewrites ⟨.call ⟨callee, front ++ arg :: back, spread, closesLine⟩, decs⟩
        ⟨.call ⟨callee, front ++ arg' :: back, spread, closesLine⟩, decs⟩
  | operand {operand operand' : Expr} {indices : List Expr} {decs : Decorations} :
      Expr.Rewrites operand operand' →
      Expr.Rewrites ⟨.index operand indices, decs⟩ ⟨.index operand' indices, decs⟩
  | index {operand index index' : Expr} {front back : List Expr} {decs : Decorations} :
      Expr.Rewrites index index' →
      Expr.Rewrites ⟨.index operand (front ++ index :: back), decs⟩
        ⟨.index operand (front ++ index' :: back), decs⟩
  | body {params : FieldList} {results : Option Results} {stmts stmts' : List Stmt}
      {trailing : List String} {inline : Bool} {decs : Decorations} :
      literals = true → StmtsRewrite stmts stmts' →
      Expr.Rewrites ⟨.func params results ⟨stmts, trailing, inline⟩, decs⟩
        ⟨.func params results ⟨stmts', trailing, inline⟩, decs⟩

/-- The part has been replaced in an expression of a statement that a scope covers. -/
inductive StmtKind.Rewrites : EditScope → StmtKind → StmtKind → Prop where
  | expr {scope : EditScope} {value value' : Expr} :
      scope.hasOwn = true → Expr.Rewrites value value' →
      StmtKind.Rewrites scope (.expr value) (.expr value')
  | spawn {scope : EditScope} {call call' : Expr} :
      scope.hasOwn = true → Expr.Rewrites call call' →
      StmtKind.Rewrites scope (.spawn call) (.spawn call')
  | defer {scope : EditScope} {call call' : Expr} :
      scope.hasOwn = true → Expr.Rewrites call call' →
      StmtKind.Rewrites scope (.defer call) (.defer call')
  | target {scope : EditScope} {front back right : List Expr} {expr expr' : Expr}
      {op : AssignOp} :
      scope.hasOwn = true → Expr.Rewrites expr expr' →
      StmtKind.Rewrites scope (.assign (front ++ expr :: back) op right)
        (.assign (front ++ expr' :: back) op right)
  | value {scope : EditScope} {left front back : List Expr} {expr expr' : Expr}
      {op : AssignOp} :
      scope.hasOwn = true → Expr.Rewrites expr expr' →
      StmtKind.Rewrites scope (.assign left op (front ++ expr :: back))
        (.assign left op (front ++ expr' :: back))
  | result {scope : EditScope} {front back : List Expr} {expr expr' : Expr} :
      scope.hasOwn = true → Expr.Rewrites expr expr' →
      StmtKind.Rewrites scope (.ret (front ++ expr :: back)) (.ret (front ++ expr' :: back))
  | init {scope : EditScope} {kind kind' : StmtKind} {decs : Decorations} {test : Expr}
      {body : Block} {alternative : Option Stmt} :
      scope.hasOwn = true → StmtKind.Rewrites .own kind kind' →
      StmtKind.Rewrites scope (.cond (some ⟨kind, decs⟩) test body alternative)
        (.cond (some ⟨kind', decs⟩) test body alternative)
  | test {scope : EditScope} {init : Option Stmt} {test test' : Expr} {body : Block}
      {alternative : Option Stmt} :
      scope.hasOwn = true → Expr.Rewrites test test' →
      StmtKind.Rewrites scope (.cond init test body alternative)
        (.cond init test' body alternative)
  | branch {scope : EditScope} {init : Option Stmt} {test : Expr} {stmts stmts' : List Stmt}
      {trailing : List String} {inline : Bool} {alternative : Option Stmt} :
      scope.hasNested = true → StmtsRewrite stmts stmts' →
      StmtKind.Rewrites scope (.cond init test ⟨stmts, trailing, inline⟩ alternative)
        (.cond init test ⟨stmts', trailing, inline⟩ alternative)
  | alternative {scope : EditScope} {init : Option Stmt} {test : Expr} {body : Block}
      {kind kind' : StmtKind} {decs : Decorations} :
      scope.hasNested = true → StmtKind.Rewrites scope.branch kind kind' →
      StmtKind.Rewrites scope (.cond init test body (some ⟨kind, decs⟩))
        (.cond init test body (some ⟨kind', decs⟩))
  | loopTest {scope : EditScope} {test test' : Expr} {body : Block} :
      scope.hasOwn = true → Expr.Rewrites test test' →
      StmtKind.Rewrites scope (.loop (.cond test) body) (.loop (.cond test') body)
  | range {scope : EditScope} {key value : Option Expr} {op : Option AssignOp}
      {operand operand' : Expr} {body : Block} :
      scope.hasOwn = true → Expr.Rewrites operand operand' →
      StmtKind.Rewrites scope (.loop (.range key value op operand) body)
        (.loop (.range key value op operand') body)
  | loopBody {scope : EditScope} {header : LoopHeader} {stmts stmts' : List Stmt}
      {trailing : List String} {inline : Bool} :
      scope.hasNested = true → StmtsRewrite stmts stmts' →
      StmtKind.Rewrites scope (.loop header ⟨stmts, trailing, inline⟩)
        (.loop header ⟨stmts', trailing, inline⟩)
  | switchClause {scope : EditScope} {header : Option String} {front back : List Clause}
      {head : String} {stmts stmts' : List Stmt} {trailing final : List String}
      {decs : Decorations} :
      scope.hasNested = true → StmtsRewrite stmts stmts' →
      StmtKind.Rewrites scope
        (.switch header (front ++ ⟨head, stmts, trailing, decs⟩ :: back) final)
        (.switch header (front ++ ⟨head, stmts', trailing, decs⟩ :: back) final)
  | selectClause {scope : EditScope} {front back : List Clause} {head : String}
      {stmts stmts' : List Stmt} {trailing final : List String} {decs : Decorations} :
      scope.hasNested = true → StmtsRewrite stmts stmts' →
      StmtKind.Rewrites scope (.select (front ++ ⟨head, stmts, trailing, decs⟩ :: back) final)
        (.select (front ++ ⟨head, stmts', trailing, decs⟩ :: back) final)
  | block {scope : EditScope} {stmts stmts' : List Stmt} {trailing : List String}
      {inline : Bool} :
      scope.hasNested = true → StmtsRewrite stmts stmts' →
      StmtKind.Rewrites scope (.block ⟨stmts, trailing, inline⟩)
        (.block ⟨stmts', trailing, inline⟩)
  | labeled {scope : EditScope} {label : String} {kind kind' : StmtKind}
      {decs : Decorations} :
      StmtKind.Rewrites scope.behindLabel kind kind' →
      StmtKind.Rewrites scope (.labeled label ⟨kind, decs⟩) (.labeled label ⟨kind', decs⟩)

/-- The part has been replaced in one statement of a list. -/
inductive StmtsRewrite : List Stmt → List Stmt → Prop where
  | within (front : List Stmt) {back : List Stmt} {kind kind' : StmtKind} {decs : Decorations} :
      StmtKind.Rewrites .full kind kind' →
      StmtsRewrite (front ++ ⟨kind, decs⟩ :: back) (front ++ ⟨kind', decs⟩ :: back)

end

end

theorem StmtsRewrite.behind {literals : Bool} {part part' : Expr} {stmts stmts' : List Stmt}
    (h : StmtsRewrite literals part part' stmts stmts') (front : List Stmt) :
    StmtsRewrite literals part part' (front ++ stmts) (front ++ stmts') := by
  obtain ⟨inner, h⟩ := h
  simpa only [List.append_assoc] using StmtsRewrite.within (front ++ inner) h

/-- A change of the own expressions is one in every scope that has them. -/
theorem StmtKind.Rewrites.widen {literals : Bool} {part part' : Expr} {scope : EditScope}
    (hown : scope.hasOwn = true) : ∀ {kind kind' : StmtKind},
    StmtKind.Rewrites literals part part' .own kind kind' →
      StmtKind.Rewrites literals part part' scope kind kind'
  | _, _, .expr _ h => .expr hown h
  | _, _, .spawn _ h => .spawn hown h
  | _, _, .defer _ h => .defer hown h
  | _, _, .target _ h => .target hown h
  | _, _, .value _ h => .value hown h
  | _, _, .result _ h => .result hown h
  | _, _, .init _ h => .init hown h
  | _, _, .test _ h => .test hown h
  | _, _, .loopTest _ h => .loopTest hown h
  | _, _, .range _ h => .range hown h
  | _, _, .labeled h => .labeled (h.widen (by cases scope <;> simp_all [EditScope.behindLabel, EditScope.hasOwn]))

theorem StmtKind.Rewrites.toFull {literals : Bool} {part part' : Expr} {scope : EditScope}
    (hscope : scope = .own ∨ scope = .full) {kind kind' : StmtKind}
    (h : StmtKind.Rewrites literals part part' scope kind kind') :
    StmtKind.Rewrites literals part part' .full kind kind' := by
  rcases hscope with rfl | rfl
  · exact h.widen rfl
  · exact h

/-! ## Runs of a monad that threads a state -/

/-- How the computations of a monad run from one state to the next. -/
structure Threaded (m : Type → Type) [Monad m] (σ : Type) where
  run : {α : Type} → m α → σ → α × σ
  run_pure : ∀ {α : Type} (a : α) (s : σ), run (pure a) s = (a, s)
  run_bind : ∀ {α β : Type} (x : m α) (f : α → m β) (s : σ),
    run (x >>= f) s = run (f (run x s).1) (run x s).2
  run_map : ∀ {α β : Type} (f : α → β) (x : m α) (s : σ),
    run (f <$> x) s = (f (run x s).1, (run x s).2)

namespace Threaded

attribute [simp] run_pure run_bind run_map

/-- A monad of one state. -/
def ofStateM (σ : Type) : Threaded (StateM σ) σ where
  run x s := x s
  run_pure _ _ := rfl
  run_bind _ _ _ := rfl
  run_map _ _ _ := rfl

/-- Computations without a state. -/
def ofId : Threaded Id Unit where
  run x _ := (x, ())
  run_pure _ _ := rfl
  run_bind _ _ _ := rfl
  run_map _ _ _ := rfl

end Threaded

/-! ## Runs of edits -/

/-- One expression of a list of expressions has changed. -/
inductive ExprsRewrite (literals : Bool) (part part' : Expr) :
    List Expr → List Expr → Prop where
  | within (front : List Expr) {back : List Expr} {expr expr' : Expr} :
      Expr.Rewrites literals part part' expr expr' →
      ExprsRewrite literals part part' (front ++ expr :: back) (front ++ expr' :: back)

/-- One expression of a list of clauses has changed. -/
inductive ClausesRewrite (literals : Bool) (part part' : Expr) :
    List Clause → List Clause → Prop where
  | within (front : List Clause) {back : List Clause} {head : String} {stmts stmts' : List Stmt}
      {trailing : List String} {decs : Decorations} :
      StmtsRewrite literals part part' stmts stmts' →
      ClausesRewrite literals part part' (front ++ ⟨head, stmts, trailing, decs⟩ :: back)
        (front ++ ⟨head, stmts', trailing, decs⟩ :: back)

/-- One expression of a statement that may be absent has changed. -/
inductive OptionalRewrites (literals : Bool) (part part' : Expr) (scope : EditScope) :
    Option Stmt → Option Stmt → Prop where
  | some {kind kind' : StmtKind} {decs : Decorations} :
      StmtKind.Rewrites literals part part' scope kind kind' →
      OptionalRewrites literals part part' scope (some ⟨kind, decs⟩) (some ⟨kind', decs⟩)

/-- One expression of the header of a loop has changed. -/
inductive HeaderRewrites (literals : Bool) (part part' : Expr) :
    LoopHeader → LoopHeader → Prop where
  | cond {test test' : Expr} :
      Expr.Rewrites literals part part' test test' →
      HeaderRewrites literals part part' (.cond test) (.cond test')
  | range {key value : Option Expr} {op : Option AssignOp} {operand operand' : Expr} :
      Expr.Rewrites literals part part' operand operand' →
      HeaderRewrites literals part part' (.range key value op operand) (.range key value op operand')

section

variable {m : Type → Type} [Monad m] {σ : Type}

/-- What an expression and the state become in one visit. -/
abbrev Visits (σ : Type) := Expr × σ → Expr × σ → Prop

/-- One change of a part of a tree, along with the state. -/
def Changes {α : Type} (rewrites : Expr → Expr → α → α → Prop) (visits : Visits σ)
    (before after : α × σ) : Prop :=
  ∃ part part', visits (part, before.2) (part', after.2) ∧ rewrites part part' before.1 after.1

/-- A sequence of changes. -/
abbrev Steps {α : Type} (rewrites : Expr → Expr → α → α → Prop) (visits : Visits σ) :=
  Relation.ReflTransGen (Changes rewrites visits)

/-- Steps of a part are steps of the whole, if a change of the part is one of the whole. -/
theorem Steps.inside {α β : Type} {inner : Expr → Expr → α → α → Prop}
    {outer : Expr → Expr → β → β → Prop} {visits : Visits σ} (whole : α → β)
    (h : ∀ part part' a a', inner part part' a a' → outer part part' (whole a) (whole a'))
    {a a' : α} {s s' : σ} (steps : Steps inner visits (a, s) (a', s')) :
    Steps outer visits (whole a, s) (whole a', s') :=
  Relation.ReflTransGen.lift (fun x : α × σ => (whole x.1, x.2))
    (fun _ _ ⟨part, part', hvisit, hstep⟩ => ⟨part, part', hvisit, h part part' _ _ hstep⟩) _ _ steps

/-- Every visit of an edit changes the expression as `visits` says, or nothing. -/
structure Edits.Follows (edits : Edits m) (threaded : Threaded m σ) (visits : Visits σ) :
    Prop where
  call : ∀ (call : Call) (decs : Decorations) (s : σ),
    visits (⟨.call call, decs⟩, s)
        (⟨.call (threaded.run (edits.call call) s).1, decs⟩, (threaded.run (edits.call call) s).2) ∨
      threaded.run (edits.call call) s = (call, s)
  ident : ∀ (ident : Ident) (decs : Decorations) (s : σ),
    visits (⟨.ident ident, decs⟩, s)
        (⟨.ident (threaded.run (edits.ident ident) s).1, decs⟩,
          (threaded.run (edits.ident ident) s).2) ∨
      threaded.run (edits.ident ident) s = (ident, s)

variable {edits : Edits m} {threaded : Threaded m σ} {visits : Visits σ}

theorem Edits.Follows.steps_call (follows : edits.Follows threaded visits) (call : Call)
    (decs : Decorations) (s : σ) :
    Steps (Expr.Rewrites edits.literals) visits (⟨.call call, decs⟩, s)
      (⟨.call (threaded.run (edits.call call) s).1, decs⟩,
        (threaded.run (edits.call call) s).2) := by
  obtain hvisit | hsame := follows.call call decs s
  · exact .single ⟨_, _, hvisit, .here⟩
  · rw [hsame]

theorem Edits.Follows.steps_ident (follows : edits.Follows threaded visits) (ident : Ident)
    (decs : Decorations) (s : σ) :
    Steps (Expr.Rewrites edits.literals) visits (⟨.ident ident, decs⟩, s)
      (⟨.ident (threaded.run (edits.ident ident) s).1, decs⟩,
        (threaded.run (edits.ident ident) s).2) := by
  obtain hvisit | hsame := follows.ident ident decs s
  · exact .single ⟨_, _, hvisit, .here⟩
  · rw [hsame]

/-- The head of a list runs first, then the tail behind what the head became. -/
theorem Steps.cons_exprs {literals : Bool} {expr expr' : Expr} {exprs exprs' : List Expr}
    {s s' s'' : σ} (head : Steps (Expr.Rewrites literals) visits (expr, s) (expr', s'))
    (tail : Steps (ExprsRewrite literals) visits (exprs, s') (exprs', s'')) :
    Steps (ExprsRewrite literals) visits (expr :: exprs, s) (expr' :: exprs', s'') := by
  have first : Steps (ExprsRewrite literals) visits (expr :: exprs, s) (expr' :: exprs, s') :=
    Steps.inside (· :: exprs) (fun _ _ _ _ h => .within [] h) head
  refine first.trans (Steps.inside (expr' :: ·) ?_ tail)
  rintro part part' _ _ ⟨front, h⟩
  exact .within (expr' :: front) h

theorem Steps.cons_stmts {literals : Bool} {kind kind' : StmtKind} {decs : Decorations}
    {stmts stmts' : List Stmt} {s s' s'' : σ}
    (head : Steps (StmtKind.Rewrites literals · · .full) visits (kind, s) (kind', s'))
    (tail : Steps (StmtsRewrite literals) visits (stmts, s') (stmts', s'')) :
    Steps (StmtsRewrite literals) visits (⟨kind, decs⟩ :: stmts, s)
      (⟨kind', decs⟩ :: stmts', s'') := by
  have first : Steps (StmtsRewrite literals) visits (⟨kind, decs⟩ :: stmts, s)
      (⟨kind', decs⟩ :: stmts, s') :=
    Steps.inside (fun kind => (⟨kind, decs⟩ : Stmt) :: stmts) (fun _ _ _ _ h => .within [] h) head
  refine first.trans (Steps.inside ((⟨kind', decs⟩ : Stmt) :: ·) ?_ tail)
  rintro part part' _ _ ⟨front, h⟩
  exact .within (⟨kind', decs⟩ :: front) h

theorem Steps.cons_clauses {literals : Bool} {head : String} {body body' : List Stmt}
    {trailing : List String} {decs : Decorations} {clauses clauses' : List Clause} {s s' s'' : σ}
    (first : Steps (StmtsRewrite literals) visits (body, s) (body', s'))
    (rest : Steps (ClausesRewrite literals) visits (clauses, s') (clauses', s'')) :
    Steps (ClausesRewrite literals) visits (⟨head, body, trailing, decs⟩ :: clauses, s)
      (⟨head, body', trailing, decs⟩ :: clauses', s'') := by
  have hfirst : Steps (ClausesRewrite literals) visits
      (⟨head, body, trailing, decs⟩ :: clauses, s)
      (⟨head, body', trailing, decs⟩ :: clauses, s') :=
    Steps.inside (fun body => (⟨head, body, trailing, decs⟩ : Clause) :: clauses)
      (fun _ _ _ _ h => .within [] h) first
  refine hfirst.trans (Steps.inside ((⟨head, body', trailing, decs⟩ : Clause) :: ·) ?_ rest)
  rintro part part' _ _ ⟨front, h⟩
  exact .within (⟨head, body', trailing, decs⟩ :: front) h

/-- A part that is edited only where it is covered. -/
theorem Steps.inside_editIf {α β : Type} {inner : Expr → Expr → α → α → Prop}
    {outer : Expr → Expr → β → β → Prop} (covered : Bool) (whole : α → β)
    (h : covered = true →
      ∀ part part' a a', inner part part' a a' → outer part part' (whole a) (whole a'))
    {piece : α} {edit : m α} {s : σ}
    (steps : Steps inner visits (piece, s) (threaded.run edit s)) :
    Steps outer visits (whole piece, s)
      (whole (threaded.run (editIf covered piece edit) s).1,
        (threaded.run (editIf covered piece edit) s).2) := by
  cases covered with
  | false => simp [editIf, Relation.ReflTransGen.refl]
  | true => exact Steps.inside whole (h rfl) steps

mutual

theorem Expr.edit_steps (follows : edits.Follows threaded visits) (expr : Expr) (s : σ) :
    Steps (Expr.Rewrites edits.literals) visits (expr, s)
      (threaded.run (expr.edit edits) s) := by
  obtain ⟨kind, decs⟩ := expr
  simp only [Expr.edit, Threaded.run_bind, Threaded.run_pure]
  exact kind.edit_steps follows decs s

theorem ExprKind.edit_steps (follows : edits.Follows threaded visits) (kind : ExprKind)
    (decs : Decorations) (s : σ) :
    Steps (Expr.Rewrites edits.literals) visits (⟨kind, decs⟩, s)
      (⟨(threaded.run (kind.edit edits) s).1, decs⟩, (threaded.run (kind.edit edits) s).2) := by
  cases kind with
  | ident ident =>
      simp only [ExprKind.edit, Threaded.run_map]
      exact follows.steps_ident ident decs s
  | selector operand member =>
      simp only [ExprKind.edit, Threaded.run_bind, Threaded.run_pure]
      exact Steps.inside (fun operand => (⟨.selector operand member, decs⟩ : Expr))
        (fun _ _ _ _ h => .selector h) (operand.edit_steps follows s)
  | star operand =>
      simp only [ExprKind.edit, Threaded.run_bind, Threaded.run_pure]
      exact Steps.inside (fun operand => (⟨.star operand, decs⟩ : Expr))
        (fun _ _ _ _ h => .star h) (operand.edit_steps follows s)
  | unary op operand =>
      simp only [ExprKind.edit, Threaded.run_bind, Threaded.run_pure]
      exact Steps.inside (fun operand => (⟨.unary op operand, decs⟩ : Expr))
        (fun _ _ _ _ h => .unary h) (operand.edit_steps follows s)
  | paren inner =>
      simp only [ExprKind.edit, Threaded.run_bind, Threaded.run_pure]
      exact Steps.inside (fun inner => (⟨.paren inner, decs⟩ : Expr))
        (fun _ _ _ _ h => .paren h) (inner.edit_steps follows s)
  | binary left op right =>
      simp only [ExprKind.edit, Threaded.run_bind, Threaded.run_pure]
      refine .trans (Steps.inside (fun left => (⟨.binary left op right, decs⟩ : Expr))
        (fun _ _ _ _ h => .left h) (left.edit_steps follows s)) ?_
      exact Steps.inside (fun right => (⟨.binary _ op right, decs⟩ : Expr))
        (fun _ _ _ _ h => .right h) (right.edit_steps follows _)
  | call call =>
      obtain ⟨callee, args, spread, closesLine⟩ := call
      simp only [ExprKind.edit, Threaded.run_bind, Threaded.run_pure]
      refine .trans (Steps.inside
        (fun callee => (⟨.call ⟨callee, args, spread, closesLine⟩, decs⟩ : Expr))
        (fun _ _ _ _ h => .callee h) (callee.edit_steps follows s)) ?_
      refine .trans ?_ (follows.steps_call _ decs _)
      refine Steps.inside (fun args => (⟨.call ⟨_, args, spread, closesLine⟩, decs⟩ : Expr)) ?_
        (editExprs_steps follows args _)
      rintro part part' _ _ ⟨front, h⟩
      exact .arg h
  | index operand indices =>
      simp only [ExprKind.edit, Threaded.run_bind, Threaded.run_pure]
      refine .trans (Steps.inside (fun operand => (⟨.index operand indices, decs⟩ : Expr))
        (fun _ _ _ _ h => .operand h) (operand.edit_steps follows s)) ?_
      refine Steps.inside (fun indices => (⟨.index _ indices, decs⟩ : Expr)) ?_
        (editExprs_steps follows indices _)
      rintro part part' _ _ ⟨front, h⟩
      exact .index h
  | func params results body =>
      obtain ⟨stmts, trailing, inline⟩ := body
      simp only [ExprKind.edit, Threaded.run_bind, Threaded.run_pure]
      exact Steps.inside_editIf edits.literals
        (fun stmts => (⟨.func params results ⟨stmts, trailing, inline⟩, decs⟩ : Expr))
        (fun hliterals _ _ _ _ h => .body hliterals h) (editStmts_steps follows stmts s)
  | literal text => simp [ExprKind.edit, Relation.ReflTransGen.refl]
  | composite type body => simp [ExprKind.edit, Relation.ReflTransGen.refl]
  | verbatim text => simp [ExprKind.edit, Relation.ReflTransGen.refl]

theorem editExprs_steps (follows : edits.Follows threaded visits) (exprs : List Expr) (s : σ) :
    Steps (ExprsRewrite edits.literals) visits (exprs, s)
      (threaded.run (editExprs edits exprs) s) := by
  cases exprs with
  | nil => simp [editExprs, Relation.ReflTransGen.refl]
  | cons expr exprs =>
      simp only [editExprs, Threaded.run_bind, Threaded.run_pure]
      exact (expr.edit_steps follows s).cons_exprs (editExprs_steps follows exprs _)

theorem StmtKind.edit_steps (follows : edits.Follows threaded visits) (scope : EditScope)
    (kind : StmtKind) (s : σ) :
    Steps (StmtKind.Rewrites edits.literals · · scope) visits (kind, s)
      (threaded.run (kind.edit edits scope) s) := by
  cases kind with
  | expr value =>
      simp only [StmtKind.edit, Threaded.run_bind, Threaded.run_pure]
      exact Steps.inside_editIf scope.hasOwn StmtKind.expr (fun hown _ _ _ _ h => .expr hown h)
        (value.edit_steps follows s)
  | spawn call =>
      simp only [StmtKind.edit, Threaded.run_bind, Threaded.run_pure]
      exact Steps.inside_editIf scope.hasOwn StmtKind.spawn (fun hown _ _ _ _ h => .spawn hown h)
        (call.edit_steps follows s)
  | defer call =>
      simp only [StmtKind.edit, Threaded.run_bind, Threaded.run_pure]
      exact Steps.inside_editIf scope.hasOwn StmtKind.defer (fun hown _ _ _ _ h => .defer hown h)
        (call.edit_steps follows s)
  | assign left op right =>
      simp only [StmtKind.edit, Threaded.run_bind, Threaded.run_pure]
      refine .trans (Steps.inside_editIf scope.hasOwn (fun left => StmtKind.assign left op right) ?_
        (editExprs_steps follows left s)) ?_
      · rintro hown part part' _ _ ⟨front, h⟩
        exact .target hown h
      · refine Steps.inside_editIf scope.hasOwn (fun right => StmtKind.assign _ op right) ?_
          (editExprs_steps follows right _)
        rintro hown part part' _ _ ⟨front, h⟩
        exact .value hown h
  | ret results =>
      simp only [StmtKind.edit, Threaded.run_bind, Threaded.run_pure]
      refine Steps.inside_editIf scope.hasOwn StmtKind.ret ?_ (editExprs_steps follows results s)
      rintro hown part part' _ _ ⟨front, h⟩
      exact .result hown h
  | cond init test body alternative =>
      obtain ⟨stmts, trailing, inline⟩ := body
      simp only [StmtKind.edit, Threaded.run_bind, Threaded.run_pure]
      refine .trans (Steps.inside_editIf scope.hasOwn
        (fun init => StmtKind.cond init test ⟨stmts, trailing, inline⟩ alternative) ?_
        (editOptional_steps follows .own init s)) ?_
      · rintro hown part part' _ _ ⟨h⟩
        exact .init hown h
      refine .trans (Steps.inside_editIf scope.hasOwn
        (fun test => StmtKind.cond _ test ⟨stmts, trailing, inline⟩ alternative)
        (fun hown _ _ _ _ h => .test hown h) (test.edit_steps follows _)) ?_
      refine .trans (Steps.inside_editIf scope.hasNested
        (fun stmts => StmtKind.cond _ _ ⟨stmts, trailing, inline⟩ alternative)
        (fun hnested _ _ _ _ h => .branch hnested h) (editStmts_steps follows stmts _)) ?_
      refine Steps.inside_editIf scope.hasNested
        (fun alternative => StmtKind.cond _ _ ⟨_, trailing, inline⟩ alternative) ?_
        (editOptional_steps follows scope.branch alternative _)
      rintro hnested part part' _ _ ⟨h⟩
      exact .alternative hnested h
  | loop header body =>
      obtain ⟨stmts, trailing, inline⟩ := body
      simp only [StmtKind.edit, Threaded.run_bind, Threaded.run_pure]
      refine .trans (Steps.inside_editIf scope.hasOwn
        (fun header => StmtKind.loop header ⟨stmts, trailing, inline⟩) ?_
        (header.edit_steps follows s)) ?_
      · rintro hown part part' _ _ (h | h)
        · exact .loopTest hown h
        · exact .range hown h
      exact Steps.inside_editIf scope.hasNested (fun stmts => StmtKind.loop _ ⟨stmts, trailing, inline⟩)
        (fun hnested _ _ _ _ h => .loopBody hnested h) (editStmts_steps follows stmts _)
  | switch header clauses trailing =>
      simp only [StmtKind.edit, Threaded.run_bind, Threaded.run_pure]
      refine Steps.inside_editIf scope.hasNested (fun clauses => StmtKind.switch header clauses trailing) ?_
        (editClauses_steps follows clauses s)
      rintro hnested part part' _ _ ⟨front, h⟩
      exact .switchClause hnested h
  | select clauses trailing =>
      simp only [StmtKind.edit, Threaded.run_bind, Threaded.run_pure]
      refine Steps.inside_editIf scope.hasNested (fun clauses => StmtKind.select clauses trailing) ?_
        (editClauses_steps follows clauses s)
      rintro hnested part part' _ _ ⟨front, h⟩
      exact .selectClause hnested h
  | block body =>
      obtain ⟨stmts, trailing, inline⟩ := body
      simp only [StmtKind.edit, Threaded.run_bind, Threaded.run_pure]
      exact Steps.inside_editIf scope.hasNested (fun stmts => StmtKind.block ⟨stmts, trailing, inline⟩)
        (fun hnested _ _ _ _ h => .block hnested h) (editStmts_steps follows stmts s)
  | labeled label stmt =>
      obtain ⟨kind, decs⟩ := stmt
      simp only [StmtKind.edit, Threaded.run_bind, Threaded.run_pure]
      exact Steps.inside (fun kind => StmtKind.labeled label ⟨kind, decs⟩)
        (fun _ _ _ _ h => .labeled h) (kind.edit_steps follows scope.behindLabel s)
  | decl group => simp [StmtKind.edit, Relation.ReflTransGen.refl]
  | verbatim text => simp [StmtKind.edit, Relation.ReflTransGen.refl]

theorem LoopHeader.edit_steps (follows : edits.Follows threaded visits) (header : LoopHeader)
    (s : σ) :
    Steps (HeaderRewrites edits.literals) visits (header, s)
      (threaded.run (header.edit edits) s) := by
  cases header with
  | cond test =>
      simp only [LoopHeader.edit, Threaded.run_bind, Threaded.run_pure]
      exact Steps.inside LoopHeader.cond (fun _ _ _ _ h => .cond h) (test.edit_steps follows s)
  | range key value op operand =>
      simp only [LoopHeader.edit, Threaded.run_bind, Threaded.run_pure]
      exact Steps.inside (LoopHeader.range key value op) (fun _ _ _ _ h => .range h)
        (operand.edit_steps follows s)
  | infinite => simp [LoopHeader.edit, Relation.ReflTransGen.refl]
  | clauses text => simp [LoopHeader.edit, Relation.ReflTransGen.refl]

theorem editOptional_steps (follows : edits.Follows threaded visits) (scope : EditScope)
    (stmt : Option Stmt) (s : σ) :
    Steps (OptionalRewrites edits.literals · · scope) visits (stmt, s)
      (threaded.run (editOptional edits scope stmt) s) := by
  cases stmt with
  | none => simp [editOptional, Relation.ReflTransGen.refl]
  | some stmt =>
      obtain ⟨kind, decs⟩ := stmt
      simp only [editOptional, Threaded.run_bind, Threaded.run_pure]
      exact Steps.inside (fun kind => some (⟨kind, decs⟩ : Stmt)) (fun _ _ _ _ h => .some h)
        (kind.edit_steps follows scope s)

theorem editStmts_steps (follows : edits.Follows threaded visits) (stmts : List Stmt) (s : σ) :
    Steps (StmtsRewrite edits.literals) visits (stmts, s)
      (threaded.run (editStmts edits stmts) s) := by
  cases stmts with
  | nil => simp [editStmts, Relation.ReflTransGen.refl]
  | cons stmt stmts =>
      obtain ⟨kind, decs⟩ := stmt
      simp only [editStmts, Threaded.run_bind, Threaded.run_pure]
      exact (kind.edit_steps follows .full s).cons_stmts (editStmts_steps follows stmts _)

theorem editClauses_steps (follows : edits.Follows threaded visits) (clauses : List Clause)
    (s : σ) :
    Steps (ClausesRewrite edits.literals) visits (clauses, s)
      (threaded.run (editClauses edits clauses) s) := by
  cases clauses with
  | nil => simp [editClauses, Relation.ReflTransGen.refl]
  | cons clause clauses =>
      obtain ⟨head, body, trailing, decs⟩ := clause
      simp only [editClauses, Threaded.run_bind, Threaded.run_pure]
      exact (editStmts_steps follows body s).cons_clauses (editClauses_steps follows clauses _)

end

end

end TraceWeave.Syntax
