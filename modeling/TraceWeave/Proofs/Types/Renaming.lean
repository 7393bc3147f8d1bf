import TraceWeave.Proofs.Syntax.Rewriting
import TraceWeave.Proofs.Types.Scoping

/-!
Edits of identifiers.

All identifiers that an edit of statements comes by have events.  Two edits that agree on the
identifiers of the events therefore make the same of the statements (`editStmts_congr`).  What
holds of the identifiers of a list holds behind a change of one of its expressions, if it does
so for the expression (`inherits_stmts`).
-/

namespace TraceWeave.Types

open TraceWeave.Syntax

/-! ## Identifiers -/

theorem identsOf_append (front back : List Event) :
    identsOf (front ++ back) = identsOf front ++ identsOf back :=
  List.filterMap_append

theorem eventsOfExprs_append (front back : List Expr) :
    eventsOfExprs (front ++ back) = eventsOfExprs front ++ eventsOfExprs back := by
  induction front with
  | nil => rfl
  | cons expr front ih => simp [eventsOfExprs, ih]

theorem eventsOfStmts_append (front back : List Stmt) :
    eventsOfStmts (front ++ back) = eventsOfStmts front ++ eventsOfStmts back := by
  induction front with
  | nil => rfl
  | cons stmt front ih => simp [eventsOfStmts, ih]

theorem eventsOfClauses_append (front back : List Clause) :
    eventsOfClauses (front ++ back) = eventsOfClauses front ++ eventsOfClauses back := by
  induction front with
  | nil => rfl
  | cons clause front ih =>
      obtain ⟨head, body, trailing, decs⟩ := clause
      simp [eventsOfClauses, ih]

theorem identsOf_eventsOfDefined (exprs : List Expr) :
    identsOf (eventsOfDefined exprs) = identsOf (eventsOfExprs exprs) := by
  induction exprs with
  | nil => rfl
  | cons expr exprs ih =>
      rw [eventsOfDefined, eventsOfExprs, identsOf_append, identsOf_append, ih]
      obtain ⟨kind, decs⟩ := expr
      cases kind <;> rfl

/-! ## Edits that agree -/

section

variable {m : Type → Type} {f g : Ident → m Ident}

/-- The visits do the same to the identifiers of the events. -/
def AgreeOn (f g : Ident → m Ident) (events : List Event) : Prop :=
  ∀ ident ∈ identsOf events, f ident = g ident

namespace AgreeOn

variable {event : Event} {events front back : List Event}

theorem tail (h : AgreeOn f g (event :: events)) : AgreeOn f g events := by
  intro ident hident
  obtain ⟨other, hother, hsome⟩ := List.mem_filterMap.1 hident
  exact h ident (List.mem_filterMap.2 ⟨other, List.mem_cons_of_mem _ hother, hsome⟩)

theorem head {ident : Ident} (h : AgreeOn f g (event :: events)) (hident : event.ident? = some ident) :
    f ident = g ident :=
  h ident (List.mem_filterMap.2 ⟨event, List.mem_cons_self, hident⟩)

theorem split (h : AgreeOn f g (front ++ back)) : AgreeOn f g front ∧ AgreeOn f g back := by
  rw [AgreeOn, identsOf_append] at h
  exact List.forall_mem_append.1 h

end AgreeOn

section

variable [Monad m]

mutual

theorem editExpr_congr : ∀ expr : Expr, AgreeOn f g (eventsOfExpr expr) →
    expr.edit (.idents f) = expr.edit (.idents g)
  | ⟨.ident ident, decs⟩, h => by
      rw [eventsOfExpr] at h
      simp only [Expr.edit, ExprKind.edit, Edits.idents, h.head rfl]
  | ⟨.selector operand member, decs⟩, h => by
      rw [eventsOfExpr] at h
      simp only [Expr.edit, ExprKind.edit, editExpr_congr operand h]
  | ⟨.call ⟨callee, args, spread, closesLine⟩, decs⟩, h => by
      rw [eventsOfExpr] at h
      obtain ⟨hcallee, hargs⟩ := h.split
      simp only [Expr.edit, ExprKind.edit, editExpr_congr callee hcallee, editExprs_congr args hargs]
      rfl
  | ⟨.star operand, decs⟩, h => by
      rw [eventsOfExpr] at h
      simp only [Expr.edit, ExprKind.edit, editExpr_congr operand h]
  | ⟨.unary op operand, decs⟩, h => by
      rw [eventsOfExpr] at h
      simp only [Expr.edit, ExprKind.edit, editExpr_congr operand h]
  | ⟨.paren inner, decs⟩, h => by
      rw [eventsOfExpr] at h
      simp only [Expr.edit, ExprKind.edit, editExpr_congr inner h]
  | ⟨.binary left op right, decs⟩, h => by
      rw [eventsOfExpr] at h
      obtain ⟨hleft, hright⟩ := h.split
      simp only [Expr.edit, ExprKind.edit, editExpr_congr left hleft, editExpr_congr right hright]
  | ⟨.index operand indices, decs⟩, h => by
      rw [eventsOfExpr] at h
      obtain ⟨hoperand, hindices⟩ := h.split
      simp only [Expr.edit, ExprKind.edit, editExpr_congr operand hoperand,
        editExprs_congr indices hindices]
  | ⟨.func params results ⟨body, trailing, inline⟩, decs⟩, h => by
      rw [eventsOfExpr] at h
      obtain ⟨hbody, -⟩ := h.tail.split.2.split.2.split
      simp only [Expr.edit, ExprKind.edit, editStmts_congr body hbody]
      rfl
  | ⟨.composite type body, decs⟩, _ => rfl
  | ⟨.literal text, decs⟩, _ => rfl
  | ⟨.verbatim text, decs⟩, _ => rfl

theorem editExprs_congr : ∀ exprs : List Expr, AgreeOn f g (eventsOfExprs exprs) →
    editExprs (.idents f) exprs = editExprs (.idents g) exprs
  | [], _ => rfl
  | expr :: exprs, h => by
      rw [eventsOfExprs] at h
      obtain ⟨hexpr, hexprs⟩ := h.split
      simp only [editExprs, editExpr_congr expr hexpr, editExprs_congr exprs hexprs]

theorem editKind_congr : ∀ (kind : StmtKind) (scope : EditScope), AgreeOn f g (eventsOfKind kind) →
    kind.edit (.idents f) scope = kind.edit (.idents g) scope
  | .expr value, scope, h => by
      rw [eventsOfKind] at h
      simp only [StmtKind.edit, editExpr_congr value h]
  | .spawn call, scope, h => by
      rw [eventsOfKind] at h
      simp only [StmtKind.edit, editExpr_congr call h]
  | .defer call, scope, h => by
      rw [eventsOfKind] at h
      simp only [StmtKind.edit, editExpr_congr call h]
  | .assign left .assign right, scope, h => by
      rw [eventsOfKind] at h
      obtain ⟨hright, hleft⟩ := h.split
      simp only [StmtKind.edit, editExprs_congr left hleft, editExprs_congr right hright]
  | .assign left .define right, scope, h => by
      rw [eventsOfKind] at h
      obtain ⟨hright, hleft⟩ := h.split
      rw [AgreeOn, identsOf_eventsOfDefined] at hleft
      simp only [StmtKind.edit, editExprs_congr left hleft, editExprs_congr right hright]
  | .ret results, scope, h => by
      rw [eventsOfKind] at h
      simp only [StmtKind.edit, editExprs_congr results h]
  | .cond init test ⟨body, trailing, inline⟩ alternative, scope, h => by
      rw [eventsOfKind] at h
      obtain ⟨hinit, h⟩ := h.tail.split
      obtain ⟨htest, h⟩ := h.split
      obtain ⟨hbody, h⟩ := h.tail.split
      obtain ⟨halternative, -⟩ := h.tail.split
      simp only [StmtKind.edit, editOptional_congr init .own hinit, editExpr_congr test htest,
        editStmts_congr body hbody, editOptional_congr alternative scope.branch halternative]
  | .loop header ⟨body, trailing, inline⟩, scope, h => by
      rw [eventsOfKind] at h
      obtain ⟨hheader, h⟩ := h.tail.split
      obtain ⟨hbody, -⟩ := h.tail.split
      simp only [StmtKind.edit, editHeader_congr header hheader, editStmts_congr body hbody]
  | .switch header clauses trailing, scope, h => by
      rw [eventsOfKind] at h
      simp only [StmtKind.edit, editClauses_congr clauses h]
  | .select clauses trailing, scope, h => by
      rw [eventsOfKind] at h
      simp only [StmtKind.edit, editClauses_congr clauses h]
  | .block ⟨body, trailing, inline⟩, scope, h => by
      rw [eventsOfKind] at h
      simp only [StmtKind.edit, editStmts_congr body h.tail.split.1]
  | .labeled label ⟨kind, decs⟩, scope, h => by
      rw [eventsOfKind, eventsOfStmt] at h
      simp only [StmtKind.edit, editKind_congr kind scope.behindLabel h]
  | .decl group, scope, _ => rfl
  | .verbatim text, scope, _ => rfl

theorem editOptional_congr : ∀ (stmt : Option Stmt) (scope : EditScope),
    AgreeOn f g (eventsOfOptional stmt) →
      editOptional (.idents f) scope stmt = editOptional (.idents g) scope stmt
  | none, scope, _ => rfl
  | some ⟨kind, decs⟩, scope, h => by
      rw [eventsOfOptional, eventsOfStmt] at h
      simp only [editOptional, editKind_congr kind scope h]

theorem editHeader_congr : ∀ header : LoopHeader, AgreeOn f g (eventsOfHeader header) →
    header.edit (.idents f) = header.edit (.idents g)
  | .infinite, _ => rfl
  | .cond test, h => by
      rw [eventsOfHeader] at h
      simp only [LoopHeader.edit, editExpr_congr test h]
  | .clauses text, _ => rfl
  | .range key value op operand, h => by
      rw [eventsOfHeader] at h
      simp only [LoopHeader.edit, editExpr_congr operand h.split.1]

theorem editStmts_congr : ∀ stmts : List Stmt, AgreeOn f g (eventsOfStmts stmts) →
    editStmts (.idents f) stmts = editStmts (.idents g) stmts
  | [], _ => rfl
  | ⟨kind, decs⟩ :: stmts, h => by
      rw [eventsOfStmts, eventsOfStmt] at h
      obtain ⟨hkind, hstmts⟩ := h.split
      simp only [editStmts, editKind_congr kind .full hkind, editStmts_congr stmts hstmts]

theorem editClauses_congr : ∀ clauses : List Clause, AgreeOn f g (eventsOfClauses clauses) →
    editClauses (.idents f) clauses = editClauses (.idents g) clauses
  | [], _ => rfl
  | ⟨head, body, trailing, decs⟩ :: clauses, h => by
      rw [eventsOfClauses] at h
      obtain ⟨hbody, h⟩ := h.tail.split
      simp only [editClauses, editStmts_congr body hbody, editClauses_congr clauses h.tail]

end

end

end

/-! ## Changes of expressions -/

/-- What holds of the identifiers of the events holds of those behind the change. -/
def Inherits (P : Ident → Prop) (events events' : List Event) : Prop :=
  (∀ ident ∈ identsOf events, P ident) → ∀ ident ∈ identsOf events', P ident

namespace Inherits

variable {P : Ident → Prop} {events events' events'' front front' back back' : List Event}

theorem refl : Inherits P events events := id

theorem trans (h : Inherits P events events') (h' : Inherits P events' events'') :
    Inherits P events events'' :=
  fun hevents => h' (h hevents)

theorem append (h : Inherits P front front') (h' : Inherits P back back') :
    Inherits P (front ++ back) (front' ++ back') := by
  unfold Inherits at h h' ⊢
  rw [identsOf_append, identsOf_append, List.forall_mem_append, List.forall_mem_append]
  exact And.imp h h'

theorem cons (event : Event) (h : Inherits P events events') :
    Inherits P (event :: events) (event :: events') := by
  rw [← List.singleton_append, ← List.singleton_append]
  exact .append .refl h

theorem exprs (front back : List Expr) {expr expr' : Expr}
    (h : Inherits P (eventsOfExpr expr) (eventsOfExpr expr')) :
    Inherits P (eventsOfExprs (front ++ expr :: back)) (eventsOfExprs (front ++ expr' :: back)) := by
  rw [eventsOfExprs_append, eventsOfExprs_append]
  exact .append .refl (.append h .refl)

theorem stmts (front back : List Stmt) {stmt stmt' : Stmt}
    (h : Inherits P (eventsOfStmt stmt) (eventsOfStmt stmt')) :
    Inherits P (eventsOfStmts (front ++ stmt :: back)) (eventsOfStmts (front ++ stmt' :: back)) := by
  rw [eventsOfStmts_append, eventsOfStmts_append]
  exact .append .refl (.append h .refl)

theorem clauses (front back : List Clause) {head : String} {stmts stmts' : List Stmt}
    {trailing : List String} {decs : Decorations}
    (h : Inherits P (eventsOfStmts stmts) (eventsOfStmts stmts')) :
    Inherits P (eventsOfClauses (front ++ ⟨head, stmts, trailing, decs⟩ :: back))
      (eventsOfClauses (front ++ ⟨head, stmts', trailing, decs⟩ :: back)) := by
  rw [eventsOfClauses_append, eventsOfClauses_append]
  exact .append .refl (.cons .enter (.append h .refl))

theorem left {op : AssignOp} {left left' right : List Expr}
    (h : Inherits P (eventsOfExprs left) (eventsOfExprs left')) :
    Inherits P (eventsOfKind (.assign left op right)) (eventsOfKind (.assign left' op right)) := by
  cases op with
  | assign => exact .append .refl h
  | define =>
      refine .append .refl ?_
      unfold Inherits
      rw [identsOf_eventsOfDefined, identsOf_eventsOfDefined]
      exact h

theorem right {op : AssignOp} {left right right' : List Expr}
    (h : Inherits P (eventsOfExprs right) (eventsOfExprs right')) :
    Inherits P (eventsOfKind (.assign left op right)) (eventsOfKind (.assign left op right')) := by
  cases op with
  | assign => exact .append h .refl
  | define => exact .append h .refl

theorem cond {init init' alternative alternative' : Option Stmt} {test test' : Expr}
    {body body' : Block} (hinit : Inherits P (eventsOfOptional init) (eventsOfOptional init'))
    (htest : Inherits P (eventsOfExpr test) (eventsOfExpr test'))
    (hbody : Inherits P (eventsOfStmts body.stmts) (eventsOfStmts body'.stmts))
    (halternative : Inherits P (eventsOfOptional alternative) (eventsOfOptional alternative')) :
    Inherits P (eventsOfKind (.cond init test body alternative))
      (eventsOfKind (.cond init' test' body' alternative')) := by
  cases body
  cases body'
  rw [eventsOfKind, eventsOfKind]
  exact .cons _ (.append hinit (.append htest
    (.cons _ (.append hbody (.cons _ (.append halternative .refl))))))

theorem loop {header header' : LoopHeader} {body body' : Block}
    (hheader : Inherits P (eventsOfHeader header) (eventsOfHeader header'))
    (hbody : Inherits P (eventsOfStmts body.stmts) (eventsOfStmts body'.stmts)) :
    Inherits P (eventsOfKind (.loop header body)) (eventsOfKind (.loop header' body')) := by
  cases body
  cases body'
  rw [eventsOfKind, eventsOfKind]
  exact .cons _ (.append hheader (.cons _ (.append hbody .refl)))

end Inherits

section

variable {P : Ident → Prop} {literals : Bool} {part part' : Expr}

mutual

theorem inherits_expr (hpart : Inherits P (eventsOfExpr part) (eventsOfExpr part')) :
    ∀ {expr expr' : Expr}, Expr.Rewrites literals part part' expr expr' →
      Inherits P (eventsOfExpr expr) (eventsOfExpr expr')
  | _, _, .here => hpart
  | _, _, .selector h => (inherits_expr hpart h :)
  | _, _, .star h => (inherits_expr hpart h :)
  | _, _, .unary h => (inherits_expr hpart h :)
  | _, _, .paren h => (inherits_expr hpart h :)
  | _, _, .left h => .append (inherits_expr hpart h) .refl
  | _, _, .right h => .append .refl (inherits_expr hpart h)
  | _, _, .callee h => .append (inherits_expr hpart h) .refl
  | _, _, .arg h => .append .refl (.exprs _ _ (inherits_expr hpart h))
  | _, _, .operand h => .append (inherits_expr hpart h) .refl
  | _, _, .index h => .append .refl (.exprs _ _ (inherits_expr hpart h))
  | _, _, .body _ h =>
      .cons _ (.append .refl (.append .refl (.append (inherits_stmts hpart h) .refl)))

theorem inherits_kind (hpart : Inherits P (eventsOfExpr part) (eventsOfExpr part')) :
    ∀ {scope : EditScope} {kind kind' : StmtKind},
      StmtKind.Rewrites literals part part' scope kind kind' →
        Inherits P (eventsOfKind kind) (eventsOfKind kind')
  | _, _, _, .expr _ h => inherits_expr hpart h
  | _, _, _, .spawn _ h => inherits_expr hpart h
  | _, _, _, .defer _ h => inherits_expr hpart h
  | _, _, _, .target _ h => .left (.exprs _ _ (inherits_expr hpart h))
  | _, _, _, .value _ h => .right (.exprs _ _ (inherits_expr hpart h))
  | _, _, _, .result _ h => .exprs _ _ (inherits_expr hpart h)
  | _, _, _, .init _ h => .cond (inherits_kind hpart h) .refl .refl .refl
  | _, _, _, .test _ h => .cond .refl (inherits_expr hpart h) .refl .refl
  | _, _, _, .branch _ h => .cond .refl .refl (inherits_stmts hpart h) .refl
  | _, _, _, .alternative _ h => .cond .refl .refl .refl (inherits_kind hpart h)
  | _, _, _, .loopTest _ h => .loop (inherits_expr hpart h) .refl
  | _, _, _, .range _ h => .loop (.append (inherits_expr hpart h) .refl) .refl
  | _, _, _, .loopBody _ h => .loop .refl (inherits_stmts hpart h)
  | _, _, _, .switchClause _ h => .clauses _ _ (inherits_stmts hpart h)
  | _, _, _, .selectClause _ h => .clauses _ _ (inherits_stmts hpart h)
  | _, _, _, .block _ h => .cons _ (.append (inherits_stmts hpart h) .refl)
  | _, _, _, .labeled h => (inherits_kind hpart h :)

theorem inherits_stmts (hpart : Inherits P (eventsOfExpr part) (eventsOfExpr part')) :
    ∀ {stmts stmts' : List Stmt}, StmtsRewrite literals part part' stmts stmts' →
      Inherits P (eventsOfStmts stmts) (eventsOfStmts stmts')
  | _, _, .within front h => .stmts front _ (inherits_kind hpart h)

end

end

theorem inherits_of_steps {P : Ident → Prop} {σ : Type} {literals : Bool} {visits : Visits σ}
    (hvisits : ∀ before after, visits before after →
      Inherits P (eventsOfExpr before.1) (eventsOfExpr after.1))
    {before after : List Stmt × σ} (steps : Steps (StmtsRewrite literals) visits before after) :
    Inherits P (eventsOfStmts before.1) (eventsOfStmts after.1) := by
  induction steps with
  | refl => exact .refl
  | tail _ change ih =>
      obtain ⟨part, part', hvisit, hrewrite⟩ := change
      exact ih.trans (inherits_stmts (hvisits _ _ hvisit) hrewrite)

/-- What the visits keep of each identifier is kept by the edit of a list. -/
theorem inherits_edit {P : Ident → Prop} {f : Ident → Ident} (h : ∀ ident, P ident → P (f ident))
    (stmts : List Stmt) : Inherits P (eventsOfStmts stmts)
      (eventsOfStmts (Id.run (editStmts (.idents fun ident => pure (f ident)) stmts))) := by
  have follows : (Edits.idents fun ident => (pure (f ident) : Id Ident)).Follows Threaded.ofId
      fun before after => Inherits P (eventsOfExpr before.1) (eventsOfExpr after.1) := by
    refine ⟨fun call decs s => .inr rfl, fun ident decs s => .inl fun hident other hother => ?_⟩
    obtain rfl := List.mem_singleton.1 hother
    exact h ident (hident ident (List.mem_singleton_self ident))
  exact inherits_of_steps (fun _ _ hvisit => hvisit) (editStmts_steps follows stmts ())

end TraceWeave.Types
