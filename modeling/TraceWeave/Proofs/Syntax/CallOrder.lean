import TraceWeave.Proofs.Syntax.CallTrees

/-!
Editing walks visit the calls that reading walks see.

A walk that edits calls visits every node of the forest once, behind the nodes in it, whatever
the visitor notes and whatever it makes of the calls (`StmtKind.edit_walks`).  The walk that
reads lists the same nodes, each in front of the nodes in it.  The two part only at calls in
values of declarations and in types of composite literals, which are not offered for editing
(`walks_reachSameCalls`).
-/

namespace TraceWeave.Syntax

/-! ## Calls out of reach -/

/-- There is no call in the expressions, bodies of function literals included. -/
def holdNoCall (exprs : List Expr) : Bool :=
  (partsOfExprs true exprs).all (·.call?.isNone)

mutual

theorem Expr.parts_sublist (literals : Bool) (expr : Expr) :
    (expr.parts literals).Sublist (expr.parts true) := by
  obtain ⟨kind, decs⟩ := expr
  cases kind with
  | selector operand member => exact (operand.parts_sublist literals).cons_cons _
  | star operand => exact (operand.parts_sublist literals).cons_cons _
  | unary op operand => exact (operand.parts_sublist literals).cons_cons _
  | paren inner => exact (inner.parts_sublist literals).cons_cons _
  | binary left op right =>
      exact ((left.parts_sublist literals).append (right.parts_sublist literals)).cons_cons _
  | call call =>
      obtain ⟨callee, args, spread, closesLine⟩ := call
      exact ((callee.parts_sublist literals).append
        (partsOfExprs_sublist literals args)).cons_cons _
  | index operand indices =>
      exact ((operand.parts_sublist literals).append
        (partsOfExprs_sublist literals indices)).cons_cons _
  | composite type body =>
      cases type with
      | none => exact .refl _
      | some type => exact (type.parts_sublist literals).cons_cons _
  | func params results body =>
      cases literals with
      | true => exact .refl _
      | false =>
          cases body
          exact (List.nil_sublist _).cons_cons _
  | _ => exact .refl _

theorem partsOfExprs_sublist (literals : Bool) (exprs : List Expr) :
    (partsOfExprs literals exprs).Sublist (partsOfExprs true exprs) := by
  cases exprs with
  | nil => exact .refl _
  | cons expr exprs =>
      exact (expr.parts_sublist literals).append (partsOfExprs_sublist literals exprs)

end

theorem preorders_eq_nil {forest : List CallTree} (h : preorders forest = []) : forest = [] := by
  cases forest with
  | nil => rfl
  | cons tree forest =>
      cases tree
      simp [preorders, CallTree.preorder] at h

theorem callTreesOfExprs_eq_nil {exprs : List Expr} (h : holdNoCall exprs) (literals : Bool) :
    callTreesOfExprs literals exprs = [] := by
  have hnone : (partsOfExprs literals exprs).filterMap Expr.call? = [] := by
    rw [List.filterMap_eq_nil_iff]
    intro part hpart
    exact Option.isNone_iff_eq_none.1
      (List.all_eq_true.1 h part ((partsOfExprs_sublist literals exprs).subset hpart))
  rw [(partsOfExprs_reads literals exprs).calls, List.map_eq_nil_iff] at hnone
  exact preorders_eq_nil hnone

mutual

/-- No call of the expression is in the values of a declaration or the type of a composite
literal, which are not offered for editing. -/
def Expr.offersCalls : Expr → Bool
  | ⟨kind, _⟩ => kind.offersCalls

def ExprKind.offersCalls : ExprKind → Bool
  | .selector operand _ => operand.offersCalls
  | .star operand => operand.offersCalls
  | .unary _ operand => operand.offersCalls
  | .paren inner => inner.offersCalls
  | .binary left _ right => left.offersCalls && right.offersCalls
  | .call ⟨callee, args, _, _⟩ => callee.offersCalls && exprsOfferCalls args
  | .index operand indices => operand.offersCalls && exprsOfferCalls indices
  | .composite (some type) _ => holdNoCall [type]
  | .func _ _ ⟨body, _, _⟩ => stmtsOfferCalls body
  | _ => true

def exprsOfferCalls : List Expr → Bool
  | [] => true
  | expr :: exprs => expr.offersCalls && exprsOfferCalls exprs

def StmtKind.offersCalls : StmtKind → Bool
  | .expr value => value.offersCalls
  | .spawn call => call.offersCalls
  | .defer call => call.offersCalls
  | .assign left _ right => exprsOfferCalls left && exprsOfferCalls right
  | .ret results => exprsOfferCalls results
  | .cond init test ⟨body, _, _⟩ alternative =>
      optionalOffersCalls init && (test.offersCalls &&
        (stmtsOfferCalls body && optionalOffersCalls alternative))
  | .loop header ⟨body, _, _⟩ => header.offersCalls && stmtsOfferCalls body
  | .switch _ clauses _ => clausesOfferCalls clauses
  | .select clauses _ => clausesOfferCalls clauses
  | .block ⟨body, _, _⟩ => stmtsOfferCalls body
  | .labeled _ ⟨kind, _⟩ => kind.offersCalls
  | .decl ⟨_, specs⟩ => holdNoCall (specs.flatMap Spec.values)
  | .verbatim _ => true

def optionalOffersCalls : Option Stmt → Bool
  | none => true
  | some ⟨kind, _⟩ => kind.offersCalls

def LoopHeader.offersCalls : LoopHeader → Bool
  | .cond test => test.offersCalls
  | .range _ _ _ operand => operand.offersCalls
  | _ => true

def stmtsOfferCalls : List Stmt → Bool
  | [] => true
  | ⟨kind, _⟩ :: stmts => kind.offersCalls && stmtsOfferCalls stmts

def clausesOfferCalls : List Clause → Bool
  | [] => true
  | ⟨_, body, _, _⟩ :: clauses => stmtsOfferCalls body && clausesOfferCalls clauses

end

def Stmt.offersCalls (stmt : Stmt) : Bool := stmt.kind.offersCalls

/-! ## Visitors -/

/-- A visitor takes note of a call and then changes it. -/
structure CallVisitor (m : Type → Type) where
  note : Call → m Unit
  change : Call → Call

section

variable {m : Type → Type} [Monad m]

namespace CallVisitor

variable (visitor : CallVisitor m) (literals : Bool)

def edits : Edits m :=
  .calls literals fun call => do
    visitor.note call
    return visitor.change call

/-- The changes alone. -/
def changes : Edits Id := .calls literals fun call => pure (visitor.change call)

/-- A call as the visitor comes to see it, with the calls in it changed. -/
def sees (call : Call) : Call :=
  { call with
    callee := (call.callee.edit (visitor.changes literals)).run
    args := (editExprs (visitor.changes literals) call.args).run }

/-- Takes note of the calls of a forest, each one behind the calls in it. -/
def visit (forest : List CallTree) : m Unit :=
  (postorders forest).forM fun node => visitor.note (visitor.sees literals node.call)

/-- The run visits the calls of the forest and returns the result. -/
def Walks {α : Type} (forest : List CallTree) (run : m α) (result : α) : Prop :=
  run = do
    visitor.visit literals forest
    return result

end CallVisitor

namespace CallVisitor.Walks

variable [LawfulMonad m] {visitor : CallVisitor m} {literals : Bool} {α β : Type}
  {forest forest' : List CallTree} {run : m α} {a : α} {b : β}

theorem pure : visitor.Walks literals [] (pure a) a := by
  simp [CallVisitor.Walks, visit, postorders]

theorem bind {next : α → m β} (h : visitor.Walks literals forest run a)
    (hnext : visitor.Walks literals forest' (next a) b) :
    visitor.Walks literals (forest ++ forest') (run >>= next) b := by
  unfold CallVisitor.Walks at *
  rw [h]
  simp [hnext, visit]

theorem map (f : α → β) (h : visitor.Walks literals forest run a) :
    visitor.Walks literals forest (run >>= fun a => Pure.pure (f a)) (f a) := by
  unfold CallVisitor.Walks at *
  rw [h]
  simp

/-- A call is visited once the calls in it are. -/
theorem node {call : Call} {inside : m Call}
    (h : visitor.Walks literals forest inside (visitor.sees literals call)) :
    visitor.Walks literals [.node call forest] (inside >>= (visitor.edits literals).call)
      (visitor.change (visitor.sees literals call)) := by
  unfold CallVisitor.Walks at *
  rw [h]
  simp [visit, postorders_node, edits, Edits.calls, CallTree.call]

/-- A part that is edited only where it is covered. -/
theorem editIf (covered : Bool) {part : α} {edit : m α} {changed : Id α}
    (h : visitor.Walks literals forest edit changed.run) :
    visitor.Walks literals (callTreesIf covered forest) (Syntax.editIf covered part edit)
      (Syntax.editIf covered part changed).run := by
  cases covered with
  | true => exact h
  | false => exact pure

end CallVisitor.Walks

/-! ## The walk -/

section

variable [LawfulMonad m] (visitor : CallVisitor m) (literals : Bool)

mutual

theorem Expr.edit_walks (expr : Expr) (h : expr.offersCalls) :
    visitor.Walks literals (expr.callTrees literals) (expr.edit (visitor.edits literals))
      (expr.edit (visitor.changes literals)).run := by
  obtain ⟨kind, decs⟩ := expr
  simp only [Expr.edit, Id.run_bind, Id.run_pure]
  exact (kind.edit_walks h).map _

theorem ExprKind.edit_walks (kind : ExprKind) (h : kind.offersCalls) :
    visitor.Walks literals (kind.callTrees literals) (kind.edit (visitor.edits literals))
      (kind.edit (visitor.changes literals)).run := by
  cases kind with
  | ident ident =>
      simp only [ExprKind.edit, map_eq_pure_bind, Id.run_bind, Id.run_pure]
      exact (CallVisitor.Walks.pure (a := ident)).map _
  | selector operand member =>
      simp only [ExprKind.edit, Id.run_bind, Id.run_pure]
      exact (operand.edit_walks h).map _
  | star operand =>
      simp only [ExprKind.edit, Id.run_bind, Id.run_pure]
      exact (operand.edit_walks h).map _
  | unary op operand =>
      simp only [ExprKind.edit, Id.run_bind, Id.run_pure]
      exact (operand.edit_walks h).map _
  | paren inner =>
      simp only [ExprKind.edit, Id.run_bind, Id.run_pure]
      exact (inner.edit_walks h).map _
  | binary left op right =>
      simp only [ExprKind.offersCalls, Bool.and_eq_true] at h
      simp only [ExprKind.edit, Id.run_bind, Id.run_pure]
      exact (left.edit_walks h.1).bind ((right.edit_walks h.2).map _)
  | call call =>
      obtain ⟨callee, args, spread, closesLine⟩ := call
      simp only [ExprKind.offersCalls, Bool.and_eq_true] at h
      have hinside : visitor.Walks literals
          (callee.callTrees literals ++ callTreesOfExprs literals args)
          (do
            let callee ← callee.edit (visitor.edits literals)
            let args ← editExprs (visitor.edits literals) args
            return (⟨callee, args, spread, closesLine⟩ : Call))
          (visitor.sees literals ⟨callee, args, spread, closesLine⟩) :=
        (callee.edit_walks h.1).bind ((editExprs_walks args h.2).map _)
      simp only [ExprKind.edit, Id.run_bind, Id.run_pure]
      -- The visitor comes behind callee and arguments, as one step after them.
      have hnode := hinside.node.map ExprKind.call
      simp only [bind_assoc, pure_bind] at hnode
      exact hnode
  | index operand indices =>
      simp only [ExprKind.offersCalls, Bool.and_eq_true] at h
      simp only [ExprKind.edit, Id.run_bind, Id.run_pure]
      exact (operand.edit_walks h.1).bind ((editExprs_walks indices h.2).map _)
  | composite type body =>
      cases type with
      | none => exact .pure
      | some type =>
          -- The type is not edited, so there must be no call in it.
          rw [ExprKind.callTrees, ← callTreesOfExprs_singleton, callTreesOfExprs_eq_nil h]
          exact .pure
  | func params results body =>
      obtain ⟨stmts, trailing, inline⟩ := body
      simp only [ExprKind.edit, Id.run_bind, Id.run_pure]
      exact ((editStmts_walks stmts h).editIf literals).map _
  | _ => exact .pure

theorem editExprs_walks (exprs : List Expr) (h : exprsOfferCalls exprs) :
    visitor.Walks literals (callTreesOfExprs literals exprs)
      (editExprs (visitor.edits literals) exprs)
      (editExprs (visitor.changes literals) exprs).run := by
  cases exprs with
  | nil => exact .pure
  | cons expr exprs =>
      simp only [exprsOfferCalls, Bool.and_eq_true] at h
      simp only [editExprs, Id.run_bind, Id.run_pure]
      exact (expr.edit_walks h.1).bind ((editExprs_walks exprs h.2).map _)

theorem StmtKind.edit_walks (scope : EditScope) (kind : StmtKind) (h : kind.offersCalls) :
    visitor.Walks literals (kind.callTrees literals scope)
      (kind.edit (visitor.edits literals) scope)
      (kind.edit (visitor.changes literals) scope).run := by
  cases kind with
  | expr value =>
      simp only [StmtKind.edit, Id.run_bind, Id.run_pure]
      exact ((value.edit_walks h).editIf _).map _
  | spawn call =>
      simp only [StmtKind.edit, Id.run_bind, Id.run_pure]
      exact ((call.edit_walks h).editIf _).map _
  | defer call =>
      simp only [StmtKind.edit, Id.run_bind, Id.run_pure]
      exact ((call.edit_walks h).editIf _).map _
  | assign left op right =>
      simp only [StmtKind.offersCalls, Bool.and_eq_true] at h
      simp only [StmtKind.edit, Id.run_bind, Id.run_pure]
      exact ((editExprs_walks left h.1).editIf _).bind
        (((editExprs_walks right h.2).editIf _).map _)
  | ret results =>
      simp only [StmtKind.edit, Id.run_bind, Id.run_pure]
      exact ((editExprs_walks results h).editIf _).map _
  | cond init test body alternative =>
      obtain ⟨stmts, trailing, inline⟩ := body
      simp only [StmtKind.offersCalls, Bool.and_eq_true] at h
      obtain ⟨hinit, htest, hbody, halternative⟩ := h
      simp only [StmtKind.edit, Id.run_bind, Id.run_pure]
      exact ((editOptional_walks .own init hinit).editIf _).bind
        (((test.edit_walks htest).editIf _).bind
          (((editStmts_walks stmts hbody).editIf _).bind
            (((editOptional_walks scope.branch alternative halternative).editIf _).map _)))
  | loop header body =>
      obtain ⟨stmts, trailing, inline⟩ := body
      simp only [StmtKind.offersCalls, Bool.and_eq_true] at h
      simp only [StmtKind.edit, Id.run_bind, Id.run_pure]
      exact ((header.edit_walks h.1).editIf _).bind (((editStmts_walks stmts h.2).editIf _).map _)
  | switch header clauses trailing =>
      simp only [StmtKind.edit, Id.run_bind, Id.run_pure]
      exact ((editClauses_walks clauses h).editIf _).map _
  | select clauses trailing =>
      simp only [StmtKind.edit, Id.run_bind, Id.run_pure]
      exact ((editClauses_walks clauses h).editIf _).map _
  | block body =>
      obtain ⟨stmts, trailing, inline⟩ := body
      simp only [StmtKind.edit, Id.run_bind, Id.run_pure]
      exact ((editStmts_walks stmts h).editIf _).map _
  | labeled label stmt =>
      obtain ⟨kind, decs⟩ := stmt
      simp only [StmtKind.edit, Id.run_bind, Id.run_pure]
      exact (kind.edit_walks scope.behindLabel h).map _
  | decl group =>
      obtain ⟨text, specs⟩ := group
      rw [StmtKind.callTrees, callTreesOfSpecs_eq, callTreesOfExprs_eq_nil h, callTreesIf_nil]
      exact .pure
  | verbatim text => exact .pure

theorem editOptional_walks (scope : EditScope) (stmt : Option Stmt) (h : optionalOffersCalls stmt) :
    visitor.Walks literals (callTreesOfOptional literals scope stmt)
      (editOptional (visitor.edits literals) scope stmt)
      (editOptional (visitor.changes literals) scope stmt).run := by
  cases stmt with
  | none => exact .pure
  | some stmt =>
      obtain ⟨kind, decs⟩ := stmt
      simp only [editOptional, Id.run_bind, Id.run_pure]
      exact (kind.edit_walks scope h).map _

theorem LoopHeader.edit_walks (header : LoopHeader) (h : header.offersCalls) :
    visitor.Walks literals (header.callTrees literals) (header.edit (visitor.edits literals))
      (header.edit (visitor.changes literals)).run := by
  cases header with
  | cond test =>
      simp only [LoopHeader.edit, Id.run_bind, Id.run_pure]
      exact (test.edit_walks h).map _
  | range key value op operand =>
      simp only [LoopHeader.edit, Id.run_bind, Id.run_pure]
      exact (operand.edit_walks h).map _
  | _ => exact .pure

theorem editStmts_walks (stmts : List Stmt) (h : stmtsOfferCalls stmts) :
    visitor.Walks literals (callTreesOfStmts literals stmts)
      (editStmts (visitor.edits literals) stmts)
      (editStmts (visitor.changes literals) stmts).run := by
  cases stmts with
  | nil => exact .pure
  | cons stmt stmts =>
      obtain ⟨kind, decs⟩ := stmt
      simp only [stmtsOfferCalls, Bool.and_eq_true] at h
      simp only [editStmts, Id.run_bind, Id.run_pure]
      exact (kind.edit_walks .full h.1).bind ((editStmts_walks stmts h.2).map _)

theorem editClauses_walks (clauses : List Clause) (h : clausesOfferCalls clauses) :
    visitor.Walks literals (callTreesOfClauses literals clauses)
      (editClauses (visitor.edits literals) clauses)
      (editClauses (visitor.changes literals) clauses).run := by
  cases clauses with
  | nil => exact .pure
  | cons clause clauses =>
      obtain ⟨head, body, trailing, decs⟩ := clause
      simp only [clausesOfferCalls, Bool.and_eq_true] at h
      simp only [editClauses, Id.run_bind, Id.run_pure]
      exact (editStmts_walks body h.1).bind ((editClauses_walks clauses h.2).map _)

end

end

end

/-! ## Both walks -/

/-- A walk that reads the parts and a walk that edits reach the same calls: both list the nodes of
one forest, in which a call holds the calls in its callee and its arguments. -/
structure ReachSameCalls (literals : Bool) (parts : List Expr) {α : Type}
    (edit : {m : Type → Type} → [Monad m] → Edits m → m α) (forest : List CallTree) : Prop where
  inside : ∀ node ∈ preorders forest, node.inside = node.call.callTrees literals
  reads : parts.filterMap Expr.call? = (preorders forest).map CallTree.call
  edits {m : Type → Type} [Monad m] [LawfulMonad m] (visitor : CallVisitor m) :
    visitor.Walks literals forest (edit (visitor.edits literals))
      (edit (visitor.changes literals)).run
  sameNodes : (postorders forest).Perm (preorders forest)
  readsBefore : ∀ node ∈ preorders forest, node :: preorders node.inside <:+: preorders forest
  editsBehind : ∀ node ∈ postorders forest,
    postorders node.inside ++ [node] <:+: postorders forest

theorem ReachSameCalls.of_walks {literals : Bool} {parts : List Expr} {α : Type}
    {edit : {m : Type → Type} → [Monad m] → Edits m → m α} {forest : List CallTree}
    (hreads : ReadsCalls literals parts forest)
    (hedits : ∀ {m : Type → Type} [Monad m] [LawfulMonad m] (visitor : CallVisitor m),
      visitor.Walks literals forest (edit (visitor.edits literals))
        (edit (visitor.changes literals)).run) :
    ReachSameCalls literals parts edit forest where
  inside := hreads.inside
  reads := hreads.calls
  edits := hedits
  sameNodes := postorders_perm forest
  readsBefore := preorders_contiguous forest
  editsBehind := postorders_contiguous forest

/-- Where every call is offered for editing, detection and editing reach the same calls. -/
theorem walks_reachSameCalls :
    (∀ stmt : Stmt, stmt.offersCalls → ∀ literals,
      ReachSameCalls literals (stmt.ownExprs.flatMap (·.parts literals)) (Stmt.editOwn · stmt)
        (callTreesOfExprs literals stmt.ownExprs)) ∧
    ∀ stmts : List Stmt, stmtsOfferCalls stmts →
      ReachSameCalls true (ownPartsOf (allStmts stmts)) (editStmts · stmts)
        (callTreesOfStmts true stmts) := by
  refine ⟨fun stmt hstmt literals => .of_walks ?_ fun visitor => ?_,
    fun stmts hstmts => .of_walks ?_ fun visitor => editStmts_walks visitor true stmts hstmts⟩
  · rw [← partsOfExprs_eq]
    exact partsOfExprs_reads literals stmt.ownExprs
  · rw [Stmt.ownExprs, ← StmtKind.callTrees_own]
    exact (stmt.kind.edit_walks visitor literals .own hstmt).map _
  · rw [← partsOfStmts_eq]
    exact partsOfStmts_reads stmts

/-- `if retry(func() { wait(limit()) }) { use() } else if ready(load()) { log() }` -/
def guardedUse : Stmt :=
  let call (name : String) (args : List Expr) : Expr := .call (.ident name) args
  let waiting : Expr :=
    { kind := .func {} none { stmts := [.expr (call "wait" [call "limit" []])] } }
  let ready : Stmt := .cond (call "ready" [call "load" []]) [.expr (call "log" [])]
  { kind := .cond none (call "retry" [waiting]) { stmts := [.expr (call "use" [])] } (some ready) }

theorem walks_reachSameCalls_guardedUse :
    guardedUse.offersCalls ∧ stmtsOfferCalls [guardedUse] ∧
      (∀ literals, ReachSameCalls literals (guardedUse.ownExprs.flatMap (·.parts literals))
        (Stmt.editOwn · guardedUse) (callTreesOfExprs literals guardedUse.ownExprs)) ∧
      ReachSameCalls true (ownPartsOf (allStmts [guardedUse])) (editStmts · [guardedUse])
        (callTreesOfStmts true [guardedUse]) ∧
      (preorders (callTreesOfStmts true [guardedUse])).map (·.call.name?) =
        ["retry", "wait", "limit", "use", "ready", "load", "log"].map some ∧
      (postorders (callTreesOfStmts true [guardedUse])).map (·.call.name?) =
        ["limit", "wait", "retry", "use", "load", "ready", "log"].map some :=
  ⟨by decide, by decide, walks_reachSameCalls.1 guardedUse (by decide),
    walks_reachSameCalls.2 [guardedUse] (by decide), by decide, by decide⟩

end TraceWeave.Syntax
