import TraceWeave.Proofs.Tracing.Bodies

/-!
Instrumentation loses no comment.

Whatever weaving does to a list, the comments of the list come out again, in order
(`Weaves.comments_sublist`): a statement that loses the band above it has handed it to the
statement that now stands in front of it, an argument that is wrapped leaves its bands to
the wrapper, and advisories go above the comments that are there.
-/

namespace TraceWeave.Syntax

open scoped List

/-! ## Calls -/

theorem comments_call (call : Call) (decs : Decorations) :
    Expr.comments ⟨.call call, decs⟩ = call.callee.comments ++ commentsOfArgs call.args := by
  cases call
  simp [Expr.comments, ExprKind.comments]

/-- A call that gets other arguments retains the comments if these do. -/
theorem retains_of_args {call call' : Call} (hcallee : call'.callee = call.callee)
    (hargs : commentsOfArgs call.args <+ commentsOfArgs call'.args) (decs : Decorations) :
    Expr.Retains ⟨.call call, decs⟩ ⟨.call call', decs⟩ := by
  refine ⟨rfl, ?_⟩
  rw [comments_call, comments_call, hcallee]
  exact hargs.append_left _

theorem commentsOfArgs_addArg (call : Call) (arg : Expr) :
    commentsOfArgs call.args <+ commentsOfArgs (call.addArg arg).args := by
  simp only [Call.addArg, commentsOfArgs_append]
  exact List.sublist_append_left ..

@[simp]
theorem comments_bare (expr : Expr) : (Agent.bare expr).comments = expr.comments := by
  cases expr
  simp [Agent.bare, Expr.comments]

/-- A call holds the comments inside its arguments. -/
theorem comments_sublist_of_mem {args : List Expr} {arg : Expr} (hmem : arg ∈ args) (callee : Expr)
    (decs : Decorations) :
    arg.comments <+ Expr.comments { Expr.call callee args with decs } := by
  obtain ⟨front, back, rfl⟩ := List.append_of_mem hmem
  obtain ⟨kind, argDecs⟩ := arg
  show kind.comments <+ callee.comments ++ commentsOfArgs (front ++ ⟨kind, argDecs⟩ :: back)
  rw [commentsOfArgs_append]
  refine List.sublist_append_of_sublist_right (List.sublist_append_of_sublist_right ?_)
  exact List.sublist_append_of_sublist_right (List.sublist_append_left ..)

/-- An argument may be wrapped by an expression that takes over its bands. -/
theorem commentsOfArgs_set {args : List Expr} {index : Nat} {arg wrapped : Expr}
    (harg : args[index]? = some arg) (hdecs : wrapped.decs = arg.decs)
    (hwrapped : arg.comments <+ wrapped.comments) :
    commentsOfArgs args <+ commentsOfArgs (args.set index wrapped) := by
  obtain ⟨hlt, rfl⟩ := List.getElem?_eq_some_iff.1 harg
  have hsplit : args = args.take index ++ args[index] :: args.drop (index + 1) := by simp
  rw [List.set_eq_take_append_cons_drop, if_pos hlt]
  conv_lhs => rw [hsplit]
  exact commentsOfArgs_sublist _ _ hdecs hwrapped

end TraceWeave.Syntax

namespace TraceWeave.Tracing

open TraceWeave.Agent TraceWeave.Detect TraceWeave.Program TraceWeave.Syntax TraceWeave.Types
open scoped List

theorem Passes.comments_sublist {info : Info} {list : FieldList} {call : Call} {mayExtend : Bool}
    {passing : Passing} (h : Passes info list call mayExtend passing) :
    commentsOfArgs call.args <+ commentsOfArgs passing.call.args := by
  cases h with
  | same hcall _ =>
      rw [hcall]
  | fills _ _ _ hcall _ =>
      rw [hcall]
      exact commentsOfArgs_addArg call _
  | wraps _ _ harg hcall _ =>
      rw [hcall]
      refine commentsOfArgs_set harg rfl ?_
      rw [← comments_bare]
      exact comments_sublist_of_mem List.mem_cons_self _ _
  | grows _ _ _ hcall _ _ =>
      rw [hcall]
      exact commentsOfArgs_addArg call _

theorem Hands.retains {app : Application} {call : Call} {ref : FuncRef} {passing : Passing}
    (hands : Hands app call ref passing) (decs : Decorations) :
    Expr.Retains ⟨.call call, decs⟩ ⟨.call passing.call, decs⟩ := by
  refine retains_of_args hands.callee_eq ?_ decs
  obtain ⟨func, carrier, async, txn, -, rfl⟩ := hands.passes
  exact (carrier.passes ..).comments_sublist

theorem wrapHandler?_comments {agent : Expr} {call call' : Call}
    (h : wrapHandler? agent call = some call') :
    commentsOfArgs call.args <+ commentsOfArgs call'.args := by
  unfold wrapHandler? at h
  split at h
  · next pattern handler hargs =>
    split at h
    · contradiction
    · obtain rfl := Option.some.inj h
      rw [hargs]
      -- the arguments of the wrapper keep their bands
      obtain ⟨patternKind, patternDecs⟩ := pattern
      obtain ⟨handlerKind, handlerDecs⟩ := handler
      refine List.sublist_append_of_sublist_right (List.sublist_append_of_sublist_left ?_)
      obtain ⟨agentKind, agentDecs⟩ := agent
      have hinner : commentsOfArgs [⟨patternKind, patternDecs⟩, ⟨handlerKind, handlerDecs⟩] <+
          agentDecs.lead ++ (agentKind.comments ++ (agentDecs.trail ++
            commentsOfArgs [⟨patternKind, patternDecs⟩, ⟨handlerKind, handlerDecs⟩])) := by
        simp only [← List.append_assoc]
        exact List.sublist_append_right ..
      exact List.sublist_append_of_sublist_right hinner
  · contradiction

theorem Hooks.comments_sublist {info : Info} {call call' : Call} (hooks : Hooks info call call') :
    commentsOfArgs call.args <+ commentsOfArgs call'.args := by
  cases hooks with
  | handler _ _ hwrap => exact wrapHandler?_comments hwrap
  | client _ => exact (commentsOfArgs_addArg call _).trans (commentsOfArgs_addArg _ _)
  | server _ _ => exact (commentsOfArgs_addArg call _).trans (commentsOfArgs_addArg _ _)
  | logger _ _ =>
      unfold wrapFirstArg
      split
      · exact .refl _
      · next handler args hargs =>
        rw [hargs]
        refine commentsOfArgs_sublist [] args rfl ?_
        rw [← comments_bare]
        exact comments_sublist_of_mem (List.mem_cons_of_mem _ List.mem_cons_self) _ _

theorem Adjusts.retains {app : Application} {expr expr' : Expr} (h : Adjusts app expr expr') :
    expr.Retains expr' := by
  cases h with
  | rename ident decs _ => exact ⟨rfl, .refl _⟩
  | @hook _ _ decs hooks => exact retains_of_args hooks.callee_eq hooks.comments_sublist decs
  | @pass _ _ _ decs hands _ => exact hands.retains decs

theorem queryWithContext_retains (method : String) (call : Call) (decs : Decorations) :
    Expr.Retains ⟨.call call, decs⟩ ⟨.call (queryWithContext method call), decs⟩ := by
  obtain ⟨⟨kind, calleeDecs⟩, args, spread, closesLine⟩ := call
  have hcallee : (queryWithContext method ⟨⟨kind, calleeDecs⟩, args, spread, closesLine⟩).callee.comments =
      kind.comments := by
    cases kind <;> rfl
  refine ⟨rfl, ?_⟩
  rw [comments_call, comments_call, hcallee]
  exact List.Sublist.append_left (List.sublist_append_right ..) _

theorem SpawnedLiteral.comments_handed (literal : SpawnedLiteral) (txn : String) :
    literal.kind.comments <+ (literal.handed txn).kind.comments := by
  obtain ⟨value, call, params, results, ⟨stmts, trailing, inline⟩⟩ := literal
  exact (commentsOfArgs_addArg call _).append_left _

/-- Weaving loses no comment of a list. -/
theorem Weaves.comments_sublist {app app' : Application} {stmts stmts' : List Stmt}
    (h : Weaves app stmts app' stmts') : commentsOfStmts stmts <+ commentsOfStmts stmts' := by
  induction h with
  | refl => exact .refl _
  | trans _ _ ih ih' => exact ih.trans ih'
  | needImport package path => exact .refl _
  | console console => exact .refl _
  | dress front back hdecs => exact comments_sublist_within front back hdecs (.refl _)
  | adjust hadjusts hrewrite => exact hrewrite.comments_sublist hadjusts.retains
  | query front back method hcall _ _ _ _ =>
      obtain ⟨decs, hrewrite⟩ := rewrite_mapPrimaryCall hcall (queryWithContext method) true front back
      exact hrewrite.comments_sublist (queryWithContext_retains method _ decs)
  | hand front back literal txn hkind _ =>
      refine comments_sublist_within front back (.refl _) ?_
      rw [hkind]
      exact literal.comments_handed txn
  | insert front back _ =>
      rw [commentsOfStmts_append, commentsOfStmts_append, commentsOfStmts_cons]
      refine List.Sublist.append_left ?_ _
      simp only [← List.append_assoc]
      exact List.sublist_append_right ..
  | precede front back _ hlead htrail => exact comments_sublist_precede front back rfl hlead htrail
  | nested front back hnests _ ih =>
      exact comments_sublist_within front back (.refl _) (hnests.comments_sublist ih)
  | insertInside front back hnests _ =>
      refine comments_sublist_within front back (.refl _) (hnests.comments_sublist ?_)
      rw [commentsOfStmts_cons]
      simp only [← List.append_assoc]
      exact List.sublist_append_right ..
  | @enter _ _ _ _ _ _ _ _ _ decs hands _ _ hrewrite _ _ _ =>
      exact hrewrite.comments_sublist (hands.retains decs)

/-! ## The entry function -/

theorem commentsOfStmts_lowerRedeclarations (declared : List String) (stmts : List Stmt) :
    commentsOfStmts (lowerRedeclarations declared stmts) = commentsOfStmts stmts := by
  have hassign : ∀ stmt : Stmt, (assignOnly stmt).kind.comments = stmt.kind.comments ∧
      (assignOnly stmt).decs = stmt.decs := by
    intro stmt
    unfold assignOnly
    split
    · next hkind => simp [hkind, StmtKind.comments]
    · exact ⟨rfl, rfl⟩
  induction stmts generalizing declared with
  | nil => rfl
  | cons stmt stmts ih =>
      unfold lowerRedeclarations
      split
      · simp only [commentsOfStmts_cons, ih]
      · dsimp only
        split
        · simp only [commentsOfStmts_cons, ih, hassign]
        · simp only [commentsOfStmts_cons, ih]

theorem SetsUp.comments_sublist {agent appName : String} {stmts stmts' : List Stmt}
    (h : SetsUp agent appName stmts stmts') : commentsOfStmts stmts <+ commentsOfStmts stmts' := by
  cases h with
  | existing => exact .refl _
  | fresh =>
      rw [commentsOfStmts_append, commentsOfStmts_append, commentsOfStmts_lowerRedeclarations]
      exact List.sublist_append_of_sublist_left (List.sublist_append_right ..)

/-! ## Bodies -/

theorem keepsComments_withstands (body : Block) :
    Withstands (fun _ => True) fun body' => body.comments <+ body'.comments where
  grows _ _ h := h
  setBody _ _ h := h
  weaves _ _ htrailing hweaves h := by
    refine h.trans ?_
    rw [Block.comments, Block.comments, htrailing]
    exact hweaves.comments_sublist.append_right _
  setsUp hsetsUp h := h.trans (hsetsUp.comments_sublist.append_right _)

end TraceWeave.Tracing
