import TraceWeave.Proofs.Tracing.Scopes

/-!
What the detectors of the walk read.

Each of them writes the variable of the transaction only where the frame says that it is
the transaction, which then counts as used, and otherwise only repeats what it finds.
-/

namespace TraceWeave.Tracing

open TraceWeave.Agent TraceWeave.Detect TraceWeave.Program TraceWeave.Syntax TraceWeave.Types

variable (watched : FuncRef → Prop)

/-! ## Calls and statements -/

section

variable {name : String} {gain : Prop}

theorem gains_mapPrimaryCall {stmt : Stmt} {call : Call} (hcall : primaryCall? stmt = some call)
    {f : Call → Call} (hf : Gains gain (call.reads name) ((f call).reads name)) :
    Gains gain (stmt.kind.reads name) ((mapPrimaryCall f stmt).kind.reads name) := by
  obtain ⟨decs, hrewrite⟩ := rewrite_mapPrimaryCall hcall f true [] []
  have hpart : Gains gain ((⟨.call call, decs⟩ : Expr).reads name)
      ((⟨.call (f call), decs⟩ : Expr).reads name) := by
    simpa only [Expr.reads, ExprKind.reads_call] using hf
  simpa [readsInStmts_eq_any] using hrewrite.reads hpart

/-- Changes one after the other, each of which the gain accounts for. -/
theorem gains_of_steps {σ α : Type} {rewrites : Expr → Expr → α → α → Prop} (reads : α → Bool)
    (hrewrites : ∀ part part' a a', rewrites part part' a a' →
      Gains gain (part.reads name) (part'.reads name) → Gains gain (reads a) (reads a'))
    {before after : α × σ}
    (steps : Steps rewrites (fun before after =>
      Gains gain (before.1.reads name) (after.1.reads name)) before after) :
    Gains gain (reads before.1) (reads after.1) := by
  induction steps with
  | refl => exact .refl
  | tail _ hstep ih =>
      obtain ⟨part, part', hgains, hrewrite⟩ := hstep
      exact ih.trans (hrewrites part part' _ _ hrewrite hgains)

theorem gains_editOwn {m : Type → Type} [Monad m] {σ : Type} {threaded : Threaded m σ}
    {edits : Edits m}
    (follows : edits.Follows threaded fun before after =>
      Gains gain (before.1.reads name) (after.1.reads name)) (stmt : Stmt) (s : σ) :
    Gains gain (stmt.kind.reads name)
      ((threaded.run (stmt.editOwn edits) s).1.kind.reads name) := by
  simp only [Stmt.editOwn, Threaded.run_bind, Threaded.run_pure]
  exact gains_of_steps (·.reads name) (fun _ _ _ _ h hgains => h.reads hgains)
    (stmt.kind.edit_steps follows .own s)

theorem gains_mapOwnCalls {f : Call → Call}
    (hf : ∀ call, Gains gain (call.reads name) ((f call).reads name)) (literals : Bool)
    (stmt : Stmt) :
    Gains gain (stmt.kind.reads name) ((mapOwnCalls literals f stmt).kind.reads name) := by
  have follows : (Edits.calls literals fun call => (pure (f call) : Id Call)).Follows Threaded.ofId
      fun before after => Gains gain (before.1.reads name) (after.1.reads name) := by
    refine ⟨fun call decs s => .inl ?_, fun ident decs s => .inr rfl⟩
    simp only [Expr.reads, ExprKind.reads_call]
    exact hf call
  exact gains_editOwn follows stmt ()

theorem readsInExprs_addArg (call : Call) (arg : Expr) :
    readsInExprs name (call.addArg arg).args = (readsInExprs name call.args || arg.reads name) := by
  unfold Call.addArg
  dsimp only
  split <;> simp [readsInExprs_eq_any]

theorem reads_addArg (call : Call) (arg : Expr) :
    (call.addArg arg).reads name = (call.reads name || arg.reads name) := by
  show (call.callee.reads name || readsInExprs name (call.addArg arg).args) = _
  rw [readsInExprs_addArg, ← Bool.or_assoc]
  rfl

theorem reads_of_mem {exprs : List Expr} {expr : Expr} (hmem : expr ∈ exprs)
    (h : expr.reads name = true) : readsInExprs name exprs = true := by
  rw [readsInExprs_eq_any]
  exact List.any_eq_true.2 ⟨expr, hmem, h⟩

theorem reads_of_primaryCall? {stmt : Stmt} {call : Call} (hcall : primaryCall? stmt = some call)
    (h : call.reads name = true) : stmt.kind.reads name = true := by
  have hvalue : ∀ value : Expr, value.call? = some call → value.reads name = true := by
    intro value hvalue
    rw [eq_of_call? hvalue, Expr.reads, ExprKind.reads_call]
    exact h
  unfold primaryCall? at hcall
  split at hcall
  · next hkind => simp [hkind, StmtKind.reads, hvalue _ hcall]
  · next hkind => simp [hkind, StmtKind.reads, hvalue _ hcall]
  · contradiction

theorem reads_bindVariable (target : String) (value : Expr) (declared : Bool) :
    (bindVariable target value declared).kind.reads name =
      (target == name || value.reads name) := by
  cases declared <;> simp [bindVariable, Stmt.assign, Stmt.define, StmtKind.reads]

/-- A name that a statement assigns to is one that it reads, as occurrences go. -/
theorem reads_of_assignedNames {stmt : Stmt} (h : name ∈ assignedNames stmt) :
    stmt.kind.reads name = true := by
  unfold assignedNames at h
  split at h
  · next left op right hkind =>
    obtain ⟨⟨kind, decs⟩, hmem, hname⟩ := List.mem_filterMap.1 h
    obtain ⟨ident, hident, rfl⟩ := Option.map_eq_some_iff.1 hname
    cases kind with
    | ident other =>
        obtain rfl := Option.some.inj hident
        simp [hkind, StmtKind.reads, reads_of_mem hmem, Expr.reads, ExprKind.reads]
    | _ => contradiction
  · contradiction

end

/-! ## Hooks -/

section

variable {gain : Prop}

theorem reads_of_qualifier? {call : Call} {name : String} (h : qualifier? call = some name) :
    call.reads name = true := by
  obtain ⟨⟨operand, member⟩, hselector, hname⟩ := Option.bind_eq_some_iff.1 h
  obtain ⟨ident, hident, rfl⟩ := Option.map_eq_some_iff.1 hname
  obtain ⟨⟨kind, decs⟩, args, spread, closesLine⟩ := call
  obtain ⟨operandKind, operandDecs⟩ := operand
  cases kind with
  | selector operand' member' =>
      obtain ⟨rfl, rfl⟩ := Prod.mk.inj (Option.some.inj hselector)
      cases operandKind with
      | ident other =>
          obtain rfl := Option.some.inj hident
          simp [Call.reads, Expr.reads, ExprKind.reads]
      | _ => contradiction
  | _ => contradiction

theorem reads_of_grpcName {call : Call} (h : grpcName call = transactionVariable) :
    call.reads transactionVariable = true := by
  unfold grpcName at h
  cases hqualifier : qualifier? call with
  | none =>
      rw [hqualifier] at h
      exact absurd h (by decide)
  | some name =>
      rw [hqualifier] at h
      exact reads_of_qualifier? (hqualifier.trans (congrArg some h))

theorem reads_interceptorOption (grpc option : String) (interceptor : Expr) :
    (interceptorOption grpc option interceptor).reads transactionVariable =
      (grpc == transactionVariable || interceptor.reads transactionVariable) := by
  simp [interceptorOption]

theorem gains_addServerInterceptors {agent : Expr} (call : Call)
    (hagent : agent.reads transactionVariable = true → gain) :
    Gains gain (call.reads transactionVariable)
      ((addServerInterceptors (grpcName call) agent call).reads transactionVariable) := by
  have hname : ("nrgrpc" == transactionVariable) = false := by decide
  intro h
  simp [addServerInterceptors, reads_addArg, reads_interceptorOption, hname] at h
  rcases h with h | h | h
  · exact .inl h
  · exact .inl (reads_of_grpcName h)
  · exact .inr (hagent h)

theorem gains_addClientInterceptors (call : Call) :
    Gains gain (call.reads transactionVariable)
      ((addClientInterceptors (grpcName call) call).reads transactionVariable) := by
  have hname : ("nrgrpc" == transactionVariable) = false := by decide
  intro h
  simp [addClientInterceptors, reads_addArg, reads_interceptorOption, hname] at h
  rcases h with h | h
  · exact .inl h
  · exact .inl (reads_of_grpcName h)

theorem gains_wrapHandler? {agent : Expr} {call call' : Call}
    (hagent : agent.reads transactionVariable = true → gain)
    (h : wrapHandler? agent call = some call') :
    Gains gain (call.reads transactionVariable) (call'.reads transactionVariable) := by
  have hname : ("newrelic" == transactionVariable) = false := by decide
  unfold wrapHandler? at h
  split at h
  · next pattern handler hargs =>
    split at h
    · contradiction
    · obtain rfl := Option.some.inj h
      intro hreads
      simp [Call.reads, newrelic, hname] at hreads
      rcases hreads with hreads | hreads | hreads | hreads
      · exact .inl (by simp [Call.reads, hreads])
      · exact .inr (hagent hreads)
      · exact .inl (by simp [Call.reads, hargs, hreads])
      · exact .inl (by simp [Call.reads, hargs, hreads])
  · contradiction

theorem gains_wrapFirstArg {agent : Expr} (call : Call)
    (hagent : agent.reads transactionVariable = true → gain) :
    Gains gain (call.reads transactionVariable)
      ((wrapFirstArg agent call).reads transactionVariable) := by
  have hname : ("nrslog" == transactionVariable) = false := by decide
  unfold wrapFirstArg
  split
  · exact .refl
  · next handler args hargs =>
    intro hreads
    simp [Call.reads, wrapLogHandler, bare, hname] at hreads
    rcases hreads with hreads | (hreads | hreads) | hreads
    · exact .inl (by simp [Call.reads, hreads])
    · exact .inr (hagent hreads)
    · exact .inl (by simp [Call.reads, hargs, hreads])
    · exact .inl (by simp [Call.reads, hargs, hreads])

end

theorem interceptServers_scopes (cursor : Cursor) (frame : Frame) (app : Application) :
    Trace.wp (interceptServers cursor) (CursorScopes watched cursor frame app) frame app := by
  unfold interceptServers
  simp only [Trace.wp_bind, Trace.wp_types]
  split
  · exact .refl
  · simp only [Trace.application, Trace.wp_bind, Trace.wp_modifyGet]
    have hused : CursorScopes watched cursor frame app cursor frame.application.2 app :=
      Scopes.refl.reframe (.application frame)
    split
    · exact hused
    · next agent hagent =>
      simp only [Trace.wp_bind, Trace.wp_needImport, Trace.wp_pure]
      refine (hused.tidy (.needImport ..)).replace fun hmain => ?_
      refine gains_mapOwnCalls (fun call => ?_) false cursor.current
      split
      · exact gains_addServerInterceptors call
          (reads_application ((Frame.Continues.application frame).inMain.symm.trans hmain) hagent)
      · exact .refl

theorem wrapRegistration_scopes (cursor : Cursor) (frame : Frame) (app : Application) :
    Trace.wp (wrapRegistration cursor) (CursorScopes watched cursor frame app) frame app := by
  unfold wrapRegistration
  split
  · exact .refl
  · next call hcall =>
    split
    · exact .refl
    · simp only [Trace.wp_bind, Trace.wp_types]
      split
      · exact .refl
      · simp only [Trace.application, Trace.wp_bind, Trace.wp_modifyGet]
        have hused : CursorScopes watched cursor frame app cursor frame.application.2 app :=
          Scopes.refl.reframe (.application frame)
        split
        · exact hused
        · next agent hagent =>
          split
          · exact hused
          · next wrapped hwrapped =>
            have hwrap : CursorScopes watched cursor frame app
                (cursor.modify (mapPrimaryCall fun _ => wrapped)) frame.application.2 app :=
              hused.replace fun hmain => gains_mapPrimaryCall hcall
                (gains_wrapHandler? (reads_application
                  ((Frame.Continues.application frame).inMain.symm.trans hmain) hagent) hwrapped)
            simp only [Trace.wp_bind, Trace.wp_needImport]
            split
            · rw [Trace.wp_bind]
              refine Trace.wp_attach fun decs console _ => ?_
              exact ((hwrap.tidy (.needImport ..)).dress decs).tidy (.console ..)
            · exact hwrap.tidy (.needImport ..)

theorem wrapInPlace_scopes (cursor : Cursor) (frame : Frame) (app : Application) :
    Trace.wp (wrapInPlace app.types cursor) (CursorScopes watched cursor frame app) frame app := by
  unfold wrapInPlace
  simp only [Trace.application, Trace.wp_bind, Trace.wp_modifyGet]
  have hused : CursorScopes watched cursor frame app cursor frame.application.2 app :=
    Scopes.refl.reframe (.application frame)
  split
  · exact hused
  · next agent hagent =>
    simp only [Trace.wp_bind, Trace.wp_needImport, Trace.wp_pure]
    refine (hused.tidy (.needImport ..)).replace fun hmain => ?_
    refine gains_mapOwnCalls (fun call => ?_) false cursor.current
    split
    · exact gains_wrapFirstArg call
        (reads_application ((Frame.Continues.application frame).inMain.symm.trans hmain) hagent)
    · exact .refl

/-! ## Routers and log handlers -/

theorem packageName_of_middlewareFor? {info : Info} {call : Call} {path : String}
    (h : middlewareFor? info call = some path) : packageName path ≠ transactionVariable := by
  obtain ⟨callee, -, h⟩ := Option.bind_eq_some_iff.1 h
  obtain ⟨⟨package, name, middleware⟩, hmem, h⟩ := List.exists_of_findSome?_eq_some h
  have hrouters : ∀ router ∈ routers, packageName router.2.2 ≠ transactionVariable := by decide
  have hrouter := hrouters _ hmem
  dsimp only at h
  split at h
  · obtain rfl := Option.some.inj h
    exact hrouter
  · contradiction

theorem installMiddleware_scopes (cursor : Cursor) (frame : Frame) (app : Application) :
    Trace.wp (installMiddleware cursor) (CursorScopes watched cursor frame app) frame app := by
  unfold installMiddleware
  split
  case h_2 => exact .refl
  case h_1 router op value hkind =>
    simp only [Trace.wp_bind, Trace.wp_types]
    split
    · exact .refl
    · next path hpath =>
      split
      · exact .refl
      · simp only [Trace.application, Trace.wp_bind, Trace.wp_modifyGet]
        have hused : CursorScopes watched cursor frame app cursor frame.application.2 app :=
          Scopes.refl.reframe (.application frame)
        split
        · exact hused
        · next agent hagent =>
          simp only [Trace.wp_bind, Trace.wp_needImport, Trace.wp_pure]
          obtain ⟨call, -, hcall⟩ := Option.bind_eq_some_iff.1 hpath
          have hname := packageName_of_middlewareFor? hcall
          refine ((hused.tidy (.needImport ..)).dress _).insertAfter fun hmain hreads => ?_
          simp [useMiddleware, Stmt.expr, StmtKind.reads, methodCall, bare, hname] at hreads
          rcases hreads with hreads | hreads
          · left
            refine reads_of_current ?_
            simp [Cursor.replace, hkind, StmtKind.reads, hreads]
          · right
            exact reads_application ((Frame.Continues.application frame).inMain.symm.trans hmain)
              hagent hreads

theorem gains_renameIn (name target : String) (htarget : target ≠ transactionVariable)
    (stmts : List Stmt) :
    readsTransaction (renameIn name target stmts) = true → readsTransaction stmts = true := by
  have follows : (Edits.idents fun ident => (pure (if ident.name == name then
      { ident with name := target } else ident) : Id Ident)).Follows Threaded.ofId
      fun before after => Gains False (before.1.reads transactionVariable)
        (after.1.reads transactionVariable) := by
    refine ⟨fun call decs s => .inr rfl, fun ident decs s => .inl ?_⟩
    simp only [Edits.idents, Threaded.ofId, pure, Expr.reads, ExprKind.reads]
    split
    · exact fun h => absurd (beq_iff_eq.1 h) htarget
    · exact .refl
  intro h
  have hgains : Gains False (readsTransaction stmts)
      (readsTransaction (renameIn name target stmts)) :=
    gains_of_steps readsTransaction (fun _ _ _ _ h hgains => h.reads hgains)
      (editStmts_steps follows stmts ())
  exact (hgains h).resolve_right id

theorem wrapBound_scopes {handler : Ident} (cursor : Cursor) (frame : Frame) (app : Application)
    (hhandler : handler.name = transactionVariable →
      cursor.current.kind.reads transactionVariable = true) :
    Trace.wp (wrapBound handler.name cursor) (CursorScopes watched cursor frame app) frame app := by
  unfold wrapBound
  simp only [Trace.application, Trace.wp_bind, Trace.wp_modifyGet]
  have hused : CursorScopes watched cursor frame app cursor frame.application.2 app :=
    Scopes.refl.reframe (.application frame)
  split
  · exact hused
  · next agent hagent =>
    simp only [Trace.wp_bind, Trace.wp_get, Trace.wp_modifyGet, Trace.wp_needImport, Trace.wp_pure]
    generalize htarget : (if frame.application.2.isDeclared logHandlerVariable then
      logHandlerVariable ++ toString cursor.index else logHandlerVariable) = target
    have hne : target ≠ transactionVariable := htarget ▸ logHandlerTarget_ne _ _ (by decide)
    refine ((((hused.reframe (.declare _ _)).tidy (.needImport ..)).dress _).retail
      fun _ hrest => .inl ?_).insertAfter fun hmain hreads => ?_
    · have hbefore : readsTransaction cursor.rest = true := gains_renameIn _ _ hne _ hrest
      simp [reads_toList, Cursor.replace, hbefore]
    · have hname : ("nrslog" == transactionVariable) = false := by decide
      simp [Frame.bind, reads_bindVariable, wrapLogHandler, hne, hname] at hreads
      rcases hreads with hreads | hreads
      · right
        refine (Frame.Continues.declare _ _).reads ?_ (reads_application ?_ hagent hreads)
        · exact (Frame.Continues.declare _ _).inMain.symm.trans hmain
        · exact ((Frame.Continues.application frame).trans
            (Frame.Continues.declare _ _)).inMain.symm.trans hmain
      · exact .inl (reads_of_current (hhandler hreads))

theorem wrapHandlers_scopes (cursor : Cursor) (frame : Frame) (app : Application) :
    Trace.wp (wrapHandlers cursor) (CursorScopes watched cursor frame app) frame app := by
  unfold wrapHandlers
  simp only [Trace.wp_bind, Trace.wp_types]
  split
  · exact wrapInPlace_scopes watched cursor frame app
  · split
    · next target op value hkind =>
      split
      · exact .refl
      · next handler hhandler =>
        split
        · exact .refl
        · refine wrapBound_scopes watched cursor frame app fun hname => reads_of_assignedNames ?_
          have hident := (Option.filter_eq_some_iff.1 hhandler).1
          simp [assignedNames, hkind, hident, hname]
    · exact .refl

/-! ## Requests -/

theorem reads_of_responseName? {stmt : Stmt} {name : String} (h : responseName? stmt = some name) :
    stmt.kind.reads name = true :=
  reads_of_assignedNames (List.mem_of_mem_head? (Option.filter_eq_some_iff.1 h).1)

theorem segmentRequest_scopes {req : Expr} (cursor : Cursor) (frame : Frame) (app : Application)
    (hreq : req.reads transactionVariable = true →
      cursor.current.kind.reads transactionVariable = true) :
    Trace.wp (segmentRequest req cursor) (CursorScopes watched cursor frame app) frame app := by
  unfold segmentRequest
  split
  · exact .refl
  · simp only [Trace.transaction, Trace.wp_bind, Trace.wp_modifyGet]
    have hused : CursorScopes watched cursor frame app cursor frame.transaction.2 app :=
      Scopes.refl.reframe (.transaction frame)
    split
    · exact hused
    · next txn htxn =>
      simp only [Trace.wp_bind, Trace.wp_get, Trace.wp_modify, Trace.wp_needImport, Trace.wp_pure]
      have hsegment : ("externalSegment" == transactionVariable) = false := by decide
      have hnewrelic : ("newrelic" == transactionVariable) = false := by decide
      have hending : (endExternalSegment externalSegmentVariable).kind.reads transactionVariable =
          false := by decide
      have hframe := Frame.Continues.declare frame.transaction.2 externalSegmentVariable
      have hdeclared := (hused.reframe hframe).tidy (.needImport _
        (frame.transaction.2.declare externalSegmentVariable).package Path.newrelic)
      have hstart : ∀ declared,
          (frame.transaction.2.declare externalSegmentVariable).inMain = false →
          (startExternalSegment txn req externalSegmentVariable declared).kind.reads
            transactionVariable = true → readsTransaction cursor.toList = true ∨
              (frame.transaction.2.declare externalSegmentVariable).Reads := by
        intro declared hmain hreads
        simp [startExternalSegment, reads_bindVariable, externalSegmentVariable, hsegment, newrelic,
          hnewrelic] at hreads
        rcases hreads with hreads | hreads
        · exact .inr (hframe.reads (hframe.inMain.symm.trans hmain) (reads_transaction htxn hreads))
        · exact .inl (reads_of_current (hreq hreads))
      cases hresponse : responseName? cursor.current with
      | none =>
          refine (hdeclared.surround (hstart _) _).insertAfter fun _ hreads => ?_
          exact absurd (hreads.symm.trans hending) (by simp)
      | some name =>
          refine ((hdeclared.surround (hstart _) _).insertAfter fun _ hreads => .inl ?_).insertAfter
            fun _ hreads => ?_
          · have hname : name = transactionVariable := by
              simpa [captureResponse, Stmt.assign, StmtKind.reads, externalSegmentVariable,
                hsegment] using hreads
            have hcurrent := reads_of_responseName? hresponse
            rw [hname] at hcurrent
            exact reads_of_current hcurrent
          · exact absurd (hreads.symm.trans hending) (by simp)

theorem attachToRequest_scopes {req : Expr} (cursor : Cursor) (frame : Frame) (app : Application)
    (hreq : req.reads transactionVariable = true →
      cursor.current.kind.reads transactionVariable = true) :
    Trace.wp (attachToRequest req cursor) (CursorScopes watched cursor frame app) frame app := by
  unfold attachToRequest
  split
  · exact .refl
  · simp only [Trace.transaction, Trace.wp_bind, Trace.wp_modifyGet]
    have hused : CursorScopes watched cursor frame app cursor frame.transaction.2 app :=
      Scopes.refl.reframe (.transaction frame)
    split
    · exact hused
    · next txn htxn =>
      simp only [Trace.wp_bind, Trace.wp_needImport, Trace.wp_pure]
      have hnewrelic : ("newrelic" == transactionVariable) = false := by decide
      refine (hused.tidy (.needImport ..)).precede (fun hmain hreads => ?_) _
      simp [wrapRequest, Stmt.assign, StmtKind.reads, newrelic, hnewrelic] at hreads
      rcases hreads with hreads | hreads
      · exact .inl (reads_of_current (hreq hreads))
      · exact .inr (reads_transaction htxn hreads)

theorem traceRequest_scopes (cursor : Cursor) (frame : Frame) (app : Application) :
    Trace.wp (traceRequest cursor) (CursorScopes watched cursor frame app) frame app := by
  unfold traceRequest
  simp only [Trace.wp_bind, Trace.wp_get]
  split
  · exact .refl
  · simp only [Trace.wp_bind, Trace.wp_types]
    split
    · exact .refl
    · next call hcall =>
      split
      · exact .refl
      · split
        · exact .refl
        · next req hreq =>
          have hcurrent : (bare req).reads transactionVariable = true →
              cursor.current.kind.reads transactionVariable = true := by
            intro hreads
            have harg : req.reads transactionVariable = true := by simpa [bare] using hreads
            refine reads_of_primaryCall? hcall ?_
            simp [Call.reads, reads_of_mem (List.mem_of_mem_head? hreq) harg]
          split
          · exact segmentRequest_scopes watched cursor frame app hcurrent
          · exact attachToRequest_scopes watched cursor frame app hcurrent

/-! ## Queries -/

theorem runInTransaction_scopes (method : String) (cursor : Cursor) {frame : Frame}
    (app : Application) (hmain : frame.inMain = true) :
    Trace.wp (runInTransaction method cursor) (CursorScopes watched cursor frame app) frame
      app := by
  unfold runInTransaction
  simp only [Trace.wp_bind, Trace.wp_get, Trace.wp_modify, Trace.wp_modifyGet, Trace.wp_needImport]
  have hqueried : frame.Continues { frame with queried := true } :=
    ⟨rfl, fun _ => rfl, fun _ => rfl, fun _ => rfl, id⟩
  have hdeclared := (hqueried.trans (.declare _ transactionVariable)).trans
    (.declare _ contextVariable)
  have himported : ∀ package, Tidies watched app
      ((app.needImport package Path.newrelic).needImport package Path.context) := fun package =>
    (Tidies.needImport app package Path.newrelic).trans (.needImport _ package Path.context)
  split
  · simp only [Trace.wp_bind, Trace.wp_modify, Trace.wp_pure]
    exact .of_inMain hmain (himported _)
      (hdeclared.trans (.startTransaction (hdeclared.inMain.trans hmain) _))
  · rw [Trace.wp_pure]
    exact .of_inMain hmain (himported _) hdeclared

theorem traceQuery_scopes (cursor : Cursor) (frame : Frame) (app : Application) :
    Trace.wp (traceQuery cursor) (CursorScopes watched cursor frame app) frame app := by
  unfold traceQuery
  simp only [Trace.wp_bind, Trace.wp_get, Trace.wp_types]
  split
  · exact .refl
  · next hmain =>
    have hmain : frame.inMain = true := by simpa using hmain
    split
    · exact Scopes.refl.reframe ⟨rfl, fun _ => rfl, fun _ => rfl, fun _ => rfl, id⟩
    · split
      · exact .refl
      · split
        · exact .refl
        · exact runInTransaction_scopes watched _ cursor app hmain

/-! ## Errors -/

/-- The error that a statement binds is one of its targets. -/
theorem reads_of_caughtError? {info : Info} {stmt : Stmt} {err : Expr}
    (h : caughtError? info stmt = some (.bound err))
    (hreads : err.reads transactionVariable = true) :
    stmt.kind.reads transactionVariable = true := by
  unfold caughtError? at h
  dsimp only at h
  split at h
  · next target htarget =>
    obtain rfl := CaughtError.bound.inj (Option.some.inj h)
    have htargets := (List.mem_filter.1 (List.mem_of_find?_eq_some htarget)).1
    have hread : target.reads transactionVariable = true := by simpa [bare] using hreads
    unfold errorTargets at htargets
    split at htargets
    · next left op value hkind =>
      have hleft : target ∈ left := by
        split at htargets
        · contradiction
        · dsimp only at htargets
          split at htargets
          · obtain ⟨⟨target', type⟩, hmem, hsome⟩ := List.mem_filterMap.1 htargets
            split at hsome
            · obtain rfl := Option.some.inj hsome
              exact (List.of_mem_zip hmem).1
            · contradiction
          · exact (List.mem_filter.1 htargets).1
      simp [hkind, StmtKind.reads, reads_of_mem hleft hread]
    · contradiction
  · split at h <;> simp at h

theorem noticeInBranch_scopes (err : Expr) (body : Block) (frame : Frame) (app : Application) :
    Trace.wp (noticeInBranch err body) (fun body' frame' app' => Tidies watched app app' ∧
      frame.Continues frame' ∧
        Gains (err.reads transactionVariable = true ∨ frame'.Reads) (readsTransaction body.stmts)
          (readsTransaction body'.stmts)) frame app := by
  unfold noticeInBranch
  split
  · exact ⟨.refl, .refl, .refl⟩
  · simp only [Trace.transaction, Trace.wp_bind, Trace.wp_modifyGet]
    split
    · exact ⟨.refl, .transaction frame, .refl⟩
    · next txn htxn =>
      rw [Trace.wp_pure]
      refine ⟨.refl, .transaction frame, fun hreads => ?_⟩
      have hnotice : (noticeError err txn).kind.reads transactionVariable =
          (txn.reads transactionVariable || err.reads transactionVariable) := by
        simp [noticeError, Stmt.expr, StmtKind.reads, methodCall, bare]
      rw [readsTransaction, readsInStmts_eq_any, List.any_cons, hnotice, ← readsInStmts_eq_any,
        Bool.or_eq_true, Bool.or_eq_true] at hreads
      rcases hreads with (hreads | hreads) | hreads
      · exact .inr (.inr (reads_transaction htxn hreads))
      · exact .inr (.inl hreads)
      · exact .inl hreads

theorem noticeInNext_scopes (err : Expr) (stmt : Stmt) (frame : Frame) (app : Application) :
    Trace.wp (noticeInNext err stmt) (fun stmt' frame' app' => Tidies watched app app' ∧
      frame.Continues frame' ∧
        Gains (err.reads transactionVariable = true ∨ frame'.Reads)
          (stmt.kind.reads transactionVariable) (stmt'.kind.reads transactionVariable)) frame
      app := by
  have hattach : ∀ advisory, Trace.wp (Trace.attach advisory stmt) (fun stmt' frame' app' =>
      Tidies watched app app' ∧ frame.Continues frame' ∧
        Gains (err.reads transactionVariable = true ∨ frame'.Reads)
          (stmt.kind.reads transactionVariable) (stmt'.kind.reads transactionVariable)) frame app :=
    fun advisory => Trace.wp_attach fun decs console _ => ⟨.console app console, .refl, .refl⟩
  unfold noticeInNext
  split
  · next test body alternative hkind =>
    split
    · rw [Trace.wp_bind]
      refine (noticeInBranch_scopes watched err body frame app).mono fun body' frame' app' h => ?_
      refine ⟨h.1, h.2.1, ?_⟩
      rw [hkind]
      exact gains_cond .refl .refl h.2.2 .refl
    · split
      · exact hattach .expectedError
      · exact ⟨.refl, .refl, .refl⟩
  · split
    · exact hattach .unknownError
    · exact ⟨.refl, .refl, .refl⟩
  · exact ⟨.refl, .refl, .refl⟩

theorem noticeErrors_scopes (cursor : Cursor) (frame : Frame) (app : Application) :
    Trace.wp (noticeErrors cursor) (CursorScopes watched cursor frame app) frame app := by
  unfold noticeErrors
  rw [Trace.wp_bind, Trace.wp_types]
  split
  · next init test body alternative hkind =>
    split
    · next err hbound =>
      split
      · obtain ⟨stmt, hinit, hcaught⟩ := Option.bind_eq_some_iff.1 hbound
        rw [Trace.wp_bind]
        refine (noticeInBranch_scopes watched err body frame app).mono fun body' frame' app' h => ?_
        refine ((Scopes.refl.tidy h.1).reframe h.2.1).replace fun hmain hreads => ?_
        have hgains : Gains (err.reads transactionVariable = true ∨ frame'.Reads)
            ((StmtKind.cond init test body alternative).reads transactionVariable)
            ((StmtKind.cond init test body' alternative).reads transactionVariable) :=
          gains_cond .refl .refl h.2.2 .refl
        rw [← hkind] at hgains
        rcases hgains hreads with hcurrent | herr | hframe
        · exact .inl hcurrent
        · have hstmt := reads_of_caughtError? hcaught herr
          left
          cases stmt
          simpa [hkind, StmtKind.reads_cond, hinit, readsInOptional] using .inl hstmt
        · exact .inr hframe
      · exact .refl
    · exact .refl
  · split
    · exact .refl
    · rw [Trace.wp_bind]
      refine Trace.wp_attach fun decs console _ => ?_
      exact (Scopes.refl.dress decs).tidy (.console app console)
    · next err hcaught =>
      split
      · exact .refl
      · next next rest hrest =>
        rw [Trace.wp_bind]
        refine (noticeInNext_scopes watched err next frame app).mono fun next' frame' app' h => ?_
        refine ((Scopes.refl.tidy h.1).reframe h.2.1).retail fun hmain hreads => ?_
        have hsplit : next'.kind.reads transactionVariable = true ∨
            readsTransaction rest = true := by
          simpa [readsInStmts_eq_any] using hreads
        have hbehind : next.kind.reads transactionVariable = true ∨ readsTransaction rest = true →
            readsTransaction cursor.toList = true := by
          intro hor
          have htail : readsTransaction cursor.rest = true := by
            rw [hrest, readsTransaction, readsInStmts_eq_any, List.any_cons, ← readsInStmts_eq_any,
              Bool.or_eq_true]
            exact hor
          simp [reads_toList, htail]
        rcases hsplit with hnext | htail
        · obtain hold | herr | hframe := h.2.2 hnext
          · exact .inl (hbehind (.inl hold))
          · exact .inl (reads_of_current (reads_of_caughtError? hcaught herr))
          · exact .inr hframe
        · exact .inl (hbehind (.inr htail))

end TraceWeave.Tracing
