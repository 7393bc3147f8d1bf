import TraceWeave.Proofs.Tracing.Serving

/-!
The detectors of the walk in a function that a transaction was passed to.

They come after the calls of the statement have been offered.  What they insert calls nothing of
the application but what the statement calls, and what they change are calls of libraries, so
that all calls in front and in the statement itself stay served (`KeepsServed`).
-/

namespace TraceWeave.Tracing

open TraceWeave.Agent TraceWeave.Detect TraceWeave.Program TraceWeave.Syntax TraceWeave.Types

/-! ## Lists -/

/-- The calls that a walk through a list offers are served. -/
def ServedStmts (app : Application) (stmts : List Stmt) : Prop :=
  ∀ call, Walked stmts call → Served app call

section

variable {app : Application} {stmts stmts' : List Stmt} {stmt : Stmt}

theorem servedStmts_iff : ServedStmts app stmts ↔ ∀ stmt ∈ stmts,
    (∀ call ∈ stmt.kind.offered, Served app call) ∧
      ∀ block ∈ stmt.kind.blocks, ServedStmts app block := by
  constructor
  · intro h stmt hstmt
    exact ⟨fun call hcall => h call (.offered hstmt hcall),
      fun block hblock call hcall => h call (.inside hstmt hblock hcall)⟩
  · intro h call hcall
    cases hcall with
    | offered hstmt hcall => exact (h _ hstmt).1 call hcall
    | inside hstmt hblock hcall => exact (h _ hstmt).2 _ hblock call hcall

theorem ServedStmts.mono (h : ServedStmts app stmts) (hsubset : stmts' ⊆ stmts) :
    ServedStmts app stmts' :=
  servedStmts_iff.2 fun stmt hstmt => servedStmts_iff.1 h stmt (hsubset hstmt)

theorem servedStmts_append : ServedStmts app (stmts ++ stmts') ↔
    ServedStmts app stmts ∧ ServedStmts app stmts' := by
  rw [servedStmts_iff, servedStmts_iff, servedStmts_iff, List.forall_mem_append]

theorem servedStmts_cons : ServedStmts app (stmt :: stmts) ↔
    ServedStmts app [stmt] ∧ ServedStmts app stmts :=
  @servedStmts_append app [stmt] stmts

theorem servedStmts_nil : ServedStmts app [] := servedStmts_iff.2 (List.forall_mem_nil _)

theorem ServedStmts.grows {app' : Application} (h : ServedStmts app stmts)
    (hdiffer : app.PlacesDiffer) (hgrows : Grows app app') : ServedStmts app' stmts :=
  fun call hcall => (h call hcall).grows hdiffer hgrows

/-- A statement without blocks whose written calls are among served ones. -/
theorem servedStmts_of_writtenAmong {calls : List Call} (hblocks : stmt.kind.blocks = [])
    (hamong : WrittenAmong calls stmt.kind.openCalls) (hcalls : ∀ call ∈ calls, Served app call) :
    ServedStmts app [stmt] := by
  rw [servedStmts_iff, List.forall_mem_singleton, hblocks]
  refine ⟨fun call hcall => ?_, List.forall_mem_nil _⟩
  exact served_of_writtenAmong hamong hcalls call (stmt.kind.offered_subset hcall)

end

/-! ## Cursors -/

/-- What a walk has offered so far is served, the calls of the current statement itself included. -/
structure Serves (app : Application) (cursor : Cursor) : Prop where
  placesDiffer : app.PlacesDiffer
  apart : Apart app
  before : ServedStmts app cursor.before
  after : ServedStmts app cursor.after
  current : ∀ call ∈ cursor.current.kind.offered, Served app call

/-- The function keeps its transaction, and what is served stays so. -/
structure KeepsServed (cursor : Cursor) (frame : Frame) (app : Application) (cursor' : Cursor)
    (frame' : Frame) (app' : Application) : Prop where
  inMain : frame'.inMain = frame.inMain
  carrier : frame'.carrier = frame.carrier
  serves : Serves app cursor → Serves app' cursor'

namespace KeepsServed

variable {cursor cursor' : Cursor} {frame frame' frame'' : Frame} {app app' app'' : Application}

theorem refl : KeepsServed cursor frame app cursor frame app := ⟨rfl, rfl, id⟩

variable (h : KeepsServed cursor frame app cursor' frame' app')

include h

theorem reframe (hmain : frame''.inMain = frame'.inMain) (hcarrier : frame''.carrier = frame'.carrier) :
    KeepsServed cursor frame app cursor' frame'' app' :=
  ⟨hmain.trans h.inMain, hcarrier.trans h.carrier, h.serves⟩

theorem declare (name : String) : KeepsServed cursor frame app cursor' (frame'.declare name) app' := by
  refine h.reframe ?_ ?_ <;> (unfold Frame.declare; split <;> rfl)

theorem grows (hgrows : app'.PlacesDiffer → Grows app' app'') :
    KeepsServed cursor frame app cursor' frame' app'' :=
  ⟨h.inMain, h.carrier, fun hserves =>
    have hserves' := h.serves hserves
    have hgrows := hgrows hserves'.placesDiffer
    { placesDiffer := placesDiffer_of_outline hgrows.outline hserves'.placesDiffer
      apart := apart_of_outline hgrows.outline hserves'.apart
      before := hserves'.before.grows hserves'.placesDiffer hgrows
      after := hserves'.after.grows hserves'.placesDiffer hgrows
      current := fun call hcall => (hserves'.current call hcall).grows hserves'.placesDiffer hgrows }⟩

theorem needImport (package path : String) :
    KeepsServed cursor frame app cursor' frame' (app'.needImport package path) :=
  h.grows fun _ => .needImport app' package path

theorem console (console : Console) :
    KeepsServed cursor frame app cursor' frame' { app' with console } :=
  h.grows fun _ => .console app' console

theorem replace {stmt : Stmt} (hstmt : Apart app' →
    (∀ call ∈ cursor'.current.kind.offered, Served app' call) →
      ∀ call ∈ stmt.kind.offered, Served app' call) :
    KeepsServed cursor frame app (cursor'.replace stmt) frame' app' :=
  ⟨h.inMain, h.carrier, fun hserves =>
    have hserves' := h.serves hserves
    { hserves' with current := hstmt hserves'.apart hserves'.current }⟩

/-- A change of the decorations of the current statement. -/
theorem redress (decs : Decorations) :
    KeepsServed cursor frame app (cursor'.replace { cursor'.current with decs }) frame' app' :=
  h.replace fun _ => id

/-- A statement in front that calls nothing but what the current one calls. -/
theorem insertBefore {stmt : Stmt} (hblocks : stmt.kind.blocks = [])
    (hstmt : WrittenAmong cursor'.current.kind.offered stmt.kind.openCalls) :
    KeepsServed cursor frame app (cursor'.insertBefore stmt) frame' app' :=
  ⟨h.inMain, h.carrier, fun hserves =>
    have hserves' := h.serves hserves
    have hserved := servedStmts_of_writtenAmong hblocks hstmt hserves'.current
    { hserves' with before := servedStmts_cons.2 ⟨hserved, hserves'.before⟩ }⟩

theorem insertAfter {stmt : Stmt} (hblocks : stmt.kind.blocks = [])
    (hstmt : WrittenAmong cursor'.current.kind.offered stmt.kind.openCalls) :
    KeepsServed cursor frame app (cursor'.insertAfter stmt) frame' app' :=
  ⟨h.inMain, h.carrier, fun hserves =>
    have hserves' := h.serves hserves
    have hserved := servedStmts_of_writtenAmong hblocks hstmt hserves'.current
    { hserves' with after := servedStmts_append.2 ⟨hserves'.after, hserved⟩ }⟩

/-- A statement in front takes over the lead of the current one. -/
theorem surround {first : Stmt} (last : Stmt) (hblocks : first.kind.blocks = [])
    (hfirst : WrittenAmong cursor'.current.kind.offered first.kind.openCalls) :
    KeepsServed cursor frame app
      ((cursor'.replace (Agent.surround first cursor'.current last).2.1).insertBefore
        (Agent.surround first cursor'.current last).1) frame' app' :=
  (h.redress _).insertBefore hblocks hfirst

theorem retail (rest : List Stmt) : KeepsServed cursor frame app { cursor' with rest } frame' app' :=
  ⟨h.inMain, h.carrier, fun hserves => { h.serves hserves with }⟩

end KeepsServed

theorem Frame.transaction_keeps (frame : Frame) :
    frame.transaction.2.inMain = frame.inMain ∧ frame.transaction.2.carrier = frame.carrier := by
  unfold Frame.transaction
  split <;> exact ⟨rfl, rfl⟩

theorem keepsServed_transaction (cursor : Cursor) (frame : Frame) (app : Application) :
    KeepsServed cursor frame app cursor frame.transaction.2 app :=
  KeepsServed.refl.reframe frame.transaction_keeps.1 frame.transaction_keeps.2

theorem keepsServed_application (cursor : Cursor) (frame : Frame) (app : Application) :
    KeepsServed cursor frame app cursor frame.application.2 app := by
  unfold Frame.application
  split
  · exact .refl
  · split
    · exact KeepsServed.refl.reframe rfl rfl
    · exact .refl

/-! ## Calls of libraries -/

section

variable {app : Application} {call call' : Call}

/-- The arguments of a call of a library are passed on inside the hook. -/
theorem Hooks.writtenAmong {info : Info} (h : Hooks info call call') :
    WrittenAmong (openCallsOfExprs call.args) (openCallsOfExprs call'.args) := by
  have hold : ∀ expr ∈ call.args, WrittenAmong (openCallsOfExprs call.args) expr.openCalls :=
    fun expr hexpr inner hinner _ => mem_openCallsOfExprs.2 ⟨expr, hexpr, hinner⟩
  have hoption : ∀ (grpc option : String) {interceptor : Expr},
      WrittenAmong (openCallsOfExprs call.args) interceptor.openCalls →
        WrittenAmong (openCallsOfExprs call.args)
          (interceptorOption grpc option interceptor).openCalls :=
    fun grpc option _ hinterceptor => .member .nil (List.forall_mem_singleton.2 hinterceptor)
  cases h with
  | handler _ hagent hwrap =>
      unfold wrapHandler? at hwrap
      split at hwrap
      · next pattern handler hpair =>
        split at hwrap
        · contradiction
        · obtain rfl := Option.some.inj hwrap
          refine .exprs (List.forall_mem_singleton.2 ?_)
          rw [Expr.openCalls_redecorate]
          refine .member .nil ?_
          simp only [List.forall_mem_cons, Expr.openCalls_redecorate]
          exact ⟨hagent.writtenAmong, hold pattern (by simp [hpair]), hold handler (by simp [hpair]),
            List.forall_mem_nil _⟩
      · contradiction
  | client _ =>
      exact writtenAmong_addArg (writtenAmong_addArg .refl (hoption _ _ .nil)) (hoption _ _ .nil)
  | server _ hagent =>
      have hcall : ∀ name, WrittenAmong (openCallsOfExprs call.args)
          (Expr.call (.qualified "nrgrpc" name) [_]).openCalls := fun name =>
        .member .nil (List.forall_mem_singleton.2 hagent.writtenAmong)
      exact writtenAmong_addArg (writtenAmong_addArg .refl (hoption _ _ (hcall _)))
        (hoption _ _ (hcall _))
  | logger _ hagent =>
      unfold wrapFirstArg
      split
      · exact .refl
      · next handler args hcons =>
        refine .exprs (List.forall_mem_cons.2 ⟨?_, fun expr hexpr => hold expr (by simp [hcons, hexpr])⟩)
        rw [Expr.openCalls_redecorate]
        refine .member .nil (List.forall_mem_cons.2 ⟨hagent.writtenAmong, ?_⟩)
        rw [List.forall_mem_singleton, bare, Expr.openCalls_redecorate]
        exact hold handler (by simp [hcons])

theorem Hooks.served (h : Hooks app.types call call') (hapart : Apart app) : Served app call' := by
  obtain ⟨callee, hcallee, hmem, -⟩ := h.package
  refine .of_library hapart ?_ hmem
  rw [← hcallee]
  unfold Info.callee?
  rw [h.callee_eq]

/-- The open calls of the primary call are the last ones of a statement. -/
theorem openCalls_mapPrimaryCall {stmt : Stmt} (hcall : primaryCall? stmt = some call)
    (f : Call → Call) : ∃ front,
      stmt.kind.offered = front ++ (⟨.call call, {}⟩ : Expr).openCalls ∧
        (mapPrimaryCall f stmt).kind.offered = front ++ (⟨.call (f call), {}⟩ : Expr).openCalls := by
  unfold primaryCall? at hcall
  unfold mapPrimaryCall
  split at hcall
  · next left op value hkind =>
    rw [hkind, eq_of_call? hcall]
    refine ⟨openCallsOfExprs left, ?_, ?_⟩ <;>
      simp [StmtKind.offered, StmtKind.openCalls, openCallsOfExprs, Expr.mapCall, Expr.openCalls_call]
  · next value hkind =>
    rw [hkind, eq_of_call? hcall]
    refine ⟨[], ?_, ?_⟩ <;>
      simp [StmtKind.offered, StmtKind.openCalls, Expr.mapCall, Expr.openCalls_call]
  · contradiction

theorem Hooks.served_mapPrimaryCall {stmt : Stmt} (hcall : primaryCall? stmt = some call)
    (hooks : Hooks app.types call call') (hapart : Apart app)
    (hserved : ∀ call ∈ stmt.kind.offered, Served app call) :
    ∀ call ∈ (mapPrimaryCall (fun _ => call') stmt).kind.offered, Served app call := by
  obtain ⟨front, hold, hnew⟩ := openCalls_mapPrimaryCall hcall fun _ => call'
  rw [hold, Expr.openCalls_call] at hserved
  rw [hnew, Expr.openCalls_call, hooks.callee_eq]
  simp only [List.forall_mem_append, List.forall_mem_singleton] at hserved ⊢
  obtain ⟨hfront, ⟨hcallee, hargs⟩, -⟩ := hserved
  exact ⟨hfront, ⟨hcallee, served_of_writtenAmong hooks.writtenAmong hargs⟩, hooks.served hapart⟩

/-- A call that stays as it is or gets a hook. -/
def MayHook (info : Info) (call call' : Call) : Prop := call' = call ∨ Hooks info call call'

theorem mayHook_ite {info : Info} {test : Bool} (hooks : test = true → Hooks info call call') :
    MayHook info call (if test then call' else call) := by
  cases test with
  | true => exact .inr (hooks rfl)
  | false => exact .inl rfl

section

variable {f : Call → Call} (hf : ∀ call, MayHook app.types call (f call))

include hf

theorem mayHook_visitsOpen : VisitsOpen Threaded.ofId (fun call => (pure (f call) : Id Call))
    (CallAlike app.types) (fun _ => True) := by
  have follows : (Edits.calls false fun call => (pure (f call) : Id Call)).Follows Threaded.ofId
      (alikeVisits app.types fun _ => True) := by
    refine ⟨fun call decs s => ?_, fun ident decs s => .inr rfl⟩
    obtain hsame | hooks := hf call
    · exact .inr (Prod.ext hsame rfl)
    · exact .inl fun _ => ⟨trivial, hooks.alike decs⟩
  refine ⟨fun _ _ => id, fun callee args spread closesLine _ _ =>
    callAlike_edit follows callee args spread closesLine, fun call _ => ?_, fun call _ => ?_⟩
  · obtain hsame | hooks := hf call
    · exact congrArg Call.callee hsame
    · exact hooks.callee_eq
  · show WrittenAmong _ (openCallsOfExprs (f call).args)
    obtain hsame | hooks := hf call
    · rw [hsame]
      exact .refl
    · exact hooks.writtenAmong

theorem served_of_mayHook {calls calls' : List Call} {s s' : Unit} (hapart : Apart app)
    (h : Offers Threaded.ofId (fun call => (pure (f call) : Id Call)) (CallAlike app.types)
      (fun _ => True) calls s calls' s')
    (hcalls : ∀ call ∈ calls, Served app call) : ∀ call ∈ calls', Served app call := by
  obtain ⟨-, results, hvisited, hamong⟩ := h trivial
  refine served_of_writtenAmong hamong (hvisited.brings (fun _ => True) (Served app)
    (fun _ => Served app) trivial hcalls (fun halike hserved => hserved.alike halike)
    fun {_ call} _ hserved => ?_).1
  refine ⟨trivial, ?_, fun _ => id⟩
  show Served app (f call)
  obtain hsame | hooks := hf call
  · rwa [hsame]
  · exact hooks.served hapart

theorem served_mapOwnCalls (hapart : Apart app) {stmt : Stmt}
    (hserved : ∀ call ∈ stmt.kind.offered, Served app call) :
    ∀ call ∈ (mapOwnCalls false f stmt).kind.offered, Served app call := by
  have visits := mayHook_visitsOpen hf
  obtain ⟨kind, decs⟩ := stmt
  cases kind with
  | spawn value =>
      obtain ⟨value, valueDecs⟩ := value
      cases value with
      | call call =>
          obtain ⟨callee, args, spread, closesLine⟩ := call
          have hargs := editExprs_offers visits args ()
          have hall := @Offers.call _ _ _ _ _ _ _ _ [] _ _ _ _ hargs visits fun _ =>
            visits.inside callee args spread closesLine () () trivial trivial
          exact served_of_mayHook hf hapart hall hserved
      | func params results body =>
          obtain ⟨stmts, trailing, inline⟩ := body
          exact List.forall_mem_nil _
      | _ => exact List.forall_mem_nil _
  | _ =>
      intro call hmem
      exact served_of_mayHook hf hapart (StmtKind.edit_offers visits _ ()) hserved call
        (StmtKind.offered_subset _ hmem)

end

end

/-! ## Detectors -/

theorem wrapRegistration_keepsServed (cursor : Cursor) (frame : Frame) (app : Application) :
    Trace.wp (wrapRegistration cursor) (KeepsServed cursor frame app) frame app := by
  unfold wrapRegistration
  split
  · exact .refl
  · next call hcall =>
    split
    · exact .refl
    · simp only [Trace.wp_bind, Trace.wp_types]
      split
      · exact .refl
      · next hregistration =>
        simp only [Trace.application, Trace.wp_bind, Trace.wp_modifyGet]
        have hused := keepsServed_application cursor frame app
        split
        · exact hused
        · next agent hagent =>
          split
          · exact hused
          · next wrapped hwrapped =>
            have hooks : Hooks app.types call wrapped :=
              .handler (by simpa using hregistration) (application_isAgent hagent) hwrapped
            have hwrap : KeepsServed cursor frame app
                (cursor.modify (mapPrimaryCall fun _ => wrapped)) frame.application.2 app :=
              hused.replace (hooks.served_mapPrimaryCall hcall)
            simp only [Trace.wp_bind, Trace.wp_needImport]
            split
            · rw [Trace.wp_bind]
              exact Trace.wp_attach fun decs console _ =>
                ((hwrap.needImport _ _).redress decs).console console
            · exact hwrap.needImport _ _

theorem interceptServers_keepsServed (cursor : Cursor) (frame : Frame) (app : Application) :
    Trace.wp (interceptServers cursor) (KeepsServed cursor frame app) frame app := by
  unfold interceptServers
  simp only [Trace.wp_bind, Trace.wp_types]
  split
  · exact .refl
  · simp only [Trace.application, Trace.wp_bind, Trace.wp_modifyGet]
    split
    · exact keepsServed_application cursor frame app
    · next agent hagent =>
      simp only [Trace.wp_bind, Trace.wp_needImport, Trace.wp_pure]
      have hhooks : ∀ call, MayHook app.types call (if servesBare app.types call then
          addServerInterceptors (grpcName call) agent call else call) := fun call =>
        mayHook_ite fun hserves => .server hserves (application_isAgent hagent)
      exact ((keepsServed_application cursor frame app).replace fun hapart =>
        served_mapOwnCalls hhooks hapart).needImport _ _

theorem wrapInPlace_keepsServed (cursor : Cursor) (frame : Frame) (app : Application) :
    Trace.wp (wrapInPlace app.types cursor) (KeepsServed cursor frame app) frame app := by
  unfold wrapInPlace
  simp only [Trace.application, Trace.wp_bind, Trace.wp_modifyGet]
  split
  · exact keepsServed_application cursor frame app
  · next agent hagent =>
    simp only [Trace.wp_bind, Trace.wp_needImport, Trace.wp_pure]
    have hhooks : ∀ call, MayHook app.types call
        (if makesLogger app.types call then wrapFirstArg agent call else call) := fun call =>
      mayHook_ite fun hmakes => .logger hmakes (application_isAgent hagent)
    exact ((keepsServed_application cursor frame app).replace fun hapart =>
      served_mapOwnCalls hhooks hapart).needImport _ _

/-! ### Statements that come in -/

section

variable {calls : List Call}

theorem blocks_bindVariable (name : String) (value : Expr) (declared : Bool) :
    (bindVariable name value declared).kind.blocks = [] := by
  cases declared <;> simp [bindVariable, Stmt.define, Stmt.assign, StmtKind.blocks]

theorem writtenAmong_bindVariable {name : String} {value : Expr} (declared : Bool)
    (hvalue : WrittenAmong calls value.openCalls) :
    WrittenAmong calls (bindVariable name value declared).kind.openCalls := by
  have hcalls : (bindVariable name value declared).kind.openCalls = value.openCalls := by
    cases declared <;>
      simp [bindVariable, Stmt.define, Stmt.assign, StmtKind.openCalls, openCallsOfExprs,
        Expr.ident, Expr.openCalls, ExprKind.openCalls]
  rwa [hcalls]

end

theorem wrapBound_keepsServed (handler : String) (cursor : Cursor) (frame : Frame)
    (app : Application) :
    Trace.wp (wrapBound handler cursor) (KeepsServed cursor frame app) frame app := by
  unfold wrapBound
  simp only [Trace.application, Trace.wp_bind, Trace.wp_modifyGet]
  have hused := keepsServed_application cursor frame app
  split
  · exact hused
  · next agent hagent =>
    simp only [Trace.wp_bind, Trace.wp_get, Trace.wp_modifyGet, Trace.wp_needImport, Trace.wp_pure]
    generalize (if frame.application.2.isDeclared logHandlerVariable then
      logHandlerVariable ++ toString cursor.index else logHandlerVariable) = target
    have himported := (hused.declare target).needImport
      (frame.application.2.declare target).package Path.nrslog
    refine ((himported.redress cursor.current.decs.withoutAfter).retail
      (renameIn handler target cursor.rest)).insertAfter (blocks_bindVariable ..)
      (writtenAmong_bindVariable _ ?_)
    exact .member .nil (List.forall_mem_cons.2
      ⟨(application_isAgent hagent).writtenAmong, List.forall_mem_singleton.2 .nil⟩)

theorem wrapHandlers_keepsServed (cursor : Cursor) (frame : Frame) (app : Application) :
    Trace.wp (wrapHandlers cursor) (KeepsServed cursor frame app) frame app := by
  unfold wrapHandlers
  simp only [Trace.wp_bind, Trace.wp_types]
  split
  · exact wrapInPlace_keepsServed cursor frame app
  · split
    · split
      · exact .refl
      · split
        · exact .refl
        · exact wrapBound_keepsServed _ cursor frame app
    · exact .refl

theorem installMiddleware_keepsServed (cursor : Cursor) (frame : Frame) (app : Application) :
    Trace.wp (installMiddleware cursor) (KeepsServed cursor frame app) frame app := by
  unfold installMiddleware
  split
  case h_2 => exact .refl
  case h_1 router op value hkind =>
    simp only [Trace.wp_bind, Trace.wp_types]
    split
    · exact .refl
    · next path hpath =>
      split
      · exact .refl
      · next hrouter =>
        simp only [Trace.application, Trace.wp_bind, Trace.wp_modifyGet]
        have hused := keepsServed_application cursor frame app
        split
        · exact hused
        · next agent hagent =>
          simp only [Trace.wp_bind, Trace.wp_needImport, Trace.wp_pure]
          have hrouter' : (bare router).openCalls = [] := by
            obtain ⟨kind, decs⟩ := router
            cases kind <;> simp_all [Expr.ident?, bare, Expr.openCalls, ExprKind.openCalls]
          refine ((hused.needImport _ _).redress cursor.current.decs.withoutAfter).insertAfter
            (by simp [useMiddleware, Stmt.expr, StmtKind.blocks]) ?_
          refine .member (hrouter' ▸ .nil) (List.forall_mem_singleton.2 ?_)
          exact .member .nil (List.forall_mem_singleton.2 (application_isAgent hagent).writtenAmong)

/-! ### Requests -/

/-- The request of a call is an argument of it. -/
theorem writtenAmong_primaryCall {stmt : Stmt} {call : Call} {req : Expr}
    (hcall : primaryCall? stmt = some call) (hreq : req ∈ call.args) :
    WrittenAmong stmt.kind.offered (bare req).openCalls := by
  obtain ⟨front, hoffered, -⟩ := openCalls_mapPrimaryCall hcall id
  rw [hoffered, bare, Expr.openCalls_redecorate, Expr.openCalls_call]
  intro inner hinner _
  have hargs := mem_openCallsOfExprs.2 ⟨req, hreq, hinner⟩
  simp [hargs]

theorem segmentRequest_keepsServed {req : Expr} (cursor : Cursor) (frame : Frame) (app : Application)
    (hreq : WrittenAmong cursor.current.kind.offered req.openCalls) :
    Trace.wp (segmentRequest req cursor) (KeepsServed cursor frame app) frame app := by
  unfold segmentRequest
  split
  · exact .refl
  · simp only [Trace.transaction, Trace.wp_bind, Trace.wp_modifyGet]
    have hused := keepsServed_transaction cursor frame app
    split
    · exact hused
    · next txn htxn =>
      simp only [Trace.wp_bind, Trace.wp_get, Trace.wp_modify, Trace.wp_needImport, Trace.wp_pure]
      rw [transaction_isVariable htxn]
      have hdeclared := (hused.declare externalSegmentVariable).needImport
        (frame.transaction.2.declare externalSegmentVariable).package Path.newrelic
      have hstart : ∀ declared, WrittenAmong cursor.current.kind.offered (startExternalSegment
          (.ident frame.txn) req externalSegmentVariable declared).kind.openCalls := fun declared =>
        writtenAmong_bindVariable declared (.member .nil (List.forall_mem_cons.2
          ⟨.nil, List.forall_mem_singleton.2 hreq⟩))
      have hending : WrittenAmong cursor.current.kind.offered
          (endExternalSegment externalSegmentVariable).kind.openCalls :=
        .member .nil (List.forall_mem_nil _)
      have hsimple : ∀ value : Expr, (StmtKind.expr value).blocks = [] := by simp [StmtKind.blocks]
      have hsurrounded := fun declared => hdeclared.surround
        (endExternalSegment externalSegmentVariable) (blocks_bindVariable ..) (hstart declared)
      cases responseName? cursor.current with
      | none => exact (hsurrounded _).insertAfter (hsimple _) hending
      | some name =>
          refine ((hsurrounded _).insertAfter ?_ ?_).insertAfter (hsimple _) hending
          · simp [captureResponse, Stmt.assign, StmtKind.blocks]
          · exact .nil

theorem attachToRequest_keepsServed {req : Expr} (cursor : Cursor) (frame : Frame)
    (app : Application) (hreq : WrittenAmong cursor.current.kind.offered req.openCalls) :
    Trace.wp (attachToRequest req cursor) (KeepsServed cursor frame app) frame app := by
  unfold attachToRequest
  split
  · exact .refl
  · simp only [Trace.transaction, Trace.wp_bind, Trace.wp_modifyGet]
    have hused := keepsServed_transaction cursor frame app
    split
    · exact hused
    · next txn htxn =>
      simp only [Trace.wp_bind, Trace.wp_needImport, Trace.wp_pure]
      rw [transaction_isVariable htxn]
      refine ((hused.needImport _ _).redress cursor.current.decs.withoutLead).insertBefore
        (by simp [wrapRequest, Stmt.assign, StmtKind.blocks]) ?_
      have hcall : WrittenAmong cursor.current.kind.offered
          (Expr.call (newrelic "RequestWithTransactionContext") [req, .ident frame.txn]).openCalls :=
        .member .nil (List.forall_mem_cons.2 ⟨hreq, List.forall_mem_singleton.2 .nil⟩)
      exact .of_append (.exprs (List.forall_mem_singleton.2 hreq))
        (.exprs (List.forall_mem_singleton.2 hcall))

theorem traceRequest_keepsServed (cursor : Cursor) (frame : Frame) (app : Application) :
    Trace.wp (traceRequest cursor) (KeepsServed cursor frame app) frame app := by
  unfold traceRequest
  simp only [Trace.wp_bind, Trace.wp_get]
  split
  · exact .refl
  · simp only [Trace.wp_bind, Trace.wp_types]
    split
    · exact .refl
    · next call hcall =>
      split
      · exact .refl
      · split
        · exact .refl
        · next req hreq =>
          have hamong := writtenAmong_primaryCall hcall (List.mem_of_mem_head? hreq)
          split
          · exact segmentRequest_keepsServed cursor frame app hamong
          · exact attachToRequest_keepsServed cursor frame app hamong

/-! ### Errors and queries -/

theorem traceQuery_keepsServed (cursor : Cursor) {frame : Frame} (app : Application)
    (hmain : frame.inMain = false) :
    Trace.wp (traceQuery cursor) (KeepsServed cursor frame app) frame app := by
  unfold traceQuery
  simp only [Trace.wp_bind, Trace.wp_get, Trace.wp_types, hmain, Bool.not_false, if_true]
  exact .refl

theorem noticeInBranch_keeps (err : Expr) (body : Block) (frame : Frame) (app : Application) :
    Trace.wp (noticeInBranch err body) (fun _ frame' app' =>
      frame'.inMain = frame.inMain ∧ frame'.carrier = frame.carrier ∧ app' = app) frame app := by
  unfold noticeInBranch
  split
  · exact ⟨rfl, rfl, rfl⟩
  · obtain ⟨hmain, hcarrier⟩ := frame.transaction_keeps
    simp only [Trace.transaction, Trace.wp_bind, Trace.wp_modifyGet]
    split <;> exact ⟨hmain, hcarrier, rfl⟩

theorem noticeInNext_keeps (err : Expr) (stmt : Stmt) (frame : Frame) (app : Application) :
    Trace.wp (noticeInNext err stmt) (fun _ frame' app' =>
      frame'.inMain = frame.inMain ∧ frame'.carrier = frame.carrier ∧ Grows app app') frame app := by
  have hattach : ∀ advisory, Trace.wp (Trace.attach advisory stmt) (fun _ frame' app' =>
      frame'.inMain = frame.inMain ∧ frame'.carrier = frame.carrier ∧ Grows app app') frame app :=
    fun advisory => Trace.wp_attach fun decs console _ => ⟨rfl, rfl, .console app console⟩
  unfold noticeInNext
  split
  · next test body alternative hkind =>
    split
    · rw [Trace.wp_bind]
      refine (noticeInBranch_keeps err body frame app).mono fun _ frame' app' h => ?_
      obtain ⟨hmain, hcarrier, rfl⟩ := h
      exact ⟨hmain, hcarrier, .refl⟩
    · split
      · exact hattach .expectedError
      · exact ⟨rfl, rfl, .refl⟩
  · split
    · exact hattach .unknownError
    · exact ⟨rfl, rfl, .refl⟩
  · exact ⟨rfl, rfl, .refl⟩

theorem offered_cond (init : Option Stmt) (test : Expr) (body : Block) (alternative : Option Stmt) :
    (StmtKind.cond init test body alternative).offered =
      (init.map (·.kind.openCalls)).getD [] ++ test.openCalls := by
  rcases init with _ | ⟨kind, decs⟩ <;> rfl

/-- Errors are reported inside blocks, which are still to be walked through. -/
theorem noticeErrors_keepsServed (cursor : Cursor) (frame : Frame) (app : Application) :
    Trace.wp (noticeErrors cursor) (KeepsServed cursor frame app) frame app := by
  unfold noticeErrors
  rw [Trace.wp_bind, Trace.wp_types]
  split
  · next init test body alternative hkind =>
    split
    · next err _ =>
      split
      · rw [Trace.wp_bind]
        refine (noticeInBranch_keeps err body frame app).mono fun body' frame' app' h => ?_
        obtain ⟨hmain, hcarrier, rfl⟩ := h
        refine (KeepsServed.refl.reframe hmain hcarrier).replace fun _ hserved => ?_
        rw [hkind, offered_cond] at hserved
        rwa [offered_cond]
      · exact .refl
    · exact .refl
  · split
    · exact .refl
    · rw [Trace.wp_bind]
      exact Trace.wp_attach fun decs console _ => (KeepsServed.refl.redress decs).console console
    · next err _ =>
      split
      · exact .refl
      · next next rest hrest =>
        rw [Trace.wp_bind]
        refine (noticeInNext_keeps err next frame app).mono fun next' frame' app' h => ?_
        obtain ⟨hmain, hcarrier, hgrows⟩ := h
        exact ((KeepsServed.refl.reframe hmain hcarrier).grows fun _ => hgrows).retail (next' :: rest)

/-! ### Goroutines -/

/-- A spawned literal is no function of the application, and its arguments alone are offered. -/
theorem SpawnedLiteral.writtenAmong {calls : List Call} {literal : SpawnedLiteral}
    (h : WrittenAmong calls (openCallsOfExprs literal.call.args)) :
    WrittenAmong calls literal.kind.offered :=
  h.of_append (.unwritten rfl)

theorem handTransaction_writtenAmong (literal : SpawnedLiteral) (frame : Frame) (app : Application) :
    Trace.wp (handTransaction literal) (fun result frame' app' =>
      (frame'.inMain = frame.inMain ∧ frame'.carrier = frame.carrier ∧ Grows app app') ∧
        ∀ literal' name, result = some (literal', name) → WrittenAmong
          (openCallsOfExprs literal.call.args) (openCallsOfExprs literal'.call.args)) frame app := by
  obtain ⟨hmain, hcarrier⟩ := frame.transaction_keeps
  unfold handTransaction
  simp only [Trace.wp_bind, Trace.wp_types]
  split
  · refine ⟨⟨rfl, rfl, .refl⟩, fun literal' name hresult => ?_⟩
    obtain ⟨rfl, -⟩ := Prod.mk.inj (Option.some.inj hresult)
    exact .refl
  · simp only [Trace.transaction, Trace.wp_bind, Trace.wp_modifyGet]
    split
    · exact ⟨⟨hmain, hcarrier, .refl⟩, fun _ _ hresult => nomatch hresult⟩
    · next txn htxn =>
      simp only [Trace.wp_bind, Trace.wp_needImport, Trace.wp_pure]
      rw [transaction_isVariable htxn]
      refine ⟨⟨hmain, hcarrier, .needImport _ _ _⟩, fun literal' name hresult => ?_⟩
      obtain ⟨rfl, -⟩ := Prod.mk.inj (Option.some.inj hresult)
      exact writtenAmong_addArg .refl (IsHandle.goroutine frame.txn).writtenAmong

theorem traceLiteral_keepsServed {walk : Walk} (hwalk : walk.Weaves) (cursor : Cursor)
    (frame : Frame) (app : Application) :
    Trace.wp (traceLiteral walk cursor) (KeepsServed cursor frame app) frame app := by
  unfold traceLiteral
  split
  · exact .refl
  · next literal hliteral =>
    simp only [Trace.wp_bind, Trace.wp_get]
    split
    · rw [Trace.wp_bind]
      exact Trace.wp_attach fun decs console _ => (KeepsServed.refl.redress decs).console console
    · split
      · exact .refl
      · rw [Trace.wp_bind]
        refine (handTransaction_writtenAmong literal frame app).mono ?_
        rintro result frame' app' ⟨⟨hmain, hcarrier, hgrows⟩, hhanded⟩
        have hkept : KeepsServed cursor frame app cursor frame' app' :=
          (KeepsServed.refl.reframe hmain hcarrier).grows fun _ => hgrows
        cases result with
        | none => exact hkept
        | some handed =>
            obtain ⟨literal', name⟩ := handed
            simp only [Trace.wp_bind, Trace.wp_lift, Trace.wp_run]
            have hbinds : ({ Frame.traced frame.package frame.agent (.transaction name)
                transactionVariable with segment := some "async literal" } : Frame).Binds :=
              fun _ hstmt => nomatch hstmt
            refine (traceBody_weaves hwalk literal'.body hbinds app').mono ?_
            rintro body _ app'' ⟨stmts, rfl, hweaves⟩
            refine (hkept.grows hweaves.grows).replace fun _ hserved => ?_
            rw [kind_of_spawnedLiteral? hliteral] at hserved
            exact served_of_writtenAmong (SpawnedLiteral.writtenAmong (hhanded literal' name rfl))
              fun call hcall => hserved call (List.mem_append_left _ hcall)

/-- All detectors keep what is served. -/
theorem statementDetectors_keepServed {walk : Walk} (hwalk : walk.Weaves) {detector : StatementDetector}
    (hdetector : detector ∈ statementDetectors walk) (cursor : Cursor) {frame : Frame}
    (app : Application) (hmain : frame.inMain = false) :
    Trace.wp (detector.detect cursor) (KeepsServed cursor frame app) frame app := by
  simp only [statementDetectors, List.mem_cons, List.not_mem_nil, or_false] at hdetector
  rcases hdetector with rfl | rfl | rfl | rfl | rfl | rfl | rfl
  · exact traceLiteral_keepsServed hwalk cursor frame app
  · exact wrapRegistration_keepsServed cursor frame app
  · exact traceRequest_keepsServed cursor frame app
  · exact installMiddleware_keepsServed cursor frame app
  · exact interceptServers_keepsServed cursor frame app
  · exact wrapHandlers_keepsServed cursor frame app
  · exact traceQuery_keepsServed cursor app hmain

end TraceWeave.Tracing
