import TraceWeave.Proofs.Tracing.Openings
import TraceWeave.Proofs.Tracing.Runs

/-!
The detectors that work inside the walk, as changes of the list that the cursor is on.

`Moves` relates two cursors, frames and applications: the second list is woven from the
first one, which opens no segment in it, and no statement is added to those that are still
to be visited, except one for the query that a frame may trace.
-/

namespace TraceWeave.Tracing

open TraceWeave.Agent TraceWeave.Detect TraceWeave.Program TraceWeave.Syntax TraceWeave.Types
open scoped List

/-- The number of statements that a query may still put off to a later visit. -/
def Frame.credit (frame : Frame) : Nat := if frame.queried then 0 else 1

/-- The second frame may stand for the first one later in a walk. -/
structure Frame.Precedes (frame frame' : Frame) : Prop where
  credit : frame'.credit ≤ frame.credit
  pending : frame'.pending = frame.pending ∨ frame'.pending = none
  segment : frame'.segment = frame.segment

namespace Frame.Precedes

variable {frame frame' frame'' : Frame}

theorem refl : frame.Precedes frame := ⟨Nat.le_refl _, .inl rfl, rfl⟩

theorem trans (h : frame.Precedes frame') (h' : frame'.Precedes frame'') :
    frame.Precedes frame'' := by
  refine ⟨Nat.le_trans h'.credit h.credit, ?_, h'.segment.trans h.segment⟩
  obtain hpending | hpending := h'.pending
  · rw [hpending]
    exact h.pending
  · exact .inr hpending

theorem of_eq (hqueried : frame'.queried = frame.queried)
    (hpending : frame'.pending = frame.pending) (hsegment : frame'.segment = frame.segment) :
    frame.Precedes frame' :=
  ⟨by simp only [Frame.credit, hqueried, Nat.le_refl], .inl hpending, hsegment⟩

end Frame.Precedes

structure Moves (cursor : Cursor) (frame : Frame) (app : Application) (cursor' : Cursor)
    (frame' : Frame) (app' : Application) : Prop where
  retouches : Retouches app cursor.toList app' cursor'.toList
  credit : cursor'.rest.length + frame'.credit ≤ cursor.rest.length + frame.credit
  frame : frame.Precedes frame'

namespace Moves

variable {cursor cursor' cursor'' : Cursor} {frame frame' frame'' : Frame}
  {app app' app'' : Application}

theorem weaves (h : Moves cursor frame app cursor' frame' app') :
    Weaves app cursor.toList app' cursor'.toList := h.retouches.weaves

theorem refl : Moves cursor frame app cursor frame app := ⟨.refl, Nat.le_refl _, .refl⟩

theorem trans (h : Moves cursor frame app cursor' frame' app')
    (h' : Moves cursor' frame' app' cursor'' frame'' app'') :
    Moves cursor frame app cursor'' frame'' app'' :=
  ⟨h.retouches.trans h'.retouches, Nat.le_trans h'.credit h.credit, h.frame.trans h'.frame⟩

theorem reframe (h : Moves cursor frame app cursor' frame' app')
    (hframe : frame'.Precedes frame'') : Moves cursor frame app cursor' frame'' app' := by
  have hcredit := h.credit
  have hcredit' := hframe.credit
  exact ⟨h.retouches, by omega, h.frame.trans hframe⟩

theorem needImport (h : Moves cursor frame app cursor' frame' app') (package path : String) :
    Moves cursor frame app cursor' frame' (app'.needImport package path) :=
  ⟨h.retouches.trans (.needImport package path), h.credit, h.frame⟩

theorem console (h : Moves cursor frame app cursor' frame' app') (console : Console) :
    Moves cursor frame app cursor' frame' { app' with console } :=
  ⟨h.retouches.trans (.console console), h.credit, h.frame⟩

/-- A change of the current statement. -/
theorem replace {stmt : Stmt} (h : Moves cursor frame app cursor' frame' app')
    (hstmt : ∀ front back,
      Retouches app' (front ++ cursor'.current :: back) app'' (front ++ stmt :: back)) :
    Moves cursor frame app (cursor'.replace stmt) frame' app'' := by
  refine ⟨h.retouches.trans ?_, h.credit, h.frame⟩
  rw [Cursor.toList_eq, Cursor.toList_eq]
  exact hstmt _ _

/-- New decorations of the current statement. -/
theorem dress (h : Moves cursor frame app cursor' frame' app') {decs : Decorations}
    (hdecs : cursor'.current.decs.Keeps decs) :
    Moves cursor frame app (cursor'.replace { cursor'.current with decs }) frame' app' :=
  h.replace fun front back => .dress front back hdecs

theorem insertBefore (h : Moves cursor frame app cursor' frame' app') {stmt : Stmt}
    (hplain : isDeferSegment stmt = false) (hstmt : Addition cursor'.toList stmt.kind) :
    Moves cursor frame app (cursor'.insertBefore stmt) frame' app' := by
  refine ⟨h.retouches.trans ?_, h.credit, h.frame⟩
  have hinsert : Retouches app' _ app' _ := .insert cursor'.before.reverse
    (cursor'.current :: (cursor'.after ++ cursor'.rest)) hplain (cursor'.toList_eq ▸ hstmt)
  simpa [Cursor.toList_eq, Cursor.insertBefore] using hinsert

/-- A new statement takes over the band above the current one. -/
theorem precede (h : Moves cursor frame app cursor' frame' app') {first : Stmt} {decs : Decorations}
    (hplain : isDeferSegment first = false) (hfirst : Addition cursor'.toList first.kind)
    (hlead : cursor'.current.decs.lead <+ first.decs.lead)
    (htrail : cursor'.current.decs.trail <+ decs.trail) :
    Moves cursor frame app
      ((cursor'.replace { cursor'.current with decs }).insertBefore first) frame' app' := by
  refine ⟨h.retouches.trans ?_, h.credit, h.frame⟩
  have hprecede : Retouches app' _ app' _ := .precede cursor'.before.reverse
    (cursor'.after ++ cursor'.rest) hplain (cursor'.toList_eq ▸ hfirst) hlead htrail
  simpa [Cursor.toList_eq, Cursor.insertBefore, Cursor.replace] using hprecede

/-- The first of two statements around the current one. -/
theorem surround (h : Moves cursor frame app cursor' frame' app') {first : Stmt} (last : Stmt)
    (hplain : isDeferSegment first = false) (hfirst : Addition cursor'.toList first.kind) :
    Moves cursor frame app
      ((cursor'.replace (Agent.surround first cursor'.current last).2.1).insertBefore
        (Agent.surround first cursor'.current last).1) frame' app' :=
  h.precede hplain hfirst (List.sublist_append_left ..) (.refl _)

theorem insertAfter (h : Moves cursor frame app cursor' frame' app') {stmt : Stmt}
    (hplain : isDeferSegment stmt = false) (hstmt : Addition cursor'.toList stmt.kind) :
    Moves cursor frame app (cursor'.insertAfter stmt) frame' app' := by
  refine ⟨h.retouches.trans ?_, h.credit, h.frame⟩
  have hlist : cursor'.toList =
      (cursor'.before.reverse ++ cursor'.current :: cursor'.after) ++ cursor'.rest := by
    simp [Cursor.toList_eq]
  have hinsert : Retouches app' _ app' _ := .insert
    (cursor'.before.reverse ++ cursor'.current :: cursor'.after) cursor'.rest hplain
    (hlist ▸ hstmt)
  simpa [Cursor.toList_eq, Cursor.insertAfter] using hinsert

/-- A change of the statements behind. -/
theorem retail {rest : List Stmt} (h : Moves cursor frame app cursor' frame' app')
    (hrest : Retouches app' cursor'.toList app'' (cursor'.passed.reverse ++ rest))
    (hlength : rest.length ≤ cursor'.rest.length) :
    Moves cursor frame app { cursor' with rest } frame' app'' := by
  refine ⟨h.retouches.trans ?_, ?_, h.frame⟩
  · exact hrest
  · have hcredit := h.credit
    dsimp only
    omega

end Moves

/-! ## The transaction and the application -/

theorem precedes_transaction (frame : Frame) : frame.Precedes frame.transaction.2 := by
  unfold Frame.transaction
  split
  · exact .of_eq rfl rfl rfl
  · exact .refl

theorem precedes_application (frame : Frame) : frame.Precedes frame.application.2 := by
  unfold Frame.application
  split
  · exact .refl
  · split
    · exact .of_eq rfl rfl rfl
    · exact .refl

theorem precedes_declare (frame : Frame) (name : String) :
    frame.Precedes (frame.declare name) := by
  unfold Frame.declare
  split
  · exact .refl
  · exact .of_eq rfl rfl rfl

theorem Moves.declare {cursor cursor' : Cursor} {frame frame' : Frame} {app app' : Application}
    (h : Moves cursor frame app cursor' frame' app') (name : String) :
    Moves cursor frame app cursor' (frame'.declare name) app' :=
  h.reframe (precedes_declare frame' name)

theorem Moves.transaction (cursor : Cursor) (frame : Frame) (app : Application) :
    Moves cursor frame app cursor frame.transaction.2 app :=
  Moves.refl.reframe (precedes_transaction frame)

theorem Moves.application (cursor : Cursor) (frame : Frame) (app : Application) :
    Moves cursor frame app cursor frame.application.2 app :=
  Moves.refl.reframe (precedes_application frame)

theorem transaction_isVariable {frame : Frame} {txn : Expr} (h : frame.transaction.1 = some txn) :
    txn = .ident frame.txn := by
  unfold Frame.transaction at h
  split at h
  · simpa using h.symm
  · contradiction

theorem application_isAgent {frame : Frame} {agent : Expr} (h : frame.application.1 = some agent) :
    IsAgent agent := by
  unfold Frame.application at h
  split at h
  · simp only [Option.some.injEq] at h
    exact h ▸ .variable frame.agent
  · split at h
    · simp only [Option.some.injEq] at h
      exact h ▸ .transaction frame.txn
    · contradiction

/-! ## Hooks -/

theorem eq_of_call? {expr : Expr} {call : Call} (h : expr.call? = some call) :
    expr = ⟨.call call, expr.decs⟩ := by
  obtain ⟨kind, decs⟩ := expr
  cases kind <;> simp_all [Expr.call?]

/-- Changing the primary call of a statement. -/
theorem rewrite_mapPrimaryCall {stmt : Stmt} {call : Call} (hcall : primaryCall? stmt = some call)
    (f : Call → Call) (literals : Bool) (front back : List Stmt) :
    ∃ decs, StmtsRewrite literals ⟨.call call, decs⟩ ⟨.call (f call), decs⟩
      (front ++ stmt :: back) (front ++ mapPrimaryCall f stmt :: back) := by
  obtain ⟨kind, stmtDecs⟩ := stmt
  unfold primaryCall? at hcall
  split at hcall
  · next left op value hkind =>
    subst hkind
    rw [eq_of_call? hcall]
    have hvalue : StmtKind.Rewrites literals ⟨.call call, value.decs⟩ ⟨.call (f call), value.decs⟩
        .full (.assign left op ([] ++ ⟨.call call, value.decs⟩ :: []))
        (.assign left op ([] ++ ⟨.call (f call), value.decs⟩ :: [])) := .value rfl .here
    exact ⟨value.decs, .within front hvalue⟩
  · next value hkind =>
    subst hkind
    rw [eq_of_call? hcall]
    exact ⟨value.decs, .within front (.expr rfl .here)⟩
  · contradiction

theorem Hooks.retouches_mapPrimaryCall {app : Application} {stmt : Stmt} {call : Call}
    (hcall : primaryCall? stmt = some call) {f : Call → Call} (hooks : Hooks app.types call (f call))
    (front back : List Stmt) :
    Retouches app (front ++ stmt :: back) app (front ++ mapPrimaryCall f stmt :: back) := by
  obtain ⟨decs, hrewrite⟩ := rewrite_mapPrimaryCall hcall f true front back
  exact .adjust (.hook hooks) hrewrite

/-- Adjustments one after the other, at a place of a list. -/
theorem retouches_of_steps {σ α : Type} {literals : Bool} {rewrites : Expr → Expr → α → α → Prop}
    {app : Application} (whole : α → List Stmt)
    (hwhole : ∀ part part' a a', rewrites part part' a a' →
      StmtsRewrite literals part part' (whole a) (whole a')) {before after : α × σ}
    (steps : Steps rewrites (fun before after => Adjusts app before.1 after.1) before after) :
    Retouches app (whole before.1) app (whole after.1) := by
  induction steps with
  | refl => exact .refl
  | tail _ hstep ih =>
      obtain ⟨part, part', hadjusts, hrewrites⟩ := hstep
      exact ih.trans (.adjust hadjusts (hwhole part part' _ _ hrewrites))

theorem retouches_editOwn {m : Type → Type} [Monad m] {σ : Type} {threaded : Threaded m σ}
    {edits : Edits m} {app : Application}
    (follows : edits.Follows threaded fun before after => Adjusts app before.1 after.1)
    (stmt : Stmt) (s : σ) (front back : List Stmt) :
    Retouches app (front ++ stmt :: back) app
      (front ++ (threaded.run (stmt.editOwn edits) s).1 :: back) := by
  obtain ⟨kind, decs⟩ := stmt
  simp only [Stmt.editOwn, Threaded.run_bind, Threaded.run_pure]
  exact retouches_of_steps (fun kind => front ++ ⟨kind, decs⟩ :: back)
    (fun _ _ _ _ h => .within front (h.widen rfl)) (kind.edit_steps follows .own s)

/-- Hooks into the calls of a statement itself. -/
theorem Hooks.retouches_mapOwnCalls {app : Application} {f : Call → Call}
    (hf : ∀ call, f call = call ∨ Hooks app.types call (f call)) (literals : Bool) (stmt : Stmt)
    (front back : List Stmt) :
    Retouches app (front ++ stmt :: back) app (front ++ mapOwnCalls literals f stmt :: back) := by
  have follows : (Edits.calls literals fun call => (pure (f call) : Id Call)).Follows Threaded.ofId
      fun before after => Adjusts app before.1 after.1 := by
    refine ⟨fun call decs s => ?_, fun ident decs s => .inr rfl⟩
    obtain hsame | hooks := hf call
    · exact .inr (Prod.ext hsame rfl)
    · exact .inl (.hook hooks)
  exact retouches_editOwn follows stmt () front back

theorem interceptServers_moves (cursor : Cursor) (frame : Frame) (app : Application) :
    Trace.wp (interceptServers cursor) (Moves cursor frame app) frame app := by
  unfold interceptServers
  simp only [Trace.wp_bind, Trace.wp_types]
  split
  · exact .refl
  · simp only [Trace.application, Trace.wp_bind, Trace.wp_modifyGet]
    split
    · exact Moves.application cursor frame app
    · next agent hagent =>
      simp only [Trace.wp_bind, Trace.wp_needImport, Trace.wp_pure]
      refine ((Moves.application cursor frame app).needImport _ _).replace
        (Hooks.retouches_mapOwnCalls (fun call => ?_) false cursor.current)
      split
      · next hserves => exact .inr (.server hserves (application_isAgent hagent))
      · exact .inl rfl

theorem wrapRegistration_moves (cursor : Cursor) (frame : Frame) (app : Application) :
    Trace.wp (wrapRegistration cursor) (Moves cursor frame app) frame app := by
  unfold wrapRegistration
  split
  · exact .refl
  · next call hcall =>
    split
    · exact .refl
    · simp only [Trace.wp_bind, Trace.wp_types]
      split
      · exact .refl
      · next hregistration =>
        simp only [Trace.application, Trace.wp_bind, Trace.wp_modifyGet]
        split
        · exact Moves.application cursor frame app
        · next agent hagent =>
          split
          · exact Moves.application cursor frame app
          · next wrapped hwrapped =>
            have hooks : Hooks app.types call wrapped :=
              .handler (by simpa using hregistration) (application_isAgent hagent) hwrapped
            have hmoves : Moves cursor frame app
                (cursor.modify (mapPrimaryCall fun _ => wrapped)) frame.application.2 app :=
              (Moves.application cursor frame app).replace (hooks.retouches_mapPrimaryCall hcall)
            simp only [Trace.wp_bind, Trace.wp_needImport]
            split
            · rw [Trace.wp_bind]
              refine Trace.wp_attach fun decs console hdecs => ?_
              exact ((hmoves.needImport _ _).dress hdecs).console console
            · exact hmoves.needImport _ _

/-! ## Names nearby -/

theorem current_mem_toList (cursor : Cursor) : cursor.current ∈ cursor.toList := by
  simp [Cursor.toList_eq]

theorem NamedIn.of_mem {near : List Stmt} {stmt : Stmt} {expr : Expr} (hstmt : stmt ∈ near)
    (hexpr : (false, expr) ∈ stmt.kind.occurrences) (hname : IsName expr) :
    NamedIn near (bare expr) := by
  obtain ⟨kind, decs⟩ := expr
  cases kind with
  | ident ident => exact ⟨ident, _, decs, rfl, occurrences_subset_stmts hstmt hexpr⟩
  | _ => simp [IsName, Expr.ident?] at hname

theorem isName_of_not_all {expr : Expr} {test : Ident → Bool}
    (h : ¬(expr.ident?.all test = true)) : IsName expr := by
  cases hident : expr.ident? <;> simp_all [IsName]

theorem mem_occurrences_of_target {left right : List Expr} {op : AssignOp} {target : Expr}
    (h : target ∈ left) : (false, target) ∈ (StmtKind.assign left op right).occurrences :=
  List.mem_append_left _ (occurrences_subset_exprs h (target.mem_occurrences_self false))

theorem target_named {cursor : Cursor} {target value : Expr} {op : AssignOp}
    (hkind : cursor.current.kind = .assign [target] op [value]) (hname : IsName target) :
    NamedIn cursor.toList (bare target) := by
  refine .of_mem (current_mem_toList cursor) ?_ hname
  rw [hkind]
  exact mem_occurrences_of_target List.mem_cons_self

theorem arg_occurrences_subset {stmt : Stmt} {call : Call} (hcall : primaryCall? stmt = some call)
    {arg : Expr} (harg : arg ∈ call.args) : arg.occurrences false ⊆ stmt.kind.occurrences := by
  have hvalue : ∀ value : Expr, value.call? = some call →
      arg.occurrences false ⊆ value.occurrences false := by
    rintro ⟨kind, decs⟩ hvalue
    obtain rfl : kind = .call call := by
      cases kind <;> simp_all [Expr.call?]
    obtain ⟨callee, args, spread, closesLine⟩ := call
    exact List.subset_cons_of_subset _
      (List.subset_append_of_subset_right _ (occurrences_subset_exprs harg))
  unfold primaryCall? at hcall
  split at hcall
  · next left op value hkind =>
    rw [hkind]
    exact List.subset_append_of_subset_right _
      (List.subset_append_of_subset_left _ (hvalue value hcall))
  · next value hkind =>
    rw [hkind]
    exact hvalue value hcall
  · contradiction

/-! ## Routers -/

theorem installMiddleware_moves (cursor : Cursor) (frame : Frame) (app : Application) :
    Trace.wp (installMiddleware cursor) (Moves cursor frame app) frame app := by
  unfold installMiddleware
  split
  case h_2 => exact .refl
  case h_1 router op value hkind =>
    simp only [Trace.wp_bind, Trace.wp_types]
    split
    · exact .refl
    · next path hpath =>
      split
      · exact .refl
      · next hrouter =>
        simp only [Trace.application, Trace.wp_bind, Trace.wp_modifyGet]
        split
        · exact Moves.application cursor frame app
        · next agent hagent =>
          simp only [Trace.wp_bind, Trace.wp_needImport, Trace.wp_pure]
          simp only [Bool.or_eq_true, not_or] at hrouter
          refine (((Moves.application cursor frame app).dress (.withoutAfter _)).needImport _ path).insertAfter
            rfl ?_
          exact .middleware (packageName path) (target_named hkind (isName_of_not_all hrouter.1))
            (application_isAgent hagent)

/-! ## Log handlers -/

theorem length_editStmts {m : Type → Type} [Monad m] {σ : Type} (threaded : Threaded m σ)
    {edits : Edits m} (stmts : List Stmt) (s : σ) :
    (threaded.run (editStmts edits stmts) s).1.length = stmts.length := by
  induction stmts generalizing s with
  | nil => simp [editStmts]
  | cons stmt stmts ih =>
      obtain ⟨kind, decs⟩ := stmt
      simp [editStmts, ih]

theorem length_renameIn (name target : String) (stmts : List Stmt) :
    (renameIn name target stmts).length = stmts.length :=
  length_editStmts Threaded.ofId stmts ()

theorem retouches_renameIn (name : String) {target : String} (htarget : target ≠ "StartSegment")
    (app : Application) (front stmts : List Stmt) :
    Retouches app (front ++ stmts) app (front ++ renameIn name target stmts) := by
  have follows : (Edits.idents fun ident => (pure (if ident.name == name then
      { ident with name := target } else ident) : Id Ident)).Follows Threaded.ofId
      fun before after => Adjusts app before.1 after.1 := by
    refine ⟨fun call decs s => .inr rfl, fun ident decs s => ?_⟩
    by_cases hname : ident.name = name
    · left
      simpa [Edits.idents, Threaded.ofId, hname] using Adjusts.rename ident decs htarget
    · right
      simp [Edits.idents, Threaded.ofId, hname]
  exact retouches_of_steps (front ++ ·) (fun _ _ _ _ h => h.behind front)
    (editStmts_steps follows stmts ())

/-- Whatever the number behind it, the new variable shows what it starts with. -/
theorem logHandlerTarget_ne (declared : Bool) (index : Nat) {name : String}
    (hstart : name.toList.take 3 ≠ logHandlerVariable.toList.take 3) :
    (if declared then logHandlerVariable ++ toString index else logHandlerVariable) ≠ name := by
  rintro rfl
  refine hstart ?_
  split
  · rw [String.toList_append]
    rfl
  · rfl

theorem wrapInPlace_moves (cursor : Cursor) (frame : Frame) (app : Application) :
    Trace.wp (wrapInPlace app.types cursor) (Moves cursor frame app) frame app := by
  unfold wrapInPlace
  simp only [Trace.application, Trace.wp_bind, Trace.wp_modifyGet]
  split
  · exact Moves.application cursor frame app
  · next agent hagent =>
    simp only [Trace.wp_bind, Trace.wp_needImport, Trace.wp_pure]
    refine ((Moves.application cursor frame app).needImport _ _).replace
      (Hooks.retouches_mapOwnCalls (fun call => ?_) false cursor.current)
    split
    · next hmakes => exact .inr (.logger hmakes (application_isAgent hagent))
    · exact .inl rfl

theorem wrapBound_moves (handler : String) (cursor : Cursor) (frame : Frame) (app : Application) :
    Trace.wp (wrapBound handler cursor) (Moves cursor frame app) frame app := by
  unfold wrapBound
  simp only [Trace.application, Trace.wp_bind, Trace.wp_modifyGet]
  split
  · exact Moves.application cursor frame app
  · next agent hagent =>
    simp only [Trace.wp_bind, Trace.wp_get, Trace.wp_modifyGet, Trace.wp_needImport, Trace.wp_pure]
    refine ((((Moves.application cursor frame app).declare _).dress (.withoutAfter _)).needImport _ _).retail
      (retouches_renameIn handler (logHandlerTarget_ne _ _ (by decide)) _ _ _)
      (Nat.le_of_eq (length_renameIn ..)) |>.insertAfter (isDeferSegment_bindVariable ..) ?_
    exact .logHandler _ handler _ (application_isAgent hagent)

theorem wrapHandlers_moves (cursor : Cursor) (frame : Frame) (app : Application) :
    Trace.wp (wrapHandlers cursor) (Moves cursor frame app) frame app := by
  unfold wrapHandlers
  simp only [Trace.wp_bind, Trace.wp_types]
  split
  · exact wrapInPlace_moves cursor frame app
  · split
    · split
      · exact .refl
      · split
        · exact .refl
        · exact wrapBound_moves _ cursor frame app
    · exact .refl

/-! ## Requests -/

theorem segmentRequest_moves {req : Expr} {call : Call} (cursor : Cursor) (frame : Frame)
    (app : Application) (hcall : primaryCall? cursor.current = some call) (hreq : req ∈ call.args) :
    Trace.wp (segmentRequest (bare req) cursor) (Moves cursor frame app) frame app := by
  unfold segmentRequest
  split
  · exact .refl
  · simp only [Trace.transaction, Trace.wp_bind, Trace.wp_modifyGet]
    split
    · exact Moves.transaction cursor frame app
    · next txn htxn =>
      simp only [Trace.wp_bind, Trace.wp_get, Trace.wp_modify, Trace.wp_needImport, Trace.wp_pure]
      rw [transaction_isVariable htxn]
      have hdeclared := ((Moves.transaction cursor frame app).declare externalSegmentVariable).needImport
        (frame.transaction.2.declare externalSegmentVariable).package Path.newrelic
      have hstart : ∀ declared, Addition cursor.toList
          (startExternalSegment (.ident frame.txn) (bare req) externalSegmentVariable declared).kind :=
        fun declared => .external frame.txn _ declared (current_mem_toList _) hcall hreq
      have hplain : ∀ declared, isDeferSegment (startExternalSegment (.ident frame.txn) (bare req)
          externalSegmentVariable declared) = false := isDeferSegment_bindVariable _ _
      cases responseName? cursor.current with
      | none =>
          refine (hdeclared.surround _ (hplain _) (hstart _)).insertAfter rfl ?_
          exact .ending externalSegmentVariable
      | some name =>
          refine ((hdeclared.surround _ (hplain _) (hstart _)).insertAfter rfl ?_).insertAfter rfl ?_
          · exact .response externalSegmentVariable name
          · exact .ending externalSegmentVariable

theorem attachToRequest_moves {req : Expr} {call : Call} (cursor : Cursor) (frame : Frame)
    (app : Application) (hcall : primaryCall? cursor.current = some call) (hreq : req ∈ call.args) :
    Trace.wp (attachToRequest (bare req) cursor) (Moves cursor frame app) frame app := by
  unfold attachToRequest
  split
  · exact .refl
  · next hident =>
    simp only [Trace.transaction, Trace.wp_bind, Trace.wp_modifyGet]
    split
    · exact Moves.transaction cursor frame app
    · next txn htxn =>
      simp only [Trace.wp_bind, Trace.wp_needImport, Trace.wp_pure]
      rw [transaction_isVariable htxn]
      have hname : IsName req := by
        cases hreq' : (bare req).ident? <;> simp_all [IsName, bare, Expr.ident?]
      have hnamed : NamedIn cursor.toList (bare req) :=
        .of_mem (current_mem_toList cursor)
          (arg_occurrences_subset hcall hreq (req.mem_occurrences_self false)) hname
      have himported := (Moves.transaction cursor frame app).needImport frame.transaction.2.package
        Path.newrelic
      exact himported.precede rfl (.request frame.txn hnamed) (.refl _) (.refl _)

theorem traceRequest_moves (cursor : Cursor) (frame : Frame) (app : Application) :
    Trace.wp (traceRequest cursor) (Moves cursor frame app) frame app := by
  unfold traceRequest
  simp only [Trace.wp_bind, Trace.wp_get]
  split
  · exact .refl
  · simp only [Trace.wp_bind, Trace.wp_types]
    split
    · exact .refl
    · next call hcall =>
      split
      · exact .refl
      · split
        · exact .refl
        · next req hreq =>
          split
          · exact segmentRequest_moves cursor frame app hcall (List.mem_of_mem_head? hreq)
          · exact attachToRequest_moves cursor frame app hcall (List.mem_of_mem_head? hreq)

/-! ## Queries -/

/-- One of the statements behind gets new decorations. -/
theorem retouches_dress_modify (app : Application) (front stmts : List Stmt) (offset : Nat)
    (f : Stmt → Decorations) (hf : ∀ stmt : Stmt, stmt.decs.Keeps (f stmt)) :
    Retouches app (front ++ stmts) app
      (front ++ stmts.modify offset fun stmt => { stmt with decs := f stmt }) := by
  induction stmts generalizing front offset with
  | nil => simpa using Retouches.refl
  | cons stmt stmts ih =>
      cases offset with
      | zero => simpa using Retouches.dress front stmts (hf stmt)
      | succ offset => simpa using ih (front ++ [stmt]) offset

theorem endQuery_moves {cursor cursor' : Cursor} {frame frame' : Frame} {app app' : Application}
    (h : Moves cursor frame app cursor' frame' app') (offset : Nat)
    (hcredit : cursor'.rest.length + 1 + frame'.credit ≤ cursor.rest.length + frame.credit) :
    Moves cursor frame app (endQuery offset cursor') frame' app' := by
  have hdressed := h.retail
    (retouches_dress_modify app' _ cursor'.rest offset _ fun stmt => .withoutAfter stmt.decs)
    (Nat.le_of_eq (List.length_modify ..))
  refine ⟨hdressed.retouches.trans ?_, ?_, h.frame⟩
  · generalize hrest : (cursor'.rest.modify offset fun stmt =>
      { stmt with decs := stmt.decs.withoutAfter }) = rest
    have hsplit : ({ cursor' with rest } : Cursor).toList =
        (cursor'.passed.reverse ++ rest.take (offset + 1)) ++ rest.drop (offset + 1) := by
      rw [List.append_assoc, List.take_append_drop]
      rfl
    rw [hsplit]
    simp only [endQuery, hrest, Cursor.insertLater]
    have hinsert : ∀ stmt : Stmt, stmt.kind = (endTransaction transactionVariable).kind →
        Retouches app' _ app' _ := fun stmt hkind =>
      .insert (cursor'.passed.reverse ++ rest.take (offset + 1)) (rest.drop (offset + 1))
        (by unfold isDeferSegment; rw [hkind]; rfl)
        (by rw [hkind]; exact .ending transactionVariable)
    simp only [List.append_assoc] at hinsert ⊢
    exact hinsert _ rfl
  · simp only [endQuery, Cursor.insertLater, List.length_append, List.length_cons,
      List.length_take, List.length_drop, List.length_modify]
    omega

theorem queryMethod?_eq_some {info : Info} {database method : String} {stmt : Stmt}
    (h : queryMethod? info database stmt = some method) :
    ∃ call callee, primaryCall? stmt = some call ∧ info.callee? call = some callee ∧
      callee.package = Path.databaseSql ∧ callee.name = method ∧ method ∈ queryMethods := by
  obtain ⟨call, hcall, h⟩ := Option.bind_eq_some_iff.1 h
  split at h
  · obtain ⟨callee, hcallee, h⟩ := Option.bind_eq_some_iff.1 h
    have hmethod := List.find?_some h
    simp only [Callee.isMethod, Bool.and_eq_true, beq_iff_eq] at hmethod
    exact ⟨call, callee, hcall, hcallee, hmethod.1.2, hmethod.2, List.mem_of_find?_eq_some h⟩
  · contradiction

theorem runInTransaction_moves {method : String} {call : Call} {callee : Callee} (cursor : Cursor)
    (frame : Frame) (app : Application) (hcredit : frame.credit = 1)
    (hcall : primaryCall? cursor.current = some call) (hcallee : app.types.callee? call = some callee)
    (hpackage : callee.package = Path.databaseSql) (hname : callee.name = method)
    (hmethod : method ∈ queryMethods) :
    Trace.wp (runInTransaction method cursor) (Moves cursor frame app) frame app := by
  unfold runInTransaction
  simp only [Trace.wp_bind, Trace.wp_get, Trace.wp_modify, Trace.wp_modifyGet, Trace.wp_needImport]
  have hqueried : Moves cursor frame app cursor { frame with queried := true } app :=
    Moves.refl.reframe ⟨Nat.zero_le _, .inl rfl, rfl⟩
  have hreplaced := hqueried.replace fun front back =>
    .within front back (opensLike_mapPrimaryCall _ _)
      (.query front back method hcall hcallee hpackage hname hmethod)
  have hdeclared := (hreplaced.declare transactionVariable).declare contextVariable
  have hplain : ∀ declared, isDeferSegment (startTransaction frame.agent transactionVariable method
      declared) = false := isDeferSegment_bindVariable _ _
  have hplain' : ∀ declared, isDeferSegment (bindVariable contextVariable (newContext
      (.call (.qualified "context" "Background") []) (.ident transactionVariable)) declared) =
        false := isDeferSegment_bindVariable _ _
  split
  · next offset _ =>
    simp only [Trace.wp_bind, Trace.wp_modify, Trace.wp_pure]
    refine endQuery_moves ((((hdeclared.surround _ (hplain _) ?_).insertBefore (hplain' _)
      ?_).needImport _ _).needImport _ _ |>.reframe ?_) offset ?_
    · exact .start frame.agent transactionVariable method _
    · exact .newContext contextVariable transactionVariable _
    · exact ⟨Nat.le_refl _, .inr rfl, rfl⟩
    · have hspent : (({ frame with queried := true }.declare transactionVariable).declare
          contextVariable).credit ≤ 0 :=
        ((precedes_declare _ transactionVariable).trans (precedes_declare _ contextVariable)).credit
      show cursor.rest.length + 1 + (({ frame with queried := true }.declare
        transactionVariable).declare contextVariable).credit ≤ cursor.rest.length + frame.credit
      omega
  · refine (((hdeclared.surround _ (hplain _) ?_).insertBefore (hplain' _) ?_).needImport _
      _).needImport _ _ |>.insertAfter rfl ?_
    · exact .start frame.agent transactionVariable method _
    · exact .newContext contextVariable transactionVariable _
    · exact .ending transactionVariable

theorem traceQuery_moves (cursor : Cursor) (frame : Frame) (app : Application) :
    Trace.wp (traceQuery cursor) (Moves cursor frame app) frame app := by
  unfold traceQuery
  simp only [Trace.wp_bind, Trace.wp_get, Trace.wp_types]
  split
  · exact .refl
  · split
    · exact Moves.refl.reframe (.of_eq rfl rfl rfl)
    · split
      · exact .refl
      · next hqueried =>
        split
        · exact .refl
        · next method hmethod =>
          obtain ⟨database, -, hmethod⟩ := Option.bind_eq_some_iff.1 hmethod
          obtain ⟨call, callee, hcall, hcallee, hpackage, hname, hmem⟩ :=
            queryMethod?_eq_some hmethod
          have hcredit : frame.credit = 1 := by
            simp only [Bool.or_eq_true, not_or, Bool.not_eq_true] at hqueried
            simp [Frame.credit, hqueried.1]
          exact runInTransaction_moves cursor frame app hcredit hcall hcallee hpackage hname hmem

/-! ## Errors -/

theorem mem_errorTargets {info : Info} {stmt : Stmt} {target : Expr}
    (h : target ∈ errorTargets info stmt) : (false, target) ∈ stmt.kind.occurrences := by
  have hleft : ∀ left op right, stmt.kind = .assign left op right → target ∈ left →
      (false, target) ∈ stmt.kind.occurrences := by
    intro left op right hkind hmem
    rw [hkind]
    exact mem_occurrences_of_target hmem
  unfold errorTargets at h
  split at h
  · next left op value hkind =>
    split at h
    · contradiction
    · dsimp only at h
      split at h
      · obtain ⟨⟨other, type⟩, hzip, hsome⟩ := List.mem_filterMap.1 h
        split at hsome
        · obtain rfl := Option.some.inj hsome
          exact hleft left op [value] hkind (List.of_mem_zip hzip).1
        · contradiction
      · exact hleft left op [value] hkind (List.mem_filter.1 h).1
  · contradiction

/-- The error is a name that the statement assigns to. -/
theorem caughtError?_eq_bound {info : Info} {stmt : Stmt} {err : Expr}
    (h : caughtError? info stmt = some (.bound err)) :
    ∃ target, (false, target) ∈ stmt.kind.occurrences ∧ IsName target ∧ err = bare target := by
  unfold caughtError? at h
  dsimp only at h
  split at h
  · next target htarget =>
    simp only [Option.some.injEq, CaughtError.bound.injEq] at h
    obtain ⟨hmem, hname⟩ := List.mem_filter.1 (List.mem_of_find?_eq_some htarget)
    exact ⟨target, mem_errorTargets hmem, hname, h.symm⟩
  · split at h <;> simp at h

/-- Reporting an error at the start of a branch. -/
theorem noticeInBranch_retouches (err : Expr) (body : Block) (frame : Frame) (app : Application) :
    Trace.wp (noticeInBranch err body) (fun body' frame' app' =>
      frame.Precedes frame' ∧ ∀ init test alternative (stmt : Stmt) front back,
        stmt.kind = .cond init test body alternative → NamedIn (front ++ stmt :: back) err →
          Retouches app (front ++ stmt :: back) app'
            (front ++ { stmt with kind := .cond init test body' alternative } :: back)) frame app := by
  have hsame : ∀ init test alternative (stmt : Stmt) front back,
      stmt.kind = .cond init test body alternative → NamedIn (front ++ stmt :: back) err →
        Retouches app (front ++ stmt :: back) app
          (front ++ { stmt with kind := .cond init test body alternative } :: back) := by
    rintro init test alternative ⟨kind, decs⟩ front back rfl _
    exact .refl
  unfold noticeInBranch
  split
  · exact ⟨.refl, hsame⟩
  · simp only [Trace.transaction, Trace.wp_bind, Trace.wp_modifyGet]
    split
    · exact ⟨precedes_transaction frame, hsame⟩
    · next txn htxn =>
      rw [transaction_isVariable htxn]
      refine ⟨precedes_transaction frame, fun init test alternative stmt front back hkind herr => ?_⟩
      obtain ⟨stmts, trailing, inline⟩ := body
      have hnests : StmtKind.Nests stmts (noticeError err (.ident frame.txn) :: stmts) stmt.kind
          (.cond init test ⟨noticeError err (.ident frame.txn) :: stmts, trailing, false⟩ alternative) := by
        rw [hkind]
        exact .block (.branch false)
      exact .insertInside front back hnests (.notice frame.txn herr)

theorem noticeInNext_retouches (err : Expr) (stmt : Stmt) (frame : Frame) (app : Application) :
    Trace.wp (noticeInNext err stmt) (fun stmt' frame' app' =>
      frame.Precedes frame' ∧ ∀ front back, NamedIn (front ++ stmt :: back) err →
        Retouches app (front ++ stmt :: back) app' (front ++ stmt' :: back)) frame app := by
  have hattach : ∀ advisory, Trace.wp (Trace.attach advisory stmt) (fun stmt' frame' app' =>
      frame.Precedes frame' ∧ ∀ front back, NamedIn (front ++ stmt :: back) err →
        Retouches app (front ++ stmt :: back) app' (front ++ stmt' :: back)) frame app :=
    fun advisory => Trace.wp_attach fun decs console hdecs =>
      ⟨.refl, fun front back _ => (Retouches.dress front back hdecs).trans (.console console)⟩
  unfold noticeInNext
  split
  · next test body alternative hkind =>
    split
    · rw [Trace.wp_bind]
      refine (noticeInBranch_retouches err body frame app).mono fun body' frame' app' h => ?_
      exact ⟨h.1, fun front back => h.2 none test alternative stmt front back hkind⟩
    · split
      · exact hattach .expectedError
      · exact ⟨.refl, fun _ _ _ => .refl⟩
  · split
    · exact hattach .unknownError
    · exact ⟨.refl, fun _ _ _ => .refl⟩
  · exact ⟨.refl, fun _ _ _ => .refl⟩

theorem noticeErrors_moves (cursor : Cursor) (frame : Frame) (app : Application) :
    Trace.wp (noticeErrors cursor) (Moves cursor frame app) frame app := by
  unfold noticeErrors
  rw [Trace.wp_bind, Trace.wp_types]
  split
  · next init test body alternative hkind =>
    split
    · next err hbound =>
      split
      · obtain ⟨stmt, rfl, hcaught⟩ := Option.bind_eq_some_iff.1 hbound
        obtain ⟨target, htarget, hname, rfl⟩ := caughtError?_eq_bound hcaught
        have hoccurs : (false, target) ∈ cursor.current.kind.occurrences := by
          rw [hkind]
          obtain ⟨kind, decs⟩ := stmt
          obtain ⟨stmts, trailing, inline⟩ := body
          exact List.mem_append_left _ htarget
        rw [Trace.wp_bind]
        refine (noticeInBranch_retouches (bare target) body frame app).mono ?_
        intro body' frame' app' h
        refine (Moves.refl.replace fun front back => ?_).reframe h.1
        exact h.2 (some stmt) test alternative cursor.current front back hkind
          (.of_mem (by simp) hoccurs hname)
      · exact .refl
    · exact .refl
  · split
    · exact .refl
    · rw [Trace.wp_bind]
      refine Trace.wp_attach fun decs console hdecs => ?_
      exact (Moves.refl.dress hdecs).console console
    · next err hcaught =>
      obtain ⟨target, htarget, hname, rfl⟩ := caughtError?_eq_bound hcaught
      split
      · exact .refl
      · next next rest hrest =>
        rw [Trace.wp_bind]
        refine (noticeInNext_retouches (bare target) next frame app).mono ?_
        intro next' frame' app' h
        have hnamed : NamedIn (cursor.passed.reverse ++ next :: rest) (bare target) := by
          rw [← hrest]
          exact .of_mem (current_mem_toList cursor) htarget hname
        refine (Moves.refl.retail ?_ (by simp [hrest])).reframe h.1
        show Retouches app (cursor.passed.reverse ++ cursor.rest) app' _
        rw [hrest]
        exact h.2 _ rest hnamed

end TraceWeave.Tracing
