import TraceWeave.Proofs.Tracing.Transactions

/-!
The detectors of the walk in the entry function.

All of them but the one for queries leave the transaction alone: they put quiet statements
around the current one, change it gently, and rename what is behind (`Attends`).
-/

namespace TraceWeave.Tracing

open TraceWeave.Agent TraceWeave.Detect TraceWeave.Program TraceWeave.Syntax TraceWeave.Types

/-! ## Frames -/

/-- A frame of the entry function, in a phase of the innermost block; `outer` are the others. -/
structure Frame.At (outer : List (List String)) (phase : Phase) (frame : Frame) : Prop where
  inMain : frame.inMain = true
  carrier : frame.carrier =
    if phase.opened then some (.transaction transactionVariable) else none
  txn : phase.opened = true → frame.txn = transactionVariable
  pending : frame.pending = none
  scopes : ∃ scope, frame.scopes = scope :: outer ∧
    scope.contains transactionVariable = phase.declared

namespace Frame.At

variable {outer : List (List String)} {phase : Phase} {frame frame' : Frame}

theorem hasTransaction (h : frame.At outer phase) : frame.hasTransaction = phase.opened := by
  unfold Frame.hasTransaction
  rw [h.carrier]
  cases phase.opened <;> rfl

theorem isDeclared (h : frame.At outer phase) :
    frame.isDeclared transactionVariable = phase.declared := by
  obtain ⟨scope, hscopes, hdeclared⟩ := h.scopes
  simpa [Frame.isDeclared, hscopes] using hdeclared

theorem of_eq (h : frame.At outer phase) (hmain : frame'.inMain = frame.inMain)
    (hcarrier : frame'.carrier = frame.carrier) (htxn : frame'.txn = frame.txn)
    (hpending : frame'.pending = frame.pending) (hscopes : frame'.scopes = frame.scopes) :
    frame'.At outer phase where
  inMain := hmain.trans h.inMain
  carrier := hcarrier.trans h.carrier
  txn hopened := htxn.trans (h.txn hopened)
  pending := hpending.trans h.pending
  scopes := hscopes ▸ h.scopes

theorem transaction (h : frame.At outer phase) : frame.transaction.2.At outer phase := by
  unfold Frame.transaction
  split
  · exact h.of_eq rfl rfl rfl rfl rfl
  · exact h

theorem application (h : frame.At outer phase) : frame.application.2.At outer phase := by
  unfold Frame.application
  rw [if_pos h.inMain]
  exact h

theorem declare (h : frame.At outer phase) {name : String} (hname : name ≠ transactionVariable) :
    (frame.declare name).At outer phase := by
  obtain ⟨scope, hscopes, hdeclared⟩ := h.scopes
  unfold Frame.declare
  rw [hscopes]
  refine ⟨h.inMain, h.carrier, h.txn, h.pending, name :: scope, rfl, ?_⟩
  rw [← hdeclared, List.contains_cons]
  simp [hname.symm]

theorem declareTransaction (h : frame.At outer phase) :
    (frame.declare transactionVariable).At outer { phase with declared := true } := by
  obtain ⟨scope, hscopes, -⟩ := h.scopes
  unfold Frame.declare
  rw [hscopes]
  exact ⟨h.inMain, h.carrier, h.txn, h.pending, transactionVariable :: scope, rfl, by simp⟩

theorem startTransaction (h : frame.At outer phase) :
    (frame.startTransaction transactionVariable).At outer { phase with opened := true } :=
  ⟨h.inMain, rfl, fun _ => rfl, rfl, h.scopes⟩

theorem endTransaction (h : frame.At outer phase) :
    frame.endTransaction.At outer { phase with opened := false } :=
  ⟨h.inMain, rfl, by simp, h.pending, h.scopes⟩

theorem pushScope (h : frame.At outer phase) :
    frame.pushScope.At frame.scopes { phase with declared := false } :=
  ⟨h.inMain, h.carrier, h.txn, h.pending, [], rfl, rfl⟩

theorem popScope {declared : Bool} (h : frame.At outer phase)
    (h' : frame'.At frame.scopes { phase with declared }) :
    frame'.popScope.At outer phase := by
  obtain ⟨scope, hscopes, hdeclared⟩ := h.scopes
  obtain ⟨scope', hscopes', -⟩ := h'.scopes
  unfold Frame.popScope
  rw [hscopes', hscopes]
  exact ⟨h'.inMain, h'.carrier, h'.txn, h'.pending, scope, rfl, hdeclared⟩

end Frame.At

theorem Frame.At.declareStmt {outer : List (List String)} {phase : Phase} {frame : Frame}
    {stmt : Stmt} (h : frame.At outer phase) (hstmt : transactionVariable ∉ stmt.kind.targets) :
    (frame.declareStmt stmt).At outer phase := by
  unfold Frame.declareStmt
  split
  · next left right hkind =>
    rw [hkind] at hstmt
    have hnames : ∀ ident ∈ (left.filterMap Expr.ident?).filter (!·.isBlank),
        ident.name ≠ transactionVariable := by
      intro ident hmem hname
      obtain ⟨expr, hexpr, hident⟩ := List.mem_filterMap.1 (List.mem_filter.1 hmem).1
      exact hstmt (mem_namesOf.2 ⟨expr, hexpr, ident, hident, hname⟩)
    generalize (left.filterMap Expr.ident?).filter (!·.isBlank) = idents at hnames
    induction idents generalizing frame with
    | nil => exact h
    | cons ident idents ih =>
        rw [List.forall_mem_cons] at hnames
        exact ih (h.declare hnames.1) hnames.2
  · exact h

/-! ## Changes around the current statement -/

/-- The statement is calm or the end that is still to come. -/
def Settled (kind : StmtKind) : Prop := Calm kind ∨ Ends kind

theorem Remains.settled {kind kind' : StmtKind} (h : Remains kind kind') (hkind : Settled kind) :
    Settled kind' :=
  hkind.imp h.calm h.ends

/-- The calls of the statements concern no transaction. -/
abbrev QuietStmts (stmts : List Stmt) : Prop :=
  ∀ stmt ∈ stmts, Holds quiet (stmt.kind.calls true .full)

/-- Statements that are still to come have changed one by one. -/
abbrev Remaining : List Stmt → List Stmt → Prop :=
  List.Forall₂ fun stmt stmt' => Remains stmt.kind stmt'.kind

theorem Remaining.refl (stmts : List Stmt) : Remaining stmts stmts :=
  List.forall₂_same.2 fun _ _ => .refl

theorem Remaining.trans {stmts stmts' stmts'' : List Stmt} (h : Remaining stmts stmts')
    (h' : Remaining stmts' stmts'') : Remaining stmts stmts'' := by
  induction h generalizing stmts'' with
  | nil => exact h'
  | cons hstmt _ ih =>
      cases h' with
      | cons hstmt' h' => exact .cons (hstmt.trans hstmt') (ih h')

/-- The transaction is left alone, and what comes in around the current statement is quiet. -/
structure Attends (cursor : Cursor) (frame : Frame) (cursor' : Cursor) (frame' : Frame) : Prop where
  frame : ∀ outer phase, frame.At outer phase → frame'.At outer phase
  current : Remains cursor.current.kind cursor'.current.kind
  before : ∃ lead, cursor'.before = lead ++ cursor.before ∧ QuietStmts lead
  after : ∃ trail, cursor'.after = cursor.after ++ trail ∧ QuietStmts trail
  rest : Remaining cursor.rest cursor'.rest

namespace Attends

variable {cursor cursor' cursor'' : Cursor} {frame frame' frame'' : Frame}

theorem refl : Attends cursor frame cursor frame where
  frame _ _ := id
  current := .refl
  before := ⟨[], rfl, List.forall_mem_nil _⟩
  after := ⟨[], (List.append_nil _).symm, List.forall_mem_nil _⟩
  rest := .refl _

theorem trans (h : Attends cursor frame cursor' frame') (h' : Attends cursor' frame' cursor'' frame'') :
    Attends cursor frame cursor'' frame'' where
  frame outer phase := h'.frame outer phase ∘ h.frame outer phase
  current := h.current.trans h'.current
  before := by
    obtain ⟨lead, hbefore, hlead⟩ := h.before
    obtain ⟨lead', hbefore', hlead'⟩ := h'.before
    refine ⟨lead' ++ lead, by rw [hbefore', hbefore, List.append_assoc], ?_⟩
    exact List.forall_mem_append.2 ⟨hlead', hlead⟩
  after := by
    obtain ⟨trail, hafter, htrail⟩ := h.after
    obtain ⟨trail', hafter', htrail'⟩ := h'.after
    refine ⟨trail ++ trail', by rw [hafter', hafter, List.append_assoc], ?_⟩
    exact List.forall_mem_append.2 ⟨htrail, htrail'⟩
  rest := h.rest.trans h'.rest

theorem reframe (h : Attends cursor frame cursor' frame')
    (hframe : ∀ outer phase, frame'.At outer phase → frame''.At outer phase) :
    Attends cursor frame cursor' frame'' :=
  { h with frame := fun outer phase hat => hframe outer phase (h.frame outer phase hat) }

theorem replace (h : Attends cursor frame cursor' frame') {stmt : Stmt}
    (hstmt : Remains cursor'.current.kind stmt.kind) :
    Attends cursor frame (cursor'.replace stmt) frame' :=
  { h with current := h.current.trans hstmt }

/-- A change of the decorations of the current statement. -/
theorem redress (h : Attends cursor frame cursor' frame') (decs : Decorations) :
    Attends cursor frame (cursor'.replace { cursor'.current with decs }) frame' :=
  h.replace .refl

theorem insertBefore (h : Attends cursor frame cursor' frame') {stmt : Stmt}
    (hstmt : Holds quiet (stmt.kind.calls true .full)) :
    Attends cursor frame (cursor'.insertBefore stmt) frame' := by
  obtain ⟨lead, hbefore, hlead⟩ := h.before
  refine { h with before := ⟨stmt :: lead, ?_, List.forall_mem_cons.2 ⟨hstmt, hlead⟩⟩ }
  rw [Cursor.insertBefore, hbefore, List.cons_append]

theorem insertAfter (h : Attends cursor frame cursor' frame') {stmt : Stmt}
    (hstmt : Holds quiet (stmt.kind.calls true .full)) :
    Attends cursor frame (cursor'.insertAfter stmt) frame' := by
  obtain ⟨trail, hafter, htrail⟩ := h.after
  refine { h with after := ⟨trail ++ [stmt], ?_, ?_⟩ }
  · rw [Cursor.insertAfter, hafter, List.append_assoc]
  · exact List.forall_mem_append.2 ⟨htrail, List.forall_mem_singleton.2 hstmt⟩

/-- A quiet statement takes over the lead of the current one. -/
theorem surround (h : Attends cursor frame cursor' frame') {first : Stmt} (last : Stmt)
    (hfirst : Holds quiet (first.kind.calls true .full)) :
    Attends cursor frame ((cursor'.replace (Agent.surround first cursor'.current last).2.1).insertBefore
      (Agent.surround first cursor'.current last).1) frame' :=
  (h.redress _).insertBefore hfirst

/-- A change of the statements behind. -/
theorem retail (h : Attends cursor frame cursor' frame') {rest : List Stmt}
    (hrest : Remaining cursor'.rest rest) : Attends cursor frame { cursor' with rest } frame' :=
  { h with rest := h.rest.trans hrest }

end Attends

/-- What a detector does in the entry function. -/
abbrev AttendsTo (cursor : Cursor) (frame : Frame) (cursor' : Cursor) (frame' : Frame)
    (_ : Application) : Prop :=
  Attends cursor frame cursor' frame'

/-! ## Changes of calls -/

theorem StmtsRewrite.of_singleton {literals : Bool} {part part' : Expr} {stmt stmt' : Stmt}
    (h : StmtsRewrite literals part part' [stmt] [stmt']) :
    StmtKind.Rewrites literals part part' .full stmt.kind stmt'.kind := by
  generalize hstmts : [stmt] = stmts at h
  generalize hstmts' : [stmt'] = stmts' at h
  cases h with
  | within front h =>
      rcases List.append_eq_singleton_iff.1 hstmts.symm with ⟨rfl, hstmt⟩ | ⟨-, hstmt⟩
      · obtain rfl := (List.cons.inj hstmt).1
        obtain rfl := (List.cons.inj hstmts').1
        exact h
      · contradiction

theorem remains_mapPrimaryCall {stmt : Stmt} {call : Call} (hcall : primaryCall? stmt = some call)
    {f : Call → Call} (hf : ∀ decs, Gentle ⟨.call call, decs⟩ ⟨.call (f call), decs⟩) :
    Remains stmt.kind (mapPrimaryCall f stmt).kind := by
  obtain ⟨decs, hrewrite⟩ := rewrite_mapPrimaryCall hcall f true [] []
  exact (hf decs).remains (StmtsRewrite.of_singleton hrewrite)

theorem remains_mapOwnCalls {f : Call → Call}
    (hf : ∀ call decs, Gentle ⟨.call call, decs⟩ ⟨.call (f call), decs⟩) (stmt : Stmt) :
    Remains stmt.kind (mapOwnCalls false f stmt).kind := by
  have follows : (Edits.calls false fun call => (pure (f call) : Id Call)).Follows Threaded.ofId
      fun before after => Gentle before.1 after.1 :=
    ⟨fun call decs s => .inl (hf call decs), fun ident decs s => .inr rfl⟩
  exact remains_of_steps (.inl rfl) (fun _ _ h => h) (stmt.kind.edit_steps follows .own ())

theorem Gentle.refl_call (call : Call) (decs : Decorations) :
    Gentle ⟨.call call, decs⟩ ⟨.call call, decs⟩ :=
  .call rfl id

theorem remaining_renameIn {name target : String} (hname : name ≠ transactionVariable)
    (htarget : target ≠ transactionVariable) (hstart : target ≠ "StartTransaction")
    (hending : target ≠ "End") (stmts : List Stmt) : Remaining stmts (renameIn name target stmts) := by
  have follows : (Edits.idents fun ident => (pure (if ident.name == name then
      { ident with name := target } else ident) : Id Ident)).Follows Threaded.ofId
      fun before after => Gentle before.1 after.1 := by
    refine ⟨fun call decs s => .inr rfl, fun ident decs s => ?_⟩
    by_cases hident : ident.name = name
    · left
      simpa [Edits.idents, Threaded.ofId, hident] using
        @Gentle.ident ident { ident with name := target } decs (hident ▸ hname) htarget hstart hending
    · right
      simp [Edits.idents, Threaded.ofId, hident]
  induction stmts with
  | nil => exact .nil
  | cons stmt stmts ih =>
      obtain ⟨kind, decs⟩ := stmt
      exact .cons (remains_of_steps (.inr rfl) (fun _ _ h => h) (kind.edit_steps follows .full ())) ih

/-! ## Detectors -/

theorem traceLiteral_attends (walk : Walk) (cursor : Cursor) {frame : Frame} (app : Application)
    (hmain : frame.inMain = true) :
    Trace.wp (traceLiteral walk cursor) (AttendsTo cursor frame) frame app := by
  unfold traceLiteral
  split
  · exact .refl
  · simp only [Trace.wp_bind, Trace.wp_get]
    rw [if_pos hmain, Trace.wp_bind]
    exact Trace.wp_attach fun decs console _ => Attends.refl.redress decs

theorem wrapRegistration_attends (cursor : Cursor) (frame : Frame) (app : Application) :
    Trace.wp (wrapRegistration cursor) (AttendsTo cursor frame) frame app := by
  unfold wrapRegistration
  split
  · exact .refl
  · next call hcall =>
    split
    · exact .refl
    · simp only [Trace.wp_bind, Trace.wp_types]
      split
      · exact .refl
      · next hregistration =>
        simp only [Trace.application, Trace.wp_bind, Trace.wp_modifyGet]
        have hused : Attends cursor frame cursor frame.application.2 :=
          Attends.refl.reframe fun _ _ h => h.application
        split
        · exact hused
        · next agent hagent =>
          split
          · exact hused
          · next wrapped hwrapped =>
            have hooks : Hooks app.types call wrapped :=
              .handler (by simpa using hregistration) (application_isAgent hagent) hwrapped
            have hwrap : Attends cursor frame (cursor.modify (mapPrimaryCall fun _ => wrapped))
                frame.application.2 := hused.replace (remains_mapPrimaryCall hcall hooks.gentle)
            simp only [Trace.wp_bind, Trace.wp_needImport]
            split
            · rw [Trace.wp_bind]
              exact Trace.wp_attach fun decs console _ => hwrap.redress decs
            · exact hwrap

theorem interceptServers_attends (cursor : Cursor) (frame : Frame) (app : Application) :
    Trace.wp (interceptServers cursor) (AttendsTo cursor frame) frame app := by
  unfold interceptServers
  simp only [Trace.wp_bind, Trace.wp_types]
  split
  · exact .refl
  · simp only [Trace.application, Trace.wp_bind, Trace.wp_modifyGet]
    have hused : Attends cursor frame cursor frame.application.2 :=
      Attends.refl.reframe fun _ _ h => h.application
    split
    · exact hused
    · next agent hagent =>
      simp only [Trace.wp_bind, Trace.wp_needImport, Trace.wp_pure]
      refine hused.replace (remains_mapOwnCalls (fun call decs => ?_) cursor.current)
      split
      · next hserves =>
        exact (Hooks.server hserves (application_isAgent hagent)).gentle decs
      · exact .refl_call call decs

theorem installMiddleware_attends (cursor : Cursor) (frame : Frame) (app : Application) :
    Trace.wp (installMiddleware cursor) (AttendsTo cursor frame) frame app := by
  unfold installMiddleware
  split
  case h_2 => exact .refl
  case h_1 router op value hkind =>
    simp only [Trace.wp_bind, Trace.wp_types]
    split
    · exact .refl
    · next path hpath =>
      split
      · exact .refl
      · next hrouter =>
        simp only [Trace.application, Trace.wp_bind, Trace.wp_modifyGet]
        have hused : Attends cursor frame cursor frame.application.2 :=
          Attends.refl.reframe fun _ _ h => h.application
        split
        · exact hused
        · next agent hagent =>
          simp only [Trace.wp_bind, Trace.wp_needImport, Trace.wp_pure]
          have hname : IsName router := by
            cases hident : router.ident? <;> simp_all [IsName]
          have hmiddleware : Holds quiet
              ((Expr.call (.qualified (packageName path) "Middleware") [agent]).calls true) :=
            Expr.holds_named quiet_admits (by decide) .nil
              (holds_exprs_cons.2 ⟨(application_isAgent hagent).holds quiet_admits, .nil⟩)
          refine (hused.redress cursor.current.decs.withoutAfter).insertAfter ?_
          refine Expr.holds_named quiet_admits (by decide) ?_ (holds_exprs_cons.2 ⟨hmiddleware, .nil⟩)
          rw [bare, Expr.calls_redecorate]
          exact holds_of_isName hname

theorem wrapInPlace_attends (cursor : Cursor) (frame : Frame) (app : Application) :
    Trace.wp (wrapInPlace app.types cursor) (AttendsTo cursor frame) frame app := by
  unfold wrapInPlace
  simp only [Trace.application, Trace.wp_bind, Trace.wp_modifyGet]
  have hused : Attends cursor frame cursor frame.application.2 :=
    Attends.refl.reframe fun _ _ h => h.application
  split
  · exact hused
  · next agent hagent =>
    simp only [Trace.wp_bind, Trace.wp_needImport, Trace.wp_pure]
    refine hused.replace (remains_mapOwnCalls (fun call decs => ?_) cursor.current)
    split
    · next hmakes => exact (Hooks.logger hmakes (application_isAgent hagent)).gentle decs
    · exact .refl_call call decs

theorem wrapBound_attends {handler : String} (cursor : Cursor) (frame : Frame) (app : Application)
    (hhandler : handler ≠ transactionVariable) :
    Trace.wp (wrapBound handler cursor) (AttendsTo cursor frame) frame app := by
  unfold wrapBound
  simp only [Trace.application, Trace.wp_bind, Trace.wp_modifyGet]
  have hused : Attends cursor frame cursor frame.application.2 :=
    Attends.refl.reframe fun _ _ h => h.application
  split
  · exact hused
  · next agent hagent =>
    simp only [Trace.wp_bind, Trace.wp_get, Trace.wp_modifyGet, Trace.wp_needImport, Trace.wp_pure]
    generalize htarget : (if frame.application.2.isDeclared logHandlerVariable then
      logHandlerVariable ++ toString cursor.index else logHandlerVariable) = target
    have hne : ∀ name : String, name.toList.take 3 ≠ logHandlerVariable.toList.take 3 →
        target ≠ name := fun _ hstart => htarget ▸ logHandlerTarget_ne _ _ hstart
    have hframe : ∀ outer phase, frame.application.2.At outer phase →
        (frame.application.2.bind target (wrapLogHandler agent (.ident handler))).2.At outer phase :=
      fun outer phase h => h.declare (hne _ (by decide))
    refine (((hused.reframe hframe).redress cursor.current.decs.withoutAfter).retail
      (remaining_renameIn hhandler (hne _ (by decide)) (hne _ (by decide)) (hne _ (by decide))
        _)).insertAfter ?_
    refine holds_bindVariable _ (Expr.holds_named quiet_admits (by decide) .nil ?_)
    exact holds_exprs_cons.2 ⟨(application_isAgent hagent).holds quiet_admits, holds_exprs_cons.2 ⟨.nil, .nil⟩⟩

theorem wrapHandlers_attends (cursor : Cursor) (frame : Frame) (app : Application)
    (hsettled : Settled cursor.current.kind) :
    Trace.wp (wrapHandlers cursor) (AttendsTo cursor frame) frame app := by
  unfold wrapHandlers
  simp only [Trace.wp_bind, Trace.wp_types]
  split
  · exact wrapInPlace_attends cursor frame app
  · split
    · next target op value hkind =>
      split
      · exact .refl
      · next handler hhandler =>
        split
        · exact .refl
        · refine wrapBound_attends cursor frame app fun hname => ?_
          rw [hkind] at hsettled
          rcases hsettled with hcalm | hends
          · have hident := (Option.filter_eq_some_iff.1 hhandler).1
            exact hcalm.targets (mem_namesOf.2 ⟨target, List.mem_singleton_self _, handler, hident, hname⟩)
          · contradiction
    · exact .refl

/-! ## Requests -/

theorem quiet_of_primaryCall? {stmt : Stmt} {call : Call} (hcall : primaryCall? stmt = some call)
    (h : Settled stmt.kind) : Holds quiet (callsOfExprs true call.args) := by
  have hvalue : ∀ {value : Expr}, value.call? = some call → Holds quiet (value.calls true) →
      Holds quiet (callsOfExprs true call.args) := by
    intro value hvalue hquiet
    rw [eq_of_call? hvalue] at hquiet
    exact (Expr.holds_of_holds_call hquiet).2.2
  unfold primaryCall? at hcall
  split at hcall
  · next left op value hkind =>
    rw [hkind] at h
    rcases h with hcalm | hends
    · exact hvalue hcall (holds_exprs_cons.1 (Holds.append.1 hcalm.quiet).2).1
    · contradiction
  · next value hkind =>
    rw [hkind] at h
    rcases h with hcalm | hends
    · exact hvalue hcall hcalm.quiet
    · cases hends with
      | intro hname hqualifier hargs =>
          obtain rfl := Option.some.inj hcall
          exact hargs
  · contradiction

theorem segmentRequest_attends {req : Expr} (cursor : Cursor) (frame : Frame) (app : Application)
    (hreq : Holds quiet (req.calls true)) :
    Trace.wp (segmentRequest req cursor) (AttendsTo cursor frame) frame app := by
  unfold segmentRequest
  split
  · exact .refl
  · simp only [Trace.transaction, Trace.wp_bind, Trace.wp_modifyGet]
    have hused : Attends cursor frame cursor frame.transaction.2 :=
      Attends.refl.reframe fun _ _ h => h.transaction
    split
    · exact hused
    · next txn htxn =>
      simp only [Trace.wp_bind, Trace.wp_get, Trace.wp_modify, Trace.wp_needImport, Trace.wp_pure]
      rw [transaction_isVariable htxn]
      have hstart : ∀ declared, Holds quiet ((startExternalSegment (.ident frame.txn) req
          externalSegmentVariable declared).kind.calls true .full) := fun declared =>
        holds_bindVariable declared (Expr.holds_call (.of_name rfl (by decide) (by decide)) .nil
          (holds_exprs_cons.2 ⟨.nil, holds_exprs_cons.2 ⟨hreq, .nil⟩⟩))
      have hending : Holds quiet
          ((endExternalSegment externalSegmentVariable).kind.calls true .full) :=
        Expr.holds_call ⟨by decide, fun _ => by decide⟩ .nil .nil
      have hdeclared : Attends cursor frame cursor
          (frame.transaction.2.declare externalSegmentVariable) :=
        hused.reframe fun _ _ h => h.declare (by decide)
      cases responseName? cursor.current with
      | none => exact (hdeclared.surround _ (hstart _)).insertAfter hending
      | some name =>
          refine ((hdeclared.surround _ (hstart _)).insertAfter ?_).insertAfter hending
          exact Holds.append.2 ⟨.nil, .nil⟩

theorem attachToRequest_attends {req : Expr} (cursor : Cursor) (frame : Frame) (app : Application)
    (hreq : Holds quiet (req.calls true)) :
    Trace.wp (attachToRequest req cursor) (AttendsTo cursor frame) frame app := by
  unfold attachToRequest
  split
  · exact .refl
  · simp only [Trace.transaction, Trace.wp_bind, Trace.wp_modifyGet]
    have hused : Attends cursor frame cursor frame.transaction.2 :=
      Attends.refl.reframe fun _ _ h => h.transaction
    split
    · exact hused
    · next txn htxn =>
      simp only [Trace.wp_bind, Trace.wp_needImport, Trace.wp_pure]
      rw [transaction_isVariable htxn]
      refine (hused.redress cursor.current.decs.withoutLead).insertBefore ?_
      have hvalue : Holds quiet ((Expr.call (.qualified "newrelic" "RequestWithTransactionContext")
          [req, .ident frame.txn]).calls true) :=
        Expr.holds_named quiet_admits (by decide) .nil
          (holds_exprs_cons.2 ⟨hreq, holds_exprs_cons.2 ⟨.nil, .nil⟩⟩)
      exact Holds.append.2 ⟨holds_exprs_cons.2 ⟨hreq, .nil⟩, holds_exprs_cons.2 ⟨hvalue, .nil⟩⟩

theorem traceRequest_attends (cursor : Cursor) (frame : Frame) (app : Application)
    (hsettled : Settled cursor.current.kind) :
    Trace.wp (traceRequest cursor) (AttendsTo cursor frame) frame app := by
  unfold traceRequest
  simp only [Trace.wp_bind, Trace.wp_get]
  split
  · exact .refl
  · simp only [Trace.wp_bind, Trace.wp_types]
    split
    · exact .refl
    · next call hcall =>
      split
      · exact .refl
      · split
        · exact .refl
        · next req hreq =>
          have hquiet : Holds quiet ((bare req).calls true) := by
            rw [bare, Expr.calls_redecorate]
            exact holds_exprs.1 (quiet_of_primaryCall? hcall hsettled) req
              (List.mem_of_mem_head? hreq)
          split
          · exact segmentRequest_attends cursor frame app hquiet
          · exact attachToRequest_attends cursor frame app hquiet

/-! ## Queries -/

/-- The statement starts a transaction in a phase, and has no list inside. -/
structure Opens (phase : Phase) (stmt : Stmt) : Prop where
  op : startOp? stmt = some phase.op
  lists : stmt.kind.lists = []

theorem opens_startTransaction (phase : Phase) (agent name : String) (decs : Decorations) :
    Opens phase { startTransaction agent transactionVariable name phase.declared with decs } := by
  obtain ⟨opened, declared⟩ := phase
  have hblocks : ∀ left op right, (StmtKind.assign left op right).blocks = [] := by
    simp [StmtKind.blocks]
  refine ⟨by cases declared <;> rfl, ?_⟩
  unfold StmtKind.lists startTransaction bindVariable Stmt.define Stmt.assign
  cases declared with
  | false =>
      dsimp only
      rw [if_neg Bool.false_ne_true, hblocks]
      rfl
  | true =>
      dsimp only
      rw [if_pos rfl, hblocks]
      rfl

/-- Calm statements around the end of a transaction. -/
inductive Pends : List Stmt → Prop where
  | here {ending : Stmt} {stmts : List Stmt} :
      Ends ending.kind → (∀ stmt ∈ stmts, Calm stmt.kind) → Pends (ending :: stmts)
  | later {stmt : Stmt} {stmts : List Stmt} :
      Calm stmt.kind → Pends stmts → Pends (stmt :: stmts)

theorem Pends.of_append {front back : List Stmt} {ending : Stmt}
    (hfront : ∀ stmt ∈ front, Calm stmt.kind) (hending : Ends ending.kind)
    (hback : ∀ stmt ∈ back, Calm stmt.kind) : Pends (front ++ ending :: back) := by
  induction front with
  | nil => exact .here hending hback
  | cons stmt front ih =>
      rw [List.forall_mem_cons] at hfront
      exact .later hfront.1 (ih hfront.2)

/-- A new start and a quiet statement stand in front of the current one, which is calm. -/
structure Starts (phase : Phase) (cursor cursor' : Cursor) : Prop where
  before : ∃ start bind, cursor'.before = bind :: start :: cursor.before ∧ Opens phase start ∧
    Holds quiet (bind.kind.calls true .full)
  current : Calm cursor'.current.kind
  simple : cursor'.current.kind.isCompound = false

theorem quiet_queryWithContext {method : String} (hmethod : method ∈ queryMethods) {call : Call}
    {decs : Decorations} (h : Holds quiet ((⟨.call call, decs⟩ : Expr).calls true)) :
    Holds quiet ((⟨.call (queryWithContext method call), decs⟩ : Expr).calls true) := by
  have hname : method ++ "Context" ≠ "StartTransaction" ∧ method ++ "Context" ≠ "End" := by
    simp only [queryMethods, List.mem_cons, List.not_mem_nil, or_false] at hmethod
    rcases hmethod with rfl | rfl | rfl <;> decide
  obtain ⟨⟨kind, calleeDecs⟩, args, spread, closesLine⟩ := call
  obtain ⟨hcall, hcallee, hargs⟩ := Expr.holds_of_holds_call h
  cases kind with
  | selector operand member =>
      exact Expr.holds_call (.of_name rfl hname.1 hname.2) hcallee (holds_exprs_cons.2 ⟨.nil, hargs⟩)
  | _ => exact Expr.holds_call ⟨hcall.start, hcall.ending⟩ hcallee (holds_exprs_cons.2 ⟨.nil, hargs⟩)

theorem calm_query {method : String} (hmethod : method ∈ queryMethods) {stmt : Stmt} {call : Call}
    (hcall : primaryCall? stmt = some call) (hcalm : Calm stmt.kind) :
    Calm (mapPrimaryCall (queryWithContext method) stmt).kind ∧
      (mapPrimaryCall (queryWithContext method) stmt).kind.isCompound = false := by
  have hvalue : ∀ {value : Expr}, value.call? = some call → Holds quiet (value.calls true) →
      Holds quiet ((value.mapCall (queryWithContext method)).calls true) := by
    intro value hvalue hquiet
    rw [eq_of_call? hvalue] at hquiet ⊢
    exact quiet_queryWithContext hmethod hquiet
  unfold primaryCall? at hcall
  split at hcall
  · next left op value hkind =>
    obtain ⟨hquiet, htargets⟩ := hcalm
    rw [hkind] at hquiet htargets
    obtain ⟨hleft, hright⟩ := Holds.append.1 hquiet
    simp only [mapPrimaryCall, hkind]
    refine ⟨⟨Holds.append.2 ⟨hleft, ?_⟩, htargets⟩, rfl⟩
    exact holds_exprs_cons.2 ⟨hvalue hcall (holds_exprs_cons.1 hright).1, .nil⟩
  · next value hkind =>
    obtain ⟨hquiet, -⟩ := hcalm
    rw [hkind] at hquiet
    simp only [mapPrimaryCall, hkind]
    exact ⟨⟨hvalue hcall hquiet, by simp [StmtKind.targets]⟩, rfl⟩
  · contradiction

theorem remaining_modify {f : Stmt → Stmt} (hf : ∀ stmt, (f stmt).kind = stmt.kind)
    (offset : Nat) (stmts : List Stmt) : Remaining stmts (stmts.modify offset f) := by
  induction stmts generalizing offset with
  | nil => simp
  | cons stmt stmts ih =>
      cases offset with
      | zero => exact .cons (hf stmt ▸ .refl) (Remaining.refl stmts)
      | succ offset => exact .cons .refl (ih offset)

theorem Remaining.calm {stmts stmts' : List Stmt} (h : Remaining stmts stmts')
    (hcalm : ∀ stmt ∈ stmts, Calm stmt.kind) : ∀ stmt ∈ stmts', Calm stmt.kind := by
  induction h with
  | nil => exact hcalm
  | cons hstmt _ ih =>
      rw [List.forall_mem_cons] at hcalm ⊢
      exact ⟨hstmt.calm hcalm.1, ih hcalm.2⟩

theorem Remaining.pends {stmts stmts' : List Stmt} (h : Remaining stmts stmts')
    (hpends : Pends stmts) : Pends stmts' := by
  induction hpends generalizing stmts' with
  | here hending hcalm =>
      cases h with
      | cons hstmt h => exact .here (hstmt.ends hending) (Remaining.calm h hcalm)
  | later hstmt _ ih =>
      cases h with
      | cons hstmt' h => exact .later (hstmt'.calm hstmt) (ih h)

theorem endQuery_pends (offset : Nat) (cursor : Cursor)
    (hrest : ∀ stmt ∈ cursor.rest, Calm stmt.kind) : Pends (endQuery offset cursor).rest := by
  have hcalm := (remaining_modify (f := fun stmt => { stmt with decs := stmt.decs.withoutAfter })
    (fun _ => rfl) offset cursor.rest).calm hrest
  exact .of_append (fun stmt hmem => hcalm stmt (List.mem_of_mem_take hmem)) ends_endTransaction
    fun stmt hmem => hcalm stmt (List.mem_of_mem_drop hmem)

/--
A query starts a transaction in front of itself.  It ends it at once, or where its results
are used for the last time.
-/
structure StartsQuery (outer : List (List String)) (phase : Phase) (cursor cursor' : Cursor)
    (frame' : Frame) : Prop where
  closed : phase.opened = false
  starts : Starts phase cursor cursor'
  ends :
    (∃ ending, Ends ending.kind ∧ cursor'.after = cursor.after ++ [ending] ∧
      cursor'.rest = cursor.rest ∧ frame'.At outer ⟨false, true⟩) ∨
    (cursor'.after = cursor.after ∧ Pends cursor'.rest ∧ frame'.At outer ⟨true, true⟩)

theorem runInTransaction_starts {outer : List (List String)} {phase : Phase} {method : String}
    {call : Call} (cursor : Cursor) {frame : Frame} (app : Application)
    (hframe : frame.At outer phase) (hclosed : phase.opened = false) (hmethod : method ∈ queryMethods)
    (hcall : primaryCall? cursor.current = some call) (hcalm : Calm cursor.current.kind)
    (hrest : ∀ stmt ∈ cursor.rest, Calm stmt.kind) :
    Trace.wp (runInTransaction method cursor) (fun cursor' frame' _ =>
      StartsQuery outer phase cursor cursor' frame') frame app := by
  unfold runInTransaction
  simp only [Trace.wp_bind, Trace.wp_get, Trace.wp_modify, Trace.wp_modifyGet, Trace.wp_needImport]
  have hqueried : ({ frame with queried := true } : Frame).At outer phase :=
    hframe.of_eq rfl rfl rfl rfl rfl
  have hcontextVariable : contextVariable ≠ transactionVariable := by decide
  have hdeclared := hqueried.declareTransaction.declare hcontextVariable
  rw [hclosed] at hdeclared
  obtain ⟨hquery, hsimple⟩ := calm_query hmethod hcall hcalm
  have hcontext : Holds quiet ((Expr.call (.qualified "context" "Background") []).calls true) :=
    Expr.holds_named quiet_admits (by decide) .nil .nil
  split
  · simp only [Trace.wp_bind, Trace.wp_modify, Trace.wp_pure]
    refine ⟨hclosed, ⟨⟨_, _, rfl, ?_, ?_⟩, hquery, hsimple⟩, .inr ⟨rfl, ?_, ?_⟩⟩
    · rw [hqueried.isDeclared]
      exact opens_startTransaction ..
    · exact holds_bindVariable _ (holds_newContext quiet_admits hcontext .nil)
    · exact endQuery_pends _ _ hrest
    · exact hdeclared.startTransaction
  · rw [Trace.wp_pure]
    refine ⟨hclosed, ⟨⟨_, _, rfl, ?_, ?_⟩, hquery, hsimple⟩, .inl ⟨_, ?_, rfl, rfl, hdeclared⟩⟩
    · rw [hqueried.isDeclared]
      exact opens_startTransaction ..
    · exact holds_bindVariable _ (holds_newContext quiet_admits hcontext .nil)
    · exact ends_endTransaction

theorem traceQuery_attends {outer : List (List String)} {phase : Phase} (cursor : Cursor)
    {frame : Frame} (app : Application) (hframe : frame.At outer phase)
    (hcalm : phase.opened = false →
      Calm cursor.current.kind ∧ ∀ stmt ∈ cursor.rest, Calm stmt.kind) :
    Trace.wp (traceQuery cursor) (fun cursor' frame' _ =>
      Attends cursor frame cursor' frame' ∨ StartsQuery outer phase cursor cursor' frame')
      frame app := by
  unfold traceQuery
  simp only [Trace.wp_bind, Trace.wp_get, Trace.wp_types]
  split
  · exact .inl .refl
  · split
    · exact .inl (Attends.refl.reframe fun _ _ h => h.of_eq rfl rfl rfl rfl rfl)
    · split
      · exact .inl .refl
      · next hqueried =>
        split
        · exact .inl .refl
        · next method hmethod =>
          obtain ⟨database, -, hmethod⟩ := Option.bind_eq_some_iff.1 hmethod
          obtain ⟨call, callee, hcall, -, -, -, hmem⟩ := queryMethod?_eq_some hmethod
          have hclosed : phase.opened = false := by
            rw [← hframe.hasTransaction]
            simp only [Bool.or_eq_true, not_or, Bool.not_eq_true] at hqueried
            exact hqueried.2
          obtain ⟨hcurrent, hrest⟩ := hcalm hclosed
          exact (runInTransaction_starts cursor app hframe hclosed hmem hcall hcurrent hrest).mono
            fun _ _ _ h => .inr h

end TraceWeave.Tracing
