import TraceWeave.Proofs.Tracing.Alignment
import TraceWeave.Proofs.Tracing.Pending

/-!
Calls that extend the function that they call.

A function gains its parameter on a call of it as soon as tracing may enter it, it takes no
carrier, and its parameters admit another one.  The entry function makes such a call where it
stands alone in its first statement: the statement gets a transaction of its own, which the
call hands on (`traceMain_extends`).
-/

namespace TraceWeave.Tracing

open TraceWeave.Agent TraceWeave.Detect TraceWeave.Order TraceWeave.Program TraceWeave.Syntax
  TraceWeave.Types

/-! ## Calls -/

/-- Nothing but a new parameter takes the transaction into the callee. -/
structure WouldExtend (app : Application) (call : Call) (ref : FuncRef) (func : FuncDecl) :
    Prop where
  resolve : app.resolve? call = some ref
  notMain : ref.key ≠ "main"
  mayInstrument : app.mayInstrument ref = true
  found : app.func? ref = some func
  admits : Admits app.types func.params
  noTransaction : findParam? (paramsOf app.types func.params) transactionTy = none

section

variable {app : Application} {call : Call} {ref : FuncRef} {func : FuncDecl}

/-- A transaction is passed in a parameter that is added for it. -/
theorem WouldExtend.pass_eq (h : WouldExtend app call ref func) (name : String) (async : Bool)
    (txn : Expr) : (Carrier.transaction name).pass app.types func.params call async
      (app.mayInstrument ref) txn =
        { call := call.addArg (if async then newGoroutine txn else txn)
          params := func.params.add (transactionParameter transactionVariable)
          child := some (.transaction transactionVariable)
          needsImport := true
          extended := true
          usesTransaction := true } := by
  have hown : findParam? (paramsOf app.types func.params) (Carrier.transaction name).type = none :=
    h.noTransaction
  have hcontext := h.admits.noContext
  unfold Carrier.pass
  simp only [Carrier.isContext, Bool.false_eq_true, if_false, hown, hcontext, h.mayInstrument, if_true,
    Carrier.passNew, h.admits.notVariadic, h.admits.named, Bool.or_self]

theorem extended_addImports (passing : Passing) (caller : String) (ref : FuncRef)
    (app : Application) : (passing.addImports caller ref app).extended = app.extended := by
  unfold Passing.addImports
  dsimp only
  split <;> split <;> rfl

theorem followCall_extends {walk : Walk} (hwalk : walk.Weaves) (caller : Frame) (async : Bool)
    {passing : Passing} (hdiffer : app.PlacesDiffer) (hmay : app.mayInstrument ref = true)
    (hextended : passing.extended = true) :
    Weave.wp (followCall walk caller async ref (app.mayInstrument ref) passing)
      (fun _ app' => ref ∈ app'.extended) app := by
  obtain ⟨body, hbody⟩ := Option.isSome_iff_exists.1 (isSome_body?_of_mayInstrument hmay)
  have hentered : ref ∈ (opened (passing.applyTo ref app) ref).extended := by
    show ref ∈ (passing.applyTo ref app).extended
    rw [Passing.applyTo, if_pos hextended]
    exact (mem_insertSorted ref ref _).2 (.inl rfl)
  have houtline : (opened (passing.applyTo ref app) ref).outline = app.outline :=
    (outline_opened ..).trans (outline_applyTo ..)
  unfold followCall
  simp only [hmay, if_true, Weave.wp_bind, Weave.wp_modify]
  have htraced := traceFunction_weaves hwalk (childFrame_binds caller ref passing.child async)
    ((body?_applyTo passing ref app).trans hbody)
  refine htraced.mono fun _ app' h => ?_
  obtain ⟨app'', body', -, hweaves, rfl⟩ := h
  rw [Weave.wp_modify, extended_addImports]
  exact (hweaves.grows (placesDiffer_of_outline houtline hdiffer)).kept ref hentered

theorem passCall_extends {walk : Walk} (hwalk : walk.Weaves) (async : Bool)
    (hdiffer : app.PlacesDiffer) (h : WouldExtend app call ref func) {name : String} {frame : Frame}
    (hcarrier : frame.carrier = some (.transaction name)) (advisories : List Advisory) :
    Advised.wp (passCall walk async call) (fun _ _ _ app' => ref ∈ app'.extended)
      advisories frame app := by
  refine wp_passCall (fun hnone => ?_) ?_
  · exact absurd ⟨h.resolve, hcarrier, h.notMain, h.found⟩ (hnone ref _ func)
  · rintro ref' carrier func' _ haims rfl
    obtain rfl := Option.some.inj (h.resolve.symm.trans haims.resolved)
    obtain rfl := Option.some.inj (hcarrier.symm.trans haims.carried)
    obtain rfl := Option.some.inj (h.found.symm.trans haims.found)
    rw [h.pass_eq]
    exact followCall_extends hwalk frame async hdiffer h.mayInstrument rfl

theorem WouldExtend.wouldPass (h : WouldExtend app call ref func) (name : String) :
    (Carrier.transaction name).wouldPass app.types func.params call (app.mayInstrument ref) =
      true := by
  rw [Carrier.wouldPass, h.pass_eq]
  simp

end

/-! ## Statements -/

/-- The statement is the call, of a name and without arguments. -/
structure IsPlainCall (stmt : Stmt) (call : Call) : Prop where
  alone : ∃ decs, stmt.kind = .expr ⟨.call call, decs⟩
  named : ∃ name decs, call.callee = ⟨.ident name, decs⟩
  noArgs : call.args = []

section

variable {app : Application} {call : Call} {ref : FuncRef} {func : FuncDecl} {stmt : Stmt}

theorem IsPlainCall.ownCalls (h : IsPlainCall stmt call) : Application.ownCalls stmt = [call] := by
  obtain ⟨⟨decs, hkind⟩, ⟨name, nameDecs, hcallee⟩, hargs⟩ := h
  obtain ⟨callee, args, spread, closesLine⟩ := call
  obtain ⟨kind, stmtDecs⟩ := stmt
  subst hkind hcallee hargs
  rfl

variable {walk : Walk} {frame : Frame}

theorem passCalls_extends (hwalk : walk.Weaves) (hdiffer : app.PlacesDiffer)
    (hstmt : IsPlainCall stmt call) (h : WouldExtend app call ref func) {name : String}
    (hcarrier : frame.carrier = some (.transaction name)) :
    Advised.wp (passCalls walk stmt) (fun _ _ _ app' => ref ∈ app'.extended) [] frame app := by
  obtain ⟨⟨decs, hkind⟩, ⟨ident, nameDecs, hcallee⟩, hargs⟩ := hstmt
  obtain ⟨callee, args, spread, closesLine⟩ := call
  obtain ⟨kind, stmtDecs⟩ := stmt
  subst hkind hcallee hargs
  exact passCall_extends hwalk false hdiffer h hcarrier []

theorem passAndAdvise_extends (hwalk : walk.Weaves) (hdiffer : app.PlacesDiffer) {cursor : Cursor}
    (hstmt : IsPlainCall cursor.current call) (h : WouldExtend app call ref func) {name : String}
    (hcarrier : frame.carrier = some (.transaction name)) :
    Trace.wp (passAndAdvise walk cursor) (fun _ _ app' => ref ∈ app'.extended) frame app := by
  have hpassed : Advised.wp (passCalls walk cursor.current) (fun stmt' _ frame' app' =>
      Alters cursor.current frame app stmt' frame' app' ∧ ref ∈ app'.extended) [] frame app :=
    ⟨passCalls_alters hwalk cursor.current [] frame app,
      passCalls_extends hwalk hdiffer hstmt h hcarrier⟩
  unfold passAndAdvise
  rw [Trace.wp_bind]
  refine Trace.wp.mono hpassed fun result frame' app' h' => ?_
  obtain ⟨⟨-, hretouches⟩, hmem⟩ := h'
  have houtline := ((hretouches [] []).weaves.grows hdiffer).outline
  rw [Trace.wp_bind]
  refine (attachAll_alters result.2 result.1 frame' app').mono fun stmt frame'' app'' h'' => ?_
  exact ((h''.2 [] []).weaves.grows (placesDiffer_of_outline houtline hdiffer)).kept ref hmem

theorem traceCalls_extends (hwalk : walk.Weaves) (hdiffer : app.PlacesDiffer) {cursor : Cursor}
    (hstmt : IsPlainCall cursor.current call) (h : WouldExtend app call ref func)
    (hmain : frame.inMain = true) (hfree : frame.hasTransaction = false) :
    Trace.wp (traceCalls walk cursor) (fun _ _ app' => ref ∈ app'.extended) frame app := by
  have hcalled : app.calledBy cursor.current = [ref] := by
    simp [Application.calledBy, hstmt.ownCalls, h.resolve]
  have hkey : (ref.key == "main") = false := beq_false_of_ne h.notMain
  have hreached : firstReached? app (.transaction transactionVariable) cursor.current = some ref := by
    have hwould := h.wouldPass transactionVariable
    obtain ⟨decs, hkind⟩ := hstmt.alone
    simp only [firstReached?, hkind, hstmt.ownCalls, List.findSome?_cons, h.resolve, hkey, h.found,
      Option.bind_some, Bool.false_eq_true, if_false, hwould, if_true]
  have hspawn : isSpawn cursor.current = false := by
    obtain ⟨decs, hkind⟩ := hstmt.alone
    simp [isSpawn, hkind]
  have hexit : isExit cursor.current = false := by
    obtain ⟨decs, hkind⟩ := hstmt.alone
    simp [isExit, hkind]
  unfold traceCalls startOwnTransaction
  simp only [Trace.wp_bind, Trace.wp_get, Trace.wp_app, hcalled, List.all_cons, hkey, Bool.false_and,
    Bool.false_eq_true, if_false, hspawn, Bool.and_false, hmain, hfree, Bool.not_false,
    Bool.and_self, if_true, hexit, hreached, Trace.wp_modify, Trace.wp_pure]
  refine (passAndAdvise_extends hwalk hdiffer ?_ h rfl).mono fun _ _ _ hmem => hmem
  exact ⟨hstmt.alone, hstmt.named, hstmt.noArgs⟩

theorem visit_extends (hwalk : walk.Weaves) (hdiffer : app.PlacesDiffer) {cursor : Cursor}
    (hstmt : IsPlainCall cursor.current call) (h : WouldExtend app call ref func)
    (hmain : frame.inMain = true) (hfree : frame.hasTransaction = false) :
    Trace.wp (visit walk cursor) (fun _ _ app' => ref ∈ app'.extended) frame app := by
  have hcalls := (traceCalls_moves hwalk cursor frame app).and
    (traceCalls_extends hwalk hdiffer hstmt h hmain hfree)
  unfold visit
  rw [Trace.wp_bind]
  refine hcalls.mono fun result frame' app' h' => ?_
  obtain ⟨hmoves, hmem⟩ := h'
  have hdiffer' := placesDiffer_of_outline (hmoves.weaves.grows hdiffer).outline hdiffer
  simp only [Trace.wp_bind, Trace.wp_get]
  split
  · rw [Trace.wp_bind]
    refine (noticeErrors_moves result.1 frame' app').mono fun cursor'' frame'' app'' hnotice => ?_
    refine (finishVisit_moves hwalk result.2 cursor'' frame'' app'').mono fun _ _ _ hrest => ?_
    exact ((hnotice.trans hrest).weaves.grows hdiffer').kept ref hmem
  · rw [Trace.wp_bind, Trace.wp_pure]
    refine (finishVisit_moves hwalk result.2 result.1 frame' app').mono fun _ _ _ hrest => ?_
    exact (hrest.weaves.grows hdiffer').kept ref hmem

/-! ## Bodies -/

theorem walkBlock_extends {depth : Nat} (hdepth : 0 < depth) (hdiffer : app.PlacesDiffer)
    (hstmt : IsPlainCall stmt call) (h : WouldExtend app call ref func)
    (hmain : frame.inMain = true) (hfree : frame.hasTransaction = false) (stmts : List Stmt) :
    Trace.wp (walkBlock depth (stmt :: stmts)) (fun _ _ app' => ref ∈ app'.extended) frame app := by
  obtain ⟨depth, rfl⟩ := Nat.exists_eq_add_of_lt hdepth
  rw [Nat.zero_add]
  have hwalk := walkBlock_weaves depth
  have hstmt' : IsPlainCall (Cursor.current ⟨[], stmt, stmts, []⟩) call := hstmt
  have hvisit := (visit_moves hwalk ⟨[], stmt, stmts, []⟩ frame.pushScope app).and
    (visit_extends hwalk hdiffer hstmt' h hmain hfree)
  simp only [walkBlock, Trace.wp_bind, Trace.wp_modify, walkList, walkFrom]
  refine hvisit.mono fun cursor frame' app' h' => ?_
  obtain ⟨hmoves, hmem⟩ := h'
  have hdiffer' := placesDiffer_of_outline (hmoves.weaves.grows hdiffer).outline hdiffer
  refine (walkFrom_retouches hwalk _ _ _ frame' app').mono fun _ _ _ hrest => ?_
  exact (hrest.1.weaves.grows hdiffer').kept ref hmem

theorem traceBody_extends {depth : Nat} (hdepth : 0 < depth) (hdiffer : app.PlacesDiffer)
    (hstmt : IsPlainCall stmt call) (h : WouldExtend app call ref func)
    (hmain : frame.inMain = true) (hfree : frame.hasTransaction = false)
    (hpending : frame.pending = none) {body : Block} {stmts : List Stmt}
    (hstmts : body.stmts = stmt :: stmts) :
    Trace.wp (traceBody (walkBlock depth) body) (fun _ _ app' => ref ∈ app'.extended) frame app := by
  unfold traceBody
  simp only [Trace.wp_bind, Trace.wp_get, hpending, Option.isSome_none, Bool.false_eq_true, if_false,
    Trace.wp_pure, hstmts]
  exact (walkBlock_extends hdepth hdiffer hstmt h hmain hfree stmts).mono fun _ _ _ hmem => hmem

end

/-! ## The entry function -/

section

variable {app : Application} {main ref : FuncRef} {call : Call} {func : FuncDecl} {stmt : Stmt}

/-- The call still extends its callee when the body around it has been taken out. -/
theorem WouldExtend.opened (h : WouldExtend app call ref func) (hdiffer : app.PlacesDiffer)
    (hne : ref ≠ main) : WouldExtend (opened app main) call ref func := by
  have houtline := outline_opened app main
  have hfunc := func?_opened_of_ne hdiffer hne
  refine ⟨?_, h.notMain, ?_, hfunc.trans h.found, h.admits, h.noTransaction⟩
  · rw [resolve?_of_outline houtline, h.resolve]
  · have hmay := h.mayInstrument
    rw [Application.mayInstrument_eq] at hmay ⊢
    have htraced : (Tracing.opened app main).isTraced ref = app.isTraced ref := by
      unfold Tracing.opened
      rw [isTraced_setBody]
      show (app.markTraced main).isTraced ref = _
      simp [Application.isTraced_markTraced, hne]
    rwa [isEligible_of_outline houtline, hfunc, htraced]

/--
The entry function has the agent already, and its first statement is a call that nothing but a
new parameter can take a transaction into.  Then the function that is called gains one.
-/
theorem traceMain_extends (hdiffer : app.PlacesDiffer) (hentry : isEntryPoint app main = true)
    {body : Block} (hbody : app.body? main = some body)
    (hagent : (existingAgent? body.stmts).isSome = true)
    {stmts : List Stmt} (hstmts : body.stmts = stmt :: stmts)
    (hstmt : IsPlainCall stmt call) (h : WouldExtend app call ref func) :
    Weave.wp (traceMain walkBlock main) (fun _ app' => ref ∈ app'.extended) app := by
  obtain ⟨agent, hagent⟩ := Option.isSome_iff_exists.1 hagent
  have hne : ref ≠ main := by
    rintro rfl
    simp only [isEntryPoint, Bool.and_eq_true, beq_iff_eq] at hentry
    exact h.notMain hentry.1.1
  have hmarked : (app.markTraced main).body? main = some body := by
    rw [Application.body?, Application.func?_markTraced]
    exact hbody
  have hdepth : 0 < app.depth := by
    have hle := pending_opened_depth hdiffer (isSome_entry?_of_body? hbody)
    rw [app.depthAt_eq, hbody] at hle
    simp only [Option.map_some, Option.getD_some] at hle
    omega
  have hdiffer' := placesDiffer_of_outline (outline_opened app main) hdiffer
  have hopened := h.opened hdiffer hne
  unfold traceMain fullWalk Weave.withBody
  simp only [Weave.wp_bind, Weave.wp_get]
  rw [if_neg (by simp [hentry, hbody])]
  simp only [Weave.wp_bind, Weave.wp_pure, Weave.wp_get, Weave.wp_modify, hmarked, setUpAgent,
    hagent, Trace.wp_run]
  exact (traceBody_extends hdepth hdiffer' hstmt hopened rfl rfl rfl hstmts).mono
    fun _ _ _ hmem => hmem

/-- The first function that a run looks at is such an entry function. -/
theorem weave_extends (hcoherent : app.Coherent) (hentered : app.entered = [])
    {others : List FuncRef} (hfirst : candidates app = main :: others)
    (hentry : isEntryPoint app main = true) {body : Block} (hbody : app.body? main = some body)
    (hagent : (existingAgent? body.stmts).isSome = true) {stmts : List Stmt}
    (hstmts : body.stmts = stmt :: stmts) (hstmt : IsPlainCall stmt call)
    (h : WouldExtend app call ref func) :
    ref ∈ (weave.run app).2.extended := by
  have hdiffer := hcoherent.placesDiffer
  -- nothing has changed before the first function, and the callee stays extended behind it
  let Q (refs accepted : List FuncRef) (app' : Application) : Prop :=
    MainsLeft app refs accepted app' ∧ (refs = main :: others ∧ app' = app ∨ ref ∈ app'.extended)
  have hstep : ∀ ref' refs accepted app', Q (ref' :: refs) accepted app' →
      Weave.wp (traceMain walkBlock ref') (fun found app'' =>
        Q refs (if found then ref' :: accepted else accepted) app'') app' := by
    rintro ref' refs accepted app' ⟨hleft, hmem⟩
    refine (hleft.step walkBlock_weaves).and ?_
    obtain ⟨hrefs, rfl⟩ | hmem := hmem
    · obtain ⟨rfl, -⟩ := List.cons.inj hrefs
      exact (traceMain_extends hdiffer hentry hbody hagent hstmts hstmt h).mono
        fun _ _ hmem => .inr hmem
    · have hdiffer' := placesDiffer_of_outline (hleft.turns.grows hdiffer).outline hdiffer
      have hturn := @traceMain_turn _ walkBlock_weaves ref' app' (hleft.fresh ref' (by simp))
      refine hturn.mono fun found app'' hturn => .inr ?_
      obtain ⟨-, rfl⟩ | ⟨-, -, hturn, -⟩ := hturn
      · exact hmem
      · exact (Turns.grows hdiffer' (.single hturn)).kept ref hmem
  have hstart : Q (candidates app) [] app := ⟨.start hcoherent hentered, .inl ⟨hfirst, rfl⟩⟩
  have hmains : Weave.wp ((candidates app).filterM (traceMain walkBlock)) (fun _ app₁ =>
      Turns app app₁ ∧ ref ∈ app₁.extended) app := by
    refine (filterM_wp (Q := Q) hstep hstart).mono fun mains app₁ h' => ⟨h'.1.turns, ?_⟩
    obtain ⟨hrefs, -⟩ | hmem := h'.2
    · contradiction
    · exact hmem
  have hrun := weave_after_mains hcoherent hmains
  obtain ⟨mains, app₁, later, hturns, hmem, hturns', -⟩ := (Weave.wp_iff _ _ _).1 hrun
  have hdiffer₁ := placesDiffer_of_outline (hturns.grows hdiffer).outline hdiffer
  exact (hturns'.grows hdiffer₁).kept ref hmem

end

end TraceWeave.Tracing
