import TraceWeave.Proofs.Program.Outline
import TraceWeave.Proofs.Tracing.Detectors

/-!
The tracing walk weaves: whatever it does to a list of statements and to the bodies of
the functions that it enters on the way is a sequence of the changes of `Weaves`.
-/

namespace TraceWeave.Tracing

open TraceWeave.Agent TraceWeave.Detect TraceWeave.Program TraceWeave.Syntax TraceWeave.Types

/-- Every run of the walk weaves the list that it is given. -/
def Walk.Weaves (walk : Walk) : Prop :=
  ∀ stmts frame app, Trace.wp (walk stmts) (fun stmts' frame' app' =>
    Tracing.Weaves app stmts app' stmts' ∧ frame.Precedes frame') frame app

/-- The pending statement takes the transaction out of a context. -/
def Frame.Binds (frame : Frame) : Prop :=
  ∀ stmt, frame.pending = some stmt → ∃ name ctx, IsContext ctx ∧ stmt = bindFromContext name ctx

theorem Frame.Binds.later {frame frame' : Frame} (hbinds : frame.Binds)
    (h : frame.Precedes frame') : frame'.Binds := by
  intro stmt hstmt
  obtain hpending | hpending := h.pending
  · exact hbinds stmt (hpending ▸ hstmt)
  · simp [hpending] at hstmt

/-! ## Bodies -/

theorem weaves_insert_all (app : Application) (front back added : List Stmt)
    (hadded : ∀ stmt ∈ added, ∀ near, Addition near stmt.kind) :
    Weaves app (front ++ back) app (front ++ added ++ back) := by
  induction added generalizing front with
  | nil => simpa using Weaves.refl
  | cons stmt added ih =>
      have hfirst : Weaves app (front ++ back) app (front ++ stmt :: back) :=
        .insert front back (hadded stmt (by simp) _)
      have hrest := ih (front ++ [stmt]) fun stmt hstmt => hadded stmt (by simp [hstmt])
      simp only [List.append_assoc, List.singleton_append] at hrest
      simpa using hfirst.trans hrest

theorem Frame.Binds.prologue {frame : Frame} (hbinds : frame.Binds) (hasSegment : Bool) :
    ∀ stmt ∈ (frame.prologue hasSegment).1, ∀ near, Addition near stmt.kind := by
  intro stmt hstmt near
  simp only [Frame.prologue, List.mem_append, Option.mem_toList] at hstmt
  obtain hbinding | hopening := hstmt
  · split at hbinding
    · obtain ⟨name, ctx, hctx, rfl⟩ := hbinds stmt hbinding
      exact .fromContext name hctx
    · contradiction
  · unfold Frame.opening? at hopening
    split at hopening
    · contradiction
    · obtain ⟨name, -, rfl⟩ := Option.map_eq_some_iff.1 hopening
      exact .segment name frame.txn

/-- The binding that stands in for the pending one. -/
def Frame.bound? (frame : Frame) (stmts : List Stmt) : Option (Nat × String) :=
  if frame.pending.isSome then existingBinding? stmts else none

/-- The frame in which a body is walked. -/
def Frame.settled (frame : Frame) (stmts : List Stmt) : Frame :=
  match frame.bound? stmts with
  | none => frame
  | some (_, name) => { frame with txn := name, pending := none }

/-- The number of statements that stay above the prologue. -/
def Frame.top (frame : Frame) (stmts : List Stmt) : Nat :=
  ((frame.bound? stmts).map fun (index, _) => index + 1).getD 0

theorem precedes_settled (frame : Frame) (stmts : List Stmt) :
    frame.Precedes (frame.settled stmts) := by
  unfold Frame.settled
  split
  · exact .refl
  · exact ⟨Nat.le_refl _, .inr rfl, rfl⟩

/-- `traceBody`, with its first steps and its last ones taken together. -/
theorem wp_traceBody (walk : Walk) (body : Block) (Q : Block → Frame → Application → Prop)
    (frame : Frame) (app : Application) :
    Trace.wp (traceBody walk body) Q frame app ↔
      Trace.wp (walk body.stmts) (fun walked frame' app' =>
        Q { body with stmts :=
              walked.take (frame.top body.stmts) ++
                (frame'.prologue (body.stmts.any isDeferSegment)).1 ++
              walked.drop (frame.top body.stmts) }
          (frame'.prologue (body.stmts.any isDeferSegment)).2 app')
        (frame.settled body.stmts) app := by
  unfold traceBody Frame.settled Frame.top Frame.bound?
  simp only [Trace.wp_bind, Trace.wp_get]
  generalize (if frame.pending.isSome then existingBinding? body.stmts else none) = bound
  cases bound <;> exact .rfl

theorem traceBody_weaves {walk : Walk} (hwalk : walk.Weaves) (body : Block) {frame : Frame}
    (hbinds : frame.Binds) (app : Application) :
    Trace.wp (traceBody walk body) (fun body' _ app' =>
      ∃ stmts, body' = { body with stmts } ∧ Weaves app body.stmts app' stmts) frame app := by
  rw [wp_traceBody]
  refine (hwalk body.stmts (frame.settled body.stmts) app).mono fun walked frame' app' h => ?_
  refine ⟨_, rfl, h.1.trans ?_⟩
  have hadded := (hbinds.later ((precedes_settled frame body.stmts).trans h.2)).prologue
    (body.stmts.any isDeferSegment)
  -- the prologue stands behind the statements at the top, wherever these end
  have hinsert := weaves_insert_all app' (walked.take (frame.top body.stmts))
    (walked.drop (frame.top body.stmts)) _ hadded
  rwa [List.take_append_drop] at hinsert

theorem traceFunction_weaves {walk : Walk} (hwalk : walk.Weaves) {ref : FuncRef} {frame : Frame}
    (hbinds : frame.Binds) {app : Application} {body : Block} (hbody : app.body? ref = some body) :
    Weave.wp (traceFunction walk ref frame) (fun _ app' => ∃ app'' body',
      body'.trailing = body.trailing ∧
      Weaves ((app.noteEntered ref).setBody ref none) body.stmts app'' body'.stmts ∧
        app' = app''.setBody ref (some body')) app := by
  unfold traceFunction Weave.withBody
  simp only [Weave.wp_bind, Weave.wp_get, hbody, Weave.wp_modify, Trace.wp_run]
  refine (traceBody_weaves hwalk body hbinds _).mono fun body' _ app'' h => ?_
  obtain ⟨stmts, rfl, hweaves⟩ := h
  exact ⟨app'', { body with stmts }, rfl, hweaves, rfl⟩

/-! ## Calls -/

theorem Carrier.mayExtend_of_extended {carrier : Carrier} {info : Info} {list : FieldList}
    {call : Call} {async mayExtend : Bool} {txn : Expr}
    (h : (carrier.pass info list call async mayExtend txn).extended = true) : mayExtend = true := by
  unfold Carrier.pass at h
  dsimp only at h
  split at h
  · unfold Carrier.passItself at h
    split at h
    · split at h <;> contradiction
    · contradiction
  · split at h
    · unfold Carrier.passContext at h
      split at h
      · contradiction
      · dsimp only at h
        split at h <;> contradiction
    · split at h
      · assumption
      · contradiction

theorem traced_binds (package agent : String) (carrier : Carrier) (txn : String) :
    (Frame.traced package agent carrier txn).Binds := by
  intro stmt hstmt
  cases carrier with
  | transaction name => contradiction
  | context name =>
      cases hstmt
      exact ⟨_, _, .variable name, rfl⟩
  | stream name type =>
      cases hstmt
      exact ⟨_, _, .method name, rfl⟩

theorem childFrame_binds (caller : Frame) (ref : FuncRef) (child : Option Carrier) (async : Bool) :
    (childFrame caller ref child async).Binds := by
  unfold childFrame
  split
  · exact fun _ hstmt => nomatch hstmt
  · next carrier => exact traced_binds ref.package caller.agent carrier transactionVariable

/-- What a call became, in the application around it. -/
def Passed (call : Call) (frame : Frame) (app : Application) (call' : Call) (frame' : Frame)
    (app' : Application) : Prop :=
  frame.Precedes frame' ∧ ∀ decs stmts stmts',
    StmtsRewrite false ⟨.call call, decs⟩ ⟨.call call', decs⟩ stmts stmts' →
      Retouches app stmts app' stmts'

theorem body?_applyTo (passing : Passing) (ref : FuncRef) (app : Application) :
    ((passing.applyTo ref app).markTraced ref).body? ref = app.body? ref := by
  unfold Application.body? Passing.applyTo
  split
  · show (((app.modifyFunc ref _).markTraced ref).func? ref).bind _ = _
    rw [Application.func?_markTraced, Application.func?_modifyFunc]
    cases app.func? ref <;> rfl
  · rw [Application.func?_markTraced]

theorem Passing.retouches_addImports (passing : Passing) (caller : String) (ref : FuncRef)
    (app : Application) (stmts : List Stmt) :
    Retouches app stmts (passing.addImports caller ref app) stmts := by
  unfold Passing.addImports
  dsimp only
  split
  · split
    · exact .trans (.needImport caller _) (.needImport ref.package _)
    · exact .needImport ref.package _
  · split
    · exact .needImport caller _
    · exact .refl

theorem followCall_retouches {walk : Walk} (hwalk : walk.Weaves) (caller : Frame) (async : Bool)
    {call : Call} {ref : FuncRef} {passing : Passing} {app : Application}
    (hands : Hands app call ref passing) :
    Weave.wp (followCall walk caller async ref (app.mayInstrument ref) passing)
      (fun _ app' => ∀ decs stmts stmts',
        StmtsRewrite false ⟨.call call, decs⟩ ⟨.call passing.call, decs⟩ stmts stmts' →
          Retouches app stmts app' stmts') app := by
  unfold followCall
  simp only [Weave.wp_bind, Weave.wp_modify]
  cases hmay : app.mayInstrument ref with
  | false =>
      -- nothing is extended then, so that only the call changes
      have hextended : passing.extended = false := by
        obtain ⟨func, carrier, async, txn, -, hpassing⟩ := hands.passes
        rw [hmay] at hpassing
        cases hextended : passing.extended with
        | false => rfl
        | true => exact absurd (Carrier.mayExtend_of_extended (hpassing ▸ hextended)) (by simp)
      intro decs stmts stmts' hrewrite
      have happly : passing.applyTo ref app = app := by simp [Passing.applyTo, hextended]
      rw [happly]
      exact .trans (.adjust (.pass hands hmay) hrewrite) (passing.retouches_addImports ..)
  | true =>
      obtain ⟨body, hbody⟩ : ∃ body, app.body? ref = some body := by
        rw [Application.mayInstrument_eq] at hmay
        simp only [Bool.and_eq_true, Option.any_eq_true] at hmay
        obtain ⟨-, func, hfunc, hbody⟩ := hmay
        obtain ⟨body, hbody⟩ := Option.isSome_iff_exists.1 hbody
        exact ⟨body, by simp [Application.body?, hfunc, hbody]⟩
      have htraced := traceFunction_weaves hwalk (childFrame_binds caller ref passing.child async)
        ((body?_applyTo passing ref app).trans hbody)
      simp only [if_true, Weave.wp_bind, Weave.wp_modify]
      refine htraced.mono fun _ app' h => ?_
      obtain ⟨app'', body', htrailing, hweaves, rfl⟩ := h
      intro decs stmts stmts' hrewrite
      exact .trans (.enter hands hmay hbody hrewrite htrailing hweaves) (passing.retouches_addImports ..)

/-- The call goes to a function of the application that a carrier at hand may be passed to. -/
structure Aims (app : Application) (frame : Frame) (call : Call) (ref : FuncRef)
    (carrier : Carrier) (func : FuncDecl) : Prop where
  resolved : app.resolve? call = some ref
  carried : frame.carrier = some carrier
  key_ne : ref.key ≠ "main"
  found : app.func? ref = some func

theorem Aims.hands {app : Application} {frame : Frame} {call : Call} {ref : FuncRef}
    {carrier : Carrier} {func : FuncDecl} (h : Aims app frame call ref carrier func)
    (async : Bool) : Hands app call ref (carrier.pass app.types func.params call async
      (app.mayInstrument ref) (.ident frame.txn)) :=
  ⟨h.resolved, h.key_ne, func, carrier, async, frame.txn, h.found, rfl⟩

/-- A call stays as it is unless it goes to a function that is followed then. -/
theorem wp_passCall {walk : Walk} {async : Bool} {call : Call}
    {Q : Call → List Advisory → Frame → Application → Prop} {advisories : List Advisory}
    {frame : Frame} {app : Application}
    (hstays : (∀ ref carrier func, ¬ Aims app frame call ref carrier func) →
      Q call advisories frame app)
    (hpasses : ∀ ref carrier func passing, Aims app frame call ref carrier func →
      carrier.pass app.types func.params call async (app.mayInstrument ref) (.ident frame.txn) =
        passing →
      Weave.wp (followCall walk frame async ref (app.mayInstrument ref) passing)
        (fun _ app' => Q passing.call (advisories ++ passing.advisory.toList)
          { frame with used := frame.used || passing.usesTransaction } app') app) :
    Advised.wp (passCall walk async call) Q advisories frame app := by
  unfold passCall
  rw [Advised.wp_bind, Advised.wp_lift, Trace.wp_get, Advised.wp_bind, Advised.wp_lift, Trace.wp_app]
  split
  case h_1 ref carrier hresolve hcarrier =>
    split
    · next hkey =>
      refine hstays fun ref' _ _ haims => haims.key_ne ?_
      obtain rfl := Option.some.inj (hresolve.symm.trans haims.resolved)
      exact beq_iff_eq.1 hkey
    · next hkey =>
      split
      · next hfunc =>
        refine hstays fun ref' _ _ haims => ?_
        obtain rfl := Option.some.inj (hresolve.symm.trans haims.resolved)
        exact absurd (hfunc.symm.trans haims.found) nofun
      · next func hfunc =>
        rw [Advised.wp_bind, Advised.wp_lift, Trace.wp_modify, Advised.wp_bind, Advised.wp_liftWeave]
        exact hpasses ref carrier func _ ⟨hresolve, hcarrier, by simpa using hkey, hfunc⟩ rfl
  case h_2 hnone =>
    exact hstays fun ref carrier _ haims => hnone ref carrier haims.resolved haims.carried

theorem passCall_passed {walk : Walk} (hwalk : walk.Weaves) (async : Bool) (call : Call)
    (advisories : List Advisory) (frame : Frame) (app : Application) :
    Advised.wp (passCall walk async call) (fun call' advisories' frame' app' =>
      Passed call frame app call' frame' app' ∨
        (call' = call ∧ advisories' = advisories ∧ frame' = frame ∧ app' = app))
      advisories frame app := by
  refine wp_passCall (fun _ => .inr ⟨rfl, rfl, rfl, rfl⟩) ?_
  rintro ref carrier func _ haims rfl
  refine (followCall_retouches hwalk frame async (haims.hands async)).mono fun _ app' h => ?_
  exact .inl ⟨.of_eq rfl rfl rfl, h⟩

/-- The changes of a visit, wherever the visited expression stands. -/
def visited : Visits (List Advisory × Frame × Application) := fun before after =>
  before.2.2.1.Precedes after.2.2.1 ∧ ∀ stmts stmts',
    StmtsRewrite false before.1 after.1 stmts stmts' →
      Retouches before.2.2.2 stmts after.2.2.2 stmts'

theorem passCall_follows {walk : Walk} (hwalk : walk.Weaves) (async : Bool) :
    (Edits.calls false (passCall walk async)).Follows Advised.threaded visited := by
  refine ⟨fun call decs s => ?_, fun ident decs s => .inr rfl⟩
  obtain ⟨advisories, frame, app⟩ := s
  have hpassed : Advised.wp (passCall walk async call) _ advisories frame app :=
    passCall_passed hwalk async call advisories frame app
  obtain ⟨hframe, hretouches⟩ | ⟨hcall, hadvisories, hframe, happ⟩ := hpassed
  · exact .inl ⟨hframe, hretouches decs⟩
  · exact .inr (Prod.ext hcall (Prod.ext hadvisories (Prod.ext hframe happ)))

/-- Visits one after the other, at a place of a list. -/
theorem retouches_of_visits {α : Type} {rewrites : Expr → Expr → α → α → Prop}
    (whole : α → List Stmt)
    (hwhole : ∀ part part' a a', rewrites part part' a a' →
      StmtsRewrite false part part' (whole a) (whole a'))
    {before after : α × List Advisory × Frame × Application}
    (steps : Steps rewrites visited before after) :
    before.2.2.1.Precedes after.2.2.1 ∧
      Retouches before.2.2.2 (whole before.1) after.2.2.2 (whole after.1) := by
  induction steps with
  | refl => exact ⟨.refl, .refl⟩
  | tail _ hstep ih =>
      obtain ⟨part, part', ⟨hframe, hretouches⟩, hrewrites⟩ := hstep
      exact ⟨ih.1.trans hframe, ih.2.trans (hretouches _ _ (hwhole part part' _ _ hrewrites))⟩

theorem editExprs_eq_mapM {m : Type → Type} [Monad m] [LawfulMonad m] (edits : Edits m)
    (exprs : List Expr) : editExprs edits exprs = exprs.mapM (·.edit edits) := by
  induction exprs with
  | nil => simp [editExprs]
  | cons expr exprs ih => simp [editExprs, ih]

/-- A change of a statement, wherever it stands. -/
def Alters (stmt : Stmt) (frame : Frame) (app : Application) (stmt' : Stmt) (frame' : Frame)
    (app' : Application) : Prop :=
  frame.Precedes frame' ∧ ∀ front back,
    Retouches app (front ++ stmt :: back) app' (front ++ stmt' :: back)

theorem passCalls_alters {walk : Walk} (hwalk : walk.Weaves) (stmt : Stmt)
    (advisories : List Advisory) (frame : Frame) (app : Application) :
    Advised.wp (passCalls walk stmt) (fun stmt' _ => Alters stmt frame app stmt')
      advisories frame app := by
  obtain ⟨kind, decs⟩ := stmt
  unfold passCalls
  split
  · next value hkind =>
    split
    · exact ⟨.refl, fun _ _ => .refl⟩
    · next call hcall =>
      obtain rfl : kind = .spawn ⟨.call call, value.decs⟩ := by
        rw [← eq_of_call? hcall]
        exact hkind
      obtain ⟨callee, args, spread, closesLine⟩ := call
      -- the arguments first, then the call itself, which runs elsewhere
      have hargs : Advised.wp (args.mapM (·.edit (Edits.calls false (passCall walk false))))
          (fun args' _ => Alters ⟨.spawn ⟨.call ⟨callee, args, spread, closesLine⟩, value.decs⟩, decs⟩
            frame app ⟨.spawn ⟨.call ⟨callee, args', spread, closesLine⟩, value.decs⟩, decs⟩)
          advisories frame app := by
        have hsteps := editExprs_steps (passCall_follows hwalk false) args (advisories, frame, app)
        rw [editExprs_eq_mapM] at hsteps
        have hretouches := fun front back => retouches_of_visits (fun args => front ++
          ⟨.spawn ⟨.call ⟨callee, args, spread, closesLine⟩, value.decs⟩, decs⟩ :: back) (by
            rintro part part' _ _ ⟨inner, h⟩
            exact .within front (.spawn rfl (.arg h))) hsteps
        exact ⟨(hretouches [] []).1, fun front back => (hretouches front back).2⟩
      rw [Advised.wp_bind]
      refine hargs.mono fun args' advisories' frame' app' hargs => ?_
      rw [Advised.wp_bind]
      refine (passCall_passed hwalk true _ advisories' frame' app').mono ?_
      rintro call' advisories'' frame'' app'' (⟨hframe, hretouches⟩ | ⟨rfl, rfl, rfl, rfl⟩)
      · refine ⟨hargs.1.trans hframe, fun front back => (hargs.2 front back).trans ?_⟩
        exact hretouches value.decs _ _ (.within front (.spawn rfl .here))
      · exact hargs
  · have hsteps := kind.edit_steps (passCall_follows hwalk false) .own (advisories, frame, app)
    have hretouches := fun front back => retouches_of_visits (fun kind => front ++ ⟨kind, decs⟩ :: back)
      (fun _ _ _ _ h => .within front (h.widen rfl)) hsteps
    exact ⟨(hretouches [] []).1, fun front back => (hretouches front back).2⟩

theorem attachAll_alters (advisories : List Advisory) (stmt : Stmt) (frame : Frame)
    (app : Application) :
    Trace.wp (advisories.foldlM (fun stmt advisory => Trace.attach advisory stmt) stmt)
      (Alters stmt frame app) frame app := by
  induction advisories generalizing stmt app with
  | nil => exact ⟨.refl, fun _ _ => .refl⟩
  | cons advisory advisories ih =>
      rw [List.foldlM_cons, Trace.wp_bind]
      refine Trace.wp_attach fun decs console hdecs => ?_
      refine (ih { stmt with decs } { app with console }).mono fun stmt' frame' app' h => ?_
      refine ⟨h.1, fun front back => .trans ?_ (h.2 front back)⟩
      exact .trans (.dress front back hdecs) (.console console)

theorem passAndAdvise_moves {walk : Walk} (hwalk : walk.Weaves) (cursor : Cursor) (frame : Frame)
    (app : Application) :
    Trace.wp (passAndAdvise walk cursor) (Moves cursor frame app) frame app := by
  unfold passAndAdvise
  rw [Trace.wp_bind]
  refine Trace.wp.mono (passCalls_alters hwalk cursor.current [] frame app) ?_
  intro result frame' app' h
  rw [Trace.wp_bind]
  refine (attachAll_alters result.2 result.1 frame' app').mono fun stmt frame'' app'' h' => ?_
  refine (Moves.refl.reframe (h.1.trans h'.1)).replace fun front back => ?_
  exact (h.2 front back).trans (h'.2 front back)

theorem startOwnTransaction_moves (name : String) (cursor : Cursor) (frame : Frame)
    (app : Application) :
    Trace.wp (startOwnTransaction name cursor) (Moves cursor frame app) frame app := by
  unfold startOwnTransaction
  simp only [Trace.wp_bind, Trace.wp_get, Trace.wp_modify, Trace.wp_pure]
  have hframe : frame.Precedes ((frame.declare transactionVariable).startTransaction
      transactionVariable) :=
    (precedes_declare frame transactionVariable).trans ⟨Nat.le_refl _, .inr rfl, rfl⟩
  have hplain := isDeferSegment_bindVariable transactionVariable
    (methodCall (.ident frame.agent) "StartTransaction" [.string name])
  refine ((Moves.refl.reframe hframe).surround _ (hplain _) ?_).insertAfter rfl ?_
  · exact .start frame.agent transactionVariable name _
  · exact .ending transactionVariable

theorem traceCalls_moves {walk : Walk} (hwalk : walk.Weaves) (cursor : Cursor) (frame : Frame)
    (app : Application) :
    Trace.wp (traceCalls walk cursor) (fun result => Moves cursor frame app result.1)
      frame app := by
  unfold traceCalls
  simp only [Trace.wp_bind, Trace.wp_get, Trace.wp_app]
  split
  · exact .refl
  · split
    · rw [Trace.wp_bind]
      refine Trace.wp_attach fun decs console hdecs => ?_
      exact (Moves.refl.dress hdecs).console console
    · split
      · split
        · exact .refl
        · split
          · exact .refl
          · next ref _ =>
            rw [Trace.wp_bind]
            refine (startOwnTransaction_moves ref.key cursor frame app).mono ?_
            intro cursor' frame' app' h
            rw [Trace.wp_bind]
            refine (passAndAdvise_moves hwalk cursor' frame' app').mono ?_
            exact fun cursor'' frame'' app'' h' => h.trans h'
      · rw [Trace.wp_bind]
        exact passAndAdvise_moves hwalk cursor frame app

/-! ## Goroutines -/

theorem kind_of_spawnedLiteral? {stmt : Stmt} {literal : SpawnedLiteral}
    (h : spawnedLiteral? stmt = some literal) : stmt.kind = literal.kind := by
  unfold spawnedLiteral? at h
  split at h
  · next value hkind =>
    obtain ⟨call, hcall, h⟩ := Option.bind_eq_some_iff.1 h
    split at h
    · next params results body hcallee =>
      cases h
      obtain ⟨⟨calleeKind, calleeDecs⟩, args, spread, closesLine⟩ := call
      rw [hkind, eq_of_call? hcall]
      simp only [SpawnedLiteral.kind]
      exact congrArg (fun kind => StmtKind.spawn ⟨.call ⟨⟨kind, calleeDecs⟩, args, spread,
        closesLine⟩, value.decs⟩) hcallee
    · contradiction
  · contradiction

/-- A literal is left as it is or takes a transaction of its own. -/
theorem handTransaction_alters {literal : SpawnedLiteral} {stmt : Stmt}
    (hkind : stmt.kind = literal.kind) (hvariadic : literal.params.isVariadic = false) (frame : Frame) (app : Application) :
    Trace.wp (handTransaction literal) (fun result frame' app' => frame.Precedes frame' ∧
      ((result = none ∧ app' = app) ∨ ∃ literal' name, result = some (literal', name) ∧
        ∀ front back, Retouches app (front ++ stmt :: back) app'
          (front ++ { stmt with kind := literal'.kind } :: back))) frame app := by
  unfold handTransaction
  simp only [Trace.wp_bind, Trace.wp_types]
  split
  · next name _ =>
    refine ⟨.refl, .inr ⟨literal, name, rfl, fun front back => ?_⟩⟩
    obtain ⟨kind, decs⟩ := stmt
    cases hkind
    exact .refl
  · next hlacks =>
    simp only [Trace.transaction, Trace.wp_bind, Trace.wp_modifyGet]
    split
    · exact ⟨precedes_transaction frame, .inl ⟨rfl, rfl⟩⟩
    · next txn htxn =>
      simp only [Trace.wp_bind, Trace.wp_needImport, Trace.wp_pure]
      rw [transaction_isVariable htxn]
      refine ⟨precedes_transaction frame, .inr ⟨_, _, rfl, fun front back => ?_⟩⟩
      exact .trans (.hand front back literal frame.txn hkind hvariadic hlacks) (.needImport _ _)

theorem SpawnedLiteral.nests (literal : SpawnedLiteral) (stmts : List Stmt) :
    StmtKind.Nests literal.body.stmts stmts literal.kind
      { literal with body := { literal.body with stmts } }.kind := by
  obtain ⟨value, call, params, results, ⟨stmts, trailing, inline⟩⟩ := literal
  exact .spawned

theorem traceLiteral_moves {walk : Walk} (hwalk : walk.Weaves) (cursor : Cursor) (frame : Frame)
    (app : Application) :
    Trace.wp (traceLiteral walk cursor) (Moves cursor frame app) frame app := by
  unfold traceLiteral
  split
  · exact .refl
  · next literal hliteral =>
    simp only [Trace.wp_bind, Trace.wp_get]
    split
    · rw [Trace.wp_bind]
      refine Trace.wp_attach fun decs console hdecs => ?_
      exact (Moves.refl.dress hdecs).console console
    · split
      · exact .refl
      · next hplain =>
        simp only [Bool.or_eq_true, not_or, Bool.not_eq_true] at hplain
        rw [Trace.wp_bind]
        refine (handTransaction_alters (kind_of_spawnedLiteral? hliteral) hplain.2 frame app).mono ?_
        rintro result frame' app' ⟨hframe, ⟨rfl, rfl⟩ | ⟨literal', name, rfl, hhanded⟩⟩
        · exact Moves.refl.reframe hframe
        · simp only [Trace.wp_bind, Trace.wp_lift, Trace.wp_run]
          have hbinds : ({ Frame.traced frame.package frame.agent (.transaction name)
              transactionVariable with segment := some "async literal" } : Frame).Binds :=
            fun _ hstmt => nomatch hstmt
          refine (traceBody_weaves hwalk literal'.body hbinds app').mono ?_
          rintro body _ app'' ⟨stmts, rfl, hweaves⟩
          refine (Moves.refl.reframe hframe).replace fun front back => (hhanded front back).trans ?_
          exact .nested front back (literal'.nests stmts) hweaves

/-! ## Statements -/

theorem editBlocks_alters {walk : Walk} (hwalk : walk.Weaves) (stmt : Stmt) (frame : Frame)
    (app : Application) :
    Trace.wp (stmt.editBlocks walk) (Alters stmt frame app) frame app := by
  obtain ⟨kind, decs⟩ := stmt
  have halters : ∀ after, BlockSteps Trace.threaded walk (kind, frame, app) after →
      Alters ⟨kind, decs⟩ frame app ⟨after.1, decs⟩ after.2.1 after.2.2 := by
    intro after steps
    induction steps with
    | refl => exact ⟨.refl, fun _ _ => .refl⟩
    | @tail before after _ hstep ih =>
        obtain ⟨stmts, hreplaces, hstate⟩ := hstep
        obtain ⟨hstmts, hframe⟩ := hwalk stmts before.2.1 before.2.2
        rw [hstate]
        refine ⟨ih.1.trans hframe, fun front back => (ih.2 front back).trans ?_⟩
        exact .nested front back (.block hreplaces) hstmts
  exact halters _ (kind.editBlocks_steps (frame, app))

theorem precedes_declareStmt (frame : Frame) (stmt : Stmt) :
    frame.Precedes (frame.declareStmt stmt) := by
  unfold Frame.declareStmt
  split
  · next left right _ =>
    generalize (left.filterMap Expr.ident?).filter (!·.isBlank) = idents
    induction idents generalizing frame with
    | nil => exact .refl
    | cons ident idents ih => exact (precedes_declare frame ident.name).trans (ih _)
  · exact .refl

theorem precedes_startTransaction (frame : Frame) (name : String) :
    frame.Precedes (frame.startTransaction name) :=
  ⟨Nat.le_refl _, .inr rfl, rfl⟩

theorem precedes_endTransaction (frame : Frame) : frame.Precedes frame.endTransaction :=
  .of_eq rfl rfl rfl

theorem precedes_followTransaction (stmt : Stmt) (frame : Frame) :
    frame.Precedes (followTransaction stmt frame) := by
  unfold followTransaction
  split
  · split
    · split
      · exact precedes_startTransaction frame _
      · exact .refl
    · exact .refl
  · dsimp only
    split
    · exact precedes_endTransaction frame
    · exact .refl
  · exact .refl

theorem statementDetectors_moves {walk : Walk} (hwalk : walk.Weaves) :
    ∀ detector ∈ statementDetectors walk, ∀ cursor frame app,
      Trace.wp (detector.detect cursor) (Moves cursor frame app) frame app := by
  intro detector hdetector cursor frame app
  simp only [statementDetectors, List.mem_cons, List.not_mem_nil, or_false] at hdetector
  rcases hdetector with rfl | rfl | rfl | rfl | rfl | rfl | rfl
  · exact traceLiteral_moves hwalk cursor frame app
  · exact wrapRegistration_moves cursor frame app
  · exact traceRequest_moves cursor frame app
  · exact installMiddleware_moves cursor frame app
  · exact interceptServers_moves cursor frame app
  · exact wrapHandlers_moves cursor frame app
  · exact traceQuery_moves cursor frame app

/-- Detectors one after the other. -/
theorem foldlM_moves (detectors : List StatementDetector)
    (hmoves : ∀ detector ∈ detectors, ∀ cursor frame app,
      Trace.wp (detector.detect cursor) (Moves cursor frame app) frame app)
    (cursor : Cursor) (frame : Frame) (app : Application) :
    Trace.wp (detectors.foldlM (fun cursor detector => detector.detect cursor) cursor)
      (Moves cursor frame app) frame app := by
  induction detectors generalizing cursor frame app with
  | nil => exact .refl
  | cons detector detectors ih =>
      rw [List.foldlM_cons, Trace.wp_bind]
      refine (hmoves detector (by simp) cursor frame app).mono fun cursor' frame' app' h => ?_
      refine (ih (fun detector hmem => hmoves detector (by simp [hmem])) cursor' frame' app').mono ?_
      exact fun cursor'' frame'' app'' h' => h.trans h'

theorem finishVisit_moves {walk : Walk} (hwalk : walk.Weaves) (started : Bool) (cursor : Cursor)
    (frame : Frame) (app : Application) :
    Trace.wp (finishVisit walk started cursor) (Moves cursor frame app) frame app := by
  unfold finishVisit
  rw [Trace.wp_bind]
  refine (foldlM_moves _ (statementDetectors_moves hwalk) cursor frame app).mono ?_
  intro cursor' frame' app' hmoves
  rw [Trace.wp_bind]
  refine (editBlocks_alters hwalk cursor'.current frame' app').mono ?_
  intro stmt frame'' app'' halters
  simp only [Trace.wp_bind, Trace.wp_modify, Trace.wp_pure]
  refine ((hmoves.reframe halters.1).replace halters.2).reframe ?_
  refine (precedes_declareStmt frame'' stmt).trans ?_
  split
  · exact precedes_endTransaction _
  · split
    · exact precedes_followTransaction stmt _
    · exact .refl

theorem visit_moves {walk : Walk} (hwalk : walk.Weaves) (cursor : Cursor) (frame : Frame)
    (app : Application) :
    Trace.wp (visit walk cursor) (Moves cursor frame app) frame app := by
  unfold visit
  rw [Trace.wp_bind]
  refine (traceCalls_moves hwalk cursor frame app).mono fun result frame' app' hcalls => ?_
  obtain ⟨cursor', started⟩ := result
  simp only [Trace.wp_bind, Trace.wp_get]
  split
  · rw [Trace.wp_bind]
    refine (noticeErrors_moves cursor' frame' app').mono fun cursor'' frame'' app'' hnotice => ?_
    refine (finishVisit_moves hwalk started cursor'' frame'' app'').mono fun _ _ _ hrest => ?_
    exact hcalls.trans (hnotice.trans hrest)
  · rw [Trace.wp_bind, Trace.wp_pure]
    refine (finishVisit_moves hwalk started cursor' frame' app').mono fun _ _ _ hrest => ?_
    exact hcalls.trans hrest

/-! ## Lists -/

theorem walkFrom_retouches {walk : Walk} (hwalk : walk.Weaves) (limit : Nat)
    (passed rest : List Stmt) (frame : Frame) (app : Application) :
    Trace.wp (walkFrom (visit walk) limit passed rest) (fun stmts' frame' app' =>
      Retouches app (passed.reverse ++ rest) app' stmts' ∧ frame.Precedes frame') frame app :=
  walkFrom_preserves Trace.threaded (R := fun x y =>
      Retouches x.2.2 x.1 y.2.2 y.1 ∧ x.2.1.Precedes y.2.1) (fun _ => ⟨.refl, .refl⟩)
    (fun h h' => ⟨h.1.trans h'.1, h.2.trans h'.2⟩)
    (fun cursor s => ⟨(visit_moves hwalk cursor s.1 s.2).retouches,
      (visit_moves hwalk cursor s.1 s.2).frame⟩)
    limit passed rest (frame, app)

theorem precedes_popScope (frame : Frame) : frame.Precedes frame.popScope := by
  unfold Frame.popScope
  split
  · exact .of_eq rfl rfl rfl
  · exact .refl

theorem walkBlock_succ_retouches {depth : Nat} (hwalk : (walkBlock depth).Weaves)
    (stmts : List Stmt) (frame : Frame) (app : Application) :
    Trace.wp (walkBlock (depth + 1) stmts) (fun stmts' frame' app' =>
      Retouches app stmts app' stmts' ∧ frame.Precedes frame') frame app := by
  have hpush : frame.Precedes frame.pushScope := .of_eq rfl rfl rfl
  simp only [walkBlock, Trace.wp_bind, Trace.wp_modify]
  refine (walkFrom_retouches hwalk (stmts.length + 1) [] stmts frame.pushScope app).mono ?_
  intro stmts' frame' app' h
  simp only [Trace.wp_bind, Trace.wp_modify, Trace.wp_pure]
  exact ⟨h.1, hpush.trans (h.2.trans (precedes_popScope frame'))⟩

theorem walkBlock_weaves (depth : Nat) : (walkBlock depth).Weaves := by
  induction depth with
  | zero => exact fun stmts frame app => ⟨.refl, .refl⟩
  | succ depth ih =>
      intro stmts frame app
      exact (walkBlock_succ_retouches ih stmts frame app).mono fun _ _ _ h => ⟨h.1.weaves, h.2⟩

/-- No segment is opened in the list that the walk goes through, however deep it goes. -/
theorem walkBlock_retouches (depth : Nat) (stmts : List Stmt) (frame : Frame) (app : Application) :
    Trace.wp (walkBlock depth stmts) (fun stmts' frame' app' =>
      Retouches app stmts app' stmts' ∧ frame.Precedes frame') frame app := by
  cases depth with
  | zero => exact ⟨.refl, .refl⟩
  | succ depth => exact walkBlock_succ_retouches (walkBlock_weaves depth) stmts frame app

end TraceWeave.Tracing
