import TraceWeave.Proofs.Tracing.EntryDetectors

/-!
The walk through the entry function.

A visit turns the current statement into a row of statements whose starts and ends take the
list from one phase to the next.  Inside a transaction, the row has none of them, until the
visit reaches the end that a query has put off.  So every list that the walk leaves
behind alternates (`walkBlock_settles`).
-/

namespace TraceWeave.Tracing

open TraceWeave.Agent TraceWeave.Detect TraceWeave.Program TraceWeave.Syntax TraceWeave.Types

/-! ## Calls -/

/-- A gentle change of an expression, which leaves the transaction of the frame alone. -/
def attended : Visits (List Advisory × Frame × Application) := fun before after =>
  Gentle before.1 after.1 ∧
    ∀ outer phase, before.2.2.1.At outer phase → after.2.2.1.At outer phase

theorem passCall_attends (walk : Walk) (async : Bool) (call : Call) (advisories : List Advisory)
    (frame : Frame) (app : Application) :
    Advised.wp (passCall walk async call) (fun call' _ frame' _ =>
      (∀ decs, Gentle ⟨.call call, decs⟩ ⟨.call call', decs⟩) ∧
        ∀ outer phase, frame.At outer phase → frame'.At outer phase) advisories frame app := by
  apply wp_passCall (fun _ => ⟨.refl_call call, fun _ _ => id⟩)
  rintro ref carrier func _ - rfl
  have hpasses := carrier.passes app.types func.params call async (app.mayInstrument ref) frame.txn
  exact ⟨hpasses.gentle, fun outer phase h => h.of_eq rfl rfl rfl rfl rfl⟩

theorem passCall_followsGently (walk : Walk) :
    (Edits.calls false (passCall walk false)).Follows Advised.threaded attended := by
  refine ⟨fun call decs s => .inl ?_, fun ident decs s => .inr rfl⟩
  obtain ⟨hgentle, hframe⟩ := passCall_attends walk false call s.1 s.2.1 s.2.2
  exact ⟨hgentle decs, hframe⟩

theorem frame_of_steps {α : Type} {rewrites : Expr → Expr → α → α → Prop}
    {before after : α × List Advisory × Frame × Application}
    (steps : Steps rewrites attended before after) {outer : List (List String)} {phase : Phase}
    (h : before.2.2.1.At outer phase) : after.2.2.1.At outer phase := by
  induction steps with
  | refl => exact h
  | tail _ hstep ih =>
      obtain ⟨part, part', hvisit, -⟩ := hstep
      exact hvisit.2 outer phase ih

theorem passCalls_attends (walk : Walk) {stmt : Stmt} (hspawn : isSpawn stmt = false)
    (advisories : List Advisory) (frame : Frame) (app : Application) :
    Advised.wp (passCalls walk stmt) (fun stmt' _ frame' _ => Remains stmt.kind stmt'.kind ∧
      ∀ outer phase, frame.At outer phase → frame'.At outer phase) advisories frame app := by
  obtain ⟨kind, decs⟩ := stmt
  unfold passCalls
  split
  · next value hkind =>
    obtain rfl : kind = .spawn value := hkind
    contradiction
  · have hsteps := kind.edit_steps (passCall_followsGently walk) .own (advisories, frame, app)
    exact ⟨remains_of_steps (.inl rfl) (fun _ _ h => h.1) hsteps,
      fun outer phase h => frame_of_steps hsteps h⟩

theorem attachAll_attends (advisories : List Advisory) (stmt : Stmt) (frame : Frame)
    (app : Application) :
    Trace.wp (advisories.foldlM (fun stmt advisory => Trace.attach advisory stmt) stmt)
      (fun stmt' frame' _ => stmt'.kind = stmt.kind ∧ frame' = frame) frame app := by
  induction advisories generalizing stmt app with
  | nil => exact ⟨rfl, rfl⟩
  | cons advisory advisories ih =>
      rw [List.foldlM_cons, Trace.wp_bind]
      exact Trace.wp_attach fun decs console _ => ih { stmt with decs } { app with console }

theorem passAndAdvise_attends (walk : Walk) {cursor : Cursor}
    (hspawn : isSpawn cursor.current = false) (frame : Frame) (app : Application) :
    Trace.wp (passAndAdvise walk cursor) (fun cursor' frame' _ =>
      (∃ stmt, cursor' = cursor.replace stmt ∧ Remains cursor.current.kind stmt.kind) ∧
        ∀ outer phase, frame.At outer phase → frame'.At outer phase) frame app := by
  unfold passAndAdvise
  rw [Trace.wp_bind]
  apply Trace.wp.mono (passCalls_attends walk hspawn [] frame app)
  rintro ⟨stmt, advisories⟩ frame' app' ⟨hstmt, hframe⟩
  rw [Trace.wp_bind]
  apply (attachAll_attends advisories stmt frame' app').mono
  rintro stmt' frame'' app'' ⟨hkind, rfl⟩
  exact ⟨⟨stmt', rfl, hkind ▸ hstmt⟩, hframe⟩

/-- The statement gets a transaction of its own. -/
structure Owns (outer : List (List String)) (phase : Phase) (cursor cursor' : Cursor)
    (frame' : Frame) : Prop where
  closed : phase.opened = false
  before : ∃ start, cursor'.before = start :: cursor.before ∧ Opens phase start
  after : ∃ ending, cursor'.after = cursor.after ++ [ending] ∧ Ends ending.kind
  current : Remains cursor.current.kind cursor'.current.kind
  rest : cursor'.rest = cursor.rest
  frame : frame'.At outer ⟨true, true⟩

theorem startOwnTransaction_owns {outer : List (List String)} {phase : Phase} (name : String)
    (cursor : Cursor) {frame : Frame} (app : Application) (hframe : frame.At outer phase)
    (hclosed : phase.opened = false) :
    Trace.wp (startOwnTransaction name cursor) (fun cursor' frame' _ =>
      cursor'.current.kind = cursor.current.kind ∧ Owns outer phase cursor cursor' frame')
      frame app := by
  unfold startOwnTransaction
  simp only [Trace.wp_bind, Trace.wp_get, Trace.wp_modify, Trace.wp_pure]
  refine ⟨rfl, hclosed, ⟨_, rfl, ?_⟩, ⟨_, rfl, ends_endTransaction⟩, .refl, rfl,
    hframe.declareTransaction.startTransaction⟩
  rw [hframe.isDeclared]
  exact opens_startTransaction ..

theorem traceCalls_attends {outer : List (List String)} {phase : Phase} (walk : Walk)
    (cursor : Cursor) {frame : Frame} (app : Application) (hframe : frame.At outer phase) :
    Trace.wp (traceCalls walk cursor) (fun result frame' _ =>
      (result.2 = false ∧ Attends cursor frame result.1 frame') ∨
        (result.2 = true ∧ Owns outer phase cursor result.1 frame')) frame app := by
  unfold traceCalls
  simp only [Trace.wp_bind, Trace.wp_get, Trace.wp_app]
  split
  · exact .inl ⟨rfl, .refl⟩
  · split
    · rw [Trace.wp_bind]
      exact Trace.wp_attach fun decs console _ => .inl ⟨rfl, Attends.refl.redress decs⟩
    · next hplain =>
      have hspawn : isSpawn cursor.current = false := by
        simpa [hframe.inMain] using hplain
      split
      · next hstarts =>
        have hclosed : phase.opened = false := by
          simpa [hframe.inMain, hframe.hasTransaction] using hstarts
        split
        · exact .inl ⟨rfl, .refl⟩
        · split
          · exact .inl ⟨rfl, .refl⟩
          · next ref _ =>
            rw [Trace.wp_bind]
            apply (startOwnTransaction_owns ref.key cursor app hframe hclosed).mono
            rintro cursor' frame' app' ⟨hkind, howns⟩
            have hspawn' : isSpawn cursor'.current = false := by
              unfold isSpawn
              rw [hkind]
              exact hspawn
            rw [Trace.wp_bind]
            apply (passAndAdvise_attends walk hspawn' frame' app').mono
            rintro _ frame'' app'' ⟨⟨stmt, rfl, hstmt⟩, hframe'⟩
            exact .inr ⟨rfl, { howns with
              current := howns.current.trans hstmt
              frame := hframe' _ _ howns.frame }⟩
      · rw [Trace.wp_bind]
        apply (passAndAdvise_attends walk hspawn frame app).mono
        rintro _ frame' app' ⟨⟨stmt, rfl, hstmt⟩, hframe'⟩
        exact .inl ⟨rfl, (Attends.refl.replace hstmt).reframe hframe'⟩

/-! ## Detectors -/

/-- Detectors one after the other. -/
theorem foldlM_attends {outer : List (List String)} {phase : Phase}
    (detectors : List StatementDetector)
    (hattends : ∀ detector ∈ detectors, ∀ cursor frame app, frame.At outer phase →
      Settled cursor.current.kind →
        Trace.wp (detector.detect cursor) (AttendsTo cursor frame) frame app)
    (cursor : Cursor) {frame : Frame} (app : Application) (hframe : frame.At outer phase)
    (hsettled : Settled cursor.current.kind) :
    Trace.wp (detectors.foldlM (fun cursor detector => detector.detect cursor) cursor)
      (AttendsTo cursor frame) frame app := by
  induction detectors generalizing cursor frame app with
  | nil => exact .refl
  | cons detector detectors ih =>
      rw [List.foldlM_cons, Trace.wp_bind]
      apply (hattends detector (by simp) cursor frame app hframe hsettled).mono
      intro cursor' frame' app' h
      apply (ih (fun detector hmem => hattends detector (by simp [hmem])) cursor' app'
        (h.frame _ _ hframe) (h.current.settled hsettled)).mono
      exact fun cursor'' frame'' app'' h' => h.trans h'

/-- Only the last detector may start a transaction. -/
theorem statementDetectors_attend {outer : List (List String)} {phase : Phase} (walk : Walk)
    (cursor : Cursor) {frame : Frame} (app : Application) (hframe : frame.At outer phase)
    (hsettled : Settled cursor.current.kind)
    (hcalm : phase.opened = false →
      Calm cursor.current.kind ∧ ∀ stmt ∈ cursor.rest, Calm stmt.kind) :
    Trace.wp ((statementDetectors walk).foldlM (fun cursor detector => detector.detect cursor)
      cursor) (fun cursor' frame' _ => frame'.At outer phase ∧ Attends cursor frame cursor' frame' ∨
        ∃ cursor₁ frame₁, Attends cursor frame cursor₁ frame₁ ∧
          StartsQuery outer phase cursor₁ cursor' frame') frame app := by
  have hattends : ∀ detector ∈ (statementDetectors walk).take 6, ∀ cursor frame app,
      frame.At outer phase → Settled cursor.current.kind →
        Trace.wp (detector.detect cursor) (AttendsTo cursor frame) frame app := by
    intro detector hdetector cursor frame app hframe hsettled
    simp only [statementDetectors, List.take_succ_cons, List.take_zero, List.mem_cons,
      List.not_mem_nil, or_false] at hdetector
    rcases hdetector with rfl | rfl | rfl | rfl | rfl | rfl
    · exact traceLiteral_attends walk cursor app hframe.inMain
    · exact wrapRegistration_attends cursor frame app
    · exact traceRequest_attends cursor frame app hsettled
    · exact installMiddleware_attends cursor frame app
    · exact interceptServers_attends cursor frame app
    · exact wrapHandlers_attends cursor frame app hsettled
  have hsplit : statementDetectors walk =
      (statementDetectors walk).take 6 ++ [⟨"database query", traceQuery⟩] := rfl
  rw [hsplit, List.foldlM_append, Trace.wp_bind]
  apply (foldlM_attends _ hattends cursor app hframe hsettled).mono
  intro cursor₁ frame₁ app₁ h
  have hframe₁ := h.frame _ _ hframe
  have hcalm₁ : phase.opened = false →
      Calm cursor₁.current.kind ∧ ∀ stmt ∈ cursor₁.rest, Calm stmt.kind := fun hclosed =>
    ⟨h.current.calm (hcalm hclosed).1, Remaining.calm h.rest (hcalm hclosed).2⟩
  rw [List.foldlM_cons, Trace.wp_bind]
  apply (traceQuery_attends cursor₁ app₁ hframe₁ hcalm₁).mono
  rintro cursor₂ frame₂ app₂ (hattend | hstarts)
  · exact .inl ⟨hattend.frame _ _ hframe₁, h.trans hattend⟩
  · exact .inr ⟨cursor₁, frame₁, h, hstarts⟩

/-! ## Blocks -/

/-- A list alternates, and has neither starts nor ends inside a transaction. -/
structure Orderly (phase : Phase) (stmts : List Stmt) : Prop where
  alternates : Alternates stmts
  silent : phase.opened = true → Silent stmts

theorem Silent.orderly {phase : Phase} {stmts : List Stmt} (h : Silent stmts) :
    Orderly phase stmts :=
  ⟨h.alternates, fun _ => h⟩

/-- The walk keeps the phase and leaves orderly lists behind. -/
def Walk.Settles (walk : Walk) : Prop :=
  ∀ stmts outer phase frame app, (∀ stmt ∈ stmts, Calm stmt.kind) → frame.At outer phase →
    Trace.wp (walk stmts) (fun stmts' frame' _ =>
      (∀ list, ListIn list stmts' → Orderly phase list) ∧ frame'.At outer phase) frame app

theorem Calm.of_mem_blocks {kind : StmtKind} (h : Calm kind) {block : List Stmt}
    (hblock : block ∈ kind.blocks) : ∀ stmt ∈ block, Calm stmt.kind := by
  have hcalls := kind.holds_blocks h.quiet block hblock
  intro stmt hstmt
  refine ⟨holds_stmts.1 hcalls stmt hstmt, fun hmem => ?_⟩
  refine h.targets (kind.targets_of_mem_blocks block hblock ?_)
  rw [targetsOfStmts_eq_flatMap]
  exact List.mem_flatMap.2 ⟨stmt, hstmt, hmem⟩

theorem qualifier?_eq_some {call : Call} {name : String} :
    qualifier? call = some name ↔
      (call.callee.selector?.any fun selector => selector.1.isIdent name) = true := by
  unfold qualifier? Expr.isIdent
  rcases call.callee.selector? with _ | ⟨operand, member⟩
  · simp
  · simp [Option.any_eq_true]

/-- A visited statement that neither starts nor ends a transaction itself. -/
def Plain (stmt : Stmt) : Prop := Calm stmt.kind ∨ stmt.kind.isCompound = true

namespace Plain

variable {stmt : Stmt} (h : Plain stmt)

include h

theorem unmarked : Unmarked stmt := by
  rcases h with hcalm | hcompound
  · exact unmarked_of_quiet hcalm.quiet
  · obtain ⟨kind, decs⟩ := stmt
    cases kind with
    | expr value => contradiction
    | assign left op right => contradiction
    | _ => exact ⟨rfl, rfl⟩

theorem declareStmt {outer : List (List String)} {phase : Phase} {frame : Frame}
    (hframe : frame.At outer phase) : (frame.declareStmt stmt).At outer phase := by
  rcases h with hcalm | hcompound
  · exact hframe.declareStmt hcalm.targets
  · obtain ⟨kind, decs⟩ := stmt
    cases kind with
    | expr value => contradiction
    | assign left op right => contradiction
    | _ => exact hframe

theorem followTransaction {outer : List (List String)} {phase : Phase} {frame : Frame}
    (hframe : frame.At outer phase) : (followTransaction stmt frame).At outer phase := by
  obtain ⟨kind, decs⟩ := stmt
  unfold Tracing.followTransaction
  split
  · next target op value hkind =>
    split
    · split
      · next hstarts =>
        rcases h with hcalm | hcompound
        · obtain ⟨call, hvalue, hname⟩ := (Option.any_eq_true _ _).1 hstarts
          obtain ⟨-, hright⟩ := Holds.append.1 (hkind ▸ hcalm.quiet)
          exact absurd (beq_iff_eq.1 hname)
            (holds_of_call? (holds_exprs_cons.1 hright).1 hvalue).start
        · rw [hkind] at hcompound
          contradiction
      · exact hframe
    · exact hframe
  · next value hkind =>
    dsimp only
    split
    · next hends =>
      rcases h with hcalm | hcompound
      · obtain ⟨hopened, hcall⟩ := Bool.and_eq_true_iff.1 hends
        rw [hframe.hasTransaction] at hopened
        obtain ⟨call, hvalue, hcall⟩ := (Option.any_eq_true _ _).1 hcall
        obtain ⟨hname, hqualifier⟩ := Bool.and_eq_true_iff.1 hcall
        rw [hframe.txn hopened] at hqualifier
        exact absurd (qualifier?_eq_some.2 hqualifier)
          ((holds_of_call? (hkind ▸ hcalm.quiet) hvalue).ending (beq_iff_eq.1 hname))
      · rw [hkind] at hcompound
        contradiction
    · exact hframe
  · exact hframe

end Plain

theorem Ends.followTransaction {outer : List (List String)} {phase : Phase} {frame : Frame}
    {stmt : Stmt} (h : Ends stmt.kind) (hframe : frame.At outer phase)
    (hopened : phase.opened = true) :
    (followTransaction stmt frame).At outer { phase with opened := false } := by
  obtain ⟨kind, decs⟩ := stmt
  obtain ⟨hname, hqualifier, -⟩ := h
  have hmember := qualifier?_eq_some.1 hqualifier
  rw [← hframe.txn hopened] at hmember
  unfold Tracing.followTransaction
  dsimp only [Expr.call?]
  rw [if_pos]
  · exact hframe.endTransaction
  · rw [hframe.hasTransaction, hopened, Option.any_some, hname]
    exact hmember

theorem Ends.declareStmt {outer : List (List String)} {phase : Phase} {frame : Frame} {stmt : Stmt}
    (h : Ends stmt.kind) (hframe : frame.At outer phase) : (frame.declareStmt stmt).At outer phase := by
  obtain ⟨kind, decs⟩ := stmt
  cases h
  exact hframe

theorem Ends.not_isCompound {kind : StmtKind} (h : Ends kind) : kind.isCompound = false := by
  cases h
  rfl

theorem Settled.inside {stmt : Stmt} (h : Settled stmt.kind) : Inside Silent stmt := by
  rcases h with hcalm | hends
  · exact inside_of_quiet hcalm.quiet
  · exact hends.inside

theorem Settled.of_mem_blocks {kind : StmtKind} (h : Settled kind) {block : List Stmt}
    (hblock : block ∈ kind.blocks) : ∀ stmt ∈ block, Calm stmt.kind := by
  rcases h with hcalm | hends
  · exact hcalm.of_mem_blocks hblock
  · cases hends
    simp [StmtKind.blocks] at hblock

/-- The blocks of a statement are walked through in the phase that it is met in. -/
theorem editBlocks_settles {walk : Walk} (hwalk : walk.Settles) {outer : List (List String)}
    {phase : Phase} {stmt : Stmt} (hsettled : Settled stmt.kind) {frame : Frame}
    (app : Application) (hframe : frame.At outer phase) :
    Trace.wp (stmt.editBlocks walk) (fun stmt' frame' _ =>
      (stmt'.kind = stmt.kind ∨ stmt.kind.isCompound = true ∧ stmt'.kind.isCompound = true) ∧
        Inside (Orderly phase) stmt' ∧ frame'.At outer phase) frame app := by
  obtain ⟨hrefilled, hframe'⟩ := @StmtKind.editBlocks_refill Trace _ _ _ Trace.threaded walk
    (fun stmts => ∀ stmt ∈ stmts, Calm stmt.kind)
    (fun stmts => ∀ list, ListIn list stmts → Orderly phase list) (fun s => s.1.At outer phase)
    (fun stmts s hstmts hs => hwalk stmts outer phase s.1 s.2 hstmts hs) stmt.kind (frame, app)
    (fun _ => hsettled.of_mem_blocks) hframe
  have hinside : Inside (Orderly phase) stmt := hsettled.inside.imp fun _ => Silent.orderly
  refine ⟨hrefilled.same, fun inner hinner => ?_, hframe'⟩
  rcases List.mem_append.1 hinner with hblock | hliteral
  · exact hrefilled.blocks inner hblock
  · have hliteral := hrefilled.headers ▸ hliteral
    exact hinside inner (List.mem_append_right _ hliteral)

/-! ## Visits -/

/-- What a visit does once the detectors have seen the statement. -/
def closeVisit (walk : Walk) (started : Bool) (cursor : Cursor) : Trace Cursor := do
  let stmt ← cursor.current.editBlocks walk
  modify fun frame =>
    let frame := frame.declareStmt stmt
    if started then frame.endTransaction
    else if frame.inMain then followTransaction stmt frame
    else frame
  return cursor.replace stmt

theorem finishVisit_eq_bind (walk : Walk) (started : Bool) (cursor : Cursor) :
    finishVisit walk started cursor =
      (statementDetectors walk).foldlM (fun cursor detector => detector.detect cursor) cursor >>=
        closeVisit walk started := rfl

/-- The current statement has been visited, and what it does to the transaction is known. -/
structure Closes (outer : List (List String)) (phase : Phase) (started : Bool) (kind : StmtKind)
    (stmt' : Stmt) (frame' : Frame) : Prop where
  inside : Inside (Orderly phase) stmt'
  calm : Calm kind → Plain stmt' ∧
    frame'.At outer { phase with opened := phase.opened && !started }
  ends : Ends kind → started = false → phase.opened = true →
    Ends stmt'.kind ∧ frame'.At outer { phase with opened := false }

theorem Closes.of_remains {outer : List (List String)} {phase : Phase} {started : Bool}
    {kind kind' : StmtKind} {stmt' : Stmt} {frame' : Frame} (hkind : Remains kind kind')
    (h : Closes outer phase started kind' stmt' frame') :
    Closes outer phase started kind stmt' frame' :=
  ⟨h.inside, h.calm ∘ hkind.calm, h.ends ∘ hkind.ends⟩

theorem closeVisit_closes {walk : Walk} (hwalk : walk.Settles) {outer : List (List String)}
    {phase : Phase} (started : Bool) {cursor : Cursor} (hsettled : Settled cursor.current.kind)
    {frame : Frame} (app : Application) (hframe : frame.At outer phase) :
    Trace.wp (closeVisit walk started cursor) (fun cursor' frame' _ => ∃ stmt',
      cursor' = cursor.replace stmt' ∧ Closes outer phase started cursor.current.kind stmt' frame' ∧
        (cursor.current.kind.isCompound = false → stmt'.kind = cursor.current.kind)) frame app := by
  unfold closeVisit
  rw [Trace.wp_bind]
  apply (editBlocks_settles hwalk hsettled app hframe).mono
  rintro stmt' frame' app' ⟨hsame, hinside, hframe'⟩
  simp only [Trace.wp_bind, Trace.wp_modify, Trace.wp_pure]
  refine ⟨stmt', rfl, ⟨hinside, fun hcalm => ?_, fun hends hstarted hopened => ?_⟩,
    fun hsimple => ?_⟩
  · have hplain : Plain stmt' := by
      rcases hsame with hkind | ⟨-, hcompound⟩
      · exact .inl (hkind ▸ hcalm)
      · exact .inr hcompound
    have hdeclared := hplain.declareStmt hframe'
    refine ⟨hplain, ?_⟩
    cases started with
    | true => simpa using hdeclared.endTransaction
    | false =>
        rw [if_neg Bool.false_ne_true, if_pos hdeclared.inMain]
        simpa using hplain.followTransaction hdeclared
  · have hkind : stmt'.kind = cursor.current.kind := by
      rcases hsame with hkind | ⟨hcompound, -⟩
      · exact hkind
      · rw [hends.not_isCompound] at hcompound
        contradiction
    have hends' : Ends stmt'.kind := hkind ▸ hends
    have hdeclared := hends'.declareStmt hframe'
    refine ⟨hends', ?_⟩
    rw [hstarted, if_neg Bool.false_ne_true, if_pos hdeclared.inMain]
    exact hends'.followTransaction hdeclared hopened
  · rcases hsame with hkind | ⟨hcompound, -⟩
    · exact hkind
    · rw [hsimple] at hcompound
      contradiction

/-- Nothing but quiet statements has come in around the visited one. -/
structure Surrounds (outer : List (List String)) (phase : Phase) (cursor cursor' : Cursor)
    (frame' : Frame) : Prop where
  row : ∃ lead stmt trail, cursor'.passed = (lead ++ stmt :: trail).reverse ++ cursor.before ∧
    QuietStmts lead ∧ QuietStmts trail ∧ Closes outer phase false cursor.current.kind stmt frame'
  rest : Remaining cursor.rest cursor'.rest

/-- A list waits for the end of a transaction exactly while that is started. -/
def Awaits (phase : Phase) (rest : List Stmt) : Prop :=
  (phase.opened = false ∧ ∀ stmt ∈ rest, Calm stmt.kind) ∨ (phase.opened = true ∧ Pends rest)

/-- The statements of a visit take the list from one phase to another. -/
structure Continues (outer : List (List String)) (phase last : Phase) (cursor cursor' : Cursor)
    (frame' : Frame) : Prop where
  row : ∃ row, cursor'.passed = row.reverse ++ cursor.before ∧ Runs phase row last ∧
    ∀ stmt ∈ row, Inside Alternates stmt
  frame : frame'.At outer last
  rest : Awaits last cursor'.rest

theorem QuietStmts.silent {stmts : List Stmt} (h : QuietStmts stmts) : Silent stmts :=
  fun stmt hmem => unmarked_of_quiet (h stmt hmem)

theorem QuietStmts.inside {stmts : List Stmt} (h : QuietStmts stmts) :
    ∀ stmt ∈ stmts, Inside Silent stmt :=
  fun stmt hmem => inside_of_quiet (h stmt hmem)

theorem QuietStmts.runs {stmts : List Stmt} (h : QuietStmts stmts) (phase : Phase) :
    Runs phase stmts phase :=
  .of_silent h.silent fun _ stmt hmem => (h.inside stmt hmem).imp fun _ => Silent.noStarts

theorem Orderly.noStarts {phase : Phase} {stmts : List Stmt} (h : Orderly phase stmts)
    (hopened : phase.opened = true) : NoStarts stmts :=
  (h.silent hopened).noStarts

theorem Opens.runs {phase last : Phase} {start : Stmt} {stmts : List Stmt} (h : Opens phase start)
    (hclosed : phase.opened = false) (hstmts : Runs ⟨true, true⟩ stmts last) :
    Runs phase (start :: stmts) last :=
  .start hclosed h.op hstmts

theorem Opens.inside {phase : Phase} {start : Stmt} (h : Opens phase start)
    {Q : List Stmt → Prop} : Inside Q start := by
  intro inner hinner
  rw [h.lists] at hinner
  contradiction

theorem QuietStmts.insideAlternates {stmts : List Stmt} (h : QuietStmts stmts) :
    ∀ stmt ∈ stmts, Inside Alternates stmt :=
  fun stmt hmem => (h.inside stmt hmem).imp fun _ => Silent.alternates

theorem startsQuery_continues {walk : Walk} (hwalk : walk.Settles) {outer : List (List String)}
    {phase : Phase} {cursor cursor₁ cursor₂ : Cursor} {frame frame₁ frame₂ : Frame}
    (hattends : Attends cursor frame cursor₁ frame₁)
    (hstarts : StartsQuery outer phase cursor₁ cursor₂ frame₂) (hafter : cursor.after = [])
    (hrest : ∀ stmt ∈ cursor.rest, Calm stmt.kind) (app : Application) :
    Trace.wp (closeVisit walk false cursor₂) (fun cursor' frame' _ =>
      ∃ last, Continues outer phase last cursor cursor' frame') frame₂ app := by
  obtain ⟨hclosed, ⟨⟨start, bind, hbefore₂, hopens, hbind⟩, hcalm₂, hsimple⟩, hends⟩ := hstarts
  obtain ⟨lead, hbefore₁, hlead⟩ := hattends.before
  obtain ⟨trail, hafter₁, htrail⟩ := hattends.after
  have hlead' : QuietStmts lead.reverse := fun stmt hmem => hlead stmt (List.mem_reverse.1 hmem)
  have hinner : ∀ {stmt : Stmt}, stmt.kind = cursor₂.current.kind →
      QuietStmts (bind :: stmt :: trail) := fun hkind =>
    List.forall_mem_cons.2 ⟨hbind, List.forall_mem_cons.2 ⟨hkind ▸ hcalm₂.quiet, htrail⟩⟩
  rcases hends with ⟨ending, hends, hafter₂, hrest₂, hframe₂⟩ | ⟨hafter₂, hpends, hframe₂⟩
  · apply (closeVisit_closes hwalk false (.inl hcalm₂) app hframe₂).mono
    rintro cursor' frame' app' ⟨stmt, rfl, hcloses, hkind⟩
    have hquiet := hinner (hkind hsimple)
    refine ⟨⟨false, true⟩, ⟨lead.reverse ++ start :: (bind :: stmt :: trail ++ [ending]),
      ?_, ?_, ?_⟩, (hcloses.calm hcalm₂).2, .inl ⟨rfl, ?_⟩⟩
    · simp [Cursor.passed, Cursor.replace, hafter₂, hafter₁, hafter, hbefore₂, hbefore₁]
    · exact (hlead'.runs phase).append
        (hopens.runs hclosed ((hquiet.runs _).append (.ending rfl hends.isEnding .nil)))
    · refine List.forall_mem_append.2 ⟨hlead'.insideAlternates, List.forall_mem_cons.2
        ⟨hopens.inside, List.forall_mem_append.2 ⟨hquiet.insideAlternates, ?_⟩⟩⟩
      exact List.forall_mem_singleton.2 (hends.inside.imp fun _ => Silent.alternates)
    · have hcalm := Remaining.calm hattends.rest hrest
      rwa [← hrest₂] at hcalm
  · apply (closeVisit_closes hwalk false (.inl hcalm₂) app hframe₂).mono
    rintro cursor' frame' app' ⟨stmt, rfl, hcloses, hkind⟩
    have hquiet := hinner (hkind hsimple)
    refine ⟨⟨true, true⟩, ⟨lead.reverse ++ start :: bind :: stmt :: trail, ?_, ?_, ?_⟩,
      (hcloses.calm hcalm₂).2, .inr ⟨rfl, hpends⟩⟩
    · simp [Cursor.passed, Cursor.replace, hafter₂, hafter₁, hafter, hbefore₂, hbefore₁]
    · exact (hlead'.runs phase).append (hopens.runs hclosed (hquiet.runs _))
    · exact List.forall_mem_append.2 ⟨hlead'.insideAlternates,
        List.forall_mem_cons.2 ⟨hopens.inside, hquiet.insideAlternates⟩⟩

theorem owns_continues {walk : Walk} (hwalk : walk.Settles) {outer : List (List String)}
    {phase : Phase} {cursor cursor₁ cursor₂ : Cursor} {frame₁ frame₂ : Frame}
    (howns : Owns outer phase cursor cursor₁ frame₁) (hattends : Attends cursor₁ frame₁ cursor₂ frame₂)
    (hafter : cursor.after = []) (hcalm : Calm cursor.current.kind)
    (hrest : ∀ stmt ∈ cursor.rest, Calm stmt.kind) (app : Application) :
    Trace.wp (closeVisit walk true cursor₂) (fun cursor' frame' _ =>
      ∃ last, Continues outer phase last cursor cursor' frame') frame₂ app := by
  have hcalm₁ := howns.current.calm hcalm
  have hcalm₂ := hattends.current.calm hcalm₁
  have hframe₂ := hattends.frame _ _ howns.frame
  apply (closeVisit_closes hwalk true (.inl hcalm₂) app hframe₂).mono
  rintro cursor' frame' app' ⟨stmt, rfl, hcloses, -⟩
  obtain ⟨start, hbefore₁, hopens⟩ := howns.before
  obtain ⟨ending, hafter₁, hends⟩ := howns.after
  obtain ⟨lead, hbefore₂, hlead⟩ := hattends.before
  obtain ⟨trail, hafter₂, htrail⟩ := hattends.after
  obtain ⟨hplain, hframe'⟩ := hcloses.calm hcalm₂
  have hlead' : QuietStmts lead.reverse := fun stmt hmem => hlead stmt (List.mem_reverse.1 hmem)
  refine ⟨⟨false, true⟩, ⟨start :: (lead.reverse ++ stmt :: ending :: trail), ?_, ?_, ?_⟩,
    hframe', .inl ⟨rfl, ?_⟩⟩
  · simp [Cursor.passed, Cursor.replace, hafter₂, hafter₁, hafter, hbefore₂, hbefore₁]
  · refine hopens.runs howns.closed ((hlead'.runs _).append ?_)
    refine .other hplain.unmarked (fun hopened => hcloses.inside.imp fun _ h => h.noStarts hopened) ?_
    exact .ending rfl hends.isEnding (htrail.runs _)
  · simp only [List.forall_mem_cons, List.forall_mem_append]
    exact ⟨hopens.inside, hlead'.insideAlternates, hcloses.inside.imp fun _ h => h.alternates,
      hends.inside.imp fun _ => Silent.alternates, QuietStmts.insideAlternates htrail⟩
  · rw [← howns.rest] at hrest
    exact Remaining.calm hattends.rest hrest

theorem attends_surrounds {walk : Walk} (hwalk : walk.Settles) {outer : List (List String)}
    {phase : Phase} {cursor cursor₁ : Cursor} {frame frame₁ : Frame}
    (hattends : Attends cursor frame cursor₁ frame₁) (hframe : frame.At outer phase)
    (hafter : cursor.after = []) (hsettled : Settled cursor.current.kind) (app : Application) :
    Trace.wp (closeVisit walk false cursor₁) (fun cursor' frame' _ =>
      Surrounds outer phase cursor cursor' frame') frame₁ app := by
  have hframe₁ := hattends.frame _ _ hframe
  apply (closeVisit_closes hwalk false (hattends.current.settled hsettled) app hframe₁).mono
  rintro cursor' frame' app' ⟨stmt, rfl, hcloses, -⟩
  obtain ⟨lead, hbefore₁, hlead⟩ := hattends.before
  obtain ⟨trail, hafter₁, htrail⟩ := hattends.after
  refine ⟨⟨lead.reverse, stmt, trail, ?_, fun stmt hmem => hlead stmt (List.mem_reverse.1 hmem),
    htrail, hcloses.of_remains hattends.current⟩, hattends.rest⟩
  simp [Cursor.passed, Cursor.replace, hafter₁, hafter, hbefore₁]

theorem visit_settles {walk : Walk} (hwalk : walk.Settles) {outer : List (List String)}
    {phase : Phase} (cursor : Cursor) (hafter : cursor.after = []) {frame : Frame}
    (app : Application) (hframe : frame.At outer phase) (hsettled : Settled cursor.current.kind)
    (hcalm : phase.opened = false →
      Calm cursor.current.kind ∧ ∀ stmt ∈ cursor.rest, Calm stmt.kind) :
    Trace.wp (visit walk cursor) (fun cursor' frame' _ =>
      Surrounds outer phase cursor cursor' frame' ∨
        phase.opened = false ∧ ∃ last, Continues outer phase last cursor cursor' frame')
      frame app := by
  unfold visit
  rw [Trace.wp_bind]
  apply (traceCalls_attends walk cursor app hframe).mono
  rintro ⟨cursor₁, started⟩ frame₁ app₁ hcalls
  have hmain : frame₁.inMain = true := by
    rcases hcalls with ⟨-, hattends⟩ | ⟨-, howns⟩
    · exact (hattends.frame _ _ hframe).inMain
    · exact howns.frame.inMain
  simp only [Trace.wp_bind, Trace.wp_get, hmain, Bool.not_true, Bool.false_and, Bool.false_eq_true,
    if_false, Trace.wp_pure]
  rw [finishVisit_eq_bind, Trace.wp_bind]
  rcases hcalls with ⟨hstarted, hattends⟩ | ⟨hstarted, howns⟩
  · obtain rfl : started = false := hstarted
    have hcalm₁ : phase.opened = false →
        Calm cursor₁.current.kind ∧ ∀ stmt ∈ cursor₁.rest, Calm stmt.kind := fun hclosed =>
      ⟨hattends.current.calm (hcalm hclosed).1, Remaining.calm hattends.rest (hcalm hclosed).2⟩
    apply (statementDetectors_attend walk cursor₁ app₁ (hattends.frame _ _ hframe)
      (hattends.current.settled hsettled) hcalm₁).mono
    rintro cursor₂ frame₂ app₂ (⟨-, hattends'⟩ | ⟨cursor', frame', hattends', hstarts⟩)
    · apply (attends_surrounds hwalk (hattends.trans hattends') hframe hafter hsettled app₂).mono
      exact fun _ _ _ h => .inl h
    · apply (startsQuery_continues hwalk (hattends.trans hattends') hstarts hafter
        (hcalm hstarts.closed).2 app₂).mono
      exact fun _ _ _ h => .inr ⟨hstarts.closed, h⟩
  · obtain rfl : started = true := hstarted
    obtain ⟨hcurrent, hrest⟩ := hcalm howns.closed
    apply (statementDetectors_attend walk cursor₁ app₁ howns.frame
      (.inl (howns.current.calm hcurrent)) (by simp)).mono
    rintro cursor₂ frame₂ app₂ (⟨-, hattends⟩ | ⟨cursor', frame', -, hstarts⟩)
    · apply (owns_continues hwalk howns hattends hafter hcurrent hrest app₂).mono
      exact fun _ _ _ h => .inr ⟨howns.closed, h⟩
    · exact absurd hstarts.closed (by simp)

/-! ## Lists -/

/-- A visit inside a transaction, or of a statement that starts none. -/
theorem Surrounds.continues {outer : List (List String)} {phase : Phase} {cursor cursor' : Cursor}
    {frame' : Frame} (h : Surrounds outer phase cursor cursor' frame')
    (hawaits : Awaits phase (cursor.current :: cursor.rest)) :
    ∃ last, Continues outer phase last cursor cursor' frame' := by
  obtain ⟨⟨lead, stmt, trail, hpassed, hlead, htrail, hcloses⟩, hrest⟩ := h
  have hinside : ∀ other ∈ lead ++ stmt :: trail, Inside Alternates other := by
    refine List.forall_mem_append.2 ⟨QuietStmts.insideAlternates hlead, List.forall_mem_cons.2
      ⟨hcloses.inside.imp fun _ h => h.alternates, QuietStmts.insideAlternates htrail⟩⟩
  have hplain : Calm cursor.current.kind → Awaits phase cursor'.rest →
      Continues outer phase phase cursor cursor' frame' := by
    intro hcalm hawaits'
    obtain ⟨hstmt, hframe'⟩ := hcloses.calm hcalm
    refine ⟨⟨_, hpassed, ?_, hinside⟩, by simpa using hframe', hawaits'⟩
    exact (QuietStmts.runs hlead _).append (.other hstmt.unmarked
      (fun hopened => hcloses.inside.imp fun _ h => h.noStarts hopened) (QuietStmts.runs htrail _))
  rcases hawaits with ⟨hclosed, hcalm⟩ | ⟨hopened, hpends⟩
  · rw [List.forall_mem_cons] at hcalm
    exact ⟨phase, hplain hcalm.1 (.inl ⟨hclosed, Remaining.calm hrest hcalm.2⟩)⟩
  · cases hpends with
    | here hends hcalm =>
        obtain ⟨hstmt, hframe'⟩ := hcloses.ends hends rfl hopened
        refine ⟨_, ⟨_, hpassed, ?_, hinside⟩, hframe', .inl ⟨rfl, Remaining.calm hrest hcalm⟩⟩
        exact (QuietStmts.runs hlead _).append
          (.ending hopened hstmt.isEnding (QuietStmts.runs htrail _))
    | later hcalm hpends =>
        exact ⟨phase, hplain hcalm (.inr ⟨hopened, Remaining.pends hrest hpends⟩)⟩

theorem Awaits.settled {phase : Phase} {stmt : Stmt} {rest : List Stmt}
    (h : Awaits phase (stmt :: rest)) : Settled stmt.kind := by
  rcases h with ⟨-, hcalm⟩ | ⟨-, hpends⟩
  · exact .inl (List.forall_mem_cons.1 hcalm).1
  · cases hpends with
    | here hends _ => exact .inr hends
    | later hcalm _ => exact .inl hcalm

theorem visit_continues {walk : Walk} (hwalk : walk.Settles) {outer : List (List String)}
    {phase : Phase} (cursor : Cursor) (hafter : cursor.after = []) {frame : Frame}
    (app : Application) (hframe : frame.At outer phase)
    (hawaits : Awaits phase (cursor.current :: cursor.rest)) :
    Trace.wp (visit walk cursor) (fun cursor' frame' _ =>
      ∃ last, Continues outer phase last cursor cursor' frame') frame app := by
  have hcalm : phase.opened = false →
      Calm cursor.current.kind ∧ ∀ stmt ∈ cursor.rest, Calm stmt.kind := by
    intro hclosed
    rcases hawaits with ⟨-, hcalm⟩ | ⟨hopened, -⟩
    · exact List.forall_mem_cons.1 hcalm
    · rw [hclosed] at hopened
      contradiction
  apply (visit_settles hwalk cursor hafter app hframe hawaits.settled hcalm).mono
  rintro cursor' frame' app' (hsurrounds | ⟨-, hcontinues⟩)
  · exact hsurrounds.continues hawaits
  · exact hcontinues

theorem Awaits.closed {phase : Phase} (h : Awaits phase []) : phase.opened = false := by
  rcases h with ⟨hclosed, -⟩ | ⟨-, hpends⟩
  · exact hclosed
  · contradiction

/-- The statements behind a cursor run to their end, which no transaction outlasts. -/
theorem walkFrom_runs {walk : Walk} (hwalk : walk.Settles) (hweaves : walk.Weaves) (limit : Nat)
    (passed rest : List Stmt) {outer : List (List String)} {phase : Phase} {frame : Frame}
    (app : Application) (hframe : frame.At outer phase) (hawaits : Awaits phase rest)
    (hlimit : rest.length + frame.credit ≤ limit) :
    Trace.wp (walkFrom (visit walk) limit passed rest) (fun stmts' frame' _ =>
      ∃ row last, stmts' = passed.reverse ++ row ∧ Runs phase row last ∧ last.opened = false ∧
        (∀ stmt ∈ row, Inside Alternates stmt) ∧ frame'.At outer last) frame app := by
  induction limit generalizing passed rest phase frame app with
  | zero =>
      obtain rfl : rest = [] := List.length_eq_zero_iff.1 (by omega)
      exact ⟨[], phase, (List.append_nil _).symm, .nil, hawaits.closed, List.forall_mem_nil _, hframe⟩
  | succ limit ih =>
      cases rest with
      | nil =>
          exact ⟨[], phase, (List.append_nil _).symm, .nil, hawaits.closed, List.forall_mem_nil _,
            hframe⟩
      | cons current rest =>
          generalize hcursor : ({ before := passed, current, rest } : Cursor) = cursor
          have hvisit : Trace.wp (visit walk cursor) (fun cursor' frame' app' =>
              (∃ last, Continues outer phase last cursor cursor' frame') ∧
                Moves cursor frame app cursor' frame' app') frame app := by
            subst hcursor
            exact ⟨visit_continues hwalk _ rfl app hframe hawaits, visit_moves hweaves _ frame app⟩
          rw [walkFrom, Trace.wp_bind, hcursor]
          apply hvisit.mono
          subst hcursor
          rintro cursor' frame' app' ⟨⟨between, hcontinues⟩, hmoves⟩
          obtain ⟨row, hpassed, hruns, hinside⟩ := hcontinues.row
          have hcredit := hmoves.credit
          simp only [List.length_cons] at hlimit hcredit
          apply (ih cursor'.passed cursor'.rest app' hcontinues.frame hcontinues.rest
            (by omega)).mono
          rintro stmts' frame'' app'' ⟨row', last, rfl, hruns', hclosed, hinside', hframe''⟩
          refine ⟨row ++ row', last, ?_, hruns.append hruns', hclosed,
            List.forall_mem_append.2 ⟨hinside, hinside'⟩, hframe''⟩
          rw [hpassed, List.reverse_append, List.reverse_reverse, List.append_assoc]

/-- The statement has nothing to do with transactions, and neither has one inside it. -/
structure Aside (stmt : Stmt) : Prop where
  unmarked : Unmarked stmt
  inside : Inside Silent stmt

theorem QuietStmts.aside {stmts : List Stmt} (h : QuietStmts stmts) : ∀ stmt ∈ stmts, Aside stmt :=
  fun stmt hmem => ⟨h.silent stmt hmem, h.inside stmt hmem⟩

theorem aside_of_calm {stmts : List Stmt} (h : ∀ stmt ∈ stmts, Calm stmt.kind) :
    ∀ stmt ∈ stmts, Aside stmt :=
  QuietStmts.aside fun stmt hmem => (h stmt hmem).quiet

/-- Inside a transaction, the walk neither starts nor ends one. -/
theorem walkFrom_aside {walk : Walk} (hwalk : walk.Settles) (limit : Nat)
    (passed rest : List Stmt) {outer : List (List String)} {phase : Phase} {frame : Frame}
    (app : Application) (hframe : frame.At outer phase) (hopened : phase.opened = true)
    (hcalm : ∀ stmt ∈ rest, Calm stmt.kind) :
    Trace.wp (walkFrom (visit walk) limit passed rest) (fun stmts' frame' _ =>
      ∃ row, stmts' = passed.reverse ++ row ∧ (∀ stmt ∈ row, Aside stmt) ∧ frame'.At outer phase)
      frame app := by
  induction limit generalizing passed rest frame app with
  | zero =>
      cases rest with
      | nil => exact ⟨[], (List.append_nil _).symm, List.forall_mem_nil _, hframe⟩
      | cons current rest => exact ⟨current :: rest, rfl, aside_of_calm hcalm, hframe⟩
  | succ limit ih =>
      cases rest with
      | nil => exact ⟨[], (List.append_nil _).symm, List.forall_mem_nil _, hframe⟩
      | cons current rest =>
          obtain ⟨hcurrent, hrest⟩ := List.forall_mem_cons.1 hcalm
          rw [walkFrom, Trace.wp_bind]
          apply Trace.wp.mono (visit_settles hwalk { before := passed, current, rest } rfl app hframe
            (.inl hcurrent) fun _ => ⟨hcurrent, hrest⟩)
          rintro cursor' frame' app' (⟨hrow, hrest'⟩ | ⟨hclosed, -⟩)
          · obtain ⟨lead, stmt, trail, hpassed, hlead, htrail, hcloses⟩ := hrow
            obtain ⟨hstmt, hframe'⟩ := hcloses.calm hcurrent
            rw [Bool.not_false, Bool.and_true] at hframe'
            have hstmt : Aside stmt :=
              ⟨hstmt.unmarked, hcloses.inside.imp fun _ h => h.silent hopened⟩
            apply (ih cursor'.passed cursor'.rest app' hframe' (Remaining.calm hrest' hrest)).mono
            rintro stmts' frame'' app'' ⟨row, rfl, haside, hframe''⟩
            refine ⟨lead ++ stmt :: trail ++ row, ?_, ?_, hframe''⟩
            · rw [hpassed, List.reverse_append, List.reverse_reverse, List.append_assoc]
            · simp only [List.forall_mem_append, List.forall_mem_cons]
              exact ⟨⟨QuietStmts.aside hlead, hstmt, QuietStmts.aside htrail⟩, haside⟩
          · rw [hclosed] at hopened
            contradiction

theorem listIn_cases {list stmts : List Stmt} (h : ListIn list stmts) :
    list = stmts ∨ ∃ stmt ∈ stmts, ∃ inner ∈ stmt.kind.lists, ListIn list inner := by
  cases h with
  | here => exact .inl rfl
  | inside hstmt hinner h => exact .inr ⟨_, hstmt, _, hinner, h⟩

/-- The walk leaves orderly lists behind, in the phase that it found the transaction in. -/
theorem walkBlock_settles (depth : Nat) : (walkBlock depth).Settles := by
  induction depth with
  | zero =>
      intro stmts outer phase frame app hcalm hframe
      refine ⟨fun list hlist => ?_, hframe⟩
      have hquiet : Holds quiet (callsOfStmts true stmts) :=
        holds_stmts.2 fun stmt hmem => (hcalm stmt hmem).quiet
      obtain ⟨reached, hlist⟩ := hlist.holds hquiet
      exact (silent_of_quiet hlist).orderly
  | succ depth ih =>
      intro stmts outer phase frame app hcalm hframe
      have hpushed := hframe.pushScope
      simp only [walkBlock, walkList, Trace.wp_bind, Trace.wp_modify]
      cases hopened : phase.opened with
      | true =>
          apply (walkFrom_aside ih (stmts.length + 1) [] stmts app hpushed hopened hcalm).mono
          rintro stmts' frame' app' ⟨row, rfl, haside, hframe'⟩
          refine ⟨fun list hlist => ?_, hframe.popScope hframe'⟩
          rcases listIn_cases hlist with rfl | ⟨stmt, hstmt, inner, hinner, hlist⟩
          · exact Silent.orderly fun stmt hmem => (haside stmt hmem).unmarked
          · exact Silent.orderly ((haside stmt hstmt).inside inner hinner list hlist)
      | false =>
          have hlimit : stmts.length + frame.pushScope.credit ≤ stmts.length + 1 := by
            unfold Frame.credit
            split <;> omega
          apply (walkFrom_runs ih (walkBlock_weaves depth) (stmts.length + 1) [] stmts app hpushed
            (.inl ⟨hopened, hcalm⟩) hlimit).mono
          rintro stmts' frame' app' ⟨row, last, rfl, hruns, hclosed, hinside, hframe'⟩
          have hlast : last = { phase with declared := last.declared } := by rw [hopened, ← hclosed]
          refine ⟨fun list hlist => ?_, hframe.popScope (hlast ▸ hframe')⟩
          have halternates : Alternates list := by
            rcases listIn_cases hlist with rfl | ⟨stmt, hstmt, inner, hinner, hlist⟩
            · exact ⟨last, hclosed, by simpa [hopened] using hruns⟩
            · exact hinside stmt hstmt inner hinner list hlist
          exact ⟨halternates, fun h => by simp [hopened] at h⟩

end TraceWeave.Tracing
