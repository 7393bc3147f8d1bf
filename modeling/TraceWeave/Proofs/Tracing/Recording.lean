import TraceWeave.Proofs.Tracing.Turns

/-!
The imports that a run records.

A function that gains a parameter for the transaction needs the package of its type, and
the package that declares the function records this before the run is over.  Between the
two the body of the function is traced, so what one call does is compared as a whole:
`Records` holds around a call although it does not hold inside it.
-/

namespace TraceWeave.Program

open TraceWeave.Order

/-! ## Recorded imports -/

/-- The package, if there is one, records that its files need the import. -/
def Application.Needs (app : Application) (id path : String) : Prop :=
  ∀ package, app.package? id = some package → path ∈ package.imports

structure Records (app app' : Application) : Prop where
  kept : ∀ id path, app.Needs id path → app'.Needs id path
  extended : ∀ ref ∈ app'.extended,
    ref ∈ app.extended ∨ app'.Needs ref.package Agent.Path.newrelic

namespace Records

variable {app app' app'' : Application}

theorem refl : Records app app := ⟨fun _ _ h => h, fun _ h => .inl h⟩

theorem trans (h : Records app app') (h' : Records app' app'') : Records app app'' := by
  constructor
  · exact fun id path hneeds => h'.kept id path (h.kept id path hneeds)
  · intro ref href
    obtain href | hneeds := h'.extended ref href
    · obtain href | hneeds := h.extended ref href
      · exact .inl href
      · exact .inr (h'.kept _ _ hneeds)
    · exact .inr hneeds

/-- A change that leaves recorded imports and extended functions alone. -/
theorem of_same (himports : ∀ id, (app'.package? id).map (·.imports) =
    (app.package? id).map (·.imports)) (hextended : app'.extended = app.extended) :
    Records app app' := by
  constructor
  · intro id path hneeds package' hpackage'
    have hsame := himports id
    rw [hpackage'] at hsame
    obtain ⟨package, hpackage, heq⟩ := Option.map_eq_some_iff.1 hsame.symm
    have hneeded : path ∈ package.imports := hneeds package hpackage
    rwa [heq] at hneeded
  · exact fun ref href => .inl (hextended ▸ href)

theorem console (app : Application) (console : Console) : Records app { app with console } :=
  of_same (fun _ => rfl) rfl

theorem noteEntered (app : Application) (ref : FuncRef) : Records app (app.noteEntered ref) :=
  of_same (fun _ => rfl) rfl

/-- A change of one package that keeps its imports. -/
theorem modifyPackage {f : Package → Package} (hf : ∀ package, (f package).imports = package.imports)
    (app : Application) (id : String) : Records app (app.modifyPackage id f) := by
  refine of_same (fun other => ?_) rfl
  rw [Application.package?_modifyPackage, Option.map_map]
  congr 1
  funext package
  by_cases h : other = id
  · simp [h, hf]
  · simp [h]

theorem imports_modifyFunc (package : Package) (key : String) (f : Syntax.FuncDecl → Syntax.FuncDecl) :
    (package.modifyFunc key f).imports = package.imports := by
  unfold Package.modifyFunc
  split <;> rfl

theorem modifyFunc (app : Application) (ref : FuncRef) (f : Syntax.FuncDecl → Syntax.FuncDecl) :
    Records app (app.modifyFunc ref f) :=
  modifyPackage (fun package => imports_modifyFunc package ref.key f) app ref.package

theorem markTraced (app : Application) (ref : FuncRef) : Records app (app.markTraced ref) :=
  modifyPackage (f := (·.markTraced ref.key)) (fun _ => rfl) app ref.package

theorem needs_needImport (app : Application) (id path : String) :
    (app.needImport id path).Needs id path := by
  intro package hpackage
  rw [Application.needImport, Application.package?_modifyPackage] at hpackage
  obtain ⟨before, -, rfl⟩ := Option.map_eq_some_iff.1 hpackage
  simp [Package.needImport, mem_insertSorted]

theorem needImport (app : Application) (id path : String) : Records app (app.needImport id path) := by
  constructor
  · intro other path' hneeds package hpackage
    rw [Application.needImport, Application.package?_modifyPackage] at hpackage
    obtain ⟨before, hbefore, rfl⟩ := Option.map_eq_some_iff.1 hpackage
    have hmem := hneeds before hbefore
    split
    · exact (mem_insertSorted ..).2 (.inr hmem)
    · exact hmem
  · exact fun ref href => .inl href

end Records

end TraceWeave.Program

namespace TraceWeave.Tracing

open TraceWeave.Agent TraceWeave.Detect TraceWeave.Order TraceWeave.Program TraceWeave.Syntax
  TraceWeave.Types

/-! ## Computations -/

def Weave.Keeps {α : Type} (x : Weave α) : Prop :=
  ∀ app, Program.Weave.wp x (fun _ app' => Records app app') app

def Trace.Keeps {α : Type} (x : Trace α) : Prop :=
  ∀ frame app, Trace.wp x (fun _ _ app' => Records app app') frame app

def Walk.Keeps (walk : Walk) : Prop := ∀ stmts, Trace.Keeps (walk stmts)

namespace Weave.Keeps

variable {α β : Type}

theorem pure (a : α) : Weave.Keeps (pure a) := fun _ => .refl

theorem bind {x : Weave α} {f : α → Weave β} (hx : Weave.Keeps x) (hf : ∀ a, Weave.Keeps (f a)) :
    Weave.Keeps (x >>= f) := by
  intro app
  rw [Program.Weave.wp_bind]
  refine (hx app).mono fun a app' h => ?_
  exact (hf a app').mono fun _ _ h' => h.trans h'

theorem get : Weave.Keeps (get : Weave Application) := fun _ => .refl

theorem markTraced (ref : FuncRef) : Weave.Keeps (modify (·.markTraced ref)) :=
  fun app => .markTraced app ref

theorem noteEntered (ref : FuncRef) : Weave.Keeps (modify (·.noteEntered ref)) :=
  fun app => .noteEntered app ref

theorem needImport (id path : String) : Weave.Keeps (Weave.needImport id path) :=
  fun app => .needImport app id path

theorem attach (advisory : Advisory) (stmt : Stmt) : Weave.Keeps (Weave.attach advisory stmt) :=
  fun app => Program.Weave.wp_attach fun _ console _ => .console app console

theorem withBody {f : Block → Weave Block} (hf : ∀ body, Weave.Keeps (f body)) (ref : FuncRef) :
    Weave.Keeps (Weave.withBody ref f) := by
  have hset : ∀ body, Weave.Keeps (modify (·.setBody ref body)) :=
    fun body app => .modifyFunc app ref _
  unfold Weave.withBody
  refine .bind .get fun app => ?_
  split
  · exact .pure _
  · exact .bind (hset _) fun _ => .bind (hf _) fun _ => .bind (hset _) fun _ => .pure _

theorem filterM {detect : FuncRef → Weave Bool} (hdetect : ∀ ref, Weave.Keeps (detect ref))
    (refs : List FuncRef) : Weave.Keeps (refs.filterM detect) := by
  intro app
  refine filterM_wp (Q := fun _ _ app' => Records app app') (fun ref refs accepted app' h => ?_)
    .refl
  exact (hdetect ref app').mono fun _ _ h' => h.trans h'

theorem forM {f : α → Weave Unit} (hf : ∀ a, Weave.Keeps (f a)) (list : List α) :
    Weave.Keeps (list.forM f) := by
  induction list with
  | nil => exact .pure _
  | cons a list ih => exact .bind (hf a) fun _ => ih

end Weave.Keeps

namespace Trace.Keeps

variable {α β : Type}

theorem pure (a : α) : Trace.Keeps (pure a) := fun _ _ => .refl

theorem bind {x : Trace α} {f : α → Trace β} (hx : Trace.Keeps x) (hf : ∀ a, Trace.Keeps (f a)) :
    Trace.Keeps (x >>= f) := by
  intro frame app
  rw [Trace.wp_bind]
  refine (hx frame app).mono fun a frame' app' h => ?_
  exact (hf a frame' app').mono fun _ _ _ h' => h.trans h'

theorem lift {x : Weave α} (hx : Weave.Keeps x) : Trace.Keeps (liftM x) := fun _ app => hx app

theorem get : Trace.Keeps (get : Trace Frame) := fun _ _ => .refl

theorem modify (f : Frame → Frame) : Trace.Keeps (modify f : Trace Unit) := fun _ _ => .refl

theorem modifyGet (f : Frame → α × Frame) : Trace.Keeps (modifyGet f : Trace α) := fun _ _ => .refl

theorem app : Trace.Keeps Trace.app := fun _ _ => .refl

theorem types : Trace.Keeps Trace.types := fun _ _ => .refl

theorem transaction : Trace.Keeps Trace.transaction := modifyGet _

theorem application : Trace.Keeps Trace.application := modifyGet _

theorem needImport (path : String) : Trace.Keeps (Trace.needImport path) :=
  fun frame app => .needImport app frame.package path

theorem attach (advisory : Advisory) (stmt : Stmt) : Trace.Keeps (Trace.attach advisory stmt) :=
  fun _ app => Trace.wp_attach fun _ console _ => .console app console

theorem foldlM {f : β → α → Trace β} (hf : ∀ b a, Trace.Keeps (f b a)) (list : List α) (b : β) :
    Trace.Keeps (list.foldlM f b) := by
  induction list generalizing b with
  | nil => exact .pure b
  | cons a list ih =>
      rw [List.foldlM_cons]
      exact .bind (hf b a) ih

end Trace.Keeps

/-! ## Detectors of statements -/

theorem wrapRegistration_keeps (cursor : Cursor) : Trace.Keeps (wrapRegistration cursor) := by
  unfold wrapRegistration
  split
  · exact .pure _
  · split
    · exact .pure _
    · refine .bind .types fun info => ?_
      split
      · exact .pure _
      · refine .bind .application fun agent => ?_
        split
        · exact .pure _
        · split
          · exact .pure _
          · refine .bind (.needImport _) fun _ => ?_
            split
            · exact .bind (.attach _ _) fun _ => .pure _
            · exact .pure _

theorem traceRequest_keeps (cursor : Cursor) : Trace.Keeps (traceRequest cursor) := by
  have hsegment : ∀ req, Trace.Keeps (segmentRequest req cursor) := by
    intro req
    unfold segmentRequest
    split
    · exact .pure _
    · refine .bind .transaction fun txn => ?_
      split
      · exact .pure _
      · refine .bind .get fun frame => .bind (.modify _) fun _ => ?_
        exact .bind (.needImport _) fun _ => .pure _
  have hattach : ∀ req, Trace.Keeps (attachToRequest req cursor) := by
    intro req
    unfold attachToRequest
    split
    · exact .pure _
    · refine .bind .transaction fun txn => ?_
      split
      · exact .pure _
      · exact .bind (.needImport _) fun _ => .pure _
  unfold traceRequest
  refine .bind .get fun frame => ?_
  split
  · exact .pure _
  · refine .bind .types fun info => ?_
    split
    · exact .pure _
    · split
      · exact .pure _
      · split
        · exact .pure _
        · dsimp only
          split
          · exact hsegment _
          · exact hattach _

theorem installMiddleware_keeps (cursor : Cursor) : Trace.Keeps (installMiddleware cursor) := by
  unfold installMiddleware
  split
  · refine .bind .types fun info => ?_
    split
    · exact .pure _
    · dsimp only
      split
      · exact .pure _
      · refine .bind .application fun agent => ?_
        split
        · exact .pure _
        · exact .bind (.needImport _) fun _ => .pure _
  · exact .pure _

theorem interceptServers_keeps (cursor : Cursor) : Trace.Keeps (interceptServers cursor) := by
  unfold interceptServers
  refine .bind .types fun info => ?_
  split
  · exact .pure _
  · refine .bind .application fun agent => ?_
    split
    · exact .pure _
    · exact .bind (.needImport _) fun _ => .pure _

theorem wrapHandlers_keeps (cursor : Cursor) : Trace.Keeps (wrapHandlers cursor) := by
  have hinPlace : ∀ info, Trace.Keeps (wrapInPlace info cursor) := by
    intro info
    unfold wrapInPlace
    refine .bind .application fun agent => ?_
    split
    · exact .pure _
    · exact .bind (.needImport _) fun _ => .pure _
  have hbound : ∀ handler, Trace.Keeps (wrapBound handler cursor) := by
    intro handler
    unfold wrapBound
    refine .bind .application fun agent => ?_
    split
    · exact .pure _
    · refine .bind .get fun frame => .bind (.modifyGet _) fun wrap => ?_
      exact .bind (.needImport _) fun _ => .pure _
  unfold wrapHandlers
  refine .bind .types fun info => ?_
  split
  · exact hinPlace info
  · split
    · split
      · exact .pure _
      · dsimp only
        split
        · exact .pure _
        · exact hbound _
    · exact .pure _

theorem traceQuery_keeps (cursor : Cursor) : Trace.Keeps (traceQuery cursor) := by
  have hrun : ∀ method, Trace.Keeps (runInTransaction method cursor) := by
    intro method
    unfold runInTransaction
    refine .bind (.modify _) fun _ => .bind .get fun frame => .bind (.modify _) fun _ => ?_
    refine .bind (.modifyGet _) fun bound => ?_
    refine .bind (.needImport _) fun _ => .bind (.needImport _) fun _ => ?_
    split
    · exact .bind (.modify _) fun _ => .pure _
    · exact .pure _
  unfold traceQuery
  refine .bind .get fun frame => .bind .types fun info => ?_
  split
  · exact .pure _
  · split
    · exact .bind (.modify _) fun _ => .pure _
    · split
      · exact .pure _
      · split
        · exact .pure _
        · exact hrun _

theorem noticeErrors_keeps (cursor : Cursor) : Trace.Keeps (noticeErrors cursor) := by
  have hbranch : ∀ err body, Trace.Keeps (noticeInBranch err body) := by
    intro err body
    unfold noticeInBranch
    split
    · exact .pure _
    · refine .bind .transaction fun txn => ?_
      split
      · exact .pure _
      · exact .pure _
  have hnext : ∀ err stmt, Trace.Keeps (noticeInNext err stmt) := by
    intro err stmt
    unfold noticeInNext
    split
    · split
      · exact .bind (hbranch _ _) fun _ => .pure _
      · split
        · exact .attach _ _
        · exact .pure _
    · split
      · exact .attach _ _
      · exact .pure _
    · exact .pure _
  unfold noticeErrors
  refine .bind .types fun info => ?_
  split
  · split
    · split
      · exact .bind (hbranch _ _) fun _ => .pure _
      · exact .pure _
    · exact .pure _
  · split
    · exact .pure _
    · exact .bind (.attach _ _) fun _ => .pure _
    · split
      · exact .pure _
      · exact .bind (hnext _ _) fun _ => .pure _

/-! ## The walk -/

section

variable {walk : Walk} (hwalk : walk.Keeps)

include hwalk

theorem traceBody_keeps (body : Block) : Trace.Keeps (traceBody walk body) := by
  unfold traceBody
  refine .bind .get fun frame => ?_
  dsimp only
  split
  · refine .bind (.pure _) fun top => .bind (hwalk _) fun stmts => ?_
    exact .bind (.modifyGet _) fun _ => .pure _
  · refine .bind (.modify _) fun _ => .bind (.pure _) fun top => .bind (hwalk _) fun stmts => ?_
    exact .bind (.modifyGet _) fun _ => .pure _

theorem traceFunction_keeps (ref : FuncRef) (frame : Frame) :
    Weave.Keeps (traceFunction walk ref frame) := by
  have hrun : ∀ body, Weave.Keeps ((traceBody walk body).run frame) :=
    fun body app => traceBody_keeps hwalk body frame app
  unfold traceFunction
  refine .bind (.withBody (fun body => ?_) ref) fun _ => .pure _
  exact .bind (.noteEntered ref) fun _ => .bind (hrun body) fun _ => .pure _

/-- What is extended for a call is recorded once the callee has been traced. -/
theorem followCall_keeps (caller : Frame) (async : Bool) (ref : FuncRef) (mayEnter : Bool)
    (passing : Passing) : Weave.Keeps (followCall walk caller async ref mayEnter passing) := by
  intro app
  have happlied : ∀ id path, app.Needs id path → (passing.applyTo ref app).Needs id path := by
    unfold Passing.applyTo
    split
    · exact (Records.modifyFunc app ref _).kept
    · exact fun _ _ h => h
  have hextended : ∀ other ∈ (passing.applyTo ref app).extended,
      other ∈ app.extended ∨ (passing.extended = true ∧ other = ref) := by
    intro other hmem
    unfold Passing.applyTo at hmem
    split at hmem
    · next h =>
      obtain rfl | hmem := (mem_insertSorted ..).1 hmem
      · exact .inr ⟨h, rfl⟩
      · exact .inl hmem
    · exact .inl hmem
  have hadded : ∀ app', Records (passing.applyTo ref app) app' →
      Records app (passing.addImports caller.package ref app') := by
    intro app' h
    have hlast : Records app' (passing.addImports caller.package ref app') := by
      unfold Passing.addImports
      dsimp only
      split
      · split
        · exact (Records.needImport app' _ _).trans (.needImport _ _ _)
        · exact .needImport app' _ _
      · split
        · exact .needImport app' _ _
        · exact .refl
    have hall := h.trans hlast
    constructor
    · exact fun id path hneeds => hall.kept id path (happlied id path hneeds)
    · intro other hmem
      obtain hmem | hneeds := hall.extended other hmem
      · obtain hmem | ⟨hpassing, rfl⟩ := hextended other hmem
        · exact .inl hmem
        · right
          unfold Passing.addImports
          rw [if_pos hpassing]
          exact Records.needs_needImport _ _ _
      · exact .inr hneeds
  unfold followCall
  simp only [Program.Weave.wp_bind, Program.Weave.wp_modify]
  split
  · simp only [Program.Weave.wp_bind, Program.Weave.wp_modify]
    refine (traceFunction_keeps hwalk ref _ _).mono fun _ app' h => ?_
    exact hadded app' ((Records.markTraced _ ref).trans h)
  · exact hadded _ .refl

def recorded : Visits (List Advisory × Frame × Application) := fun before after =>
  Records before.2.2.2 after.2.2.2

theorem passCall_records (async : Bool) (call : Call) (advisories : List Advisory) (frame : Frame)
    (app : Application) :
    Advised.wp (passCall walk async call) (fun _ _ _ app' => Records app app')
      advisories frame app := by
  apply wp_passCall (fun _ => .refl)
  intro ref carrier func passing _ _
  exact followCall_keeps hwalk _ _ _ _ _ app

theorem passCall_followsRecorded (async : Bool) :
    (Edits.calls false (passCall walk async)).Follows Advised.threaded recorded := by
  constructor
  · intro call decs s
    exact .inl (passCall_records hwalk async call s.1 s.2.1 s.2.2)
  · exact fun ident decs s => .inr rfl

omit hwalk in
theorem records_of_steps {α : Type} {rewrites : Expr → Expr → α → α → Prop}
    {before after : α × List Advisory × Frame × Application}
    (steps : Steps rewrites recorded before after) : Records before.2.2.2 after.2.2.2 := by
  induction steps with
  | refl => exact .refl
  | tail _ hstep ih =>
      obtain ⟨part, part', hrecorded, -⟩ := hstep
      exact ih.trans hrecorded

theorem passCalls_records (stmt : Stmt) (advisories : List Advisory) (frame : Frame)
    (app : Application) :
    Advised.wp (passCalls walk stmt) (fun _ _ _ app' => Records app app') advisories frame app := by
  obtain ⟨kind, decs⟩ := stmt
  unfold passCalls
  split
  · split
    · exact .refl
    · next call hcall =>
      have hargs := records_of_steps (editExprs_steps (passCall_followsRecorded hwalk false) call.args
        (advisories, frame, app))
      rw [editExprs_eq_mapM] at hargs
      have hmapped : Advised.wp (call.args.mapM (·.edit (Edits.calls false (passCall walk false))))
          (fun _ _ _ app' => Records app app') advisories frame app := hargs
      rw [Advised.wp_bind]
      refine hmapped.mono fun args advisories' frame' app' h => ?_
      rw [Advised.wp_bind]
      refine (passCall_records hwalk true _ advisories' frame' app').mono ?_
      exact fun _ _ _ _ h' => h.trans h'
  · exact records_of_steps
      (kind.edit_steps (passCall_followsRecorded hwalk false) .own (advisories, frame, app))

theorem passAndAdvise_keeps (cursor : Cursor) : Trace.Keeps (passAndAdvise walk cursor) := by
  have hpass : Trace.Keeps ((passCalls walk cursor.current).run []) :=
    fun frame app => passCalls_records hwalk cursor.current [] frame app
  unfold passAndAdvise
  refine .bind hpass fun result => ?_
  exact .bind (.foldlM (fun stmt advisory => .attach advisory stmt) _ _) fun _ => .pure _

theorem traceCalls_keeps (cursor : Cursor) : Trace.Keeps (traceCalls walk cursor) := by
  have hstart : ∀ name, Trace.Keeps (startOwnTransaction name cursor) := by
    intro name
    unfold startOwnTransaction
    exact .bind .get fun frame => .bind (.modify _) fun _ => .pure _
  unfold traceCalls
  refine .bind .get fun frame => .bind .app fun app => ?_
  dsimp only
  split
  · exact .pure _
  · split
    · exact .bind (.attach _ _) fun _ => .pure _
    · split
      · split
        · exact .pure _
        · split
          · exact .pure _
          · refine .bind (hstart _) fun cursor' => ?_
            exact .bind (passAndAdvise_keeps hwalk cursor') fun _ => .pure _
      · exact .bind (passAndAdvise_keeps hwalk cursor) fun _ => .pure _

theorem traceLiteral_keeps (cursor : Cursor) : Trace.Keeps (traceLiteral walk cursor) := by
  have hhand : ∀ literal, Trace.Keeps (handTransaction literal) := by
    intro literal
    unfold handTransaction
    refine .bind .types fun info => ?_
    split
    · exact .pure _
    · refine .bind .transaction fun parent => ?_
      split
      · exact .pure _
      · exact .bind (.needImport _) fun _ => .pure _
  unfold traceLiteral
  split
  · exact .pure _
  · next literal _ =>
    refine .bind .get fun frame => ?_
    split
    · exact .bind (.attach _ _) fun _ => .pure _
    · split
      · exact .pure _
      · refine .bind (hhand literal) fun handed => ?_
        split
        · exact .pure _
        · next literal' name =>
          refine .bind (.lift ?_) fun result => .pure _
          exact fun app => traceBody_keeps hwalk literal'.body _ app

theorem statementDetectors_keep : ∀ detector ∈ statementDetectors walk, ∀ cursor,
    Trace.Keeps (detector.detect cursor) := by
  intro detector hdetector cursor
  simp only [statementDetectors, List.mem_cons, List.not_mem_nil, or_false] at hdetector
  rcases hdetector with rfl | rfl | rfl | rfl | rfl | rfl | rfl
  · exact traceLiteral_keeps hwalk cursor
  · exact wrapRegistration_keeps cursor
  · exact traceRequest_keeps cursor
  · exact installMiddleware_keeps cursor
  · exact interceptServers_keeps cursor
  · exact wrapHandlers_keeps cursor
  · exact traceQuery_keeps cursor

theorem editBlocks_keeps (stmt : Stmt) : Trace.Keeps (stmt.editBlocks walk) := by
  obtain ⟨kind, decs⟩ := stmt
  intro frame app
  have hsteps : ∀ after, BlockSteps Trace.threaded walk (kind, frame, app) after →
      Records app after.2.2 := by
    intro after steps
    induction steps with
    | refl => exact .refl
    | @tail before after _ hstep ih =>
        obtain ⟨stmts, -, hstate⟩ := hstep
        rw [hstate]
        exact ih.trans (hwalk stmts before.2.1 before.2.2)
  exact hsteps _ (kind.editBlocks_steps (frame, app))

theorem visit_keeps (cursor : Cursor) : Trace.Keeps (visit walk cursor) := by
  have hdetect : ∀ (detectors : List StatementDetector),
      (∀ detector ∈ detectors, ∀ cursor, Trace.Keeps (detector.detect cursor)) → ∀ cursor,
      Trace.Keeps (detectors.foldlM (fun cursor detector => detector.detect cursor) cursor) := by
    intro detectors
    induction detectors with
    | nil => exact fun _ cursor => .pure cursor
    | cons detector detectors ih =>
        intro hkeep cursor
        rw [List.foldlM_cons]
        refine .bind (hkeep detector (by simp) cursor) fun cursor' => ?_
        exact ih (fun other hmem => hkeep other (by simp [hmem])) cursor'
  have hfinish : ∀ started cursor, Trace.Keeps (finishVisit walk started cursor) := by
    intro started cursor
    unfold finishVisit
    refine .bind (hdetect _ (statementDetectors_keep hwalk) cursor) fun cursor' => ?_
    refine .bind (editBlocks_keeps hwalk cursor'.current) fun stmt => ?_
    exact .bind (.modify _) fun _ => .pure _
  unfold visit
  refine .bind (traceCalls_keeps hwalk cursor) fun result => ?_
  refine .bind .get fun frame => ?_
  split
  · exact .bind (noticeErrors_keeps _) fun cursor' => hfinish _ cursor'
  · exact .bind (.pure _) fun cursor' => hfinish _ cursor'

end

theorem walkBlock_keeps (depth : Nat) : (walkBlock depth).Keeps := by
  induction depth with
  | zero => exact fun stmts => .pure stmts
  | succ depth ih =>
      intro stmts
      refine .bind (.modify _) fun _ => .bind ?_ fun stmts' => .bind (.modify _) fun _ => .pure _
      intro frame app
      exact walkFrom_preserves Trace.threaded (R := fun x y => Records x.2.2 y.2.2)
        (fun _ => .refl) (fun h h' => h.trans h')
        (fun cursor s => visit_keeps ih cursor s.1 s.2) (stmts.length + 1) [] stmts (frame, app)

/-! ## Roots -/

section

variable {walks : Nat → Walk} (hwalks : ∀ depth, (walks depth).Keeps)

include hwalks

/-- Tracing with a walk that is deep enough. -/
theorem bind_fullWalk_keeps {α : Type} {f : Walk → Weave α}
    (hf : ∀ walk : Walk, walk.Keeps → Weave.Keeps (f walk)) :
    Weave.Keeps (fullWalk walks >>= f) := fun app => hf _ (hwalks app.depth) app

theorem traceMain_keeps (ref : FuncRef) : Weave.Keeps (traceMain walks ref) := by
  have hsetUp : ∀ body, Weave.Keeps (setUpAgent ref body) := by
    intro body
    unfold setUpAgent
    split
    · exact .pure _
    · exact .bind .get fun app => .bind (.needImport _ _) fun _ => .bind (.needImport _ _) fun _ =>
        .pure _
  unfold traceMain
  refine .bind .get fun app => ?_
  split
  · exact .pure _
  · refine bind_fullWalk_keeps hwalks fun walk hwalk => .bind (.markTraced ref) fun _ => ?_
    refine .withBody (fun body => .bind (.noteEntered ref) fun _ => ?_) ref
    refine .bind (hsetUp body) fun ready => .bind ?_ fun _ => .pure _
    exact fun app => traceBody_keeps hwalk ready.1 _ app

theorem traceHandler_keeps (ref : FuncRef) : Weave.Keeps (traceHandler walks ref) := by
  unfold traceHandler
  refine .bind .get fun app => ?_
  split
  · exact .pure _
  · split
    · exact .pure _
    · refine bind_fullWalk_keeps hwalks fun walk hwalk => .bind (.needImport _ _) fun _ => ?_
      refine .bind (.markTraced ref) fun _ => ?_
      exact .bind (traceFunction_keeps hwalk ref _) fun _ => .pure _

theorem traceServiceMethod_keeps (ref : FuncRef) : Weave.Keeps (traceServiceMethod walks ref) := by
  unfold traceServiceMethod
  refine .bind .get fun app => ?_
  split
  · exact .pure _
  · split
    · exact .pure _
    · split
      · exact .pure _
      · split
        · exact .pure _
        · refine bind_fullWalk_keeps hwalks fun walk hwalk => .bind (.markTraced ref) fun _ => ?_
          exact .bind (traceFunction_keeps hwalk ref _) fun _ => .pure _

end

/-! ## The sweep -/

theorem plainDetectors_keep : ∀ detector ∈ plainDetectors, ∀ package cursor,
    Weave.Keeps (detector.detect package cursor) := by
  intro detector hdetector package cursor
  simp only [plainDetectors, List.mem_cons, List.not_mem_nil, or_false] at hdetector
  rcases hdetector with rfl | rfl | rfl
  · show Weave.Keeps (installRoundTripper package cursor)
    unfold installRoundTripper
    split
    · refine .bind .get fun app => ?_
      dsimp only
      split
      · exact .pure _
      · exact .bind (.needImport _ _) fun _ => .pure _
    · exact .pure _
  · show Weave.Keeps (adviseHelpers package cursor)
    unfold adviseHelpers
    refine .bind .get fun app => ?_
    dsimp only
    split
    · exact .bind (.attach _ _) fun _ => .pure _
    · exact .pure _
  · show Weave.Keeps (interceptClients package cursor)
    unfold interceptClients
    refine .bind .get fun app => ?_
    dsimp only
    split
    · split
      · exact .bind (.needImport _ _) fun _ => .pure _
      · exact .pure _

theorem sweep_keeps (package : String) (depth : Nat) (stmts : List Stmt) :
    Weave.Keeps (sweep package depth stmts) := by
  induction depth generalizing stmts with
  | zero => exact .pure stmts
  | succ depth ih =>
      have hblocks : ∀ stmt : Stmt, Weave.Keeps (stmt.editBlocks (sweep package depth)) := by
        rintro ⟨kind, decs⟩ app
        have hsteps : ∀ after, BlockSteps (.ofStateM Application) (sweep package depth)
            (kind, app) after → Records app after.2 := by
          intro after steps
          induction steps with
          | refl => exact .refl
          | @tail before after _ hstep ih' =>
              obtain ⟨stmts, -, hstate⟩ := hstep
              rw [hstate]
              exact ih'.trans (ih stmts before.2)
        exact hsteps _ (kind.editBlocks_steps app)
      have hdetect : ∀ (detectors : List PlainDetector),
          (∀ detector ∈ detectors, ∀ package cursor, Weave.Keeps (detector.detect package cursor)) →
          ∀ cursor, Weave.Keeps
            (detectors.foldlM (fun cursor detector => detector.detect package cursor) cursor) := by
        intro detectors
        induction detectors with
        | nil => exact fun _ cursor => .pure cursor
        | cons detector detectors ih =>
            intro hkeep cursor
            rw [List.foldlM_cons]
            refine .bind (hkeep detector (by simp) package cursor) fun cursor' => ?_
            exact ih (fun other hmem => hkeep other (by simp [hmem])) cursor'
      intro app
      refine walkFrom_preserves (.ofStateM Application) (R := fun x y => Records x.2 y.2)
        (fun _ => .refl) (fun h h' => h.trans h') (fun cursor app => ?_) stmts.length [] stmts app
      have hvisit : Weave.Keeps (do
          let cursor ← plainDetectors.foldlM
            (fun cursor detector => detector.detect package cursor) cursor
          return cursor.replace (← cursor.current.editBlocks (sweep package depth))) :=
        .bind (hdetect _ plainDetectors_keep cursor) fun cursor' =>
          .bind (hblocks cursor'.current) fun _ => .pure _
      exact hvisit app

/-! ## Runs -/

theorem weave_keeps : Weave.Keeps weave := by
  have hroots : ∀ detector : RootDetector, (∀ ref, Weave.Keeps (detector.detect ref)) →
      Weave.Keeps (traceRoots detector) :=
    fun detector hdetect => .bind .get fun app => .filterM hdetect (candidates app)
  have hsweep : ∀ ref, Weave.Keeps (sweepFunction ref) := by
    intro ref
    unfold sweepFunction
    refine .bind (.withBody (fun body => ?_) ref) fun _ => .pure _
    exact .bind (sweep_keeps _ _ _) fun _ => .pure _
  unfold weave weaveFrom rootDetectors rootDetectorsWith
  simp only [List.mapM_cons, List.mapM_nil]
  refine .bind (.bind (hroots _ (traceMain_keeps walkBlock_keeps)) fun mains => ?_) fun roots => ?_
  · refine .bind (.bind (hroots _ (traceHandler_keeps walkBlock_keeps)) fun handlers => ?_)
      fun _ => .pure _
    refine .bind (.bind (hroots _ (traceServiceMethod_keeps walkBlock_keeps)) fun methods => ?_)
      fun _ => .pure _
    exact .bind (.pure _) fun _ => .pure _
  · exact .bind .get fun app => .bind (.forM hsweep (candidates app)) fun _ => .pure _

end TraceWeave.Tracing
