import TraceWeave.Proofs.Program.Origin
import TraceWeave.Proofs.Tracing.ScopedWalk
import TraceWeave.Proofs.Tracing.Turns

/-!
The variable of the transaction is in scope behind a whole run.

A function that came without the variable reads it behind a run only where a parameter
declares it or the first statement of the body binds it (`weave_bindsReads`).  The roots of
traces start with frames that are sound, and the sweep behind them reads nothing new and
leaves the first statement a binding.
-/

namespace TraceWeave.Tracing

open TraceWeave.Agent TraceWeave.Detect TraceWeave.Program TraceWeave.Source TraceWeave.Syntax
  TraceWeave.Types

variable (watched : FuncRef → Prop)

/-! ## Roots -/

theorem mem_declared_of_requestParam? {info : Info} {params : FieldList} {request : String}
    (h : requestParam? info params = some request) : request ∈ params.declared := by
  unfold requestParam? at h
  split at h
  · next ident type hparams =>
    split at h
    · obtain rfl := Option.some.inj h
      have hmem : (some ident, type) ∈ params.params := by simp [hparams]
      exact mem_declared_of_params hmem
    · contradiction
  · contradiction

theorem mem_declared_of_serviceCarrier? {app : Application} {params : FieldList} {carrier : Carrier}
    (h : serviceCarrier? app params = some carrier) : carrier.name ∈ params.declared := by
  have htyped : ∀ entry ∈ params.params.filterMap fun param =>
      (param.1.filter (!·.isBlank)).bind fun name =>
        (paramType? app.types param.2).map fun type => (name.name, type),
      entry.1 ∈ params.declared := by
    intro entry hmem
    rcases List.mem_filterMap.1 hmem with ⟨⟨ident?, type⟩, hparam, hsome⟩
    rcases Option.bind_eq_some_iff.1 hsome with ⟨ident, hident, hentry⟩
    rcases Option.map_eq_some_iff.1 hentry with ⟨type', -, rfl⟩
    have hnamed := (Option.filter_eq_some_iff.1 hident).1
    subst hnamed
    exact mem_declared_of_params hparam
  unfold serviceCarrier? at h
  dsimp only at h
  split at h
  · next hstream =>
    obtain rfl := Option.some.inj h
    exact htyped _ (List.mem_of_find?_eq_some hstream)
  · next hcontext =>
    obtain rfl := Option.some.inj h
    exact htyped _ (List.mem_of_find?_eq_some hcontext)
  · contradiction

section

variable {walks : Nat → Walk} (hwalk : ∀ depth, (walks depth).Scoped watched)
  (hweaves : ∀ depth, (walks depth).Weaves)

include hwalk

theorem traceMain_tidies (hmain : ∀ ref, watched ref → ref.key ≠ "main") (ref : FuncRef)
    (app : Application) :
    Weave.wp (traceMain walks ref) (fun _ app' => Tidies watched app app') app := by
  unfold traceMain fullWalk Weave.withBody
  simp only [Weave.wp_bind, Weave.wp_get]
  split
  · exact .refl
  · next hentry =>
    have hkey : ref.key = "main" := by
      simp only [isEntryPoint, Bool.or_eq_true, not_or, Bool.not_eq_true', Bool.not_eq_false,
        Bool.and_eq_true, beq_iff_eq] at hentry
      exact hentry.1.1.1
    simp only [Weave.wp_bind, Weave.wp_pure, Weave.wp_get, Weave.wp_modify]
    split
    · exact .markTraced app ref
    · next body hbody =>
      simp only [Weave.wp_bind, Weave.wp_modify]
      have hopened : Tidies watched app (opened app ref) :=
        (Tidies.markTraced app ref).trans ((Tidies.takeBody _ ref).trans (.noteEntered _ ref))
      have hsetUp : Weave.wp (setUpAgent ref body) (fun _ app' =>
          Tidies watched (opened app ref) app') (opened app ref) := by
        unfold setUpAgent
        split
        · exact .refl
        · exact .trans (.needImport ..) (.needImport ..)
      apply hsetUp.mono
      rintro ⟨prepared, agent⟩ app' hprepared
      simp only [Weave.wp_bind, Trace.wp_run]
      apply (traceBody_scopes watched (hwalk _) prepared _ app').mono
      rintro body' _ app'' ⟨htidies, -⟩
      refine (hopened.trans (hprepared.trans htidies)).trans (.modifyFunc (fun _ => rfl) ?_)
      exact fun _ _ _ _ hwatched => absurd hkey (hmain ref hwatched)

include hweaves

/-- A root that has not been reached is traced in a frame that is sound. -/
theorem traceRoot_tidies {ref : FuncRef} {frame : Frame} {func : FuncDecl} {app : Application}
    (hsound : frame.Sound func.params.declared) (hbinds : frame.Binds)
    (hmay : app.mayInstrument ref = true) (hfunc : app.func? ref = some func) (depth : Nat) :
    Weave.wp (traceFunction (walks depth) ref frame) (fun _ app' => Tidies watched app app')
      (app.markTraced ref) := by
  have hfresh : app.isTraced ref = false := by
    rw [Application.mayInstrument_eq] at hmay
    simp_all
  have hfunc' : (app.markTraced ref).func? ref = some func := by
    rw [Application.func?_markTraced, hfunc]
  have htraced : (app.markTraced ref).isTraced ref = true := by
    simp [Application.isTraced_markTraced, isSome_entry?_of_mayInstrument hmay]
  exact traceFunction_tidies watched (hwalk depth) (hweaves depth) hsound hbinds
    (.markTraced app ref) hfunc' htraced fun htidy hwatched body hbody =>
      htidy.fresh hfresh hwatched hfunc hbody

theorem traceHandler_tidies (ref : FuncRef) (app : Application) :
    Weave.wp (traceHandler walks ref) (fun _ app' => Tidies watched app app') app := by
  unfold traceHandler fullWalk
  simp only [Weave.wp_bind, Weave.wp_get]
  split
  · exact .refl
  · next hmay =>
    simp only [Bool.not_eq_true', Bool.not_eq_false] at hmay
    split
    · exact .refl
    · next request hrequest =>
      rcases Option.bind_eq_some_iff.1 hrequest with ⟨func, hfunc, hparam⟩
      have hdeclared := mem_declared_of_requestParam? hparam
      simp only [Weave.wp_bind, Weave.wp_pure, Weave.wp_get, Weave.wp_modify, Weave.wp_needImport]
      generalize hframe : Frame.withBinding ref.package app.agent transactionVariable
        (bindFromContext transactionVariable (methodCall (.ident request) "Context" [])) = frame
      have hsound : frame.Sound func.params.declared := by
        subst hframe
        refine ⟨rfl, nofun, fun _ _ => .inr rfl, fun stmt hstmt => ?_⟩
        obtain rfl := Option.some.inj hstmt
        refine ⟨_, rfl, fun hreads => ?_⟩
        have hname : request = transactionVariable := by simpa [methodCall] using hreads
        exact hname ▸ hdeclared
      have hbinds : frame.Binds := by
        subst hframe
        intro stmt hstmt
        obtain rfl := Option.some.inj hstmt
        exact ⟨_, _, .method request, rfl⟩
      have hmay' : (app.needImport ref.package Path.newrelic).mayInstrument ref = true := by
        rw [mayInstrument_needImport, hmay]
      have hfunc' : (app.needImport ref.package Path.newrelic).func? ref = some func := by
        rw [Application.func?_eq, Application.place?_needImport]
        rw [Application.func?_eq] at hfunc
        rw [← hfunc]
        exact congrArg _ (funext (app.funcAt?_needImport ref.package Path.newrelic))
      apply (traceRoot_tidies watched hwalk hweaves hsound hbinds hmay' hfunc' _).mono
      exact fun _ app' h => (Tidies.needImport app ref.package Path.newrelic).trans h

theorem traceServiceMethod_tidies (ref : FuncRef) (app : Application) :
    Weave.wp (traceServiceMethod walks ref) (fun _ app' => Tidies watched app app') app := by
  unfold traceServiceMethod fullWalk
  simp only [Weave.wp_bind, Weave.wp_get]
  split
  · exact .refl
  · next hmay =>
    simp only [Bool.not_eq_true', Bool.not_eq_false] at hmay
    split
    · exact .refl
    · next func hfunc =>
      split
      · exact .refl
      · split
        · exact .refl
        · next carrier hcarrier =>
          have hdeclared := mem_declared_of_serviceCarrier? hcarrier
          simp only [Weave.wp_bind, Weave.wp_pure, Weave.wp_get, Weave.wp_modify]
          have hsound : (Frame.traced ref.package app.agent carrier transactionVariable).Sound
              func.params.declared := .traced fun hname => hname ▸ hdeclared
          have hbinds := traced_binds ref.package app.agent carrier transactionVariable
          exact traceRoot_tidies watched hwalk hweaves hsound hbinds hmay hfunc _

end

/-! ## The sweep -/

/-- The first statement stays a binding, and nothing new is read of the variable. -/
structure Spares (stmts stmts' : List Stmt) : Prop where
  reads : readsTransaction stmts' = true → readsTransaction stmts = true
  binds : bindsFirst stmts = true → bindsFirst stmts' = true

theorem Spares.refl {stmts : List Stmt} : Spares stmts stmts := ⟨id, id⟩

theorem Spares.trans {stmts stmts' stmts'' : List Stmt} (h : Spares stmts stmts')
    (h' : Spares stmts' stmts'') : Spares stmts stmts'' :=
  ⟨h.reads ∘ h'.reads, h'.binds ∘ h.binds⟩

theorem Spares.gains {stmts stmts' : List Stmt} (h : Spares stmts stmts') :
    Gains False (readsTransaction stmts) (readsTransaction stmts') :=
  fun hreads => .inl (h.reads hreads)

theorem Spares.of_current {front back back' : List Stmt} {stmt stmt' : Stmt}
    (hreads : readsTransaction (stmt' :: back') = true → readsTransaction (stmt :: back) = true)
    (hbinds : bindsTransaction stmt = true → bindsTransaction stmt' = true) :
    Spares (front ++ stmt :: back) (front ++ stmt' :: back') := by
  constructor
  · intro h
    simp only [readsTransaction, readsInStmts_eq_any, List.any_append, Bool.or_eq_true]
      at h hreads ⊢
    exact h.imp_right hreads
  · cases front with
    | nil => exact hbinds
    | cons first front => exact id

theorem Spares.of_stmt {front back : List Stmt} {stmt stmt' : Stmt}
    (hreads : stmt'.kind.reads transactionVariable = true →
      stmt.kind.reads transactionVariable = true)
    (hbinds : bindsTransaction stmt = true → bindsTransaction stmt' = true) :
    Spares (front ++ stmt :: back) (front ++ stmt' :: back) := by
  refine .of_current (fun h => ?_) hbinds
  simp only [readsTransaction, readsInStmts_eq_any, List.any_cons, Bool.or_eq_true] at h ⊢
  exact h.imp_left hreads

theorem assign_of_binds {stmt : Stmt} (h : bindsTransaction stmt = true) :
    ∃ target values, stmt.kind = .assign [target] .define values ∧
      target.isIdent transactionVariable = true := by
  unfold bindsTransaction at h
  split at h
  · next target values hkind => exact ⟨target, values, hkind, h⟩
  · contradiction

/-- A change of a call leaves a binding one. -/
theorem binds_of_rewrites {literals : Bool} {part' : Expr} {call : Call} {decs : Decorations}
    {scope : EditScope} {kind kind' : StmtKind}
    (h : StmtKind.Rewrites literals ⟨.call call, decs⟩ part' scope kind kind')
    {decs decs' : Decorations} (hbinds : bindsTransaction ⟨kind, decs⟩ = true) :
    bindsTransaction ⟨kind', decs'⟩ = true := by
  rcases assign_of_binds hbinds with ⟨target, values, rfl, hname⟩
  generalize hkind : StmtKind.assign [target] .define values = kind at h
  cases h with
  | value _ h =>
      obtain ⟨rfl, rfl, -⟩ := StmtKind.assign.inj hkind
      exact hname
  | target _ h =>
      obtain ⟨hleft, -, -⟩ := StmtKind.assign.inj hkind
      rcases List.singleton_eq_append_iff.1 hleft with ⟨rfl, htarget⟩ | ⟨-, htarget⟩
      · obtain ⟨rfl, rfl⟩ := List.cons.inj htarget
        -- a name is no call and has no parts
        cases h <;> simp [Expr.isIdent, Expr.ident?] at hname
      · contradiction
  | _ => contradiction

/-- A list inside a binding is none of its statements'. -/
theorem binds_of_replaces {stmts stmts' : List Stmt} {kind kind' : StmtKind}
    (h : StmtKind.Replaces stmts stmts' kind kind') {decs decs' : Decorations}
    (hbinds : bindsTransaction ⟨kind, decs⟩ = true) : bindsTransaction ⟨kind', decs'⟩ = true := by
  cases h <;> contradiction

/-- What a part of the sweep does to a list and to the application around it. -/
structure Sweeps (stmts : List Stmt) (app : Application) (stmts' : List Stmt) (app' : Application) :
    Prop where
  spares : Spares stmts stmts'
  tidies : Tidies watched app app'

namespace Sweeps

variable {watched}

theorem refl {stmts : List Stmt} {app : Application} : Sweeps watched stmts app stmts app :=
  ⟨.refl, .refl⟩

theorem trans {stmts stmts' stmts'' : List Stmt} {app app' app'' : Application}
    (h : Sweeps watched stmts app stmts' app') (h' : Sweeps watched stmts' app' stmts'' app'') :
    Sweeps watched stmts app stmts'' app'' :=
  ⟨h.spares.trans h'.spares, h.tidies.trans h'.tidies⟩

end Sweeps

/-- Every run of the detector sweeps the list that the cursor is on. -/
def IsSweeper (detector : PlainDetector) : Prop :=
  ∀ package cursor app, Weave.wp (detector.detect package cursor) (fun cursor' app' =>
    Sweeps watched cursor.toList app cursor'.toList app') app

theorem installRoundTripper_sweeps (package : String) (cursor : Cursor) (app : Application) :
    Weave.wp (installRoundTripper package cursor) (fun cursor' app' =>
      Sweeps watched cursor.toList app cursor'.toList app') app := by
  unfold installRoundTripper
  split
  · next client op value hkind =>
    simp only [Weave.wp_bind, Weave.wp_get]
    split
    · exact .refl
    · simp only [Weave.wp_bind, Weave.wp_needImport, Weave.wp_pure]
      refine ⟨?_, .needImport app package Path.newrelic⟩
      rw [Cursor.toList_eq, Cursor.toList_eq]
      refine .of_current (fun h => ?_) id
      have hname : ("newrelic" == transactionVariable) = false := by decide
      have hinstalled : ∀ after, (roundTripper (bare client) after).kind.reads transactionVariable =
          client.reads transactionVariable := by
        simp [roundTripper, Stmt.assign, StmtKind.reads, newrelic, bare, hname]
      simp [readsInStmts_eq_any, Cursor.insertAfter, Cursor.modify, StmtKind.reads, hinstalled,
        hkind] at h ⊢
      rcases h with h | h | h | h
      · exact .inl h
      · exact .inr (.inl h)
      · exact .inl (.inl h)
      · exact .inr (.inr h)
  · exact .refl

theorem adviseHelpers_sweeps (package : String) (cursor : Cursor) (app : Application) :
    Weave.wp (adviseHelpers package cursor) (fun cursor' app' =>
      Sweeps watched cursor.toList app cursor'.toList app') app := by
  unfold adviseHelpers
  simp only [Weave.wp_bind, Weave.wp_get]
  split
  · rw [Weave.wp_bind]
    refine Weave.wp_attach fun decs console _ => ⟨?_, .console app console⟩
    rw [Cursor.toList_eq, Cursor.toList_eq]
    exact .of_stmt id id
  · exact .refl

/-- Calls that gain no read of the variable, one after the other. -/
theorem spares_editOwn {m : Type → Type} [Monad m] {σ : Type} {threaded : Threaded m σ}
    {edits : Edits m} (follows : edits.Follows threaded fun before after =>
      (∃ call decs, before.1 = ⟨.call call, decs⟩) ∧
        Gains False (before.1.reads transactionVariable) (after.1.reads transactionVariable))
    (stmt : Stmt) (s : σ) (front back : List Stmt) :
    Spares (front ++ stmt :: back)
      (front ++ (threaded.run (stmt.editOwn edits) s).1 :: back) := by
  obtain ⟨kind, decs⟩ := stmt
  simp only [Stmt.editOwn, Threaded.run_bind, Threaded.run_pure]
  have hsteps := kind.edit_steps follows .own s
  generalize threaded.run (kind.edit edits .own) s = after at hsteps ⊢
  induction hsteps with
  | refl => exact .refl
  | tail _ hstep ih =>
      obtain ⟨part, part', ⟨⟨call, decs', rfl⟩, hgains⟩, hrewrite⟩ := hstep
      refine ih.trans (.of_stmt (fun h => ?_) (binds_of_rewrites hrewrite))
      exact (hrewrite.reads hgains h).resolve_right id

theorem interceptClients_sweeps (package : String) (cursor : Cursor) (app : Application) :
    Weave.wp (interceptClients package cursor) (fun cursor' app' =>
      Sweeps watched cursor.toList app cursor'.toList app') app := by
  have follows : (Edits.calls true (interceptClient app.types)).Follows (.ofStateM Bool)
      fun before after => (∃ call decs, before.1 = ⟨.call call, decs⟩) ∧
        Gains False (before.1.reads transactionVariable) (after.1.reads transactionVariable) := by
    refine ⟨fun call decs changed => .inl ⟨⟨call, decs, rfl⟩, ?_⟩,
      fun ident decs changed => .inr rfl⟩
    simp only [Expr.reads, ExprKind.reads_call, Edits.calls, Threaded.ofStateM, interceptClient]
    split
    · exact gains_addClientInterceptors call
    · exact .refl
  unfold interceptClients
  rw [Weave.wp_bind, Weave.wp_get]
  dsimp only
  split
  next stmt changed hrun =>
    have hspares : Spares cursor.toList (cursor.replace stmt).toList := by
      rw [Cursor.toList_eq, Cursor.toList_eq, show stmt = _ from (congrArg Prod.fst hrun).symm]
      exact spares_editOwn follows cursor.current false _ _
    split
    · exact ⟨hspares, .needImport app package Path.nrgrpc⟩
    · exact ⟨hspares, .refl⟩

theorem plainDetectors_sweep : ∀ detector ∈ plainDetectors, IsSweeper watched detector := by
  intro detector hdetector package cursor app
  simp only [plainDetectors, List.mem_cons, List.not_mem_nil, or_false] at hdetector
  rcases hdetector with rfl | rfl | rfl
  · exact installRoundTripper_sweeps watched package cursor app
  · exact adviseHelpers_sweeps watched package cursor app
  · exact interceptClients_sweeps watched package cursor app

theorem foldlM_sweeps (package : String) (detectors : List PlainDetector)
    (hsweeps : ∀ detector ∈ detectors, IsSweeper watched detector) (cursor : Cursor)
    (app : Application) :
    Weave.wp (detectors.foldlM (fun cursor detector => detector.detect package cursor) cursor)
      (fun cursor' app' => Sweeps watched cursor.toList app cursor'.toList app') app := by
  induction detectors generalizing cursor app with
  | nil => exact .refl
  | cons detector detectors ih =>
      rw [List.foldlM_cons, Weave.wp_bind]
      apply (hsweeps detector (by simp) package cursor app).mono
      intro cursor' app' h
      apply (ih (fun detector hmem => hsweeps detector (by simp [hmem])) cursor' app').mono
      exact fun cursor'' app'' h' => h.trans h'

theorem sweep_sweeps (package : String) (depth : Nat) (stmts : List Stmt) (app : Application) :
    Weave.wp (sweep package depth stmts) (fun stmts' app' =>
      Sweeps watched stmts app stmts' app') app := by
  induction depth generalizing stmts app with
  | zero => exact .refl
  | succ depth ih =>
      have hblocks : ∀ (stmt : Stmt) app, Weave.wp (stmt.editBlocks (sweep package depth))
          (fun stmt' app' => ∀ front back,
            Sweeps watched (front ++ stmt :: back) app (front ++ stmt' :: back) app') app := by
        rintro ⟨kind, decs⟩ app
        have hsteps : ∀ after, BlockSteps (.ofStateM Application) (sweep package depth)
            (kind, app) after → ∀ front back, Sweeps watched (front ++ ⟨kind, decs⟩ :: back) app
              (front ++ ⟨after.1, decs⟩ :: back) after.2 := by
          intro after steps front back
          induction steps with
          | refl => exact .refl
          | @tail before after _ hstep ih' =>
              obtain ⟨stmts, hreplaces, hstate⟩ := hstep
              have hstmts := ih stmts before.2
              rw [hstate]
              have hgains := hreplaces.reads hstmts.spares.gains
              refine ih'.trans ⟨.of_stmt (fun h => ?_) (binds_of_replaces hreplaces), hstmts.tidies⟩
              exact (hgains h).resolve_right id
        exact hsteps _ (kind.editBlocks_steps app)
      have hvisit : ∀ (cursor : Cursor) (app : Application), Weave.wp (do
          let cursor ← plainDetectors.foldlM
            (fun cursor detector => detector.detect package cursor) cursor
          return cursor.replace (← cursor.current.editBlocks (sweep package depth)))
          (fun cursor' app' => Sweeps watched cursor.toList app cursor'.toList app') app := by
        intro cursor app
        rw [Weave.wp_bind]
        apply (foldlM_sweeps watched package _ (plainDetectors_sweep watched) cursor app).mono
        intro cursor' app' hdetected
        rw [Weave.wp_bind]
        apply (hblocks cursor'.current app').mono
        intro stmt app'' hedited
        rw [Weave.wp_pure]
        refine hdetected.trans ?_
        rw [Cursor.toList_eq, Cursor.toList_eq]
        exact hedited _ _
      exact walkFrom_preserves (.ofStateM Application)
        (R := fun x y => Sweeps watched x.1 x.2 y.1 y.2) (fun _ => .refl) (fun h h' => h.trans h')
        hvisit stmts.length [] stmts app

theorem sweepFunction_tidies (ref : FuncRef) (app : Application) :
    Weave.wp (sweepFunction ref) (fun _ app' => Tidies watched app app') app := by
  unfold sweepFunction Weave.withBody
  simp only [Weave.wp_bind, Weave.wp_get]
  split
  · exact .refl
  · next body hbody =>
    rcases Option.bind_eq_some_iff.1 hbody with ⟨func, hfunc, hfuncBody⟩
    have hparams := params_setBody app ref none ref
    rw [hfunc] at hparams
    simp only [Weave.wp_bind, Weave.wp_modify]
    have hswept := sweep_sweeps watched ref.package (depthOfStmts body.stmts + 1) body.stmts
      (app.setBody ref none)
    have hwoven := sweep_weaves ref.package (depthOfStmts body.stmts + 1) body.stmts
      (app.setBody ref none)
    refine (Tidies.takeBody app ref).putBack hswept.tidies hwoven hparams ?_
    intro htidy hwatched hreads
    obtain ⟨htraced, hscope⟩ :=
      htidy ref func body hwatched hfunc hfuncBody (hswept.spares.reads hreads)
    refine ⟨(isTraced_setBody app ref none ref).trans htraced, hscope.imp_right hswept.spares.binds⟩

/-! ## Runs -/

theorem Tidies.phase {watched : FuncRef → Prop} {detect : FuncRef → Weave Bool}
    (hdetect : ∀ ref app, Weave.wp (detect ref) (fun _ app' => Tidies watched app app') app)
    (refs : List FuncRef) (app : Application) :
    Weave.wp (refs.filterM detect) (fun _ app' => Tidies watched app app') app :=
  filterM_wp (Q := fun _ _ app' => Tidies watched app app')
    (fun ref _ _ app' h => (hdetect ref app').mono fun _ _ h' => h.trans h') .refl

theorem sweepAll_tidies (refs : List FuncRef) (app : Application) :
    Weave.wp (refs.forM sweepFunction) (fun _ app' => Tidies watched app app') app := by
  induction refs generalizing app with
  | nil => exact .refl
  | cons ref refs ih =>
      rw [List.forM, Weave.wp_bind]
      apply (sweepFunction_tidies watched ref app).mono
      intro _ app' h
      apply (ih app').mono
      exact fun _ app'' h' => h.trans h'

theorem weave_tidies (hmain : ∀ ref, watched ref → ref.key ≠ "main") (app : Application) :
    Weave.wp weave (fun _ app' => Tidies watched app app') app := by
  have hwalk := walkBlock_scoped watched
  unfold weave weaveFrom rootDetectors rootDetectorsWith
  simp only [List.mapM_cons, List.mapM_nil, Weave.wp_bind]
  rw [traceRoots_wp]
  apply (Tidies.phase (traceMain_tidies watched hwalk hmain) _ app).mono
  intro mains app₁ h₁
  simp only [Weave.wp_bind]
  rw [traceRoots_wp]
  apply (Tidies.phase (traceHandler_tidies watched hwalk walkBlock_weaves) _ app₁).mono
  intro handlers app₂ h₂
  simp only [Weave.wp_bind]
  rw [traceRoots_wp]
  apply (Tidies.phase (traceServiceMethod_tidies watched hwalk walkBlock_weaves) _ app₂).mono
  intro methods app₃ h₃
  simp only [Weave.wp_pure, Weave.wp_bind, Weave.wp_get]
  apply (sweepAll_tidies watched _ app₃).mono
  exact fun _ app₄ h₄ => h₁.trans (h₂.trans (h₃.trans h₄))

/-- Not an entry function, and the body does not read the variable of the transaction. -/
def Unread (app : Application) (ref : FuncRef) : Prop :=
  ref.key ≠ "main" ∧ ∀ body, app.body? ref = some body → readsTransaction body.stmts = false

/-- Wherever a run makes a function read the variable, the function has it in scope. -/
theorem weave_bindsReads (origin : Origin) :
    Tidy (Unread origin.app) (weave.run origin.app).2 := by
  have htidies := (Weave.wp_iff _ _ _).1
    (weave_tidies (Unread origin.app) (fun _ hwatched => hwatched.1) origin.app)
  apply htidies.tidy origin.coherent_app.placesDiffer
  intro ref func body hwatched hfunc hbody h
  rw [hwatched.2 body (Option.bind_eq_some_iff.2 ⟨func, hfunc, hbody⟩)] at h
  contradiction

end TraceWeave.Tracing
