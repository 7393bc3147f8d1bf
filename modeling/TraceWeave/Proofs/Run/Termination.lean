import TraceWeave.Proofs.Program.Origin
import TraceWeave.Proofs.Tracing.Bounds
import TraceWeave.Proofs.Tracing.Turns

/-!
Tracing comes to an end by itself.

The walk of a run carries bounds: how deep it may go, and how many statements of a list it
may visit.  None of them is ever reached, whatever calls what: the run is the same for
every walk that agrees with the tracing walk within the bounds.  On the way, no body is
entered twice.
-/

namespace TraceWeave.Tracing

open TraceWeave.Agent TraceWeave.Detect TraceWeave.Program TraceWeave.Source TraceWeave.Syntax
  TraceWeave.Types

/-! ## The entry function -/

theorem depth_lowerRedeclarations (declared : List String) (stmts : List Stmt) :
    depthOfStmts (lowerRedeclarations declared stmts) = depthOfStmts stmts := by
  have hassign : ∀ stmt : Stmt, (assignOnly stmt).kind.depth = stmt.kind.depth := by
    intro stmt
    unfold assignOnly
    split
    · next hkind => rw [hkind]; rfl
    · rfl
  induction stmts generalizing declared with
  | nil => rfl
  | cons stmt stmts ih =>
      unfold lowerRedeclarations
      split
      · simp only [depthOfStmts_cons, ih]
      · dsimp only
        split
        · simp only [depthOfStmts_cons, ih, hassign]
        · simp only [depthOfStmts_cons, ih]

/-- The set-up of the agent is one list deep. -/
theorem SetsUp.depth_le {agent appName : String} {stmts stmts' : List Stmt}
    (h : SetsUp agent appName stmts stmts') : depthOfStmts stmts' ≤ depthOfStmts stmts + 1 := by
  cases h with
  | existing => exact Nat.le_succ _
  | fresh =>
      have hinit : depthOfStmts (agentInit agent appName) = 1 := rfl
      have hstop : depthOfStmts [agentShutdown agent] = 0 := rfl
      rw [depthOfStmts_append, depthOfStmts_append, depth_lowerRedeclarations, hinit, hstop]
      omega

/-! ## Roots -/

theorem fullWalk_bind {α : Type} (walks : Nat → Walk) (f : Walk → Weave α) (app : Application) :
    (fullWalk walks >>= f) app = f (walks app.depth) app := rfl

/-- A body that has been taken out of an application fits into the depth of it. -/
theorem fits_opened {app app' : Application} (hdiffer : app.PlacesDiffer) {ref : FuncRef}
    {body : Block} (hbody : app.body? ref = some body) {stmts : List Stmt}
    (hstmts : depthOfStmts stmts ≤ depthOfStmts body.stmts + 1)
    (hweaves : Weaves (opened app ref) stmts app' stmts) :
    Fits (depthOfStmts stmts + 1) app.depth app' := by
  have hopened := pending_opened_depth hdiffer (isSome_entry?_of_body? hbody)
  rw [Application.depthAt_eq, hbody, Option.map_some, Option.getD_some] at hopened
  have hfits : Fits (depthOfStmts stmts + 1) app.depth (opened app ref) :=
    ⟨placesDiffer_of_outline (outline_opened app ref) hdiffer, by omega⟩
  exact hfits.weaves hweaves

section

variable (stop : Walk) (halt : List Stmt → Walk)

theorem traceMain_eq {app : Application} (hdiffer : app.PlacesDiffer) (ref : FuncRef) :
    traceMain walkBlock ref app = traceMain (walkWith stop halt) ref app := by
  unfold traceMain Weave.withBody
  refine Weave.bind_eq rfl ?_
  rw [Weave.wp_get]
  split
  · rfl
  · rw [fullWalk_bind, fullWalk_bind]
    refine Weave.bind_eq rfl ?_
    rw [Weave.wp_modify]
    refine Weave.bind_eq rfl ?_
    rw [Weave.wp_get]
    cases hbody : (app.markTraced ref).body? ref with
    | none => rfl
    | some body =>
        have hbody' : app.body? ref = some body := by
          rwa [Application.body?, Application.func?_markTraced] at hbody
        refine Weave.bind_eq rfl (Weave.bind_eq (Weave.bind_eq rfl (Weave.bind_eq rfl ?_)) rfl)
        refine (setUpAgent_setsUp ref body (opened app ref)).mono ?_
        rintro ⟨prepared, agent⟩ app' ⟨⟨stmts, rfl, hsetsUp⟩, himports⟩
        refine Weave.bind_eq (traceBody_eq (fun frame => ?_) _) rfl
        have hfits := fits_opened hdiffer hbody' hsetsUp.depth_le (himports stmts)
        exact walkBlock_agreeBelow stop halt app.depth stmts frame app' hfits

/-- The body of a root is traced within the depth of the application. -/
theorem traceRoot_eq {app : Application} (hdiffer : app.PlacesDiffer) (ref : FuncRef)
    (frame : Frame) :
    traceFunction (walkBlock app.depth) ref frame (app.markTraced ref) =
      traceFunction (walkWith stop halt app.depth) ref frame (app.markTraced ref) := by
  refine traceFunction_eq (fun body hbody frame => ?_) frame
  have hbody' : app.body? ref = some body := by
    rwa [Application.body?, Application.func?_markTraced] at hbody
  have hfits := fits_opened hdiffer hbody' (Nat.le_succ _) .refl
  exact walkBlock_agreeBelow stop halt app.depth body.stmts frame (opened app ref) hfits

theorem traceHandler_eq {app : Application} (hdiffer : app.PlacesDiffer) (ref : FuncRef) :
    traceHandler walkBlock ref app = traceHandler (walkWith stop halt) ref app := by
  unfold traceHandler
  refine Weave.bind_eq rfl ?_
  rw [Weave.wp_get]
  split
  · rfl
  · cases (app.func? ref).bind fun func => requestParam? app.types func.params with
    | none => rfl
    | some request =>
        dsimp only
        rw [fullWalk_bind, fullWalk_bind]
        refine Weave.bind_eq rfl (Weave.bind_eq rfl (Weave.bind_eq ?_ rfl))
        have hdiffer' := placesDiffer_of_outline
          (app.outline_needImport ref.package Path.newrelic) hdiffer
        rw [← depth_needImport app ref.package Path.newrelic]
        exact traceRoot_eq stop halt hdiffer' ref _

theorem traceServiceMethod_eq {app : Application} (hdiffer : app.PlacesDiffer) (ref : FuncRef) :
    traceServiceMethod walkBlock ref app = traceServiceMethod (walkWith stop halt) ref app := by
  unfold traceServiceMethod
  refine Weave.bind_eq rfl ?_
  rw [Weave.wp_get]
  split
  · rfl
  · cases app.func? ref with
    | none => rfl
    | some func =>
        dsimp only
        split
        · rfl
        · cases serviceCarrier? app func.params with
          | none => rfl
          | some carrier =>
              dsimp only
              rw [fullWalk_bind, fullWalk_bind]
              refine Weave.bind_eq rfl (Weave.bind_eq ?_ rfl)
              exact traceRoot_eq stop halt hdiffer ref _

end

/-! ## Runs -/

/-- Detectors that agree wherever a phase gets agree on the whole phase. -/
theorem filterM_eq {detect detect' : FuncRef → Weave Bool}
    {Q : List FuncRef → List FuncRef → Application → Prop}
    (hstep : ∀ ref refs accepted app, Q (ref :: refs) accepted app →
      Weave.wp (detect ref) (fun found app' =>
        Q refs (if found then ref :: accepted else accepted) app') app)
    (hsame : ∀ ref refs accepted app, Q (ref :: refs) accepted app → detect ref app = detect' ref app)
    {refs : List FuncRef} {app : Application} (h : Q refs [] app) :
    refs.filterM detect app = refs.filterM detect' app := by
  have haux : ∀ refs accepted app, Q refs accepted app →
      refs.filterAuxM detect accepted app = refs.filterAuxM detect' accepted app := by
    intro refs
    induction refs with
    | nil => exact fun _ _ _ => rfl
    | cons ref refs ih =>
        intro accepted app h
        rw [List.filterAuxM, List.filterAuxM]
        refine Weave.bind_eq (hsame ref refs accepted app h) ?_
        refine (hstep ref refs accepted app h).mono fun found app' h' => ?_
        cases found with
        | false => exact ih accepted app' h'
        | true => exact ih (ref :: accepted) app' h'
  exact Weave.bind_eq (haux refs [] app h) rfl

theorem AcceptsFresh.phase_eq {detect detect' : FuncRef → Weave Bool}
    (hdetect : AcceptsFresh detect)
    (hsame : ∀ ref {app : Application}, app.PlacesDiffer → detect ref app = detect' ref app)
    {app : Application} (hdiffer : app.PlacesDiffer) (refs : List FuncRef) :
    refs.filterM detect app = refs.filterM detect' app := by
  refine filterM_eq (Q := fun _ _ app => app.PlacesDiffer) (fun ref _ _ app hdiffer => ?_)
    (fun ref _ _ _ hdiffer => hsame ref hdiffer) hdiffer
  refine (hdetect ref app hdiffer).mono fun found app' h => ?_
  exact placesDiffer_of_outline (Turns.grows hdiffer h.1).outline hdiffer

theorem weaveFrom_eq (stop : Walk) (halt : List Stmt → Walk) {app : Application}
    (hcoherent : app.Coherent) (hentered : app.entered = []) :
    weave app = weaveFrom (rootDetectorsWith (walkWith stop halt)) app := by
  have hdiffer := hcoherent.placesDiffer
  unfold weave weaveFrom rootDetectors rootDetectorsWith
  simp only [List.mapM_cons, List.mapM_nil]
  refine Weave.bind_eq (Weave.bind_eq ?_ ?_) rfl
  · refine filterM_eq (Q := MainsLeft app) (fun _ _ _ _ h => h.step walkBlock_weaves)
      (fun ref _ _ _ h => ?_) (.start hcoherent hentered)
    exact traceMain_eq stop halt (placesDiffer_of_outline (h.turns.grows hdiffer).outline hdiffer) ref
  · rw [traceRoots_wp]
    refine (traceMain_phase walkBlock_weaves hcoherent hentered).mono ?_
    rintro mains app₁ ⟨hturns₁, -, -⟩
    have hdiffer₁ := placesDiffer_of_outline (hturns₁.grows hdiffer).outline hdiffer
    have hhandlers := traceHandler_acceptsFresh walkBlock_weaves
    refine Weave.bind_eq (Weave.bind_eq ?_ ?_) rfl
    · exact hhandlers.phase_eq (fun ref _ h => traceHandler_eq stop halt h ref) hdiffer₁ _
    · rw [traceRoots_wp]
      refine (hhandlers.phase hdiffer₁ _).mono ?_
      rintro handlers app₂ ⟨hturns₂, -, -⟩
      have hdiffer₂ := placesDiffer_of_outline (hturns₂.grows hdiffer₁).outline hdiffer₁
      refine Weave.bind_eq (Weave.bind_eq ?_ rfl) rfl
      exact (traceServiceMethod_acceptsFresh walkBlock_weaves).phase_eq
        (fun ref _ h => traceServiceMethod_eq stop halt h ref) hdiffer₂ _

/--
Tracing ends by itself, and takes each function once: whatever a walk would do beyond its
bounds, the run is the same, no body is entered twice, and no function is accepted as a
root twice.
-/
theorem weave_terminates (origin : Origin) (stop : Walk) (halt : List Stmt → Walk) :
    (weaveFrom (rootDetectorsWith (walkWith stop halt))).run origin.app = weave.run origin.app ∧
      (weave.run origin.app).2.entered.Nodup ∧ (weave.run origin.app).1.Nodup := by
  have hcoherent := origin.coherent_app
  have hrun := (Weave.wp_iff _ _ _).1 (weave_turns hcoherent origin.app_entered)
  have hsame := weaveFrom_eq stop halt hcoherent origin.app_entered
  refine ⟨hsame.symm, ?_, hrun.2⟩
  obtain ⟨added, hadded, hnodup, -⟩ := (hrun.1.grows hcoherent.placesDiffer).entered
  rw [hadded, origin.app_entered, List.append_nil]
  exact hnodup

end TraceWeave.Tracing
