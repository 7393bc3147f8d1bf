import TraceWeave.Instrument
import TraceWeave.Proofs.Tracing.Detectors

/-!
The detectors that need no transaction, and the sweep that lets them see all statements
of a body: a sweep weaves, too.
-/

namespace TraceWeave.Tracing

open TraceWeave.Agent TraceWeave.Detect TraceWeave.Program TraceWeave.Syntax TraceWeave.Types

/-- Every run of the detector weaves the list that the cursor is on. -/
def IsWeaver (detector : PlainDetector) : Prop :=
  ∀ package cursor app, Weave.wp (detector.detect package cursor) (fun cursor' app' =>
    Weaves app cursor.toList app' cursor'.toList) app

/-- The frame of a run that looks at none. -/
private abbrev noFrame : Frame := .untraced "" ""

theorem installRoundTripper_weaves (package : String) (cursor : Cursor) (app : Application) :
    Weave.wp (installRoundTripper package cursor) (fun cursor' app' =>
      Weaves app cursor.toList app' cursor'.toList) app := by
  unfold installRoundTripper
  split
  · next client op value hkind =>
    simp only [Weave.wp_bind, Weave.wp_get]
    split
    · exact .refl
    · next hclient =>
      simp only [Weave.wp_bind, Weave.wp_needImport, Weave.wp_pure]
      simp only [Bool.or_eq_true, not_or] at hclient
      have hname : IsName client := isName_of_not_all hclient.1.2
      have hmoves : Moves cursor noFrame app cursor noFrame app := .refl
      refine (((hmoves.dress (.withoutAfter _)).needImport package Path.newrelic).insertAfter
        rfl ?_).weaves
      exact .roundTripper cursor.current.decs.after (target_named hkind hname)
  · exact .refl

theorem adviseHelpers_weaves (package : String) (cursor : Cursor) (app : Application) :
    Weave.wp (adviseHelpers package cursor) (fun cursor' app' =>
      Weaves app cursor.toList app' cursor'.toList) app := by
  unfold adviseHelpers
  simp only [Weave.wp_bind, Weave.wp_get]
  split
  · rw [Weave.wp_bind]
    refine Weave.wp_attach fun decs console hdecs => ?_
    have hmoves : Moves cursor noFrame app cursor noFrame app := .refl
    exact ((hmoves.dress hdecs).console console).weaves
  · exact .refl

theorem interceptClients_weaves (package : String) (cursor : Cursor) (app : Application) :
    Weave.wp (interceptClients package cursor) (fun cursor' app' =>
      Weaves app cursor.toList app' cursor'.toList) app := by
  have follows : (Edits.calls true (interceptClient app.types)).Follows (.ofStateM Bool)
      fun before after => Adjusts app before.1 after.1 := by
    refine ⟨fun call decs changed => ?_, fun ident decs changed => .inr rfl⟩
    simp only [Edits.calls, Threaded.ofStateM, interceptClient]
    split
    · next hdials => exact .inl (.hook (.client hdials))
    · exact .inr rfl
  have hmoves : Moves cursor noFrame app cursor noFrame app := .refl
  unfold interceptClients
  rw [Weave.wp_bind, Weave.wp_get]
  dsimp only
  split
  next stmt changed hrun =>
    have hedited : Moves cursor noFrame app (cursor.replace stmt) noFrame app := by
      refine hmoves.replace fun front back => ?_
      have hweaves := retouches_editOwn follows cursor.current false front back
      rwa [show stmt = _ from (congrArg Prod.fst hrun).symm]
    split
    · exact (hedited.needImport package Path.nrgrpc).weaves
    · exact hedited.weaves

theorem plainDetectors_weave : ∀ detector ∈ plainDetectors, IsWeaver detector := by
  intro detector hdetector package cursor app
  simp only [plainDetectors, List.mem_cons, List.not_mem_nil, or_false] at hdetector
  rcases hdetector with rfl | rfl | rfl
  · exact installRoundTripper_weaves package cursor app
  · exact adviseHelpers_weaves package cursor app
  · exact interceptClients_weaves package cursor app

theorem foldlM_weaves (package : String) (detectors : List PlainDetector)
    (hweaves : ∀ detector ∈ detectors, IsWeaver detector) (cursor : Cursor)
    (app : Application) :
    Weave.wp (detectors.foldlM (fun cursor detector => detector.detect package cursor) cursor)
      (fun cursor' app' => Weaves app cursor.toList app' cursor'.toList) app := by
  induction detectors generalizing cursor app with
  | nil => exact .refl
  | cons detector detectors ih =>
      rw [List.foldlM_cons, Weave.wp_bind]
      refine (hweaves detector (by simp) package cursor app).mono fun cursor' app' h => ?_
      refine (ih (fun detector hmem => hweaves detector (by simp [hmem])) cursor' app').mono ?_
      exact fun cursor'' app'' h' => h.trans h'

theorem sweep_weaves (package : String) (depth : Nat) (stmts : List Stmt) (app : Application) :
    Weave.wp (sweep package depth stmts) (fun stmts' app' => Weaves app stmts app' stmts') app := by
  induction depth generalizing stmts app with
  | zero => exact .refl
  | succ depth ih =>
      have hblocks : ∀ (stmt : Stmt) app, Weave.wp (stmt.editBlocks (sweep package depth))
          (fun stmt' app' => ∀ front back,
            Weaves app (front ++ stmt :: back) app' (front ++ stmt' :: back)) app := by
        rintro ⟨kind, decs⟩ app
        have hsteps : ∀ after, BlockSteps (.ofStateM Application) (sweep package depth)
            (kind, app) after → ∀ front back,
              Weaves app (front ++ ⟨kind, decs⟩ :: back) after.2 (front ++ ⟨after.1, decs⟩ :: back) := by
          intro after steps front back
          induction steps with
          | refl => exact .refl
          | @tail before after _ hstep ih' =>
              obtain ⟨stmts, hreplaces, hstate⟩ := hstep
              rw [hstate]
              exact ih'.trans (.nested front back (.block hreplaces) (ih stmts before.2))
        exact hsteps _ (kind.editBlocks_steps app)
      refine walkFrom_preserves (.ofStateM Application) (R := fun x y => Weaves x.2 x.1 y.2 y.1)
        (fun _ => .refl) (fun h h' => h.trans h') (fun cursor app => ?_) stmts.length [] stmts app
      show Weave.wp (do
        let cursor ← plainDetectors.foldlM
          (fun cursor detector => detector.detect package cursor) cursor
        return cursor.replace (← cursor.current.editBlocks (sweep package depth)))
        (fun cursor' app' => Weaves app cursor.toList app' cursor'.toList) app
      rw [Weave.wp_bind]
      refine (foldlM_weaves package _ plainDetectors_weave cursor app).mono ?_
      intro cursor' app' hdetected
      rw [Weave.wp_bind]
      refine (hblocks cursor'.current app').mono fun stmt app'' halters => ?_
      rw [Weave.wp_pure]
      refine hdetected.trans ?_
      rw [Cursor.toList_eq, Cursor.toList_eq]
      exact halters _ _

end TraceWeave.Tracing
