import TraceWeave.Proofs.Program.Completion
import TraceWeave.Proofs.Program.Origin
import TraceWeave.Proofs.Tracing.Turns

/-!
Declarations and signatures across a whole run.

Tracing and the completion of calls leave every declaration where it is.  Functions keep
all but their parameters and bodies, and parameters grow by the transaction exactly
where the table of extended functions says so.
-/

namespace TraceWeave.Program

open TraceWeave.Agent TraceWeave.Detect TraceWeave.Order TraceWeave.Source TraceWeave.Syntax
  TraceWeave.Tracing TraceWeave.Types

/-- The function may gain a parameter. -/
structure Application.Extensible (app : Application) (ref : FuncRef) (func : FuncDecl) : Prop where
  declared : app.func? ref = some func
  notTest : ∀ package, app.package? ref.package = some package → package.test = false
  notGenerated : app.isGenerated ref = false
  notPinned : ref ∉ app.pinned
  notMain : ref.key ≠ "main"
  hasBody : func.body.isSome = true
  notVariadic : func.params.isVariadic = false
  named : func.params.isUnnamed = false

/-- What a run keeps of the declarations of an application. -/
structure KeepsDeclarations (app app' : Application) : Prop where
  /-- Declarations stay in order, and all of them stays but parameters and bodies of functions. -/
  outline : app'.outline = app.outline
  bodies : ∀ place, app'.hasBodyAt place = app.hasBodyAt place
  params : ∀ place, (∀ ref ∈ app'.extended, app.place? ref ≠ some place) →
    app'.paramsAt? place = app.paramsAt? place
  extended : ∀ ref ∈ app'.extended, ∃ func, app.Extensible ref func ∧
    (app'.func? ref).map (·.params) =
      some (func.params.add (transactionParameter transactionVariable))
  generated : ∀ id index file, app.fileAt? id index = some file → file.generated = true →
    app'.fileAt? id index = some file
  tests : ∀ id index package file, app.package? id = some package → package.test = true →
    package.files[index]? = some file →
      ∃ file', app'.fileAt? id index = some file' ∧ FileCompletes file file'

theorem extensible_of_extends {app app' : Application} {ref : FuncRef}
    (h : Extends app ref app') : ∃ func, app.Extensible ref func ∧
      (app'.func? ref).map (·.params) =
        some (func.params.add (transactionParameter transactionVariable)) := by
  obtain ⟨func, hfunc, hadmits, hparams⟩ := h.params
  have hmay := h.mayInstrument
  rw [app.mayInstrument_eq, hfunc] at hmay
  unfold Application.isEligible at hmay
  cases hpackage : app.package? ref.package with
  | none => simp [hpackage] at hmay
  | some package =>
      simp only [hpackage, Option.any_some, Bool.and_eq_true, Bool.not_eq_eq_eq_not, Bool.not_true,
        bne_iff_ne, Option.any_some] at hmay
      obtain ⟨⟨⟨⟨⟨htest, hmain⟩, hpinned⟩, hfile⟩, -⟩, hbody⟩ := hmay
      refine ⟨func, ⟨hfunc, ?_, ?_, ?_, hmain, hbody, hadmits.notVariadic, hadmits.named⟩,
        hparams⟩
      · intro package' hpackage'
        rw [hpackage] at hpackage'
        exact Option.some.inj hpackage' ▸ htest
      · unfold Application.isGenerated
        rw [hpackage, Option.bind_some]
        cases hfileOf : package.fileOf? ref.key <;> simp_all
      · simpa using hpinned

theorem keepsDeclarations_of_grows {app app' : Application} (hextended : app.extended = [])
    (h : Grows app app') : KeepsDeclarations app (fixCallSites app').1 := by
  have houtline := (outline_fixCallSites app').trans h.outline
  have hfuncs := funcAt?_fixCallSites app'
  have hextends : ∀ ref ∈ (fixCallSites app').1.extended, Extends app ref app' := by
    intro ref hmem
    obtain hmem | hextends := h.extended ref hmem
    · simp [hextended] at hmem
    · exact hextends
  -- completing calls changes no parameters and adds no body
  have hparamsAt : ∀ place, (fixCallSites app').1.paramsAt? place = app'.paramsAt? place := by
    intro place
    unfold Application.paramsAt?
    have hfunc := hfuncs place
    generalize app'.funcAt? place = func at hfunc ⊢
    generalize (fixCallSites app').1.funcAt? place = func' at hfunc ⊢
    cases hfunc with
    | none => rfl
    | some hfunc => simp [hfunc.params_eq]
  have hbodyAt : ∀ place, (fixCallSites app').1.hasBodyAt place = app'.hasBodyAt place := by
    intro place
    unfold Application.hasBodyAt
    have hfunc := hfuncs place
    generalize app'.funcAt? place = func at hfunc ⊢
    generalize (fixCallSites app').1.funcAt? place = func' at hfunc ⊢
    cases hfunc with
    | none => rfl
    | some hfunc => simpa using hfunc.isSome_body
  -- a file that tracing leaves alone
  have hfrozen : ∀ id index file, app.isFrozen id index = true → app.fileAt? id index = some file →
      ∃ file', (fixCallSites app').1.fileAt? id index = some file' ∧ FileCompletes file file' := by
    intro id index file hfrozen hfile
    have hcompletes := fileAt?_fixCallSites app' id index
    rw [h.files id index hfrozen, hfile] at hcompletes
    generalize (fixCallSites app').1.fileAt? id index = after at hcompletes ⊢
    cases hcompletes with
    | some hcompletes => exact ⟨_, rfl, hcompletes⟩
  refine ⟨houtline, fun place => (hbodyAt place).trans (h.hasBody place), ?_, ?_, ?_, ?_⟩
  · intro place hplace
    rw [hparamsAt]
    refine h.params place fun ref hat hextends => hplace ref hextends.extended hat
  · intro ref hmem
    obtain ⟨func, hextensible, hparams⟩ := extensible_of_extends (hextends ref hmem)
    refine ⟨func, hextensible, ?_⟩
    cases hplace : app.place? ref with
    | none => simp [Application.func?_eq, place?_of_outline h.outline, hplace] at hparams
    | some place =>
        rw [params?_eq ((place?_of_outline houtline ref).trans hplace), hparamsAt]
        rwa [params?_eq ((place?_of_outline h.outline ref).trans hplace)] at hparams
  · intro id index file hfile hgenerated
    have hfrozen' : app.isFrozen id index = true := by
      unfold Application.isFrozen
      unfold Application.fileAt? at hfile
      cases hpackage : app.package? id <;> simp_all
    obtain ⟨file', hfile', hcompletes⟩ := hfrozen id index file hfrozen' hfile
    rw [hfile', hcompletes.generated hgenerated]
  · intro id index package file hpackage htest hfile
    refine hfrozen id index file ?_ ?_
    · simp [Application.isFrozen, hpackage, htest]
    · simp [Application.fileAt?, hpackage, hfile]

/-- The frame of a run: what it does not change, and the one way in which signatures grow. -/
theorem run_keepsDeclarations (origin : Origin) :
    KeepsDeclarations origin.app (fixCallSites (weave.run origin.app).2).1 := by
  have hcoherent := origin.coherent_app
  have hrun := (Weave.wp_iff _ _ _).1 (weave_turns hcoherent origin.app_entered)
  exact keepsDeclarations_of_grows origin.app_extended (hrun.1.grows hcoherent.placesDiffer)

end TraceWeave.Program
