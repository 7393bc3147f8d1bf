import TraceWeave.Proofs.Run.ShortCalls
import TraceWeave.Proofs.Tracing.ServingWalk

/-!
What the walk leaves for the completion of calls.

A body that a transaction was passed to hands it on: no call that the walk through the body
offers is short for the transaction afterwards, however the application grows from there
(`traceBody_leavesNoneShort`).
-/

namespace TraceWeave.Program

open TraceWeave.Agent TraceWeave.Order TraceWeave.Source TraceWeave.Syntax TraceWeave.Tracing TraceWeave.Types

/--
The arguments of the call can be counted, and its callee takes one transaction, as its last
parameter.
-/
structure ExpectsTransaction (app : Application) (call : Call) : Prop where
  written : call.isWritten = true
  counted : app.types.hidesCount call = false
  callee : ∃ ref params index param, app.resolve? call = some ref ∧ ref.key ≠ "main" ∧
    (app.func? ref).map (·.params) = some params ∧
    findParam? (paramsOf app.types params) transactionTy = some (index, param) ∧
    index + 1 = params.arity

section

variable {app : Application} (hplain : ExtendsPlain app) {call : Call}

include hplain

/-- What the completion looks up is the function that the call is resolved to. -/
theorem ExtendsPlain.resolve?_of_extendedFunc? {callee : Callee} {func : FuncDecl}
    (hcallee : app.types.callee? call = some callee)
    (hfunc : app.extendedFunc? callee.package (Application.calleeKey callee) = some func) :
    ∃ ref ∈ app.extended, app.resolve? call = some ref ∧ app.func? ref = some func := by
  obtain ⟨ref, href, hfound⟩ := List.exists_of_findSome?_eq_some hfunc
  have href := List.mem_reverse.1 href
  obtain ⟨package, hpackage, hfound⟩ := Option.bind_eq_some_iff.1 hfound
  split at hfound
  · next hsame =>
    obtain ⟨hpath, hkey⟩ := hsame
    rw [hplain.path_eq href hpackage] at hpath
    have hid : package.id = ref.package := hplain.coherent.ids _ (Table.mem_of_get? hpackage)
    have hcontains : package.funcs.contains ref.key = true := by
      unfold Package.func? at hfound
      cases hget : package.funcs.get? ref.key with
      | none => simp [hget] at hfound
      | some place => simp [Table.contains, hget]
    refine ⟨ref, href, ?_, ?_⟩
    · rw [Application.resolve?, hcallee]
      simp [hpath, hkey, hpackage, hcontains, hid]
    · rw [Application.func?, hpackage]
      exact hfound
  · contradiction

/-- A call that the transaction has reached is not completed. -/
theorem ExpectsTransaction.not_short (h : ExpectsTransaction app call) (hserved : Served app call) :
    ¬ app.ShortCall call := by
  intro hshort
  obtain ⟨callee, func, hcallee, hfunc, hlength⟩ := hshort.oneShort
  obtain ⟨ref, href, hresolve, hfunc⟩ := hplain.resolve?_of_extendedFunc? hcallee hfunc
  obtain ⟨ref', params, index, param, hresolve', hkey, hparams, hfound, hlast⟩ := h.callee
  obtain rfl := Option.some.inj (hresolve.symm.trans hresolve')
  obtain ⟨-, hsupplies⟩ := hserved h.written ref params hresolve hkey hparams
  have hgiven : index < call.args.length := hsupplies h.counted
    (hplain.notVariadic ref href params hparams) (hplain.noContext ref href params hparams)
    index param hfound
  rw [hfunc] at hparams
  obtain rfl : func.params = params := Option.some.inj hparams
  omega

end

/--
All calls are served that the walk offers in a body with a transaction, and no later growth of
the application makes one of them short.
-/
theorem traceBody_leavesNoneShort {origin : Origin} {name : String} {depth : Nat} {body : Block}
    {frame : Frame} {app : Application} (hgrown : Grows origin.app app)
    (h : Underway name depth body.stmts frame app) (hbinds : frame.Binds) :
    Trace.wp (traceBody (walkBlock depth) body) (fun body' _ app' =>
      ∀ call, Walked body'.stmts call → ∀ later, Grows app' later →
        Served later call ∧ (ExpectsTransaction later call → ¬ later.ShortCall call)) frame app := by
  apply ((traceBody_serves h hbinds).and
    (traceBody_weaves (walkBlock_weaves depth) body hbinds app)).mono
  rintro body' _ app' ⟨hserved, stmts, -, hweaves⟩ call hwalked later hlater
  have hdiffer := h.consistent.placesDiffer
  have hgrows := hweaves.grows hdiffer
  have hserves : Served later call :=
    (hserved call hwalked).grows (placesDiffer_of_outline hgrows.outline hdiffer) hlater
  have hall := (hgrown.trans origin.coherent_app.placesDiffer hgrows).trans
    origin.coherent_app.placesDiffer hlater
  exact ⟨hserves, fun hexpects => hexpects.not_short (extendsPlain_of_grows hall) hserves⟩

/-- A body that calls `work` hands its transaction on. -/
theorem traceBody_leavesNoneShort_workCall :
    Grows pairOrigin.app pairOrigin.app ∧
      Underway "nrTxn" 1 [.expr { kind := .call workCall }]
        (Frame.traced "app" "agent" (.transaction "nrTxn") "nrTxn") pairOrigin.app ∧
      (Frame.traced "app" "agent" (.transaction "nrTxn") "nrTxn").Binds ∧
      Trace.wp (traceBody (walkBlock 1) { stmts := [.expr { kind := .call workCall }] })
        (fun body' _ app' => ∀ call, Walked body'.stmts call → ∀ later, Grows app' later →
          Served later call ∧ (ExpectsTransaction later call → ¬ later.ShortCall call))
        (Frame.traced "app" "agent" (.transaction "nrTxn") "nrTxn") pairOrigin.app := by
  have hconsistent := wellCalled_pairOrigin.consistent
  have hunderway : Underway "nrTxn" 1 [.expr { kind := .call workCall }]
      (Frame.traced "app" "agent" (.transaction "nrTxn") "nrTxn") pairOrigin.app :=
    ⟨⟨rfl, rfl⟩, hconsistent, hconsistent.bodies ⟨"app", 0, 0⟩ _ rfl, by decide⟩
  have hbinds := traced_binds "app" "agent" (.transaction "nrTxn") "nrTxn"
  exact ⟨.refl, hunderway, hbinds, traceBody_leavesNoneShort .refl hunderway hbinds⟩

end TraceWeave.Program
