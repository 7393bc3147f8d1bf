import TraceWeave.Proofs.Run.ShortCalls
import TraceWeave.Proofs.Tracing.Passing

/-!
Carriers and calls that lack the transaction.

A callee that takes a transaction already is not extended again.  Only a transaction is handed
to such a parameter: a context or a stream looks for parameters of its own type and for
contexts, so that the call stays short (`Carrier.pass_lacking`).
-/

namespace TraceWeave.Tracing

open TraceWeave.Agent TraceWeave.Program TraceWeave.Syntax TraceWeave.Types

/--
The call supplies all arguments up to the first transaction that its callee takes, and there is
no other parameter through which the transaction can come.
-/
structure LacksHandle (info : Info) (carrier : Carrier) (list : FieldList) (call : Call) : Prop where
  noContext : findParam? (paramsOf info list) contextTy = none
  noStream : ∀ name type, carrier = .stream name type → findParam? (paramsOf info list) type = none
  first : ∃ param, findParam? (paramsOf info list) transactionTy = some (call.args.length, param)
  notSpread : call.spread = false

namespace Carrier

def isTransaction : Carrier → Bool
  | .transaction _ => true
  | _ => false

/-- The call with the transaction for its last argument, if the carrier is a transaction. -/
def supply (carrier : Carrier) (async : Bool) (txn : Expr) (call : Call) : Call :=
  if carrier.isTransaction then call.addArg (if async then newGoroutine txn else txn) else call

variable {info : Info} {list : FieldList} {call : Call} {carrier : Carrier}

theorem pass_of_lacks (h : LacksHandle info carrier list call) (async : Bool) (txn : Expr) :
    ∃ child, carrier.pass info list call async false txn =
      { call := carrier.supply async txn call, params := list, child
        usesTransaction := carrier.isTransaction } := by
  obtain ⟨param, hparam⟩ := h.first
  unfold pass supply
  cases carrier with
  | transaction name =>
      simp [isContext, Carrier.type, hparam, passItself, isTransaction, h.notSpread]
  | context name => simp [isContext, h.noContext, isTransaction]
  | stream name type =>
      have hown := h.noStream name type rfl
      simp [isContext, Carrier.type, hown, h.noContext, isTransaction]

end Carrier

/-- What becomes of a call whose callee has been entered, with the frame and the application. -/
theorem passCall_of_lacks {app : Application} {frame : Frame} {carrier : Carrier} {call : Call}
    {ref : FuncRef} {func : FuncDecl} (hcarrier : frame.carrier = some carrier)
    (hresolve : app.resolve? call = some ref) (hkey : ref.key ≠ "main")
    (hfunc : app.func? ref = some func) (hmay : app.mayInstrument ref = false)
    (h : LacksHandle app.types carrier func.params call) (walk : Walk) (async : Bool)
    (advisories : List Advisory) :
    Advised.wp (passCall walk async call)
      (fun call' advisories' frame' app' =>
        call' = carrier.supply async (.ident frame.txn) call ∧ advisories' = advisories ∧
        frame' = { frame with used := frame.used || carrier.isTransaction } ∧ app' = app)
      advisories frame app := by
  obtain ⟨child, hpass⟩ := Carrier.pass_of_lacks h async (.ident frame.txn)
  -- nothing is extended and nothing imported, so that the application stays
  have hfollow : ∀ passing : Passing, passing.extended = false → passing.needsImport = false →
      followCall walk frame async ref false passing app = ((), app) := by
    intro passing hextended himport
    show ((), passing.addImports frame.package ref (passing.applyTo ref app)) = _
    simp [Passing.addImports, Passing.applyTo, hextended, himport]
  refine wp_passCall (fun hnone => ?_) ?_
  · exact absurd ⟨hresolve, hcarrier, hkey, hfunc⟩ (hnone ref _ func)
  · rintro ref' carrier' func' _ haims rfl
    obtain rfl := Option.some.inj (hresolve.symm.trans haims.resolved)
    obtain rfl := Option.some.inj (hcarrier.symm.trans haims.carried)
    obtain rfl := Option.some.inj (hfunc.symm.trans haims.found)
    rw [hmay, hpass, Weave.wp, hfollow _ rfl rfl]
    exact ⟨rfl, List.append_nil _, rfl, rfl⟩

/--
A call that lacks the transaction of its callee gets it if a transaction is at hand, and stays
short if the transaction is inside a context or a stream.  The callee keeps its parameters, and
so does all that is around the call.
-/
theorem Carrier.pass_lacking {app : Application} {carrier : Carrier} {func : FuncDecl} {call : Call}
    (h : LacksHandle app.types carrier func.params call) :
    (∀ async txn, (carrier.pass app.types func.params call async false txn).params = func.params ∧
      (carrier.pass app.types func.params call async false txn).call =
        carrier.supply async txn call) ∧
    ∀ (frame : Frame) ref walk async advisories, frame.carrier = some carrier →
      app.resolve? call = some ref → ref.key ≠ "main" → app.func? ref = some func →
        app.mayInstrument ref = false →
          Advised.wp (passCall walk async call)
            (fun call' advisories' frame' app' =>
              call' = carrier.supply async (.ident frame.txn) call ∧ advisories' = advisories ∧
              frame' = { frame with used := frame.used || carrier.isTransaction } ∧ app' = app)
            advisories frame app := by
  refine ⟨fun async txn => ?_, ?_⟩
  · obtain ⟨child, hpass⟩ := Carrier.pass_of_lacks h async txn
    rw [hpass]
    exact ⟨rfl, rfl⟩
  · intro frame ref walk async advisories hcarrier hresolve hkey hfunc hmay
    exact passCall_of_lacks hcarrier hresolve hkey hfunc hmay h walk async advisories

/-- Inside a function that takes a context, the call `work()` stays short of its transaction. -/
theorem Carrier.pass_lacking_workCall :
    ∃ func, shortApp.func? ⟨"app", "work"⟩ = some func ∧
      LacksHandle shortApp.types (.context "ctx") func.params workCall ∧
      ∀ walk advisories, Advised.wp (passCall walk false workCall)
        (fun call' advisories' frame' app' =>
          call' = workCall ∧ advisories' = advisories ∧
          frame' = Frame.traced "app" "agent" (.context "ctx") transactionVariable ∧ app' = shortApp)
        advisories (Frame.traced "app" "agent" (.context "ctx") transactionVariable) shortApp := by
  have htype : paramType? shortApp.types transactionType = some transactionTy := by
    obtain ⟨ident, expr, hmem, -, -, htype⟩ := hasParam_add skipsGenerated_shortApp {}
    have hmem : (some ident, expr) ∈ [(some ⟨transactionVariable, 0⟩, transactionType)] := hmem
    obtain ⟨-, rfl⟩ := Prod.mk.inj (List.mem_singleton.1 hmem)
    exact htype
  have hfirst : ∃ param, findParam? (paramsOf shortApp.types
      (({} : FieldList).add (transactionParameter transactionVariable))) transactionTy =
        some (workCall.args.length, param) := by
    show ∃ param, findParam? [⟨some transactionVariable, paramType? shortApp.types transactionType⟩]
      transactionTy = some (0, param)
    rw [htype]
    exact ⟨_, rfl⟩
  have hlacks : LacksHandle shortApp.types (.context "ctx")
      (({} : FieldList).add (transactionParameter transactionVariable)) workCall :=
    ⟨(findParam?_add _ _ _).2 rfl, nofun, hfirst, rfl⟩
  have hresolve : shortApp.resolve? workCall = some ⟨"app", "work"⟩ := by
    rw [Application.resolve?, callee?_workCall]
    rfl
  refine ⟨_, rfl, hlacks, fun walk advisories => ?_⟩
  exact (Carrier.pass_lacking hlacks).2 (Frame.traced "app" "agent" (.context "ctx")
    transactionVariable) _ walk false advisories rfl hresolve (by decide) rfl rfl

end TraceWeave.Tracing
