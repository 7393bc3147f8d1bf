import TraceWeave.Proofs.Tracing.Turns
import TraceWeave.Proofs.Types.Alike

/-!
Calls and the parameters of the functions that they aim at.

While a run goes on, every call of a function supplies all arguments, or all but the
transaction that the function has gained (`Aligned`).  Handing the transaction on to a
call keeps this (`Hands.aligned`), nothing else that weaving does reaches a call of the
application, and so whole runs keep it (`Turns.consistent`).
-/

namespace TraceWeave.Tracing

open TraceWeave.Agent TraceWeave.Detect TraceWeave.Order TraceWeave.Program TraceWeave.Syntax
  TraceWeave.Types

/-! ## Calls in what is inserted -/

section

variable {P : CallTest} {reached : Bool}

theorem holds_of_isName {expr : Expr} (h : IsName expr) : Holds P (expr.calls reached) := by
  obtain ⟨kind, decs⟩ := expr
  cases kind with
  | ident ident => exact .nil
  | _ => simp [IsName, Expr.ident?] at h

theorem holds_assign {name : String} {value : Expr} {op : AssignOp}
    (hvalue : Holds P (value.calls true)) :
    Holds P ((StmtKind.assign [.ident name] op [value]).calls true .full) := by
  simpa using hvalue

theorem holds_bindVariable {name : String} {value : Expr} (declared : Bool)
    (hvalue : Holds P (value.calls true)) :
    Holds P ((bindVariable name value declared).kind.calls true .full) := by
  cases declared <;> exact holds_assign hvalue

/-- The arguments of a call at the top of a statement. -/
theorem holds_primaryCall {stmt : Stmt} {call : Call} (hcall : primaryCall? stmt = some call)
    (hstmt : Holds P (stmt.kind.calls true .full)) : ∀ arg ∈ call.args, Holds P (arg.calls true) := by
  have hvalue : ∀ value : Expr, value.call? = some call → Holds P (value.calls true) →
      ∀ arg ∈ call.args, Holds P (arg.calls true) := by
    rintro ⟨kind, decs⟩ hvalue hcalls
    cases kind with
    | call inner =>
        obtain rfl := Option.some.inj hvalue
        exact holds_exprs.1 (Expr.holds_of_holds_call hcalls).2.2
    | _ => contradiction
  unfold primaryCall? at hcall
  split at hcall
  · next left op value hkind =>
    rw [hkind] at hstmt
    refine hvalue value hcall ?_
    rw [StmtKind.calls_assign, Holds.append] at hstmt
    simpa using hstmt.2
  · next value hkind =>
    rw [hkind] at hstmt
    exact hvalue value hcall hstmt
  · contradiction

variable (hadmits : P.Admits)

include hadmits

theorem IsAgent.holds {agent : Expr} (h : IsAgent agent) : Holds P (agent.calls reached) := by
  cases h with
  | transaction txn => exact Expr.holds_named hadmits (by decide) .nil .nil
  | _ => exact .nil

theorem IsHandle.holds {handle : Expr} (h : IsHandle handle) : Holds P (handle.calls reached) := by
  cases h with
  | goroutine txn => exact Expr.holds_named hadmits (by decide) .nil .nil
  | _ => exact .nil

theorem IsContext.holds {ctx : Expr} (h : IsContext ctx) : Holds P (ctx.calls reached) := by
  cases h with
  | method name => exact Expr.holds_named hadmits (by decide) .nil .nil
  | _ => exact .nil

theorem holds_newContext {ctx txn : Expr} (hctx : Holds P (ctx.calls reached))
    (htxn : Holds P (txn.calls reached)) : Holds P ((newContext ctx txn).calls reached) :=
  Expr.holds_named hadmits (by decide) .nil (by simp [htxn, bare, hctx])

/-- The arguments of a call of a library are passed on inside the hook. -/
theorem Hooks.holds {info : Info} {call call' : Call} (h : Hooks info call call')
    (hargs : Holds P (callsOfExprs reached call.args)) :
    Holds P (callsOfExprs reached call'.args) := by
  have hoption : ∀ (grpc : String) {option : String} {interceptor : Expr},
      option ∉ boundaryNames → Holds P (interceptor.calls reached) →
        Holds P ((interceptorOption grpc option interceptor).calls reached) := by
    intro grpc option interceptor hoption hinterceptor
    exact Expr.holds_named hadmits hoption .nil (by simpa using hinterceptor)
  cases h with
  | handler _ hagent hwrap =>
      unfold wrapHandler? at hwrap
      split at hwrap
      · next pattern handler hpair =>
        split at hwrap
        · contradiction
        · obtain rfl := Option.some.inj hwrap
          have hwrapper : handlerWrapper call ∉ boundaryNames := by
            unfold handlerWrapper
            split <;> decide
          rw [hpair, holds_exprs_cons, holds_exprs_cons] at hargs
          rw [holds_exprs_cons, Expr.calls_redecorate]
          refine ⟨Expr.holds_named hadmits hwrapper .nil ?_, .nil⟩
          simp [hagent.holds hadmits, hargs.1, hargs.2.1]
      · contradiction
  | client _ =>
      refine Call.holds_addArg (Call.holds_addArg hargs (hoption _ (by decide) ?_))
        (hoption _ (by decide) ?_) <;> exact .nil
  | server _ hagent =>
      have hcall : ∀ {name}, name ∉ boundaryNames →
          Holds P ((Expr.call (.qualified "nrgrpc" name) [_]).calls reached) :=
        fun hname => Expr.holds_named hadmits hname .nil (by simpa using hagent.holds hadmits)
      exact Call.holds_addArg
        (Call.holds_addArg hargs (hoption _ (by decide) (hcall (by decide))))
        (hoption _ (by decide) (hcall (by decide)))
  | logger _ hagent =>
      unfold wrapFirstArg
      split
      · exact hargs
      · next handler args hcons =>
        rw [hcons, holds_exprs_cons] at hargs
        rw [holds_exprs_cons, Expr.calls_redecorate]
        refine ⟨Expr.holds_named hadmits (by decide) .nil ?_, hargs.2⟩
        simp [hagent.holds hadmits, bare, hargs.1]

theorem Passes.holds {info : Info} {list : FieldList} {call : Call} {mayExtend : Bool}
    {passing : Passing} (h : Passes info list call mayExtend passing)
    (hargs : Holds P (callsOfExprs reached call.args)) :
    Holds P (callsOfExprs reached passing.call.args) := by
  cases h with
  | same hcall _ => rwa [hcall]
  | fills hhandle _ _ hcall _ =>
      rw [hcall]
      exact Call.holds_addArg hargs (hhandle.holds hadmits)
  | grows hhandle _ _ hcall _ _ =>
      rw [hcall]
      exact Call.holds_addArg hargs (hhandle.holds hadmits)
  | wraps hhandle _ harg hcall _ =>
      rw [hcall]
      rw [holds_exprs] at hargs ⊢
      intro expr hmem
      obtain hmem | rfl := List.mem_or_eq_of_mem_set hmem
      · exact hargs expr hmem
      · have hwrapped := hargs _ (List.mem_of_getElem? harg)
        rw [Expr.calls_redecorate]
        exact holds_newContext hadmits hwrapped (hhandle.holds hadmits)

omit hadmits in
/-- Additions call nothing of the application, but may repeat the request of a call. -/
theorem Addition.holds (hignores : P.Ignores) {near : List Stmt} {kind : StmtKind}
    (h : Addition near kind) (hnear : Holds P (callsOfStmts true near)) : Holds P (kind.calls true .full) := by
  cases h with
  | start agent txn name declared =>
      exact holds_bindVariable declared (Expr.holds_member hignores .nil (by simp))
  | ending name => exact Expr.holds_member hignores .nil .nil
  | fromContext name hctx =>
      exact holds_assign (Expr.holds_member hignores .nil (by simpa using hctx.holds hignores.admits))
  | segment name txn =>
      have hstart : Holds P ((methodCall (.ident txn) "StartSegment" [.string name]).calls true) :=
        Expr.holds_member hignores .nil (by simp)
      exact Expr.holds_member hignores hstart .nil
  | newContext name txn declared =>
      refine holds_bindVariable declared (holds_newContext hignores.admits ?_ .nil)
      exact Expr.holds_member hignores .nil .nil
  | external txn segment declared hstmt hcall hreq =>
      have hcalls := holds_primaryCall hcall (holds_stmts.1 hnear _ hstmt) _ hreq
      refine holds_bindVariable declared (Expr.holds_member hignores .nil ?_)
      simp [bare, hcalls]
  | response segment name => exact .nil
  | request txn hreq =>
      have hname : Holds P (Expr.calls true _) := holds_of_isName hreq.isName
      have hcall : Holds P ((Expr.call (newrelic "RequestWithTransactionContext")
          [_, .ident txn]).calls true) :=
        Expr.holds_member hignores .nil (by simpa using hname)
      show Holds P (callsOfExprs true [_] ++ callsOfExprs true [_])
      simpa using ⟨hname, hcall⟩
  | @roundTripper after client hclient =>
      have htransport : Holds P ((Expr.selector client "Transport").calls true) := by
        show Holds P (client.calls true)
        exact holds_of_isName hclient.isName
      have hcall : Holds P ((Expr.call (newrelic "NewRoundTripper") [_]).calls true) :=
        Expr.holds_member hignores .nil (by simpa using htransport)
      show Holds P (callsOfExprs true [_] ++ callsOfExprs true [_])
      simpa using ⟨htransport, hcall⟩
  | @middleware package router agent hrouter hagent =>
      have hinstall : Holds P ((Expr.call (.qualified package "Middleware") [agent]).calls true) :=
        Expr.holds_member hignores .nil (by simpa using hagent.holds hignores.admits)
      show Holds P ((methodCall router "Use" [_]).calls true)
      exact Expr.holds_member hignores (holds_of_isName hrouter.isName) (by simpa using hinstall)
  | logHandler name handler declared hagent =>
      refine holds_bindVariable declared (Expr.holds_member hignores .nil ?_)
      simpa using hagent.holds hignores.admits
  | notice txn herr =>
      refine Expr.holds_member hignores .nil ?_
      simp [bare, holds_of_isName herr.isName]

end

/-! ## Parameters -/

theorem findParam?_eq_none {params : List Param} {type : Ty} :
    findParam? params type = none ↔ ∀ param ∈ params, param.type ≠ some type := by
  simp only [findParam?, Option.map_eq_none_iff, List.find?_eq_none, Prod.forall, beq_iff_eq]
  constructor
  · intro h param hmem
    obtain ⟨index, hindex⟩ := List.mem_iff_getElem?.1 hmem
    exact h param index (List.mem_zipIdx_iff_getElem?.2 hindex)
  · intro h param index hmem
    exact h param (List.fst_mem_of_mem_zipIdx hmem)

theorem arity_add (list : FieldList) (name : String) :
    (list.add (transactionParameter name)).arity = list.arity + 1 := by
  have hsum : ∀ list : FieldList,
      list.arity = (list.fields.map fun field => max field.names.length 1).sum := fun _ => rfl
  unfold FieldList.add
  simp only [hsum, List.map_append, List.sum_append]
  split <;> rfl

theorem isVariadic_add (list : FieldList) (name : String) :
    (list.add (transactionParameter name)).isVariadic = false := by
  unfold FieldList.add
  simp only [FieldList.isVariadic, List.getLast?_append]
  split <;> rfl

/-- A transaction is no context, whatever name resolution makes of its type. -/
theorem paramType?_transaction (info : Info) : paramType? info transactionType ≠ some contextTy := by
  unfold paramType?
  split
  · next type htype =>
    have hpointer : info.typeExpr? transactionType =
        (info.typeExpr? (newrelic "Transaction")).map .pointer := rfl
    rw [hpointer] at htype
    obtain ⟨target, -, rfl⟩ := Option.map_eq_some_iff.1 htype
    simp [contextTy]
  · decide

theorem findParam?_add (info : Info) (list : FieldList) (name : String) :
    findParam? (paramsOf info (list.add (transactionParameter name))) contextTy = none ↔
      findParam? (paramsOf info list) contextTy = none := by
  have hparams : ∃ param, param.type = paramType? info transactionType ∧
      paramsOf info (list.add (transactionParameter name)) = paramsOf info list ++ [param] := by
    refine ⟨⟨((some (⟨name, 0⟩ : Ident)).filter (!·.isBlank)).map (·.name), _⟩, rfl, ?_⟩
    unfold FieldList.add
    simp only [paramsOf, FieldList.params, List.flatMap_append, List.map_append]
    split <;> rfl
  obtain ⟨param, htype, happend⟩ := hparams
  rw [happend, findParam?_eq_none, findParam?_eq_none]
  simp only [List.mem_append, List.mem_singleton, or_imp, forall_and, forall_eq, and_iff_left_iff_imp]
  intro _
  rw [htype]
  exact paramType?_transaction info

/-! ## Calls of functions of the application -/

theorem resolve?_of_outline {app app' : Application} (h : app'.outline = app.outline) (call : Call)
    (forTest : Option String) : app'.resolve? call forTest = app.resolve? call forTest := by
  have hfound : ∀ id key, ((app'.package? id).bind fun package =>
      if package.funcs.contains key then some ({ package := package.id, key } : FuncRef) else none) =
        (app.package? id).bind fun package =>
          if package.funcs.contains key then some { package := package.id, key } else none := by
    intro id key
    refine bind_of_outline h id fun package => ?_
    have hcontains : package.outline.funcs.contains key = package.funcs.contains key := by
      simp [Package.outline, Table.contains]
    rw [hcontains]
    rfl
  unfold Application.resolve?
  simp only [types_of_outline h, hfound]

/-- The number of arguments of a call, while calls of extended functions are brought in line. -/
inductive Supplies (extended : Prop) (reached : Bool) (arity count : Nat) : Prop where
  | plain : ¬extended → count = arity → Supplies extended reached arity count
  | short : extended → count + 1 = arity → Supplies extended reached arity count
  | complete : extended → reached = true → count = arity → Supplies extended reached arity count

namespace Supplies

variable {extended extended' : Prop} {reached : Bool} {arity count : Nat}

/-- The argument that was missing is there now. -/
theorem fill (h : Supplies extended true arity count) (hless : count < arity) :
    Supplies extended true arity (count + 1) := by
  cases h with
  | plain _ heq => omega
  | short hextended heq => exact .complete hextended rfl heq
  | complete _ _ heq => omega

/-- The callee gained a parameter, and the call did not follow. -/
theorem lag (h : Supplies extended reached arity count) (hnew : ¬extended) (hextended : extended') :
    Supplies extended' reached (arity + 1) count := by
  cases h with
  | plain _ heq => exact .short hextended (by omega)
  | short hold _ => exact absurd hold hnew
  | complete hold _ _ => exact absurd hold hnew

theorem gain (h : Supplies extended true arity count) (hnew : ¬extended) (hextended : extended') :
    Supplies extended' true (arity + 1) (count + 1) :=
  (h.lag hnew hextended).fill (by cases h with
    | plain _ heq => omega
    | short _ heq => omega
    | complete _ _ heq => omega)

end Supplies

/-- A call supplies what its callee takes, but for a transaction that the callee has gained. -/
def Aligned (app : Application) : CallTest := fun reached call =>
  call.isWritten = true → app.types.hidesCount call = false → ∀ ref params,
    app.resolve? call = some ref → (app.func? ref).map (·.params) = some params →
      findParam? (paramsOf app.types params) contextTy = none → params.isVariadic = false →
        Supplies (ref ∈ app.extended) reached params.arity call.args.length

section

variable {app app' : Application}

theorem aligned_ignores : (Aligned app).Ignores := by
  intro reached call hunwritten hwritten
  have hfalse : true = false := hwritten.symm.trans hunwritten
  contradiction

theorem aligned_setBody (ref : FuncRef) (body : Option Block) :
    Aligned (app.setBody ref body) = Aligned app := by
  have houtline := outline_setBody app ref body
  funext reached call
  simp only [Aligned, resolve?_of_outline houtline, types_of_outline houtline, params_setBody]
  rfl

/-- The functions that have been extended are those that tracing has reached. -/
def ExtendsTraced (app : Application) : Prop := ∀ ref ∈ app.extended, app.isTraced ref = true

theorem ExtendsTraced.grows (htraced : ExtendsTraced app) (h : Grows app app') :
    ExtendsTraced app' := by
  intro ref hmem
  obtain hmem | hextends := h.extended ref hmem
  · exact h.isTraced ref (htraced ref hmem)
  · exact hextends.isTraced

/-- A function that gains a parameter leaves the calls of it one argument short. -/
theorem Aligned.grows (hdiffer : app.PlacesDiffer) (htraced : ExtendsTraced app)
    (h : Grows app app') {reached : Bool} {call : Call} (haligned : Aligned app reached call) :
    Aligned app' reached call := by
  intro hwritten hcount ref params' hresolve hparams' hcontext hvariadic
  rw [types_of_outline h.outline] at hcount hcontext
  rw [resolve?_of_outline h.outline] at hresolve
  by_cases hextends : Extends app ref app'
  · obtain ⟨func, hfunc, hadmits, hadded⟩ := hextends.params
    have hnew : ref ∉ app.extended := fun hmem =>
      Grows.not_extends_of_isTraced (htraced ref hmem) hextends
    have hbefore := haligned hwritten hcount ref func.params hresolve (by rw [hfunc]; rfl)
      hadmits.noContext hadmits.notVariadic
    obtain rfl := Option.some.inj (hadded.symm.trans hparams')
    rw [arity_add]
    exact hbefore.lag hnew hextends.extended
  · rw [h.params_of_ref hdiffer hextends] at hparams'
    have hmem : ref ∈ app'.extended ↔ ref ∈ app.extended :=
      ⟨fun hmem => (h.extended ref hmem).resolve_right hextends, h.kept ref⟩
    rw [hmem]
    exact haligned hwritten hcount ref params' hresolve hparams' hcontext hvariadic

/-- Whatever a call is made of, name resolution and the number of arguments decide. -/
theorem Aligned.alike {reached : Bool} {callee callee' : Expr} {args args' : List Expr}
    {spread closesLine : Bool} (hcallee : app.types.Alike callee callee')
    (hargs : List.Forall₂ app.types.Alike args args')
    (haligned : Aligned app reached ⟨callee, args, spread, closesLine⟩) :
    Aligned app reached ⟨callee', args', spread, closesLine⟩ := by
  intro hwritten hcount ref params hresolve
  have hhead : app.types.hidesCount ⟨callee', args', spread, closesLine⟩ =
      app.types.hidesCount ⟨callee, args, spread, closesLine⟩ := by
    cases hargs with
    | nil => rfl
    | cons hfirst _ => simp [Info.hidesCount, hfirst.yieldsSeveral]
  have hcalls : app.types.callee? ⟨callee', args', spread, closesLine⟩ =
      app.types.callee? ⟨callee, args, spread, closesLine⟩ := hcallee.callee args spread closesLine
  have hsame : Call.isWritten ⟨callee', args', spread, closesLine⟩ =
      Call.isWritten ⟨callee, args, spread, closesLine⟩ := hcallee.written args spread closesLine
  have hresolve' : app.resolve? ⟨callee, args, spread, closesLine⟩ = some ref := by
    unfold Application.resolve? at hresolve ⊢
    rwa [hcalls] at hresolve
  show _ → _ → _ → Supplies _ reached _ args'.length
  rw [← hargs.length_eq]
  exact haligned (hsame ▸ hwritten) (hhead ▸ hcount) ref params hresolve'

theorem hidesCount_of_addArg {info : Info} {call : Call} {arg : Expr}
    (h : info.hidesCount (call.addArg arg) = false) : info.hidesCount call = false := by
  obtain ⟨callee, args, spread, closesLine⟩ := call
  cases args with
  | nil => simp_all [Info.hidesCount, Call.addArg]
  | cons first args => simpa [Info.hidesCount, Call.addArg] using h

theorem aligned_mark (ref : FuncRef) :
    Aligned ((app.markTraced ref).noteEntered ref) = Aligned app := by
  have houtline : ((app.markTraced ref).noteEntered ref).outline = app.outline :=
    app.outline_markTraced ref
  have hfunc : ∀ other, ((app.markTraced ref).noteEntered ref).func? other = app.func? other :=
    app.func?_markTraced ref
  funext reached call
  simp only [Aligned, resolve?_of_outline houtline, types_of_outline houtline, hfunc]
  rfl

/-- A call that hands the transaction on has as many arguments as its callee takes then. -/
theorem Hands.aligned (htraced : ExtendsTraced app) {call : Call} {ref : FuncRef}
    {passing : Passing} (hands : Hands app call ref passing) (haligned : Aligned app true call) :
    Aligned (passing.applyTo ref app) true passing.call := by
  have houtline := outline_applyTo app ref passing
  have hresolves : (passing.applyTo ref app).resolve? passing.call = some ref := by
    rw [resolve?_of_outline houtline, ← hands.resolved]
    unfold Application.resolve? Info.callee?
    rw [hands.callee_eq]
  have hsame : passing.call.isWritten = call.isWritten := by
    unfold Call.isWritten
    rw [hands.callee_eq]
  obtain ⟨func, carrier, async, txn, hfunc, rfl⟩ := hands.passes
  have hpasses := carrier.passes app.types func.params call async (app.mayInstrument ref) txn
  generalize carrier.pass app.types func.params call async (app.mayInstrument ref) (.ident txn) =
    passing at houtline hresolves hsame hpasses ⊢
  intro hwritten hcount ref' params' hresolve hparams' hcontext hvariadic
  obtain rfl := Option.some.inj (hresolves.symm.trans hresolve)
  rw [types_of_outline houtline] at hcount hcontext
  rw [hsame] at hwritten
  -- without a parameter of its own, the application stays
  have hstays : passing.extended = false → passing.applyTo ref app = app ∧ params' = func.params := by
    intro hextended
    have happ : passing.applyTo ref app = app := by simp [Passing.applyTo, hextended]
    rw [happ, hfunc] at hparams'
    exact ⟨happ, (Option.some.inj hparams').symm⟩
  have hbefore : app.types.hidesCount call = false →
      findParam? (paramsOf app.types func.params) contextTy = none →
        func.params.isVariadic = false →
          Supplies (ref ∈ app.extended) true func.params.arity call.args.length :=
    fun hcount => haligned hwritten hcount ref func.params hands.resolved (by rw [hfunc]; rfl)
  cases hpasses with
  | same hcall hextended =>
      obtain ⟨happ, rfl⟩ := hstays hextended
      rw [hcall] at hcount ⊢
      rw [happ]
      exact hbefore hcount hcontext hvariadic
  | wraps _ hnotNone _ _ hextended =>
      obtain ⟨-, rfl⟩ := hstays hextended
      exact absurd hcontext hnotNone
  | fills _ _ hless hcall hextended =>
      obtain ⟨happ, rfl⟩ := hstays hextended
      rw [hcall] at hcount ⊢
      rw [happ, Call.length_addArg]
      exact (hbefore (hidesCount_of_addArg hcount) hcontext hvariadic).fill hless
  | grows _ hmay hadmits hcall hparams hextended =>
      rw [hcall] at hcount ⊢
      have happ : passing.applyTo ref app =
          (app.modifyFunc ref fun func => { func with params := passing.params }).markExtended ref := by
        simp [Passing.applyTo, hextended]
      have hmem : ref ∈ (passing.applyTo ref app).extended := by
        rw [happ]
        exact (mem_insertSorted ref ref app.extended).2 (.inl rfl)
      have harity : params' = func.params.add (transactionParameter transactionVariable) := by
        have hgrown := app.func?_modifyFunc ref fun func => { func with params := passing.params }
        rw [hfunc] at hgrown
        rw [happ] at hparams'
        have hparams'' := (congrArg (Option.map (·.params)) hgrown).symm.trans hparams'
        exact (Option.some.inj hparams'').symm.trans hparams
      have hnew : ref ∉ app.extended := by
        intro hold
        rw [app.mayInstrument_eq, htraced ref hold] at hmay
        simp at hmay
      have hsupplies := hbefore (hidesCount_of_addArg hcount) hadmits.noContext hadmits.notVariadic
      rw [harity, arity_add, Call.length_addArg]
      exact hsupplies.gain hnew hmem

end

/-! ## Calls of libraries -/

/-- The packages whose calls instrumentation changes; predeclared functions have no package. -/
def libraries : List String := ["", Path.netHttp, Path.grpc, Path.logSlog, Path.databaseSql]

/-- No package of the application stands in for a library. -/
def Apart (app : Application) : Prop := ∀ path ∈ libraries, app.package? path = none

theorem apart_of_outline {app app' : Application} (h : app'.outline = app.outline)
    (hapart : Apart app) : Apart app' := by
  intro path hmem
  have hpackage := package?_of_outline h path
  rw [hapart path hmem] at hpackage
  simpa using hpackage

theorem callsFunc_congr {info : Info} {call call' : Call}
    (h : info.callee? call' = info.callee? call) (package : String) (names : List String) :
    callsFunc info package names call' = callsFunc info package names call := by
  unfold callsFunc
  rw [h]

theorem callee?_of_callsFunc {info : Info} {package : String} {names : List String} {call : Call}
    (h : callsFunc info package names call = true) :
    ∃ callee, info.callee? call = some callee ∧ callee.package = package ∧ callee.name ∈ names := by
  unfold callsFunc at h
  cases hcallee : info.callee? call with
  | none => simp [hcallee] at h
  | some callee =>
      simp only [hcallee, Option.any_some, List.any_eq_true, Callee.isFunc, Bool.and_eq_true,
        beq_iff_eq] at h
      obtain ⟨name, hmem, ⟨-, hpackage⟩, rfl⟩ := h
      exact ⟨callee, rfl, hpackage, hmem⟩

theorem callee?_of_callsMethod {info : Info} {package type : String} {names : List String}
    {call : Call} (h : callsMethod info package type names call = true) :
    ∃ callee, info.callee? call = some callee ∧ callee.package = package ∧ callee.name ∈ names := by
  unfold callsMethod at h
  cases hcallee : info.callee? call with
  | none => simp [hcallee] at h
  | some callee =>
      simp only [hcallee, Option.any_some, List.any_eq_true, Callee.isMethod, Bool.and_eq_true,
        beq_iff_eq] at h
      obtain ⟨name, hmem, ⟨-, hpackage⟩, rfl⟩ := h
      exact ⟨callee, rfl, hpackage, hmem⟩

theorem callee?_of_isRegistration {info : Info} {call : Call} (h : isRegistration info call = true) :
    ∃ callee, info.callee? call = some callee ∧ callee.package = Path.netHttp ∧
      callee.name ∈ ["HandleFunc", "Handle"] := by
  obtain hfunc | hmethod := Bool.or_eq_true_iff.1 h
  · exact callee?_of_callsFunc hfunc
  · exact callee?_of_callsMethod hmethod

theorem Hooks.package {info : Info} {call call' : Call} (h : Hooks info call call') :
    ∃ callee, info.callee? call = some callee ∧ callee.package ∈ libraries ∧ callee.package ≠ "" := by
  have hlibrary : ∀ (package : String) (names : List String), package ∈ libraries → package ≠ "" →
      (∃ callee, info.callee? call = some callee ∧ callee.package = package ∧ callee.name ∈ names) →
        ∃ callee, info.callee? call = some callee ∧ callee.package ∈ libraries ∧
          callee.package ≠ "" := by
    rintro package names hmem hne ⟨callee, hcallee, rfl, -⟩
    exact ⟨callee, hcallee, hmem, hne⟩
  cases h with
  | handler hregistration _ _ =>
      exact hlibrary Path.netHttp _ (by simp [libraries]) (by decide)
        (callee?_of_isRegistration hregistration)
  | client hdials =>
      exact hlibrary Path.grpc _ (by simp [libraries]) (by decide)
        (callee?_of_callsFunc (Bool.and_eq_true_iff.1 hdials).1)
  | server hserves _ =>
      exact hlibrary Path.grpc _ (by simp [libraries]) (by decide)
        (callee?_of_callsFunc (Bool.and_eq_true_iff.1 hserves).1)
  | logger hmakes _ =>
      exact hlibrary Path.logSlog _ (by simp [libraries]) (by decide)
        (callee?_of_callsFunc (Bool.and_eq_true_iff.1 hmakes).1)

section

variable {app app' : Application}

theorem callee?_of_resolve? {call : Call} {ref : FuncRef} (h : app.resolve? call = some ref) :
    ∃ callee, app.types.callee? call = some callee ∧ (app.package? callee.package).isSome = true := by
  unfold Application.resolve? at h
  obtain ⟨callee, hcallee, hfound⟩ := Option.bind_eq_some_iff.1 h
  refine ⟨callee, hcallee, ?_⟩
  cases hpackage : app.package? callee.package with
  | some package => rfl
  | none => simp [hpackage] at hfound

theorem aligned_of_library (hapart : Apart app) {reached : Bool} {call : Call} {callee : Callee}
    (hcallee : app.types.callee? call = some callee) (hmem : callee.package ∈ libraries) :
    Aligned app reached call := by
  intro _ _ ref _ hresolve
  obtain ⟨callee', hcallee', hpackage⟩ := callee?_of_resolve? hresolve
  obtain rfl := Option.some.inj (hcallee.symm.trans hcallee')
  simp [hapart _ hmem] at hpackage

/-! ## Changes of calls -/

theorem Hooks.alike {info : Info} {call call' : Call} (h : Hooks info call call')
    (decs : Decorations) : info.Alike ⟨.call call, decs⟩ ⟨.call call', decs⟩ := by
  obtain ⟨callee, hcallee, -, hne⟩ := h.package
  exact .call (Info.resultsOf_args h.callee_eq hcallee hne)

theorem Hands.alike (hapart : Apart app) {call : Call} {ref : FuncRef} {passing : Passing}
    (hands : Hands app call ref passing) (decs : Decorations) :
    app.types.Alike ⟨.call call, decs⟩ ⟨.call passing.call, decs⟩ := by
  obtain ⟨callee, hcallee, hpackage⟩ := callee?_of_resolve? hands.resolved
  refine .call (Info.resultsOf_args hands.callee_eq hcallee fun hempty => ?_)
  have hnone := hapart "" (by simp [libraries])
  simp [hempty, hnone] at hpackage

/-- Calls around an alike change stay aligned. -/
theorem stays_of_alike {literals : Bool} {part part' : Expr}
    (hweaken : ∀ reached call, Aligned app reached call → Aligned app' reached call)
    (halike : app.types.Alike part part')
    (hinside : Holds (Aligned app) (part.calls true) → Holds (Aligned app') (part'.calls true)) :
    (Aligned app).Stays (Aligned app') literals part part' where
  weaken := hweaken
  inside := hinside
  callee hrewrite haligned :=
    hweaken _ _ (haligned.alike (Info.alike_of_rewrites halike hrewrite)
      (List.forall₂_same.2 fun _ _ => .refl))
  arg hrewrite haligned := by
    refine hweaken _ _ (haligned.alike .refl ?_)
    refine List.rel_append (List.forall₂_same.2 fun _ _ => .refl) ?_
    exact .cons (Info.alike_of_rewrites halike hrewrite) (List.forall₂_same.2 fun _ _ => .refl)

theorem Hands.stays (hapart : Apart app) {literals : Bool} {call : Call} {ref : FuncRef}
    {passing : Passing} (hands : Hands app call ref passing) (decs : Decorations)
    (hweaken : ∀ reached call, Aligned app reached call → Aligned app' reached call)
    (hcall : Aligned app true call → Aligned app' true passing.call) :
    (Aligned app).Stays (Aligned app') literals ⟨.call call, decs⟩ ⟨.call passing.call, decs⟩ := by
  refine stays_of_alike hweaken (hands.alike hapart decs) fun hcalls => ?_
  obtain ⟨haligned, hcallee, hargs⟩ := Expr.holds_of_holds_call hcalls
  refine Expr.holds_call (hcall haligned) ?_ ?_
  · rw [hands.callee_eq]
    exact hcallee.imp hweaken
  · obtain ⟨func, carrier, async, txn, -, rfl⟩ := hands.passes
    exact (carrier.passes ..).holds aligned_ignores.admits (hargs.imp hweaken)

theorem Adjusts.stays (hapart : Apart app) (htraced : ExtendsTraced app) {literals : Bool}
    {part part' : Expr} (h : Adjusts app part part') :
    (Aligned app).Stays (Aligned app) literals part part' := by
  cases h with
  | rename ident decs _ => exact stays_of_alike (fun _ _ h => h) (.ident rfl) fun _ => .nil
  | @hook call call' decs hooks =>
      refine stays_of_alike (fun _ _ h => h) (hooks.alike decs) fun hcalls => ?_
      obtain ⟨-, hcallee, hargs⟩ := Expr.holds_of_holds_call hcalls
      obtain ⟨callee, hfound, hmem, -⟩ := hooks.package
      have hfound' : app.types.callee? call' = some callee := by
        rw [← hfound]
        unfold Info.callee?
        rw [hooks.callee_eq]
      refine Expr.holds_call (aligned_of_library hapart hfound' hmem) ?_
        (hooks.holds aligned_ignores.admits hargs)
      rwa [hooks.callee_eq]
  | @pass call ref passing decs hands hmay =>
      refine hands.stays hapart decs (fun _ _ h => h) fun haligned => ?_
      have hkept := hands.aligned htraced haligned
      obtain ⟨func, carrier, async, txn, -, hpassing⟩ := hands.passes
      have hpasses := carrier.passes app.types func.params call async (app.mayInstrument ref) txn
      rw [← hpassing, hmay] at hpasses
      unfold Passing.applyTo at hkept
      rwa [if_neg (by simp [hpasses.extended_eq_false])] at hkept

end

/-! ## Applications -/

/-- All calls in bodies of the application are aligned. -/
structure Consistent (app : Application) : Prop where
  placesDiffer : app.PlacesDiffer
  apart : Apart app
  extendsTraced : ExtendsTraced app
  bodies : ∀ place body, (app.funcAt? place).bind (·.body) = some body →
    Holds (Aligned app) (callsOfStmts true body.stmts)

namespace Consistent

variable {app app' : Application}

theorem grows (h : Consistent app) (hgrows : Grows app app')
    (hbodies : ∀ place, (app'.funcAt? place).bind (·.body) = (app.funcAt? place).bind (·.body)) :
    Consistent app' where
  placesDiffer := placesDiffer_of_outline hgrows.outline h.placesDiffer
  apart := apart_of_outline hgrows.outline h.apart
  extendsTraced := h.extendsTraced.grows hgrows
  bodies place body hbody :=
    (h.bodies place body (hbodies place ▸ hbody)).imp fun _ _ haligned =>
      haligned.grows h.placesDiffer h.extendsTraced hgrows

theorem setBody (h : Consistent app) (ref : FuncRef) {body : Option Block}
    (hbody : ∀ block ∈ body, Holds (Aligned app) (callsOfStmts true block.stmts)) :
    Consistent (app.setBody ref body) where
  placesDiffer := placesDiffer_of_outline (outline_setBody ..) h.placesDiffer
  apart := apart_of_outline (outline_setBody ..) h.apart
  extendsTraced other hmem := by
    rw [isTraced_setBody]
    exact h.extendsTraced other hmem
  bodies place block hblock := by
    rw [aligned_setBody]
    rw [Application.setBody, Application.funcAt?_modifyFunc] at hblock
    split at hblock
    · refine hbody block ?_
      cases hfunc : app.funcAt? place <;> simp_all
    · exact h.bodies place block hblock

theorem body (h : Consistent app) {ref : FuncRef} {body : Block} (hbody : app.body? ref = some body) :
    Holds (Aligned app) (callsOfStmts true body.stmts) := by
  rw [Application.body?, app.func?_eq] at hbody
  cases hplace : app.place? ref with
  | none => simp [hplace] at hbody
  | some place => exact h.bodies place body (by simpa [hplace] using hbody)

theorem weaken (h : Consistent app) (hgrows : Grows app app') (reached : Bool) (call : Call)
    (haligned : Aligned app reached call) : Aligned app' reached call :=
  haligned.grows h.placesDiffer h.extendsTraced hgrows

end Consistent

theorem consistent_opened {app : Application} (h : Consistent app) {ref : FuncRef}
    (hgrows : Grows app ((app.markTraced ref).noteEntered ref)) : Consistent (opened app ref) := by
  refine (h.grows hgrows fun place => ?_).setBody ref nofun
  exact congrArg (·.bind FuncDecl.body) (app.funcAt?_markTraced ref place)

/-! ## Weaving -/

/-- A query that takes a context is a call of the library still, or of a name from nowhere. -/
theorem holds_queryWithContext {app : Application} (hapart : Apart app) {call : Call}
    {callee : Callee} {method : String} (hcallee : app.types.callee? call = some callee)
    (hmem : callee.package ∈ libraries) {decs : Decorations}
    (h : Holds (Aligned app) ((⟨.call call, decs⟩ : Expr).calls true)) :
    Holds (Aligned app) ((⟨.call (queryWithContext method call), decs⟩ : Expr).calls true) := by
  obtain ⟨-, hoperand, hargs⟩ := Expr.holds_of_holds_call h
  have hargs' : Holds (Aligned app) (callsOfExprs true (queryWithContext method call).args) :=
    holds_exprs_cons.2 ⟨.nil, hargs⟩
  obtain ⟨⟨kind, calleeDecs⟩, args, spread, closesLine⟩ := call
  cases kind with
  | selector operand member => exact Expr.holds_call (aligned_ignores _ _ rfl) hoperand hargs'
  | _ => exact Expr.holds_call (aligned_of_library hapart hcallee hmem) hoperand hargs'

/-- The calls of the primary call are the last ones of a statement. -/
theorem calls_mapPrimaryCall {stmt : Stmt} {call : Call} (hcall : primaryCall? stmt = some call)
    (f : Call → Call) :
    ∃ front decs, stmt.kind.calls true .full = front ++ (⟨.call call, decs⟩ : Expr).calls true ∧
      (mapPrimaryCall f stmt).kind.calls true .full =
        front ++ (⟨.call (f call), decs⟩ : Expr).calls true := by
  unfold primaryCall? at hcall
  unfold mapPrimaryCall
  split at hcall
  · next left op value hkind =>
    rw [hkind, eq_of_call? hcall]
    refine ⟨callsOfExprs true left, value.decs, ?_, ?_⟩ <;> simp [callsOfExprs, Expr.mapCall]
  · next value hkind =>
    rw [hkind, eq_of_call? hcall]
    exact ⟨[], value.decs, rfl, rfl⟩
  · contradiction

theorem holds_mapPrimaryCall {P : CallTest} {stmt : Stmt} {call : Call} {f : Call → Call}
    (hcall : primaryCall? stmt = some call)
    (hf : ∀ decs, Holds P ((⟨.call call, decs⟩ : Expr).calls true) →
      Holds P ((⟨.call (f call), decs⟩ : Expr).calls true))
    (hstmt : Holds P (stmt.kind.calls true .full)) :
    Holds P ((mapPrimaryCall f stmt).kind.calls true .full) := by
  obtain ⟨front, decs, hold, hnew⟩ := calls_mapPrimaryCall hcall f
  rw [hold, Holds.append] at hstmt
  rw [hnew, Holds.append]
  exact ⟨hstmt.1, hf decs hstmt.2⟩

theorem holds_handed {P : CallTest} (hignores : P.Ignores) (literal : SpawnedLiteral) (txn : String)
    (h : Holds P (literal.kind.calls true .full)) :
    Holds P ((literal.handed txn).kind.calls true .full) := by
  obtain ⟨value, call, params, results, ⟨stmts, trailing, inline⟩⟩ := literal
  obtain ⟨-, hbody, hargs⟩ := Expr.holds_of_holds_call h
  refine Expr.holds_call (hignores _ _ rfl) hbody ?_
  exact Call.holds_addArg hargs ((IsHandle.goroutine txn).holds hignores.admits)

/-- What a function that is entered finds in its hands. -/
theorem Consistent.enter {app : Application} (happ : Consistent app) {call : Call} {ref : FuncRef}
    {passing : Passing} {body : Block} (hands : Hands app call ref passing)
    (hmay : app.mayInstrument ref = true) (hbody : app.body? ref = some body) :
    Consistent (opened (passing.applyTo ref app) ref) ∧
      Holds (Aligned (opened (passing.applyTo ref app) ref)) (callsOfStmts true body.stmts) := by
  have henter := Grows.enter hands hmay
  have hsame : ∀ place, ((((passing.applyTo ref app).markTraced ref).noteEntered ref).funcAt?
      place).bind (·.body) = (app.funcAt? place).bind (·.body) := by
    intro place
    show (((passing.applyTo ref app).markTraced ref).funcAt? place).bind _ = _
    rw [Application.funcAt?_markTraced, body_applyTo]
  refine ⟨(happ.grows henter hsame).setBody ref nofun, ?_⟩
  have hcalls : Holds (Aligned app) (callsOfStmts true body.stmts) := happ.body hbody
  show Holds (Aligned (Application.setBody _ ref none)) _
  rw [aligned_setBody]
  exact hcalls.imp fun _ _ haligned => haligned.grows happ.placesDiffer happ.extendsTraced henter

/-- Weaving keeps the calls in the list and in all bodies aligned. -/
theorem Weaves.consistent {app app' : Application} {stmts stmts' : List Stmt}
    (h : Weaves app stmts app' stmts') : Consistent app →
      Holds (Aligned app) (callsOfStmts true stmts) →
        Consistent app' ∧ Holds (Aligned app') (callsOfStmts true stmts') := by
  induction h with
  | refl => exact fun happ hstmts => ⟨happ, hstmts⟩
  | trans _ _ ih ih' =>
      intro happ hstmts
      obtain ⟨happ', hstmts'⟩ := ih happ hstmts
      exact ih' happ' hstmts'
  | @needImport app _ package path =>
      intro happ hstmts
      have hgrows := Grows.needImport app package path
      refine ⟨happ.grows hgrows fun place => ?_, hstmts.imp (happ.weaken hgrows)⟩
      rw [Application.funcAt?_needImport]
  | @console app _ console =>
      intro happ hstmts
      have hgrows := Grows.console app console
      exact ⟨happ.grows hgrows fun _ => rfl, hstmts.imp (happ.weaken hgrows)⟩
  | dress front back _ =>
      intro happ hstmts
      simp only [callsOfStmts_append, callsOfStmts_cons] at hstmts ⊢
      exact ⟨happ, hstmts⟩
  | adjust hadjusts hrewrite =>
      intro happ hstmts
      exact ⟨happ, hrewrite.calls.holds (hadjusts.stays happ.apart happ.extendsTraced) hstmts⟩
  | query front back method hcall hcallee hpackage _ _ =>
      intro happ hstmts
      simp only [callsOfStmts_append, callsOfStmts_cons, Holds.append] at hstmts ⊢
      obtain ⟨hfront, hstmt, hback⟩ := hstmts
      have hmem : Path.databaseSql ∈ libraries := by simp [libraries]
      refine ⟨happ, hfront, holds_mapPrimaryCall hcall (fun decs h => ?_) hstmt, hback⟩
      exact holds_queryWithContext happ.apart hcallee (hpackage ▸ hmem) h
  | hand front back literal txn hkind _ =>
      intro happ hstmts
      simp only [callsOfStmts_append, callsOfStmts_cons, Holds.append, hkind] at hstmts ⊢
      obtain ⟨hfront, hstmt, hback⟩ := hstmts
      exact ⟨happ, hfront, holds_handed aligned_ignores literal txn hstmt, hback⟩
  | insert front back haddition =>
      intro happ hstmts
      have hadded := haddition.holds aligned_ignores hstmts
      simp only [callsOfStmts_append, callsOfStmts_cons, Holds.append] at hstmts ⊢
      exact ⟨happ, hstmts.1, hadded, hstmts.2⟩
  | precede front back haddition _ _ =>
      intro happ hstmts
      have hadded := haddition.holds aligned_ignores hstmts
      simp only [callsOfStmts_append, callsOfStmts_cons, Holds.append] at hstmts ⊢
      exact ⟨happ, hstmts.1, hadded, hstmts.2⟩
  | nested front back hnests hweaves ih =>
      intro happ hstmts
      have hgrows := hweaves.grows happ.placesDiffer
      simp only [callsOfStmts_append, callsOfStmts_cons, Holds.append] at hstmts ⊢
      obtain ⟨hfront, hstmt, hback⟩ := hstmts
      obtain ⟨hinner, hwhole⟩ := hnests.holds (happ.weaken hgrows) aligned_ignores hstmt
      obtain ⟨happ', hinner'⟩ := ih happ hinner
      exact ⟨happ', hfront.imp (happ.weaken hgrows), hwhole hinner', hback.imp (happ.weaken hgrows)⟩
  | insertInside front back hnests haddition =>
      intro happ hstmts
      have hadded := haddition.holds aligned_ignores hstmts
      simp only [callsOfStmts_append, callsOfStmts_cons, Holds.append] at hstmts ⊢
      obtain ⟨hfront, hstmt, hback⟩ := hstmts
      obtain ⟨hinner, hwhole⟩ := hnests.holds (fun _ _ h => h) aligned_ignores hstmt
      refine ⟨happ, hfront, hwhole ?_, hback⟩
      rw [callsOfStmts_cons]
      exact Holds.append.2 ⟨hadded, hinner⟩
  | @enter app app' _ _ _ ref passing body body' decs hands hmay hbody hrewrite _ hweaves ih =>
      intro happ hstmts
      obtain ⟨hopened, hinner⟩ := happ.enter hands hmay hbody
      obtain ⟨happ', hinner'⟩ := ih hopened hinner
      have hgrows := hweaves.grows hopened.placesDiffer
      have haligned : Aligned (opened (passing.applyTo ref app) ref) =
          Aligned (passing.applyTo ref app) := (aligned_setBody ref none).trans (aligned_mark ref)
      have hpassed := hands.aligned happ.extendsTraced
      have hstays : (Aligned app).Stays _ false ⟨.call _, decs⟩ ⟨.call passing.call, decs⟩ :=
        hands.stays happ.apart decs (happ.weaken (Grows.enter hands hmay)) (by rwa [aligned_mark])
      refine ⟨happ'.setBody ref fun block hblock => ?_, ?_⟩
      · obtain rfl := Option.some.inj hblock
        exact hinner'
      · rw [aligned_setBody]
        refine (hrewrite.calls.holds hstays hstmts).imp fun reached call h => ?_
        refine hopened.weaken hgrows reached call ?_
        rwa [haligned, ← aligned_mark ref]

/-! ## Turns -/

/-- The set-up of the agent calls members of its package, and `panic`. -/
theorem holds_agentInit {P : CallTest} (agent appName : String)
    (hmember : ∀ name ∈ ["NewApplication", "ConfigAppName", "ConfigFromEnvironment"], ∀ args,
      Holds P (callsOfExprs true args) → Holds P ((Expr.call (newrelic name) args).calls true))
    (hpanic : Holds P ((Expr.call (.ident "panic") [.ident "err"]).calls true)) :
    Holds P (callsOfStmts true (agentInit agent appName)) := by
  have hoptions : Holds P (callsOfExprs true
      ((if appName.isEmpty then [] else [Expr.call (newrelic "ConfigAppName") [.string appName]]) ++
        [.call (newrelic "ConfigFromEnvironment") []])) := by
    rw [callsOfExprs_append, Holds.append]
    refine ⟨?_, by simpa using hmember "ConfigFromEnvironment" (by simp) [] .nil⟩
    split
    · exact .nil
    · simpa using hmember "ConfigAppName" (by simp) [.string appName] (by simp)
  refine holds_stmts.2 fun stmt hmem => ?_
  simp only [agentInit, List.mem_cons, List.not_mem_nil, or_false] at hmem
  obtain rfl | rfl := hmem
  · show Holds P (callsOfExprs true [_, _] ++ callsOfExprs true [_])
    simpa using hmember "NewApplication" (by simp) _ hoptions
  · show Holds P ([] ++ (([] ++ []) ++ (callsOfStmts true [_] ++ [])))
    simpa [callsOfStmts, Stmt.expr] using hpanic

theorem holds_agentInit_of_admits {P : CallTest} (hadmits : P.Admits) (agent appName : String) :
    Holds P (callsOfStmts true (agentInit agent appName)) := by
  have hnamed : ∀ name ∈ ["NewApplication", "ConfigAppName", "ConfigFromEnvironment"],
      name ∉ boundaryNames := by decide
  exact holds_agentInit agent appName
    (fun name hname _ hargs => Expr.holds_named hadmits (hnamed name hname) .nil hargs)
    (Expr.holds_call (hadmits _ _ _ rfl rfl (by decide)) .nil (by simp))

theorem calls_lowerRedeclarations (declared : List String) (stmts : List Stmt) :
    callsOfStmts true (lowerRedeclarations declared stmts) = callsOfStmts true stmts := by
  have hassign : ∀ stmt : Stmt, (assignOnly stmt).kind.calls true .full = stmt.kind.calls true .full := by
    intro stmt
    unfold assignOnly
    split
    · next hkind => rw [hkind, StmtKind.calls_assign, StmtKind.calls_assign]
    · rfl
  induction stmts generalizing declared with
  | nil => rfl
  | cons stmt stmts ih =>
      unfold lowerRedeclarations
      split
      · rw [callsOfStmts_cons, callsOfStmts_cons, ih]
      · dsimp only
        rw [callsOfStmts_cons, callsOfStmts_cons, ih]
        split
        · rw [hassign]
        · rfl

theorem SetsUp.holds {P : CallTest} (hadmits : P.Admits) {agent appName : String}
    {stmts stmts' : List Stmt} (h : SetsUp agent appName stmts stmts')
    (hstmts : Holds P (callsOfStmts true stmts)) : Holds P (callsOfStmts true stmts') := by
  cases h with
  | existing => exact hstmts
  | fresh =>
      have hshutdown : Holds P ((agentShutdown agent).kind.calls true .full) :=
        Expr.holds_named hadmits (by decide) .nil .nil
      rw [callsOfStmts_append, callsOfStmts_append, calls_lowerRedeclarations, Holds.append,
        Holds.append, callsOfStmts_cons, Holds.append]
      exact ⟨⟨holds_agentInit_of_admits hadmits agent appName, hstmts⟩, hshutdown, .nil⟩

section

variable {app app' : Application}

/-- A body that is taken out, woven and put back. -/
theorem Consistent.putBack {stmts : List Stmt} {body : Block} (h : Consistent app)
    (hweaves : Weaves app stmts app' body.stmts) (hstmts : Holds (Aligned app) (callsOfStmts true stmts))
    (ref : FuncRef) : Consistent (app'.setBody ref (some body)) := by
  obtain ⟨happ', hbody⟩ := hweaves.consistent h hstmts
  refine happ'.setBody ref fun block hblock => ?_
  obtain rfl := Option.some.inj hblock
  exact hbody

theorem Turn.consistent (h : Turn app app') (happ : Consistent app) : Consistent app' := by
  have hmarked : ∀ {ref : FuncRef} {body : Block},
      Grows app ((app.markTraced ref).noteEntered ref) → app.body? ref = some body →
        Holds (Aligned (opened app ref)) (callsOfStmts true body.stmts) := by
    intro ref body hgrows hbody
    show Holds (Aligned (Application.setBody _ ref none)) _
    rw [aligned_setBody]
    exact (happ.body hbody).imp (happ.weaken hgrows)
  cases h with
  | main hentry hentered hbody _ hsetsUp hweaves =>
      have hmark := Grows.mark (.inr ⟨hentry, hentered⟩) (isSome_entry?_of_body? hbody)
      have hstmts := hsetsUp.holds aligned_ignores.admits (hmarked hmark hbody)
      exact (consistent_opened happ hmark).putBack hweaves hstmts _
  | root hmay hbody _ hweaves =>
      have hmark := Grows.mark (.inl hmay) (isSome_entry?_of_body? hbody)
      exact (consistent_opened happ hmark).putBack hweaves (hmarked hmark hbody) _
  | @sweep app' ref _ _ _ hbody _ hweaves =>
      have hopened : Consistent (app.setBody ref none) := happ.setBody ref nofun
      refine hopened.putBack hweaves ?_ ref
      rw [aligned_setBody]
      exact happ.body hbody
  | needImport package path =>
      refine happ.grows (.needImport app package path) fun place => ?_
      rw [Application.funcAt?_needImport]

theorem Turns.consistent (h : Turns app app') (happ : Consistent app) : Consistent app' := by
  induction h with
  | refl => exact happ
  | tail _ hturn ih => exact hturn.consistent ih

end

end TraceWeave.Tracing
