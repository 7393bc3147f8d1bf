import TraceWeave.Proofs.Syntax.OpenCalls
import TraceWeave.Proofs.Tracing.Alignment

/-!
Calls that the transaction has reached.

A call is served if tracing has been to its callee, or never goes there, and if the argument
for the transaction is there (`Served`).  A call that a transaction is passed to is served
(`passCall_serves`) and stays so while the application grows (`Served.grows`); so all calls
are that a statement offers (`passCalls_serves`).
-/

namespace TraceWeave.Tracing

open TraceWeave.Agent TraceWeave.Detect TraceWeave.Program TraceWeave.Syntax TraceWeave.Types

/-! ## Calls that name resolution cannot tell apart -/

/-- The callee and the arguments may have changed inside. -/
structure CallAlike (info : Info) (call call' : Call) : Prop where
  callee : info.Alike call.callee call'.callee
  args : List.Forall₂ info.Alike call.args call'.args
  spread : call'.spread = call.spread
  closesLine : call'.closesLine = call.closesLine

namespace CallAlike

variable {info : Info} {call call' : Call}

theorem callee?_eq (h : CallAlike info call call') : info.callee? call' = info.callee? call := by
  obtain ⟨callee, args, spread, closesLine⟩ := call
  obtain ⟨callee', args', spread', closesLine'⟩ := call'
  obtain ⟨hcallee, -, hspread, hcloses⟩ := h
  subst hspread hcloses
  exact hcallee.callee args ..

theorem isWritten_eq (h : CallAlike info call call') : call'.isWritten = call.isWritten :=
  h.callee.written [] false false

theorem hidesCount_eq (h : CallAlike info call call') : info.hidesCount call' = info.hidesCount call := by
  unfold Info.hidesCount
  rw [h.spread]
  obtain ⟨callee, args, spread, closesLine⟩ := call
  obtain ⟨callee', args', spread', closesLine'⟩ := call'
  obtain ⟨-, hargs, -, -⟩ := h
  cases hargs with
  | nil => rfl
  | cons hfirst _ => simp [hfirst.yieldsSeveral]

theorem resolve?_eq {app : Application} (h : CallAlike app.types call call') :
    app.resolve? call' = app.resolve? call := by
  unfold Application.resolve?
  rw [h.callee?_eq]

end CallAlike

section

variable {m : Type → Type} [Monad m] {σ : Type} {threaded : Threaded m σ} {edits : Edits m}
  {info : Info} {I : σ → Prop}

/-- A visit that keeps a condition on states changes nothing that name resolution looks at. -/
def alikeVisits (info : Info) (I : σ → Prop) : Visits σ := fun before after =>
  I before.2 → I after.2 ∧ info.Alike before.1 after.1

theorem edit_alike (follows : edits.Follows threaded (alikeVisits info I)) (expr : Expr) {s : σ}
    (hs : I s) : I (threaded.run (expr.edit edits) s).2 ∧
      info.Alike expr (threaded.run (expr.edit edits) s).1 := by
  have hsteps := expr.edit_steps follows s
  generalize threaded.run (expr.edit edits) s = after at hsteps ⊢
  induction hsteps with
  | refl => exact ⟨hs, .refl⟩
  | tail _ hstep ih =>
      obtain ⟨part, part', hvisit, hrewrites⟩ := hstep
      obtain ⟨hbefore, halike⟩ := ih
      obtain ⟨hafter, hpart⟩ := hvisit hbefore
      exact ⟨hafter, halike.trans (Info.alike_of_rewrites hpart hrewrites)⟩

theorem editExprs_alike (follows : edits.Follows threaded (alikeVisits info I)) (exprs : List Expr)
    {s : σ} (hs : I s) : I (threaded.run (editExprs edits exprs) s).2 ∧
      List.Forall₂ info.Alike exprs (threaded.run (editExprs edits exprs) s).1 := by
  induction exprs generalizing s with
  | nil =>
      simp only [editExprs, Threaded.run_pure]
      exact ⟨hs, .nil⟩
  | cons expr exprs ih =>
      simp only [editExprs, Threaded.run_bind, Threaded.run_pure]
      obtain ⟨hs', hexpr⟩ := edit_alike follows expr hs
      obtain ⟨hs'', hexprs⟩ := ih hs'
      exact ⟨hs'', .cons hexpr hexprs⟩

/-- The edit of a call inside leaves one that name resolution cannot tell apart. -/
theorem callAlike_edit (follows : edits.Follows threaded (alikeVisits info I)) (callee : Expr)
    (args : List Expr) (spread closesLine : Bool) {s s' : σ} (hs : I s) (hs' : I s') :
    CallAlike info ⟨callee, args, spread, closesLine⟩
      ⟨(threaded.run (callee.edit edits) s).1, (threaded.run (editExprs edits args) s').1, spread,
        closesLine⟩ :=
  ⟨(edit_alike follows callee hs).2, (editExprs_alike follows args hs').2, rfl, rfl⟩

end

/-! ## Served calls -/

/-- Where arguments can be counted, the one for the first transaction parameter is there. -/
def SuppliesTransaction (info : Info) (params : FieldList) (call : Call) : Prop :=
  info.hidesCount call = false → params.isVariadic = false →
    findParam? (paramsOf info params) contextTy = none → ∀ index param,
      findParam? (paramsOf info params) transactionTy = some (index, param) →
        index < call.args.length

/-- Tracing has been to the callee of a call, or never goes there, and the transaction is passed. -/
def Served (app : Application) (call : Call) : Prop :=
  call.isWritten = true → ∀ ref params, app.resolve? call = some ref → ref.key ≠ "main" →
    (app.func? ref).map (·.params) = some params →
      app.mayInstrument ref = false ∧ SuppliesTransaction app.types params call

namespace Served

variable {app app' : Application} {call call' : Call}

theorem grows (h : Served app call) (hdiffer : app.PlacesDiffer) (hgrows : Grows app app') :
    Served app' call := by
  intro hwritten ref params hresolve hkey hparams
  rw [resolve?_of_outline hgrows.outline] at hresolve
  cases hbefore : (app.func? ref).map (·.params) with
  | none =>
      have hnot : ¬Extends app ref app' := fun hextends => by
        obtain ⟨func, hfunc, -⟩ := hextends.params
        simp [hfunc] at hbefore
      rw [hgrows.params_of_ref hdiffer hnot, hbefore] at hparams
      contradiction
  | some before =>
      obtain ⟨hmay, hsupplies⟩ := h hwritten ref before hresolve hkey hbefore
      have hnot : ¬Extends app ref app' := fun hextends => by
        rw [hextends.mayInstrument] at hmay
        contradiction
      rw [hgrows.params_of_ref hdiffer hnot, hbefore] at hparams
      obtain rfl := Option.some.inj hparams
      refine ⟨?_, types_of_outline hgrows.outline ▸ hsupplies⟩
      cases hmay' : app'.mayInstrument ref with
      | false => rfl
      | true => exact absurd (hgrows.mayInstrument hmay') (by simp [hmay])

theorem alike (h : Served app call) (halike : CallAlike app.types call call') : Served app call' := by
  intro hwritten ref params hresolve hkey hparams
  rw [halike.isWritten_eq] at hwritten
  rw [halike.resolve?_eq] at hresolve
  obtain ⟨hmay, hsupplies⟩ := h hwritten ref params hresolve hkey hparams
  refine ⟨hmay, ?_⟩
  unfold SuppliesTransaction
  rw [halike.hidesCount_eq, ← halike.args.length_eq]
  exact hsupplies

theorem of_library (hapart : Apart app) {callee : Callee}
    (hcallee : app.types.callee? call = some callee) (hmem : callee.package ∈ libraries) :
    Served app call := by
  intro _ ref _ hresolve
  obtain ⟨callee', hcallee', hpackage⟩ := callee?_of_resolve? hresolve
  obtain rfl := Option.some.inj (hcallee.symm.trans hcallee')
  simp [hapart _ hmem] at hpackage

end Served

/-- Written calls are served as they were before, and generated ones are no calls of the application. -/
theorem served_of_writtenAmong {app : Application} {calls calls' : List Call}
    (h : WrittenAmong calls calls') (hcalls : ∀ call ∈ calls, Served app call) :
    ∀ call ∈ calls', Served app call :=
  fun call hmem hwritten => hcalls call (h call hmem hwritten) hwritten

/-! ## What is generated -/

section

variable {calls : List Call}

theorem IsHandle.writtenAmong {handle : Expr} (h : IsHandle handle) :
    WrittenAmong calls handle.openCalls := by
  cases h with
  | goroutine txn => exact .member .nil (List.forall_mem_nil _)
  | _ => exact .nil

theorem IsAgent.writtenAmong {agent : Expr} (h : IsAgent agent) :
    WrittenAmong calls agent.openCalls := by
  cases h with
  | transaction txn => exact .member .nil (List.forall_mem_nil _)
  | _ => exact .nil

theorem writtenAmong_addArg {call : Call} {arg : Expr}
    (hargs : WrittenAmong calls (openCallsOfExprs call.args))
    (harg : WrittenAmong calls arg.openCalls) :
    WrittenAmong calls (openCallsOfExprs (call.addArg arg).args) := by
  unfold Call.addArg
  dsimp only
  rw [openCallsOfExprs_append]
  refine hargs.of_append (.exprs fun expr hmem => ?_)
  obtain rfl := List.mem_singleton.1 hmem
  split
  · rwa [Expr.openCalls_redecorate]
  · exact harg

theorem writtenAmong_newContext {ctx txn : Expr} (hctx : WrittenAmong calls ctx.openCalls)
    (htxn : WrittenAmong calls txn.openCalls) : WrittenAmong calls (newContext ctx txn).openCalls := by
  refine .member .nil (List.forall_mem_cons.2 ⟨?_, List.forall_mem_singleton.2 htxn⟩)
  rwa [bare, Expr.openCalls_redecorate]

/-- Passing generates what it adds to the arguments. -/
theorem Passes.writtenAmong {info : Info} {list : FieldList} {call : Call} {mayExtend : Bool}
    {passing : Passing} (h : Passes info list call mayExtend passing) :
    WrittenAmong (openCallsOfExprs call.args) (openCallsOfExprs passing.call.args) := by
  cases h with
  | same hcall _ =>
      rw [hcall]
      exact .refl
  | fills hhandle _ _ hcall _ =>
      rw [hcall]
      exact writtenAmong_addArg .refl hhandle.writtenAmong
  | grows hhandle _ _ hcall _ _ =>
      rw [hcall]
      exact writtenAmong_addArg .refl hhandle.writtenAmong
  | wraps hhandle _ harg hcall _ =>
      rw [hcall]
      have hold : ∀ expr ∈ call.args,
          WrittenAmong (openCallsOfExprs call.args) expr.openCalls := fun expr hexpr inner hinner _ =>
        mem_openCallsOfExprs.2 ⟨expr, hexpr, hinner⟩
      refine .exprs fun expr hmem => ?_
      obtain hmem | rfl := List.mem_or_eq_of_mem_set hmem
      · exact hold expr hmem
      · rw [Expr.openCalls_redecorate]
        exact writtenAmong_newContext (hold _ (List.mem_of_getElem? harg)) hhandle.writtenAmong

end

/-! ## Passing a transaction -/

theorem Carrier.params_of_notExtended {carrier : Carrier} {info : Info} {list : FieldList}
    {call : Call} {async mayExtend : Bool} {txn : Expr}
    (h : (carrier.pass info list call async mayExtend txn).extended = false) :
    (carrier.pass info list call async mayExtend txn).params = list := by
  unfold Carrier.pass at h ⊢
  dsimp only at h ⊢
  split
  · unfold Carrier.passItself
    split
    · split <;> rfl
    · rfl
  · next hown =>
    rw [hown] at h
    dsimp only at h
    split
    · unfold Carrier.passContext
      split
      · rfl
      · dsimp only
        split <;> rfl
    · next hcontext =>
      rw [hcontext] at h
      dsimp only at h
      split
      · next hmay =>
        rw [if_pos hmay] at h
        unfold Carrier.passNew at h ⊢
        split
        · rfl
        · next hlist =>
          rw [if_neg hlist] at h
          contradiction
      · rfl

theorem Carrier.pass_transaction (name : String) (info : Info) (list : FieldList) (call : Call)
    (async mayExtend : Bool) (txn : Expr) :
    (Carrier.transaction name).pass info list call async mayExtend txn =
      match findParam? (paramsOf info list) transactionTy with
      | some (index, param) => (Carrier.transaction name).passItself list call
          (if async then newGoroutine txn else txn) index param
      | none =>
          match findParam? (paramsOf info list) contextTy with
          | some (index, param) => (Carrier.transaction name).passContext list call async
              (if async then newGoroutine txn else txn) index param
          | none =>
              if mayExtend then passNew list call (if async then newGoroutine txn else txn)
              else { call, params := list } := rfl

/-- A call that lacks the last argument at most has the transaction once it is passed. -/
theorem Carrier.pass_supplies {name : String} {info : Info} {list : FieldList} {call : Call}
    {async mayExtend : Bool} {txn : Expr}
    (h : info.hidesCount call = false → list.isVariadic = false →
      findParam? (paramsOf info list) contextTy = none →
        list.arity ≤ call.args.length + 1 ∧ (mayExtend = true → list.arity ≤ call.args.length)) :
    SuppliesTransaction info
      ((Carrier.transaction name).pass info list call async mayExtend txn).params
      ((Carrier.transaction name).pass info list call async mayExtend txn).call := by
  rw [Carrier.pass_transaction]
  generalize (if async = true then newGoroutine txn else txn) = handle
  split
  · next index param hown =>
    have hindex : index < list.arity := length_paramsOf info list ▸ findParam?_lt hown
    unfold Carrier.passItself
    split
    · next hlast =>
      obtain ⟨hlength, -⟩ := Bool.and_eq_true_iff.1 hlast
      intro _ _ _ index' param' hfound
      obtain ⟨rfl, -⟩ := Prod.mk.inj (Option.some.inj (hown.symm.trans hfound))
      show index < (call.addArg handle).args.length
      rw [Call.length_addArg, beq_iff_eq.1 hlength]
      exact Nat.lt_succ_self _
    · next hlast =>
      intro hcount hvariadic hcontext index' param' hfound
      obtain ⟨rfl, -⟩ := Prod.mk.inj (Option.some.inj (hown.symm.trans hfound))
      obtain ⟨harity, -⟩ := h hcount hvariadic hcontext
      have hspread : call.spread = false := (Bool.or_eq_false_iff.1 hcount).1
      have hne : call.args.length ≠ index := fun heq => hlast (by simp [heq, hspread])
      show index < call.args.length
      omega
  · next hown =>
    split
    · next hcontext =>
      have hparams : ∀ carrier : Carrier, ∀ index param,
          (carrier.passContext list call async handle index param).params = list := by
        intro carrier index param
        unfold Carrier.passContext
        split
        · rfl
        · dsimp only
          split <;> rfl
      intro _ _ hnone
      rw [hparams, hcontext] at hnone
      contradiction
    · next hcontext =>
      split
      · next hmay =>
        unfold Carrier.passNew
        split
        · intro _ _ _ index param hfound
          exact absurd (hown.symm.trans hfound) (by simp)
        · next hlist =>
          intro hcount _ _ index param hfound
          simp only [Bool.or_eq_true, not_or, Bool.not_eq_true] at hlist
          obtain ⟨-, harity⟩ := h (hidesCount_of_addArg hcount) hlist.1 hcontext
          have hindex := findParam?_lt hfound
          rw [length_paramsOf, arity_add] at hindex
          show index < (call.addArg handle).args.length
          rw [Call.length_addArg]
          have := harity hmay
          omega
      · intro _ _ _ index param hfound
        exact absurd (hown.symm.trans hfound) (by simp)

/-- The frame of a function that holds its transaction in a variable. -/
structure Frame.Carries (name : String) (frame : Frame) : Prop where
  inMain : frame.inMain = false
  carrier : frame.carrier = some (.transaction name)

theorem Frame.Carries.of_eq {name : String} {frame frame' : Frame} (h : frame.Carries name)
    (hmain : frame'.inMain = frame.inMain) (hcarrier : frame'.carrier = frame.carrier) :
    frame'.Carries name :=
  ⟨hmain.trans h.inMain, hcarrier.trans h.carrier⟩

section

variable {app : Application} {call : Call} {ref : FuncRef} {passing : Passing}

theorem func?_needImport (app : Application) (package path : String) (ref : FuncRef) :
    (app.needImport package path).func? ref = app.func? ref := by
  rw [Application.func?_eq, Application.func?_eq, Application.place?_needImport]
  exact congrArg _ (funext (app.funcAt?_needImport package path))

theorem params_addImports (caller : String) (ref other : FuncRef) :
    (Application.func? (passing.addImports caller ref app) other).map (·.params) =
      (app.func? other).map (·.params) := by
  unfold Passing.addImports
  dsimp only
  split <;> split <;> simp only [func?_needImport]

theorem mayInstrument_addImports (caller : String) (ref other : FuncRef) :
    Application.mayInstrument (passing.addImports caller ref app) other =
      app.mayInstrument other := by
  unfold Passing.addImports
  dsimp only
  split <;> split <;> simp only [mayInstrument_needImport]

/-- The callee takes what the call passes. -/
theorem Hands.params (hands : Hands app call ref passing) :
    ((passing.applyTo ref app).func? ref).map (·.params) = some passing.params := by
  obtain ⟨func, carrier, async, txn, hfunc, rfl⟩ := hands.passes
  unfold Passing.applyTo
  split
  · show ((app.modifyFunc ref _).func? ref).map _ = _
    rw [Application.func?_modifyFunc, hfunc]
    rfl
  · next hextended =>
    rw [hfunc, Carrier.params_of_notExtended (Bool.not_eq_true _ ▸ hextended)]
    rfl

/-- A call of a function that tracing has been to is served once it hands the transaction on. -/
theorem Hands.served {app' : Application} {name : String} {func : FuncDecl} {async : Bool} {txn : Expr}
    (hands : Hands app call ref passing)
    (hpassing : passing = (Carrier.transaction name).pass app.types func.params call async
      (app.mayInstrument ref) txn)
    (hfunc : app.func? ref = some func) (htraced : ExtendsTraced app)
    (haligned : Aligned app true call) (hgrows : Grows app app')
    (hmay : app'.mayInstrument ref = false)
    (hparams : (app'.func? ref).map (·.params) = some passing.params) : Served app' passing.call := by
  subst hpassing
  intro hwritten ref' params' hresolve' _ hparams'
  rw [resolve?_of_outline hgrows.outline] at hresolve'
  unfold Application.resolve? Info.callee? at hresolve'
  rw [hands.callee_eq] at hresolve'
  obtain rfl := Option.some.inj (hands.resolved.symm.trans hresolve')
  obtain rfl := Option.some.inj (hparams.symm.trans hparams')
  refine ⟨hmay, ?_⟩
  rw [types_of_outline hgrows.outline]
  refine Carrier.pass_supplies fun hcount hvariadic hcontext => ?_
  have hcalled : call.isWritten = true := by
    unfold Call.isWritten at hwritten ⊢
    rwa [hands.callee_eq] at hwritten
  have hsupplies := haligned hcalled hcount ref func.params hands.resolved (by rw [hfunc]; rfl)
    hcontext hvariadic
  cases hsupplies with
  | plain _ heq => exact ⟨by omega, fun _ => by omega⟩
  | complete _ _ heq => exact ⟨by omega, fun _ => by omega⟩
  | short hextended heq =>
      refine ⟨by omega, fun hmayExtend => ?_⟩
      rw [Application.mayInstrument_eq, htraced ref hextended] at hmayExtend
      simp at hmayExtend

/-- Tracing has been to a function once a call of it has been followed. -/
theorem followCall_reaches {walk : Walk} (hwalk : walk.Weaves) (caller : Frame) (async : Bool)
    (hdiffer : app.PlacesDiffer) (hands : Hands app call ref passing) :
    Weave.wp (followCall walk caller async ref (app.mayInstrument ref) passing) (fun _ app' =>
      app'.mayInstrument ref = false ∧ (app'.func? ref).map (·.params) = some passing.params) app := by
  have hparams := hands.params
  unfold followCall
  simp only [Weave.wp_bind, Weave.wp_modify]
  cases hmay : app.mayInstrument ref with
  | false =>
      have happly : passing.applyTo ref app = app := by
        obtain ⟨func, carrier, async, txn, -, rfl⟩ := hands.passes
        have hpasses := carrier.passes app.types func.params call async (app.mayInstrument ref) txn
        rw [hmay] at hpasses ⊢
        simp [Passing.applyTo, hpasses.extended_eq_false]
      rw [happly] at hparams ⊢
      exact ⟨(mayInstrument_addImports ..).trans hmay, (params_addImports ..).trans hparams⟩
  | true =>
      obtain ⟨body, hbody⟩ := Option.isSome_iff_exists.1 (isSome_body?_of_mayInstrument hmay)
      have hentry : (Application.entry? (passing.applyTo ref app) ref).isSome = true := by
        rw [entry?_applyTo]
        exact isSome_entry?_of_mayInstrument hmay
      have houtline : (opened (passing.applyTo ref app) ref).outline = app.outline :=
        (outline_opened ..).trans (outline_applyTo ..)
      have hopened := isTraced_opened hentry
      have htraced := traceFunction_weaves hwalk (childFrame_binds caller ref passing.child async)
        ((body?_applyTo passing ref app).trans hbody)
      simp only [if_true, Weave.wp_bind, Weave.wp_modify]
      refine htraced.mono fun _ app' h => ?_
      obtain ⟨app'', body', -, hweaves, rfl⟩ := h
      have hdiffer' := placesDiffer_of_outline houtline hdiffer
      have hgrows := hweaves.grows hdiffer'
      rw [Weave.wp_modify]
      constructor
      · rw [mayInstrument_addImports, Application.mayInstrument_eq, isTraced_setBody,
          hgrows.isTraced ref hopened]
        simp
      · rw [params_addImports, params_setBody,
          hgrows.params_of_ref hdiffer' (Grows.not_extends_of_isTraced hopened)]
        refine Eq.trans ?_ hparams
        show ((Application.setBody _ ref none).func? ref).map _ = _
        rw [params_setBody]
        exact congrArg _ ((passing.applyTo ref app).func?_markTraced ref ref)

end

section

variable {walk : Walk} (hwalk : walk.Weaves) (async : Bool) (call : Call) (advisories : List Advisory)
  (frame : Frame) (app : Application)

/-- A call stays as it is, or hands the transaction on. -/
def Relays (app : Application) (call call' : Call) : Prop :=
  call' = call ∨ ∃ ref passing, Hands app call ref passing ∧ call' = passing.call

theorem passCall_relays : Advised.wp (passCall walk async call) (fun call' _ frame' _ =>
    Relays app call call' ∧ frame'.inMain = frame.inMain ∧ frame'.carrier = frame.carrier)
    advisories frame app := by
  apply wp_passCall (fun _ => ⟨.inl rfl, rfl, rfl⟩)
  rintro ref carrier func _ haims rfl
  exact ⟨.inr ⟨ref, _, haims.hands async, rfl⟩, rfl, rfl⟩

include hwalk in
theorem passCall_grows (hdiffer : app.PlacesDiffer) :
    Advised.wp (passCall walk async call) (fun _ _ _ app' => Grows app app') advisories frame app := by
  refine (passCall_passed hwalk async call advisories frame app).mono fun call' _ frame' app' h => ?_
  obtain ⟨-, hretouches⟩ | ⟨-, -, -, rfl⟩ := h
  · exact (hretouches {} [.expr _] [.expr _] (.within [] (.expr rfl .here))).weaves.grows hdiffer
  · exact .refl

include hwalk in
/-- A call that the transaction is passed into is served. -/
theorem passCall_serves (hdiffer : app.PlacesDiffer) (htraced : ExtendsTraced app) {name : String}
    (hframe : frame.Carries name) (haligned : Aligned app true call) :
    Advised.wp (passCall walk async call) (fun call' _ _ app' => Served app' call')
      advisories frame app := by
  refine wp_passCall (fun hnone => ?_) ?_
  · intro _ ref _ hresolve hkey hparams
    obtain ⟨func, hfunc, -⟩ := Option.map_eq_some_iff.1 hparams
    exact absurd ⟨hresolve, hframe.carrier, hkey, hfunc⟩ (hnone ref _ func)
  · rintro ref carrier func _ haims rfl
    obtain rfl := Option.some.inj (hframe.carrier.symm.trans haims.carried)
    have hands := haims.hands async
    have hreaches := (followCall_reaches hwalk frame async hdiffer hands).and
      (followCall_retouches hwalk frame async hands)
    refine hreaches.mono fun _ app' h => ?_
    obtain ⟨⟨hmay, hparams⟩, hretouches⟩ := h
    have hweaves := (hretouches {} [.expr _] [.expr _] (.within [] (.expr rfl .here))).weaves
    have hgrows := hweaves.grows hdiffer
    exact hands.served rfl haims.found htraced haligned hgrows hmay hparams

end

/-! ## Passing the transaction into the calls of a statement -/

/-- A state of a walk through a body that a transaction was passed to, grown out of another one. -/
structure Ready (origin : Application) (name : String) (s : List Advisory × Frame × Application) :
    Prop where
  frame : s.2.1.Carries name
  grows : Grows origin s.2.2

namespace Relays

variable {app : Application} {call call' : Call} (h : Relays app call call')

include h

theorem callee_eq : call'.callee = call.callee := by
  obtain rfl | ⟨ref, passing, hands, rfl⟩ := h
  · rfl
  · exact hands.callee_eq

theorem writtenAmong : WrittenAmong (openCallsOfExprs call.args) (openCallsOfExprs call'.args) := by
  obtain rfl | ⟨ref, passing, hands, rfl⟩ := h
  · exact .refl
  · obtain ⟨func, carrier, async, txn, -, rfl⟩ := hands.passes
    exact (carrier.passes ..).writtenAmong

theorem alike (hapart : Apart app) (decs : Decorations) :
    app.types.Alike ⟨.call call, decs⟩ ⟨.call call', decs⟩ := by
  obtain rfl | ⟨ref, passing, hands, rfl⟩ := h
  · exact .refl
  · exact hands.alike hapart decs

end Relays

section

variable {walk : Walk} (hwalk : walk.Weaves) {origin : Application} (horigin : Consistent origin)
  {name : String}

/-- A visit that the walk makes of a call. -/
abbrev passed (walk : Walk) (async : Bool) (call : Call) (s : List Advisory × Frame × Application) :
    Call × List Advisory × Frame × Application :=
  Advised.threaded.run (passCall walk async call) s

omit hwalk horigin in
theorem passed_relays (walk : Walk) (async : Bool) (call : Call)
    (s : List Advisory × Frame × Application) : Relays s.2.2 call (passed walk async call s).1 :=
  (@passCall_relays walk async call s.1 s.2.1 s.2.2).1

include hwalk horigin

theorem passed_ready (async : Bool) (call : Call) {s : List Advisory × Frame × Application}
    (h : Ready origin name s) : Ready origin name (passed walk async call s).2 := by
  have hdiffer := placesDiffer_of_outline h.grows.outline horigin.placesDiffer
  have hgrows : Grows s.2.2 (passed walk async call s).2.2.2 :=
    passCall_grows hwalk async call s.1 s.2.1 s.2.2 hdiffer
  obtain ⟨-, hmain, hcarrier⟩ := @passCall_relays walk async call s.1 s.2.1 s.2.2
  exact ⟨h.frame.of_eq hmain hcarrier, h.grows.trans horigin.placesDiffer hgrows⟩

theorem passed_follows (async : Bool) : (Edits.calls false (passCall walk async)).Follows
    Advised.threaded (alikeVisits origin.types (Ready origin name)) := by
  refine ⟨fun call decs s => .inl fun h => ⟨passed_ready hwalk horigin async call h, ?_⟩,
    fun ident decs s => .inr rfl⟩
  have halike := (passed_relays walk async call s).alike
    (apart_of_outline h.grows.outline horigin.apart) decs
  rwa [types_of_outline h.grows.outline] at halike

theorem passed_visitsOpen (async : Bool) : VisitsOpen Advised.threaded (passCall walk async)
    (CallAlike origin.types) (Ready origin name) where
  keeps call _ h := passed_ready hwalk horigin async call h
  inside callee args spread closesLine _ _ :=
    callAlike_edit (passed_follows hwalk horigin async) callee args spread closesLine
  callee call _ := (passed_relays walk async call _).callee_eq
  args call s := (passed_relays walk async call s).writtenAmong

/-- The call is served, and those that were served before are so still. -/
theorem passed_serves (async : Bool) {call : Call} {s : List Advisory × Frame × Application}
    (h : Ready origin name s) (haligned : Aligned origin true call) :
    Ready origin name (passed walk async call s).2 ∧
      Served (passed walk async call s).2.2.2 (passed walk async call s).1 ∧
        ∀ other, Served s.2.2 other → Served (passed walk async call s).2.2.2 other := by
  have hdiffer := placesDiffer_of_outline h.grows.outline horigin.placesDiffer
  have hgrows : Grows s.2.2 (passed walk async call s).2.2.2 :=
    passCall_grows hwalk async call s.1 s.2.1 s.2.2 hdiffer
  refine ⟨passed_ready hwalk horigin async call h, ?_, fun other hother => hother.grows hdiffer hgrows⟩
  exact passCall_serves hwalk async call s.1 s.2.1 s.2.2 hdiffer
    (horigin.extendsTraced.grows h.grows) h.frame (horigin.weaken h.grows true call haligned)

omit hwalk horigin in
theorem aligned_of_alike {call call' : Call} (h : CallAlike origin.types call call')
    (haligned : Aligned origin true call) : Aligned origin true call' := by
  obtain ⟨callee, args, spread, closesLine⟩ := call
  obtain ⟨callee', args', spread', closesLine'⟩ := call'
  obtain ⟨hcallee, hargs, hspread, hcloses⟩ := h
  subst hspread hcloses
  exact haligned.alike hcallee hargs

/-- Where calls are offered, all of them are served in the end. -/
theorem served_of_offers {async : Bool} {calls calls' : List Call}
    {s s' : List Advisory × Frame × Application}
    (h : Offers Advised.threaded (passCall walk async) (CallAlike origin.types) (Ready origin name)
      calls s calls' s')
    (hs : Ready origin name s) (hcalls : ∀ call ∈ calls, Aligned origin true call) :
    Ready origin name s' ∧ ∀ call ∈ calls', Served s'.2.2 call := by
  obtain ⟨hs', results, hvisited, hamong⟩ := h hs
  have hresults : (∀ call ∈ results, Served s'.2.2 call) ∧
      ∀ other, Served s.2.2 other → Served s'.2.2 other := by
    refine hvisited.brings (Ready origin name) (Aligned origin true) (fun s => Served s.2.2) hs hcalls
      aligned_of_alike ?_
    intro s call hs haligned
    obtain ⟨hready, hserved, hkeeps⟩ := passed_serves hwalk horigin async hs haligned
    exact ⟨hready, hserved, hkeeps⟩
  exact ⟨hs', served_of_writtenAmong hamong hresults.1⟩

/-- The transaction is passed into a statement, whose offered calls are served then. -/
theorem passCalls_serves (stmt : Stmt) {s : List Advisory × Frame × Application}
    (hs : Ready origin name s) (hstmt : ∀ call ∈ stmt.kind.offered, Aligned origin true call) :
    Ready origin name (Advised.threaded.run (passCalls walk stmt) s).2 ∧
      ∀ call ∈ (Advised.threaded.run (passCalls walk stmt) s).1.kind.offered,
        Served (Advised.threaded.run (passCalls walk stmt) s).2.2.2 call := by
  obtain ⟨kind, decs⟩ := stmt
  unfold passCalls
  split
  · next value hkind =>
    obtain rfl : kind = .spawn value := hkind
    split
    · next hcall =>
      have hnone : (StmtKind.spawn value).offered = [] := by simp [StmtKind.offered, hcall]
      simp only [Threaded.run_pure, hnone]
      exact ⟨hs, List.forall_mem_nil _⟩
    · next call hcall =>
      have hoffered : (StmtKind.spawn value).offered = openCallsOfExprs call.args ++ [call] := by
        simp [StmtKind.offered, hcall]
      rw [hoffered, List.forall_mem_append, List.forall_mem_singleton] at hstmt
      obtain ⟨hargs, hcall'⟩ := hstmt
      -- the arguments first, then the call itself, which runs elsewhere
      have hvisits := @passed_visitsOpen walk hwalk origin horigin name false
      have halike := editExprs_alike (passed_follows hwalk horigin false) call.args hs
      obtain ⟨hs', hserved⟩ := served_of_offers hwalk horigin
        (editExprs_offers hvisits call.args s) hs hargs
      simp only [Threaded.run_bind, Threaded.run_pure, ← editExprs_eq_mapM]
      generalize Advised.threaded.run (editExprs _ call.args) s = after at hs' hserved halike ⊢
      have halike' : CallAlike origin.types call { call with args := after.1 } :=
        ⟨.refl, halike.2, rfl, rfl⟩
      obtain ⟨hs'', hown, hkeeps⟩ := passed_serves hwalk horigin true hs' (aligned_of_alike halike' hcall')
      refine ⟨hs'', List.forall_mem_append.2 ⟨?_, List.forall_mem_singleton.2 hown⟩⟩
      exact served_of_writtenAmong (passed_relays walk true _ after.2).writtenAmong
        fun call hmem => hkeeps call (hserved call hmem)
  · next hspawn =>
    have hoffered : kind.offered = kind.openCalls := by
      cases kind with
      | spawn value => exact absurd rfl (hspawn value)
      | _ => rfl
    rw [hoffered] at hstmt
    have hvisits := @passed_visitsOpen walk hwalk origin horigin name false
    obtain ⟨hs', hserved⟩ := served_of_offers hwalk horigin (kind.edit_offers hvisits s) hs hstmt
    simp only [Stmt.editOwn, Threaded.run_bind, Threaded.run_pure]
    exact ⟨hs', fun call hmem => hserved call (StmtKind.offered_subset _ hmem)⟩

end

end TraceWeave.Tracing
