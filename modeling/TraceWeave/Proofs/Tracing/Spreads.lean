import TraceWeave.Proofs.Syntax.Survival
import TraceWeave.Proofs.Tracing.Alignment
import TraceWeave.Proofs.Tracing.Woven

/-!
Nothing is appended behind a spread argument.

A call `f(…, xs...)` keeps its arguments at the end of its list (`KeepsSpread`): a value may
come in front of them, and one may be wrapped where it stands.  Two kinds of calls are left
out.  Calls that dial or make a gRPC server get interceptors as further arguments, whatever
the last one is.  A call of a function with a fixed number of arguments is no program that
compiles, and the walk looks at its parameters only.
-/

namespace TraceWeave.Syntax

/-- A change of an expression that leaves it where it is: inside it, or a call around it. -/
inductive Expr.Changes : Expr → Expr → Prop where
  | inside {literals : Bool} {part part' expr expr' : Expr} :
      part.Adjusts part' → Expr.Rewrites literals part part' expr expr' → Expr.Changes expr expr'
  | wrapped {expr callee : Expr} {args : List Expr} :
      Agent.bare expr ∈ args → Expr.Changes expr { Expr.call callee args with decs := expr.decs }

/-- The expression has become another one through changes that leave it where it is. -/
abbrev Expr.Becomes : Expr → Expr → Prop := Relation.ReflTransGen Expr.Changes

theorem Expr.becomes_trans {exprs exprs' exprs'' : List Expr}
    (h : List.Forall₂ Expr.Becomes exprs exprs') (h' : List.Forall₂ Expr.Becomes exprs' exprs'') :
    List.Forall₂ Expr.Becomes exprs exprs'' := by
  induction h generalizing exprs'' with
  | nil =>
      cases h'
      exact .nil
  | cons hexpr _ ih =>
      cases h' with
      | cons hexpr' h' => exact .cons (hexpr.trans hexpr') (ih h')

/-- The parameters of a function literal. -/
def Expr.literalParams? (expr : Expr) : Option FieldList :=
  match expr.kind with
  | .func params _ _ => some params
  | _ => none

theorem Expr.Rewrites.literalParams?_eq {literals : Bool} {part part' expr expr' : Expr}
    (hpart : part.Adjusts part') (h : Expr.Rewrites literals part part' expr expr') :
    expr'.literalParams? = expr.literalParams? := by
  cases h with
  | here => cases hpart <;> rfl
  | _ => rfl

end TraceWeave.Syntax

namespace TraceWeave.Tracing

open TraceWeave.Agent TraceWeave.Detect TraceWeave.Order TraceWeave.Program TraceWeave.Syntax
  TraceWeave.Types

/-! ## Calls that are left out -/

/-- The call aims at a function of the application with a fixed number of parameters. -/
def AimsAtFixed (app : Application) (call : Call) : Prop :=
  ∃ ref params, app.resolve? call = some ref ∧ (app.func? ref).map (·.params) = some params ∧
    params.isVariadic = false

/-- What the call aims at takes a fixed number of arguments. -/
inductive Rigid (app : Application) (call : Call) : Prop where
  | registration : isRegistration app.types call = true → Rigid app call
  | logger : callsFunc app.types Path.logSlog ["New"] call = true → Rigid app call
  | function : AimsAtFixed app call → Rigid app call
  | literal {params : FieldList} :
      call.callee.literalParams? = some params → params.isVariadic = false → Rigid app call
  /-- The variant of a query that takes a context is a method of the application. -/
  | query {callee : Callee} (method : String) :
      app.types.callee? call = some callee → callee.name ∈ queryMethods →
      AimsAtFixed app (queryWithContext method call) → Rigid app call

/-- The call gets interceptors as its last arguments. -/
def takesInterceptors (info : Info) (call : Call) : Bool :=
  callsFunc info Path.grpc ["Dial", "DialContext", "NewClient", "NewServer"] call

/-- The call keeps its spread argument, or is one that instrumentation does not spare. -/
structure KeepsSpread (app : Application) (call call' : Call) : Prop where
  spread_eq : call'.spread = call.spread
  rigid : Rigid app call' → Rigid app call
  takes : takesInterceptors app.types call' = takesInterceptors app.types call
  args : call.spread = true → takesInterceptors app.types call = false → ¬Rigid app call →
    ∃ front back, call'.args = front ++ back ∧ List.Forall₂ Expr.Becomes call.args back

section

variable {app app' : Application} {call call' call'' : Call}

theorem callsFunc_mono {info : Info} {package : String} {names names' : List String}
    (hnames : ∀ name ∈ names, name ∈ names') (h : callsFunc info package names call = true) :
    callsFunc info package names' call = true := by
  unfold callsFunc at h ⊢
  simp only [Option.any_eq_true, List.any_eq_true] at h ⊢
  obtain ⟨callee, hcallee, name, hmem, hname⟩ := h
  exact ⟨callee, hcallee, name, hnames name hmem, hname⟩

theorem aimsAtFixed_congr (h : app.types.callee? call' = app.types.callee? call) :
    AimsAtFixed app call' ↔ AimsAtFixed app call := by
  unfold AimsAtFixed Application.resolve?
  rw [h]

theorem Rigid.congr (hcallee : app.types.callee? call = app.types.callee? call')
    (hliteral : call.callee.literalParams? = call'.callee.literalParams?)
    (hquery : ∀ method, app.types.callee? (queryWithContext method call) =
      app.types.callee? (queryWithContext method call'))
    (h : Rigid app call') : Rigid app call := by
  cases h with
  | registration h =>
      refine .registration ?_
      unfold isRegistration callsMethod at h ⊢
      rwa [callsFunc_congr hcallee, hcallee]
  | logger h => exact .logger (by rwa [callsFunc_congr hcallee])
  | function h => exact .function ((aimsAtFixed_congr hcallee).2 h)
  | literal hparams hfixed => exact .literal (hliteral.trans hparams) hfixed
  | query method hfound hname h =>
      exact .query method (hcallee.trans hfound) hname ((aimsAtFixed_congr (hquery method)).2 h)

/-- What a call of one application aims at has a fixed number of parameters in another one. -/
theorem Rigid.of_aims (htypes : app'.types = app.types)
    (haims : ∀ call, AimsAtFixed app call → AimsAtFixed app' call) (h : Rigid app call) :
    Rigid app' call := by
  cases h with
  | registration h => exact .registration (htypes ▸ h)
  | logger h => exact .logger (htypes ▸ h)
  | function h => exact .function (haims _ h)
  | literal hparams hfixed => exact .literal hparams hfixed
  | query method hfound hname h => exact .query method (htypes ▸ hfound) hname (haims _ h)

namespace KeepsSpread

theorem refl (call : Call) : KeepsSpread app call call :=
  ⟨rfl, id, rfl, fun _ _ _ => ⟨[], call.args, rfl, List.forall₂_same.2 fun _ _ => .refl⟩⟩

theorem trans (h : KeepsSpread app call call') (h' : KeepsSpread app call' call'') :
    KeepsSpread app call call'' where
  spread_eq := h'.spread_eq.trans h.spread_eq
  rigid := h.rigid ∘ h'.rigid
  takes := h'.takes.trans h.takes
  args hspread htakes hrigid := by
    obtain ⟨front, back, hargs, hback⟩ := h.args hspread htakes hrigid
    obtain ⟨front', back', hargs', hback'⟩ :=
      h'.args (h.spread_eq.trans hspread) (h.takes.trans htakes) fun h' => hrigid (h.rigid h')
    -- what had come in front stands in front of the kept arguments still
    rw [hargs] at hback'
    have htake := List.forall₂_take_append back' front back hback'.flip
    have hdrop := List.forall₂_drop_append back' front back hback'.flip
    refine ⟨front' ++ back'.take front.length, back'.drop front.length, ?_, ?_⟩
    · rw [hargs', List.append_assoc, List.take_append_drop]
    · exact Expr.becomes_trans hback hdrop.flip

theorem of_callee_eq (hcallee : call'.callee = call.callee) (hspread : call'.spread = call.spread)
    (hargs : call.spread = true → takesInterceptors app.types call = false → ¬Rigid app call →
      ∃ front back, call'.args = front ++ back ∧ List.Forall₂ Expr.Becomes call.args back) :
    KeepsSpread app call call' := by
  have hsame : app.types.callee? call' = app.types.callee? call := by
    unfold Info.callee?
    rw [hcallee]
  have hquery : ∀ method, app.types.callee? (queryWithContext method call') =
      app.types.callee? (queryWithContext method call) := by
    intro method
    unfold Info.callee? queryWithContext
    rw [hcallee]
  exact ⟨hspread, Rigid.congr hsame.symm (by rw [hcallee]) fun method => (hquery method).symm,
    callsFunc_congr hsame _ _, hargs⟩

/-- A call that is left out may get any arguments. -/
theorem of_rigid (hcallee : call'.callee = call.callee) (hspread : call'.spread = call.spread)
    (hrigid : Rigid app call) : KeepsSpread app call call' :=
  of_callee_eq hcallee hspread fun _ _ h => absurd hrigid h

theorem of_app (htypes : app'.types = app.types)
    (haims : ∀ call, AimsAtFixed app call ↔ AimsAtFixed app' call)
    (h : KeepsSpread app call call') : KeepsSpread app' call call' where
  spread_eq := h.spread_eq
  rigid hrigid :=
    (h.rigid (hrigid.of_aims htypes.symm fun call => (haims call).2)).of_aims htypes fun call =>
      (haims call).1
  takes := by
    rw [htypes]
    exact h.takes
  args hspread htakes hrigid :=
    h.args hspread (htypes ▸ htakes) fun h' =>
      hrigid (h'.of_aims htypes fun call => (haims call).1)

/-- Calls around a change that name resolution does not see. -/
theorem around {literals : Bool} {part part' : Expr} (hpart : part.Adjusts part')
    (halike : app.types.Alike part part') {entry entry' : Bool × Call}
    (h : Around literals part part' entry entry') : KeepsSpread app entry.2 entry'.2 := by
  cases h with
  | same entry => exact refl entry.2
  | @callee callee callee' args spread closesLine h =>
      have hcallee := Info.alike_of_rewrites halike h
      have hsame := hcallee.callee args spread closesLine
      -- the operand in front of the method that takes a context has changed in the same way
      have hquery : ∀ method,
          app.types.callee? (queryWithContext method ⟨callee', args, spread, closesLine⟩) =
            app.types.callee? (queryWithContext method ⟨callee, args, spread, closesLine⟩) := by
        intro method
        cases h with
        | selector h =>
            exact ((Info.alike_of_rewrites halike h).selector _ _).callee _ spread closesLine
        | here => cases hpart <;> exact hsame
        | _ => exact hsame
      refine ⟨rfl, Rigid.congr hsame.symm (h.literalParams?_eq hpart).symm fun method =>
        (hquery method).symm, callsFunc_congr hsame _ _, fun _ _ _ => ?_⟩
      exact ⟨[], args, rfl, List.forall₂_same.2 fun _ _ => .refl⟩
  | @arg callee arg arg' front back spread closesLine h =>
      refine of_callee_eq rfl rfl fun _ _ _ => ⟨[], front ++ arg' :: back, rfl, ?_⟩
      refine List.rel_append (List.forall₂_same.2 fun _ _ => .refl) ?_
      exact .cons (.single (.inside hpart h)) (List.forall₂_same.2 fun _ _ => .refl)

end KeepsSpread

/-! ## Single changes -/

/-- Parameters come only to functions that take a fixed number, and leave it fixed. -/
theorem aimsAtFixed_of_grows (hdiffer : app.PlacesDiffer) (h : Grows app app') (call : Call) :
    AimsAtFixed app' call ↔ AimsAtFixed app call := by
  unfold AimsAtFixed
  simp only [resolve?_of_outline h.outline]
  refine exists_congr fun ref => ?_
  by_cases hextends : Extends app ref app'
  · obtain ⟨func, hfunc, hadmits, hadded⟩ := hextends.params
    simp only [hfunc, hadded, Option.map_some, Option.some.injEq, exists_and_left, exists_eq_left',
      isVariadic_add, hadmits.notVariadic]
  · simp only [h.params_of_ref hdiffer hextends]

theorem aimsAtFixed_setBody (ref : FuncRef) (body : Option Block) (call : Call) :
    AimsAtFixed (app.setBody ref body) call ↔ AimsAtFixed app call := by
  unfold AimsAtFixed
  simp only [resolve?_of_outline (outline_setBody app ref body), params_setBody]

theorem Hands.keepsSpread {ref : FuncRef} {passing : Passing} (hands : Hands app call ref passing) :
    KeepsSpread app call passing.call := by
  have hresolved := hands.resolved
  have hcallee := hands.callee_eq
  obtain ⟨func, carrier, async, txn, hfunc, rfl⟩ := hands.passes
  have hpasses := carrier.passes app.types func.params call async (app.mayInstrument ref) txn
  generalize carrier.pass app.types func.params call async (app.mayInstrument ref) (.ident txn) =
    passing at hcallee hpasses ⊢
  cases hpasses with
  | same hcall _ =>
      rw [hcall]
      exact .refl call
  | fills _ hspread _ hcall _ =>
      rw [hcall]
      refine .of_callee_eq rfl rfl fun h => ?_
      simp [hspread] at h
  | @wraps index arg txn _ _ harg hcall _ =>
      rw [hcall]
      refine .of_callee_eq rfl rfl fun _ _ _ => ⟨[], _, rfl, ?_⟩
      -- the wrapper stands where the context stood
      obtain ⟨hlt, rfl⟩ := List.getElem?_eq_some_iff.1 harg
      have hsplit : call.args =
          call.args.take index ++ call.args[index] :: call.args.drop (index + 1) := by simp
      rw [List.set_eq_take_append_cons_drop, if_pos hlt]
      conv_lhs => rw [hsplit]
      refine List.rel_append (List.forall₂_same.2 fun _ _ => .refl) ?_
      exact .cons (.single (.wrapped List.mem_cons_self)) (List.forall₂_same.2 fun _ _ => .refl)
  | grows _ _ hadmits hcall _ _ =>
      rw [hcall]
      refine .of_rigid rfl rfl (.function ⟨ref, func.params, hresolved, ?_, hadmits.notVariadic⟩)
      rw [hfunc]
      rfl

theorem Hooks.keepsSpread (hooks : Hooks app.types call call') : KeepsSpread app call call' := by
  have hcallee := hooks.callee_eq
  cases hooks with
  | handler hregistration _ hwrap =>
      refine .of_rigid hcallee ?_ (.registration hregistration)
      unfold wrapHandler? at hwrap
      split at hwrap
      · split at hwrap
        · contradiction
        · obtain rfl := Option.some.inj hwrap
          rfl
      · contradiction
  | client hdials =>
      refine .of_callee_eq hcallee rfl fun _ htakes _ => ?_
      have htrue : takesInterceptors app.types call = true :=
        callsFunc_mono (by simp) (Bool.and_eq_true_iff.1 hdials).1
      simp [htrue] at htakes
  | server hserves _ =>
      refine .of_callee_eq hcallee rfl fun _ htakes _ => ?_
      have htrue : takesInterceptors app.types call = true :=
        callsFunc_mono (by simp) (Bool.and_eq_true_iff.1 hserves).1
      simp [htrue] at htakes
  | logger hmakes _ =>
      refine .of_rigid hcallee ?_ (.logger (Bool.and_eq_true_iff.1 hmakes).1)
      unfold wrapFirstArg
      split <;> rfl

/-- The variant of a query takes its context in front of all arguments. -/
theorem keepsSpread_query {callee : Callee} {method : String}
    (hcallee : app.types.callee? call = some callee) (hpackage : callee.package = Path.databaseSql)
    (hname : callee.name = method) (hmethod : method ∈ queryMethods) :
    KeepsSpread app call (queryWithContext method call) := by
  have hargs : ∃ front back, (queryWithContext method call).args = front ++ back ∧
      List.Forall₂ Expr.Becomes call.args back :=
    ⟨[_], call.args, rfl, List.forall₂_same.2 fun _ _ => .refl⟩
  have htakes : takesInterceptors app.types call = false := by
    refine Bool.eq_false_iff.2 fun htakes => ?_
    obtain ⟨callee', hcallee', hgrpc, -⟩ := callee?_of_callsFunc htakes
    obtain rfl := Option.some.inj (hcallee.symm.trans hcallee')
    exact absurd (hpackage.symm.trans hgrpc) (by decide)
  obtain ⟨⟨kind, decs⟩, args, spread, closesLine⟩ := call
  cases kind with
  | selector operand member =>
      -- the name of the variant tells it from all that instrumentation looks for
      have hvariant : ∀ callee', app.types.callee? (queryWithContext method
          ⟨⟨.selector operand member, decs⟩, args, spread, closesLine⟩) = some callee' →
            ∀ name, callee'.name = name → name ∈ queryMethods.map (· ++ "Context") := by
        rintro callee' hcallee' name rfl
        have hcalled : callee'.name = method ++ "Context" := callee?_name rfl hcallee'
        exact hcalled ▸ List.mem_map_of_mem hmethod
      refine ⟨rfl, fun hrigid => ?_, ?_, fun _ _ _ => hargs⟩
      · cases hrigid with
        | registration h =>
            obtain ⟨callee', hcallee', -, hmem⟩ := callee?_of_isRegistration h
            have hnames : ∀ name ∈ ["HandleFunc", "Handle"],
                name ∉ queryMethods.map (· ++ "Context") := by decide
            exact absurd (hvariant callee' hcallee' _ rfl) (hnames _ hmem)
        | logger h =>
            obtain ⟨callee', hcallee', -, hmem⟩ := callee?_of_callsFunc h
            have hnames : ∀ name ∈ ["New"], name ∉ queryMethods.map (· ++ "Context") := by decide
            exact absurd (hvariant callee' hcallee' _ rfl) (hnames _ hmem)
        | function h => exact .query method hcallee (hname ▸ hmethod) h
        | literal hparams _ => contradiction
        | query method' hcallee' hmem _ =>
            have hnames : ∀ name ∈ queryMethods, name ∉ queryMethods.map (· ++ "Context") := by
              decide
            exact absurd (hvariant _ hcallee' _ rfl) (hnames _ hmem)
      · rw [htakes]
        refine Bool.eq_false_iff.2 fun htakes' => ?_
        obtain ⟨callee', hcallee', -, hmem⟩ := callee?_of_callsFunc htakes'
        have hnames : ∀ name ∈ ["Dial", "DialContext", "NewClient", "NewServer"],
            name ∉ queryMethods.map (· ++ "Context") := by decide
        exact absurd (hvariant callee' hcallee' _ rfl) (hnames _ hmem)
  | _ => exact .of_callee_eq rfl rfl fun _ _ _ => hargs

/-- A literal with a fixed number of parameters may be handed a transaction. -/
theorem keepsSpread_literal {params params' : FieldList} {results : Option Results}
    {body body' : Block} {decs : Decorations} {args args' : List Expr} {spread closesLine : Bool}
    (hparams : params' = params ∧ args' = args ∨ params.isVariadic = false) :
    KeepsSpread app ⟨⟨.func params results body, decs⟩, args, spread, closesLine⟩
      ⟨⟨.func params' results body', decs⟩, args', spread, closesLine⟩ := by
  obtain ⟨rfl, rfl⟩ | hfixed := hparams
  · refine ⟨rfl, Rigid.congr rfl rfl fun _ => rfl, rfl, fun _ _ _ => ?_⟩
    exact ⟨[], args', rfl, List.forall₂_same.2 fun _ _ => .refl⟩
  · exact ⟨rfl, fun _ => .literal rfl hfixed, rfl, fun _ _ h => absurd (.literal rfl hfixed) h⟩

/-! ## Calls inside calls -/

theorem calls_bare (expr : Expr) (reached : Bool) : (bare expr).calls reached = expr.calls reached :=
  expr.calls_redecorate _ reached

theorem Passes.calls_sublist {info : Info} {list : FieldList} {mayExtend : Bool} {passing : Passing}
    (h : Passes info list call mayExtend passing) :
    (callsOfExprs true call.args).Sublist (callsOfExprs true passing.call.args) := by
  cases h with
  | same hcall _ => rw [hcall]
  | fills _ _ _ hcall _ =>
      rw [hcall]
      exact callsOfExprs_addArg call _ true
  | wraps _ _ harg hcall _ =>
      rw [hcall]
      refine callsOfExprs_set harg ?_
      rw [Expr.calls_redecorate, ← calls_bare]
      exact calls_sublist_call List.mem_cons_self _ true
  | grows _ _ _ hcall _ _ =>
      rw [hcall]
      exact callsOfExprs_addArg call _ true

theorem Hooks.calls_sublist {info : Info} (hooks : Hooks info call call') :
    (callsOfExprs true call.args).Sublist (callsOfExprs true call'.args) := by
  cases hooks with
  | handler _ _ hwrap =>
      unfold wrapHandler? at hwrap
      split at hwrap
      · next pattern handler hargs =>
        split at hwrap
        · contradiction
        · obtain rfl := Option.some.inj hwrap
          rw [hargs]
          simp only [callsOfExprs, List.append_nil, Expr.calls_redecorate, Expr.call, Expr.calls_call]
          refine .cons _ (List.sublist_append_of_sublist_right ?_)
          exact List.sublist_append_right ..
      · contradiction
  | client _ => exact (callsOfExprs_addArg call _ true).trans (callsOfExprs_addArg _ _ true)
  | server _ _ => exact (callsOfExprs_addArg call _ true).trans (callsOfExprs_addArg _ _ true)
  | logger _ _ =>
      unfold wrapFirstArg
      split
      · exact .refl _
      · next handler args hargs =>
        rw [hargs]
        simp only [callsOfExprs]
        refine List.Sublist.append_right ?_ _
        rw [Expr.calls_redecorate, ← calls_bare]
        exact calls_sublist_call (List.mem_cons_of_mem _ List.mem_cons_self) _ true

theorem Hands.survive {ref : FuncRef} {passing : Passing} (hands : Hands app call ref passing)
    (decs : Decorations) : Survive (KeepsSpread app) ((⟨.call call, decs⟩ : Expr).calls true)
      ((⟨.call passing.call, decs⟩ : Expr).calls true) := by
  refine survive_call KeepsSpread.refl hands.keepsSpread hands.callee_eq ?_ decs
  obtain ⟨func, carrier, async, txn, -, rfl⟩ := hands.passes
  exact (carrier.passes ..).calls_sublist

theorem Adjusts.survive {part part' : Expr} (h : Adjusts app part part') :
    Survive (KeepsSpread app) (part.calls true) (part'.calls true) := by
  cases h with
  | rename ident decs _ => exact .nil
  | @hook _ _ decs hooks =>
      exact survive_call KeepsSpread.refl hooks.keepsSpread hooks.callee_eq hooks.calls_sublist decs
  | @pass _ _ _ decs hands _ => exact hands.survive decs

theorem Adjusts.alike (hapart : Apart app) {part part' : Expr} (h : Adjusts app part part') :
    app.types.Alike part part' := by
  cases h with
  | rename ident decs _ => exact .ident rfl
  | @hook _ _ decs hooks => exact hooks.alike decs
  | @pass _ _ _ decs hands _ => exact hands.alike hapart decs

theorem survive_query {callee : Callee} {method : String}
    (hcallee : app.types.callee? call = some callee) (hpackage : callee.package = Path.databaseSql)
    (hname : callee.name = method) (hmethod : method ∈ queryMethods) (decs : Decorations) :
    Survive (KeepsSpread app) ((⟨.call call, decs⟩ : Expr).calls true)
      ((⟨.call (queryWithContext method call), decs⟩ : Expr).calls true) := by
  have hcall := keepsSpread_query hcallee hpackage hname hmethod
  obtain ⟨⟨kind, calleeDecs⟩, args, spread, closesLine⟩ := call
  have hsame : (queryWithContext method ⟨⟨kind, calleeDecs⟩, args, spread, closesLine⟩).callee.calls
      true = kind.calls true := by
    cases kind <;> rfl
  rw [Expr.calls_call, Expr.calls_call, hsame]
  exact .cons hcall ((Survive.refl KeepsSpread.refl _).append (.of_sublist KeepsSpread.refl
    (List.sublist_append_right ..)))

theorem SpawnedLiteral.survive_handed (literal : SpawnedLiteral)
    (hfixed : literal.params.isVariadic = false) (txn : String) :
    Survive (KeepsSpread app) (literal.kind.calls true .full)
      ((literal.handed txn).kind.calls true .full) := by
  obtain ⟨value, call, params, results, ⟨stmts, trailing, inline⟩⟩ := literal
  show Survive _ (Expr.calls true ⟨.call _, _⟩) (Expr.calls true ⟨.call _, _⟩)
  rw [Expr.calls_call, Expr.calls_call]
  refine .cons (keepsSpread_literal (.inr hfixed)) ?_
  exact (Survive.refl KeepsSpread.refl (callsOfStmts true stmts)).append
    (.of_sublist KeepsSpread.refl (callsOfExprs_addArg call _ true))

end

/-! ## Weaving -/

/-- The calls of a list survive its weaving, and keep what they spread. -/
theorem Weaves.survive {app app' : Application} {stmts stmts' : List Stmt}
    (h : Weaves app stmts app' stmts') : app.PlacesDiffer → Apart app →
      Survive (KeepsSpread app) (callsOfStmts true stmts) (callsOfStmts true stmts') := by
  induction h with
  | trans h _ ih ih' =>
      intro hdiffer hapart
      have hgrows := h.grows hdiffer
      have hlater := ih' (placesDiffer_of_outline hgrows.outline hdiffer)
        (apart_of_outline hgrows.outline hapart)
      refine (ih hdiffer hapart).trans KeepsSpread.trans (hlater.imp fun _ _ hcall => ?_)
      exact hcall.of_app (types_of_outline hgrows.outline).symm (aimsAtFixed_of_grows hdiffer hgrows)
  | dress front back _ =>
      intro _ _
      simp only [callsOfStmts_append, callsOfStmts_cons]
      exact .refl KeepsSpread.refl _
  | adjust hadjusts hrewrite =>
      intro _ hapart
      exact hrewrite.calls.survive KeepsSpread.refl hadjusts.survive fun haround =>
        .around hadjusts.adjusts (hadjusts.alike hapart) haround
  | query front back method hcall hcallee hpackage hname hmethod =>
      intro _ _
      obtain ⟨before, decs, hold, hnew⟩ := calls_mapPrimaryCall hcall (queryWithContext method)
      simp only [callsOfStmts_append, callsOfStmts_cons, hold, hnew, List.append_assoc]
      refine (Survive.refl KeepsSpread.refl _).append ((Survive.refl KeepsSpread.refl _).append ?_)
      exact (survive_query hcallee hpackage hname hmethod decs).append (.refl KeepsSpread.refl _)
  | hand front back literal txn hkind hfixed =>
      intro _ _
      simp only [callsOfStmts_append, callsOfStmts_cons, hkind]
      refine (Survive.refl KeepsSpread.refl _).append ?_
      exact (literal.survive_handed hfixed txn).append (.refl KeepsSpread.refl _)
  | insert front back _ =>
      intro _ _
      simp only [callsOfStmts_append, callsOfStmts_cons]
      exact .insert KeepsSpread.refl _ _ _
  | precede front back _ _ _ =>
      intro _ _
      simp only [callsOfStmts_append, callsOfStmts_cons]
      exact .insert KeepsSpread.refl _ _ _
  | nested front back hnests _ ih =>
      intro hdiffer hapart
      simp only [callsOfStmts_append, callsOfStmts_cons]
      refine (Survive.refl KeepsSpread.refl _).append (.append ?_ (.refl KeepsSpread.refl _))
      exact hnests.survive KeepsSpread.refl (keepsSpread_literal (.inl ⟨rfl, rfl⟩)) (ih hdiffer hapart)
  | insertInside front back hnests _ =>
      intro _ _
      simp only [callsOfStmts_append, callsOfStmts_cons]
      refine (Survive.refl KeepsSpread.refl _).append (.append ?_ (.refl KeepsSpread.refl _))
      refine hnests.survive KeepsSpread.refl (keepsSpread_literal (.inl ⟨rfl, rfl⟩)) ?_
      rw [callsOfStmts_cons]
      exact .of_sublist KeepsSpread.refl (List.sublist_append_right ..)
  | @enter _ _ _ _ _ _ _ _ _ decs hands _ _ hrewrite _ _ _ =>
      intro _ hapart
      exact hrewrite.calls.survive KeepsSpread.refl (hands.survive decs) fun haround =>
        .around (.call hands.callee_eq) (hands.alike hapart decs) haround
  | _ => exact fun _ _ => .refl KeepsSpread.refl _

theorem SetsUp.calls_sublist {agent appName : String} {stmts stmts' : List Stmt}
    (h : SetsUp agent appName stmts stmts') :
    (callsOfStmts true stmts).Sublist (callsOfStmts true stmts') := by
  cases h with
  | existing => exact .refl _
  | fresh =>
      rw [callsOfStmts_append, callsOfStmts_append, calls_lowerRedeclarations]
      exact List.sublist_append_of_sublist_left (List.sublist_append_right ..)

/-! ## Bodies -/

/-- The calls of a body survive, and keep what they spread. -/
def SpreadsKept (app : Application) (body body' : Block) : Prop :=
  Survive (KeepsSpread app) (callsOfStmts true body.stmts) (callsOfStmts true body'.stmts)

/-- The application judges calls as another one does. -/
structure Judges (origin app : Application) : Prop where
  apart : Apart app
  types : app.types = origin.types
  aims : ∀ call, AimsAtFixed app call ↔ AimsAtFixed origin call

theorem spreadsKept_withstands (origin : Application) (body : Block) :
    Withstands (Judges origin) (SpreadsKept origin body) where
  grows hdiffer hgrows h :=
    { apart := apart_of_outline hgrows.outline h.apart
      types := (types_of_outline hgrows.outline).trans h.types
      aims := fun call => (aimsAtFixed_of_grows hdiffer hgrows call).trans (h.aims call) }
  setBody ref body h :=
    { apart := apart_of_outline (outline_setBody _ ref body) h.apart
      types := h.types
      aims := fun call => (aimsAtFixed_setBody ref body call).trans (h.aims call) }
  weaves hdiffer h _ hweaves hkept := by
    refine hkept.trans KeepsSpread.trans ((hweaves.survive hdiffer h.apart).imp fun _ _ hcall => ?_)
    exact hcall.of_app h.types.symm h.aims
  setsUp hsetsUp hkept :=
    hkept.trans KeepsSpread.trans (.of_sublist KeepsSpread.refl hsetsUp.calls_sublist)

end TraceWeave.Tracing
