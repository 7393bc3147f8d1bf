import TraceWeave.Proofs.Syntax.OwnEdits
import TraceWeave.Proofs.Tracing.Sweep
import TraceWeave.Proofs.Tracing.Serving
import TraceWeave.Proofs.Types.Invariants

/-!
Calls that are given the interceptors of a client.

The edit changes no call that a test of the called function tells apart
(`callsAny_intercepts`), makes no round tripper and takes none away
(`isRoundTripper_intercepts`), and leaves no call that dials without interceptors
(`intercepts_brings`).
-/

namespace TraceWeave.Tracing

open TraceWeave.Agent TraceWeave.Detect TraceWeave.Program TraceWeave.Syntax TraceWeave.Types

/-! ## The edit -/

section

variable {info : Info}

/-- The edits that give interceptors to calls. -/
abbrev intercepts (info : Info) : Edits (StateM Bool) := Edits.calls true (interceptClient info)

/-- What becomes of an expression when its calls are given interceptors. -/
abbrev Intercepts (info : Info) : Expr → Expr → Prop := (intercepts info).Makes (.ofStateM Bool)

theorem interceptClient_cases (info : Info) (call : Call) (changed : Bool) :
    (interceptClient info call changed = (addClientInterceptors (grpcName call) call, true) ∧
      dialsBare info call = true) ∨
    (interceptClient info call changed = (call, changed) ∧ dialsBare info call = false) := by
  unfold interceptClient
  split
  · next h => exact .inl ⟨rfl, h⟩
  · next h => exact .inr ⟨rfl, by simpa using h⟩

theorem intercepts_follows : (intercepts info).Follows (.ofStateM Bool)
    (alikeVisits info fun _ => True) := by
  refine ⟨fun call decs changed => ?_, fun ident decs changed => .inr rfl⟩
  obtain ⟨hrun, hdials⟩ | ⟨hrun, -⟩ := interceptClient_cases info call changed
  · refine .inl fun _ => ⟨trivial, ?_⟩
    simp only [Edits.calls, Threaded.ofStateM, hrun]
    exact (Hooks.client hdials).alike decs
  · exact .inr hrun

theorem Intercepts.alike {expr expr' : Expr} (h : Intercepts info expr expr') :
    info.Alike expr expr' := by
  obtain ⟨changed, rfl⟩ := h
  exact (edit_alike intercepts_follows expr trivial).2

/-- A call is given interceptors once its callee and its arguments are edited. -/
theorem Intercepts.call {call : Call} {decs : Decorations} {expr' : Expr}
    (h : Intercepts info ⟨.call call, decs⟩ expr') :
    ∃ inner call', expr' = ⟨.call call', decs⟩ ∧ Intercepts info call.callee inner.callee ∧
      List.Forall₂ (Intercepts info) call.args inner.args ∧
      info.callee? inner = info.callee? call ∧
      (call' = addClientInterceptors (grpcName inner) inner ∨ call' = inner) := by
  obtain ⟨changed, rfl⟩ := h
  obtain ⟨callee, args, spread, closesLine⟩ := call
  simp only [Expr.edit, ExprKind.edit, Threaded.run_bind, Threaded.run_pure]
  have hcallee : Intercepts info callee _ := ⟨changed, rfl⟩
  generalize Threaded.run (.ofStateM Bool) (callee.edit (intercepts info)) changed = first
    at hcallee ⊢
  have hargs : List.Forall₂ (Intercepts info) args _ := editExprs_makes args first.2
  generalize Threaded.run (.ofStateM Bool) (editExprs (intercepts info) args) first.2 = second
    at hargs ⊢
  refine ⟨⟨first.1, second.1, spread, closesLine⟩, _, rfl, hcallee, hargs,
    hcallee.alike.callee args spread closesLine, ?_⟩
  obtain ⟨hrun, -⟩ | ⟨hrun, -⟩ :=
    interceptClient_cases info ⟨first.1, second.1, spread, closesLine⟩ second.2
  · exact .inl (congrArg Prod.fst hrun)
  · exact .inr (congrArg Prod.fst hrun)

/-! ## Calls of a function -/

/-- Some call in the expression, outside function literals, passes the test. -/
def callsAny (test : Call → Bool) (expr : Expr) : Bool :=
  (expr.parts false).any fun part => part.call?.any test

theorem anyOwnCall_eq (test : Call → Bool) (stmt : Stmt) :
    anyOwnCall test stmt = stmt.ownExprs.any (callsAny test) := rfl

theorem any_partsOfExprs (test : Call → Bool) (exprs : List Expr) :
    ((partsOfExprs false exprs).any fun part => part.call?.any test) =
      exprs.any (callsAny test) := by
  rw [partsOfExprs_eq_flatMap, List.any_flatMap]
  rfl

theorem callsAny_call (test : Call → Bool) (call : Call) (decs : Decorations) :
    callsAny test ⟨.call call, decs⟩ =
      (test call || (callsAny test call.callee || call.args.any (callsAny test))) := by
  obtain ⟨callee, args, spread, closesLine⟩ := call
  rw [← any_partsOfExprs]
  exact congrArg _ List.any_append

theorem callsAny_binary (test : Call → Bool) (left right : Expr) (op : String)
    (decs : Decorations) :
    callsAny test ⟨.binary left op right, decs⟩ = (callsAny test left || callsAny test right) :=
  List.any_append

theorem callsAny_index (test : Call → Bool) (operand : Expr) (indices : List Expr)
    (decs : Decorations) :
    callsAny test ⟨.index operand indices, decs⟩ =
      (callsAny test operand || indices.any (callsAny test)) := by
  rw [← any_partsOfExprs]
  exact List.any_append

theorem callsAny_decs (test : Call → Bool) (expr : Expr) (decs : Decorations) :
    callsAny test { expr with decs } = callsAny test expr := by
  obtain ⟨kind, _⟩ := expr
  simp [callsAny, Expr.parts, Expr.call?]

theorem any_addArg (test : Call → Bool) (call : Call) (arg : Expr) :
    (call.addArg arg).args.any (callsAny test) =
      (call.args.any (callsAny test) || callsAny test arg) := by
  unfold Call.addArg
  dsimp only
  split
  · simp [callsAny_decs]
  · simp

variable {package : String} {names : List String}

section

variable (hskips : SkipsGenerated info)

include hskips

/-- A generated name calls no function that is known. -/
theorem callee?_qualified (qualifier member : String) (args : List Expr)
    (spread closesLine : Bool) :
    info.callee? ⟨.qualified qualifier member, args, spread, closesLine⟩ = none := by
  have hobject : info.object? { name := qualifier } = none := by
    simp only [Info.object?, hskips { name := qualifier } rfl, Option.bind_none]
  simp [Info.callee?, Expr.qualified, Expr.selector, Expr.ident, Expr.unparen, Info.importedPath?,
    Expr.ident?, Info.typeOf?, hobject]

theorem callsAny_interceptorOption (grpc option interceptor : String) :
    callsAny (callsFunc info package names)
      (interceptorOption grpc option (.qualified "nrgrpc" interceptor)) = false := by
  have hqualified : ∀ qualifier member : String,
      callsAny (callsFunc info package names) (.qualified qualifier member) = false :=
    fun _ _ => rfl
  rw [interceptorOption, Expr.call, callsAny_call]
  simp [callsFunc, callee?_qualified hskips, hqualified]

/-- Interceptors are no known functions. -/
theorem callsAny_addClientInterceptors (grpc : String) (call : Call) (decs : Decorations) :
    callsAny (callsFunc info package names) ⟨.call (addClientInterceptors grpc call), decs⟩ =
      callsAny (callsFunc info package names) ⟨.call call, decs⟩ := by
  have hcallee : (addClientInterceptors grpc call).callee = call.callee := rfl
  have hsame : info.callee? (addClientInterceptors grpc call) = info.callee? call := rfl
  rw [callsAny_call, callsAny_call, callsFunc_congr hsame, hcallee, addClientInterceptors,
    any_addArg, any_addArg, callsAny_interceptorOption hskips, callsAny_interceptorOption hskips,
    Bool.or_false, Bool.or_false]

end

mutual

theorem callsAny_intercepts (hskips : SkipsGenerated info) (expr expr' : Expr)
    (h : Intercepts info expr expr')
    (hany : callsAny (callsFunc info package names) expr' = true) :
    callsAny (callsFunc info package names) expr = true := by
  obtain ⟨kind, decs⟩ := expr
  cases kind with
  | call call =>
      obtain ⟨callee, args, spread, closesLine⟩ := call
      obtain ⟨inner, call', rfl, hcallee, hargs, hsame, hcall⟩ := h.call
      have hinner : callsAny (callsFunc info package names) ⟨.call inner, decs⟩ = true := by
        obtain rfl | rfl := hcall
        · rwa [callsAny_addClientInterceptors hskips] at hany
        · exact hany
      rw [callsAny_call, callsFunc_congr hsame, Bool.or_eq_true, Bool.or_eq_true] at hinner
      rw [callsAny_call, Bool.or_eq_true, Bool.or_eq_true]
      exact hinner.imp_right (Or.imp (callsAny_intercepts hskips callee _ hcallee)
        (any_intercepts hskips args _ hargs))
  | binary left op right =>
      obtain ⟨changed, rfl⟩ := h
      simp only [Expr.edit, ExprKind.edit, Threaded.run_bind, Threaded.run_pure] at hany
      rw [callsAny_binary, Bool.or_eq_true] at hany ⊢
      exact hany.imp (callsAny_intercepts hskips left _ ⟨_, rfl⟩)
        (callsAny_intercepts hskips right _ ⟨_, rfl⟩)
  | index operand indices =>
      obtain ⟨changed, rfl⟩ := h
      simp only [Expr.edit, ExprKind.edit, Threaded.run_bind, Threaded.run_pure] at hany
      rw [callsAny_index, Bool.or_eq_true] at hany ⊢
      exact hany.imp (callsAny_intercepts hskips operand _ ⟨_, rfl⟩)
        (any_intercepts hskips indices _ (editExprs_makes indices _))
  | selector operand member =>
      obtain ⟨changed, rfl⟩ := h
      simp only [Expr.edit, ExprKind.edit, Threaded.run_bind, Threaded.run_pure] at hany
      exact callsAny_intercepts hskips operand _ ⟨changed, rfl⟩ hany
  | star operand =>
      obtain ⟨changed, rfl⟩ := h
      simp only [Expr.edit, ExprKind.edit, Threaded.run_bind, Threaded.run_pure] at hany
      exact callsAny_intercepts hskips operand _ ⟨changed, rfl⟩ hany
  | unary op operand =>
      obtain ⟨changed, rfl⟩ := h
      simp only [Expr.edit, ExprKind.edit, Threaded.run_bind, Threaded.run_pure] at hany
      exact callsAny_intercepts hskips operand _ ⟨changed, rfl⟩ hany
  | paren inner =>
      obtain ⟨changed, rfl⟩ := h
      simp only [Expr.edit, ExprKind.edit, Threaded.run_bind, Threaded.run_pure] at hany
      exact callsAny_intercepts hskips inner _ ⟨changed, rfl⟩ hany
  | func params results body =>
      obtain ⟨changed, rfl⟩ := h
      obtain ⟨stmts, trailing, inline⟩ := body
      simp only [Expr.edit, ExprKind.edit, Threaded.run_bind, Threaded.run_pure] at hany
      exact hany
  | ident ident =>
      obtain ⟨changed, rfl⟩ := h
      exact hany
  | composite type body =>
      obtain ⟨changed, rfl⟩ := h
      exact hany
  | literal text =>
      obtain ⟨changed, rfl⟩ := h
      exact hany
  | verbatim text =>
      obtain ⟨changed, rfl⟩ := h
      exact hany

theorem any_intercepts (hskips : SkipsGenerated info) (exprs exprs' : List Expr)
    (h : List.Forall₂ (Intercepts info) exprs exprs')
    (hany : exprs'.any (callsAny (callsFunc info package names)) = true) :
    exprs.any (callsAny (callsFunc info package names)) = true := by
  cases h with
  | nil => exact hany
  | @cons expr expr' exprs exprs' hexpr hexprs =>
      rw [List.any_cons, Bool.or_eq_true] at hany ⊢
      exact hany.imp (callsAny_intercepts hskips expr expr' hexpr)
        (any_intercepts hskips exprs exprs' hexprs)

end

end

/-! ## Round trippers -/

section

variable {info : Info} {expr expr' : Expr}

theorem Intercepts.ident?_eq (h : Intercepts info expr expr') : expr'.ident? = expr.ident? :=
  Edits.Makes.ident?_eq (fun _ _ => rfl) h

theorem Intercepts.isQualified_eq (h : Intercepts info expr expr') (package name : String) :
    isQualified expr' package name = isQualified expr package name := by
  unfold isQualified
  obtain ⟨hold, hnew⟩ | ⟨operand, operand', member, hold, hnew, hoperand⟩ := Edits.Makes.selector? h
  · rw [hold, hnew]
  · simp only [hold, hnew, Option.any_some, Expr.isIdent, Intercepts.ident?_eq hoperand]

theorem Intercepts.isQualifiedCall_eq (h : Intercepts info expr expr') (package name : String) :
    isQualifiedCall expr' package name = isQualifiedCall expr package name := by
  cases hcall : expr.call? with
  | none => simp [isQualifiedCall, hcall, Edits.Makes.call?_eq_none h hcall]
  | some call =>
      rw [eq_of_call? hcall] at h ⊢
      obtain ⟨inner, call', rfl, hcallee, -, -, hadded⟩ := h.call
      have hsame : call'.callee = inner.callee := by obtain rfl | rfl := hadded <;> rfl
      show isQualified call'.callee package name = isQualified call.callee package name
      rw [hsame, hcallee.isQualified_eq]

theorem isRoundTripper_congr {stmt stmt' : Stmt} (h : stmt'.kind = stmt.kind) :
    isRoundTripper stmt' = isRoundTripper stmt := by
  simp only [isRoundTripper, h]

theorem isRoundTripper_of_ne_assign {stmt : Stmt}
    (h : ∀ left op right, stmt.kind ≠ .assign left op right) : isRoundTripper stmt = false := by
  unfold isRoundTripper
  split
  · next hkind => exact absurd hkind (h _ _ _)
  · rfl

theorem intercepts_assign (left right : List Expr) (op : AssignOp) (changed : Bool) :
    ∃ left' right', (Threaded.run (.ofStateM Bool)
        ((StmtKind.assign left op right).edit (intercepts info) .own) changed).1 =
          .assign left' op right' ∧
      List.Forall₂ (Intercepts info) left left' ∧ List.Forall₂ (Intercepts info) right right' :=
  StmtKind.edit_assign left right op changed

/-- A statement is a round tripper after the edit if it was one before. -/
theorem isRoundTripper_intercepts (kind : StmtKind) (decs : Decorations) (changed : Bool) :
    isRoundTripper ⟨(Threaded.run (.ofStateM Bool) (kind.edit (intercepts info) .own) changed).1,
      decs⟩ = isRoundTripper ⟨kind, decs⟩ := by
  by_cases hassign : ∃ left op right, kind = .assign left op right
  · obtain ⟨left, op, right, rfl⟩ := hassign
    obtain ⟨left', right', hrun, -, hright⟩ := intercepts_assign left right op changed
    rw [hrun]
    show right'.any _ = right.any _
    clear hrun
    induction hright with
    | nil => rfl
    | cons hexpr _ ih => rw [List.any_cons, List.any_cons, ih, Intercepts.isQualifiedCall_eq hexpr]
  · have hne : ∀ left op right, kind ≠ .assign left op right :=
      fun left op right h => hassign ⟨left, op, right, h⟩
    have hbefore : isRoundTripper ⟨kind, decs⟩ = false := isRoundTripper_of_ne_assign hne
    rw [hbefore]
    exact isRoundTripper_of_ne_assign (kind.edit_ne_assign changed hne)

end

/-! ## Calls that dial -/

section

variable {info : Info}

/-- A call that edits reach does not dial without interceptors. -/
def Intercepted (info : Info) : CallTest := fun reached call =>
  reached = true → dialsBare info call = false

theorem hasInterceptors_addClientInterceptors (grpc : String) (call : Call) :
    hasInterceptors (addClientInterceptors grpc call) = true := by
  have hlast : ∀ (call : Call) (option interceptor : String),
      hasInterceptors (call.addArg (interceptorOption grpc option
        (.qualified "nrgrpc" interceptor))) = true := by
    intro call option interceptor
    unfold hasInterceptors Call.addArg
    rw [List.any_append, List.any_cons]
    split <;> simp [interceptorOption, Expr.call, Expr.call?, isInterceptor, Expr.qualified,
      Expr.selector, Expr.selector?, Expr.ident, Expr.isIdent, Expr.ident?]
  exact hlast _ _ _

theorem dialsBare_interceptClient (info : Info) (call : Call) (changed : Bool) :
    dialsBare info (interceptClient info call changed).1 = false := by
  obtain ⟨hrun, -⟩ | ⟨hrun, hdials⟩ := interceptClient_cases info call changed
  · rw [hrun, dialsBare, hasInterceptors_addClientInterceptors, Bool.not_true, Bool.and_false]
  · rw [hrun, hdials]

/-- Interceptors do not dial. -/
theorem holds_interceptorOption (hskips : SkipsGenerated info) (grpc option interceptor : String) :
    Holds (Intercepted info)
      ((interceptorOption grpc option (.qualified "nrgrpc" interceptor)).calls true) := by
  -- Neither the option nor the interceptor in it holds a call.
  refine Holds.cons.2 ⟨fun _ => ?_, .nil⟩
  rw [dialsBare, callsFunc, callee?_qualified hskips, Option.any_none, Bool.false_and]

theorem intercepts_brings (hskips : SkipsGenerated info) :
    (intercepts info).Brings (.ofStateM Bool) (fun _ _ => True) (Intercepted info) where
  literals := rfl
  outside _ _ hreached := nomatch hreached
  call := by
    intro callee args spread closesLine _ _ changed _ callee' args' call' hcallee hargs
    refine ⟨fun _ => dialsBare_interceptClient info _ _, ?_⟩
    obtain ⟨hrun, -⟩ | ⟨hrun, -⟩ :=
      interceptClient_cases info ⟨callee', args', spread, closesLine⟩ changed
    · rw [show call' = _ from congrArg Prod.fst hrun]
      refine ⟨hcallee, Call.holds_addArg (Call.holds_addArg hargs ?_) ?_⟩
      · exact holds_interceptorOption hskips _ _ _
      · exact holds_interceptorOption hskips _ _ _
    · rw [show call' = _ from congrArg Prod.fst hrun]
      exact ⟨hcallee, hargs⟩

end

end TraceWeave.Tracing
