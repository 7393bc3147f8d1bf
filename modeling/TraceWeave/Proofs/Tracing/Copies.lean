import TraceWeave.Proofs.Tracing.Bodies
import TraceWeave.Proofs.Tracing.Spreads

/-!
Calls that come a second time.

Weaving keeps the calls of the source, in order, and what it adds makes none of them again,
with one exception: a segment around a request starts with a copy of the request, whatever
the request calls.  The calls in such copies are counted (`copies`), and calls are gained no
faster than copies (`Balanced`).  A function without copies makes the calls that it made
before, one for one (`Balanced.exact`).
-/

namespace TraceWeave.Syntax

/-- The identifier that names what is called: its number, and its text where it is a member. -/
def Expr.target? (expr : Expr) : Option (Nat × Option String) :=
  match expr.unparen.kind with
  | .ident ident => some (ident.id, none)
  | .selector _ member => some (member.id, some member.name)
  | _ => none

theorem Expr.Rewrites.target?_eq {literals : Bool} {part part' expr expr' : Expr}
    (hpart : part.Adjusts part') (h : Expr.Rewrites literals part part' expr expr') :
    expr'.target? = expr.target? := by
  cases h with
  | here =>
      cases hpart with
      | call _ => rfl
      | ident hid => simp only [target?, unparen, hid]
  | paren h =>
      have hinner := h.target?_eq hpart
      exact hinner
  | _ => rfl

end TraceWeave.Syntax

namespace TraceWeave.Tracing

open TraceWeave.Agent TraceWeave.Detect TraceWeave.Program TraceWeave.Syntax TraceWeave.Types

/-! ## Calls of the source -/

/-- The methods of queries, and their variants that take a context. -/
def queryNames : List String := queryMethods ++ queryMethods.map (· ++ "Context")

/-- The call stands in a source file, a query perhaps as the variant that takes a context. -/
def isSource (call : Call) : Bool :=
  match call.callee.target? with
  | some (id, member) => id != 0 || member.any queryNames.contains
  | none => true

def sourceCalls (entries : List (Bool × Call)) : List (Bool × Call) :=
  entries.filter fun entry => isSource entry.2

/-- The call is a generated one of `StartExternalSegment`. -/
def startsSegment (call : Call) : Bool :=
  call.callee.target? == some (0, some "StartExternalSegment")

/-- The number of calls of the source in the copy of a request. -/
def copiesIn (call : Call) : Nat :=
  if startsSegment call then (sourceCalls (callsOfExprs true call.args)).length else 0

def copies : List (Bool × Call) → Nat
  | [] => 0
  | entry :: entries => copiesIn entry.2 + copies entries

/-- The call is the same one, a query perhaps as the variant that takes a context. -/
inductive Persists (call call' : Call) : Prop where
  | same : call'.callee.target? = call.callee.target? → Persists call call'
  | query {id id' : Nat} {method : String} :
      method ∈ queryMethods → call.callee.target? = some (id, some method) →
      call'.callee.target? = some (id', some (method ++ "Context")) → Persists call call'

/-- All calls are there still, and those of the source are more only as far as copies are. -/
structure Balanced (entries entries' : List (Bool × Call)) : Prop where
  kept : Survive Persists entries entries'
  gained : (sourceCalls entries').length + copies entries ≤
    (sourceCalls entries).length + copies entries'

section

variable {call call' call'' : Call} {entries entries' entries'' : List (Bool × Call)}

@[simp]
theorem sourceCalls_nil : sourceCalls [] = [] := rfl

@[simp]
theorem sourceCalls_append (front back : List (Bool × Call)) :
    sourceCalls (front ++ back) = sourceCalls front ++ sourceCalls back :=
  List.filter_append ..

@[simp]
theorem copies_nil : copies [] = 0 := rfl

@[simp]
theorem copies_cons (entry : Bool × Call) (entries : List (Bool × Call)) :
    copies (entry :: entries) = copiesIn entry.2 + copies entries := rfl

@[simp]
theorem copies_append (front back : List (Bool × Call)) :
    copies (front ++ back) = copies front + copies back := by
  induction front with
  | nil => simp
  | cons entry front ih => simp [ih, Nat.add_assoc]

/-- Calls that instrumentation has added. -/
abbrev added : CallTest := fun _ call => isSource call = false

theorem sourceCalls_of_added (h : Holds added entries) : sourceCalls entries = [] :=
  List.filter_eq_nil_iff.2 fun entry hmem => by simpa using h entry hmem

theorem isSource_member {member : String} (hmember : member ∉ queryNames) (operand : Expr)
    (args : List Expr) (spread closesLine : Bool) :
    isSource ⟨.selector operand member, args, spread, closesLine⟩ = false := by
  have hcontains : queryNames.contains member = false := by simpa using hmember
  show (0 != 0 || queryNames.contains member) = false
  rw [hcontains]
  rfl

/-! ### The same call -/

namespace Persists

theorem refl (call : Call) : Persists call call := .same rfl

theorem trans (h : Persists call call') (h' : Persists call' call'') : Persists call call'' := by
  cases h with
  | same hsame =>
      cases h' with
      | same hsame' => exact .same (hsame'.trans hsame)
      | query hmethod hold hnew => exact .query hmethod (hsame ▸ hold) hnew
  | @query _ _ method hmethod hold hnew =>
      cases h' with
      | same hsame' => exact .query hmethod hold (hsame'.trans hnew)
      | @query _ _ method' hmethod' hold' _ =>
          -- no variant is a query of its own
          have hvariants : ∀ method ∈ queryMethods, method ++ "Context" ∉ queryMethods := by decide
          have heq : method ++ "Context" = method' := by
            simpa using congrArg (Option.map Prod.snd) (hnew.symm.trans hold')
          exact absurd (heq ▸ hmethod') (hvariants method hmethod)

theorem isSource_eq (h : Persists call call') : isSource call' = isSource call := by
  cases h with
  | same hsame => simp only [isSource, hsame]
  | @query _ _ method hmethod hold hnew =>
      have hquery : queryNames.contains method = true :=
        List.contains_iff_mem.2 (List.mem_append_left _ hmethod)
      have hvariant : queryNames.contains (method ++ "Context") = true :=
        List.contains_iff_mem.2 (List.mem_append_right _ (List.mem_map_of_mem hmethod))
      simp only [isSource, hold, hnew, Option.any_some, hquery, hvariant, Bool.or_true]

end Persists

/-- Calls that stay one by one are calls of the source before and after. -/
theorem forall₂_sourceCalls
    (h : List.Forall₂ (fun entry entry' => Persists entry.2 entry'.2) entries entries') :
    List.Forall₂ (fun entry entry' => Persists entry.2 entry'.2) (sourceCalls entries)
      (sourceCalls entries') :=
  List.rel_filter (fun _ _ hentry => iff_of_eq (congrArg (· = true) hentry.isSource_eq.symm)) h

theorem survive_sourceCalls (h : Survive Persists entries entries') :
    Survive Persists (sourceCalls entries) (sourceCalls entries') := by
  obtain ⟨kept, hkept, hsublist⟩ := List.sublistForall₂_iff.1 h
  exact List.sublistForall₂_iff.2 ⟨sourceCalls kept, forall₂_sourceCalls hkept, hsublist.filter _⟩

/-- A call copies no less than it did if the calls of its arguments survive. -/
theorem Persists.copiesIn_le (h : Persists call call')
    (hargs : Survive Persists (callsOfExprs true call.args) (callsOfExprs true call'.args)) :
    copiesIn call ≤ copiesIn call' := by
  have hlength : (sourceCalls (callsOfExprs true call.args)).length ≤
      (sourceCalls (callsOfExprs true call'.args)).length := by
    obtain ⟨kept, hkept, hsublist⟩ := List.sublistForall₂_iff.1 (survive_sourceCalls hargs)
    exact hkept.length_eq ▸ hsublist.length_le
  unfold copiesIn startsSegment
  cases h with
  | same hsame =>
      rw [hsame]
      split
      · exact hlength
      · exact Nat.le_refl _
  | @query id _ method hmethod hold _ =>
      have hother : ∀ method ∈ queryMethods, method ≠ "StartExternalSegment" := by decide
      have hstart : (some (id, some method) == some (0, some "StartExternalSegment")) = false := by
        simp [hother method hmethod]
      rw [hold, hstart]
      exact Nat.zero_le _

/-! ## Balance -/

namespace Balanced

theorem refl (entries : List (Bool × Call)) : Balanced entries entries :=
  ⟨.refl Persists.refl _, Nat.le_refl _⟩

theorem trans (h : Balanced entries entries') (h' : Balanced entries' entries'') :
    Balanced entries entries'' := by
  refine ⟨h.kept.trans Persists.trans h'.kept, ?_⟩
  have hgained := h.gained
  have hgained' := h'.gained
  omega

theorem append {back back' : List (Bool × Call)} (h : Balanced entries entries')
    (hback : Balanced back back') : Balanced (entries ++ back) (entries' ++ back') := by
  refine ⟨h.kept.append hback.kept, ?_⟩
  simp only [sourceCalls_append, List.length_append, copies_append]
  have hgained := h.gained
  have hgained' := hback.gained
  omega

/-- A change between two lists of calls that stay. -/
theorem within (h : Balanced entries entries') (front back : List (Bool × Call)) :
    Balanced (front ++ (entries ++ back)) (front ++ (entries' ++ back)) :=
  (refl front).append (h.append (refl back))

theorem of_added (h : Holds added entries) : Balanced [] entries := by
  refine ⟨.nil, ?_⟩
  rw [sourceCalls_of_added h]
  exact Nat.zero_le _

/-- Calls that make none of the source may come behind others. -/
theorem more (front : List (Bool × Call)) (h : Holds added entries) :
    Balanced front (front ++ entries) := by
  have hmore := (refl front).append (of_added h)
  rwa [List.append_nil] at hmore

/-- Calls that make none of the source may come in front of others. -/
theorem behind (h : Holds added entries) (back : List (Bool × Call)) :
    Balanced back (entries ++ back) :=
  (of_added h).append (refl back)

/-- Calls stay one by one, and copy no less than they did. -/
theorem of_forall₂
    (h : List.Forall₂ (fun entry entry' => Persists entry.2 entry'.2) entries entries')
    (hcopies : copies entries ≤ copies entries') : Balanced entries entries' := by
  refine ⟨.of_forall₂ h, ?_⟩
  have hlength := (forall₂_sourceCalls h).length_eq
  omega

/-- Without copies the calls of the source are the ones that they were. -/
theorem exact (h : Balanced entries entries') (hcopies : copies entries' = 0) :
    List.Forall₂ (fun entry entry' => Persists entry.2 entry'.2) (sourceCalls entries)
      (sourceCalls entries') := by
  obtain ⟨kept, hkept, hsublist⟩ := List.sublistForall₂_iff.1 (survive_sourceCalls h.kept)
  have hlength : (sourceCalls entries').length ≤ kept.length := by
    have hgained := h.gained
    rw [← hkept.length_eq]
    omega
  exact hsublist.eq_of_length_le hlength ▸ hkept

/-! ### Calls and what is inside them -/

theorem of_call (hcall : Persists call call')
    (hcallee : Balanced (call.callee.calls true) (call'.callee.calls true))
    (hargs : Balanced (callsOfExprs true call.args) (callsOfExprs true call'.args))
    (decs : Decorations) :
    Balanced ((⟨.call call, decs⟩ : Expr).calls true)
      ((⟨.call call', decs⟩ : Expr).calls true) := by
  have hcopies : copiesIn call ≤ copiesIn call' := hcall.copiesIn_le hargs.kept
  have hentry : Balanced [(true, call)] [(true, call')] :=
    .of_forall₂ (.cons hcall .nil) (by simpa using hcopies)
  rw [Expr.calls_call, Expr.calls_call]
  exact hentry.append (hcallee.append hargs)

/-- The callee stays, and the arguments change. -/
theorem of_args (hcallee : call'.callee = call.callee)
    (hargs : Balanced (callsOfExprs true call.args) (callsOfExprs true call'.args))
    (decs : Decorations) :
    Balanced ((⟨.call call, decs⟩ : Expr).calls true)
      ((⟨.call call', decs⟩ : Expr).calls true) :=
  .of_call (.same (by rw [hcallee])) (by rw [hcallee]; exact refl _) hargs decs

/-- A call that is added comes around calls, and may copy some of them. -/
theorem under {outer : Call} (houter : isSource outer = false)
    (h : Balanced entries (outer.callee.calls true ++ callsOfExprs true outer.args))
    (decs : Decorations) : Balanced entries ((⟨.call outer, decs⟩ : Expr).calls true) := by
  have hentry : Balanced [] [(true, outer)] := of_added (Holds.cons.2 ⟨houter, .nil⟩)
  rw [Expr.calls_call]
  exact hentry.append h

theorem addArg (call : Call) {arg : Expr} (h : Holds added (arg.calls true)) :
    Balanced (callsOfExprs true call.args) (callsOfExprs true (call.addArg arg).args) := by
  rw [Call.addArg, callsOfExprs_append]
  exact more _ (by split <;> simpa using h)

theorem set {args : List Expr} {index : Nat} {arg wrapped : Expr} (harg : args[index]? = some arg)
    (h : Balanced (arg.calls true) (wrapped.calls true)) :
    Balanced (callsOfExprs true args) (callsOfExprs true (args.set index wrapped)) := by
  obtain ⟨hlt, rfl⟩ := List.getElem?_eq_some_iff.1 harg
  have hsplit : args = args.take index ++ args[index] :: args.drop (index + 1) := by simp
  rw [List.set_eq_take_append_cons_drop, if_pos hlt]
  conv => arg 1; rw [hsplit]
  simp only [callsOfExprs_append, callsOfExprs]
  exact h.within _ _

end Balanced

/-! ## What is added -/

/-- A member that no query has the name of is called. -/
theorem added_member {operand : Expr} {member : String} {args : List Expr} {reached : Bool}
    (hmember : member ∉ queryNames) (hoperand : Holds added (operand.calls reached))
    (hargs : Holds added (callsOfExprs reached args)) :
    Holds added ((Expr.call (.selector operand member) args).calls reached) :=
  Expr.holds_call (isSource_member hmember ..) hoperand hargs

theorem added_agent {agent : Expr} {reached : Bool} (h : IsAgent agent) :
    Holds added (agent.calls reached) := by
  cases h with
  | transaction txn => exact added_member (by decide) .nil .nil
  | _ => exact .nil

theorem added_handle {handle : Expr} {reached : Bool} (h : IsHandle handle) :
    Holds added (handle.calls reached) := by
  cases h with
  | goroutine txn => exact added_member (by decide) .nil .nil
  | _ => exact .nil

theorem added_context {ctx : Expr} {reached : Bool} (h : IsContext ctx) :
    Holds added (ctx.calls reached) := by
  cases h with
  | method name => exact added_member (by decide) .nil .nil
  | _ => exact .nil

theorem added_option {grpc option : String} {interceptor : Expr} {reached : Bool}
    (hoption : option ∉ queryNames) (h : Holds added (interceptor.calls reached)) :
    Holds added ((interceptorOption grpc option interceptor).calls reached) :=
  added_member hoption .nil (by simpa using h)

theorem calls_bindVariable (name : String) (value : Expr) (declared : Bool) :
    (bindVariable name value declared).kind.calls true .full = value.calls true := by
  cases declared <;> exact List.append_nil _

/-- The start of a segment has as many copies as it has calls of the source. -/
theorem balanced_external (txn segment : String) (req : Expr) (declared : Bool) :
    Balanced []
      ((startExternalSegment (.ident txn) req segment declared).kind.calls true .full) := by
  have hcalls : (startExternalSegment (.ident txn) req segment declared).kind.calls true .full =
      (true, ⟨newrelic "StartExternalSegment", [.ident txn, req], false, false⟩) ::
        callsOfExprs true [req] := by
    rw [startExternalSegment, calls_bindVariable]
    rfl
  have hsources : sourceCalls ((true, ⟨newrelic "StartExternalSegment", [.ident txn, req], false,
      false⟩) :: callsOfExprs true [req]) = sourceCalls (callsOfExprs true [req]) :=
    List.filter_cons_of_neg (Bool.eq_false_iff.1 (isSource_member (by decide) ..))
  have hcopies : copiesIn ⟨newrelic "StartExternalSegment", [.ident txn, req], false, false⟩ =
      (sourceCalls (callsOfExprs true [req])).length := rfl
  rw [hcalls]
  refine ⟨.nil, ?_⟩
  rw [hsources, copies_cons, hcopies]
  simp

/-- `externalSegment := newrelic.StartExternalSegment(nrTxn, request())` -/
example :
    let request : Expr := .call { kind := .ident { name := "request", id := 1 } } []
    copies ((startExternalSegment (.ident "nrTxn") request "externalSegment" false).kind.calls true
      .full) = 1 := by decide

/-- Whatever is added makes calls of the source only in copies. -/
theorem Addition.balanced {near : List Stmt} {kind : StmtKind} (h : Addition near kind) :
    Balanced [] (kind.calls true .full) := by
  cases h with
  | external txn segment declared _ _ _ => exact balanced_external txn segment _ declared
  | start agent txn name declared =>
      rw [startTransaction, calls_bindVariable]
      exact .of_added (added_member (by decide) .nil (by simp))
  | ending name => exact .of_added (added_member (by decide) .nil .nil)
  | fromContext name hctx =>
      refine .of_added (holds_assign (added_member (by decide) .nil ?_))
      simpa using added_context hctx
  | segment name txn =>
      refine .of_added (added_member (by decide) ?_ .nil)
      exact added_member (by decide) .nil (by simp)
  | newContext name txn declared =>
      rw [calls_bindVariable]
      refine .of_added (added_member (by decide) .nil ?_)
      have hbackground : Holds added
          ((Expr.call (.qualified "context" "Background") []).calls true) :=
        added_member (by decide) .nil .nil
      simpa [bare] using hbackground
  | response segment name => exact .of_added .nil
  | request txn hreq =>
      have hname : Holds added (Expr.calls true _) := holds_of_isName hreq.isName
      have hcall : Holds added ((Expr.call (newrelic "RequestWithTransactionContext")
          [_, .ident txn]).calls true) :=
        added_member (by decide) .nil (by simpa using hname)
      refine .of_added (show Holds added (callsOfExprs true [_] ++ callsOfExprs true [_]) from ?_)
      simpa using ⟨hname, hcall⟩
  | @roundTripper after client hclient =>
      have htransport : Holds added ((Expr.selector client "Transport").calls true) := by
        show Holds added (client.calls true)
        exact holds_of_isName hclient.isName
      have hcall : Holds added ((Expr.call (newrelic "NewRoundTripper") [_]).calls true) :=
        added_member (by decide) .nil (by simpa using htransport)
      refine .of_added (show Holds added (callsOfExprs true [_] ++ callsOfExprs true [_]) from ?_)
      simpa using ⟨htransport, hcall⟩
  | middleware package hrouter hagent =>
      refine .of_added (added_member (by decide) (holds_of_isName hrouter.isName) ?_)
      refine holds_exprs_cons.2 ⟨added_member (by decide) .nil ?_, .nil⟩
      simpa using added_agent hagent
  | logHandler name handler declared hagent =>
      rw [calls_bindVariable]
      refine .of_added (added_member (by decide) .nil ?_)
      simpa using added_agent hagent
  | notice txn herr =>
      refine .of_added (added_member (by decide) .nil ?_)
      simpa [bare] using holds_of_isName herr.isName

/-! ## Calls that change -/

theorem balanced_newContext (arg : Expr) {txn : Expr} (h : Holds added (txn.calls true))
    (decs : Decorations) :
    Balanced (arg.calls true) (({ newContext arg txn with decs } : Expr).calls true) := by
  refine .under (isSource_member (by decide) ..) ?_ decs
  show Balanced _ ([] ++ ((bare arg).calls true ++ (txn.calls true ++ [])))
  rw [List.nil_append, List.append_nil, calls_bare]
  exact .more _ h

theorem Passes.balanced {info : Info} {list : FieldList} {mayExtend : Bool} {passing : Passing}
    (h : Passes info list call mayExtend passing) :
    Balanced (callsOfExprs true call.args) (callsOfExprs true passing.call.args) := by
  cases h with
  | same hcall _ =>
      rw [hcall]
      exact .refl _
  | fills hhandle _ _ hcall _ =>
      rw [hcall]
      exact .addArg call (added_handle hhandle)
  | wraps hhandle _ harg hcall _ =>
      rw [hcall]
      exact .set harg (balanced_newContext _ (added_handle hhandle) _)
  | grows hhandle _ _ hcall _ _ =>
      rw [hcall]
      exact .addArg call (added_handle hhandle)

theorem Hooks.balanced {info : Info} (hooks : Hooks info call call') :
    Balanced (callsOfExprs true call.args) (callsOfExprs true call'.args) := by
  cases hooks with
  | handler _ hagent hwrap =>
      unfold wrapHandler? at hwrap
      split at hwrap
      · next pattern handler hargs =>
        split at hwrap
        · contradiction
        · obtain rfl := Option.some.inj hwrap
          have hwrapper : handlerWrapper call ∉ queryNames := by
            unfold handlerWrapper
            split <;> decide
          rw [hargs]
          simp only [callsOfExprs, List.append_nil]
          refine .under (isSource_member hwrapper ..) ?_ _
          show Balanced _ ([] ++ callsOfExprs true [_, _, _])
          simp only [callsOfExprs, List.nil_append, List.append_nil, Expr.calls_redecorate]
          exact .behind (added_agent hagent) _
      · contradiction
  | client _ =>
      exact (Balanced.addArg call (added_option (by decide) .nil)).trans
        (.addArg _ (added_option (by decide) .nil))
  | server _ hagent =>
      have hinterceptor : ∀ name, name ∉ queryNames →
          Holds added ((Expr.call (.qualified "nrgrpc" name) [_]).calls true) :=
        fun name hname => added_member hname .nil (by simpa using added_agent hagent)
      exact (Balanced.addArg call (added_option (by decide) (hinterceptor _ (by decide)))).trans
        (.addArg _ (added_option (by decide) (hinterceptor _ (by decide))))
  | logger _ hagent =>
      unfold wrapFirstArg
      split
      · exact .refl _
      · next handler args hargs =>
        rw [hargs]
        simp only [callsOfExprs]
        refine .append (.under (isSource_member (by decide) ..) ?_ _) (.refl _)
        show Balanced _ ([] ++ callsOfExprs true [_, _])
        simp only [callsOfExprs, calls_bare, List.nil_append, List.append_nil]
        exact .behind (added_agent hagent) _

theorem Hands.balanced {app : Application} {ref : FuncRef} {passing : Passing}
    (hands : Hands app call ref passing) (decs : Decorations) :
    Balanced ((⟨.call call, decs⟩ : Expr).calls true)
      ((⟨.call passing.call, decs⟩ : Expr).calls true) := by
  refine .of_args hands.callee_eq ?_ decs
  obtain ⟨func, carrier, async, txn, -, rfl⟩ := hands.passes
  exact (carrier.passes ..).balanced

theorem Adjusts.balanced {app : Application} {part part' : Expr} (h : Adjusts app part part') :
    Balanced (part.calls true) (part'.calls true) := by
  cases h with
  | rename ident decs _ => exact .refl []
  | @hook _ _ decs hooks => exact .of_args hooks.callee_eq hooks.balanced decs
  | @pass _ _ _ decs hands _ => exact hands.balanced decs

/-- The variant of a query calls a member of another name, and what it called before. -/
theorem balanced_query {info : Info} {callee : Callee} {method : String}
    (hcallee : info.callee? call = some callee) (hname : callee.name = method)
    (hmethod : method ∈ queryMethods) (decs : Decorations) :
    Balanced ((⟨.call call, decs⟩ : Expr).calls true)
      ((⟨.call (queryWithContext method call), decs⟩ : Expr).calls true) := by
  have hargs : Balanced (callsOfExprs true call.args)
      (callsOfExprs true (queryWithContext method call).args) := .refl _
  have hoperand : (queryWithContext method call).callee.calls true = call.callee.calls true := by
    obtain ⟨⟨kind, calleeDecs⟩, args, spread, closesLine⟩ := call
    cases kind <;> rfl
  refine .of_call ?_ (by rw [hoperand]; exact .refl _) hargs decs
  obtain ⟨⟨kind, calleeDecs⟩, args, spread, closesLine⟩ := call
  cases kind with
  | selector operand member =>
      have hmember : member.name = method := (callee?_name rfl hcallee).symm.trans hname
      exact .query hmethod (congrArg (fun name => some (member.id, some name)) hmember) rfl
  | _ => exact .same rfl

/-- A literal is called still when its parameters or its body have changed. -/
theorem balanced_literal {params params' : FieldList} {results : Option Results}
    {body body' : Block} {args args' : List Expr} {spread closesLine : Bool}
    {decs callDecs : Decorations}
    (hbody : Balanced (callsOfStmts true body.stmts) (callsOfStmts true body'.stmts))
    (hargs : Balanced (callsOfExprs true args) (callsOfExprs true args')) :
    Balanced
      ((⟨.call ⟨⟨.func params results body, decs⟩, args, spread, closesLine⟩, callDecs⟩ :
        Expr).calls true)
      ((⟨.call ⟨⟨.func params' results body', decs⟩, args', spread, closesLine⟩, callDecs⟩ :
        Expr).calls true) := by
  obtain ⟨stmts, trailing, inline⟩ := body
  obtain ⟨stmts', trailing', inline'⟩ := body'
  have hcall : Persists
      ⟨⟨.func params results ⟨stmts, trailing, inline⟩, decs⟩, args, spread, closesLine⟩
      ⟨⟨.func params' results ⟨stmts', trailing', inline'⟩, decs⟩, args', spread, closesLine⟩ :=
    .same rfl
  exact .of_call hcall hbody hargs callDecs

theorem SpawnedLiteral.balanced (literal : SpawnedLiteral) (txn : String) :
    Balanced (literal.kind.calls true .full) ((literal.handed txn).kind.calls true .full) :=
  balanced_literal (.refl _) (.addArg literal.call (added_handle (.goroutine txn)))

end

/-! ## Changes around a part -/

section

variable {literals : Bool} {part part' : Expr} {entries entries' : List (Bool × Call)}

theorem Persists.around (hpart : part.Adjusts part') {entry entry' : Bool × Call}
    (h : Around literals part part' entry entry') : Persists entry.2 entry'.2 := by
  cases h with
  | same _ => exact .refl _
  | callee h => exact .same (h.target?_eq hpart)
  | arg _ => exact .same rfl

/-- A request around the part calls no less than it did. -/
theorem copiesIn_around (hpart : part.Adjusts part')
    (hkept : Survive Persists (part.calls true) (part'.calls true)) {entry entry' : Bool × Call}
    (h : Around literals part part' entry entry') : copiesIn entry.2 ≤ copiesIn entry'.2 := by
  refine (Persists.around hpart h).copiesIn_le ?_
  cases h with
  | same _ => exact .refl Persists.refl _
  | callee _ => exact .refl Persists.refl _
  | arg h =>
      simp only [callsOfExprs_append, callsOfExprs]
      refine .append (.refl Persists.refl _) (.append ?_ (.refl Persists.refl _))
      exact h.calls.survive Persists.refl hkept (Persists.around hpart)

theorem balanced_of_change (hpart : part.Adjusts part')
    (hbalanced : Balanced (part.calls true) (part'.calls true))
    (h : CallsChange literals part part' entries entries') : Balanced entries entries' := by
  obtain ⟨front, front', back, rfl, rfl, hfront⟩ := h
  have hcopies : copies front ≤ copies front' := by
    clear back
    induction hfront with
    | nil => exact Nat.le_refl _
    | cons hentry _ ih =>
        rw [copies_cons, copies_cons]
        exact Nat.add_le_add (copiesIn_around hpart hbalanced.kept hentry) ih
  refine .append (.of_forall₂ (hfront.imp fun _ _ => Persists.around hpart) hcopies) ?_
  exact hbalanced.append (.refl back)

theorem balanced_of_nests {stmts stmts' : List Stmt} {kind kind' : StmtKind}
    (h : StmtKind.Nests stmts stmts' kind kind')
    (hstmts : Balanced (callsOfStmts true stmts) (callsOfStmts true stmts')) :
    Balanced (kind.calls true .full) (kind'.calls true .full) := by
  cases h with
  | block h =>
      obtain ⟨front, back, hold, hnew⟩ := h.calls .full rfl
      rw [hold, hnew]
      exact hstmts.within front back
  | spawned => exact balanced_literal hstmts (.refl _)

end

/-! ## Weaving -/

theorem Weaves.balanced {app app' : Application} {stmts stmts' : List Stmt}
    (h : Weaves app stmts app' stmts') :
    Balanced (callsOfStmts true stmts) (callsOfStmts true stmts') := by
  induction h with
  | trans _ _ ih ih' => exact ih.trans ih'
  | dress front back _ =>
      simp only [callsOfStmts_append, callsOfStmts_cons]
      exact .refl _
  | adjust hadjusts hrewrite =>
      exact balanced_of_change hadjusts.adjusts hadjusts.balanced hrewrite.calls
  | query front back method hcall hcallee _ hname hmethod =>
      obtain ⟨before, decs, hold, hnew⟩ := calls_mapPrimaryCall hcall (queryWithContext method)
      simp only [callsOfStmts_append, callsOfStmts_cons, hold, hnew, List.append_assoc]
      refine (Balanced.refl _).append ((Balanced.refl _).append ?_)
      exact (balanced_query hcallee hname hmethod decs).append (.refl _)
  | hand front back literal txn hkind _ =>
      simp only [callsOfStmts_append, callsOfStmts_cons, hkind]
      exact (literal.balanced txn).within _ _
  | insert front back haddition =>
      simp only [callsOfStmts_append, callsOfStmts_cons]
      exact haddition.balanced.within _ _
  | precede front back haddition _ _ =>
      simp only [callsOfStmts_append, callsOfStmts_cons]
      exact haddition.balanced.within _ _
  | nested front back hnests _ ih =>
      simp only [callsOfStmts_append, callsOfStmts_cons]
      exact (balanced_of_nests hnests ih).within _ _
  | insertInside front back hnests haddition =>
      simp only [callsOfStmts_append, callsOfStmts_cons]
      refine (balanced_of_nests hnests ?_).within _ _
      rw [callsOfStmts_cons]
      exact haddition.balanced.append (.refl _)
  | @enter _ _ _ _ _ _ _ _ _ decs hands _ _ hrewrite _ _ _ =>
      exact balanced_of_change (.call hands.callee_eq) (hands.balanced decs) hrewrite.calls
  | _ => exact .refl _

theorem added_agentInit (agent appName : String) :
    Holds added (callsOfStmts true (agentInit agent appName)) := by
  have hmembers : ∀ name ∈ ["NewApplication", "ConfigAppName", "ConfigFromEnvironment"],
      name ∉ queryNames := by decide
  exact holds_agentInit agent appName
    (fun name hname _ hargs => added_member (hmembers name hname) .nil hargs)
    (Expr.holds_call rfl .nil (by simp))

theorem SetsUp.balanced {agent appName : String} {stmts stmts' : List Stmt}
    (h : SetsUp agent appName stmts stmts') :
    Balanced (callsOfStmts true stmts) (callsOfStmts true stmts') := by
  cases h with
  | existing => exact .refl _
  | fresh =>
      have hshutdown : Holds added (callsOfStmts true [agentShutdown agent]) := by
        rw [callsOfStmts_cons, Holds.append]
        exact ⟨added_member (by decide) .nil .nil, .nil⟩
      rw [callsOfStmts_append, callsOfStmts_append, calls_lowerRedeclarations]
      exact (Balanced.behind (added_agentInit agent appName) _).trans (.more _ hshutdown)

/-! ## Bodies -/

theorem balanced_withstands (body : Block) :
    Withstands (fun _ => True) fun body' =>
      Balanced (callsOfStmts true body.stmts) (callsOfStmts true body'.stmts) where
  grows _ _ h := h
  setBody _ _ h := h
  weaves _ _ _ hweaves h := h.trans hweaves.balanced
  setsUp hsetsUp h := h.trans hsetsUp.balanced

end TraceWeave.Tracing
