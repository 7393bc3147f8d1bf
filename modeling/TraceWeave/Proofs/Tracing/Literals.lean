import TraceWeave.Proofs.Tracing.Passing
import TraceWeave.Proofs.Tracing.Values

/-!
The parameter lists of function literals.

Weaving writes no function literal of its own and leaves the parameters of those that it finds
alone, but for spawned literals that get a transaction, which it hands to each of them once
(`Weaves.literals`).
-/

namespace TraceWeave.Tracing

open TraceWeave.Agent TraceWeave.Detect TraceWeave.Program TraceWeave.Syntax TraceWeave.Types

/-! ## Lists of parameters -/

def literalParams? (expr : Expr) : Option FieldList :=
  match expr.kind with
  | .func params _ _ => some params
  | _ => none

/-- The parameter lists of the function literals among the expressions. -/
def literalLists (all : List (Bool × Expr)) : List FieldList :=
  all.filterMap fun occurrence => literalParams? occurrence.2

/-- The list has stayed, or has gained a transaction behind its last parameter. -/
def Gains (info : Info) (list list' : FieldList) : Prop :=
  list' = list ∨ list.isVariadic = false ∧ transactionParam? info list = none ∧
    list' = list.add (transactionParameter transactionVariable)

/-- Every list among the second expressions has come from one among the first. -/
def Follows (info : Info) (all all' : List (Bool × Expr)) : Prop :=
  ∀ list' ∈ literalLists all', ∃ list ∈ literalLists all, Gains info list list'

section

variable {info : Info}

@[simp]
theorem literalLists_append (front back : List (Bool × Expr)) :
    literalLists (front ++ back) = literalLists front ++ literalLists back :=
  List.filterMap_append

@[simp]
theorem literalLists_nil : literalLists [] = [] := rfl

theorem literalLists_mono {front back : List (Bool × Expr)} (h : front ⊆ back) :
    literalLists front ⊆ literalLists back := by
  intro list hlist
  obtain ⟨occurrence, hmem, hsome⟩ := List.mem_filterMap.1 hlist
  exact List.mem_filterMap.2 ⟨occurrence, h hmem, hsome⟩

/-- A list that has a parameter for a transaction gains none. -/
theorem Gains.trans (hskips : SkipsGenerated info) {list list' list'' : FieldList}
    (h : Gains info list list') (h' : Gains info list' list'') : Gains info list list'' := by
  obtain rfl | ⟨hvariadic, hlacks, rfl⟩ := h
  · exact h'
  · obtain rfl | ⟨-, hnone, -⟩ := h'
    · exact .inr ⟨hvariadic, hlacks, rfl⟩
    · obtain ⟨ident, expr, hmem, -, -, htype⟩ := hasParam_add hskips list
      have hfound := List.findSome?_eq_none_iff.1 hnone _ hmem
      simp [htype] at hfound

namespace Follows

variable {all all' all'' front front' back back' : List (Bool × Expr)}

theorem of_subset (h : literalLists all' ⊆ literalLists all) : Follows info all all' :=
  fun list' hmem => ⟨list', h hmem, .inl rfl⟩

theorem refl : Follows info all all := of_subset fun _ h => h

theorem append (h : Follows info front front') (h' : Follows info back back') :
    Follows info (front ++ back) (front' ++ back') := by
  intro list' hmem
  rw [literalLists_append] at hmem ⊢
  obtain hmem | hmem := List.mem_append.1 hmem
  · obtain ⟨list, hlist, hgains⟩ := h list' hmem
    exact ⟨list, List.mem_append_left _ hlist, hgains⟩
  · obtain ⟨list, hlist, hgains⟩ := h' list' hmem
    exact ⟨list, List.mem_append_right _ hlist, hgains⟩

theorem trans (hskips : SkipsGenerated info) (h : Follows info all all')
    (h' : Follows info all' all'') : Follows info all all'' := by
  intro list'' hmem
  obtain ⟨list', hlist', hgains'⟩ := h' list'' hmem
  obtain ⟨list, hlist, hgains⟩ := h list' hlist'
  exact ⟨list, hlist, hgains.trans hskips hgains'⟩

/-- What is inserted holds no literal but those that stand near it. -/
theorem insert {added : List (Bool × Expr)}
    (h : literalLists added ⊆ literalLists (front ++ back)) :
    Follows info (front ++ back) (front ++ (added ++ back)) := by
  refine of_subset fun list hlist => ?_
  have hadded := @h list
  simp only [literalLists_append, List.mem_append] at hlist hadded ⊢
  tauto

end Follows

/-! ## Changes of expressions -/

theorem literalLists_occurrences (called : Bool) (expr : Expr) :
    literalLists (expr.occurrences called) =
      (literalParams? expr).toList ++ literalLists (expr.kind.occurrences called) := by
  obtain ⟨kind, decs⟩ := expr
  rw [Expr.occurrences, literalLists, List.filterMap_cons]
  dsimp only
  split <;> rename_i h <;> rw [h] <;> rfl

/-- Another expression has come in its place: if it is a literal, then with its parameters. -/
structure ExprFollows (info : Info) (expr expr' : Expr) : Prop where
  own : literalParams? expr' = literalParams? expr
  inside : ∀ called, Follows info (expr.kind.occurrences called) (expr'.kind.occurrences called)

theorem ExprFollows.refl {expr : Expr} : ExprFollows info expr expr := ⟨rfl, fun _ => .refl⟩

theorem ExprFollows.whole {expr expr' : Expr} (h : ExprFollows info expr expr') (called : Bool) :
    Follows info (expr.occurrences called) (expr'.occurrences called) := by
  intro list' hmem
  rw [literalLists_occurrences] at hmem ⊢
  obtain hown | hinside := List.mem_append.1 hmem
  · exact ⟨list', List.mem_append_left _ (h.own ▸ hown), .inl rfl⟩
  · obtain ⟨list, hlist, hgains⟩ := h.inside called list' hinside
    exact ⟨list, List.mem_append_right _ hlist, hgains⟩

theorem follows_exprs (front back : List Expr) {expr expr' : Expr}
    (h : Follows info (expr.occurrences false) (expr'.occurrences false)) :
    Follows info (occurrencesOfExprs (front ++ expr :: back))
      (occurrencesOfExprs (front ++ expr' :: back)) := by
  rw [occurrencesOfExprs_append, occurrencesOfExprs_append]
  exact .append .refl (.append h .refl)

theorem follows_stmts (front back : List Stmt) {stmt stmt' : Stmt}
    (h : Follows info stmt.kind.occurrences stmt'.kind.occurrences) :
    Follows info (occurrencesOfStmts (front ++ stmt :: back))
      (occurrencesOfStmts (front ++ stmt' :: back)) := by
  simp only [occurrencesOfStmts_append, occurrencesOfStmts_cons]
  exact .append .refl (.append h .refl)

theorem follows_clauses (front back : List Clause) {head : String} {stmts stmts' : List Stmt}
    {trailing : List String} {decs : Decorations}
    (h : Follows info (occurrencesOfStmts stmts) (occurrencesOfStmts stmts')) :
    Follows info (occurrencesOfClauses (front ++ ⟨head, stmts, trailing, decs⟩ :: back))
      (occurrencesOfClauses (front ++ ⟨head, stmts', trailing, decs⟩ :: back)) := by
  rw [occurrencesOfClauses_append, occurrencesOfClauses_append]
  exact .append .refl (.append h .refl)

theorem exprFollows_call {call call' : Call} (hcallee : ExprFollows info call.callee call'.callee)
    (hargs : Follows info (occurrencesOfExprs call.args) (occurrencesOfExprs call'.args))
    (decs : Decorations) : ExprFollows info ⟨.call call, decs⟩ ⟨.call call', decs⟩ := by
  cases call
  cases call'
  exact ⟨rfl, fun _ => (hcallee.whole true).append hargs⟩

theorem follows_cond {init init' alternative alternative' : Option Stmt} {test test' : Expr}
    {body body' : Block}
    (hinit : Follows info (occurrencesOfOptional init) (occurrencesOfOptional init'))
    (htest : Follows info (test.occurrences false) (test'.occurrences false))
    (hbody : Follows info (occurrencesOfStmts body.stmts) (occurrencesOfStmts body'.stmts))
    (halternative : Follows info (occurrencesOfOptional alternative)
      (occurrencesOfOptional alternative')) :
    Follows info (StmtKind.cond init test body alternative).occurrences
      (StmtKind.cond init' test' body' alternative').occurrences := by
  cases body
  cases body'
  exact hinit.append (htest.append (hbody.append halternative))

theorem follows_loop {header header' : LoopHeader} {body body' : Block}
    (hheader : Follows info header.occurrences header'.occurrences)
    (hbody : Follows info (occurrencesOfStmts body.stmts) (occurrencesOfStmts body'.stmts)) :
    Follows info (StmtKind.loop header body).occurrences
      (StmtKind.loop header' body').occurrences := by
  cases body
  cases body'
  exact hheader.append hbody

section

variable {literals : Bool} {part part' : Expr}

mutual

theorem follows_of_rewrites (hpart : ExprFollows info part part') :
    ∀ {expr expr' : Expr}, Expr.Rewrites literals part part' expr expr' →
      ExprFollows info expr expr'
  | _, _, .here => hpart
  | _, _, .selector h => ⟨rfl, fun _ => (follows_of_rewrites hpart h).whole false⟩
  | _, _, .star h => ⟨rfl, fun _ => (follows_of_rewrites hpart h).whole false⟩
  | _, _, .unary h => ⟨rfl, fun _ => (follows_of_rewrites hpart h).whole false⟩
  | _, _, .paren h => ⟨rfl, fun called => (follows_of_rewrites hpart h).whole called⟩
  | _, _, .left h => ⟨rfl, fun _ => .append ((follows_of_rewrites hpart h).whole false) .refl⟩
  | _, _, .right h => ⟨rfl, fun _ => .append .refl ((follows_of_rewrites hpart h).whole false)⟩
  | _, _, .callee h => ⟨rfl, fun _ => .append ((follows_of_rewrites hpart h).whole true) .refl⟩
  | _, _, .arg h => ⟨rfl, fun _ =>
      .append .refl (follows_exprs _ _ ((follows_of_rewrites hpart h).whole false))⟩
  | _, _, .operand h => ⟨rfl, fun _ => .append ((follows_of_rewrites hpart h).whole false) .refl⟩
  | _, _, .index h => ⟨rfl, fun _ =>
      .append .refl (follows_exprs _ _ ((follows_of_rewrites hpart h).whole false))⟩
  | _, _, .body _ h => ⟨rfl, fun _ => follows_of_stmtsRewrite hpart h⟩

theorem follows_of_kindRewrites (hpart : ExprFollows info part part') :
    ∀ {scope : EditScope} {kind kind' : StmtKind},
      StmtKind.Rewrites literals part part' scope kind kind' →
        Follows info kind.occurrences kind'.occurrences
  | _, _, _, .expr _ h => (follows_of_rewrites hpart h).whole false
  | _, _, _, .spawn _ h => (follows_of_rewrites hpart h).whole false
  | _, _, _, .defer _ h => (follows_of_rewrites hpart h).whole false
  | _, _, _, .target _ h =>
      .append (follows_exprs _ _ ((follows_of_rewrites hpart h).whole false)) .refl
  | _, _, _, .value _ h =>
      .append .refl (follows_exprs _ _ ((follows_of_rewrites hpart h).whole false))
  | _, _, _, .result _ h => follows_exprs _ _ ((follows_of_rewrites hpart h).whole false)
  | _, _, _, .init _ h => follows_cond (follows_of_kindRewrites hpart h) .refl .refl .refl
  | _, _, _, .test _ h =>
      follows_cond .refl ((follows_of_rewrites hpart h).whole false) .refl .refl
  | _, _, _, .branch _ h => follows_cond .refl .refl (follows_of_stmtsRewrite hpart h) .refl
  | _, _, _, .alternative _ h => follows_cond .refl .refl .refl (follows_of_kindRewrites hpart h)
  | _, _, _, .loopTest _ h => follows_loop ((follows_of_rewrites hpart h).whole false) .refl
  | _, _, _, .range _ h => follows_loop
      (.append .refl (.append .refl ((follows_of_rewrites hpart h).whole false))) .refl
  | _, _, _, .loopBody _ h => follows_loop .refl (follows_of_stmtsRewrite hpart h)
  | _, _, _, .switchClause _ h => follows_clauses _ _ (follows_of_stmtsRewrite hpart h)
  | _, _, _, .selectClause _ h => follows_clauses _ _ (follows_of_stmtsRewrite hpart h)
  | _, _, _, .block _ h => follows_of_stmtsRewrite hpart h
  | _, _, _, .labeled h => by
      have ih := follows_of_kindRewrites hpart h
      exact ih

theorem follows_of_stmtsRewrite (hpart : ExprFollows info part part') :
    ∀ {stmts stmts' : List Stmt}, StmtsRewrite literals part part' stmts stmts' →
      Follows info (occurrencesOfStmts stmts) (occurrencesOfStmts stmts')
  | _, _, .within front h => follows_stmts front _ (follows_of_kindRewrites hpart h)

end

end

/-! ## Changes of lists inside -/

/-- The literals of a list inside stand among those of the statement. -/
theorem literals_of_nests {stmts stmts' : List Stmt} {kind kind' : StmtKind}
    (h : StmtKind.Nests stmts stmts' kind kind') :
    ∃ before after,
      literalLists kind.occurrences =
        before ++ (literalLists (occurrencesOfStmts stmts) ++ after) ∧
      literalLists kind'.occurrences =
        before ++ (literalLists (occurrencesOfStmts stmts') ++ after) := by
  cases h with
  | block hreplaces =>
      obtain ⟨before, after, hkind, hkind'⟩ := StmtKind.Replaces.occurrences hreplaces
      refine ⟨literalLists before, literalLists after, ?_, ?_⟩ <;> simp [hkind, hkind']
  | @spawned params _ _ _ _ _ args =>
      -- the spawned literal itself stands in front of those in its body
      refine ⟨[params], literalLists (occurrencesOfExprs args), ?_, ?_⟩ <;>
        exact congrArg (params :: ·) (literalLists_append _ _)

theorem follows_of_nests {stmts stmts' : List Stmt} {kind kind' : StmtKind}
    (h : StmtKind.Nests stmts stmts' kind kind')
    (hstmts : Follows info (occurrencesOfStmts stmts) (occurrencesOfStmts stmts')) :
    Follows info kind.occurrences kind'.occurrences := by
  obtain ⟨before, after, hkind, hkind'⟩ := literals_of_nests h
  intro list' hmem
  simp only [hkind, hkind', List.mem_append] at hmem ⊢
  obtain hmem | hmem | hmem := hmem
  · exact ⟨list', .inl hmem, .inl rfl⟩
  · obtain ⟨list, hlist, hgains⟩ := hstmts list' hmem
    exact ⟨list, .inr (.inl hlist), hgains⟩
  · exact ⟨list', .inr (.inr hmem), .inl rfl⟩

/-! ## What instrumentation writes -/

theorem literalLists_redecorate (expr : Expr) (decs : Decorations) (called : Bool) :
    literalLists (Expr.occurrences called { expr with decs }) =
      literalLists (expr.occurrences called) := by
  obtain ⟨kind, _⟩ := expr
  rfl

theorem literalLists_addArg (call : Call) (arg : Expr) :
    literalLists (occurrencesOfExprs (call.addArg arg).args) =
      literalLists (occurrencesOfExprs call.args) ++ literalLists (arg.occurrences false) := by
  simp only [Call.addArg, occurrencesOfExprs_append, occurrencesOfExprs, literalLists_append,
    List.append_nil]
  split
  · rw [literalLists_redecorate]
  · rfl

theorem IsAgent.noLiterals {agent : Expr} (h : IsAgent agent) :
    literalLists (agent.occurrences false) = [] := by
  cases h <;> rfl

theorem IsHandle.noLiterals {handle : Expr} (h : IsHandle handle) :
    literalLists (handle.occurrences false) = [] := by
  cases h <;> rfl

theorem literalLists_call (callee : Expr) (args : List Expr) (called : Bool) :
    literalLists ((Expr.call callee args).occurrences called) =
      literalLists (callee.occurrences true) ++ literalLists (occurrencesOfExprs args) := by
  rw [← literalLists_append]
  cases called <;> rfl

theorem literalLists_qualified (package name : String) (called : Bool) :
    literalLists ((Expr.qualified package name).occurrences called) = [] := rfl

theorem literalLists_newContext (ctx txn : Expr) (called : Bool) :
    literalLists ((newContext ctx txn).occurrences called) =
      literalLists (ctx.occurrences false) ++ literalLists (txn.occurrences false) := by
  simp [newContext, newrelic, literalLists_call, literalLists_qualified, occurrencesOfExprs, bare,
    literalLists_redecorate]

/-- Nothing that is inserted has a literal but in an expression that stands near it. -/
theorem Addition.literals {near : List Stmt} {kind : StmtKind} (h : Addition near kind) :
    literalLists kind.occurrences ⊆ literalLists (occurrencesOfStmts near) := by
  have hnone : ∀ {kind : StmtKind}, literalLists kind.occurrences = [] →
      literalLists kind.occurrences ⊆ literalLists (occurrencesOfStmts near) := by
    intro kind hnil
    simp [hnil]
  cases h with
  | start agent txn name declared => exact hnone (by cases declared <;> rfl)
  | ending name => exact hnone rfl
  | fromContext name hctx => exact hnone (by cases hctx <;> rfl)
  | segment name txn => exact hnone rfl
  | newContext name txn declared => exact hnone (by cases declared <;> rfl)
  | @external txn segment declared stmt call req hstmt hcall hreq =>
      have hnear : literalLists (req.occurrences false) ⊆ literalLists (occurrencesOfStmts near) :=
        literalLists_mono
          (List.Subset.trans (arg_occurrences_subset hcall hreq) (occurrences_subset_stmts hstmt))
      have hsame : literalLists (startExternalSegment (.ident txn) (bare req) segment
          declared).kind.occurrences = literalLists (req.occurrences false ++ [] ++ []) := by
        obtain ⟨kind, decs⟩ := req
        cases declared <;> rfl
      rwa [hsame, List.append_nil, List.append_nil]
  | response segment name => exact hnone rfl
  | request txn hreq =>
      obtain ⟨ident, decs, decs', rfl, -⟩ := hreq
      exact hnone rfl
  | roundTripper after hclient =>
      obtain ⟨ident, decs, decs', rfl, -⟩ := hclient
      exact hnone rfl
  | middleware package hrouter hagent =>
      obtain ⟨ident, decs, decs', rfl, -⟩ := hrouter
      exact hnone (by cases hagent <;> rfl)
  | logHandler name handler declared hagent =>
      exact hnone (by cases hagent <;> cases declared <;> rfl)
  | notice txn herr =>
      obtain ⟨ident, decs, decs', rfl, -⟩ := herr
      exact hnone rfl

/-! ## Changes of calls -/

theorem Passes.follows {info' : Info} {list : FieldList} {call : Call} {mayExtend : Bool}
    {passing : Passing} (h : Passes info' list call mayExtend passing) :
    Follows info (occurrencesOfExprs call.args) (occurrencesOfExprs passing.call.args) := by
  have hadd : ∀ {arg : Expr}, IsHandle arg →
      Follows info (occurrencesOfExprs call.args) (occurrencesOfExprs (call.addArg arg).args) := by
    intro arg harg
    refine .of_subset ?_
    rw [literalLists_addArg, harg.noLiterals, List.append_nil]
    exact fun _ h => h
  cases h with
  | same hcall _ =>
      rw [hcall]
      exact .refl
  | fills hhandle _ _ hcall _ =>
      rw [hcall]
      exact hadd hhandle
  | grows hhandle _ _ hcall _ _ =>
      rw [hcall]
      exact hadd hhandle
  | @wraps index arg txn hhandle _ harg hcall _ =>
      rw [hcall]
      obtain ⟨hlt, rfl⟩ := List.getElem?_eq_some_iff.1 harg
      have hsplit : call.args =
          call.args.take index ++ call.args[index] :: call.args.drop (index + 1) := by simp
      dsimp only
      rw [List.set_eq_take_append_cons_drop, if_pos hlt]
      conv => arg 2; rw [hsplit]
      refine follows_exprs _ _ (.of_subset ?_)
      rw [literalLists_redecorate, literalLists_newContext, hhandle.noLiterals, List.append_nil]
      exact fun _ h => h

theorem Hands.exprFollows {app : Application} {call : Call} {ref : FuncRef} {passing : Passing}
    (hands : Hands app call ref passing) (decs : Decorations) :
    ExprFollows info ⟨.call call, decs⟩ ⟨.call passing.call, decs⟩ := by
  have hcallee := hands.callee_eq
  obtain ⟨func, carrier, async, txn, -, rfl⟩ := hands.passes
  refine exprFollows_call ?_ (carrier.passes ..).follows decs
  rw [hcallee]
  exact .refl

theorem Hooks.follows {info' : Info} {call call' : Call} (h : Hooks info' call call') :
    Follows info (occurrencesOfExprs call.args) (occurrencesOfExprs call'.args) := by
  have hcall := literalLists_call
  have hqualified := literalLists_qualified
  refine .of_subset ?_
  cases h with
  | handler _ hagent hwrap =>
      unfold wrapHandler? at hwrap
      split at hwrap
      · next pattern handler hargs =>
        split at hwrap
        · contradiction
        · obtain rfl := Option.some.inj hwrap
          simp [hargs, occurrencesOfExprs, literalLists_redecorate, newrelic, hcall, hqualified,
            hagent.noLiterals]
      · contradiction
  | client _ =>
      simp [addClientInterceptors, literalLists_addArg, interceptorOption, hcall, hqualified,
        occurrencesOfExprs]
  | server _ hagent =>
      simp [addServerInterceptors, literalLists_addArg, interceptorOption, hcall, hqualified,
        occurrencesOfExprs, hagent.noLiterals]
  | logger _ hagent =>
      unfold wrapFirstArg
      split
      · exact fun _ h => h
      · next handler args hargs =>
        simp [hargs, occurrencesOfExprs, literalLists_redecorate, wrapLogHandler, bare, hcall,
          hqualified, hagent.noLiterals]

theorem Adjusts.exprFollows {app : Application} {expr expr' : Expr} (h : Adjusts app expr expr') :
    ExprFollows info expr expr' := by
  cases h with
  | rename ident decs _ => exact ⟨rfl, fun _ => .refl⟩
  | hook hooks =>
      refine exprFollows_call ?_ hooks.follows _
      rw [hooks.callee_eq]
      exact .refl
  | pass hands _ => exact hands.exprFollows _

theorem queryWithContext_exprFollows (method : String) (call : Call) (decs : Decorations) :
    ExprFollows info ⟨.call call, decs⟩ ⟨.call (queryWithContext method call), decs⟩ := by
  obtain ⟨⟨kind, calleeDecs⟩, args, spread, closesLine⟩ := call
  refine exprFollows_call ?_ (.of_subset ?_) decs
  · cases kind with
    | selector operand member => exact ⟨rfl, fun _ => .refl⟩
    | _ => exact .refl
  · exact fun _ h => h

/-- The spawned literal gains its transaction, and the literals inside of it stay. -/
theorem SpawnedLiteral.follows_handed (literal : SpawnedLiteral) (txn : String)
    (hvariadic : literal.params.isVariadic = false)
    (hlacks : transactionParam? info literal.params = none) :
    Follows info literal.kind.occurrences (literal.handed txn).kind.occurrences := by
  obtain ⟨value, call, params, results, ⟨stmts, trailing, inline⟩⟩ := literal
  have hargs : literalLists (occurrencesOfExprs (call.addArg (newGoroutine (.ident txn))).args) =
      literalLists (occurrencesOfExprs call.args) := by
    rw [literalLists_addArg, (IsHandle.goroutine txn).noLiterals, List.append_nil]
  intro list' hmem
  change list' ∈ params.add (transactionParameter transactionVariable) :: literalLists
    (occurrencesOfStmts stmts ++ occurrencesOfExprs (call.addArg (newGoroutine (.ident txn))).args)
    at hmem
  change ∃ list ∈ params :: literalLists (occurrencesOfStmts stmts ++ occurrencesOfExprs call.args),
    Gains info list list'
  rw [literalLists_append] at hmem ⊢
  rw [hargs] at hmem
  obtain rfl | hmem := List.mem_cons.1 hmem
  · exact ⟨params, List.mem_cons_self, .inr ⟨hvariadic, hlacks, rfl⟩⟩
  · exact ⟨list', .tail _ hmem, .inl rfl⟩

end

/-! ## Weaving -/

/-- The literals of a woven list have come from those that it had. -/
theorem Weaves.literals {app app' : Application} {stmts stmts' : List Stmt}
    (h : Weaves app stmts app' stmts') : SkipsGenerated app.types →
      Follows app.types (occurrencesOfStmts stmts) (occurrencesOfStmts stmts') := by
  induction h with
  | trans h _ ih ih' =>
      intro hskips
      have htypes := types_of_outline h.outline_eq
      exact (ih hskips).trans hskips (htypes ▸ ih' (htypes ▸ hskips))
  | dress front back _ => exact fun _ => follows_stmts front back .refl
  | adjust hadjusts hrewrite => exact fun _ => follows_of_stmtsRewrite hadjusts.exprFollows hrewrite
  | query front back method hcall _ _ _ _ =>
      intro _
      obtain ⟨decs, hrewrite⟩ := rewrite_mapPrimaryCall hcall (queryWithContext method) true front back
      exact follows_of_stmtsRewrite (queryWithContext_exprFollows method _ decs) hrewrite
  | hand front back literal txn hkind hvariadic hlacks =>
      intro _
      refine follows_stmts front back ?_
      rw [hkind]
      exact literal.follows_handed txn hvariadic hlacks
  | insert front back haddition =>
      intro _
      have hliterals := haddition.literals
      simp only [occurrencesOfStmts_append, occurrencesOfStmts_cons] at hliterals ⊢
      exact .insert hliterals
  | precede front back haddition _ _ =>
      intro _
      have hliterals := haddition.literals
      simp only [occurrencesOfStmts_append, occurrencesOfStmts_cons] at hliterals ⊢
      exact .insert hliterals
  | nested front back hnests _ ih =>
      exact fun hskips => follows_stmts front back (follows_of_nests hnests (ih hskips))
  | @insertInside app front back stmts stmt added kind hnests haddition =>
      intro _
      refine .of_subset fun list hlist => ?_
      have hadded : list ∈ literalLists added.kind.occurrences → _ := fun h => haddition.literals h
      obtain ⟨before, after, hkind, hkind'⟩ := literals_of_nests hnests
      simp only [occurrencesOfStmts_append, occurrencesOfStmts_cons, literalLists_append, hkind,
        hkind', List.mem_append] at hlist hadded ⊢
      tauto
  | enter hands _ _ hrewrite _ _ _ =>
      exact fun _ => follows_of_stmtsRewrite (hands.exprFollows _) hrewrite
  | _ => exact fun _ => .refl

/-! ## Bodies -/

theorem SetsUp.literals {info : Info} {agent appName : String} {stmts stmts' : List Stmt}
    (h : SetsUp agent appName stmts stmts') :
    Follows info (occurrencesOfStmts stmts) (occurrencesOfStmts stmts') := by
  cases h with
  | existing => exact .refl
  | fresh =>
      have hinit : literalLists (occurrencesOfStmts (agentInit agent appName)) = [] := by
        unfold agentInit
        split <;> rfl
      have hstop : literalLists (occurrencesOfStmts [agentShutdown agent]) = [] := rfl
      refine .of_subset ?_
      simp [occurrencesOfStmts_append, occurrencesOfStmts_lowerRedeclarations, hinit, hstop]

theorem literals_withstand {info : Info} (hskips : SkipsGenerated info) (body : Block) :
    Withstands (fun app => app.types = info) fun body' =>
      Follows info (occurrencesOfStmts body.stmts) (occurrencesOfStmts body'.stmts) where
  grows _ hgrows h := (types_of_outline hgrows.outline).trans h
  setBody _ _ h := h
  weaves _ htypes _ hweaves h := by
    subst htypes
    exact h.trans hskips (hweaves.literals hskips)
  setsUp hsetsUp h := h.trans hskips hsetsUp.literals

end TraceWeave.Tracing
