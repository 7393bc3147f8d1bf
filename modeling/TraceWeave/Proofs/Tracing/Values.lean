import TraceWeave.Proofs.Tracing.Woven
import TraceWeave.Proofs.Types.Invariants

/-!
Functions that are used as values.

An expression uses a function as a value if it stands for the function and is not the callee
of a call.  What weaving adds to a list names no function but those that the list uses so
already, and it drops no expression, so that the uses stay the same (`Weaves.sameUses`).
-/

namespace TraceWeave.Tracing

open TraceWeave.Agent TraceWeave.Detect TraceWeave.Program TraceWeave.Syntax TraceWeave.Types

/-! ## Uses -/

/-- What an expression stands for that is no variable. -/
inductive ValueUse where
  /-- A function of a package, by its name. -/
  | named (ref : FuncRef)
  /-- A member of an imported package. -/
  | member (path name : String)
  deriving DecidableEq

/-- The member that a round tripper is installed in. -/
def ValueUse.isTransport : ValueUse → Bool
  | .named _ => false
  | .member _ name => name == "Transport"

def valueUse? (info : Info) (expr : Expr) : Option ValueUse :=
  match expr.kind with
  | .ident ident => (info.object? ident).bind fun object =>
      if object.kind = .func then some (.named ⟨object.package, object.name⟩) else none
  | .selector operand member => (info.importedPath? operand).map (.member · member.name)
  | _ => none

/-- The functions that occur other than as the callee of a call. -/
def usesIn (info : Info) (all : List (Bool × Expr)) : List ValueUse :=
  all.filterMap fun occurrence => if occurrence.1 then none else valueUse? info occurrence.2

/-- The same functions are used as values, transports aside. -/
def SameUses (info : Info) (all all' : List (Bool × Expr)) : Prop :=
  ∀ use : ValueUse, use.isTransport = false → (use ∈ usesIn info all' ↔ use ∈ usesIn info all)

section

variable {info : Info}

@[simp]
theorem usesIn_nil : usesIn info [] = [] := rfl

@[simp]
theorem usesIn_append (front back : List (Bool × Expr)) :
    usesIn info (front ++ back) = usesIn info front ++ usesIn info back :=
  List.filterMap_append

theorem usesIn_mono {front back : List (Bool × Expr)} (h : front ⊆ back) :
    usesIn info front ⊆ usesIn info back := by
  intro use huse
  obtain ⟨occurrence, hmem, hsome⟩ := List.mem_filterMap.1 huse
  exact List.mem_filterMap.2 ⟨occurrence, h hmem, hsome⟩

namespace SameUses

variable {all all' all'' front front' back back' : List (Bool × Expr)}

theorem refl : SameUses info all all := fun _ _ => Iff.rfl

theorem of_eq (h : usesIn info all' = usesIn info all) : SameUses info all all' := by
  intro use _
  rw [h]

theorem trans (h : SameUses info all all') (h' : SameUses info all' all'') :
    SameUses info all all'' :=
  fun use huse => (h' use huse).trans (h use huse)

theorem append (h : SameUses info front front') (h' : SameUses info back back') :
    SameUses info (front ++ back) (front' ++ back') := by
  intro use huse
  rw [usesIn_append, usesIn_append, List.mem_append, List.mem_append, h use huse, h' use huse]

end SameUses

/-! ## Expressions -/

theorem usesIn_occurrences (called : Bool) (expr : Expr) :
    usesIn info (expr.occurrences called) =
      (if called then none else valueUse? info expr).toList ++
        usesIn info (expr.kind.occurrences called) := by
  obtain ⟨kind, decs⟩ := expr
  rw [Expr.occurrences, usesIn, List.filterMap_cons]
  dsimp only
  split <;> rename_i h <;> rw [h] <;> rfl

/-- Another expression may stand in its place, and the same functions are used then. -/
structure Interchanges (info : Info) (expr expr' : Expr) : Prop where
  use : valueUse? info expr' = valueUse? info expr
  path : info.importedPath? expr' = info.importedPath? expr
  inside : ∀ called, SameUses info (expr.kind.occurrences called) (expr'.kind.occurrences called)

theorem Interchanges.refl {expr : Expr} : Interchanges info expr expr :=
  ⟨rfl, rfl, fun _ => .refl⟩

theorem Interchanges.whole {expr expr' : Expr} (h : Interchanges info expr expr') (called : Bool) :
    SameUses info (expr.occurrences called) (expr'.occurrences called) := by
  intro use huse
  rw [usesIn_occurrences, usesIn_occurrences, h.use, List.mem_append, List.mem_append,
    h.inside called use huse]

theorem interchanges_call (call call' : Call) (hcallee : Interchanges info call.callee call'.callee)
    (hargs : SameUses info (occurrencesOfExprs call.args) (occurrencesOfExprs call'.args))
    (decs : Decorations) : Interchanges info ⟨.call call, decs⟩ ⟨.call call', decs⟩ := by
  cases call
  cases call'
  exact ⟨rfl, rfl, fun _ => (hcallee.whole true).append hargs⟩

theorem occurrencesOfExprs_append (front back : List Expr) :
    occurrencesOfExprs (front ++ back) = occurrencesOfExprs front ++ occurrencesOfExprs back := by
  induction front with
  | nil => rfl
  | cons expr front ih => simp [occurrencesOfExprs, ih]

theorem occurrencesOfStmts_append (front back : List Stmt) :
    occurrencesOfStmts (front ++ back) = occurrencesOfStmts front ++ occurrencesOfStmts back := by
  induction front with
  | nil => rfl
  | cons stmt front ih =>
      obtain ⟨kind, decs⟩ := stmt
      simp [occurrencesOfStmts, ih]

theorem occurrencesOfStmts_cons (stmt : Stmt) (stmts : List Stmt) :
    occurrencesOfStmts (stmt :: stmts) = stmt.kind.occurrences ++ occurrencesOfStmts stmts := by
  cases stmt
  rfl

theorem occurrencesOfClauses_append (front back : List Clause) :
    occurrencesOfClauses (front ++ back) =
      occurrencesOfClauses front ++ occurrencesOfClauses back := by
  induction front with
  | nil => rfl
  | cons clause front ih =>
      obtain ⟨head, body, trailing, decs⟩ := clause
      simp [occurrencesOfClauses, ih]

theorem sameUses_exprs (front back : List Expr) {expr expr' : Expr}
    (h : SameUses info (expr.occurrences false) (expr'.occurrences false)) :
    SameUses info (occurrencesOfExprs (front ++ expr :: back))
      (occurrencesOfExprs (front ++ expr' :: back)) := by
  rw [occurrencesOfExprs_append, occurrencesOfExprs_append]
  exact .append .refl (.append h .refl)

theorem sameUses_stmts (front back : List Stmt) {stmt stmt' : Stmt}
    (h : SameUses info stmt.kind.occurrences stmt'.kind.occurrences) :
    SameUses info (occurrencesOfStmts (front ++ stmt :: back))
      (occurrencesOfStmts (front ++ stmt' :: back)) := by
  simp only [occurrencesOfStmts_append, occurrencesOfStmts_cons]
  exact .append .refl (.append h .refl)

theorem sameUses_clauses (front back : List Clause) {head : String} {stmts stmts' : List Stmt}
    {trailing : List String} {decs : Decorations}
    (h : SameUses info (occurrencesOfStmts stmts) (occurrencesOfStmts stmts')) :
    SameUses info (occurrencesOfClauses (front ++ ⟨head, stmts, trailing, decs⟩ :: back))
      (occurrencesOfClauses (front ++ ⟨head, stmts', trailing, decs⟩ :: back)) := by
  rw [occurrencesOfClauses_append, occurrencesOfClauses_append]
  exact .append .refl (.append h .refl)

theorem sameUses_cond {init init' alternative alternative' : Option Stmt} {test test' : Expr}
    {body body' : Block}
    (hinit : SameUses info (occurrencesOfOptional init) (occurrencesOfOptional init'))
    (htest : SameUses info (test.occurrences false) (test'.occurrences false))
    (hbody : SameUses info (occurrencesOfStmts body.stmts) (occurrencesOfStmts body'.stmts))
    (halternative : SameUses info (occurrencesOfOptional alternative)
      (occurrencesOfOptional alternative')) :
    SameUses info (StmtKind.cond init test body alternative).occurrences
      (StmtKind.cond init' test' body' alternative').occurrences := by
  cases body
  cases body'
  exact hinit.append (htest.append (hbody.append halternative))

theorem sameUses_loop {header header' : LoopHeader} {body body' : Block}
    (hheader : SameUses info header.occurrences header'.occurrences)
    (hbody : SameUses info (occurrencesOfStmts body.stmts) (occurrencesOfStmts body'.stmts)) :
    SameUses info (StmtKind.loop header body).occurrences
      (StmtKind.loop header' body').occurrences := by
  cases body
  cases body'
  exact hheader.append hbody

/-! ## Changes of expressions -/

section

variable {literals : Bool} {part part' : Expr}

mutual

theorem interchanges_of_rewrites (hpart : Interchanges info part part') :
    ∀ {expr expr' : Expr}, Expr.Rewrites literals part part' expr expr' →
      Interchanges info expr expr'
  | _, _, .here => hpart
  | _, _, .selector h => by
      have ih := interchanges_of_rewrites hpart h
      refine ⟨?_, rfl, fun _ => ih.whole false⟩
      simp only [valueUse?, ih.path]
  | _, _, .star h => ⟨rfl, rfl, fun _ => (interchanges_of_rewrites hpart h).whole false⟩
  | _, _, .unary h => ⟨rfl, rfl, fun _ => (interchanges_of_rewrites hpart h).whole false⟩
  | _, _, .paren h => ⟨rfl, rfl, fun called => (interchanges_of_rewrites hpart h).whole called⟩
  | _, _, .left h =>
      ⟨rfl, rfl, fun _ => .append ((interchanges_of_rewrites hpart h).whole false) .refl⟩
  | _, _, .right h =>
      ⟨rfl, rfl, fun _ => .append .refl ((interchanges_of_rewrites hpart h).whole false)⟩
  | _, _, .callee h =>
      ⟨rfl, rfl, fun _ => .append ((interchanges_of_rewrites hpart h).whole true) .refl⟩
  | _, _, .arg h => ⟨rfl, rfl, fun _ =>
      .append .refl (sameUses_exprs _ _ ((interchanges_of_rewrites hpart h).whole false))⟩
  | _, _, .operand h =>
      ⟨rfl, rfl, fun _ => .append ((interchanges_of_rewrites hpart h).whole false) .refl⟩
  | _, _, .index h => ⟨rfl, rfl, fun _ =>
      .append .refl (sameUses_exprs _ _ ((interchanges_of_rewrites hpart h).whole false))⟩
  | _, _, .body _ h => ⟨rfl, rfl, fun _ => sameUses_of_stmtsRewrite hpart h⟩

theorem sameUses_of_kindRewrites (hpart : Interchanges info part part') :
    ∀ {scope : EditScope} {kind kind' : StmtKind},
      StmtKind.Rewrites literals part part' scope kind kind' →
        SameUses info kind.occurrences kind'.occurrences
  | _, _, _, .expr _ h => (interchanges_of_rewrites hpart h).whole false
  | _, _, _, .spawn _ h => (interchanges_of_rewrites hpart h).whole false
  | _, _, _, .defer _ h => (interchanges_of_rewrites hpart h).whole false
  | _, _, _, .target _ h =>
      .append (sameUses_exprs _ _ ((interchanges_of_rewrites hpart h).whole false)) .refl
  | _, _, _, .value _ h =>
      .append .refl (sameUses_exprs _ _ ((interchanges_of_rewrites hpart h).whole false))
  | _, _, _, .result _ h => sameUses_exprs _ _ ((interchanges_of_rewrites hpart h).whole false)
  | _, _, _, .init _ h => sameUses_cond (sameUses_of_kindRewrites hpart h) .refl .refl .refl
  | _, _, _, .test _ h =>
      sameUses_cond .refl ((interchanges_of_rewrites hpart h).whole false) .refl .refl
  | _, _, _, .branch _ h => sameUses_cond .refl .refl (sameUses_of_stmtsRewrite hpart h) .refl
  | _, _, _, .alternative _ h =>
      sameUses_cond .refl .refl .refl (sameUses_of_kindRewrites hpart h)
  | _, _, _, .loopTest _ h =>
      sameUses_loop ((interchanges_of_rewrites hpart h).whole false) .refl
  | _, _, _, .range _ h => sameUses_loop
      (.append .refl (.append .refl ((interchanges_of_rewrites hpart h).whole false))) .refl
  | _, _, _, .loopBody _ h => sameUses_loop .refl (sameUses_of_stmtsRewrite hpart h)
  | _, _, _, .switchClause _ h => sameUses_clauses _ _ (sameUses_of_stmtsRewrite hpart h)
  | _, _, _, .selectClause _ h => sameUses_clauses _ _ (sameUses_of_stmtsRewrite hpart h)
  | _, _, _, .block _ h => sameUses_of_stmtsRewrite hpart h
  | _, _, _, .labeled h => by
      have ih := sameUses_of_kindRewrites hpart h
      exact ih

theorem sameUses_of_stmtsRewrite (hpart : Interchanges info part part') :
    ∀ {stmts stmts' : List Stmt}, StmtsRewrite literals part part' stmts stmts' →
      SameUses info (occurrencesOfStmts stmts) (occurrencesOfStmts stmts')
  | _, _, .within front h => sameUses_stmts front _ (sameUses_of_kindRewrites hpart h)

end

end

/-! ## Changes of lists inside -/

/-- The occurrences in a list inside stand among those of the statement. -/
theorem StmtKind.Replaces.occurrences {stmts stmts' : List Stmt} {kind kind' : StmtKind}
    (h : StmtKind.Replaces stmts stmts' kind kind') :
    ∃ before after, kind.occurrences = before ++ (occurrencesOfStmts stmts ++ after) ∧
      kind'.occurrences = before ++ (occurrencesOfStmts stmts' ++ after) := by
  induction h with
  | @branch _ init test _ _ alternative =>
      refine ⟨occurrencesOfOptional init ++ test.occurrences false,
        occurrencesOfOptional alternative, ?_, ?_⟩ <;> simp [StmtKind.occurrences]
  | @alternative init test body _ _ _ _ ih =>
      obtain ⟨before, after, hkind, hkind'⟩ := ih
      obtain ⟨outer, trailing, inline⟩ := body
      refine ⟨occurrencesOfOptional init ++ (test.occurrences false ++ occurrencesOfStmts outer) ++
        before, after, ?_, ?_⟩ <;>
        simp [StmtKind.occurrences, occurrencesOfOptional, hkind, hkind']
  | @loop header => exact ⟨header.occurrences, [], by simp [StmtKind.occurrences],
      by simp [StmtKind.occurrences]⟩
  | @switch _ front back =>
      refine ⟨occurrencesOfClauses front, occurrencesOfClauses back, ?_, ?_⟩ <;>
        simp [StmtKind.occurrences, occurrencesOfClauses_append, occurrencesOfClauses]
  | @select front back =>
      refine ⟨occurrencesOfClauses front, occurrencesOfClauses back, ?_, ?_⟩ <;>
        simp [StmtKind.occurrences, occurrencesOfClauses_append, occurrencesOfClauses]
  | block => exact ⟨[], [], by simp [StmtKind.occurrences], by simp [StmtKind.occurrences]⟩
  | labeled _ ih => exact ih

/-- The uses of a list inside stand among those of the statement. -/
theorem StmtKind.Nests.uses (info : Info) {stmts stmts' : List Stmt} {kind kind' : StmtKind}
    (h : StmtKind.Nests stmts stmts' kind kind') :
    ∃ before after,
      usesIn info kind.occurrences = before ++ (usesIn info (occurrencesOfStmts stmts) ++ after) ∧
      usesIn info kind'.occurrences =
        before ++ (usesIn info (occurrencesOfStmts stmts') ++ after) := by
  cases h with
  | block hreplaces =>
      obtain ⟨before, after, hkind, hkind'⟩ := StmtKind.Replaces.occurrences hreplaces
      refine ⟨usesIn info before, usesIn info after, ?_, ?_⟩ <;> simp [hkind, hkind']
  | @spawned _ _ _ _ _ _ args =>
      -- neither the call nor the literal stands for a function
      exact ⟨[], usesIn info (occurrencesOfExprs args), usesIn_append .., usesIn_append ..⟩

theorem StmtKind.Nests.sameUses {stmts stmts' : List Stmt} {kind kind' : StmtKind}
    (hstmts : SameUses info (occurrencesOfStmts stmts) (occurrencesOfStmts stmts'))
    (h : StmtKind.Nests stmts stmts' kind kind') :
    SameUses info kind.occurrences kind'.occurrences := by
  obtain ⟨before, after, hkind, hkind'⟩ := StmtKind.Nests.uses info h
  intro use huse
  simp only [hkind, hkind', List.mem_append, hstmts use huse]

/-! ## What instrumentation writes -/

theorem usesIn_call (callee : Expr) (args : List Expr) (called : Bool) :
    usesIn info ((Expr.call callee args).occurrences called) =
      usesIn info (callee.occurrences true) ++ usesIn info (occurrencesOfExprs args) := by
  rw [← usesIn_append]
  cases called <;> rfl

theorem usesIn_member (operand : Expr) (member : String) :
    usesIn info ((Expr.selector operand member).occurrences true) =
      usesIn info (operand.occurrences false) := rfl

theorem usesIn_selector (operand : Expr) (member : String) :
    usesIn info ((Expr.selector operand member).occurrences false) =
      ((info.importedPath? operand).map (.member · member)).toList ++
        usesIn info (operand.occurrences false) :=
  usesIn_occurrences false (.selector operand member)

theorem usesIn_methodCall (receiver : Expr) (name : String) (args : List Expr) (called : Bool) :
    usesIn info ((methodCall receiver name args).occurrences called) =
      usesIn info (receiver.occurrences false) ++ usesIn info (occurrencesOfExprs args) := by
  rw [methodCall, usesIn_call, usesIn_member]

theorem usesIn_exprs_cons (expr : Expr) (exprs : List Expr) :
    usesIn info (occurrencesOfExprs (expr :: exprs)) =
      usesIn info (expr.occurrences false) ++ usesIn info (occurrencesOfExprs exprs) := by
  rw [occurrencesOfExprs, usesIn_append]

theorem usesIn_exprs_nil : usesIn info (occurrencesOfExprs []) = [] := rfl

theorem usesIn_redecorate (expr : Expr) (decs : Decorations) (called : Bool) :
    usesIn info (Expr.occurrences called { expr with decs }) =
      usesIn info (expr.occurrences called) := by
  rw [usesIn_occurrences, usesIn_occurrences]
  rfl

theorem usesIn_bare (expr : Expr) (called : Bool) :
    usesIn info ((bare expr).occurrences called) = usesIn info (expr.occurrences called) :=
  usesIn_redecorate expr {} called

theorem usesIn_literal (text : String) (called : Bool) :
    usesIn info ((Expr.literal text).occurrences called) = [] := by
  cases called <;> rfl

theorem usesIn_binary (left right : Expr) (op : String) (called : Bool) :
    usesIn info ((Expr.binary left op right).occurrences called) =
      usesIn info (left.occurrences false) ++ usesIn info (right.occurrences false) := by
  rw [← usesIn_append]
  cases called <;> rfl

theorem usesIn_addArg (call : Call) (arg : Expr) :
    usesIn info (occurrencesOfExprs (call.addArg arg).args) =
      usesIn info (occurrencesOfExprs call.args) ++ usesIn info (arg.occurrences false) := by
  simp only [Call.addArg, occurrencesOfExprs_append, usesIn_append, usesIn_exprs_cons,
    usesIn_exprs_nil, List.append_nil]
  split
  · rw [usesIn_redecorate]
  · rfl

section

variable (hskips : SkipsGenerated info)

include hskips

theorem object?_of_isGenerated {ident : Ident} (h : ident.isGenerated = true) :
    info.object? ident = none := by
  rw [Info.object?, hskips ident h, Option.bind_none]

theorem usesIn_ident (name : String) (called : Bool) :
    usesIn info ((Expr.ident name).occurrences called) = [] := by
  have hobject : info.object? { name } = none := object?_of_isGenerated hskips rfl
  rw [usesIn_occurrences]
  simp [Expr.ident, ExprKind.occurrences, valueUse?, hobject]

theorem importedPath?_ident (name : String) : info.importedPath? (.ident name) = none := by
  have hobject : info.object? { name } = none := object?_of_isGenerated hskips rfl
  simp [Info.importedPath?, Expr.ident, Expr.ident?, hobject]

theorem usesIn_qualified (package name : String) (called : Bool) :
    usesIn info ((Expr.qualified package name).occurrences called) = [] := by
  cases called with
  | true => rw [Expr.qualified, usesIn_member, usesIn_ident hskips]
  | false =>
      rw [Expr.qualified, usesIn_selector, importedPath?_ident hskips, usesIn_ident hskips]
      rfl

theorem usesIn_newrelic (name : String) (called : Bool) :
    usesIn info ((newrelic name).occurrences called) = [] :=
  usesIn_qualified hskips "newrelic" name called

theorem IsAgent.uses {agent : Expr} (h : IsAgent agent) : usesIn info (agent.occurrences false) = [] := by
  cases h with
  | transaction txn =>
      simp [transactionApplication, usesIn_methodCall, usesIn_ident hskips, usesIn_exprs_nil]
  | _ => exact usesIn_ident hskips _ false

theorem IsHandle.uses {handle : Expr} (h : IsHandle handle) :
    usesIn info (handle.occurrences false) = [] := by
  cases h with
  | goroutine txn =>
      simp [newGoroutine, usesIn_methodCall, usesIn_ident hskips, usesIn_exprs_nil]
  | _ => exact usesIn_ident hskips _ false

theorem IsContext.uses {ctx : Expr} (h : IsContext ctx) : usesIn info (ctx.occurrences false) = [] := by
  cases h with
  | method name => simp [usesIn_methodCall, usesIn_ident hskips, usesIn_exprs_nil]
  | _ => exact usesIn_ident hskips _ false

theorem usesIn_newContext (ctx txn : Expr) (called : Bool) :
    usesIn info ((newContext ctx txn).occurrences called) =
      usesIn info (ctx.occurrences false) ++ usesIn info (txn.occurrences false) := by
  simp [newContext, usesIn_call, usesIn_newrelic hskips, usesIn_exprs_cons, usesIn_bare,
    usesIn_exprs_nil]

theorem usesIn_bindVariable (name : String) (value : Expr) (declared : Bool) :
    usesIn info (bindVariable name value declared).kind.occurrences =
      usesIn info (value.occurrences false) := by
  have hassign : ∀ op, usesIn info (StmtKind.assign [.ident name] op [value]).occurrences =
      usesIn info (value.occurrences false) := by
    intro op
    simp [StmtKind.occurrences, usesIn_exprs_cons, usesIn_ident hskips, usesIn_exprs_nil]
  cases declared
  · exact hassign .define
  · exact hassign .assign

/-! ## Additions -/

omit hskips in
/-- Every use in the first list is one in the second, transports aside. -/
def UsesAmong (info : Info) (all all' : List (Bool × Expr)) : Prop :=
  ∀ use ∈ usesIn info all, use.isTransport = false → use ∈ usesIn info all'

omit hskips in
theorem UsesAmong.of_eq_nil {all all' : List (Bool × Expr)} (h : usesIn info all = []) :
    UsesAmong info all all' := by
  intro use huse
  rw [h] at huse
  contradiction

omit hskips in
theorem NamedIn.uses {near : List Stmt} {expr : Expr} (h : NamedIn near expr) :
    ∀ use ∈ usesIn info (expr.occurrences false), use ∈ usesIn info (occurrencesOfStmts near) := by
  obtain ⟨ident, decs, decs', rfl, hnear⟩ := h
  intro use huse
  rw [usesIn_occurrences] at huse
  refine List.mem_filterMap.2 ⟨_, hnear, ?_⟩
  have hsame : valueUse? info ⟨.ident ident, decs'⟩ = valueUse? info ⟨.ident ident, decs⟩ := rfl
  simpa [ExprKind.occurrences, hsame] using huse

omit hskips in
theorem uses_of_arg {near : List Stmt} {stmt : Stmt} {call : Call} {arg : Expr} (hstmt : stmt ∈ near)
    (hcall : primaryCall? stmt = some call) (harg : arg ∈ call.args) :
    usesIn info (arg.occurrences false) ⊆ usesIn info (occurrencesOfStmts near) :=
  usesIn_mono (List.Subset.trans (arg_occurrences_subset hcall harg) (occurrences_subset_stmts hstmt))

theorem Addition.uses {near : List Stmt} {kind : StmtKind} (h : Addition near kind) :
    UsesAmong info kind.occurrences (occurrencesOfStmts near) := by
  have hident := usesIn_ident hskips
  have hnewrelic := usesIn_newrelic hskips
  cases h with
  | start agent txn name declared =>
      refine .of_eq_nil ?_
      simp [startTransaction, usesIn_bindVariable hskips, usesIn_methodCall, hident,
        usesIn_exprs_cons, usesIn_exprs_nil, Expr.string, usesIn_literal]
  | ending name =>
      refine .of_eq_nil ?_
      simp [endTransaction, Stmt.expr, StmtKind.occurrences, usesIn_methodCall, hident,
        usesIn_exprs_nil]
  | fromContext name hctx =>
      refine .of_eq_nil ?_
      simp [bindFromContext, Stmt.define, StmtKind.occurrences, usesIn_exprs_cons, hident,
        usesIn_exprs_nil, usesIn_call, hnewrelic, hctx.uses hskips]
  | segment name txn =>
      refine .of_eq_nil ?_
      simp [deferSegment, Stmt.defer, StmtKind.occurrences, usesIn_methodCall, hident,
        usesIn_exprs_cons, usesIn_exprs_nil, Expr.string, usesIn_literal]
  | newContext name txn declared =>
      refine .of_eq_nil ?_
      simp [usesIn_bindVariable hskips, usesIn_newContext hskips, usesIn_call,
        usesIn_qualified hskips, usesIn_exprs_nil, hident]
  | external txn segment declared hstmt hcall hreq =>
      intro use huse _
      rw [startExternalSegment, usesIn_bindVariable hskips, usesIn_call] at huse
      refine uses_of_arg hstmt hcall hreq ?_
      simpa [hnewrelic, usesIn_exprs_cons, usesIn_exprs_nil, hident, usesIn_bare] using huse
  | response segment name =>
      refine .of_eq_nil ?_
      simp [captureResponse, Stmt.assign, StmtKind.occurrences, usesIn_exprs_cons,
        usesIn_exprs_nil, usesIn_selector, importedPath?_ident hskips, hident]
  | request txn hreq =>
      intro use huse _
      refine hreq.uses use ?_
      simpa [wrapRequest, Stmt.assign, StmtKind.occurrences, usesIn_exprs_cons, usesIn_exprs_nil,
        usesIn_call, hnewrelic, hident] using huse
  | @roundTripper after client hclient =>
      intro use huse htransport
      have hselector : use ∈ usesIn info ((Expr.selector client "Transport").occurrences false) := by
        simpa [Agent.roundTripper, Stmt.assign, StmtKind.occurrences, usesIn_exprs_cons,
          usesIn_exprs_nil, usesIn_call, hnewrelic] using huse
      rw [usesIn_selector, List.mem_append] at hselector
      obtain hmember | hclientUse := hselector
      · obtain ⟨path, -, rfl⟩ := Option.map_eq_some_iff.1 (Option.mem_toList.1 hmember)
        simp [ValueUse.isTransport] at htransport
      · exact hclient.uses use hclientUse
  | middleware package hrouter hagent =>
      intro use huse _
      refine hrouter.uses use ?_
      simpa [useMiddleware, Stmt.expr, StmtKind.occurrences, usesIn_methodCall, usesIn_exprs_cons,
        usesIn_exprs_nil, usesIn_call, usesIn_qualified hskips, hagent.uses hskips] using huse
  | logHandler name handler declared hagent =>
      refine .of_eq_nil ?_
      simp [usesIn_bindVariable hskips, wrapLogHandler, usesIn_call, usesIn_qualified hskips,
        usesIn_exprs_cons, usesIn_exprs_nil, hagent.uses hskips, hident]
  | notice txn herr =>
      intro use huse _
      refine herr.uses use ?_
      simpa [noticeError, Stmt.expr, StmtKind.occurrences, usesIn_methodCall, hident,
        usesIn_exprs_cons, usesIn_exprs_nil, usesIn_bare] using huse

/-! ## Changes of calls -/

theorem Passes.sameUses {list : FieldList} {call : Call} {mayExtend : Bool} {passing : Passing}
    (h : Passes info list call mayExtend passing) :
    SameUses info (occurrencesOfExprs call.args) (occurrencesOfExprs passing.call.args) := by
  have hadd : ∀ {arg : Expr}, IsHandle arg →
      SameUses info (occurrencesOfExprs call.args) (occurrencesOfExprs (call.addArg arg).args) := by
    intro arg harg
    refine .of_eq ?_
    rw [usesIn_addArg, harg.uses hskips, List.append_nil]
  cases h with
  | same hcall _ =>
      rw [hcall]
      exact .refl
  | fills hhandle _ _ hcall _ =>
      rw [hcall]
      exact hadd hhandle
  | grows hhandle _ _ hcall _ _ =>
      rw [hcall]
      exact hadd hhandle
  | @wraps index arg txn hhandle _ harg hcall _ =>
      rw [hcall]
      obtain ⟨hlt, rfl⟩ := List.getElem?_eq_some_iff.1 harg
      have hsplit : call.args =
          call.args.take index ++ call.args[index] :: call.args.drop (index + 1) := by simp
      dsimp only
      rw [List.set_eq_take_append_cons_drop, if_pos hlt]
      conv => arg 2; rw [hsplit]
      refine sameUses_exprs _ _ (.of_eq ?_)
      rw [usesIn_redecorate, usesIn_newContext hskips, hhandle.uses hskips, List.append_nil]

omit hskips in
theorem Hands.interchanges {app : Application} {call : Call} {ref : FuncRef} {passing : Passing}
    (hskips : SkipsGenerated app.types) (hands : Hands app call ref passing) (decs : Decorations) :
    Interchanges app.types ⟨.call call, decs⟩ ⟨.call passing.call, decs⟩ := by
  have hcallee := hands.callee_eq
  obtain ⟨func, carrier, async, txn, -, rfl⟩ := hands.passes
  refine interchanges_call _ _ ?_ ((carrier.passes ..).sameUses hskips) decs
  rw [hcallee]
  exact .refl

theorem Hooks.sameUses {call call' : Call} (h : Hooks info call call') :
    SameUses info (occurrencesOfExprs call.args) (occurrencesOfExprs call'.args) := by
  have hqualified := usesIn_qualified hskips
  cases h with
  | handler _ hagent hwrap =>
      unfold wrapHandler? at hwrap
      split at hwrap
      · next pattern handler hargs =>
        split at hwrap
        · contradiction
        · obtain rfl := Option.some.inj hwrap
          refine .of_eq ?_
          simp [hargs, usesIn_exprs_cons, usesIn_exprs_nil, usesIn_redecorate, usesIn_call,
            usesIn_newrelic hskips, hagent.uses hskips]
      · contradiction
  | client _ =>
      refine .of_eq ?_
      simp [addClientInterceptors, usesIn_addArg, interceptorOption, usesIn_call, hqualified,
        usesIn_exprs_cons, usesIn_exprs_nil]
  | server _ hagent =>
      refine .of_eq ?_
      simp [addServerInterceptors, usesIn_addArg, interceptorOption, usesIn_call, hqualified,
        usesIn_exprs_cons, usesIn_exprs_nil, hagent.uses hskips]
  | logger _ hagent =>
      unfold wrapFirstArg
      split
      · exact .refl
      · next handler args hargs =>
        refine .of_eq ?_
        simp [hargs, usesIn_exprs_cons, usesIn_redecorate, wrapLogHandler, usesIn_call, hqualified,
          usesIn_exprs_nil, hagent.uses hskips, usesIn_bare]

omit hskips in
theorem Adjusts.interchanges {app : Application} (hskips : SkipsGenerated app.types)
    {expr expr' : Expr} (h : Adjusts app expr expr') : Interchanges app.types expr expr' := by
  cases h with
  | rename ident decs _ => exact ⟨rfl, rfl, fun _ => .refl⟩
  | hook hooks =>
      refine interchanges_call _ _ ?_ (hooks.sameUses hskips) _
      rw [hooks.callee_eq]
      exact .refl
  | @pass _ _ _ decs hands _ => exact hands.interchanges hskips decs

theorem queryWithContext_interchanges (method : String) (call : Call) (decs : Decorations) :
    Interchanges info ⟨.call call, decs⟩ ⟨.call (queryWithContext method call), decs⟩ := by
  obtain ⟨⟨kind, calleeDecs⟩, args, spread, closesLine⟩ := call
  refine ⟨rfl, rfl, fun _ => .append ?_ (.of_eq ?_)⟩
  · cases kind with
    | selector operand member => exact .of_eq rfl
    | _ => exact .refl
  · rw [usesIn_exprs_cons, usesIn_redecorate, usesIn_ident hskips, List.nil_append]

theorem SpawnedLiteral.sameUses_handed (literal : SpawnedLiteral) (txn : String) :
    SameUses info literal.kind.occurrences (literal.handed txn).kind.occurrences := by
  obtain ⟨value, call, params, results, ⟨stmts, trailing, inline⟩⟩ := literal
  refine (interchanges_call ⟨_, call.args, call.spread, call.closesLine⟩
    ⟨_, (call.addArg _).args, call.spread, call.closesLine⟩ ⟨rfl, rfl, fun _ => .refl⟩ (.of_eq ?_) value.decs).whole false
  rw [usesIn_addArg, (IsHandle.goroutine txn).uses hskips, List.append_nil]

end

/-! ## Weaving -/

theorem SameUses.insert {front added back : List (Bool × Expr)}
    (h : UsesAmong info added (front ++ back)) :
    SameUses info (front ++ back) (front ++ (added ++ back)) := by
  intro use huse
  have hadded := fun hmem => h use hmem huse
  simp only [usesIn_append, List.mem_append] at hadded ⊢
  tauto

end

/-- Weaving a list neither makes a function a value nor takes a value away. -/
theorem Weaves.sameUses {app app' : Application} {stmts stmts' : List Stmt}
    (h : Weaves app stmts app' stmts') : SkipsGenerated app.types →
      SameUses app.types (occurrencesOfStmts stmts) (occurrencesOfStmts stmts') := by
  induction h with
  | trans h _ ih ih' =>
      intro hskips
      have htypes := types_of_outline h.outline_eq
      exact (ih hskips).trans (htypes ▸ ih' (htypes ▸ hskips))
  | dress front back _ => exact fun _ => sameUses_stmts front back .refl
  | adjust hadjusts hrewrite =>
      exact fun hskips => sameUses_of_stmtsRewrite (hadjusts.interchanges hskips) hrewrite
  | query front back method hcall _ _ _ _ =>
      intro hskips
      obtain ⟨decs, hrewrite⟩ := rewrite_mapPrimaryCall hcall (queryWithContext method) true front back
      exact sameUses_of_stmtsRewrite (queryWithContext_interchanges hskips method _ decs) hrewrite
  | hand front back literal txn hkind _ =>
      intro hskips
      refine sameUses_stmts front back ?_
      rw [hkind]
      exact literal.sameUses_handed hskips txn
  | insert front back haddition =>
      intro hskips
      have huses := haddition.uses hskips
      simp only [occurrencesOfStmts_append, occurrencesOfStmts_cons] at huses ⊢
      exact .insert huses
  | precede front back haddition _ _ =>
      intro hskips
      have huses := haddition.uses hskips
      simp only [occurrencesOfStmts_append, occurrencesOfStmts_cons] at huses ⊢
      exact .insert huses
  | nested front back hnests _ ih =>
      exact fun hskips => sameUses_stmts front back (StmtKind.Nests.sameUses (ih hskips) hnests)
  | @insertInside app front back stmts stmt added kind hnests haddition =>
      intro hskips use huse
      have hadded := fun hmem => haddition.uses hskips use hmem huse
      obtain ⟨before, after, hkind, hkind'⟩ := StmtKind.Nests.uses app.types hnests
      simp only [occurrencesOfStmts_append, occurrencesOfStmts_cons, usesIn_append, hkind, hkind',
        List.mem_append] at hadded ⊢
      tauto
  | enter hands _ _ hrewrite _ _ _ =>
      exact fun hskips => sameUses_of_stmtsRewrite (hands.interchanges hskips _) hrewrite
  | _ => exact fun _ => .refl

/-! ## The entry function -/

theorem occurrencesOfStmts_lowerRedeclarations (declared : List String) (stmts : List Stmt) :
    occurrencesOfStmts (lowerRedeclarations declared stmts) = occurrencesOfStmts stmts := by
  have hassign : ∀ stmt : Stmt, (assignOnly stmt).kind.occurrences = stmt.kind.occurrences := by
    intro stmt
    unfold assignOnly
    split
    · next hkind => simp [hkind, StmtKind.occurrences]
    · rfl
  induction stmts generalizing declared with
  | nil => rfl
  | cons stmt stmts ih =>
      unfold lowerRedeclarations
      split
      · simp only [occurrencesOfStmts_cons, ih]
      · dsimp only
        split
        · simp only [occurrencesOfStmts_cons, ih, hassign]
        · simp only [occurrencesOfStmts_cons, ih]

section

variable {info : Info} (hskips : SkipsGenerated info)

include hskips

theorem usesIn_agentInit (agent appName : String) :
    usesIn info (occurrencesOfStmts (agentInit agent appName)) = [] := by
  have hident := usesIn_ident hskips
  have hnewrelic := usesIn_newrelic hskips
  have hoptions : usesIn info (occurrencesOfExprs ((if appName.isEmpty then []
      else [Expr.call (newrelic "ConfigAppName") [.string appName]]) ++
        [.call (newrelic "ConfigFromEnvironment") []])) = [] := by
    split <;> simp [usesIn_exprs_cons, usesIn_exprs_nil, usesIn_call, hnewrelic, Expr.string,
      usesIn_literal]
  have hpanic : usesIn info ((Expr.call (.ident "panic") [.ident "err"]).occurrences false) = [] := by
    simp [usesIn_call, hident, usesIn_exprs_cons, usesIn_exprs_nil]
  simp only [agentInit, Stmt.define, Stmt.cond, Stmt.expr, occurrencesOfStmts,
    StmtKind.occurrences, occurrencesOfOptional, usesIn_append, usesIn_nil, usesIn_exprs_cons,
    usesIn_exprs_nil, usesIn_call, usesIn_binary, Expr.nil, hident, hnewrelic, hoptions, hpanic,
    List.append_nil]

theorem usesIn_agentShutdown (agent : String) :
    usesIn info (agentShutdown agent).kind.occurrences = [] := by
  simp [agentShutdown, StmtKind.occurrences, usesIn_methodCall, usesIn_ident hskips,
    usesIn_exprs_cons, usesIn_exprs_nil, usesIn_binary, usesIn_literal, usesIn_qualified hskips]

theorem SetsUp.sameUses {agent appName : String} {stmts stmts' : List Stmt}
    (h : SetsUp agent appName stmts stmts') :
    SameUses info (occurrencesOfStmts stmts) (occurrencesOfStmts stmts') := by
  cases h with
  | existing => exact .refl
  | fresh =>
      refine .of_eq ?_
      simp [occurrencesOfStmts_append, occurrencesOfStmts_lowerRedeclarations,
        usesIn_agentInit hskips, occurrencesOfStmts_cons, usesIn_agentShutdown hskips,
        occurrencesOfStmts]

end

/-! ## Bodies -/

theorem sameUses_withstands {info : Info} (hskips : SkipsGenerated info) (body : Block) :
    Withstands (fun app => app.types = info) fun body' =>
      SameUses info (occurrencesOfStmts body.stmts) (occurrencesOfStmts body'.stmts) where
  grows _ hgrows h := (types_of_outline hgrows.outline).trans h
  setBody _ _ h := h
  weaves _ htypes _ hweaves h := by
    subst htypes
    exact h.trans (hweaves.sameUses hskips)
  setsUp hsetsUp h := h.trans (hsetsUp.sameUses hskips)

end TraceWeave.Tracing
