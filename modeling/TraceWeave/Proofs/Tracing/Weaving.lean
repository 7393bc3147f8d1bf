import TraceWeave.Proofs.Syntax.Comments
import TraceWeave.Proofs.Syntax.Occurrences
import TraceWeave.Tracing.Walk

/-!
What instrumentation may do to a list of statements and to the application around it.

`Weaves app stmts app' stmts'` says that the list and the application have gone
through a sequence of single changes: an expression was adjusted, a statement was
inserted, a list inside a statement went through such a sequence of its own, or a call
handed the transaction on and the body of its callee went through one.  All that is
proved about whole runs is proved about these changes.
-/

namespace TraceWeave.Tracing

open TraceWeave.Agent TraceWeave.Detect TraceWeave.Program TraceWeave.Syntax TraceWeave.Types
open scoped List

/-! ## Passing -/

/-- What a call hands on: a variable, or a transaction for a goroutine. -/
inductive IsHandle : Expr → Prop where
  | variable (name : String) : IsHandle (.ident name)
  | goroutine (txn : String) : IsHandle (newGoroutine (.ident txn))

/-- The list may gain a parameter, and has none for a context. -/
structure Admits (info : Info) (list : FieldList) : Prop where
  notVariadic : list.isVariadic = false
  named : list.isUnnamed = false
  noContext : findParam? (paramsOf info list) contextTy = none

/-- All that passing does to a call, and to the parameters of its callee. -/
inductive Passes (info : Info) (list : FieldList) (call : Call) (mayExtend : Bool) :
    Passing → Prop where
  | same {passing : Passing} :
      passing.call = call → passing.extended = false → Passes info list call mayExtend passing
  | fills {passing : Passing} {arg : Expr} :
      IsHandle arg → call.spread = false → call.args.length < list.arity →
      passing.call = call.addArg arg → passing.extended = false → Passes info list call mayExtend passing
  | wraps {passing : Passing} {index : Nat} {arg txn : Expr} :
      IsHandle txn → findParam? (paramsOf info list) contextTy ≠ none →
      call.args[index]? = some arg →
      passing.call =
        { call with args := call.args.set index { newContext arg txn with decs := arg.decs } } →
      passing.extended = false → Passes info list call mayExtend passing
  | grows {passing : Passing} {arg : Expr} :
      IsHandle arg → mayExtend = true → Admits info list → passing.call = call.addArg arg →
      passing.params = list.add (transactionParameter transactionVariable) →
      passing.extended = true → Passes info list call mayExtend passing

theorem length_paramsOf (info : Info) (list : FieldList) : (paramsOf info list).length = list.arity := by
  have hfields : ∀ fields : List Field,
      (fields.flatMap fun field =>
        if field.names.isEmpty then [((none : Option Ident), field.type)]
        else field.names.map fun name => (some name, field.type)).length =
          (fields.map fun field => max field.names.length 1).sum := by
    intro fields
    induction fields with
    | nil => rfl
    | cons field fields ih =>
        rw [List.flatMap_cons, List.length_append, ih, List.map_cons, List.sum_cons]
        cases field.names with
        | nil => simp
        | cons name names => simp
  rw [paramsOf, List.length_map]
  exact hfields list.fields

theorem findParam?_lt {params : List Param} {type : Ty} {index : Nat} {param : Param}
    (h : findParam? params type = some (index, param)) : index < params.length := by
  unfold findParam? at h
  obtain ⟨⟨found, position⟩, hfind, heq⟩ := Option.map_eq_some_iff.1 h
  have hmem := List.mem_of_find?_eq_some hfind
  have hlt := List.snd_lt_of_mem_zipIdx hmem
  simp_all

theorem Carrier.passes (carrier : Carrier) (info : Info) (list : FieldList) (call : Call)
    (async mayExtend : Bool) (txn : String) :
    Passes info list call mayExtend (carrier.pass info list call async mayExtend (.ident txn)) := by
  unfold Carrier.pass
  dsimp only
  have hhandle : IsHandle (if async then newGoroutine (.ident txn) else .ident txn) := by
    cases async with
    | false => exact .variable txn
    | true => exact .goroutine txn
  generalize (if async then newGoroutine (.ident txn) else .ident txn) = handle at hhandle ⊢
  split
  · next index param hown =>
    have hindex : index < list.arity := by
      split at hown
      · contradiction
      · exact length_paramsOf info list ▸ findParam?_lt hown
    unfold Carrier.passItself
    split
    · next hlast =>
      simp only [Bool.and_eq_true, beq_iff_eq, Bool.not_eq_eq_eq_not, Bool.not_true] at hlast
      have hargs : call.args.length < list.arity := hlast.1 ▸ hindex
      split
      · exact .fills hhandle hlast.2 hargs rfl rfl
      · exact .fills (.variable carrier.name) hlast.2 hargs rfl rfl
    · exact .same rfl rfl
  · split
    · next hcontext =>
      unfold Carrier.passContext
      split
      · exact .same rfl rfl
      · next arg harg =>
        dsimp only
        split
        · exact .same rfl rfl
        · exact .wraps hhandle (by simp [hcontext]) harg rfl rfl
    · next hcontext =>
      unfold Carrier.passNew
      split
      · next hmay =>
        split
        · exact .same rfl rfl
        · next hlist =>
          simp only [Bool.or_eq_true, not_or, Bool.not_eq_true] at hlist
          exact .grows hhandle hmay ⟨hlist.1, hlist.2, hcontext⟩ rfl rfl rfl
      · exact .same rfl rfl

namespace Passes

variable {info : Info} {list : FieldList} {call : Call} {mayExtend : Bool} {passing : Passing}

theorem callee_eq (h : Passes info list call mayExtend passing) :
    passing.call.callee = call.callee := by
  cases h with
  | same hcall _ => rw [hcall]
  | fills _ _ _ hcall _ => rw [hcall]; rfl
  | wraps _ _ _ hcall _ => rw [hcall]
  | grows _ _ _ hcall _ _ => rw [hcall]; rfl

theorem of_extended (h : Passes info list call mayExtend passing) (hextended : passing.extended = true) :
    Admits info list ∧ passing.params = list.add (transactionParameter transactionVariable) := by
  cases h with
  | grows _ _ hadmits _ hparams _ => exact ⟨hadmits, hparams⟩
  | _ => simp_all

theorem extended_eq_false (h : Passes info list call false passing) : passing.extended = false := by
  cases h with
  | grows _ hmay _ _ _ _ => contradiction
  | _ => assumption

end Passes

/-! ## Changes of calls -/

/-- The agent's application, as an expression. -/
inductive IsAgent : Expr → Prop where
  | variable (name : String) : IsAgent (.ident name)
  | transaction (txn : String) : IsAgent (transactionApplication txn)

/-- A call of a library gets one of the agent's hooks. -/
inductive Hooks (info : Info) : Call → Call → Prop where
  | handler {agent : Expr} {call call' : Call} :
      isRegistration info call = true → IsAgent agent → wrapHandler? agent call = some call' →
      Hooks info call call'
  | client {call : Call} :
      dialsBare info call = true → Hooks info call (addClientInterceptors (grpcName call) call)
  | server {agent : Expr} {call : Call} :
      servesBare info call = true → IsAgent agent →
      Hooks info call (addServerInterceptors (grpcName call) agent call)
  | logger {agent : Expr} {call : Call} :
      makesLogger info call = true → IsAgent agent → Hooks info call (wrapFirstArg agent call)

/-- A call of a function of the application hands the transaction on. -/
structure Hands (app : Application) (call : Call) (ref : FuncRef) (passing : Passing) : Prop where
  resolved : app.resolve? call = some ref
  key_ne : ref.key ≠ "main"
  passes : ∃ func carrier async txn, app.func? ref = some func ∧
    passing = Carrier.pass carrier app.types func.params call async (app.mayInstrument ref)
      (.ident txn)

/-- A change of a single expression that enters no function. -/
inductive Adjusts (app : Application) : Expr → Expr → Prop where
  | rename (ident : Ident) {name : String} (decs : Decorations) :
      name ≠ "StartSegment" → Adjusts app ⟨.ident ident, decs⟩ ⟨.ident { ident with name }, decs⟩
  | hook {call call' : Call} {decs : Decorations} :
      Hooks app.types call call' → Adjusts app ⟨.call call, decs⟩ ⟨.call call', decs⟩
  | pass {call : Call} {ref : FuncRef} {passing : Passing} {decs : Decorations} :
      Hands app call ref passing → app.mayInstrument ref = false →
      Adjusts app ⟨.call call, decs⟩ ⟨.call passing.call, decs⟩

/-! ## Statements -/

/-- The expression is an identifier. -/
def IsName (expr : Expr) : Prop := expr.ident?.isSome = true

/-- The expression is an identifier that the statements hold, but not as the callee of a call. -/
def NamedIn (near : List Stmt) (expr : Expr) : Prop :=
  ∃ ident decs decs', expr = ⟨.ident ident, decs⟩ ∧
    (false, ⟨.ident ident, decs'⟩) ∈ occurrencesOfStmts near

theorem NamedIn.isName {near : List Stmt} {expr : Expr} (h : NamedIn near expr) : IsName expr := by
  obtain ⟨ident, decs, decs', rfl, -⟩ := h
  rfl

/-- The context that a transaction is taken out of. -/
inductive IsContext : Expr → Prop where
  | variable (name : String) : IsContext (.ident name)
  | method (name : String) : IsContext (methodCall (.ident name) "Context" [])

/-- The statements that are inserted near others; these supply the names that come again. -/
inductive Addition (near : List Stmt) : StmtKind → Prop where
  | start (agent txn name : String) (declared : Bool) :
      Addition near (startTransaction agent txn name declared).kind
  | ending (name : String) : Addition near (endTransaction name).kind
  | fromContext (name : String) {ctx : Expr} :
      IsContext ctx → Addition near (bindFromContext name ctx).kind
  | segment (name txn : String) : Addition near (deferSegment name txn).kind
  | newContext (name txn : String) (declared : Bool) :
      Addition near (bindVariable name (newContext (.call (.qualified "context" "Background") [])
        (.ident txn)) declared).kind
  | external (txn segment : String) (declared : Bool) {stmt : Stmt} {call : Call} {req : Expr} :
      stmt ∈ near → primaryCall? stmt = some call → req ∈ call.args →
      Addition near (startExternalSegment (.ident txn) (bare req) segment declared).kind
  | response (segment name : String) :
      Addition near (captureResponse segment (.ident name)).kind
  | request (txn : String) {req : Expr} :
      NamedIn near req → Addition near (wrapRequest req (.ident txn)).kind
  | roundTripper (after : Gap) {client : Expr} :
      NamedIn near client → Addition near (Agent.roundTripper client after).kind
  | middleware (package : String) {router agent : Expr} :
      NamedIn near router → IsAgent agent → Addition near (useMiddleware router package agent).kind
  | logHandler (name handler : String) (declared : Bool) {agent : Expr} :
      IsAgent agent →
      Addition near (bindVariable name (wrapLogHandler agent (.ident handler)) declared).kind
  | notice (txn : String) {err : Expr} :
      NamedIn near err → Addition near (noticeError err (.ident txn)).kind

/-- A spawned literal that takes a transaction of its own. -/
def SpawnedLiteral.handed (literal : SpawnedLiteral) (txn : String) : SpawnedLiteral :=
  { literal with
    params := literal.params.add (transactionParameter transactionVariable)
    call := literal.call.addArg (newGoroutine (.ident txn)) }

/-! ## Sequences of changes -/

/-- The application while tracing has the body of a function in its hands. -/
def opened (app : Application) (ref : FuncRef) : Application :=
  ((app.markTraced ref).noteEntered ref).setBody ref none

inductive Weaves : Application → List Stmt → Application → List Stmt → Prop where
  | refl {app : Application} {stmts : List Stmt} : Weaves app stmts app stmts
  | trans {app app' app'' : Application} {stmts stmts' stmts'' : List Stmt} :
      Weaves app stmts app' stmts' → Weaves app' stmts' app'' stmts'' →
      Weaves app stmts app'' stmts''
  | needImport {app : Application} {stmts : List Stmt} (package path : String) :
      Weaves app stmts (app.needImport package path) stmts
  | console {app : Application} {stmts : List Stmt} (console : Console) :
      Weaves app stmts { app with console } stmts
  | dress {app : Application} (front back : List Stmt) {stmt : Stmt} {decs : Decorations} :
      stmt.decs.Keeps decs →
      Weaves app (front ++ stmt :: back) app (front ++ { stmt with decs } :: back)
  | adjust {app : Application} {stmts stmts' : List Stmt} {literals : Bool} {part part' : Expr} :
      Adjusts app part part' → StmtsRewrite literals part part' stmts stmts' →
      Weaves app stmts app stmts'
  | query {app : Application} (front back : List Stmt) (method : String) {stmt : Stmt}
      {call : Call} {callee : Callee} :
      primaryCall? stmt = some call → app.types.callee? call = some callee →
      callee.package = Path.databaseSql → callee.name = method → method ∈ queryMethods →
      Weaves app (front ++ stmt :: back) app
        (front ++ mapPrimaryCall (queryWithContext method) stmt :: back)
  | hand {app : Application} (front back : List Stmt) (literal : SpawnedLiteral) (txn : String)
      {stmt : Stmt} :
      stmt.kind = literal.kind → literal.params.isVariadic = false →
      transactionParam? app.types literal.params = none →
      Weaves app (front ++ stmt :: back) app
        (front ++ { stmt with kind := (literal.handed txn).kind } :: back)
  | insert {app : Application} (front back : List Stmt) {stmt : Stmt} :
      Addition (front ++ back) stmt.kind → Weaves app (front ++ back) app (front ++ stmt :: back)
  | precede {app : Application} (front back : List Stmt) {first stmt : Stmt} {decs : Decorations} :
      Addition (front ++ stmt :: back) first.kind → stmt.decs.lead <+ first.decs.lead →
      stmt.decs.trail <+ decs.trail →
      Weaves app (front ++ stmt :: back) app (front ++ first :: { stmt with decs } :: back)
  | nested {app app' : Application} (front back : List Stmt) {stmts stmts' : List Stmt}
      {stmt : Stmt} {kind : StmtKind} :
      StmtKind.Nests stmts stmts' stmt.kind kind → Weaves app stmts app' stmts' →
      Weaves app (front ++ stmt :: back) app' (front ++ { stmt with kind } :: back)
  | insertInside {app : Application} (front back : List Stmt) {stmts : List Stmt}
      {stmt added : Stmt} {kind : StmtKind} :
      StmtKind.Nests stmts (added :: stmts) stmt.kind kind →
      Addition (front ++ stmt :: back) added.kind →
      Weaves app (front ++ stmt :: back) app (front ++ { stmt with kind } :: back)
  | enter {app app' : Application} {stmts stmts' : List Stmt} {call : Call} {ref : FuncRef}
      {passing : Passing} {body body' : Block} {decs : Decorations} :
      Hands app call ref passing → app.mayInstrument ref = true → app.body? ref = some body →
      StmtsRewrite false ⟨.call call, decs⟩ ⟨.call passing.call, decs⟩ stmts stmts' →
      body'.trailing = body.trailing →
      Weaves (opened (passing.applyTo ref app) ref) body.stmts app' body'.stmts →
      Weaves app stmts (app'.setBody ref (some body')) stmts'

/-! ## Depth -/

theorem Hands.callee_eq {app : Application} {call : Call} {ref : FuncRef} {passing : Passing}
    (hands : Hands app call ref passing) : passing.call.callee = call.callee := by
  obtain ⟨func, carrier, async, txn, -, rfl⟩ := hands.passes
  exact (carrier.passes ..).callee_eq

theorem Hooks.callee_eq {info : Info} {call call' : Call} (hooks : Hooks info call call') :
    call'.callee = call.callee := by
  cases hooks with
  | handler _ _ hwrap =>
      unfold wrapHandler? at hwrap
      split at hwrap
      · split at hwrap
        · contradiction
        · rw [Option.some.injEq] at hwrap
          rw [← hwrap]
      · contradiction
  | client _ => rfl
  | server _ _ => rfl
  | logger _ _ =>
      unfold wrapFirstArg
      split <;> rfl

theorem Adjusts.adjusts {app : Application} {expr expr' : Expr} (h : Adjusts app expr expr') :
    Expr.Adjusts expr expr' := by
  cases h with
  | rename ident decs _ => exact .ident rfl
  | hook hooks => exact .call hooks.callee_eq
  | pass hands _ => exact .call hands.callee_eq

theorem Addition.depth_eq {near : List Stmt} {kind : StmtKind} (h : Addition near kind) :
    kind.depth = 0 := by
  cases h with
  | start agent txn name declared => cases declared <;> rfl
  | newContext name txn declared => cases declared <;> rfl
  | external txn segment declared _ _ _ => cases declared <;> rfl
  | logHandler name handler declared _ => cases declared <;> rfl
  | _ => rfl

theorem SpawnedLiteral.depth_handed (literal : SpawnedLiteral) (txn : String) :
    (literal.handed txn).kind.depth = literal.kind.depth := by
  simp only [SpawnedLiteral.kind, StmtKind.depth_spawn]
  rfl

theorem depth_mapPrimaryCall (f : Call → Call) (stmt : Stmt) :
    (mapPrimaryCall f stmt).kind.depth = stmt.kind.depth := by
  unfold mapPrimaryCall
  split
  · next h => simp only [h]; rfl
  · next h => simp only [h]; rfl
  · rfl

/-- Lists get no deeper: what is inserted has no block of its own. -/
theorem Weaves.depth_le {app app' : Application} {stmts stmts' : List Stmt}
    (h : Weaves app stmts app' stmts') : depthOfStmts stmts' ≤ depthOfStmts stmts := by
  induction h with
  | refl => exact Nat.le_refl _
  | trans _ _ ih ih' => exact Nat.le_trans ih' ih
  | needImport package path => exact Nat.le_refl _
  | console console => exact Nat.le_refl _
  | dress front back _ => simp only [depthOfStmts_append, depthOfStmts_cons]; omega
  | adjust hpart h => exact Nat.le_of_eq (h.depth_eq hpart.adjusts)
  | query front back method _ _ _ _ _ =>
      simp only [depthOfStmts_append, depthOfStmts_cons, depth_mapPrimaryCall]
      omega
  | hand front back literal txn hkind _ =>
      simp only [depthOfStmts_append, depthOfStmts_cons, hkind, SpawnedLiteral.depth_handed]
      omega
  | insert front back h =>
      simp only [depthOfStmts_append, depthOfStmts_cons, h.depth_eq]
      omega
  | precede front back h _ _ =>
      simp only [depthOfStmts_append, depthOfStmts_cons, h.depth_eq]
      omega
  | nested front back h _ ih =>
      have hkind := h.depth_le ih
      simp only [depthOfStmts_append, depthOfStmts_cons]
      omega
  | insertInside front back h haddition =>
      have hkind := h.depth_le (by rw [depthOfStmts_cons, haddition.depth_eq]; omega)
      simp only [depthOfStmts_append, depthOfStmts_cons]
      omega
  | enter hands _ _ h _ _ _ => exact Nat.le_of_eq (h.depth_eq (.call hands.callee_eq))

end TraceWeave.Tracing
