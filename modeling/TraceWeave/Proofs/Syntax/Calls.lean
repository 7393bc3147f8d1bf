import Mathlib.Data.List.Forall2
import TraceWeave.Proofs.Syntax.Blocks
import TraceWeave.Syntax.Build

/-!
The calls that a tree holds.

Every call is listed with whether edits reach it.  They do not reach what is written back
verbatim: values of declarations, types of composite literals, targets of a range, and
headers of `else if` branches behind a label.  What holds of all calls still does after a
change, if it holds of the calls in the new part and if calls around it keep it
(`StmtsRewrite.holds`).
-/

namespace TraceWeave.Syntax

/-- The name that is called was read from a source file. -/
def Call.isWritten (call : Call) : Bool :=
  match call.callee.unparen.kind with
  | .ident ident => !ident.isGenerated
  | .selector _ member => !member.isGenerated
  | _ => false

mutual

def Expr.calls (reached : Bool) : Expr → List (Bool × Call)
  | ⟨kind, _⟩ => kind.calls reached

def ExprKind.calls (reached : Bool) : ExprKind → List (Bool × Call)
  | .selector operand _ => operand.calls reached
  | .star operand => operand.calls reached
  | .unary _ operand => operand.calls reached
  | .paren inner => inner.calls reached
  | .binary left _ right => left.calls reached ++ right.calls reached
  | .call ⟨callee, args, spread, closesLine⟩ =>
      (reached, ⟨callee, args, spread, closesLine⟩) ::
        (callee.calls reached ++ callsOfExprs reached args)
  | .index operand indices => operand.calls reached ++ callsOfExprs reached indices
  | .composite (some type) _ => type.calls false
  | .func _ _ ⟨body, _, _⟩ => callsOfStmts reached body
  | _ => []

def callsOfExprs (reached : Bool) : List Expr → List (Bool × Call)
  | [] => []
  | expr :: exprs => expr.calls reached ++ callsOfExprs reached exprs

def StmtKind.calls (reached : Bool) (scope : EditScope) : StmtKind → List (Bool × Call)
  | .expr value => value.calls (reached && scope.hasOwn)
  | .spawn call => call.calls (reached && scope.hasOwn)
  | .defer call => call.calls (reached && scope.hasOwn)
  | .assign left _ right =>
      callsOfExprs (reached && scope.hasOwn) left ++ callsOfExprs (reached && scope.hasOwn) right
  | .ret results => callsOfExprs (reached && scope.hasOwn) results
  | .cond init test ⟨body, _, _⟩ alternative =>
      callsOfOptional (reached && scope.hasOwn) .own init ++
        (test.calls (reached && scope.hasOwn) ++
          (callsOfStmts (reached && scope.hasNested) body ++
            callsOfOptional (reached && scope.hasNested) scope.branch alternative))
  | .loop header ⟨body, _, _⟩ =>
      header.calls (reached && scope.hasOwn) ++ callsOfStmts (reached && scope.hasNested) body
  | .switch _ clauses _ => callsOfClauses (reached && scope.hasNested) clauses
  | .select clauses _ => callsOfClauses (reached && scope.hasNested) clauses
  | .block ⟨body, _, _⟩ => callsOfStmts (reached && scope.hasNested) body
  | .labeled _ ⟨kind, _⟩ => kind.calls reached scope.behindLabel
  | .decl ⟨_, specs⟩ => callsOfSpecs specs
  | .verbatim _ => []

def callsOfOptional (reached : Bool) (scope : EditScope) : Option Stmt → List (Bool × Call)
  | none => []
  | some ⟨kind, _⟩ => kind.calls reached scope

def LoopHeader.calls (reached : Bool) : LoopHeader → List (Bool × Call)
  | .cond test => test.calls reached
  | .range key value _ operand =>
      callsOfOptionalExpr key ++ (callsOfOptionalExpr value ++ operand.calls reached)
  | _ => []

def callsOfOptionalExpr : Option Expr → List (Bool × Call)
  | none => []
  | some expr => expr.calls false

def callsOfStmts (reached : Bool) : List Stmt → List (Bool × Call)
  | [] => []
  | ⟨kind, _⟩ :: stmts => kind.calls reached .full ++ callsOfStmts reached stmts

def callsOfClauses (reached : Bool) : List Clause → List (Bool × Call)
  | [] => []
  | ⟨_, body, _, _⟩ :: clauses => callsOfStmts reached body ++ callsOfClauses reached clauses

def callsOfSpecs : List Spec → List (Bool × Call)
  | [] => []
  | .value _ _ values _ :: specs => callsOfExprs false values ++ callsOfSpecs specs
  | .type _ _ _ :: specs => callsOfSpecs specs

end

/-! ## Lists -/

theorem callsOfExprs_append (reached : Bool) (front back : List Expr) :
    callsOfExprs reached (front ++ back) = callsOfExprs reached front ++ callsOfExprs reached back := by
  induction front with
  | nil => simp [callsOfExprs]
  | cons expr front ih => simp [callsOfExprs, ih]

theorem callsOfStmts_cons (reached : Bool) (stmt : Stmt) (stmts : List Stmt) :
    callsOfStmts reached (stmt :: stmts) =
      stmt.kind.calls reached .full ++ callsOfStmts reached stmts := by
  cases stmt
  simp [callsOfStmts]

theorem callsOfStmts_append (reached : Bool) (front back : List Stmt) :
    callsOfStmts reached (front ++ back) = callsOfStmts reached front ++ callsOfStmts reached back := by
  induction front with
  | nil => simp [callsOfStmts]
  | cons stmt front ih => simp [callsOfStmts_cons, ih]

theorem StmtKind.calls_cond (reached : Bool) (scope : EditScope) (init : Option Stmt) (test : Expr)
    (body : Block) (alternative : Option Stmt) :
    (StmtKind.cond init test body alternative).calls reached scope =
      callsOfOptional (reached && scope.hasOwn) .own init ++
        (test.calls (reached && scope.hasOwn) ++
          (callsOfStmts (reached && scope.hasNested) body.stmts ++
            callsOfOptional (reached && scope.hasNested) scope.branch alternative)) := by
  cases body
  simp [StmtKind.calls]

theorem StmtKind.calls_loop (reached : Bool) (scope : EditScope) (header : LoopHeader)
    (body : Block) :
    (StmtKind.loop header body).calls reached scope =
      header.calls (reached && scope.hasOwn) ++
        callsOfStmts (reached && scope.hasNested) body.stmts := by
  cases body
  simp [StmtKind.calls]

theorem callsOfClauses_append (reached : Bool) (front back : List Clause) :
    callsOfClauses reached (front ++ back) =
      callsOfClauses reached front ++ callsOfClauses reached back := by
  induction front with
  | nil => simp [callsOfClauses]
  | cons clause front ih =>
      obtain ⟨head, body, trailing, decs⟩ := clause
      simp [callsOfClauses, ih]

/-! ## What holds of all calls -/

/-- A condition on calls and on whether edits reach them. -/
abbrev CallTest := Bool → Call → Prop

def Holds (P : CallTest) (entries : List (Bool × Call)) : Prop :=
  ∀ entry ∈ entries, P entry.1 entry.2

namespace Holds

variable {P P' : CallTest}

@[simp]
theorem nil : Holds P [] := fun _ h => nomatch h

@[simp]
theorem append {front back : List (Bool × Call)} :
    Holds P (front ++ back) ↔ Holds P front ∧ Holds P back := by
  simp only [Holds, List.forall_mem_append]

@[simp]
theorem cons {reached : Bool} {call : Call} {entries : List (Bool × Call)} :
    Holds P ((reached, call) :: entries) ↔ P reached call ∧ Holds P entries := by
  simp only [Holds, List.forall_mem_cons]

theorem imp {entries : List (Bool × Call)} (h : Holds P entries)
    (hP : ∀ reached call, P reached call → P' reached call) : Holds P' entries :=
  fun entry hmem => hP _ _ (h entry hmem)

end Holds

/-- Calls of a name that was not read from a source file. -/
abbrev unwritten : CallTest := fun _ call => call.isWritten = false

/-- The condition is one on calls that were read from a source file. -/
def CallTest.Ignores (P : CallTest) : Prop := ∀ reached call, unwritten reached call → P reached call

/-- The names of the calls that open or close something. -/
def boundaryNames : List String := ["StartTransaction", "StartExternalSegment", "End"]

/-- The condition holds of the other calls of names that were not read from a source file. -/
def CallTest.Admits (P : CallTest) : Prop :=
  ∀ reached call name, unwritten reached call → call.name? = some name → name ∉ boundaryNames →
    P reached call

theorem CallTest.Ignores.admits {P : CallTest} (hignores : P.Ignores) : P.Admits :=
  fun reached call _ hunwritten _ _ => hignores reached call hunwritten

/-! ## Generated calls -/

section

variable {P : CallTest} {reached : Bool}

@[simp]
theorem Expr.calls_ident (name : String) : (Expr.ident name).calls reached = [] := rfl

@[simp]
theorem Expr.calls_string (value : String) : (Expr.string value).calls reached = [] := rfl

/-- Room and comments around an expression do not matter. -/
@[simp]
theorem Expr.calls_redecorate (expr : Expr) (decs : Decorations) (reached : Bool) :
    ({ expr with decs } : Expr).calls reached = expr.calls reached := by
  cases expr
  simp [Expr.calls]

@[simp]
theorem StmtKind.calls_expr (value : Expr) :
    (StmtKind.expr value).calls true .full = value.calls true := rfl

@[simp]
theorem StmtKind.calls_defer (call : Expr) :
    (StmtKind.defer call).calls true .full = call.calls true := rfl

@[simp]
theorem StmtKind.calls_assign (left right : List Expr) (op : AssignOp) :
    (StmtKind.assign left op right).calls true .full =
      callsOfExprs true left ++ callsOfExprs true right := rfl

@[simp]
theorem holds_exprs_nil : Holds P (callsOfExprs reached []) := .nil

@[simp]
theorem holds_exprs_cons {expr : Expr} {exprs : List Expr} :
    Holds P (callsOfExprs reached (expr :: exprs)) ↔
      Holds P (expr.calls reached) ∧ Holds P (callsOfExprs reached exprs) := by
  simp only [callsOfExprs, Holds.append]

theorem holds_exprs {exprs : List Expr} :
    Holds P (callsOfExprs reached exprs) ↔ ∀ expr ∈ exprs, Holds P (expr.calls reached) := by
  induction exprs with
  | nil => simp
  | cons expr exprs ih => simp [ih]

theorem holds_stmts {stmts : List Stmt} :
    Holds P (callsOfStmts reached stmts) ↔ ∀ stmt ∈ stmts, Holds P (stmt.kind.calls reached .full) := by
  induction stmts with
  | nil => simp [callsOfStmts]
  | cons stmt stmts ih => simp [callsOfStmts_cons, ih]

theorem Expr.holds_call {call : Call} {decs : Decorations} (hcall : P reached call)
    (hcallee : Holds P (call.callee.calls reached))
    (hargs : Holds P (callsOfExprs reached call.args)) :
    Holds P ((⟨.call call, decs⟩ : Expr).calls reached) := by
  cases call
  simp only [Expr.calls, ExprKind.calls, Holds.cons, Holds.append]
  exact ⟨hcall, hcallee, hargs⟩

theorem Expr.holds_of_holds_call {call : Call} {decs : Decorations}
    (h : Holds P ((⟨.call call, decs⟩ : Expr).calls reached)) :
    P reached call ∧ Holds P (call.callee.calls reached) ∧
      Holds P (callsOfExprs reached call.args) := by
  cases call
  simpa only [Expr.calls, ExprKind.calls, Holds.cons, Holds.append] using h

/-- A member that was not read from a source file is called. -/
theorem Expr.holds_member (hignores : P.Ignores) {operand : Expr} {member : String}
    {args : List Expr} (hoperand : Holds P (operand.calls reached))
    (hargs : Holds P (callsOfExprs reached args)) :
    Holds P ((Expr.call (.selector operand member) args).calls reached) :=
  Expr.holds_call (hignores _ _ rfl) hoperand hargs

theorem Expr.holds_named (hadmits : P.Admits) {operand : Expr} {member : String} {args : List Expr}
    (hmember : member ∉ boundaryNames) (hoperand : Holds P (operand.calls reached))
    (hargs : Holds P (callsOfExprs reached args)) :
    Holds P ((Expr.call (.selector operand member) args).calls reached) :=
  Expr.holds_call (hadmits _ _ _ rfl rfl hmember) hoperand hargs

theorem Call.length_addArg (call : Call) (arg : Expr) :
    (call.addArg arg).args.length = call.args.length + 1 := by
  simp [Call.addArg]

theorem Call.holds_addArg {call : Call} {arg : Expr} (hargs : Holds P (callsOfExprs reached call.args))
    (harg : Holds P (arg.calls reached)) : Holds P (callsOfExprs reached (call.addArg arg).args) := by
  rw [holds_exprs] at hargs ⊢
  intro expr hmem
  obtain hmem | hmem := List.mem_append.1 hmem
  · exact hargs expr hmem
  · obtain rfl := List.mem_singleton.1 hmem
    split
    · rwa [Expr.calls_redecorate]
    · exact harg

end

/-! ## Changes of a part -/

section

variable (literals : Bool) (part part' : Expr)

/-- What a change of a part makes of a call that may have the part inside. -/
inductive Around : Bool × Call → Bool × Call → Prop where
  | same (entry : Bool × Call) : Around entry entry
  | callee {callee callee' : Expr} {args : List Expr} {spread closesLine : Bool} :
      Expr.Rewrites literals part part' callee callee' →
      Around (true, ⟨callee, args, spread, closesLine⟩) (true, ⟨callee', args, spread, closesLine⟩)
  | arg {callee arg arg' : Expr} {front back : List Expr} {spread closesLine : Bool} :
      Expr.Rewrites literals part part' arg arg' →
      Around (true, ⟨callee, front ++ arg :: back, spread, closesLine⟩)
        (true, ⟨callee, front ++ arg' :: back, spread, closesLine⟩)

/-- The calls of a part have been replaced; the calls around it stand in front of them. -/
def CallsChange (entries entries' : List (Bool × Call)) : Prop :=
  ∃ front front' back, entries = front ++ (part.calls true ++ back) ∧
    entries' = front' ++ (part'.calls true ++ back) ∧
    List.Forall₂ (Around literals part part') front front'

end

section

variable {literals : Bool} {part part' : Expr}

namespace CallsChange

variable {entries entries' : List (Bool × Call)}

theorem here : CallsChange literals part part' (part.calls true) (part'.calls true) :=
  ⟨[], [], [], by simp, by simp, .nil⟩

theorem behind (h : CallsChange literals part part' entries entries')
    (before : List (Bool × Call)) :
    CallsChange literals part part' (before ++ entries) (before ++ entries') := by
  obtain ⟨front, front', back, rfl, rfl, hfront⟩ := h
  refine ⟨before ++ front, before ++ front', back, by simp, by simp, ?_⟩
  exact List.rel_append (List.forall₂_same.2 fun entry _ => .same entry) hfront

theorem before (h : CallsChange literals part part' entries entries')
    (after : List (Bool × Call)) :
    CallsChange literals part part' (entries ++ after) (entries' ++ after) := by
  obtain ⟨front, front', back, rfl, rfl, hfront⟩ := h
  exact ⟨front, front', back ++ after, by simp, by simp, hfront⟩

theorem inside (h : CallsChange literals part part' entries entries') {entry entry' : Bool × Call}
    (haround : Around literals part part' entry entry') :
    CallsChange literals part part' (entry :: entries) (entry' :: entries') := by
  obtain ⟨front, front', back, rfl, rfl, hfront⟩ := h
  exact ⟨entry :: front, entry' :: front', back, rfl, rfl, .cons haround hfront⟩

end CallsChange

mutual

theorem Expr.Rewrites.calls : ∀ {expr expr' : Expr}, Expr.Rewrites literals part part' expr expr' →
    CallsChange literals part part' (expr.calls true) (expr'.calls true)
  | _, _, .here => .here
  | _, _, .selector h => by
      simp only [Expr.calls, ExprKind.calls]
      exact h.calls
  | _, _, .star h => by
      simp only [Expr.calls, ExprKind.calls]
      exact h.calls
  | _, _, .unary h => by
      simp only [Expr.calls, ExprKind.calls]
      exact h.calls
  | _, _, .paren h => by
      simp only [Expr.calls, ExprKind.calls]
      exact h.calls
  | _, _, .left h => by
      simp only [Expr.calls, ExprKind.calls]
      exact h.calls.before _
  | _, _, .right h => by
      simp only [Expr.calls, ExprKind.calls]
      exact h.calls.behind _
  | _, _, .callee h => by
      simp only [Expr.calls, ExprKind.calls]
      exact (h.calls.before _).inside (.callee h)
  | _, _, .arg h => by
      simp only [Expr.calls, ExprKind.calls, callsOfExprs_append, callsOfExprs]
      exact (((h.calls.before _).behind _).behind _).inside (.arg h)
  | _, _, .operand h => by
      simp only [Expr.calls, ExprKind.calls]
      exact h.calls.before _
  | _, _, .index h => by
      simp only [Expr.calls, ExprKind.calls, callsOfExprs_append, callsOfExprs]
      exact ((h.calls.before _).behind _).behind _
  | _, _, .body _ h => by
      simp only [Expr.calls, ExprKind.calls]
      exact h.calls

theorem StmtKind.Rewrites.calls : ∀ {scope : EditScope} {kind kind' : StmtKind},
    StmtKind.Rewrites literals part part' scope kind kind' →
      CallsChange literals part part' (kind.calls true scope) (kind'.calls true scope)
  | _, _, _, .expr hown h => by
      simp only [StmtKind.calls, hown, Bool.and_self]
      exact h.calls
  | _, _, _, .spawn hown h => by
      simp only [StmtKind.calls, hown, Bool.and_self]
      exact h.calls
  | _, _, _, .defer hown h => by
      simp only [StmtKind.calls, hown, Bool.and_self]
      exact h.calls
  | _, _, _, .target hown h => by
      simp only [StmtKind.calls, hown, Bool.and_self, callsOfExprs_append, callsOfExprs]
      exact ((h.calls.before _).behind _).before _
  | _, _, _, .value hown h => by
      simp only [StmtKind.calls, hown, Bool.and_self, callsOfExprs_append, callsOfExprs]
      exact ((h.calls.before _).behind _).behind _
  | _, _, _, .result hown h => by
      simp only [StmtKind.calls, hown, Bool.and_self, callsOfExprs_append, callsOfExprs]
      exact (h.calls.before _).behind _
  | _, _, _, .init hown h => by
      simp only [StmtKind.calls_cond, hown, Bool.and_self, callsOfOptional]
      exact h.calls.before _
  | _, _, _, .test hown h => by
      simp only [StmtKind.calls_cond, hown, Bool.and_self]
      exact (h.calls.before _).behind _
  | _, _, _, .branch hnested h => by
      simp only [StmtKind.calls_cond, hnested, Bool.and_self]
      exact ((h.calls.before _).behind _).behind _
  | _, _, _, .alternative hnested h => by
      simp only [StmtKind.calls_cond, hnested, Bool.and_self, callsOfOptional]
      exact ((h.calls.behind _).behind _).behind _
  | _, _, _, .loopTest hown h => by
      simp only [StmtKind.calls_loop, LoopHeader.calls, hown, Bool.and_self]
      exact h.calls.before _
  | _, _, _, .range hown h => by
      simp only [StmtKind.calls_loop, LoopHeader.calls, hown, Bool.and_self]
      exact ((h.calls.behind _).behind _).before _
  | _, _, _, .loopBody hnested h => by
      simp only [StmtKind.calls_loop, hnested, Bool.and_self]
      exact h.calls.behind _
  | _, _, _, .switchClause hnested h => by
      simp only [StmtKind.calls, hnested, Bool.and_self, callsOfClauses_append, callsOfClauses]
      exact (h.calls.before _).behind _
  | _, _, _, .selectClause hnested h => by
      simp only [StmtKind.calls, hnested, Bool.and_self, callsOfClauses_append, callsOfClauses]
      exact (h.calls.before _).behind _
  | _, _, _, .block hnested h => by
      simp only [StmtKind.calls, hnested, Bool.and_self]
      exact h.calls
  | _, _, _, .labeled h => by
      simp only [StmtKind.calls]
      exact h.calls

theorem StmtsRewrite.calls : ∀ {stmts stmts' : List Stmt},
    StmtsRewrite literals part part' stmts stmts' →
      CallsChange literals part part' (callsOfStmts true stmts) (callsOfStmts true stmts')
  | _, _, .within front h => by
      simp only [callsOfStmts_append, callsOfStmts]
      exact (h.calls.before _).behind _

end

end

/-- What holds of the calls before a part changes, and what holds of them then. -/
structure CallTest.Stays (P P' : CallTest) (literals : Bool) (part part' : Expr) : Prop where
  weaken : ∀ reached call, P reached call → P' reached call
  inside : Holds P (part.calls true) → Holds P' (part'.calls true)
  callee : ∀ {callee callee' : Expr} {args : List Expr} {spread closesLine : Bool},
    Expr.Rewrites literals part part' callee callee' →
    P true ⟨callee, args, spread, closesLine⟩ → P' true ⟨callee', args, spread, closesLine⟩
  arg : ∀ {callee arg arg' : Expr} {front back : List Expr} {spread closesLine : Bool},
    Expr.Rewrites literals part part' arg arg' →
    P true ⟨callee, front ++ arg :: back, spread, closesLine⟩ →
      P' true ⟨callee, front ++ arg' :: back, spread, closesLine⟩

section

variable {P P' : CallTest} {literals : Bool} {part part' : Expr}

theorem Around.holds (stays : P.Stays P' literals part part') {entry entry' : Bool × Call}
    (h : Around literals part part' entry entry') (hentry : P entry.1 entry.2) :
    P' entry'.1 entry'.2 := by
  cases h with
  | same _ => exact stays.weaken _ _ hentry
  | callee h => exact stays.callee h hentry
  | arg h => exact stays.arg h hentry

theorem CallsChange.holds (stays : P.Stays P' literals part part')
    {entries entries' : List (Bool × Call)} (h : CallsChange literals part part' entries entries')
    (hentries : Holds P entries) : Holds P' entries' := by
  obtain ⟨front, front', back, rfl, rfl, haround⟩ := h
  simp only [Holds.append] at hentries ⊢
  obtain ⟨hfront, hpart, hback⟩ := hentries
  refine ⟨?_, stays.inside hpart, hback.imp stays.weaken⟩
  clear hpart hback
  induction haround with
  | nil => exact .nil
  | cons haround _ ih =>
      rw [Holds.cons] at hfront ⊢
      exact ⟨haround.holds stays hfront.1, ih hfront.2⟩

end

/-! ## Lists inside statements -/

/-- The calls of a list are calls of the statement that it is in, and the others stay. -/
theorem StmtKind.Replaces.calls {stmts stmts' : List Stmt} {kind kind' : StmtKind}
    (h : StmtKind.Replaces stmts stmts' kind kind') (scope : EditScope)
    (hscope : scope.hasNested = true) :
    ∃ front back, kind.calls true scope = front ++ (callsOfStmts true stmts ++ back) ∧
      kind'.calls true scope = front ++ (callsOfStmts true stmts' ++ back) := by
  induction h generalizing scope with
  | branch _ =>
      simp only [StmtKind.calls_cond, hscope, Bool.and_self, ← List.append_assoc _ (Expr.calls _ _)]
      exact ⟨_, _, rfl, rfl⟩
  | alternative _ ih =>
      have hbranch : scope.branch.hasNested = true := by cases scope <;> rfl
      obtain ⟨front, back, hold, hnew⟩ := ih _ hbranch
      simp only [StmtKind.calls_cond, hscope, Bool.and_self, callsOfOptional, hold, hnew,
        ← List.append_assoc _ front]
      simp only [← List.append_assoc _ (_ ++ front), ← List.append_assoc _ (_ ++ (_ ++ front))]
      exact ⟨_, back, rfl, rfl⟩
  | loop =>
      simp only [StmtKind.calls_loop, hscope, Bool.and_self]
      exact ⟨_, [], by rw [List.append_nil], by rw [List.append_nil]⟩
  | switch =>
      simp only [StmtKind.calls, hscope, Bool.and_self, callsOfClauses_append, callsOfClauses]
      exact ⟨_, _, rfl, rfl⟩
  | select =>
      simp only [StmtKind.calls, hscope, Bool.and_self, callsOfClauses_append, callsOfClauses]
      exact ⟨_, _, rfl, rfl⟩
  | block =>
      simp only [StmtKind.calls, hscope, Bool.and_self]
      exact ⟨[], [], by simp, by simp⟩
  | labeled _ ih =>
      simp only [StmtKind.calls]
      exact ih _ (by cases scope <;> simp_all [EditScope.behindLabel, EditScope.hasNested])

theorem StmtKind.Nests.holds {P P' : CallTest}
    (hP : ∀ reached call, P reached call → P' reached call) (hignores : P'.Ignores)
    {stmts stmts' : List Stmt} {kind kind' : StmtKind} (h : StmtKind.Nests stmts stmts' kind kind')
    (hcalls : Holds P (kind.calls true .full)) :
    Holds P (callsOfStmts true stmts) ∧
      (Holds P' (callsOfStmts true stmts') → Holds P' (kind'.calls true .full)) := by
  cases h with
  | block h =>
      obtain ⟨front, back, hold, hnew⟩ := h.calls .full rfl
      rw [hold, Holds.append, Holds.append] at hcalls
      obtain ⟨hfront, hinner, hback⟩ := hcalls
      refine ⟨hinner, fun hstmts => ?_⟩
      rw [hnew, Holds.append, Holds.append]
      exact ⟨hfront.imp hP, hstmts, hback.imp hP⟩
  | spawned =>
      obtain ⟨-, hbody, hargs⟩ := Expr.holds_of_holds_call hcalls
      -- no name calls a literal
      exact ⟨hbody, fun hnew => Expr.holds_call (hignores _ _ rfl) hnew (hargs.imp hP)⟩

end TraceWeave.Syntax
