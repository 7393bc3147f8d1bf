import TraceWeave.Proofs.Syntax.Lists

/-!
The calls that edits visit while they leave function literals alone.

Edits of the calls of a statement offer every open call of it once, the calls inside a call
in front of it (`StmtKind.edit_offers`).  What visits keep of one call and bring to it, they
bring to all of them (`Visited.brings`).
-/

namespace TraceWeave.Syntax

/-! ## Open calls -/

mutual

/-- The calls of an expression outside function literals, in the order in which they are edited. -/
def Expr.openCalls : Expr → List Call
  | ⟨kind, _⟩ => kind.openCalls

def ExprKind.openCalls : ExprKind → List Call
  | .selector operand _ => operand.openCalls
  | .star operand => operand.openCalls
  | .unary _ operand => operand.openCalls
  | .paren inner => inner.openCalls
  | .binary left _ right => left.openCalls ++ right.openCalls
  | .call ⟨callee, args, spread, closesLine⟩ =>
      callee.openCalls ++ openCallsOfExprs args ++ [⟨callee, args, spread, closesLine⟩]
  | .index operand indices => operand.openCalls ++ openCallsOfExprs indices
  | _ => []

def openCallsOfExprs : List Expr → List Call
  | [] => []
  | expr :: exprs => expr.openCalls ++ openCallsOfExprs exprs

end

def LoopHeader.openCalls : LoopHeader → List Call
  | .cond test => test.openCalls
  | .range _ _ _ operand => operand.openCalls
  | _ => []

/-- The open calls of the own expressions of a statement, declarations aside. -/
def StmtKind.openCalls : StmtKind → List Call
  | .expr value => value.openCalls
  | .spawn call => call.openCalls
  | .defer call => call.openCalls
  | .assign left _ right => openCallsOfExprs left ++ openCallsOfExprs right
  | .ret results => openCallsOfExprs results
  | .cond init test _ _ =>
      (match init with
        | some ⟨kind, _⟩ => kind.openCalls
        | none => []) ++ test.openCalls
  | .loop header _ => header.openCalls
  | .labeled _ ⟨kind, _⟩ => kind.openCalls
  | _ => []

theorem openCallsOfExprs_append (front back : List Expr) :
    openCallsOfExprs (front ++ back) = openCallsOfExprs front ++ openCallsOfExprs back := by
  induction front with
  | nil => rfl
  | cons expr front ih => simp [openCallsOfExprs, ih]

theorem mem_openCallsOfExprs {call : Call} {exprs : List Expr} :
    call ∈ openCallsOfExprs exprs ↔ ∃ expr ∈ exprs, call ∈ expr.openCalls := by
  induction exprs with
  | nil => simp [openCallsOfExprs]
  | cons expr exprs ih => simp [openCallsOfExprs, ih]

theorem Expr.openCalls_call (call : Call) (decs : Decorations) :
    (⟨.call call, decs⟩ : Expr).openCalls =
      call.callee.openCalls ++ openCallsOfExprs call.args ++ [call] := by
  cases call
  simp [Expr.openCalls, ExprKind.openCalls]

@[simp]
theorem Expr.openCalls_redecorate (expr : Expr) (decs : Decorations) :
    ({ expr with decs } : Expr).openCalls = expr.openCalls := by
  cases expr
  simp [Expr.openCalls]

/-! ## Written calls -/

/-- The written calls of the second list are in the first one. -/
def WrittenAmong (calls calls' : List Call) : Prop :=
  ∀ call ∈ calls', call.isWritten = true → call ∈ calls

namespace WrittenAmong

variable {calls calls' calls'' : List Call}

theorem refl : WrittenAmong calls calls := fun _ hmem _ => hmem

theorem trans (h : WrittenAmong calls calls') (h' : WrittenAmong calls' calls'') :
    WrittenAmong calls calls'' :=
  fun call hmem hwritten => h call (h' call hmem hwritten) hwritten

theorem append {calls₁ calls₁' : List Call} (h : WrittenAmong calls calls')
    (h₁ : WrittenAmong calls₁ calls₁') : WrittenAmong (calls ++ calls₁) (calls' ++ calls₁') := by
  intro call hmem hwritten
  obtain hmem | hmem := List.mem_append.1 hmem
  · exact List.mem_append_left _ (h call hmem hwritten)
  · exact List.mem_append_right _ (h₁ call hmem hwritten)

theorem nil : WrittenAmong calls [] := fun _ hmem => nomatch hmem

theorem of_append (h : WrittenAmong calls calls') (h' : WrittenAmong calls calls'') :
    WrittenAmong calls (calls' ++ calls'') := by
  intro call hmem hwritten
  obtain hmem | hmem := List.mem_append.1 hmem
  · exact h call hmem hwritten
  · exact h' call hmem hwritten

theorem unwritten {call : Call} (h : call.isWritten = false) : WrittenAmong calls [call] := by
  intro other hmem hwritten
  obtain rfl := List.mem_singleton.1 hmem
  exact absurd (hwritten.symm.trans h) (by decide)

theorem exprs {calls : List Call} {exprs : List Expr}
    (h : ∀ expr ∈ exprs, WrittenAmong calls expr.openCalls) :
    WrittenAmong calls (openCallsOfExprs exprs) := by
  intro call hmem hwritten
  obtain ⟨expr, hexpr, hmem⟩ := mem_openCallsOfExprs.1 hmem
  exact h expr hexpr call hmem hwritten

/-- A call of a name that was not read from a source file. -/
theorem call {call : Call} {decs : Decorations} (hunwritten : call.isWritten = false)
    (hcallee : WrittenAmong calls call.callee.openCalls)
    (hargs : ∀ arg ∈ call.args, WrittenAmong calls arg.openCalls) :
    WrittenAmong calls (⟨.call call, decs⟩ : Expr).openCalls := by
  rw [Expr.openCalls_call]
  exact (hcallee.of_append (.exprs hargs)).of_append (.unwritten hunwritten)

/-- A member that was not read from a source file is called. -/
theorem member {operand : Expr} {member : String} {args : List Expr}
    (hoperand : WrittenAmong calls operand.openCalls)
    (hargs : ∀ arg ∈ args, WrittenAmong calls arg.openCalls) :
    WrittenAmong calls (Expr.call (.selector operand member) args).openCalls :=
  .call rfl hoperand hargs

end WrittenAmong

/-! ## Visits one after the other -/

section

variable {m : Type → Type} [Monad m] {σ : Type}

section

variable (threaded : Threaded m σ) (visit : Call → m Call) (R : Call → Call → Prop)

/--
Calls have been visited in order, once each.  By the time that a call is visited, the visits
inside it have made a call of it that `R` relates it to.
-/
inductive Visited : List Call → σ → List Call → σ → Prop where
  | nil {s : σ} : Visited [] s [] s
  | cons {call call' : Call} {calls results : List Call} {s s' : σ} :
      R call call' → Visited calls (threaded.run (visit call') s).2 results s' →
      Visited (call :: calls) s ((threaded.run (visit call') s).1 :: results) s'

variable (I : σ → Prop)

/-- Calls have been visited, and the written ones of other calls are what they have become. -/
def Offers (calls : List Call) (s : σ) (calls' : List Call) (s' : σ) : Prop :=
  I s → I s' ∧ ∃ results, Visited threaded visit R calls s results s' ∧ WrittenAmong results calls'

/-- A visit leaves the callee alone and generates what it adds to the arguments. -/
structure VisitsOpen : Prop where
  keeps : ∀ call s, I s → I (threaded.run (visit call) s).2
  inside : ∀ (callee : Expr) (args : List Expr) (spread closesLine : Bool) (s s' : σ), I s → I s' →
    R ⟨callee, args, spread, closesLine⟩
      ⟨(threaded.run (callee.edit (Edits.calls false visit)) s).1,
        (threaded.run (editExprs (Edits.calls false visit) args) s').1, spread, closesLine⟩
  callee : ∀ call s, (threaded.run (visit call) s).1.callee = call.callee
  args : ∀ call s, WrittenAmong (openCallsOfExprs call.args)
    (openCallsOfExprs (threaded.run (visit call) s).1.args)

end

variable {threaded : Threaded m σ} {visit : Call → m Call} {R : Call → Call → Prop} {I : σ → Prop}

theorem Visited.append {calls calls' results results' : List Call} {s s' s'' : σ}
    (h : Visited threaded visit R calls s results s')
    (h' : Visited threaded visit R calls' s' results' s'') :
    Visited threaded visit R (calls ++ calls') s (results ++ results') s'' := by
  induction h with
  | nil => exact h'
  | cons hcall _ ih => exact .cons hcall (ih h')

/-- What a visit brings to its call, and the others keep, the visits bring to all calls. -/
theorem Visited.brings (I : σ → Prop) (P : Call → Prop) (Q : σ → Call → Prop)
    {calls results : List Call} {s s' : σ}
    (h : Visited threaded visit R calls s results s') (hs : I s) (hcalls : ∀ call ∈ calls, P call)
    (hinside : ∀ {call call'}, R call call' → P call → P call')
    (hvisit : ∀ {s call}, I s → P call →
      I (threaded.run (visit call) s).2 ∧
        Q (threaded.run (visit call) s).2 (threaded.run (visit call) s).1 ∧
        ∀ other, Q s other → Q (threaded.run (visit call) s).2 other) :
    (∀ call ∈ results, Q s' call) ∧ ∀ other, Q s other → Q s' other := by
  induction h with
  | nil => exact ⟨List.forall_mem_nil _, fun _ => id⟩
  | cons hcall _ ih =>
      rw [List.forall_mem_cons] at hcalls
      obtain ⟨hs', hresult, hkeeps⟩ := hvisit hs (hinside hcall hcalls.1)
      obtain ⟨hresults, hkeeps'⟩ := ih hs' hcalls.2
      exact ⟨List.forall_mem_cons.2 ⟨hkeeps' _ hresult, hresults⟩,
        fun other h => hkeeps' other (hkeeps other h)⟩

namespace Offers

variable {calls calls' calls'' others others' : List Call} {s s' s'' : σ}

theorem nil : Offers threaded visit R I [] s [] s := fun hs => ⟨hs, [], .nil, .nil⟩

theorem append (h : Offers threaded visit R I calls s calls' s')
    (h' : Offers threaded visit R I others s' others' s'') :
    Offers threaded visit R I (calls ++ others) s (calls' ++ others') s'' := by
  intro hs
  obtain ⟨hs', results, hvisited, hamong⟩ := h hs
  obtain ⟨hs'', results', hvisited', hamong'⟩ := h' hs'
  exact ⟨hs'', results ++ results', hvisited.append hvisited', hamong.append hamong'⟩

/-- A call is offered behind what is inside it. -/
theorem call {call call' : Call}
    (h : Offers threaded visit R I calls s (calls' ++ openCallsOfExprs call'.args) s')
    (visits : VisitsOpen threaded visit R I) (hcall : I s → R call call') :
    Offers threaded visit R I (calls ++ [call]) s
      (calls' ++ openCallsOfExprs (threaded.run (visit call') s').1.args ++
        [(threaded.run (visit call') s').1]) (threaded.run (visit call') s').2 := by
  intro hs
  obtain ⟨hs', results, hvisited, hamong⟩ := h hs
  refine ⟨visits.keeps call' s' hs', _, hvisited.append (.cons (hcall hs) .nil), ?_⟩
  exact (hamong.trans (.append .refl (visits.args call' s'))).append .refl

end Offers

mutual

theorem Expr.edit_offers (visits : VisitsOpen threaded visit R I) (expr : Expr) (s : σ) :
    Offers threaded visit R I expr.openCalls s
      (threaded.run (expr.edit (Edits.calls false visit)) s).1.openCalls
      (threaded.run (expr.edit (Edits.calls false visit)) s).2 := by
  obtain ⟨kind, decs⟩ := expr
  simp only [Expr.edit, Threaded.run_bind, Threaded.run_pure]
  exact kind.edit_offers visits s

theorem ExprKind.edit_offers (visits : VisitsOpen threaded visit R I) (kind : ExprKind) (s : σ) :
    Offers threaded visit R I kind.openCalls s
      (threaded.run (kind.edit (Edits.calls false visit)) s).1.openCalls
      (threaded.run (kind.edit (Edits.calls false visit)) s).2 := by
  cases kind with
  | ident ident =>
      simp only [ExprKind.edit, Edits.calls, Threaded.run_map, Threaded.run_pure]
      exact .nil
  | selector operand member =>
      simp only [ExprKind.edit, Threaded.run_bind, Threaded.run_pure]
      exact operand.edit_offers visits s
  | star operand =>
      simp only [ExprKind.edit, Threaded.run_bind, Threaded.run_pure]
      exact operand.edit_offers visits s
  | unary op operand =>
      simp only [ExprKind.edit, Threaded.run_bind, Threaded.run_pure]
      exact operand.edit_offers visits s
  | paren inner =>
      simp only [ExprKind.edit, Threaded.run_bind, Threaded.run_pure]
      exact inner.edit_offers visits s
  | binary left op right =>
      simp only [ExprKind.edit, Threaded.run_bind, Threaded.run_pure]
      exact (left.edit_offers visits s).append (right.edit_offers visits _)
  | call call =>
      obtain ⟨callee, args, spread, closesLine⟩ := call
      simp only [ExprKind.edit, Threaded.run_bind, Threaded.run_pure]
      have hcallee := callee.edit_offers visits s
      have hinside := hcallee.append (editExprs_offers visits args _)
      show Offers threaded visit R I _ s (⟨.call _, {}⟩ : Expr).openCalls _
      rw [Expr.openCalls_call, show (Edits.calls false visit).call = visit from rfl, visits.callee]
      exact hinside.call visits fun hs =>
        visits.inside callee args spread closesLine s _ hs (hcallee hs).1
  | index operand indices =>
      simp only [ExprKind.edit, Threaded.run_bind, Threaded.run_pure]
      exact (operand.edit_offers visits s).append (editExprs_offers visits indices _)
  | func params results body =>
      obtain ⟨stmts, trailing, inline⟩ := body
      simp only [ExprKind.edit, Edits.calls, editIf, Bool.false_eq_true, if_false,
        Threaded.run_bind, Threaded.run_pure]
      exact .nil
  | literal text =>
      simp only [ExprKind.edit, Threaded.run_pure]
      exact .nil
  | composite type body =>
      simp only [ExprKind.edit, Threaded.run_pure]
      exact .nil
  | verbatim text =>
      simp only [ExprKind.edit, Threaded.run_pure]
      exact .nil

theorem editExprs_offers (visits : VisitsOpen threaded visit R I) (exprs : List Expr) (s : σ) :
    Offers threaded visit R I (openCallsOfExprs exprs) s
      (openCallsOfExprs (threaded.run (editExprs (Edits.calls false visit) exprs) s).1)
      (threaded.run (editExprs (Edits.calls false visit) exprs) s).2 := by
  cases exprs with
  | nil =>
      simp only [editExprs, Threaded.run_pure]
      exact .nil
  | cons expr exprs =>
      simp only [editExprs, Threaded.run_bind, Threaded.run_pure]
      exact (expr.edit_offers visits s).append (editExprs_offers visits exprs _)

end

theorem LoopHeader.edit_offers (visits : VisitsOpen threaded visit R I) (header : LoopHeader) (s : σ) :
    Offers threaded visit R I header.openCalls s
      (threaded.run (header.edit (Edits.calls false visit)) s).1.openCalls
      (threaded.run (header.edit (Edits.calls false visit)) s).2 := by
  cases header with
  | cond test =>
      simp only [LoopHeader.edit, Threaded.run_bind, Threaded.run_pure]
      exact test.edit_offers visits s
  | range key value op operand =>
      simp only [LoopHeader.edit, Threaded.run_bind, Threaded.run_pure]
      exact operand.edit_offers visits s
  | infinite =>
      simp only [LoopHeader.edit, Threaded.run_pure]
      exact .nil
  | clauses text =>
      simp only [LoopHeader.edit, Threaded.run_pure]
      exact .nil

/-- The edit of a statement itself offers its open calls. -/
theorem StmtKind.edit_offers (visits : VisitsOpen threaded visit R I) (kind : StmtKind) (s : σ) :
    Offers threaded visit R I kind.openCalls s
      (threaded.run (kind.edit (Edits.calls false visit) .own) s).1.openCalls
      (threaded.run (kind.edit (Edits.calls false visit) .own) s).2 := by
  have hown : EditScope.own.hasOwn = true := rfl
  have hnested : EditScope.own.hasNested = false := rfl
  match kind with
  | .expr value =>
      simp only [StmtKind.edit, editIf, hown, if_true, Threaded.run_bind, Threaded.run_pure]
      exact value.edit_offers visits s
  | .spawn call =>
      simp only [StmtKind.edit, editIf, hown, if_true, Threaded.run_bind, Threaded.run_pure]
      exact call.edit_offers visits s
  | .defer call =>
      simp only [StmtKind.edit, editIf, hown, if_true, Threaded.run_bind, Threaded.run_pure]
      exact call.edit_offers visits s
  | .assign left op right =>
      simp only [StmtKind.edit, editIf, hown, if_true, Threaded.run_bind, Threaded.run_pure]
      exact (editExprs_offers visits left s).append (editExprs_offers visits right _)
  | .ret results =>
      simp only [StmtKind.edit, editIf, hown, if_true, Threaded.run_bind, Threaded.run_pure]
      exact editExprs_offers visits results s
  | .cond none test ⟨body, trailing, inline⟩ alternative =>
      simp only [StmtKind.edit, editOptional, editIf, hown, hnested, if_true, Bool.false_eq_true,
        if_false, Threaded.run_bind, Threaded.run_pure]
      exact test.edit_offers visits s
  | .cond (some ⟨init, decs⟩) test ⟨body, trailing, inline⟩ alternative =>
      simp only [StmtKind.edit, editOptional, editIf, hown, hnested, if_true, Bool.false_eq_true,
        if_false, Threaded.run_bind, Threaded.run_pure]
      exact (init.edit_offers visits s).append (test.edit_offers visits _)
  | .loop header ⟨body, trailing, inline⟩ =>
      simp only [StmtKind.edit, editIf, hown, hnested, if_true, Bool.false_eq_true, if_false,
        Threaded.run_bind, Threaded.run_pure]
      exact header.edit_offers visits s
  | .switch header clauses trailing =>
      simp only [StmtKind.edit, editIf, hnested, Bool.false_eq_true, if_false, Threaded.run_bind,
        Threaded.run_pure]
      exact .nil
  | .select clauses trailing =>
      simp only [StmtKind.edit, editIf, hnested, Bool.false_eq_true, if_false, Threaded.run_bind,
        Threaded.run_pure]
      exact .nil
  | .block ⟨body, trailing, inline⟩ =>
      simp only [StmtKind.edit, editIf, hnested, Bool.false_eq_true, if_false, Threaded.run_bind,
        Threaded.run_pure]
      exact .nil
  | .labeled label ⟨kind, decs⟩ =>
      simp only [StmtKind.edit, Threaded.run_bind, Threaded.run_pure]
      exact kind.edit_offers visits s
  | .decl group =>
      simp only [StmtKind.edit, Threaded.run_pure]
      exact .nil
  | .verbatim text =>
      simp only [StmtKind.edit, Threaded.run_pure]
      exact .nil

end

/-! ## Calls that a walk offers -/

/-- The calls that are offered where a statement is met: of a goroutine, the call and its arguments. -/
def StmtKind.offered : StmtKind → List Call
  | .spawn value =>
      match value.call? with
      | some call => openCallsOfExprs call.args ++ [call]
      | none => []
  | kind => kind.openCalls

/-- The calls that are offered on a walk through a list and the blocks in it. -/
inductive Walked : List Stmt → Call → Prop where
  | offered {stmts : List Stmt} {stmt : Stmt} {call : Call} :
      stmt ∈ stmts → call ∈ stmt.kind.offered → Walked stmts call
  | inside {stmts block : List Stmt} {stmt : Stmt} {call : Call} :
      stmt ∈ stmts → block ∈ stmt.kind.blocks → Walked block call → Walked stmts call

/-- The call is one that edits reach, and one of the parts. -/
structure IsOpen (entries : List (Bool × Call)) (parts : List Expr) (call : Call) : Prop where
  reached : (true, call) ∈ entries
  part : ∃ part ∈ parts, part.call? = some call

theorem IsOpen.mono {entries entries' : List (Bool × Call)} {parts parts' : List Expr} {call : Call}
    (h : IsOpen entries parts call) (hentries : entries ⊆ entries') (hparts : parts ⊆ parts') :
    IsOpen entries' parts' call := by
  obtain ⟨part, hpart, hcall⟩ := h.part
  exact ⟨hentries h.reached, part, hparts hpart, hcall⟩

/-- A call of one of two lists. -/
theorem isOpen_append {entries₁ entries₂ : List (Bool × Call)} {parts₁ parts₂ : List Expr}
    {calls₁ calls₂ : List Call} (h₁ : ∀ call ∈ calls₁, IsOpen entries₁ parts₁ call)
    (h₂ : ∀ call ∈ calls₂, IsOpen entries₂ parts₂ call) :
    ∀ call ∈ calls₁ ++ calls₂, IsOpen (entries₁ ++ entries₂) (parts₁ ++ parts₂) call := by
  intro call hmem
  obtain hmem | hmem := List.mem_append.1 hmem
  · exact (h₁ call hmem).mono (List.subset_append_left ..) (List.subset_append_left ..)
  · exact (h₂ call hmem).mono (List.subset_append_right ..) (List.subset_append_right ..)

mutual

theorem Expr.isOpen (expr : Expr) :
    ∀ call ∈ expr.openCalls, IsOpen (expr.calls true) (expr.parts false) call := by
  obtain ⟨kind, decs⟩ := expr
  have hbehind : ∀ {entries : List (Bool × Call)} {parts : List Expr} {call : Call},
      IsOpen entries parts call → IsOpen entries (⟨kind, decs⟩ :: parts) call :=
    fun h => h.mono (List.Subset.refl _) (List.subset_cons_self ..)
  cases kind with
  | selector operand member => exact fun call hmem => hbehind (operand.isOpen call hmem)
  | star operand => exact fun call hmem => hbehind (operand.isOpen call hmem)
  | unary op operand => exact fun call hmem => hbehind (operand.isOpen call hmem)
  | paren inner => exact fun call hmem => hbehind (inner.isOpen call hmem)
  | binary left op right =>
      exact fun call hmem => hbehind (isOpen_append left.isOpen right.isOpen call hmem)
  | call call =>
      obtain ⟨callee, args, spread, closesLine⟩ := call
      intro call hmem
      obtain hinside | hcall := List.mem_append.1 hmem
      · have hopen := isOpen_append callee.isOpen (isOpenOfExprs args) call hinside
        exact hopen.mono (List.subset_cons_self ..) (List.subset_cons_self ..)
      · obtain rfl := List.mem_singleton.1 hcall
        exact ⟨List.mem_cons_self, _, List.mem_cons_self, rfl⟩
  | index operand indices =>
      exact fun call hmem => hbehind (isOpen_append operand.isOpen (isOpenOfExprs indices) call hmem)
  | _ => exact List.forall_mem_nil _

theorem isOpenOfExprs (exprs : List Expr) :
    ∀ call ∈ openCallsOfExprs exprs,
      IsOpen (callsOfExprs true exprs) (partsOfExprs false exprs) call := by
  cases exprs with
  | nil => exact List.forall_mem_nil _
  | cons expr exprs => exact isOpen_append expr.isOpen (isOpenOfExprs exprs)

end

theorem partsOfExprs_eq_flatMap (literals : Bool) (exprs : List Expr) :
    partsOfExprs literals exprs = exprs.flatMap (·.parts literals) := by
  induction exprs with
  | nil => rfl
  | cons expr exprs ih => rw [partsOfExprs, ih, List.flatMap_cons]

theorem StmtKind.isOpen (kind : StmtKind) (scope : EditScope) (hown : scope.hasOwn = true) :
    ∀ call ∈ kind.openCalls,
      IsOpen (kind.calls true scope) (kind.ownExprs.flatMap (·.parts false)) call := by
  have hone : ∀ expr : Expr, ∀ call ∈ expr.openCalls,
      IsOpen (expr.calls (true && scope.hasOwn)) ([expr].flatMap (·.parts false)) call := by
    intro expr call hmem
    rw [hown, List.flatMap_singleton]
    exact expr.isOpen call hmem
  have hmany : ∀ exprs : List Expr, ∀ call ∈ openCallsOfExprs exprs,
      IsOpen (callsOfExprs (true && scope.hasOwn) exprs) (exprs.flatMap (·.parts false)) call := by
    intro exprs call hmem
    rw [hown, ← partsOfExprs_eq_flatMap]
    exact isOpenOfExprs exprs call hmem
  match kind with
  | .expr value => exact hone value
  | .spawn value => exact hone value
  | .defer value => exact hone value
  | .assign left op right =>
      rw [StmtKind.ownExprs, List.flatMap_append]
      exact isOpen_append (hmany left) (hmany right)
  | .ret results => exact hmany results
  | .cond none test ⟨body, trailing, inline⟩ alternative =>
      intro call hmem
      exact (hone test call hmem).mono (List.subset_append_left ..) (List.Subset.refl _)
  | .cond (some ⟨init, decs⟩) test ⟨body, trailing, inline⟩ alternative =>
      rw [StmtKind.ownExprs, List.flatMap_append]
      intro call hmem
      have hinit : ∀ call ∈ init.openCalls, IsOpen (init.calls (true && scope.hasOwn) .own)
          (init.ownExprs.flatMap (·.parts false)) call := by
        rw [hown]
        exact init.isOpen .own rfl
      refine (isOpen_append hinit (hone test) call hmem).mono ?_ (List.Subset.refl _)
      simp only [StmtKind.calls, callsOfOptional, ← List.append_assoc]
      exact List.Subset.trans (List.subset_append_left ..) (List.subset_append_left ..)
  | .loop header ⟨body, trailing, inline⟩ =>
      intro call hmem
      cases header with
      | cond test =>
          exact (hone test call hmem).mono (List.subset_append_left ..) (List.Subset.refl _)
      | range key value op operand =>
          refine (hone operand call hmem).mono ?_ (List.Subset.refl _)
          simp only [StmtKind.calls, LoopHeader.calls]
          exact List.Subset.trans (List.subset_append_right ..)
            (List.Subset.trans (List.subset_append_right ..) (List.subset_append_left ..))
      | infinite => contradiction
      | clauses text => contradiction
  | .labeled label ⟨kind, decs⟩ =>
      refine kind.isOpen _ ?_
      cases scope with
      | nested => contradiction
      | _ => rfl
  | .switch _ _ _ => exact List.forall_mem_nil _
  | .select _ _ => exact List.forall_mem_nil _
  | .block _ => exact List.forall_mem_nil _
  | .decl _ => exact List.forall_mem_nil _
  | .verbatim _ => exact List.forall_mem_nil _

theorem StmtKind.offered_subset (kind : StmtKind) : kind.offered ⊆ kind.openCalls := by
  cases kind with
  | spawn value =>
      obtain ⟨kind, decs⟩ := value
      cases kind with
      | call call =>
          show openCallsOfExprs call.args ++ [call] ⊆ (⟨.call call, decs⟩ : Expr).openCalls
          rw [Expr.openCalls_call, List.append_assoc]
          exact List.subset_append_right ..
      | _ => exact List.nil_subset _
  | _ => exact List.Subset.refl _

end TraceWeave.Syntax
