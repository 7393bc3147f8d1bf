import TraceWeave.Proofs.Syntax.Calls

/-!
Edits visit every call that they reach.

What a visit makes true of a call holds of all reached calls of the edited tree
(`editStmts_brings`).  Where no visit changes anything, neither does the edit
(`editStmts_same`).
-/

namespace TraceWeave.Syntax

/-! ## Calls out of reach -/

/-- Calls that edits do not reach. -/
abbrev unreached : CallTest := fun reached _ => reached = false

mutual

theorem Expr.calls_false (expr : Expr) : Holds unreached (expr.calls false) := by
  obtain ⟨kind, decs⟩ := expr
  exact kind.calls_false

theorem ExprKind.calls_false (kind : ExprKind) : Holds unreached (kind.calls false) := by
  cases kind with
  | selector operand member => exact operand.calls_false
  | star operand => exact operand.calls_false
  | unary op operand => exact operand.calls_false
  | paren inner => exact inner.calls_false
  | binary left op right => exact Holds.append.2 ⟨left.calls_false, right.calls_false⟩
  | call call =>
      obtain ⟨callee, args, spread, closesLine⟩ := call
      exact Holds.cons.2 ⟨rfl, Holds.append.2 ⟨callee.calls_false, callsOfExprs_false args⟩⟩
  | index operand indices =>
      exact Holds.append.2 ⟨operand.calls_false, callsOfExprs_false indices⟩
  | composite type body =>
      cases type with
      | none => exact .nil
      | some type => exact type.calls_false
  | func params results body =>
      obtain ⟨stmts, trailing, inline⟩ := body
      exact callsOfStmts_false stmts
  | _ => exact .nil

theorem callsOfExprs_false (exprs : List Expr) : Holds unreached (callsOfExprs false exprs) := by
  cases exprs with
  | nil => exact .nil
  | cons expr exprs => exact Holds.append.2 ⟨expr.calls_false, callsOfExprs_false exprs⟩

theorem StmtKind.calls_false (kind : StmtKind) (scope : EditScope) :
    Holds unreached (kind.calls false scope) := by
  cases kind with
  | expr value => exact value.calls_false
  | spawn call => exact call.calls_false
  | defer call => exact call.calls_false
  | assign left op right =>
      exact Holds.append.2 ⟨callsOfExprs_false left, callsOfExprs_false right⟩
  | ret results => exact callsOfExprs_false results
  | cond init test body alternative =>
      obtain ⟨stmts, trailing, inline⟩ := body
      exact Holds.append.2 ⟨callsOfOptional_false init .own, Holds.append.2 ⟨test.calls_false,
        Holds.append.2 ⟨callsOfStmts_false stmts, callsOfOptional_false alternative scope.branch⟩⟩⟩
  | loop header body =>
      obtain ⟨stmts, trailing, inline⟩ := body
      exact Holds.append.2 ⟨header.calls_false, callsOfStmts_false stmts⟩
  | switch header clauses trailing => exact callsOfClauses_false clauses
  | select clauses trailing => exact callsOfClauses_false clauses
  | block body =>
      obtain ⟨stmts, trailing, inline⟩ := body
      exact callsOfStmts_false stmts
  | labeled label stmt =>
      obtain ⟨kind, decs⟩ := stmt
      exact kind.calls_false scope.behindLabel
  | decl group =>
      obtain ⟨text, specs⟩ := group
      exact callsOfSpecs_false specs
  | verbatim text => exact .nil

theorem callsOfOptional_false (stmt : Option Stmt) (scope : EditScope) :
    Holds unreached (callsOfOptional false scope stmt) := by
  cases stmt with
  | none => exact .nil
  | some stmt =>
      obtain ⟨kind, decs⟩ := stmt
      exact kind.calls_false scope

theorem LoopHeader.calls_false (header : LoopHeader) : Holds unreached (header.calls false) := by
  cases header with
  | cond test => exact test.calls_false
  | range key value op operand =>
      exact Holds.append.2 ⟨callsOfOptionalExpr_false key,
        Holds.append.2 ⟨callsOfOptionalExpr_false value, operand.calls_false⟩⟩
  | _ => exact .nil

theorem callsOfOptionalExpr_false (expr : Option Expr) :
    Holds unreached (callsOfOptionalExpr expr) := by
  cases expr with
  | none => exact .nil
  | some expr => exact expr.calls_false

theorem callsOfStmts_false (stmts : List Stmt) : Holds unreached (callsOfStmts false stmts) := by
  cases stmts with
  | nil => exact .nil
  | cons stmt stmts =>
      obtain ⟨kind, decs⟩ := stmt
      exact Holds.append.2 ⟨kind.calls_false .full, callsOfStmts_false stmts⟩

theorem callsOfClauses_false (clauses : List Clause) :
    Holds unreached (callsOfClauses false clauses) := by
  cases clauses with
  | nil => exact .nil
  | cons clause clauses =>
      obtain ⟨head, body, trailing, decs⟩ := clause
      exact Holds.append.2 ⟨callsOfStmts_false body, callsOfClauses_false clauses⟩

theorem callsOfSpecs_false (specs : List Spec) : Holds unreached (callsOfSpecs specs) := by
  cases specs with
  | nil => exact .nil
  | cons spec specs =>
      cases spec with
      | value names type values constant =>
          exact Holds.append.2 ⟨callsOfExprs_false values, callsOfSpecs_false specs⟩
      | type name isAlias definition => exact callsOfSpecs_false specs

end

/-! ## Calls among parts -/

/-- Calls that edits reach are among the given parts. -/
def Among (parts : List Expr) : CallTest := fun reached call =>
  reached = true → call ∈ parts.filterMap Expr.call?

theorem Holds.among {parts parts' : List Expr} {entries : List (Bool × Call)}
    (h : Holds (Among parts) entries) (hsubset : parts ⊆ parts') : Holds (Among parts') entries :=
  h.imp fun _ _ hamong hreached => List.filterMap_subset _ hsubset (hamong hreached)

theorem Holds.among_of_unreached {parts : List Expr} {entries : List (Bool × Call)}
    (h : Holds unreached entries) : Holds (Among parts) entries :=
  h.imp fun _ _ hfalse hreached => nomatch hfalse.symm.trans hreached

theorem Holds.among_append {parts parts' : List Expr} {front back : List (Bool × Call)}
    (hfront : Holds (Among parts) front) (hback : Holds (Among parts') back) :
    Holds (Among (parts ++ parts')) (front ++ back) :=
  Holds.append.2 ⟨hfront.among (List.subset_append_left ..), hback.among (List.subset_append_right ..)⟩

/-- A part whose calls are reached only where it is covered. -/
theorem Holds.among_covered {α : Type} (calls : Bool → α → List (Bool × Call)) {covered : Bool}
    {part : α} {parts : List Expr} (hfalse : Holds unreached (calls false part))
    (h : Holds (Among parts) (calls true part)) :
    Holds (Among (if covered then parts else [])) (calls (true && covered) part) := by
  cases covered with
  | true => exact h
  | false => exact hfalse.among_of_unreached

/-- The parts of a statement that a scope covers. -/
def StmtKind.partsIn (scope : EditScope) (kind : StmtKind) : List Expr :=
  (if scope.hasOwn then kind.ownParts else []) ++
    if scope.hasNested then kind.nestedParts (decide (scope = .full)) else []

mutual

theorem Expr.calls_among (expr : Expr) : Holds (Among (expr.parts true)) (expr.calls true) := by
  obtain ⟨kind, decs⟩ := expr
  cases kind with
  | selector operand member => exact operand.calls_among.among (List.subset_cons_self ..)
  | star operand => exact operand.calls_among.among (List.subset_cons_self ..)
  | unary op operand => exact operand.calls_among.among (List.subset_cons_self ..)
  | paren inner => exact inner.calls_among.among (List.subset_cons_self ..)
  | binary left op right =>
      exact (left.calls_among.among_append right.calls_among).among (List.subset_cons_self ..)
  | call call =>
      obtain ⟨callee, args, spread, closesLine⟩ := call
      have hinside := callee.calls_among.among_append (callsOfExprs_among args)
      exact Holds.cons.2 ⟨fun _ => List.mem_cons_self, hinside.among (List.subset_cons_self ..)⟩
  | index operand indices =>
      exact (operand.calls_among.among_append (callsOfExprs_among indices)).among
        (List.subset_cons_self ..)
  | composite type body =>
      cases type with
      | none => exact .nil
      | some type => exact type.calls_false.among_of_unreached
  | func params results body =>
      obtain ⟨stmts, trailing, inline⟩ := body
      exact (callsOfStmts_among stmts).among (List.subset_cons_self ..)
  | _ => exact .nil

theorem callsOfExprs_among (exprs : List Expr) :
    Holds (Among (partsOfExprs true exprs)) (callsOfExprs true exprs) := by
  cases exprs with
  | nil => exact .nil
  | cons expr exprs => exact expr.calls_among.among_append (callsOfExprs_among exprs)

theorem StmtKind.calls_among (scope : EditScope) (kind : StmtKind) :
    Holds (Among (kind.partsIn scope)) (kind.calls true scope) := by
  have hown : ∀ {entries : List (Bool × Call)},
      Holds (Among (if scope.hasOwn then kind.ownParts else [])) entries →
        Holds (Among (kind.partsIn scope)) entries :=
    fun h => h.among (List.subset_append_left ..)
  have hnested : ∀ {entries : List (Bool × Call)},
      Holds (Among (if scope.hasNested then kind.nestedParts (decide (scope = .full)) else [])) entries →
        Holds (Among (kind.partsIn scope)) entries :=
    fun h => h.among (List.subset_append_right ..)
  cases kind with
  | expr value =>
      exact hown (Holds.among_covered (fun reached (value : Expr) => value.calls reached)
        value.calls_false value.calls_among)
  | spawn call =>
      exact hown (Holds.among_covered (fun reached (call : Expr) => call.calls reached)
        call.calls_false call.calls_among)
  | defer call =>
      exact hown (Holds.among_covered (fun reached (call : Expr) => call.calls reached)
        call.calls_false call.calls_among)
  | assign left op right =>
      have hleft := (callsOfExprs_among left).among (List.subset_append_left _ (partsOfExprs true right))
      have hright := (callsOfExprs_among right).among
        (List.subset_append_right (partsOfExprs true left) _)
      exact Holds.append.2 ⟨hown (Holds.among_covered callsOfExprs (callsOfExprs_false left) hleft),
        hown (Holds.among_covered callsOfExprs (callsOfExprs_false right) hright)⟩
  | ret results =>
      exact hown (Holds.among_covered callsOfExprs (callsOfExprs_false results)
        (callsOfExprs_among results))
  | cond init test body alternative =>
      obtain ⟨stmts, trailing, inline⟩ := body
      refine Holds.append.2 ⟨hown ?_, Holds.append.2 ⟨hown ?_, Holds.append.2 ⟨hnested ?_, hnested ?_⟩⟩⟩
      · refine Holds.among_covered (fun reached => callsOfOptional reached .own)
          (callsOfOptional_false init .own) ?_
        cases init with
        | none => exact .nil
        | some init =>
            obtain ⟨kind, decs⟩ := init
            refine (kind.calls_among .own).among ?_
            simp [StmtKind.partsIn, EditScope.hasOwn, EditScope.hasNested, StmtKind.ownParts]
      · refine Holds.among_covered (fun reached (test : Expr) => test.calls reached) test.calls_false ?_
        refine test.calls_among.among ?_
        rw [StmtKind.ownParts.eq_def]
        exact List.subset_append_right ..
      · refine Holds.among_covered callsOfStmts (callsOfStmts_false stmts) ?_
        refine (callsOfStmts_among stmts).among ?_
        rw [StmtKind.nestedParts.eq_def]
        exact List.subset_append_left ..
      · refine Holds.among_covered (fun reached => callsOfOptional reached scope.branch)
          (callsOfOptional_false alternative scope.branch) ?_
        cases alternative with
        | none => exact .nil
        | some alternative =>
            obtain ⟨kind, decs⟩ := alternative
            refine (kind.calls_among scope.branch).among ?_
            cases scope <;> simp [StmtKind.partsIn, EditScope.branch, EditScope.hasOwn,
              EditScope.hasNested, StmtKind.nestedParts]
  | loop header body =>
      obtain ⟨stmts, trailing, inline⟩ := body
      refine Holds.append.2 ⟨hown ?_, hnested (Holds.among_covered callsOfStmts
        (callsOfStmts_false stmts) (callsOfStmts_among stmts))⟩
      refine Holds.among_covered (fun reached (header : LoopHeader) => header.calls reached)
        header.calls_false ?_
      cases header with
      | cond test => exact test.calls_among
      | range key value op operand =>
          exact Holds.append.2 ⟨(callsOfOptionalExpr_false key).among_of_unreached,
            Holds.append.2 ⟨(callsOfOptionalExpr_false value).among_of_unreached,
              operand.calls_among⟩⟩
      | _ => exact .nil
  | switch header clauses trailing =>
      exact hnested (Holds.among_covered callsOfClauses (callsOfClauses_false clauses)
        (callsOfClauses_among clauses))
  | select clauses trailing =>
      exact hnested (Holds.among_covered callsOfClauses (callsOfClauses_false clauses)
        (callsOfClauses_among clauses))
  | block body =>
      obtain ⟨stmts, trailing, inline⟩ := body
      exact hnested (Holds.among_covered callsOfStmts (callsOfStmts_false stmts)
        (callsOfStmts_among stmts))
  | labeled label stmt =>
      obtain ⟨kind, decs⟩ := stmt
      refine (kind.calls_among scope.behindLabel).among ?_
      cases scope <;> simp [StmtKind.partsIn, EditScope.behindLabel, EditScope.hasOwn,
        EditScope.hasNested, StmtKind.ownParts, StmtKind.nestedParts]
  | decl group =>
      obtain ⟨text, specs⟩ := group
      exact (callsOfSpecs_false specs).among_of_unreached
  | verbatim text => exact .nil

theorem callsOfStmts_among (stmts : List Stmt) :
    Holds (Among (partsOfStmts stmts)) (callsOfStmts true stmts) := by
  cases stmts with
  | nil => exact .nil
  | cons stmt stmts =>
      obtain ⟨kind, decs⟩ := stmt
      exact (kind.calls_among .full).among_append (callsOfStmts_among stmts)

theorem callsOfClauses_among (clauses : List Clause) :
    Holds (Among (partsOfClauses clauses)) (callsOfClauses true clauses) := by
  cases clauses with
  | nil => exact .nil
  | cons clause clauses =>
      obtain ⟨head, body, trailing, decs⟩ := clause
      exact (callsOfStmts_among body).among_append (callsOfClauses_among clauses)

end

/-! ## What visits bring about -/

section

variable {m : Type → Type} [Monad m] {σ : Type}

/-- Every visit makes `Q` of a call that `P` holds of, if what is in the call has been visited. -/
structure Edits.Brings (edits : Edits m) (threaded : Threaded m σ) (P Q : CallTest) : Prop where
  literals : edits.literals = true
  outside : ∀ call, P false call → Q false call
  call : ∀ (callee : Expr) (args : List Expr) (spread closesLine : Bool) (s s' s'' : σ),
    P true ⟨callee, args, spread, closesLine⟩ →
    let callee' := (threaded.run (callee.edit edits) s).1
    let args' := (threaded.run (editExprs edits args) s').1
    let call' := (threaded.run (edits.call ⟨callee', args', spread, closesLine⟩) s'').1
    Holds Q (callee'.calls true) → Holds Q (callsOfExprs true args') →
      Q true call' ∧ Holds Q (call'.callee.calls true) ∧ Holds Q (callsOfExprs true call'.args)

variable {edits : Edits m} {threaded : Threaded m σ} {P Q : CallTest}

theorem Edits.Brings.outOfReach (brings : edits.Brings threaded P Q) {entries : List (Bool × Call)}
    (hfalse : Holds unreached entries) (h : Holds P entries) : Holds Q entries := by
  rintro ⟨reached, call⟩ hmem
  obtain rfl : reached = false := hfalse _ hmem
  exact brings.outside call (h _ hmem)

/-- A part that is edited only where it is covered. -/
theorem Edits.Brings.editIf (brings : edits.Brings threaded P Q) {α : Type}
    (calls : Bool → α → List (Bool × Call)) {covered : Bool} {part : α} {edit : m α} {s : σ}
    (hfalse : Holds unreached (calls false part))
    (hedit : Holds P (calls true part) → Holds Q (calls true (threaded.run edit s).1))
    (h : Holds P (calls (true && covered) part)) :
    Holds Q (calls (true && covered) (threaded.run (Syntax.editIf covered part edit) s).1) := by
  cases covered with
  | true => exact hedit h
  | false =>
      simp only [Syntax.editIf, Bool.false_eq_true, if_false, threaded.run_pure]
      exact brings.outOfReach hfalse h

mutual

theorem Expr.edit_brings (brings : edits.Brings threaded P Q) (expr : Expr) (s : σ)
    (h : Holds P (expr.calls true)) : Holds Q ((threaded.run (expr.edit edits) s).1.calls true) := by
  obtain ⟨kind, decs⟩ := expr
  simp only [Expr.edit, Threaded.run_bind, Threaded.run_pure]
  exact kind.edit_brings brings s h

theorem ExprKind.edit_brings (brings : edits.Brings threaded P Q) (kind : ExprKind) (s : σ)
    (h : Holds P (kind.calls true)) : Holds Q ((threaded.run (kind.edit edits) s).1.calls true) := by
  cases kind with
  | ident ident =>
      simp only [ExprKind.edit, Threaded.run_map]
      exact .nil
  | selector operand member =>
      simp only [ExprKind.edit, Threaded.run_bind, Threaded.run_pure]
      exact operand.edit_brings brings s h
  | star operand =>
      simp only [ExprKind.edit, Threaded.run_bind, Threaded.run_pure]
      exact operand.edit_brings brings s h
  | unary op operand =>
      simp only [ExprKind.edit, Threaded.run_bind, Threaded.run_pure]
      exact operand.edit_brings brings s h
  | paren inner =>
      simp only [ExprKind.edit, Threaded.run_bind, Threaded.run_pure]
      exact inner.edit_brings brings s h
  | binary left op right =>
      simp only [ExprKind.edit, Threaded.run_bind, Threaded.run_pure]
      obtain ⟨hleft, hright⟩ := Holds.append.1 h
      exact Holds.append.2 ⟨left.edit_brings brings _ hleft, right.edit_brings brings _ hright⟩
  | call call =>
      obtain ⟨callee, args, spread, closesLine⟩ := call
      simp only [ExprKind.edit, Threaded.run_bind, Threaded.run_pure]
      obtain ⟨hcall, hinside⟩ := Holds.cons.1 h
      obtain ⟨hcallee, hargs⟩ := Holds.append.1 hinside
      obtain ⟨hcall', hcallee', hargs'⟩ := brings.call callee args spread closesLine s
        (threaded.run (callee.edit edits) s).2 _ hcall (callee.edit_brings brings s hcallee)
        (editExprs_brings brings args _ hargs)
      show Holds Q ((⟨.call _, {}⟩ : Expr).calls true)
      exact Expr.holds_call hcall' hcallee' hargs'
  | index operand indices =>
      simp only [ExprKind.edit, Threaded.run_bind, Threaded.run_pure]
      obtain ⟨hoperand, hindices⟩ := Holds.append.1 h
      exact Holds.append.2
        ⟨operand.edit_brings brings _ hoperand, editExprs_brings brings indices _ hindices⟩
  | func params results body =>
      obtain ⟨stmts, trailing, inline⟩ := body
      simp only [ExprKind.edit, Threaded.run_bind, Threaded.run_pure, brings.literals, editIf,
        if_true]
      exact editStmts_brings brings stmts s h
  | literal text =>
      simp only [ExprKind.edit, Threaded.run_pure]
      exact .nil
  | verbatim text =>
      simp only [ExprKind.edit, Threaded.run_pure]
      exact .nil
  | composite type body =>
      simp only [ExprKind.edit, Threaded.run_pure]
      refine brings.outOfReach ?_ h
      cases type with
      | none => exact .nil
      | some type => exact type.calls_false

theorem editExprs_brings (brings : edits.Brings threaded P Q) (exprs : List Expr) (s : σ)
    (h : Holds P (callsOfExprs true exprs)) :
    Holds Q (callsOfExprs true (threaded.run (editExprs edits exprs) s).1) := by
  cases exprs with
  | nil =>
      simp only [editExprs, Threaded.run_pure]
      exact .nil
  | cons expr exprs =>
      simp only [editExprs, Threaded.run_bind, Threaded.run_pure]
      obtain ⟨hexpr, hexprs⟩ := Holds.append.1 h
      exact Holds.append.2 ⟨expr.edit_brings brings _ hexpr, editExprs_brings brings exprs _ hexprs⟩

theorem StmtKind.edit_brings (brings : edits.Brings threaded P Q) (scope : EditScope)
    (kind : StmtKind) (s : σ) (h : Holds P (kind.calls true scope)) :
    Holds Q ((threaded.run (kind.edit edits scope) s).1.calls true scope) := by
  cases kind with
  | expr value =>
      simp only [StmtKind.edit, Threaded.run_bind, Threaded.run_pure]
      exact brings.editIf (fun reached (value : Expr) => value.calls reached) value.calls_false
        (value.edit_brings brings s) h
  | spawn call =>
      simp only [StmtKind.edit, Threaded.run_bind, Threaded.run_pure]
      exact brings.editIf (fun reached (call : Expr) => call.calls reached) call.calls_false
        (call.edit_brings brings s) h
  | defer call =>
      simp only [StmtKind.edit, Threaded.run_bind, Threaded.run_pure]
      exact brings.editIf (fun reached (call : Expr) => call.calls reached) call.calls_false
        (call.edit_brings brings s) h
  | assign left op right =>
      simp only [StmtKind.edit, Threaded.run_bind, Threaded.run_pure]
      obtain ⟨hleft, hright⟩ := Holds.append.1 h
      exact Holds.append.2
        ⟨brings.editIf callsOfExprs (callsOfExprs_false left) (editExprs_brings brings left s) hleft,
          brings.editIf callsOfExprs (callsOfExprs_false right) (editExprs_brings brings right _)
            hright⟩
  | ret results =>
      simp only [StmtKind.edit, Threaded.run_bind, Threaded.run_pure]
      exact brings.editIf callsOfExprs (callsOfExprs_false results)
        (editExprs_brings brings results s) h
  | cond init test body alternative =>
      obtain ⟨stmts, trailing, inline⟩ := body
      simp only [StmtKind.edit, Threaded.run_bind, Threaded.run_pure]
      obtain ⟨hinit, hrest⟩ := Holds.append.1 h
      obtain ⟨htest, hrest⟩ := Holds.append.1 hrest
      obtain ⟨hstmts, halternative⟩ := Holds.append.1 hrest
      refine Holds.append.2 ⟨?_, Holds.append.2 ⟨?_, Holds.append.2 ⟨?_, ?_⟩⟩⟩
      · exact brings.editIf (fun reached => callsOfOptional reached .own)
          (callsOfOptional_false init .own) (editOptional_brings brings .own init s) hinit
      · exact brings.editIf (fun reached (test : Expr) => test.calls reached) test.calls_false
          (test.edit_brings brings _) htest
      · exact brings.editIf callsOfStmts (callsOfStmts_false stmts)
          (editStmts_brings brings stmts _) hstmts
      · exact brings.editIf (fun reached => callsOfOptional reached scope.branch)
          (callsOfOptional_false alternative scope.branch)
          (editOptional_brings brings scope.branch alternative _) halternative
  | loop header body =>
      obtain ⟨stmts, trailing, inline⟩ := body
      simp only [StmtKind.edit, Threaded.run_bind, Threaded.run_pure]
      obtain ⟨hheader, hstmts⟩ := Holds.append.1 h
      exact Holds.append.2
        ⟨brings.editIf (fun reached (header : LoopHeader) => header.calls reached)
          header.calls_false (header.edit_brings brings s) hheader,
          brings.editIf callsOfStmts (callsOfStmts_false stmts) (editStmts_brings brings stmts _)
            hstmts⟩
  | switch header clauses trailing =>
      simp only [StmtKind.edit, Threaded.run_bind, Threaded.run_pure]
      exact brings.editIf callsOfClauses (callsOfClauses_false clauses)
        (editClauses_brings brings clauses s) h
  | select clauses trailing =>
      simp only [StmtKind.edit, Threaded.run_bind, Threaded.run_pure]
      exact brings.editIf callsOfClauses (callsOfClauses_false clauses)
        (editClauses_brings brings clauses s) h
  | block body =>
      obtain ⟨stmts, trailing, inline⟩ := body
      simp only [StmtKind.edit, Threaded.run_bind, Threaded.run_pure]
      exact brings.editIf callsOfStmts (callsOfStmts_false stmts) (editStmts_brings brings stmts s) h
  | labeled label stmt =>
      obtain ⟨kind, decs⟩ := stmt
      simp only [StmtKind.edit, Threaded.run_bind, Threaded.run_pure]
      exact kind.edit_brings brings scope.behindLabel s h
  | decl group =>
      obtain ⟨text, specs⟩ := group
      simp only [StmtKind.edit, Threaded.run_pure]
      exact brings.outOfReach (callsOfSpecs_false specs) h
  | verbatim text =>
      simp only [StmtKind.edit, Threaded.run_pure]
      exact .nil

theorem LoopHeader.edit_brings (brings : edits.Brings threaded P Q) (header : LoopHeader) (s : σ)
    (h : Holds P (header.calls true)) :
    Holds Q ((threaded.run (header.edit edits) s).1.calls true) := by
  cases header with
  | cond test =>
      simp only [LoopHeader.edit, Threaded.run_bind, Threaded.run_pure]
      exact test.edit_brings brings s h
  | range key value op operand =>
      simp only [LoopHeader.edit, Threaded.run_bind, Threaded.run_pure]
      obtain ⟨hkey, hrest⟩ := Holds.append.1 h
      obtain ⟨hvalue, hoperand⟩ := Holds.append.1 hrest
      exact Holds.append.2 ⟨brings.outOfReach (callsOfOptionalExpr_false key) hkey,
        Holds.append.2 ⟨brings.outOfReach (callsOfOptionalExpr_false value) hvalue,
          operand.edit_brings brings s hoperand⟩⟩
  | infinite =>
      simp only [LoopHeader.edit, Threaded.run_pure]
      exact .nil
  | clauses text =>
      simp only [LoopHeader.edit, Threaded.run_pure]
      exact .nil

theorem editOptional_brings (brings : edits.Brings threaded P Q) (scope : EditScope)
    (stmt : Option Stmt) (s : σ) (h : Holds P (callsOfOptional true scope stmt)) :
    Holds Q (callsOfOptional true scope (threaded.run (editOptional edits scope stmt) s).1) := by
  cases stmt with
  | none =>
      simp only [editOptional, Threaded.run_pure]
      exact .nil
  | some stmt =>
      obtain ⟨kind, decs⟩ := stmt
      simp only [editOptional, Threaded.run_bind, Threaded.run_pure]
      exact kind.edit_brings brings scope s h

theorem editStmts_brings (brings : edits.Brings threaded P Q) (stmts : List Stmt) (s : σ)
    (h : Holds P (callsOfStmts true stmts)) :
    Holds Q (callsOfStmts true (threaded.run (editStmts edits stmts) s).1) := by
  cases stmts with
  | nil =>
      simp only [editStmts, Threaded.run_pure]
      exact .nil
  | cons stmt stmts =>
      obtain ⟨kind, decs⟩ := stmt
      simp only [editStmts, Threaded.run_bind, Threaded.run_pure]
      obtain ⟨hkind, hstmts⟩ := Holds.append.1 h
      exact Holds.append.2 ⟨kind.edit_brings brings .full _ hkind, editStmts_brings brings stmts _ hstmts⟩

theorem editClauses_brings (brings : edits.Brings threaded P Q) (clauses : List Clause) (s : σ)
    (h : Holds P (callsOfClauses true clauses)) :
    Holds Q (callsOfClauses true (threaded.run (editClauses edits clauses) s).1) := by
  cases clauses with
  | nil =>
      simp only [editClauses, Threaded.run_pure]
      exact .nil
  | cons clause clauses =>
      obtain ⟨head, body, trailing, decs⟩ := clause
      simp only [editClauses, Threaded.run_bind, Threaded.run_pure]
      obtain ⟨hbody, hclauses⟩ := Holds.append.1 h
      exact Holds.append.2
        ⟨editStmts_brings brings body _ hbody, editClauses_brings brings clauses _ hclauses⟩

end

/-! ## Visits that change nothing -/

/-- Neither this call nor the state changes in a visit. -/
def Edits.Keeps (edits : Edits m) (threaded : Threaded m σ) : CallTest := fun reached call =>
  reached = true → ∀ s, threaded.run (edits.call call) s = (call, s)

/-- A part that is edited only where it is covered. -/
theorem run_editIf_of_keeps {α : Type} (calls : Bool → α → List (Bool × Call)) {covered : Bool}
    {part : α} {edit : m α} {s : σ}
    (hedit : Holds (edits.Keeps threaded) (calls true part) → threaded.run edit s = (part, s))
    (h : Holds (edits.Keeps threaded) (calls (true && covered) part)) :
    threaded.run (editIf covered part edit) s = (part, s) := by
  cases covered with
  | true => exact hedit h
  | false => simp only [editIf, Bool.false_eq_true, if_false, threaded.run_pure]

mutual

theorem Expr.edit_same (hident : ∀ ident s, threaded.run (edits.ident ident) s = (ident, s))
    (expr : Expr) (s : σ) (h : Holds (edits.Keeps threaded) (expr.calls true)) :
    threaded.run (expr.edit edits) s = (expr, s) := by
  obtain ⟨kind, decs⟩ := expr
  simp only [Expr.edit, Threaded.run_bind, Threaded.run_pure, kind.edit_same hident s h]

theorem ExprKind.edit_same (hident : ∀ ident s, threaded.run (edits.ident ident) s = (ident, s))
    (kind : ExprKind) (s : σ) (h : Holds (edits.Keeps threaded) (kind.calls true)) :
    threaded.run (kind.edit edits) s = (kind, s) := by
  cases kind with
  | ident ident => simp only [ExprKind.edit, Threaded.run_map, hident]
  | selector operand member =>
      simp only [ExprKind.edit, Threaded.run_bind, Threaded.run_pure, operand.edit_same hident s h]
  | star operand =>
      simp only [ExprKind.edit, Threaded.run_bind, Threaded.run_pure, operand.edit_same hident s h]
  | unary op operand =>
      simp only [ExprKind.edit, Threaded.run_bind, Threaded.run_pure, operand.edit_same hident s h]
  | paren inner =>
      simp only [ExprKind.edit, Threaded.run_bind, Threaded.run_pure, inner.edit_same hident s h]
  | binary left op right =>
      obtain ⟨hleft, hright⟩ := Holds.append.1 h
      simp only [ExprKind.edit, Threaded.run_bind, Threaded.run_pure, left.edit_same hident s hleft,
        right.edit_same hident s hright]
  | call call =>
      obtain ⟨callee, args, spread, closesLine⟩ := call
      obtain ⟨hcall, hinside⟩ := Holds.cons.1 h
      obtain ⟨hcallee, hargs⟩ := Holds.append.1 hinside
      simp only [ExprKind.edit, Threaded.run_bind, Threaded.run_pure,
        callee.edit_same hident s hcallee, editExprs_same hident args s hargs, hcall rfl s]
  | index operand indices =>
      obtain ⟨hoperand, hindices⟩ := Holds.append.1 h
      simp only [ExprKind.edit, Threaded.run_bind, Threaded.run_pure,
        operand.edit_same hident s hoperand, editExprs_same hident indices s hindices]
  | func params results body =>
      obtain ⟨stmts, trailing, inline⟩ := body
      have hbody : threaded.run (editIf edits.literals stmts (editStmts edits stmts)) s =
          (stmts, s) := by
        unfold editIf
        split
        · exact editStmts_same hident stmts s h
        · exact threaded.run_pure stmts s
      simp only [ExprKind.edit, Threaded.run_bind, Threaded.run_pure, hbody]
  | _ => simp only [ExprKind.edit, Threaded.run_pure]

theorem editExprs_same (hident : ∀ ident s, threaded.run (edits.ident ident) s = (ident, s))
    (exprs : List Expr) (s : σ) (h : Holds (edits.Keeps threaded) (callsOfExprs true exprs)) :
    threaded.run (editExprs edits exprs) s = (exprs, s) := by
  cases exprs with
  | nil => simp only [editExprs, Threaded.run_pure]
  | cons expr exprs =>
      obtain ⟨hexpr, hexprs⟩ := Holds.append.1 h
      simp only [editExprs, Threaded.run_bind, Threaded.run_pure, expr.edit_same hident s hexpr,
        editExprs_same hident exprs s hexprs]

theorem StmtKind.edit_same (hident : ∀ ident s, threaded.run (edits.ident ident) s = (ident, s))
    (scope : EditScope) (kind : StmtKind) (s : σ)
    (h : Holds (edits.Keeps threaded) (kind.calls true scope)) :
    threaded.run (kind.edit edits scope) s = (kind, s) := by
  have hexpr : ∀ (covered : Bool) (expr : Expr),
      (Holds (edits.Keeps threaded) (expr.calls true) →
        threaded.run (expr.edit edits) s = (expr, s)) →
      Holds (edits.Keeps threaded) (expr.calls (true && covered)) →
        threaded.run (editIf covered expr (expr.edit edits)) s = (expr, s) :=
    fun covered expr => run_editIf_of_keeps (fun reached (expr : Expr) => expr.calls reached)
  cases kind with
  | expr value =>
      simp only [StmtKind.edit, Threaded.run_bind, Threaded.run_pure,
        hexpr _ value (value.edit_same hident s) h]
  | spawn call =>
      simp only [StmtKind.edit, Threaded.run_bind, Threaded.run_pure,
        hexpr _ call (call.edit_same hident s) h]
  | defer call =>
      simp only [StmtKind.edit, Threaded.run_bind, Threaded.run_pure,
        hexpr _ call (call.edit_same hident s) h]
  | assign left op right =>
      obtain ⟨hleft, hright⟩ := Holds.append.1 h
      simp only [StmtKind.edit, Threaded.run_bind, Threaded.run_pure,
        run_editIf_of_keeps callsOfExprs (editExprs_same hident left s) hleft,
        run_editIf_of_keeps callsOfExprs (editExprs_same hident right s) hright]
  | ret results =>
      simp only [StmtKind.edit, Threaded.run_bind, Threaded.run_pure,
        run_editIf_of_keeps callsOfExprs (editExprs_same hident results s) h]
  | cond init test body alternative =>
      obtain ⟨stmts, trailing, inline⟩ := body
      obtain ⟨hinit, hrest⟩ := Holds.append.1 h
      obtain ⟨htest, hrest⟩ := Holds.append.1 hrest
      obtain ⟨hstmts, halternative⟩ := Holds.append.1 hrest
      simp only [StmtKind.edit, Threaded.run_bind, Threaded.run_pure,
        run_editIf_of_keeps (fun reached => callsOfOptional reached .own)
          (editOptional_same hident .own init s) hinit,
        hexpr _ test (test.edit_same hident s) htest,
        run_editIf_of_keeps callsOfStmts (editStmts_same hident stmts s) hstmts,
        run_editIf_of_keeps (fun reached => callsOfOptional reached scope.branch)
          (editOptional_same hident scope.branch alternative s) halternative]
  | loop header body =>
      obtain ⟨stmts, trailing, inline⟩ := body
      obtain ⟨hheader, hstmts⟩ := Holds.append.1 h
      simp only [StmtKind.edit, Threaded.run_bind, Threaded.run_pure,
        run_editIf_of_keeps (fun reached (header : LoopHeader) => header.calls reached)
          (header.edit_same hident s) hheader,
        run_editIf_of_keeps callsOfStmts (editStmts_same hident stmts s) hstmts]
  | switch header clauses trailing =>
      simp only [StmtKind.edit, Threaded.run_bind, Threaded.run_pure,
        run_editIf_of_keeps callsOfClauses (editClauses_same hident clauses s) h]
  | select clauses trailing =>
      simp only [StmtKind.edit, Threaded.run_bind, Threaded.run_pure,
        run_editIf_of_keeps callsOfClauses (editClauses_same hident clauses s) h]
  | block body =>
      obtain ⟨stmts, trailing, inline⟩ := body
      simp only [StmtKind.edit, Threaded.run_bind, Threaded.run_pure,
        run_editIf_of_keeps callsOfStmts (editStmts_same hident stmts s) h]
  | labeled label stmt =>
      obtain ⟨kind, decs⟩ := stmt
      simp only [StmtKind.edit, Threaded.run_bind, Threaded.run_pure,
        kind.edit_same hident scope.behindLabel s h]
  | _ => simp only [StmtKind.edit, Threaded.run_pure]

theorem LoopHeader.edit_same (hident : ∀ ident s, threaded.run (edits.ident ident) s = (ident, s))
    (header : LoopHeader) (s : σ) (h : Holds (edits.Keeps threaded) (header.calls true)) :
    threaded.run (header.edit edits) s = (header, s) := by
  cases header with
  | cond test =>
      simp only [LoopHeader.edit, Threaded.run_bind, Threaded.run_pure, test.edit_same hident s h]
  | range key value op operand =>
      obtain ⟨-, hrest⟩ := Holds.append.1 h
      obtain ⟨-, hoperand⟩ := Holds.append.1 hrest
      simp only [LoopHeader.edit, Threaded.run_bind, Threaded.run_pure,
        operand.edit_same hident s hoperand]
  | _ => simp only [LoopHeader.edit, Threaded.run_pure]

theorem editOptional_same (hident : ∀ ident s, threaded.run (edits.ident ident) s = (ident, s))
    (scope : EditScope) (stmt : Option Stmt) (s : σ)
    (h : Holds (edits.Keeps threaded) (callsOfOptional true scope stmt)) :
    threaded.run (editOptional edits scope stmt) s = (stmt, s) := by
  cases stmt with
  | none => simp only [editOptional, Threaded.run_pure]
  | some stmt =>
      obtain ⟨kind, decs⟩ := stmt
      simp only [editOptional, Threaded.run_bind, Threaded.run_pure, kind.edit_same hident scope s h]

theorem editStmts_same (hident : ∀ ident s, threaded.run (edits.ident ident) s = (ident, s))
    (stmts : List Stmt) (s : σ) (h : Holds (edits.Keeps threaded) (callsOfStmts true stmts)) :
    threaded.run (editStmts edits stmts) s = (stmts, s) := by
  cases stmts with
  | nil => simp only [editStmts, Threaded.run_pure]
  | cons stmt stmts =>
      obtain ⟨kind, decs⟩ := stmt
      obtain ⟨hkind, hstmts⟩ := Holds.append.1 h
      simp only [editStmts, Threaded.run_bind, Threaded.run_pure,
        kind.edit_same hident .full s hkind, editStmts_same hident stmts s hstmts]

theorem editClauses_same (hident : ∀ ident s, threaded.run (edits.ident ident) s = (ident, s))
    (clauses : List Clause) (s : σ)
    (h : Holds (edits.Keeps threaded) (callsOfClauses true clauses)) :
    threaded.run (editClauses edits clauses) s = (clauses, s) := by
  cases clauses with
  | nil => simp only [editClauses, Threaded.run_pure]
  | cons clause clauses =>
      obtain ⟨head, body, trailing, decs⟩ := clause
      obtain ⟨hbody, hclauses⟩ := Holds.append.1 h
      simp only [editClauses, Threaded.run_bind, Threaded.run_pure, editStmts_same hident body s hbody,
        editClauses_same hident clauses s hclauses]

end

end

end TraceWeave.Syntax
