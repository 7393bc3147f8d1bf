import TraceWeave.Proofs.Syntax.Calls

/-!
The lists of statements of a tree, and the names that these assign to.

A list lies in another one if it is that list itself or lies in a list of one of its
statements: a block, or the body of a function literal (`ListIn`).  What holds of all calls
of a list holds of those of every list in it (`ListIn.holds`).
-/

namespace TraceWeave.Syntax

/-! ## Lists -/

/-- The bodies of the function literals of an expression, but not those inside such bodies. -/
def Expr.literals (expr : Expr) : List (List Stmt) :=
  (expr.parts false).filterMap fun part =>
    match part.kind with
    | .func _ _ body => some body.stmts
    | _ => none

def LoopHeader.exprs : LoopHeader → List Expr
  | .cond test => [test]
  | .range key value _ operand => key.toList ++ (value.toList ++ [operand])
  | _ => []

mutual

/-- The expressions of a statement outside its blocks, `else if` branches included. -/
def StmtKind.headers : StmtKind → List Expr
  | .expr value => [value]
  | .spawn call => [call]
  | .defer call => [call]
  | .assign left _ right => left ++ right
  | .ret results => results
  | .cond init test _ alternative =>
      headersOfOptional init ++ (test :: headersOfOptional alternative)
  | .loop header _ => header.exprs
  | .labeled _ ⟨kind, _⟩ => kind.headers
  | .decl group => group.specs.flatMap Spec.values
  | _ => []

def headersOfOptional : Option Stmt → List Expr
  | none => []
  | some ⟨kind, _⟩ => kind.headers

end

/-- The lists directly inside a statement. -/
def StmtKind.lists (kind : StmtKind) : List (List Stmt) :=
  kind.blocks ++ kind.headers.flatMap Expr.literals

/-- The first list is the second one or lies in a list inside one of its statements. -/
inductive ListIn (list : List Stmt) : List Stmt → Prop where
  | here : ListIn list list
  | inside {stmts inner : List Stmt} {stmt : Stmt} :
      stmt ∈ stmts → inner ∈ stmt.kind.lists → ListIn list inner → ListIn list stmts

/-! ## Calls of lists -/

section

/-- The condition holds of all calls of an expression, whether edits reach them or not. -/
def Expr.AllCalls (P : Call → Prop) (expr : Expr) : Prop :=
  ∃ reached, Holds (fun _ => P) (expr.calls reached)

def AllCallsOf (P : Call → Prop) (stmts : List Stmt) : Prop :=
  ∃ reached, Holds (fun _ => P) (callsOfStmts reached stmts)

variable {P : Call → Prop}

mutual

theorem Expr.holds_parts (expr : Expr) (reached : Bool)
    (h : Holds (fun _ => P) (expr.calls reached)) :
    ∀ part ∈ expr.parts false, part.AllCalls P := by
  obtain ⟨kind, decs⟩ := expr
  exact List.forall_mem_cons.2 ⟨⟨reached, h⟩, kind.holds_parts reached h⟩

theorem ExprKind.holds_parts (kind : ExprKind) (reached : Bool)
    (h : Holds (fun _ => P) (kind.calls reached)) :
    ∀ part ∈ kind.parts false, part.AllCalls P := by
  cases kind with
  | selector operand member => exact operand.holds_parts reached h
  | star operand => exact operand.holds_parts reached h
  | unary op operand => exact operand.holds_parts reached h
  | paren inner => exact inner.holds_parts reached h
  | binary left op right =>
      obtain ⟨hleft, hright⟩ := Holds.append.1 h
      exact List.forall_mem_append.2
        ⟨left.holds_parts reached hleft, right.holds_parts reached hright⟩
  | call call =>
      obtain ⟨callee, args, spread, closesLine⟩ := call
      obtain ⟨hcallee, hargs⟩ := Holds.append.1 (Holds.cons.1 h).2
      exact List.forall_mem_append.2
        ⟨callee.holds_parts reached hcallee, holds_partsOfExprs args reached hargs⟩
  | index operand indices =>
      obtain ⟨hoperand, hindices⟩ := Holds.append.1 h
      exact List.forall_mem_append.2
        ⟨operand.holds_parts reached hoperand, holds_partsOfExprs indices reached hindices⟩
  | composite type body =>
      cases type with
      | none => exact List.forall_mem_nil _
      | some type => exact type.holds_parts false h
  | func params results body =>
      obtain ⟨stmts, trailing, inline⟩ := body
      exact List.forall_mem_nil _
  | _ => exact List.forall_mem_nil _

theorem holds_partsOfExprs (exprs : List Expr) (reached : Bool)
    (h : Holds (fun _ => P) (callsOfExprs reached exprs)) :
    ∀ part ∈ partsOfExprs false exprs, part.AllCalls P := by
  cases exprs with
  | nil => exact List.forall_mem_nil _
  | cons expr exprs =>
      obtain ⟨hexpr, hexprs⟩ := holds_exprs_cons.1 h
      exact List.forall_mem_append.2
        ⟨expr.holds_parts reached hexpr, holds_partsOfExprs exprs reached hexprs⟩

end

theorem Expr.holds_literals {expr : Expr} {reached : Bool}
    (h : Holds (fun _ => P) (expr.calls reached)) :
    ∀ body ∈ expr.literals, AllCallsOf P body := by
  intro body hbody
  obtain ⟨⟨kind, decs⟩, hpart, hsome⟩ := List.mem_filterMap.1 hbody
  obtain ⟨reached', hcalls⟩ := expr.holds_parts reached h _ hpart
  cases kind with
  | func params results block =>
      obtain rfl := Option.some.inj hsome
      obtain ⟨stmts, trailing, inline⟩ := block
      exact ⟨reached', hcalls⟩
  | _ => contradiction

/-- The expressions of the head of a loop. -/
theorem LoopHeader.holds_exprs {header : LoopHeader} {reached : Bool}
    (h : Holds (fun _ => P) (header.calls reached)) :
    ∀ expr ∈ header.exprs, expr.AllCalls P := by
  have hoptional : ∀ expr : Option Expr, Holds (fun _ => P) (callsOfOptionalExpr expr) →
      ∀ expr' ∈ expr.toList, expr'.AllCalls P := by
    rintro (_ | expr) h
    · simp
    · exact List.forall_mem_singleton.2 ⟨false, h⟩
  cases header with
  | cond test => exact List.forall_mem_singleton.2 ⟨reached, h⟩
  | range key value op operand =>
      obtain ⟨hkey, h⟩ := Holds.append.1 h
      obtain ⟨hvalue, hoperand⟩ := Holds.append.1 h
      simp only [LoopHeader.exprs, List.forall_mem_append, List.forall_mem_singleton]
      exact ⟨hoptional key hkey, hoptional value hvalue, reached, hoperand⟩
  | _ => simp [LoopHeader.exprs]

theorem holds_specValues {specs : List Spec}
    (h : Holds (fun _ => P) (callsOfSpecs specs)) :
    ∀ expr ∈ specs.flatMap Spec.values, Holds (fun _ => P) (expr.calls false) := by
  induction specs with
  | nil => simp
  | cons spec specs ih =>
      cases spec with
      | value names type values constant =>
          obtain ⟨hvalues, hspecs⟩ := Holds.append.1 h
          rw [List.flatMap_cons]
          exact List.forall_mem_append.2 ⟨holds_exprs.1 hvalues, ih hspecs⟩
      | type name isAlias definition => exact ih h

mutual

theorem StmtKind.holds_headers (kind : StmtKind) {reached : Bool} {scope : EditScope}
    (h : Holds (fun _ => P) (kind.calls reached scope)) :
    ∀ expr ∈ kind.headers, expr.AllCalls P := by
  have hexprs : ∀ {exprs : List Expr} {reached' : Bool},
      Holds (fun _ => P) (callsOfExprs reached' exprs) → ∀ expr ∈ exprs, expr.AllCalls P :=
    fun h expr hmem => ⟨_, holds_exprs.1 h expr hmem⟩
  cases kind with
  | expr value => exact List.forall_mem_singleton.2 ⟨_, h⟩
  | spawn call => exact List.forall_mem_singleton.2 ⟨_, h⟩
  | defer call => exact List.forall_mem_singleton.2 ⟨_, h⟩
  | assign left op right =>
      obtain ⟨hleft, hright⟩ := Holds.append.1 h
      exact List.forall_mem_append.2 ⟨hexprs hleft, hexprs hright⟩
  | ret results => exact hexprs h
  | cond init test body alternative =>
      obtain ⟨body, trailing, inline⟩ := body
      obtain ⟨hinit, h⟩ := Holds.append.1 h
      obtain ⟨htest, h⟩ := Holds.append.1 h
      obtain ⟨-, halternative⟩ := Holds.append.1 h
      have htest : test.AllCalls P := ⟨_, htest⟩
      exact List.forall_mem_append.2 ⟨holds_headersOfOptional init hinit,
        List.forall_mem_cons.2 ⟨htest, holds_headersOfOptional alternative halternative⟩⟩
  | loop header body =>
      obtain ⟨body, trailing, inline⟩ := body
      exact LoopHeader.holds_exprs (Holds.append.1 h).1
  | labeled label stmt =>
      obtain ⟨kind, decs⟩ := stmt
      exact kind.holds_headers h
  | decl group =>
      obtain ⟨text, specs⟩ := group
      exact fun expr hmem => ⟨false, holds_specValues h expr hmem⟩
  | _ => simp [StmtKind.headers]

theorem holds_headersOfOptional (stmt : Option Stmt) {reached : Bool} {scope : EditScope}
    (h : Holds (fun _ => P) (callsOfOptional reached scope stmt)) :
    ∀ expr ∈ headersOfOptional stmt, expr.AllCalls P := by
  cases stmt with
  | none => simp [headersOfOptional]
  | some stmt =>
      obtain ⟨kind, decs⟩ := stmt
      exact kind.holds_headers h

end

theorem holds_clauses {Q : CallTest} {clauses : List Clause} {reached : Bool}
    (h : Holds Q (callsOfClauses reached clauses)) :
    ∀ body ∈ clauses.map (·.body), Holds Q (callsOfStmts reached body) := by
  induction clauses with
  | nil => simp
  | cons clause clauses ih =>
      obtain ⟨head, body, trailing, decs⟩ := clause
      obtain ⟨hbody, hclauses⟩ := Holds.append.1 h
      exact List.forall_mem_cons.2 ⟨hbody, ih hclauses⟩

theorem StmtKind.holds_blocks {Q : CallTest} (kind : StmtKind) {reached : Bool} {scope : EditScope}
    (h : Holds Q (kind.calls reached scope)) :
    ∀ block ∈ kind.blocks,
      Holds Q (callsOfStmts (reached && scope.hasNested) block) := by
  match kind with
  | .cond init test ⟨body, trailing, inline⟩ none =>
      obtain ⟨hbody, -⟩ := Holds.append.1 (Holds.append.1 (Holds.append.1 h).2).2
      rw [StmtKind.blocks]
      exact List.forall_mem_singleton.2 hbody
  | .cond init test ⟨body, trailing, inline⟩ (some ⟨kind, decs⟩) =>
      obtain ⟨hbody, halternative⟩ := Holds.append.1 (Holds.append.1 (Holds.append.1 h).2).2
      have hbranch : scope.branch.hasNested = true := by cases scope <;> rfl
      have hkind := kind.holds_blocks halternative
      rw [hbranch, Bool.and_true] at hkind
      rw [StmtKind.blocks]
      exact List.forall_mem_cons.2 ⟨hbody, hkind⟩
  | .loop header ⟨body, trailing, inline⟩ =>
      rw [StmtKind.blocks]
      exact List.forall_mem_singleton.2 (Holds.append.1 h).2
  | .switch header clauses trailing =>
      rw [StmtKind.blocks]
      exact holds_clauses h
  | .select clauses trailing =>
      rw [StmtKind.blocks]
      exact holds_clauses h
  | .block ⟨body, trailing, inline⟩ =>
      rw [StmtKind.blocks]
      exact List.forall_mem_singleton.2 h
  | .labeled label ⟨kind, decs⟩ =>
      have hlabel : scope.behindLabel.hasNested = scope.hasNested := by cases scope <;> rfl
      rw [StmtKind.blocks, ← hlabel]
      exact kind.holds_blocks h
  | .expr _ => simp [StmtKind.blocks]
  | .assign _ _ _ => simp [StmtKind.blocks]
  | .spawn _ => simp [StmtKind.blocks]
  | .defer _ => simp [StmtKind.blocks]
  | .ret _ => simp [StmtKind.blocks]
  | .decl _ => simp [StmtKind.blocks]
  | .verbatim _ => simp [StmtKind.blocks]

theorem StmtKind.holds_lists {kind : StmtKind} {reached : Bool} {scope : EditScope}
    (h : Holds (fun _ => P) (kind.calls reached scope)) :
    ∀ inner ∈ kind.lists, AllCallsOf P inner := by
  refine List.forall_mem_append.2
    ⟨fun block hblock => ⟨_, kind.holds_blocks h block hblock⟩, fun inner hinner => ?_⟩
  obtain ⟨expr, hexpr, hinner⟩ := List.mem_flatMap.1 hinner
  obtain ⟨reached', hexpr⟩ := kind.holds_headers h expr hexpr
  exact Expr.holds_literals hexpr inner hinner

theorem ListIn.holds {list stmts : List Stmt} {reached : Bool} (hlist : ListIn list stmts)
    (h : Holds (fun _ => P) (callsOfStmts reached stmts)) :
    AllCallsOf P list := by
  induction hlist generalizing reached with
  | here => exact ⟨reached, h⟩
  | inside hstmt hinner _ ih =>
      obtain ⟨reached', h⟩ := StmtKind.holds_lists (holds_stmts.1 h _ hstmt) _ hinner
      exact ih h

end

/-! ## Targets -/

def namesOf (exprs : List Expr) : List String :=
  exprs.filterMap fun expr => expr.ident?.map (·.name)

mutual

/-- The names that a statement and the statements of its blocks assign to. -/
def StmtKind.targets : StmtKind → List String
  | .assign left _ _ => namesOf left
  | .cond _ _ ⟨body, _, _⟩ alternative => targetsOfStmts body ++ targetsOfOptional alternative
  | .loop _ ⟨body, _, _⟩ => targetsOfStmts body
  | .switch _ clauses _ => targetsOfClauses clauses
  | .select clauses _ => targetsOfClauses clauses
  | .block ⟨body, _, _⟩ => targetsOfStmts body
  | .labeled _ ⟨kind, _⟩ => kind.targets
  | _ => []

def targetsOfOptional : Option Stmt → List String
  | none => []
  | some ⟨kind, _⟩ => kind.targets

def targetsOfStmts : List Stmt → List String
  | [] => []
  | ⟨kind, _⟩ :: stmts => kind.targets ++ targetsOfStmts stmts

def targetsOfClauses : List Clause → List String
  | [] => []
  | ⟨_, body, _, _⟩ :: clauses => targetsOfStmts body ++ targetsOfClauses clauses

end

theorem targetsOfStmts_eq_flatMap (stmts : List Stmt) :
    targetsOfStmts stmts = stmts.flatMap (·.kind.targets) := by
  induction stmts with
  | nil => rfl
  | cons stmt stmts ih => cases stmt; simp [targetsOfStmts, ih]

theorem targetsOfClauses_eq_flatMap (clauses : List Clause) :
    targetsOfClauses clauses = clauses.flatMap fun clause => targetsOfStmts clause.body := by
  induction clauses with
  | nil => rfl
  | cons clause clauses ih => cases clause; simp [targetsOfClauses, ih]

theorem StmtKind.targets_cond (init : Option Stmt) (test : Expr) (body : Block)
    (alternative : Option Stmt) :
    (StmtKind.cond init test body alternative).targets =
      targetsOfStmts body.stmts ++ targetsOfOptional alternative := by
  cases body
  simp [StmtKind.targets]

theorem StmtKind.targets_loop (header : LoopHeader) (body : Block) :
    (StmtKind.loop header body).targets = targetsOfStmts body.stmts := by
  cases body
  simp [StmtKind.targets]

theorem StmtKind.targets_of_mem_blocks (kind : StmtKind) :
    ∀ block ∈ kind.blocks, targetsOfStmts block ⊆ kind.targets := by
  match kind with
  | .cond init test body none =>
      rw [StmtKind.blocks, StmtKind.targets_cond]
      exact List.forall_mem_singleton.2 (List.subset_append_left ..)
  | .cond init test body (some ⟨kind, decs⟩) =>
      rw [StmtKind.blocks, StmtKind.targets_cond]
      refine List.forall_mem_cons.2 ⟨List.subset_append_left .., fun block hmem => ?_⟩
      exact List.Subset.trans (kind.targets_of_mem_blocks block hmem) (List.subset_append_right ..)
  | .loop header body =>
      rw [StmtKind.blocks, StmtKind.targets_loop]
      exact List.forall_mem_singleton.2 (List.Subset.refl _)
  | .switch header clauses trailing =>
      simp only [StmtKind.blocks, StmtKind.targets, targetsOfClauses_eq_flatMap, List.forall_mem_map]
      exact fun clause hmem name hname => List.mem_flatMap.2 ⟨clause, hmem, hname⟩
  | .select clauses trailing =>
      simp only [StmtKind.blocks, StmtKind.targets, targetsOfClauses_eq_flatMap, List.forall_mem_map]
      exact fun clause hmem name hname => List.mem_flatMap.2 ⟨clause, hmem, hname⟩
  | .block body =>
      rw [StmtKind.blocks]
      cases body
      exact List.forall_mem_singleton.2 (List.Subset.refl _)
  | .labeled label ⟨kind, decs⟩ =>
      rw [StmtKind.blocks]
      exact kind.targets_of_mem_blocks
  | .expr _ => simp [StmtKind.blocks]
  | .assign _ _ _ => simp [StmtKind.blocks]
  | .spawn _ => simp [StmtKind.blocks]
  | .defer _ => simp [StmtKind.blocks]
  | .ret _ => simp [StmtKind.blocks]
  | .decl _ => simp [StmtKind.blocks]
  | .verbatim _ => simp [StmtKind.blocks]

theorem depthOfClauses_ge {clauses : List Clause} {body : List Stmt}
    (h : body ∈ clauses.map (·.body)) : depthOfStmts body ≤ depthOfClauses clauses := by
  induction clauses with
  | nil => contradiction
  | cons clause clauses ih =>
      obtain ⟨head, stmts, trailing, decs⟩ := clause
      rw [depthOfClauses]
      rcases List.mem_cons.1 h with rfl | h
      · exact Nat.le_max_left ..
      · exact Nat.le_trans (ih h) (Nat.le_max_right ..)

theorem StmtKind.depth_of_mem_blocks (kind : StmtKind) :
    ∀ block ∈ kind.blocks, depthOfStmts block < kind.depth := by
  match kind with
  | .cond init test body none =>
      rw [StmtKind.blocks, StmtKind.depth_cond]
      exact List.forall_mem_singleton.2 (by omega)
  | .cond init test body (some ⟨kind, decs⟩) =>
      rw [StmtKind.blocks, StmtKind.depth_cond, Option.map_some, Option.getD_some]
      refine List.forall_mem_cons.2 ⟨by omega, fun block hmem => ?_⟩
      exact Nat.lt_of_lt_of_le (kind.depth_of_mem_blocks block hmem) (Nat.le_max_right ..)
  | .loop header body =>
      rw [StmtKind.blocks, StmtKind.depth_loop]
      exact List.forall_mem_singleton.2 (Nat.lt_succ_self _)
  | .switch header clauses trailing =>
      rw [StmtKind.blocks, StmtKind.depth]
      exact fun block hmem => Nat.lt_succ_of_le (depthOfClauses_ge hmem)
  | .select clauses trailing =>
      rw [StmtKind.blocks, StmtKind.depth]
      exact fun block hmem => Nat.lt_succ_of_le (depthOfClauses_ge hmem)
  | .block ⟨stmts, trailing, inline⟩ =>
      rw [StmtKind.blocks, StmtKind.depth]
      exact List.forall_mem_singleton.2 (Nat.lt_succ_self _)
  | .labeled label ⟨kind, decs⟩ =>
      rw [StmtKind.blocks, StmtKind.depth]
      exact kind.depth_of_mem_blocks
  | .expr _ => simp [StmtKind.blocks]
  | .assign _ _ _ => simp [StmtKind.blocks]
  | .spawn _ => simp [StmtKind.blocks]
  | .defer _ => simp [StmtKind.blocks]
  | .ret _ => simp [StmtKind.blocks]
  | .decl _ => simp [StmtKind.blocks]
  | .verbatim _ => simp [StmtKind.blocks]

theorem mem_namesOf {name : String} {exprs : List Expr} :
    name ∈ namesOf exprs ↔ ∃ expr ∈ exprs, ∃ ident, expr.ident? = some ident ∧ ident.name = name := by
  simp only [namesOf, List.mem_filterMap, Option.map_eq_some_iff]

/-! ## Filling the blocks -/

/-- The statement is neither an assignment nor an expression. -/
def StmtKind.isCompound : StmtKind → Bool
  | .expr _ => false
  | .assign _ _ _ => false
  | _ => true

/-- The blocks of a statement have been filled anew, and nothing else has changed. -/
structure StmtKind.Refilled (Q : List Stmt → Prop) (kind kind' : StmtKind) : Prop where
  blocks : ∀ block ∈ kind'.blocks, Q block
  headers : kind'.headers = kind.headers
  same : kind' = kind ∨ (kind.isCompound = true ∧ kind'.isCompound = true)

section

variable {m : Type → Type} [Monad m] [LawfulMonad m] {σ : Type}

/--
Edits bring `Q` to the lists that `P` holds of; what holds of a list in a state holds of it in
the later ones.
-/
structure Fills (threaded : Threaded m σ) (edit : List Stmt → m (List Stmt))
    (P Q : σ → List Stmt → Prop) (later : σ → σ → Prop) : Prop where
  refl : ∀ s, later s s
  trans : ∀ {s s' s''}, later s s' → later s' s'' → later s s''
  before : ∀ {s s' stmts}, later s s' → P s stmts → P s' stmts
  after : ∀ {s s' stmts}, later s s' → Q s stmts → Q s' stmts
  edit : ∀ {s stmts}, P s stmts →
    Q (threaded.run (edit stmts) s).2 (threaded.run (edit stmts) s).1 ∧
      later s (threaded.run (edit stmts) s).2

namespace Fills

variable {threaded : Threaded m σ} {edit : List Stmt → m (List Stmt)}
  {P Q : σ → List Stmt → Prop} {later : σ → σ → Prop} (fills : Fills threaded edit P Q later)

include fills

theorem clauses {clauses : List Clause} {s : σ} (hclauses : ∀ body ∈ clauses.map (·.body), P s body) :
    (∀ body ∈ (threaded.run (clauses.mapM fun clause =>
        return { clause with body := ← edit clause.body }) s).1.map (·.body),
      Q (threaded.run (clauses.mapM fun clause =>
        return { clause with body := ← edit clause.body }) s).2 body) ∧
      later s (threaded.run (clauses.mapM fun clause =>
        return { clause with body := ← edit clause.body }) s).2 := by
  induction clauses generalizing s with
  | nil => simpa using fills.refl s
  | cons clause clauses ih =>
      simp only [List.map_cons, List.forall_mem_cons] at hclauses
      obtain ⟨hbody, hs'⟩ := fills.edit hclauses.1
      obtain ⟨hrest, hs''⟩ := ih fun body hmem => fills.before hs' (hclauses.2 body hmem)
      simp only [List.mapM_cons, Threaded.run_bind, Threaded.run_pure, List.map_cons,
        List.forall_mem_cons]
      exact ⟨⟨fills.after hs'' hbody, hrest⟩, fills.trans hs' hs''⟩

/-- The blocks of a statement are edited one after the other. -/
theorem blocks (kind : StmtKind) {s : σ} (hblocks : ∀ block ∈ kind.blocks, P s block) :
    (∀ block ∈ (threaded.run (kind.editBlocks edit) s).1.blocks,
      Q (threaded.run (kind.editBlocks edit) s).2 block) ∧
      later s (threaded.run (kind.editBlocks edit) s).2 := by
  match kind with
  | .cond init test ⟨body, trailing, inline⟩ none =>
      rw [StmtKind.blocks] at hblocks
      obtain ⟨hbody, hs'⟩ := fills.edit (List.forall_mem_singleton.1 hblocks)
      simp only [StmtKind.editBlocks, Threaded.run_bind, Threaded.run_pure]
      rw [StmtKind.blocks]
      exact ⟨List.forall_mem_singleton.2 hbody, hs'⟩
  | .cond init test ⟨body, trailing, inline⟩ (some ⟨kind, decs⟩) =>
      rw [StmtKind.blocks, List.forall_mem_cons] at hblocks
      obtain ⟨hbody, hs'⟩ := fills.edit hblocks.1
      obtain ⟨hkind, hs''⟩ := blocks kind fun block hmem => fills.before hs' (hblocks.2 block hmem)
      simp only [StmtKind.editBlocks, Threaded.run_bind, Threaded.run_pure]
      rw [StmtKind.blocks]
      exact ⟨List.forall_mem_cons.2 ⟨fills.after hs'' hbody, hkind⟩, fills.trans hs' hs''⟩
  | .loop header ⟨body, trailing, inline⟩ =>
      rw [StmtKind.blocks] at hblocks
      obtain ⟨hbody, hs'⟩ := fills.edit (List.forall_mem_singleton.1 hblocks)
      simp only [StmtKind.editBlocks, Threaded.run_bind, Threaded.run_pure]
      rw [StmtKind.blocks]
      exact ⟨List.forall_mem_singleton.2 hbody, hs'⟩
  | .switch header clauses trailing =>
      rw [StmtKind.blocks] at hblocks
      simp only [StmtKind.editBlocks, Threaded.run_bind, Threaded.run_pure]
      rw [StmtKind.blocks]
      exact fills.clauses hblocks
  | .select clauses trailing =>
      rw [StmtKind.blocks] at hblocks
      simp only [StmtKind.editBlocks, Threaded.run_bind, Threaded.run_pure]
      rw [StmtKind.blocks]
      exact fills.clauses hblocks
  | .block ⟨body, trailing, inline⟩ =>
      rw [StmtKind.blocks] at hblocks
      obtain ⟨hbody, hs'⟩ := fills.edit (List.forall_mem_singleton.1 hblocks)
      simp only [StmtKind.editBlocks, Threaded.run_bind, Threaded.run_pure]
      rw [StmtKind.blocks]
      exact ⟨List.forall_mem_singleton.2 hbody, hs'⟩
  | .labeled label ⟨kind, decs⟩ =>
      rw [StmtKind.blocks] at hblocks
      simp only [StmtKind.editBlocks, Threaded.run_bind, Threaded.run_pure]
      rw [StmtKind.blocks]
      exact blocks kind hblocks
  | .expr _ => simpa [StmtKind.editBlocks, StmtKind.blocks] using fills.refl s
  | .assign _ _ _ => simpa [StmtKind.editBlocks, StmtKind.blocks] using fills.refl s
  | .spawn _ => simpa [StmtKind.editBlocks, StmtKind.blocks] using fills.refl s
  | .defer _ => simpa [StmtKind.editBlocks, StmtKind.blocks] using fills.refl s
  | .ret _ => simpa [StmtKind.editBlocks, StmtKind.blocks] using fills.refl s
  | .decl _ => simpa [StmtKind.editBlocks, StmtKind.blocks] using fills.refl s
  | .verbatim _ => simpa [StmtKind.editBlocks, StmtKind.blocks] using fills.refl s

end Fills

theorem StmtKind.Replaces.headers_eq {stmts stmts' : List Stmt} {kind kind' : StmtKind}
    (h : StmtKind.Replaces stmts stmts' kind kind') : kind'.headers = kind.headers := by
  induction h with
  | alternative _ ih => simp only [StmtKind.headers, headersOfOptional, ih]
  | labeled _ ih => exact ih
  | _ => rfl

theorem StmtKind.Replaces.isCompound {stmts stmts' : List Stmt} {kind kind' : StmtKind}
    (h : StmtKind.Replaces stmts stmts' kind kind') :
    kind.isCompound = true ∧ kind'.isCompound = true := by
  cases h <;> exact ⟨rfl, rfl⟩

/-- An edit that keeps a condition on the state fills every block of a statement anew. -/
theorem StmtKind.editBlocks_refill {threaded : Threaded m σ} {edit : List Stmt → m (List Stmt)}
    {P Q : List Stmt → Prop} {I : σ → Prop}
    (hedit : ∀ stmts s, P stmts → I s →
      Q (threaded.run (edit stmts) s).1 ∧ I (threaded.run (edit stmts) s).2)
    (kind : StmtKind) {s : σ} (hblocks : ∀ block ∈ kind.blocks, P block) (hs : I s) :
    StmtKind.Refilled Q kind (threaded.run (kind.editBlocks edit) s).1 ∧
      I (threaded.run (kind.editBlocks edit) s).2 := by
  have fills : Fills threaded edit (fun s stmts => P stmts ∧ I s) (fun _ => Q)
      (fun s s' => I s → I s') :=
    { refl := fun _ => id
      trans := fun h h' => h' ∘ h
      before := fun h hstmts => ⟨hstmts.1, h hstmts.2⟩
      after := fun _ => id
      edit := fun {s stmts} h => ⟨(hedit stmts s h.1 h.2).1, fun _ => (hedit stmts s h.1 h.2).2⟩ }
  obtain ⟨hfilled, hlater⟩ := fills.blocks kind fun block hmem => ⟨hblocks block hmem, hs⟩
  have hsteps : BlockSteps threaded edit (kind, s) (threaded.run (kind.editBlocks edit) s) :=
    kind.editBlocks_steps s
  generalize threaded.run (kind.editBlocks edit) s = after at hfilled hlater hsteps ⊢
  suffices hsame : after.1.headers = kind.headers ∧
      (after.1 = kind ∨ (kind.isCompound = true ∧ after.1.isCompound = true)) from
    ⟨⟨hfilled, hsame.1, hsame.2⟩, hlater hs⟩
  clear hfilled hlater
  induction hsteps with
  | refl => exact ⟨rfl, .inl rfl⟩
  | tail _ hstep ih =>
      obtain ⟨stmts, hreplaces, -⟩ := hstep
      obtain ⟨hbefore, hafter⟩ := hreplaces.isCompound
      refine ⟨hreplaces.headers_eq.trans ih.1, .inr ⟨?_, hafter⟩⟩
      rcases ih.2 with hsame | ⟨hcompound, -⟩
      · exact hsame ▸ hbefore
      · exact hcompound

end

end TraceWeave.Syntax
