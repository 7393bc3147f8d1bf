import TraceWeave.Proofs.Syntax.Visits

/-!
The calls of a tree as a forest.

A call holds the calls of its callee and its arguments.  A forest is listed in two orders,
every node in front of what it holds or behind it.  Reading walks list the first one
(`Expr.parts_reads`, `partsOfStmts_reads`).
-/

namespace TraceWeave.Syntax

/-! ## Forests of calls -/

/-- A call and the calls in it. -/
inductive CallTree where
  | node (call : Call) (inside : List CallTree)

namespace CallTree

def call : CallTree → Call
  | node call _ => call

def inside : CallTree → List CallTree
  | node _ inside => inside

end CallTree

mutual

/-- The nodes of a tree, each in front of the nodes in it. -/
def CallTree.preorder : CallTree → List CallTree
  | .node call inside => .node call inside :: preorders inside

def preorders : List CallTree → List CallTree
  | [] => []
  | tree :: trees => tree.preorder ++ preorders trees

end

mutual

/-- The nodes of a tree, each behind the nodes in it. -/
def CallTree.postorder : CallTree → List CallTree
  | .node call inside => postorders inside ++ [.node call inside]

def postorders : List CallTree → List CallTree
  | [] => []
  | tree :: trees => tree.postorder ++ postorders trees

end

@[simp]
theorem preorders_append (front back : List CallTree) :
    preorders (front ++ back) = preorders front ++ preorders back := by
  induction front with
  | nil => simp [preorders]
  | cons tree front ih => simp [preorders, ih]

@[simp]
theorem postorders_append (front back : List CallTree) :
    postorders (front ++ back) = postorders front ++ postorders back := by
  induction front with
  | nil => simp [postorders]
  | cons tree front ih => simp [postorders, ih]

theorem preorders_node (call : Call) (inside : List CallTree) :
    preorders [.node call inside] = .node call inside :: preorders inside := by
  simp [preorders, CallTree.preorder]

theorem postorders_node (call : Call) (inside : List CallTree) :
    postorders [.node call inside] = postorders inside ++ [.node call inside] := by
  simp [postorders, CallTree.postorder]

mutual

theorem CallTree.postorder_perm (tree : CallTree) : tree.postorder.Perm tree.preorder := by
  obtain ⟨call, inside⟩ := tree
  simp only [CallTree.postorder, CallTree.preorder]
  exact (List.perm_append_singleton ..).trans ((postorders_perm inside).cons _)

/-- Both orders list the same nodes, each as often. -/
theorem postorders_perm (forest : List CallTree) :
    (postorders forest).Perm (preorders forest) := by
  cases forest with
  | nil => exact .nil
  | cons tree forest => exact tree.postorder_perm.append (postorders_perm forest)

end

mutual

theorem CallTree.preorder_contiguous (tree : CallTree) :
    ∀ node ∈ tree.preorder, node :: preorders node.inside <:+: tree.preorder := by
  obtain ⟨call, inside⟩ := tree
  simp only [CallTree.preorder, List.forall_mem_cons]
  refine ⟨List.infix_rfl, fun node hnode => ?_⟩
  exact (preorders_contiguous inside node hnode).trans (List.suffix_cons ..).isInfix

/-- In the first order a node stands right in front of the nodes in it. -/
theorem preorders_contiguous (forest : List CallTree) :
    ∀ node ∈ preorders forest, node :: preorders node.inside <:+: preorders forest := by
  cases forest with
  | nil => exact fun _ hnode => nomatch hnode
  | cons tree forest =>
      simp only [preorders, List.forall_mem_append]
      refine ⟨fun node hnode => ?_, fun node hnode => ?_⟩
      · exact (tree.preorder_contiguous node hnode).trans (List.prefix_append ..).isInfix
      · exact (preorders_contiguous forest node hnode).trans (List.suffix_append ..).isInfix

end

mutual

theorem CallTree.postorder_contiguous (tree : CallTree) :
    ∀ node ∈ tree.postorder, postorders node.inside ++ [node] <:+: tree.postorder := by
  obtain ⟨call, inside⟩ := tree
  simp only [CallTree.postorder, List.forall_mem_append, List.forall_mem_singleton]
  refine ⟨fun node hnode => ?_, List.infix_rfl⟩
  exact (postorders_contiguous inside node hnode).trans (List.prefix_append ..).isInfix

/-- In the second order a node stands right behind the nodes in it. -/
theorem postorders_contiguous (forest : List CallTree) :
    ∀ node ∈ postorders forest, postorders node.inside ++ [node] <:+: postorders forest := by
  cases forest with
  | nil => exact fun _ hnode => nomatch hnode
  | cons tree forest =>
      simp only [postorders, List.forall_mem_append]
      refine ⟨fun node hnode => ?_, fun node hnode => ?_⟩
      · exact (tree.postorder_contiguous node hnode).trans (List.prefix_append ..).isInfix
      · exact (postorders_contiguous forest node hnode).trans (List.suffix_append ..).isInfix

end

/-! ## The forest of a tree -/

/-- The calls of a part that counts only where it is covered. -/
def callTreesIf (covered : Bool) (forest : List CallTree) : List CallTree :=
  if covered then forest else []

mutual

/-- The calls of an expression; bodies of function literals count if asked for. -/
def Expr.callTrees (literals : Bool) : Expr → List CallTree
  | ⟨kind, _⟩ => kind.callTrees literals

def ExprKind.callTrees (literals : Bool) : ExprKind → List CallTree
  | .selector operand _ => operand.callTrees literals
  | .star operand => operand.callTrees literals
  | .unary _ operand => operand.callTrees literals
  | .paren inner => inner.callTrees literals
  | .binary left _ right => left.callTrees literals ++ right.callTrees literals
  | .call ⟨callee, args, spread, closesLine⟩ =>
      [.node ⟨callee, args, spread, closesLine⟩
        (callee.callTrees literals ++ callTreesOfExprs literals args)]
  | .index operand indices => operand.callTrees literals ++ callTreesOfExprs literals indices
  | .composite (some type) _ => type.callTrees literals
  | .func _ _ ⟨body, _, _⟩ => callTreesIf literals (callTreesOfStmts literals body)
  | _ => []

def callTreesOfExprs (literals : Bool) : List Expr → List CallTree
  | [] => []
  | expr :: exprs => expr.callTrees literals ++ callTreesOfExprs literals exprs

/-- The calls in what a scope covers of a statement. -/
def StmtKind.callTrees (literals : Bool) (scope : EditScope) : StmtKind → List CallTree
  | .expr value => callTreesIf scope.hasOwn (value.callTrees literals)
  | .spawn call => callTreesIf scope.hasOwn (call.callTrees literals)
  | .defer call => callTreesIf scope.hasOwn (call.callTrees literals)
  | .assign left _ right =>
      callTreesIf scope.hasOwn (callTreesOfExprs literals left) ++
        callTreesIf scope.hasOwn (callTreesOfExprs literals right)
  | .ret results => callTreesIf scope.hasOwn (callTreesOfExprs literals results)
  | .cond init test ⟨body, _, _⟩ alternative =>
      callTreesIf scope.hasOwn (callTreesOfOptional literals .own init) ++
        (callTreesIf scope.hasOwn (test.callTrees literals) ++
          (callTreesIf scope.hasNested (callTreesOfStmts literals body) ++
            callTreesIf scope.hasNested (callTreesOfOptional literals scope.branch alternative)))
  | .loop header ⟨body, _, _⟩ =>
      callTreesIf scope.hasOwn (header.callTrees literals) ++
        callTreesIf scope.hasNested (callTreesOfStmts literals body)
  | .switch _ clauses _ => callTreesIf scope.hasNested (callTreesOfClauses literals clauses)
  | .select clauses _ => callTreesIf scope.hasNested (callTreesOfClauses literals clauses)
  | .block ⟨body, _, _⟩ => callTreesIf scope.hasNested (callTreesOfStmts literals body)
  | .labeled _ ⟨kind, _⟩ => kind.callTrees literals scope.behindLabel
  | .decl ⟨_, specs⟩ => callTreesIf scope.hasOwn (callTreesOfSpecs literals specs)
  | .verbatim _ => []

def callTreesOfOptional (literals : Bool) (scope : EditScope) : Option Stmt → List CallTree
  | none => []
  | some ⟨kind, _⟩ => kind.callTrees literals scope

/-- The calls in the condition or the operand; targets of a range are not walked. -/
def LoopHeader.callTrees (literals : Bool) : LoopHeader → List CallTree
  | .cond test => test.callTrees literals
  | .range _ _ _ operand => operand.callTrees literals
  | _ => []

def callTreesOfStmts (literals : Bool) : List Stmt → List CallTree
  | [] => []
  | ⟨kind, _⟩ :: stmts => kind.callTrees literals .full ++ callTreesOfStmts literals stmts

def callTreesOfClauses (literals : Bool) : List Clause → List CallTree
  | [] => []
  | ⟨_, body, _, _⟩ :: clauses =>
      callTreesOfStmts literals body ++ callTreesOfClauses literals clauses

def callTreesOfSpecs (literals : Bool) : List Spec → List CallTree
  | [] => []
  | .value _ _ values _ :: specs =>
      callTreesOfExprs literals values ++ callTreesOfSpecs literals specs
  | .type _ _ _ :: specs => callTreesOfSpecs literals specs

end

/-- The calls in a call. -/
def Call.callTrees (literals : Bool) (call : Call) : List CallTree :=
  call.callee.callTrees literals ++ callTreesOfExprs literals call.args

theorem callTreesIf_nil (covered : Bool) : callTreesIf covered [] = [] := ite_self _

theorem callTreesIf_append (covered : Bool) (front back : List CallTree) :
    callTreesIf covered (front ++ back) =
      callTreesIf covered front ++ callTreesIf covered back := by
  cases covered <;> simp [callTreesIf]

theorem callTreesOfExprs_append (literals : Bool) (front back : List Expr) :
    callTreesOfExprs literals (front ++ back) =
      callTreesOfExprs literals front ++ callTreesOfExprs literals back := by
  induction front with
  | nil => simp [callTreesOfExprs]
  | cons expr front ih => simp [callTreesOfExprs, ih]

@[simp]
theorem callTreesOfExprs_singleton (literals : Bool) (expr : Expr) :
    callTreesOfExprs literals [expr] = expr.callTrees literals := by
  simp [callTreesOfExprs]

theorem callTreesOfSpecs_eq (literals : Bool) (specs : List Spec) :
    callTreesOfSpecs literals specs = callTreesOfExprs literals (specs.flatMap Spec.values) := by
  induction specs with
  | nil => simp [callTreesOfSpecs, callTreesOfExprs]
  | cons spec specs ih =>
      cases spec <;> simp [callTreesOfSpecs, Spec.values, callTreesOfExprs_append, ih]

/-- What the scope of own expressions covers are the own expressions. -/
theorem StmtKind.callTrees_own (literals : Bool) (kind : StmtKind) :
    kind.callTrees literals .own = callTreesOfExprs literals kind.ownExprs := by
  have hown (forest : List CallTree) : callTreesIf EditScope.own.hasOwn forest = forest := rfl
  have hnested (forest : List CallTree) : callTreesIf EditScope.own.hasNested forest = [] := rfl
  match kind with
  | .expr value => simp [StmtKind.callTrees, StmtKind.ownExprs, hown]
  | .spawn call => simp [StmtKind.callTrees, StmtKind.ownExprs, hown]
  | .defer call => simp [StmtKind.callTrees, StmtKind.ownExprs, hown]
  | .assign left op right =>
      simp [StmtKind.callTrees, StmtKind.ownExprs, hown, callTreesOfExprs_append]
  | .ret results => simp [StmtKind.callTrees, StmtKind.ownExprs, hown]
  | .cond none test ⟨body, trailing, inline⟩ alternative =>
      simp [StmtKind.callTrees, callTreesOfOptional, StmtKind.ownExprs, hown, hnested]
  | .cond (some ⟨kind, decs⟩) test ⟨body, trailing, inline⟩ alternative =>
      simp [StmtKind.callTrees, callTreesOfOptional, StmtKind.ownExprs, hown, hnested,
        callTreesOfExprs_append, kind.callTrees_own]
  | .loop header ⟨body, trailing, inline⟩ =>
      cases header <;> simp [StmtKind.callTrees, LoopHeader.callTrees, StmtKind.ownExprs, hown,
        hnested, callTreesOfExprs]
  | .switch header clauses trailing =>
      simp [StmtKind.callTrees, StmtKind.ownExprs, hnested, callTreesOfExprs]
  | .select clauses trailing =>
      simp [StmtKind.callTrees, StmtKind.ownExprs, hnested, callTreesOfExprs]
  | .block ⟨body, trailing, inline⟩ =>
      simp [StmtKind.callTrees, StmtKind.ownExprs, hnested, callTreesOfExprs]
  | .labeled label ⟨kind, decs⟩ =>
      simp [StmtKind.callTrees, StmtKind.ownExprs, EditScope.behindLabel, kind.callTrees_own]
  | .decl ⟨text, specs⟩ =>
      simp [StmtKind.callTrees, StmtKind.ownExprs, hown, callTreesOfSpecs_eq]
  | .verbatim text => simp [StmtKind.callTrees, StmtKind.ownExprs, callTreesOfExprs]

/-! ## Reading walks -/

/-- The calls among the parts are those of the forest, where a node holds what is in its call. -/
structure ReadsCalls (literals : Bool) (parts : List Expr) (forest : List CallTree) : Prop where
  calls : parts.filterMap Expr.call? = (preorders forest).map CallTree.call
  inside : ∀ node ∈ preorders forest, node.inside = node.call.callTrees literals

namespace ReadsCalls

variable {literals : Bool} {parts parts' : List Expr} {forest forest' : List CallTree}

theorem nil : ReadsCalls literals [] [] := ⟨rfl, fun _ hnode => nomatch hnode⟩

theorem append (h : ReadsCalls literals parts forest) (h' : ReadsCalls literals parts' forest') :
    ReadsCalls literals (parts ++ parts') (forest ++ forest') where
  calls := by simp [h.calls, h'.calls]
  inside := by
    rw [preorders_append, List.forall_mem_append]
    exact ⟨h.inside, h'.inside⟩

/-- Parts that are no calls do not count. -/
theorem cons (h : ReadsCalls literals parts forest) {expr : Expr} (hexpr : expr.call? = none) :
    ReadsCalls literals (expr :: parts) forest where
  calls := by rw [List.filterMap_cons_none hexpr, h.calls]
  inside := h.inside

/-- A part that is a call holds the calls of the parts in it. -/
theorem node {callee : Expr} {args : List Expr} {spread closesLine : Bool} {decs : Decorations}
    (h : ReadsCalls literals parts (callee.callTrees literals ++ callTreesOfExprs literals args)) :
    ReadsCalls literals (⟨.call ⟨callee, args, spread, closesLine⟩, decs⟩ :: parts)
      [.node ⟨callee, args, spread, closesLine⟩
        (callee.callTrees literals ++ callTreesOfExprs literals args)] where
  calls := by simp [preorders_node, h.calls, Expr.call?, CallTree.call]
  inside := by
    rw [preorders_node, List.forall_mem_cons]
    exact ⟨rfl, h.inside⟩

theorem covered (h : ReadsCalls literals parts forest) (covered : Bool) :
    ReadsCalls literals (if covered then parts else []) (callTreesIf covered forest) := by
  cases covered with
  | true => exact h
  | false => exact .nil

/-- A statement without blocks. -/
theorem ownOnly {kind : StmtKind} (h : ReadsCalls true parts forest) (scope : EditScope)
    (hown : kind.ownParts = parts) (hnested : ∀ branches, kind.nestedParts branches = []) :
    ReadsCalls true (kind.partsIn scope) (callTreesIf scope.hasOwn forest) := by
  simp only [StmtKind.partsIn, hown, hnested, ite_self, List.append_nil]
  exact h.covered scope.hasOwn

/-- A statement without own expressions. -/
theorem nestedOnly {kind : StmtKind} (h : ReadsCalls true parts forest) (scope : EditScope)
    (hown : kind.ownParts = []) (hnested : ∀ branches, kind.nestedParts branches = parts) :
    ReadsCalls true (kind.partsIn scope) (callTreesIf scope.hasNested forest) := by
  simp only [StmtKind.partsIn, hown, hnested, ite_self, List.nil_append]
  exact h.covered scope.hasNested

end ReadsCalls

/-- The parts of the first statement of a conditional, or of the branch behind `else`. -/
def partsOfOptional (scope : EditScope) : Option Stmt → List Expr
  | none => []
  | some ⟨kind, _⟩ => kind.partsIn scope

theorem partsOfOptional_own (stmt : Option Stmt) :
    partsOfOptional .own stmt =
      match stmt with
      | some ⟨kind, _⟩ => kind.ownParts
      | none => [] := by
  obtain _ | ⟨kind, decs⟩ := stmt
  · rfl
  · exact List.append_nil _

theorem partsOfOptional_branch (scope : EditScope) (stmt : Option Stmt) :
    partsOfOptional scope.branch stmt =
      match stmt with
      | some ⟨kind, _⟩ => (if decide (scope = .full) then kind.ownParts else []) ++
          kind.nestedParts (decide (scope = .full))
      | none => [] := by
  obtain _ | ⟨kind, decs⟩ := stmt
  · rfl
  · cases scope <;> rfl

theorem StmtKind.partsIn_cond (scope : EditScope) (init : Option Stmt) (test : Expr)
    (stmts : List Stmt) (trailing : List String) (inline : Bool) (alternative : Option Stmt) :
    (StmtKind.cond init test ⟨stmts, trailing, inline⟩ alternative).partsIn scope =
      (if scope.hasOwn then partsOfOptional .own init ++ test.parts true else []) ++
        if scope.hasNested then
          partsOfStmts stmts ++ partsOfOptional scope.branch alternative
        else [] := by
  have hown : (StmtKind.cond init test ⟨stmts, trailing, inline⟩ alternative).ownParts =
      partsOfOptional .own init ++ test.parts true := by
    rw [partsOfOptional_own]
    obtain _ | ⟨kind, decs⟩ := init <;> rfl
  have hnested : (StmtKind.cond init test ⟨stmts, trailing, inline⟩ alternative).nestedParts
      (decide (scope = .full)) =
        partsOfStmts stmts ++ partsOfOptional scope.branch alternative := by
    rw [partsOfOptional_branch]
    obtain _ | ⟨kind, decs⟩ := alternative <;> rfl
  rw [StmtKind.partsIn, hown, hnested]

theorem StmtKind.partsIn_labeled (scope : EditScope) (label : String) (stmt : Stmt) :
    (StmtKind.labeled label stmt).partsIn scope = stmt.kind.partsIn scope.behindLabel := by
  cases stmt
  cases scope <;> simp [StmtKind.partsIn, StmtKind.ownParts, StmtKind.nestedParts,
    EditScope.behindLabel, EditScope.hasOwn, EditScope.hasNested]

mutual

theorem Expr.parts_reads (literals : Bool) (expr : Expr) :
    ReadsCalls literals (expr.parts literals) (expr.callTrees literals) := by
  obtain ⟨kind, decs⟩ := expr
  cases kind with
  | selector operand member => exact (operand.parts_reads literals).cons rfl
  | star operand => exact (operand.parts_reads literals).cons rfl
  | unary op operand => exact (operand.parts_reads literals).cons rfl
  | paren inner => exact (inner.parts_reads literals).cons rfl
  | binary left op right =>
      exact ((left.parts_reads literals).append (right.parts_reads literals)).cons rfl
  | call call =>
      obtain ⟨callee, args, spread, closesLine⟩ := call
      exact ((callee.parts_reads literals).append (partsOfExprs_reads literals args)).node
  | index operand indices =>
      exact ((operand.parts_reads literals).append (partsOfExprs_reads literals indices)).cons rfl
  | composite type body =>
      cases type with
      | none => exact ReadsCalls.nil.cons rfl
      | some type => exact (type.parts_reads literals).cons rfl
  | func params results body =>
      obtain ⟨stmts, trailing, inline⟩ := body
      cases literals with
      | true => exact (partsOfStmts_reads stmts).cons rfl
      | false => exact ReadsCalls.nil.cons rfl
  | _ => exact ReadsCalls.nil.cons rfl

theorem partsOfExprs_reads (literals : Bool) (exprs : List Expr) :
    ReadsCalls literals (partsOfExprs literals exprs) (callTreesOfExprs literals exprs) := by
  cases exprs with
  | nil => exact .nil
  | cons expr exprs =>
      exact (expr.parts_reads literals).append (partsOfExprs_reads literals exprs)

theorem partsOfOptional_reads (scope : EditScope) (stmt : Option Stmt) :
    ReadsCalls true (partsOfOptional scope stmt) (callTreesOfOptional true scope stmt) := by
  cases stmt with
  | none => exact .nil
  | some stmt =>
      obtain ⟨kind, decs⟩ := stmt
      exact kind.partsIn_reads scope

theorem StmtKind.partsIn_reads (scope : EditScope) (kind : StmtKind) :
    ReadsCalls true (kind.partsIn scope) (kind.callTrees true scope) := by
  cases kind with
  | expr value => exact (value.parts_reads true).ownOnly scope rfl fun _ => rfl
  | spawn call => exact (call.parts_reads true).ownOnly scope rfl fun _ => rfl
  | defer call => exact (call.parts_reads true).ownOnly scope rfl fun _ => rfl
  | assign left op right =>
      have hsides := (partsOfExprs_reads true left).append (partsOfExprs_reads true right)
      rw [StmtKind.callTrees, ← callTreesIf_append]
      exact hsides.ownOnly scope rfl fun _ => rfl
  | ret results => exact (partsOfExprs_reads true results).ownOnly scope rfl fun _ => rfl
  | cond init test body alternative =>
      obtain ⟨stmts, trailing, inline⟩ := body
      have hown := (partsOfOptional_reads .own init).append (test.parts_reads true)
      have hnested := (partsOfStmts_reads stmts).append
        (partsOfOptional_reads scope.branch alternative)
      rw [StmtKind.partsIn_cond, StmtKind.callTrees, ← List.append_assoc, ← callTreesIf_append,
        ← callTreesIf_append]
      exact (hown.covered _).append (hnested.covered _)
  | loop header body =>
      obtain ⟨stmts, trailing, inline⟩ := body
      have hheader : ReadsCalls true (StmtKind.loop header ⟨stmts, trailing, inline⟩).ownParts
          (header.callTrees true) := by
        cases header with
        | cond test => exact test.parts_reads true
        | range key value op operand => exact operand.parts_reads true
        | _ => exact .nil
      exact (hheader.covered _).append ((partsOfStmts_reads stmts).covered _)
  | switch header clauses trailing =>
      exact (partsOfClauses_reads clauses).nestedOnly scope rfl fun _ => rfl
  | select clauses trailing =>
      exact (partsOfClauses_reads clauses).nestedOnly scope rfl fun _ => rfl
  | block body =>
      obtain ⟨stmts, trailing, inline⟩ := body
      exact (partsOfStmts_reads stmts).nestedOnly scope rfl fun _ => rfl
  | labeled label stmt =>
      obtain ⟨kind, decs⟩ := stmt
      rw [StmtKind.partsIn_labeled]
      exact kind.partsIn_reads scope.behindLabel
  | decl group =>
      obtain ⟨text, specs⟩ := group
      exact (partsOfSpecs_reads specs).ownOnly scope rfl fun _ => rfl
  | verbatim text =>
      simp only [StmtKind.partsIn, StmtKind.ownParts, StmtKind.nestedParts, ite_self]
      exact .nil

theorem partsOfStmts_reads (stmts : List Stmt) :
    ReadsCalls true (partsOfStmts stmts) (callTreesOfStmts true stmts) := by
  cases stmts with
  | nil => exact .nil
  | cons stmt stmts =>
      obtain ⟨kind, decs⟩ := stmt
      exact (kind.partsIn_reads .full).append (partsOfStmts_reads stmts)

theorem partsOfClauses_reads (clauses : List Clause) :
    ReadsCalls true (partsOfClauses clauses) (callTreesOfClauses true clauses) := by
  cases clauses with
  | nil => exact .nil
  | cons clause clauses =>
      obtain ⟨head, body, trailing, decs⟩ := clause
      exact (partsOfStmts_reads body).append (partsOfClauses_reads clauses)

theorem partsOfSpecs_reads (specs : List Spec) :
    ReadsCalls true (partsOfSpecs specs) (callTreesOfSpecs true specs) := by
  cases specs with
  | nil => exact .nil
  | cons spec specs =>
      cases spec with
      | value names type values constant =>
          exact (partsOfExprs_reads true values).append (partsOfSpecs_reads specs)
      | type name isAlias definition => exact partsOfSpecs_reads specs

end

theorem partsOfExprs_eq (literals : Bool) (exprs : List Expr) :
    partsOfExprs literals exprs = exprs.flatMap (·.parts literals) := by
  induction exprs with
  | nil => simp [partsOfExprs]
  | cons expr exprs ih => simp [partsOfExprs, ih]

theorem partsOfSpecs_eq (specs : List Spec) :
    partsOfSpecs specs = partsOfExprs true (specs.flatMap Spec.values) := by
  induction specs with
  | nil => simp [partsOfSpecs, partsOfExprs]
  | cons spec specs ih =>
      cases spec <;> simp [partsOfSpecs, Spec.values, partsOfExprs_eq, ih]

/-- The own parts of a statement are the parts of its own expressions. -/
theorem StmtKind.ownParts_eq (kind : StmtKind) :
    kind.ownParts = kind.ownExprs.flatMap (·.parts true) := by
  match kind with
  | .cond none test body alternative => simp [StmtKind.ownParts, StmtKind.ownExprs]
  | .cond (some ⟨kind, decs⟩) test body alternative =>
      simp [StmtKind.ownParts, StmtKind.ownExprs, kind.ownParts_eq]
  | .loop header body => cases header <;> simp [StmtKind.ownParts, StmtKind.ownExprs]
  | .labeled label ⟨kind, decs⟩ => simp [StmtKind.ownParts, StmtKind.ownExprs, kind.ownParts_eq]
  | .decl ⟨text, specs⟩ =>
      simp [StmtKind.ownParts, StmtKind.ownExprs, partsOfSpecs_eq, partsOfExprs_eq]
  | .expr value => simp [StmtKind.ownParts, StmtKind.ownExprs]
  | .spawn call => simp [StmtKind.ownParts, StmtKind.ownExprs]
  | .defer call => simp [StmtKind.ownParts, StmtKind.ownExprs]
  | .assign left op right => simp [StmtKind.ownParts, StmtKind.ownExprs, partsOfExprs_eq]
  | .ret results => simp [StmtKind.ownParts, StmtKind.ownExprs, partsOfExprs_eq]
  | .switch header clauses trailing => simp [StmtKind.ownParts, StmtKind.ownExprs]
  | .select clauses trailing => simp [StmtKind.ownParts, StmtKind.ownExprs]
  | .block body => simp [StmtKind.ownParts, StmtKind.ownExprs]
  | .verbatim text => simp [StmtKind.ownParts, StmtKind.ownExprs]

/-- The parts of the own expressions of all these statements. -/
def ownPartsOf (stmts : List Stmt) : List Expr :=
  stmts.flatMap fun stmt => stmt.ownExprs.flatMap (·.parts true)

@[simp]
theorem ownPartsOf_cons (stmt : Stmt) (stmts : List Stmt) :
    ownPartsOf (stmt :: stmts) = stmt.kind.ownParts ++ ownPartsOf stmts := by
  simp [ownPartsOf, StmtKind.ownParts_eq, Stmt.ownExprs]

@[simp]
theorem ownPartsOf_append (front back : List Stmt) :
    ownPartsOf (front ++ back) = ownPartsOf front ++ ownPartsOf back :=
  List.flatMap_append

mutual

theorem Stmt.parts_eq (stmt : Stmt) : stmt.parts = ownPartsOf stmt.all := by
  obtain ⟨kind, decs⟩ := stmt
  -- Only the branches of a conditional are statements of their own.
  have hother (hall : Stmt.all ⟨kind, decs⟩ = ⟨kind, decs⟩ :: kind.nested)
      (hparts : kind.nestedParts true = kind.nestedParts false) :
      Stmt.parts ⟨kind, decs⟩ = ownPartsOf (Stmt.all ⟨kind, decs⟩) := by
    rw [Stmt.parts, hall, ownPartsOf_cons, hparts, kind.nestedParts_eq]
  cases kind with
  | cond init test body alternative =>
      obtain ⟨stmts, trailing, inline⟩ := body
      obtain _ | ⟨kind, branchDecs⟩ := alternative
      · simp [Stmt.parts, Stmt.all, StmtKind.nestedParts, partsOfStmts_eq stmts]
      · have hbranch : kind.ownParts ++ kind.nestedParts true = _ :=
          Stmt.parts_eq ⟨kind, branchDecs⟩
        simp [Stmt.parts, Stmt.all, StmtKind.nestedParts, partsOfStmts_eq stmts, hbranch]
  | loop header body =>
      cases body
      exact hother rfl rfl
  | block body =>
      cases body
      exact hother rfl rfl
  | labeled label stmt =>
      cases stmt
      exact hother rfl rfl
  | _ => exact hother rfl rfl

theorem StmtKind.nestedParts_eq (kind : StmtKind) :
    kind.nestedParts false = ownPartsOf kind.nested := by
  match kind with
  | .cond init test ⟨stmts, trailing, inline⟩ none =>
      simp [StmtKind.nestedParts, StmtKind.nested, partsOfStmts_eq stmts]
  | .cond init test ⟨stmts, trailing, inline⟩ (some ⟨kind, decs⟩) =>
      simp [StmtKind.nestedParts, StmtKind.nested, partsOfStmts_eq stmts, kind.nestedParts_eq]
  | .loop header ⟨stmts, trailing, inline⟩ => exact partsOfStmts_eq stmts
  | .switch header clauses trailing => exact partsOfClauses_eq clauses
  | .select clauses trailing => exact partsOfClauses_eq clauses
  | .block ⟨stmts, trailing, inline⟩ => exact partsOfStmts_eq stmts
  | .labeled label ⟨kind, decs⟩ => exact kind.nestedParts_eq
  | .expr _ => rfl
  | .spawn _ => rfl
  | .defer _ => rfl
  | .assign _ _ _ => rfl
  | .ret _ => rfl
  | .decl _ => rfl
  | .verbatim _ => rfl

theorem partsOfStmts_eq (stmts : List Stmt) : partsOfStmts stmts = ownPartsOf (allStmts stmts) := by
  cases stmts with
  | nil => rfl
  | cons stmt stmts =>
      rw [partsOfStmts, allStmts, ownPartsOf_append, stmt.parts_eq, partsOfStmts_eq stmts]

theorem partsOfClauses_eq (clauses : List Clause) :
    partsOfClauses clauses = ownPartsOf (clauseStmts clauses) := by
  cases clauses with
  | nil => rfl
  | cons clause clauses =>
      obtain ⟨head, body, trailing, decs⟩ := clause
      rw [partsOfClauses, clauseStmts, ownPartsOf_append, partsOfStmts_eq body,
        partsOfClauses_eq clauses]

end

end TraceWeave.Syntax
