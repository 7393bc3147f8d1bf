import Mathlib.Data.List.Basic
import Mathlib.Logic.Relation
import TraceWeave.Program.Imports

/-!
Where the names in front of dots stand.

`Phrase.Leads` goes from an expression or a statement to the ones inside it that the walk
for qualifiers visits next, and `Phrase.Holds` to all of them.  The walk lists the names
that stand in front of a dot at the end of such a path (`mem_fileQualifiers`).
-/

namespace TraceWeave.Syntax

/-! ## Phrases -/

inductive Phrase where
  | expr (expr : Expr)
  | stmt (stmt : Stmt)

/-- The phrase is a selector with the name in front of its dot. -/
def Phrase.IsQualifiedBy (name : String) : Phrase → Prop
  | .expr ⟨kind, _⟩ => kind.qualifier? = some name
  | .stmt _ => False

/-- From a phrase to those inside it that the walk goes to. -/
inductive Phrase.Leads : Phrase → Phrase → Prop where
  | selected {operand : Expr} {member : Ident} {decs : Decorations} :
      Leads (.expr ⟨.selector operand member, decs⟩) (.expr operand)
  | pointer {operand : Expr} {decs : Decorations} :
      Leads (.expr ⟨.star operand, decs⟩) (.expr operand)
  | operand {op : String} {operand : Expr} {decs : Decorations} :
      Leads (.expr ⟨.unary op operand, decs⟩) (.expr operand)
  | inner {inner : Expr} {decs : Decorations} : Leads (.expr ⟨.paren inner, decs⟩) (.expr inner)
  | left {left right : Expr} {op : String} {decs : Decorations} :
      Leads (.expr ⟨.binary left op right, decs⟩) (.expr left)
  | right {left right : Expr} {op : String} {decs : Decorations} :
      Leads (.expr ⟨.binary left op right, decs⟩) (.expr right)
  | callee {call : Call} {decs : Decorations} : Leads (.expr ⟨.call call, decs⟩) (.expr call.callee)
  | arg {call : Call} {arg : Expr} {decs : Decorations} :
      arg ∈ call.args → Leads (.expr ⟨.call call, decs⟩) (.expr arg)
  | indexed {operand : Expr} {indices : List Expr} {decs : Decorations} :
      Leads (.expr ⟨.index operand indices, decs⟩) (.expr operand)
  | index {operand index : Expr} {indices : List Expr} {decs : Decorations} :
      index ∈ indices → Leads (.expr ⟨.index operand indices, decs⟩) (.expr index)
  | composite {type : Expr} {body : String} {decs : Decorations} :
      Leads (.expr ⟨.composite (some type) body, decs⟩) (.expr type)
  | param {params : FieldList} {results : Option Results} {body : Block} {field : Field}
      {decs : Decorations} :
      field ∈ params.fields → Leads (.expr ⟨.func params results body, decs⟩) (.expr field.type)
  | body {params : FieldList} {results : Option Results} {body : Block} {stmt : Stmt}
      {decs : Decorations} :
      stmt ∈ body.stmts → Leads (.expr ⟨.func params results body, decs⟩) (.stmt stmt)
  | own {stmt : Stmt} {expr : Expr} : expr ∈ stmt.ownExprs → Leads (.stmt stmt) (.expr expr)
  | nested {stmt inner : Stmt} {block : List Stmt} :
      block ∈ stmt.blocks → inner ∈ block → Leads (.stmt stmt) (.stmt inner)
  | alternative {init : Option Stmt} {test : Expr} {body : Block} {alternative : Stmt}
      {decs : Decorations} :
      Leads (.stmt ⟨.cond init test body (some alternative), decs⟩) (.stmt alternative)

def TypeDef.types : TypeDef → List Expr
  | .struct fields => fields.map (·.type)
  | .interface embeds methods =>
      embeds ++ methods.flatMap fun method =>
        method.params.fields.map (·.type) ++ (method.results.map (·.types)).getD []
  | .other type => [type]

/-- The types that a specification writes. -/
def Spec.types : Spec → List Expr
  | .value _ declared _ _ => declared.toList
  | .type _ _ definition => definition.types

/-- From a phrase to all those inside it, also where the walk does not go. -/
inductive Phrase.Holds : Phrase → Phrase → Prop where
  | leads {phrase inner : Phrase} : phrase.Leads inner → Holds phrase inner
  | result {params : FieldList} {results : Results} {body : Block} {type : Expr}
      {decs : Decorations} :
      type ∈ results.types → Holds (.expr ⟨.func params (some results) body, decs⟩) (.expr type)
  | declared {group : Declaration} {spec : Spec} {type : Expr} {decs : Decorations} :
      spec ∈ group.specs → type ∈ spec.types → Holds (.stmt ⟨.decl group, decs⟩) (.expr type)
  | key {key operand : Expr} {value : Option Expr} {op : Option AssignOp} {body : Block}
      {decs : Decorations} :
      Holds (.stmt ⟨.loop (.range (some key) value op operand) body, decs⟩) (.expr key)
  | value {value operand : Expr} {key : Option Expr} {op : Option AssignOp} {body : Block}
      {decs : Decorations} :
      Holds (.stmt ⟨.loop (.range key (some value) op operand) body, decs⟩) (.expr value)
  | init {init : Stmt} {test : Expr} {body : Block} {alternative : Option Stmt}
      {decs : Decorations} :
      Holds (.stmt ⟨.cond (some init) test body alternative, decs⟩) (.stmt init)
  /-- The headers of the branches of a conditional behind a label are found this way alone. -/
  | labeled {label : String} {stmt : Stmt} {decs : Decorations} :
      Holds (.stmt ⟨.labeled label stmt, decs⟩) (.stmt stmt)

/-- The name stands in front of a dot somewhere inside. -/
def Phrase.Refers (edge : Phrase → Phrase → Prop) (name : String) (phrase : Phrase) : Prop :=
  ∃ inner, Relation.ReflTransGen edge phrase inner ∧ inner.IsQualifiedBy name

/-- So it does in the type of a parameter or in the body of the function. -/
def FuncDecl.Refers (edge : Phrase → Phrase → Prop) (name : String) (func : FuncDecl) : Prop :=
  (∃ field ∈ func.params.fields, (Phrase.expr field.type).Refers edge name) ∨
    ∃ body, func.body = some body ∧ ∃ stmt ∈ body.stmts, (Phrase.stmt stmt).Refers edge name

/-- So it does in a function of the file. -/
def File.Refers (edge : Phrase → Phrase → Prop) (name : String) (file : File) : Prop :=
  ∃ func ∈ file.funcs, func.Refers edge name

section

variable {edge edge' : Phrase → Phrase → Prop} {name : String}

theorem Phrase.Refers.mono (hedge : ∀ phrase inner, edge phrase inner → edge' phrase inner)
    {phrase : Phrase} (h : phrase.Refers edge name) : phrase.Refers edge' name := by
  obtain ⟨inner, hpath, hinner⟩ := h
  exact ⟨inner, Relation.ReflTransGen.mono hedge _ _ hpath, hinner⟩

theorem FuncDecl.Refers.mono (hedge : ∀ phrase inner, edge phrase inner → edge' phrase inner)
    {func : FuncDecl} (h : func.Refers edge name) : func.Refers edge' name := by
  obtain ⟨field, hfield, htype⟩ | ⟨body, hbody, stmt, hstmt, hrefers⟩ := h
  · exact .inl ⟨field, hfield, htype.mono hedge⟩
  · exact .inr ⟨body, hbody, stmt, hstmt, hrefers.mono hedge⟩

theorem File.Refers.mono (hedge : ∀ phrase inner, edge phrase inner → edge' phrase inner)
    {file : File} (h : file.Refers edge name) : file.Refers edge' name := by
  obtain ⟨func, hfunc, hrefers⟩ := h
  exact ⟨func, hfunc, hrefers.mono hedge⟩

theorem Phrase.refers_iff {phrase : Phrase} :
    phrase.Refers edge name ↔
      phrase.IsQualifiedBy name ∨ ∃ inner, edge phrase inner ∧ inner.Refers edge name := by
  constructor
  · rintro ⟨inner, hpath, hinner⟩
    obtain rfl | ⟨next, hnext, hpath⟩ := hpath.cases_head
    · exact .inl hinner
    · exact .inr ⟨next, hnext, inner, hpath, hinner⟩
  · rintro (h | ⟨next, hnext, inner, hpath, hinner⟩)
    · exact ⟨phrase, .refl, h⟩
    · exact ⟨inner, hpath.head hnext, hinner⟩

end

/-! ## The walk -/

section

variable {name : String}

/-- The name is found in one of the expressions. -/
def RefersIn (name : String) (exprs : List Expr) : Prop :=
  ∃ expr ∈ exprs, (Phrase.expr expr).Refers Phrase.Leads name

theorem refersIn_singleton (expr : Expr) :
    RefersIn name [expr] ↔ (Phrase.expr expr).Refers Phrase.Leads name := by
  simp [RefersIn]

theorem refersIn_append (front back : List Expr) :
    RefersIn name (front ++ back) ↔ RefersIn name front ∨ RefersIn name back := by
  simp only [RefersIn, List.mem_append, or_and_right, exists_or]

/-- The name is found in the blocks, or in the alternative if branches count. -/
def StmtKind.NestedRefer (name : String) (branches : Bool) (kind : StmtKind) : Prop :=
  (∃ block ∈ kind.blocks, ∃ inner ∈ block, (Phrase.stmt inner).Refers Phrase.Leads name) ∨
    branches = true ∧ ∃ init test body alternative,
      kind = .cond init test body (some alternative) ∧
        (Phrase.stmt alternative).Refers Phrase.Leads name

/-- One step from a statement leads to an own expression, into a block, or to the alternative. -/
theorem refers_stmt_iff {kind : StmtKind} {decs : Decorations} :
    (Phrase.stmt ⟨kind, decs⟩).Refers Phrase.Leads name ↔
      RefersIn name kind.ownExprs ∨ kind.NestedRefer name true := by
  rw [Phrase.refers_iff]
  constructor
  · rintro (h | ⟨next, hnext, hrefers⟩)
    · exact h.elim
    · cases hnext with
      | own hown => exact .inl ⟨_, hown, hrefers⟩
      | nested hblock hinner => exact .inr (.inl ⟨_, hblock, _, hinner, hrefers⟩)
      | alternative => exact .inr (.inr ⟨rfl, _, _, _, _, rfl, hrefers⟩)
  · rintro (⟨expr, hown, hrefers⟩ | ⟨block, hblock, inner, hinner, hrefers⟩ |
      ⟨-, init, test, body, alternative, rfl, hrefers⟩)
    · exact .inr ⟨_, .own hown, hrefers⟩
    · exact .inr ⟨_, .nested hblock hinner, hrefers⟩
    · exact .inr ⟨_, .alternative, hrefers⟩

theorem nestedRefer_iff {kind : StmtKind} {branches : Bool}
    (hkind : ∀ init test body alternative, kind ≠ .cond init test body (some alternative)) :
    kind.NestedRefer name branches ↔
      ∃ block ∈ kind.blocks, ∃ inner ∈ block, (Phrase.stmt inner).Refers Phrase.Leads name := by
  refine or_iff_left ?_
  rintro ⟨-, init, test, body, alternative, rfl, -⟩
  exact hkind init test body alternative rfl

/-- The blocks of an alternative are found in it, too. -/
theorem nestedRefer_cond {init : Option Stmt} {test : Expr} {body : Block} {kind : StmtKind}
    {decs : Decorations} {branches : Bool} :
    (StmtKind.cond init test body (some ⟨kind, decs⟩)).NestedRefer name branches ↔
      (∃ inner ∈ body.stmts, (Phrase.stmt inner).Refers Phrase.Leads name) ∨
      if branches then (Phrase.stmt ⟨kind, decs⟩).Refers Phrase.Leads name
      else kind.NestedRefer name false := by
  have hblocks : (StmtKind.cond init test body (some ⟨kind, decs⟩)).blocks =
      body.stmts :: kind.blocks := rfl
  unfold StmtKind.NestedRefer
  rw [hblocks, List.exists_mem_cons_iff, or_assoc]
  refine or_congr_right ?_
  cases branches with
  | false => simp
  | true =>
      constructor
      · rintro (⟨block, hblock, inner, hinner, hrefers⟩ | ⟨-, _, _, _, alternative, heq, hrefers⟩)
        · exact refers_stmt_iff.2 (.inr (.inl ⟨block, hblock, inner, hinner, hrefers⟩))
        · cases heq
          exact hrefers
      · exact fun h => .inr ⟨rfl, _, _, _, _, rfl, h⟩

mutual

theorem Expr.mem_qualifiers (expr : Expr) :
    name ∈ expr.qualifiers ↔ (Phrase.expr expr).Refers Phrase.Leads name := by
  obtain ⟨kind, decs⟩ := expr
  rw [Phrase.refers_iff]
  exact List.mem_append.trans (or_congr Option.mem_toList (kind.mem_qualifiersInside decs))

theorem ExprKind.mem_qualifiersInside (kind : ExprKind) (decs : Decorations) :
    name ∈ kind.qualifiersInside ↔
      ∃ inner, (Phrase.expr ⟨kind, decs⟩).Leads inner ∧ inner.Refers Phrase.Leads name := by
  cases kind with
  | selector operand member =>
      refine operand.mem_qualifiers.trans ⟨fun h => ⟨_, .selected, h⟩, ?_⟩
      rintro ⟨_, ⟨⟩, h⟩
      exact h
  | star operand =>
      refine operand.mem_qualifiers.trans ⟨fun h => ⟨_, .pointer, h⟩, ?_⟩
      rintro ⟨_, ⟨⟩, h⟩
      exact h
  | unary op operand =>
      refine operand.mem_qualifiers.trans ⟨fun h => ⟨_, .operand, h⟩, ?_⟩
      rintro ⟨_, ⟨⟩, h⟩
      exact h
  | paren inner =>
      refine inner.mem_qualifiers.trans ⟨fun h => ⟨_, .inner, h⟩, ?_⟩
      rintro ⟨_, ⟨⟩, h⟩
      exact h
  | binary left op right =>
      refine (List.mem_append.trans (or_congr left.mem_qualifiers right.mem_qualifiers)).trans ⟨?_, ?_⟩
      · rintro (h | h)
        · exact ⟨_, .left, h⟩
        · exact ⟨_, .right, h⟩
      · rintro ⟨_, hleads, h⟩
        cases hleads with
        | left => exact .inl h
        | right => exact .inr h
  | call call =>
      obtain ⟨callee, args, spread, closesLine⟩ := call
      refine (List.mem_append.trans
        (or_congr callee.mem_qualifiers (mem_qualifiersOfExprs args))).trans ⟨?_, ?_⟩
      · rintro (h | ⟨arg, harg, h⟩)
        · exact ⟨_, .callee, h⟩
        · exact ⟨_, .arg harg, h⟩
      · rintro ⟨_, hleads, h⟩
        cases hleads with
        | callee => exact .inl h
        | arg harg => exact .inr ⟨_, harg, h⟩
  | index operand indices =>
      refine (List.mem_append.trans
        (or_congr operand.mem_qualifiers (mem_qualifiersOfExprs indices))).trans ⟨?_, ?_⟩
      · rintro (h | ⟨index, hindex, h⟩)
        · exact ⟨_, .indexed, h⟩
        · exact ⟨_, .index hindex, h⟩
      · rintro ⟨_, hleads, h⟩
        cases hleads with
        | indexed => exact .inl h
        | index hindex => exact .inr ⟨_, hindex, h⟩
  | composite type body =>
      cases type with
      | none =>
          refine iff_of_false List.not_mem_nil ?_
          rintro ⟨_, ⟨⟩, -⟩
      | some type =>
          refine type.mem_qualifiers.trans ⟨fun h => ⟨_, .composite, h⟩, ?_⟩
          rintro ⟨_, ⟨⟩, h⟩
          exact h
  | func params results body =>
      obtain ⟨fields, closesLine⟩ := params
      obtain ⟨stmts, trailing, inline⟩ := body
      refine (List.mem_append.trans
        (or_congr (mem_qualifiersOfFields fields) (mem_qualifiersOfStmts stmts))).trans ⟨?_, ?_⟩
      · rintro (⟨field, hfield, h⟩ | ⟨stmt, hstmt, h⟩)
        · exact ⟨_, .param hfield, h⟩
        · exact ⟨_, .body hstmt, h⟩
      · rintro ⟨_, hleads, h⟩
        cases hleads with
        | param hfield => exact .inl ⟨_, hfield, h⟩
        | body hstmt => exact .inr ⟨_, hstmt, h⟩
  | _ =>
      refine iff_of_false List.not_mem_nil ?_
      rintro ⟨_, ⟨⟩, -⟩

theorem mem_qualifiersOfExprs (exprs : List Expr) :
    name ∈ qualifiersOfExprs exprs ↔ RefersIn name exprs := by
  cases exprs with
  | nil => simp [qualifiersOfExprs, RefersIn]
  | cons expr exprs =>
      rw [RefersIn, List.exists_mem_cons_iff]
      exact List.mem_append.trans (or_congr expr.mem_qualifiers (mem_qualifiersOfExprs exprs))

theorem mem_qualifiersOfFields (fields : List Field) :
    name ∈ qualifiersOfFields fields ↔
      ∃ field ∈ fields, (Phrase.expr field.type).Refers Phrase.Leads name := by
  cases fields with
  | nil => simp [qualifiersOfFields]
  | cons field fields =>
      obtain ⟨names, type, variadic, decs⟩ := field
      rw [List.exists_mem_cons_iff]
      exact List.mem_append.trans (or_congr type.mem_qualifiers (mem_qualifiersOfFields fields))

theorem StmtKind.mem_ownQualifiers (kind : StmtKind) :
    name ∈ kind.ownQualifiers ↔ RefersIn name kind.ownExprs := by
  cases kind with
  | expr value => exact value.mem_qualifiers.trans (refersIn_singleton _).symm
  | spawn call => exact call.mem_qualifiers.trans (refersIn_singleton _).symm
  | defer call => exact call.mem_qualifiers.trans (refersIn_singleton _).symm
  | assign left op right =>
      exact (List.mem_append.trans (or_congr (mem_qualifiersOfExprs left)
        (mem_qualifiersOfExprs right))).trans (refersIn_append _ _).symm
  | ret results => exact mem_qualifiersOfExprs results
  | cond init test body alternative =>
      cases init with
      | none => exact test.mem_qualifiers.trans (refersIn_singleton _).symm
      | some init =>
          obtain ⟨kind, decs⟩ := init
          exact (List.mem_append.trans (or_congr kind.mem_ownQualifiers test.mem_qualifiers)).trans
            ((refersIn_append _ _).trans (or_congr_right (refersIn_singleton _))).symm
  | loop header body =>
      cases header with
      | cond test => exact test.mem_qualifiers.trans (refersIn_singleton _).symm
      | range key value op operand => exact operand.mem_qualifiers.trans (refersIn_singleton _).symm
      | _ => simp [StmtKind.ownQualifiers, StmtKind.ownExprs, RefersIn]
  | labeled label stmt =>
      obtain ⟨kind, decs⟩ := stmt
      exact kind.mem_ownQualifiers
  | decl group =>
      obtain ⟨text, specs⟩ := group
      exact mem_qualifiersOfSpecs specs
  | _ => simp [StmtKind.ownQualifiers, StmtKind.ownExprs, RefersIn]

theorem mem_qualifiersOfSpecs (specs : List Spec) :
    name ∈ qualifiersOfSpecs specs ↔ RefersIn name (specs.flatMap Spec.values) := by
  cases specs with
  | nil => simp [qualifiersOfSpecs, RefersIn]
  | cons spec specs =>
      rw [List.flatMap_cons]
      cases spec with
      | value names type values constant =>
          exact (List.mem_append.trans (or_congr (mem_qualifiersOfExprs values)
            (mem_qualifiersOfSpecs specs))).trans (refersIn_append _ _).symm
      | type defined isAlias definition => exact mem_qualifiersOfSpecs specs

theorem StmtKind.mem_nestedQualifiers (kind : StmtKind) (branches : Bool) :
    name ∈ kind.nestedQualifiers branches ↔ kind.NestedRefer name branches := by
  cases kind with
  | cond init test body alternative =>
      obtain ⟨stmts, trailing, inline⟩ := body
      cases alternative with
      | none =>
          rw [nestedRefer_iff (by simp)]
          simp [StmtKind.nestedQualifiers, StmtKind.blocks, mem_qualifiersOfStmts stmts]
      | some alternative =>
          obtain ⟨kind, decs⟩ := alternative
          rw [nestedRefer_cond]
          refine List.mem_append.trans (or_congr (mem_qualifiersOfStmts stmts) ?_)
          cases branches with
          | false => exact kind.mem_nestedQualifiers false
          | true =>
              exact (List.mem_append.trans
                (or_congr kind.mem_ownQualifiers (kind.mem_nestedQualifiers true))).trans
                refers_stmt_iff.symm
  | loop header body =>
      obtain ⟨stmts, trailing, inline⟩ := body
      rw [nestedRefer_iff (by simp)]
      simp [StmtKind.nestedQualifiers, StmtKind.blocks, mem_qualifiersOfStmts stmts]
  | switch header clauses trailing =>
      rw [nestedRefer_iff (by simp)]
      simp [StmtKind.nestedQualifiers, StmtKind.blocks, mem_qualifiersOfClauses clauses]
  | select clauses trailing =>
      rw [nestedRefer_iff (by simp)]
      simp [StmtKind.nestedQualifiers, StmtKind.blocks, mem_qualifiersOfClauses clauses]
  | block body =>
      obtain ⟨stmts, trailing, inline⟩ := body
      rw [nestedRefer_iff (by simp)]
      simp [StmtKind.nestedQualifiers, StmtKind.blocks, mem_qualifiersOfStmts stmts]
  | labeled label stmt =>
      -- branches do not count behind a label
      obtain ⟨kind, decs⟩ := stmt
      rw [nestedRefer_iff (by simp)]
      refine (kind.mem_nestedQualifiers false).trans (or_iff_left ?_)
      rintro ⟨⟨⟩, -⟩
  | _ =>
      rw [nestedRefer_iff (by simp)]
      simp [StmtKind.nestedQualifiers, StmtKind.blocks]

theorem mem_qualifiersOfStmts (stmts : List Stmt) :
    name ∈ qualifiersOfStmts stmts ↔ ∃ stmt ∈ stmts, (Phrase.stmt stmt).Refers Phrase.Leads name := by
  cases stmts with
  | nil => simp [qualifiersOfStmts]
  | cons stmt stmts =>
      obtain ⟨kind, decs⟩ := stmt
      rw [List.exists_mem_cons_iff, refers_stmt_iff]
      exact List.mem_append.trans (or_congr
        (List.mem_append.trans (or_congr kind.mem_ownQualifiers (kind.mem_nestedQualifiers true)))
        (mem_qualifiersOfStmts stmts))

theorem mem_qualifiersOfClauses (clauses : List Clause) :
    name ∈ qualifiersOfClauses clauses ↔
      ∃ clause ∈ clauses, ∃ inner ∈ clause.body, (Phrase.stmt inner).Refers Phrase.Leads name := by
  cases clauses with
  | nil => simp [qualifiersOfClauses]
  | cons clause clauses =>
      obtain ⟨head, body, trailing, decs⟩ := clause
      rw [List.exists_mem_cons_iff]
      exact List.mem_append.trans
        (or_congr (mem_qualifiersOfStmts body) (mem_qualifiersOfClauses clauses))

end

end

end TraceWeave.Syntax

namespace TraceWeave.Program

open TraceWeave.Syntax

variable {name : String}

theorem mem_funcQualifiers (func : FuncDecl) :
    name ∈ funcQualifiers func ↔ func.Refers Phrase.Leads name := by
  refine List.mem_append.trans (or_congr (mem_qualifiersOfFields func.params.fields) ?_)
  rw [mem_qualifiersOfStmts]
  cases func.body <;> simp

/-- The walk over a file lists exactly the names that it refers to. -/
theorem mem_fileQualifiers (file : File) :
    name ∈ fileQualifiers file ↔ file.Refers Phrase.Leads name := by
  simp only [fileQualifiers, List.mem_flatMap, mem_funcQualifiers, File.Refers]

end TraceWeave.Program
