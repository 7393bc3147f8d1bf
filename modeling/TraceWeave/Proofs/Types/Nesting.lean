import Mathlib.Data.List.Infix
import TraceWeave.Proofs.Types.Coverage

/-!
The events of lists inside of lists.

A list of statements that lies in another one, in a block or in the body of a function literal,
is read in one go while the other one is: its events stand in a row among those of the other
one (`readIn_of_listIn`).  As for the coverage of identifiers, the types of composite literals have
to be written with names.
-/

namespace TraceWeave.Types

open TraceWeave.Syntax

/-- The body of a function literal. -/
def literalBody? (expr : Expr) : Option (List Stmt) :=
  match expr.kind with
  | .func _ _ body => some body.stmts
  | _ => none

/-- The events of the list stand in a row, and all that it holds is among the occurrences. -/
def ReadIn (all : List (Bool × Expr)) (list : List Stmt) (events : List Event) : Prop :=
  occurrencesOfStmts list ⊆ all ∧ eventsOfStmts list <:+: events

theorem ReadIn.widen {all : List (Bool × Expr)} {list : List Stmt} {events events' : List Event}
    (h : ReadIn all list events) (hpart : events <:+: events') : ReadIn all list events' :=
  ⟨h.1, h.2.trans hpart⟩

/-- The bodies of the function literals among expressions are read in a row. -/
def Embeds (all : List (Bool × Expr)) (parts : List Expr) (events : List Event) : Prop :=
  ∀ part ∈ parts, ∀ body, literalBody? part = some body → ReadIn all body events

namespace Embeds

variable {all : List (Bool × Expr)} {first second : List Expr} {events events' front back : List Event}

theorem nil (events : List Event) : Embeds all [] events := List.forall_mem_nil _

theorem widen (h : Embeds all first events) (hpart : events <:+: events') : Embeds all first events' :=
  fun part hmem body hbody => (h part hmem body hbody).widen hpart

theorem left (h : Embeds all first front) (back : List Event) : Embeds all first (front ++ back) :=
  h.widen (List.prefix_append front back).isInfix

theorem right (h : Embeds all first back) (front : List Event) : Embeds all first (front ++ back) :=
  h.widen (List.suffix_append front back).isInfix

theorem both (hfirst : Embeds all first events) (hsecond : Embeds all second events) :
    Embeds all (first ++ second) events :=
  List.forall_mem_append.2 ⟨hfirst, hsecond⟩

theorem append (hfirst : Embeds all first front) (hsecond : Embeds all second back) :
    Embeds all (first ++ second) (front ++ back) :=
  both (hfirst.left back) (hsecond.right front)

theorem cons {part : Expr} (h : Embeds all first events) (hpart : literalBody? part = none) :
    Embeds all (part :: first) events := by
  refine List.forall_mem_cons.2 ⟨fun body hbody => ?_, h⟩
  rw [hpart] at hbody
  contradiction

end Embeds

/-! ## Expressions -/

section

variable {all : List (Bool × Expr)}

mutual

/-- A type that is written with names holds no function literal. -/
theorem embeds_type : ∀ (type : Expr) (events : List Event), isTypeName type = true →
    Embeds all (type.parts false) events
  | ⟨.ident ident, decs⟩, events, _ => .cons (.nil events) rfl
  | ⟨.selector operand member, decs⟩, events, h => by
      obtain ⟨ident, decs', rfl⟩ := exists_ident_of_isTypeName h
      exact .cons (.cons (.nil events) rfl) rfl
  | ⟨.star operand, decs⟩, events, h => by
      rw [isTypeName] at h
      exact .cons (embeds_type operand events h) rfl
  | ⟨.paren inner, decs⟩, events, h => by
      rw [isTypeName] at h
      exact .cons (embeds_type inner events h) rfl
  | ⟨.index operand indices, decs⟩, events, h => by
      rw [isTypeName, Bool.and_eq_true] at h
      exact .cons (.both (embeds_type operand events h.1) (embeds_types indices events h.2)) rfl
  | ⟨.literal text, decs⟩, events, _ => .cons (.nil events) rfl
  | ⟨.verbatim text, decs⟩, events, _ => .cons (.nil events) rfl

theorem embeds_types : ∀ (types : List Expr) (events : List Event), areTypeNames types = true →
    Embeds all (partsOfExprs false types) events
  | [], events, _ => .nil events
  | type :: types, events, h => by
      rw [areTypeNames, Bool.and_eq_true] at h
      exact .both (embeds_type type events h.1) (embeds_types types events h.2)

end

mutual

theorem embeds_expr (hnames : NamesTypes all) :
    ∀ (expr : Expr) (called : Bool), expr.occurrences called ⊆ all →
      Embeds all (expr.parts false) (eventsOfExpr expr)
  | ⟨.ident ident, decs⟩, called, _ => .cons (.nil _) rfl
  | ⟨.selector operand member, decs⟩, called, h => by
      rw [eventsOfExpr]
      exact .cons (embeds_expr hnames operand false (List.subset_of_cons_subset h)) rfl
  | ⟨.call ⟨callee, args, spread, closesLine⟩, decs⟩, called, h => by
      rw [eventsOfExpr]
      obtain ⟨hcallee, hargs⟩ := List.append_subset.1 (List.subset_of_cons_subset h)
      exact .cons (.append (embeds_expr hnames callee true hcallee) (embeds_exprs hnames args hargs)) rfl
  | ⟨.star operand, decs⟩, called, h => by
      rw [eventsOfExpr]
      exact .cons (embeds_expr hnames operand false (List.subset_of_cons_subset h)) rfl
  | ⟨.unary op operand, decs⟩, called, h => by
      rw [eventsOfExpr]
      exact .cons (embeds_expr hnames operand false (List.subset_of_cons_subset h)) rfl
  | ⟨.paren inner, decs⟩, called, h => by
      rw [eventsOfExpr]
      exact .cons (embeds_expr hnames inner called (List.subset_of_cons_subset h)) rfl
  | ⟨.binary left op right, decs⟩, called, h => by
      rw [eventsOfExpr]
      obtain ⟨hleft, hright⟩ := List.append_subset.1 (List.subset_of_cons_subset h)
      exact .cons (.append (embeds_expr hnames left false hleft) (embeds_expr hnames right false hright)) rfl
  | ⟨.index operand indices, decs⟩, called, h => by
      rw [eventsOfExpr]
      obtain ⟨hoperand, hindices⟩ := List.append_subset.1 (List.subset_of_cons_subset h)
      exact .cons (.append (embeds_expr hnames operand false hoperand) (embeds_exprs hnames indices hindices))
        rfl
  | ⟨.composite (some type) body, decs⟩, called, h =>
      .cons (embeds_type type _ (hnames (h List.mem_cons_self))) rfl
  | ⟨.composite none body, decs⟩, called, _ => .cons (.nil _) rfl
  | ⟨.func params results ⟨body, trailing, inline⟩, decs⟩, called, h => by
      rw [eventsOfExpr]
      refine List.forall_mem_singleton.2 fun body' hbody => ?_
      obtain rfl := Option.some.inj hbody
      exact ⟨List.subset_of_cons_subset h,
        .enter :: (eventsOfParams params ++ eventsOfResults results), [.leave], by simp⟩
  | ⟨.literal text, decs⟩, called, _ => .cons (.nil _) rfl
  | ⟨.verbatim text, decs⟩, called, _ => .cons (.nil _) rfl

theorem embeds_exprs (hnames : NamesTypes all) :
    ∀ exprs : List Expr, occurrencesOfExprs exprs ⊆ all →
      Embeds all (partsOfExprs false exprs) (eventsOfExprs exprs)
  | [], _ => .nil _
  | expr :: exprs, h => by
      rw [eventsOfExprs]
      obtain ⟨hexpr, hexprs⟩ := List.append_subset.1 h
      exact .append (embeds_expr hnames expr false hexpr) (embeds_exprs hnames exprs hexprs)

end

/-! ## Statements -/

theorem infix_eventsOfExprs {expr : Expr} {exprs : List Expr} (h : expr ∈ exprs) :
    eventsOfExpr expr <:+: eventsOfExprs exprs := by
  induction exprs with
  | nil => contradiction
  | cons other exprs ih =>
      rw [eventsOfExprs]
      obtain rfl | h := List.mem_cons.1 h
      · exact (List.prefix_append _ _).isInfix
      · exact (ih h).trans (List.suffix_append _ _).isInfix

theorem embeds_mem (hnames : NamesTypes all) {exprs : List Expr} (h : occurrencesOfExprs exprs ⊆ all) :
    ∀ expr ∈ exprs, Embeds all (expr.parts false) (eventsOfExprs exprs) := fun expr hmem =>
  (embeds_expr hnames expr false (List.Subset.trans (occurrences_subset_exprs hmem) h)).widen
    (infix_eventsOfExprs hmem)

theorem embeds_defined (hnames : NamesTypes all) {exprs : List Expr}
    (h : occurrencesOfExprs exprs ⊆ all) :
    ∀ expr ∈ exprs, Embeds all (expr.parts false) (eventsOfDefined exprs) := by
  induction exprs with
  | nil => exact List.forall_mem_nil _
  | cons expr exprs ih =>
      obtain ⟨hexpr, hexprs⟩ := List.append_subset.1 h
      rw [eventsOfDefined]
      refine List.forall_mem_cons.2 ⟨?_, fun expr hmem => (ih hexprs expr hmem).right _⟩
      have hparts := embeds_expr hnames expr false hexpr
      obtain ⟨kind, decs⟩ := expr
      cases kind with
      | ident ident => exact .cons (.nil _) rfl
      | _ => exact hparts.left _

theorem embeds_target (hnames : NamesTypes all) (op : Option AssignOp) {target : Option Expr}
    (h : occurrencesOfOptionalExpr target ⊆ all) :
    ∀ expr ∈ target.toList, Embeds all (expr.parts false) (eventsOfTarget op target) := by
  cases target with
  | none => exact List.forall_mem_nil _
  | some expr =>
      refine List.forall_mem_singleton.2 ?_
      have hparts := embeds_expr hnames expr false h
      obtain ⟨kind, decs⟩ := expr
      cases kind with
      | ident ident => exact .cons (.nil _) rfl
      | _ =>
          rw [eventsOfTarget]
          · exact hparts
          · simp

theorem embeds_header (hnames : NamesTypes all) {header : LoopHeader}
    (h : header.occurrences ⊆ all) :
    ∀ expr ∈ header.exprs, Embeds all (expr.parts false) (eventsOfHeader header) := by
  cases header with
  | infinite => exact List.forall_mem_nil _
  | cond test => exact List.forall_mem_singleton.2 (embeds_expr hnames test false h)
  | clauses text => exact List.forall_mem_nil _
  | range key value op operand =>
      obtain ⟨hkey, h⟩ := List.append_subset.1 h
      obtain ⟨hvalue, hoperand⟩ := List.append_subset.1 h
      rw [eventsOfHeader, LoopHeader.exprs]
      refine List.forall_mem_append.2 ⟨fun expr hmem => ?_, List.forall_mem_append.2
        ⟨fun expr hmem => ?_, List.forall_mem_singleton.2 ?_⟩⟩
      · exact ((embeds_target hnames op hkey expr hmem).left _).right _
      · exact ((embeds_target hnames op hvalue expr hmem).right _).right _
      · exact (embeds_expr hnames operand false hoperand).left _

theorem embeds_specs (hnames : NamesTypes all) {specs : List Spec} (h : occurrencesOfSpecs specs ⊆ all) :
    ∀ expr ∈ specs.flatMap Spec.values, Embeds all (expr.parts false) (eventsOfSpecs specs) := by
  induction specs with
  | nil => exact List.forall_mem_nil _
  | cons spec specs ih =>
      rw [List.flatMap_cons]
      cases spec with
      | value names type values constant =>
          obtain ⟨hvalues, hspecs⟩ := List.append_subset.1 h
          rw [eventsOfSpecs]
          refine List.forall_mem_append.2 ⟨fun expr hmem => ?_, fun expr hmem => ?_⟩
          · exact (embeds_mem hnames hvalues expr hmem).left _
          · exact ((ih hspecs expr hmem).right _).right _
      | type name isAlias definition =>
          rw [eventsOfSpecs]
          exact fun expr hmem => (ih h expr hmem).right [.declareType name]

mutual

theorem embeds_headers (hnames : NamesTypes all) : ∀ kind : StmtKind, kind.occurrences ⊆ all →
    ∀ expr ∈ kind.headers, Embeds all (expr.parts false) (eventsOfKind kind)
  | .expr value, h => by
      rw [eventsOfKind]
      exact List.forall_mem_singleton.2 (embeds_expr hnames value false h)
  | .spawn call, h => by
      rw [eventsOfKind]
      exact List.forall_mem_singleton.2 (embeds_expr hnames call false h)
  | .defer call, h => by
      rw [eventsOfKind]
      exact List.forall_mem_singleton.2 (embeds_expr hnames call false h)
  | .assign left .assign right, h => by
      obtain ⟨hleft, hright⟩ := List.append_subset.1 h
      rw [eventsOfKind]
      exact List.forall_mem_append.2 ⟨fun expr hmem => (embeds_mem hnames hleft expr hmem).right _,
        fun expr hmem => (embeds_mem hnames hright expr hmem).left _⟩
  | .assign left .define right, h => by
      obtain ⟨hleft, hright⟩ := List.append_subset.1 h
      rw [eventsOfKind]
      exact List.forall_mem_append.2
        ⟨fun expr hmem => (embeds_defined hnames hleft expr hmem).right _,
          fun expr hmem => (embeds_mem hnames hright expr hmem).left _⟩
  | .ret results, h => by
      rw [eventsOfKind]
      exact embeds_mem hnames h
  | .cond init test ⟨body, trailing, inline⟩ alternative, h => by
      obtain ⟨hinit, h⟩ := List.append_subset.1 h
      obtain ⟨htest, h⟩ := List.append_subset.1 h
      obtain ⟨-, halternative⟩ := List.append_subset.1 h
      rw [eventsOfKind, StmtKind.headers]
      refine List.forall_mem_append.2 ⟨fun expr hmem => ?_, List.forall_mem_cons.2
        ⟨?_, fun expr hmem => ?_⟩⟩
      · exact ((embeds_headersOfOptional hnames init hinit expr hmem).left _).right [.enter]
      · exact (((embeds_expr hnames test false htest).left _).right _).right [.enter]
      · have hbranch := (embeds_headersOfOptional hnames alternative halternative expr hmem).left [.leave]
        have hbehind := ((hbranch.right [.leave]).right (eventsOfStmts body)).right [.enter]
        exact ((hbehind.right (eventsOfExpr test)).right (eventsOfOptional init)).right [.enter]
  | .loop header ⟨body, trailing, inline⟩, h => by
      rw [eventsOfKind]
      exact fun expr hmem =>
        ((embeds_header hnames (List.append_subset.1 h).1 expr hmem).left _).right [.enter]
  | .switch header clauses trailing, _ => List.forall_mem_nil _
  | .select clauses trailing, _ => List.forall_mem_nil _
  | .block body, _ => List.forall_mem_nil _
  | .labeled label ⟨kind, decs⟩, h => by
      rw [eventsOfKind, eventsOfStmt]
      exact embeds_headers hnames kind h
  | .decl ⟨text, specs⟩, h => by
      rw [eventsOfKind]
      exact embeds_specs hnames h
  | .verbatim text, _ => List.forall_mem_nil _

theorem embeds_headersOfOptional (hnames : NamesTypes all) :
    ∀ stmt : Option Stmt, occurrencesOfOptional stmt ⊆ all →
      ∀ expr ∈ headersOfOptional stmt, Embeds all (expr.parts false) (eventsOfOptional stmt)
  | none, _ => List.forall_mem_nil _
  | some ⟨kind, decs⟩, h => by
      rw [eventsOfOptional, eventsOfStmt]
      exact embeds_headers hnames kind h

end

end

/-! ## Lists -/

theorem infix_eventsOfStmts {stmt : Stmt} {stmts : List Stmt} (h : stmt ∈ stmts) :
    eventsOfKind stmt.kind <:+: eventsOfStmts stmts := by
  induction stmts with
  | nil => contradiction
  | cons other stmts ih =>
      rw [eventsOfStmts]
      obtain rfl | h := List.mem_cons.1 h
      · obtain ⟨kind, decs⟩ := stmt
        rw [eventsOfStmt]
        exact (List.prefix_append _ _).isInfix
      · exact (ih h).trans (List.suffix_append _ _).isInfix

theorem readIn_clauses {all : List (Bool × Expr)} {clauses : List Clause}
    (h : occurrencesOfClauses clauses ⊆ all) :
    ∀ body ∈ clauses.map (·.body), ReadIn all body (eventsOfClauses clauses) := by
  induction clauses with
  | nil => exact List.forall_mem_nil _
  | cons clause clauses ih =>
      obtain ⟨head, body, trailing, decs⟩ := clause
      obtain ⟨hbody, hclauses⟩ := List.append_subset.1 h
      rw [eventsOfClauses]
      refine List.forall_mem_cons.2
        ⟨⟨hbody, [.enter], .leave :: eventsOfClauses clauses, by simp⟩, fun body' hmem => ?_⟩
      exact (ih hclauses body' hmem).widen ⟨.enter :: (eventsOfStmts body ++ [.leave]), [], by simp⟩

theorem readIn_blocks {all : List (Bool × Expr)} : ∀ kind : StmtKind, kind.occurrences ⊆ all →
    ∀ block ∈ kind.blocks, ReadIn all block (eventsOfKind kind)
  | .cond init test ⟨body, trailing, inline⟩ none, h => by
      have hbody := (List.append_subset.1 (List.append_subset.1 (List.append_subset.1 h).2).2).1
      rw [StmtKind.blocks, eventsOfKind, eventsOfOptional]
      exact List.forall_mem_singleton.2 ⟨hbody,
        .enter :: (eventsOfOptional init ++ (eventsOfExpr test ++ [.enter])), [.leave, .leave],
          by simp⟩
  | .cond init test ⟨body, trailing, inline⟩ (some ⟨kind, decs⟩), h => by
      obtain ⟨hbody, hbranch⟩ :=
        List.append_subset.1 (List.append_subset.1 (List.append_subset.1 h).2).2
      rw [StmtKind.blocks, eventsOfKind, eventsOfOptional, eventsOfStmt]
      refine List.forall_mem_cons.2 ⟨⟨hbody, ?_⟩, fun block hmem => ?_⟩
      · exact ⟨.enter :: (eventsOfOptional init ++ (eventsOfExpr test ++ [.enter])),
          .leave :: (eventsOfKind kind ++ [.leave]), by simp⟩
      · exact (readIn_blocks kind hbranch block hmem).widen
          ⟨.enter :: (eventsOfOptional init ++ (eventsOfExpr test ++
            (.enter :: (eventsOfStmts body ++ [.leave])))), [.leave], by simp⟩
  | .loop header ⟨body, trailing, inline⟩, h => by
      rw [StmtKind.blocks, eventsOfKind]
      exact List.forall_mem_singleton.2 ⟨(List.append_subset.1 h).2,
        .enter :: (eventsOfHeader header ++ [.enter]), [.leave, .leave], by simp⟩
  | .switch header clauses trailing, h => by
      rw [StmtKind.blocks, eventsOfKind]
      exact readIn_clauses h
  | .select clauses trailing, h => by
      rw [StmtKind.blocks, eventsOfKind]
      exact readIn_clauses h
  | .block ⟨body, trailing, inline⟩, h => by
      rw [StmtKind.blocks, eventsOfKind]
      exact List.forall_mem_singleton.2 ⟨h, [.enter], [.leave], by simp⟩
  | .labeled label ⟨kind, decs⟩, h => by
      rw [StmtKind.blocks, eventsOfKind, eventsOfStmt]
      exact readIn_blocks kind h
  | .expr _, _ => List.forall_mem_nil _
  | .assign _ _ _, _ => List.forall_mem_nil _
  | .spawn _, _ => List.forall_mem_nil _
  | .defer _, _ => List.forall_mem_nil _
  | .ret _, _ => List.forall_mem_nil _
  | .decl _, _ => List.forall_mem_nil _
  | .verbatim _, _ => List.forall_mem_nil _

theorem readIn_lists {all : List (Bool × Expr)} (hnames : NamesTypes all) {kind : StmtKind}
    (h : kind.occurrences ⊆ all) : ∀ inner ∈ kind.lists, ReadIn all inner (eventsOfKind kind) := by
  refine List.forall_mem_append.2 ⟨readIn_blocks kind h, fun inner hinner => ?_⟩
  obtain ⟨expr, hexpr, hliteral⟩ := List.mem_flatMap.1 hinner
  obtain ⟨part, hpart, hbody⟩ := List.mem_filterMap.1 hliteral
  exact embeds_headers hnames kind h expr hexpr part hpart inner hbody

/-- A list is read in a row while a list around it is read. -/
theorem readIn_of_listIn {all : List (Bool × Expr)} {list stmts : List Stmt} (hnames : NamesTypes all)
    (hlist : ListIn list stmts) (h : occurrencesOfStmts stmts ⊆ all) :
    ReadIn all list (eventsOfStmts stmts) := by
  induction hlist with
  | here => exact ⟨h, List.infix_rfl⟩
  | inside hstmt hinner _ ih =>
      have hkind := List.Subset.trans (occurrences_subset_stmts hstmt) h
      have hread := readIn_lists hnames hkind _ hinner
      exact (ih hread.1).widen (hread.2.trans (infix_eventsOfStmts hstmt))

end TraceWeave.Types
