import TraceWeave.Proofs.Tracing.Bodies

/-!
Instrumentation only adds statements.

`Woven stmts stmts'` says that the statements of the first list occur in the second one,
in order and with the same constructors, and that everything else in the second list has
one of the forms that instrumentation writes.  The lists inside statements are woven in
turn.  Forms are told by the members that they call, since arguments and names may change
later in a run.
-/

namespace TraceWeave.Syntax

/-- The member that an expression selects. -/
def Expr.member? (expr : Expr) : Option String := expr.selector?.map (·.2.name)

/-- The member that an expression calls. -/
def Expr.calledMember? (expr : Expr) : Option String := expr.call?.bind (·.callee.member?)

/-- The member whose result the called member belongs to. -/
def Expr.receiverMember? (expr : Expr) : Option String :=
  (expr.call?.bind (·.callee.selector?)).bind (·.1.calledMember?)

/-- Some part of the expression calls the member. -/
def Expr.CallsInside (member : String) (expr : Expr) : Prop :=
  ∃ part ∈ expr.parts false, part.calledMember? = some member

/-- `… != …` -/
def Expr.isUnequal (expr : Expr) : Bool :=
  match expr.kind with
  | .binary _ op _ => op == "!="
  | _ => false

def Expr.literalBody? (expr : Expr) : Option (List Stmt) :=
  match expr.kind with
  | .func _ _ body => some body.stmts
  | _ => none

/-- The body of a function literal that is called. -/
def Expr.spawnedBody? (expr : Expr) : Option (List Stmt) :=
  expr.call?.bind (·.callee.literalBody?)

/-! ## Changes of expressions -/

namespace Expr.Rewrites

variable {literals : Bool} {part part' expr expr' : Expr}

theorem member?_eq (hpart : part.Adjusts part')
    (h : Expr.Rewrites literals part part' expr expr') : expr'.member? = expr.member? := by
  cases h with
  | here => cases hpart <;> rfl
  | _ => rfl

theorem calledMember?_eq (hpart : part.Adjusts part')
    (h : Expr.Rewrites literals part part' expr expr') :
    expr'.calledMember? = expr.calledMember? := by
  cases h with
  | here =>
      cases hpart with
      | call hcallee => simp [Expr.calledMember?, Expr.call?, hcallee]
      | ident _ => rfl
  | callee h => exact h.member?_eq hpart
  | _ => rfl

theorem receiverMember?_eq (hpart : part.Adjusts part')
    (h : Expr.Rewrites literals part part' expr expr') :
    expr'.receiverMember? = expr.receiverMember? := by
  cases h with
  | here =>
      cases hpart with
      | call hcallee => simp [Expr.receiverMember?, Expr.call?, hcallee]
      | ident _ => rfl
  | callee h =>
      cases h with
      | here => cases hpart <;> rfl
      | selector h => exact h.calledMember?_eq hpart
      | _ => rfl
  | _ => rfl

theorem isUnequal_eq (hpart : part.Adjusts part')
    (h : Expr.Rewrites literals part part' expr expr') : expr'.isUnequal = expr.isUnequal := by
  cases h with
  | here => cases hpart <;> rfl
  | _ => rfl

end Expr.Rewrites

namespace Expr.CallsInside

variable {member : String}

theorem mem_partsOfExprs {exprs : List Expr} {part : Expr} :
    part ∈ partsOfExprs false exprs ↔ ∃ expr ∈ exprs, part ∈ expr.parts false := by
  induction exprs with
  | nil => simp [partsOfExprs]
  | cons expr exprs ih => simp [partsOfExprs, ih]

theorem call_iff {call : Call} {decs : Decorations} :
    Expr.CallsInside member ⟨.call call, decs⟩ ↔ call.callee.member? = some member ∨
      call.callee.CallsInside member ∨ ∃ arg ∈ call.args, arg.CallsInside member := by
  obtain ⟨callee, args, spread, closesLine⟩ := call
  simp only [Expr.CallsInside, Expr.parts, ExprKind.parts, List.mem_cons, List.mem_append,
    mem_partsOfExprs]
  constructor
  · rintro ⟨part, rfl | hpart | ⟨arg, harg, hpart⟩, hmember⟩
    · exact .inl hmember
    · exact .inr (.inl ⟨part, hpart, hmember⟩)
    · exact .inr (.inr ⟨arg, harg, part, hpart, hmember⟩)
  · rintro (hmember | ⟨part, hpart, hmember⟩ | ⟨arg, harg, part, hpart, hmember⟩)
    · exact ⟨_, .inl rfl, hmember⟩
    · exact ⟨part, .inr (.inl hpart), hmember⟩
    · exact ⟨part, .inr (.inr ⟨arg, harg, hpart⟩), hmember⟩

theorem redecorate {kind : ExprKind} {decs : Decorations} (h : Expr.CallsInside member ⟨kind, decs⟩)
    (decs' : Decorations) : Expr.CallsInside member ⟨kind, decs'⟩ := by
  obtain ⟨part, hpart, hmember⟩ := h
  rw [Expr.parts, List.mem_cons] at hpart
  obtain rfl | hpart := hpart
  · exact ⟨⟨kind, decs'⟩, by simp [Expr.parts], hmember⟩
  · exact ⟨part, by simp [Expr.parts, hpart], hmember⟩

/-- An expression that is no call calls what the pieces of it call. -/
theorem of_piece {kind kind' : ExprKind} {decs : Decorations} {piece piece' : Expr}
    (front back : List Expr) (hkind : (⟨kind, decs⟩ : Expr).calledMember? = none)
    (hparts : kind.parts false = front ++ piece.parts false ++ back)
    (hparts' : kind'.parts false = front ++ piece'.parts false ++ back)
    (hpiece : piece.CallsInside member → piece'.CallsInside member)
    (h : Expr.CallsInside member ⟨kind, decs⟩) : Expr.CallsInside member ⟨kind', decs⟩ := by
  obtain ⟨part, hpart, hmember⟩ := h
  rw [Expr.parts, hparts] at hpart
  simp only [List.mem_cons, List.mem_append] at hpart
  simp only [Expr.CallsInside, Expr.parts, hparts', List.mem_cons, List.mem_append]
  obtain rfl | (hpart | hpart) | hpart := hpart
  · rw [hkind] at hmember
    contradiction
  · exact ⟨part, .inr (.inl (.inl hpart)), hmember⟩
  · obtain ⟨part', hpart', hmember'⟩ := hpiece ⟨part, hpart, hmember⟩
    exact ⟨part', .inr (.inl (.inr hpart')), hmember'⟩
  · exact ⟨part, .inr (.inr hpart), hmember⟩

theorem partsOfExprs_append (front back : List Expr) :
    partsOfExprs false (front ++ back) = partsOfExprs false front ++ partsOfExprs false back := by
  induction front with
  | nil => simp [partsOfExprs]
  | cons expr front ih => simp [partsOfExprs, ih]

theorem rewrite {literals : Bool} {part part' : Expr} (hpart : part.Adjusts part')
    (hinside : part.CallsInside member → part'.CallsInside member) :
    ∀ {expr expr' : Expr}, Expr.Rewrites literals part part' expr expr' →
      expr.CallsInside member → expr'.CallsInside member
  | _, _, .here => hinside
  | _, _, .selector h => of_piece [] [] rfl (by simp [ExprKind.parts]) (by simp [ExprKind.parts])
      (rewrite hpart hinside h)
  | _, _, .star h => of_piece [] [] rfl (by simp [ExprKind.parts]) (by simp [ExprKind.parts])
      (rewrite hpart hinside h)
  | _, _, .unary h => of_piece [] [] rfl (by simp [ExprKind.parts]) (by simp [ExprKind.parts])
      (rewrite hpart hinside h)
  | _, _, .paren h => of_piece [] [] rfl (by simp [ExprKind.parts]) (by simp [ExprKind.parts])
      (rewrite hpart hinside h)
  | _, _, .left h => of_piece [] _ rfl (by simp only [ExprKind.parts, List.nil_append]; rfl)
      (by simp only [ExprKind.parts, List.nil_append]) (rewrite hpart hinside h)
  | _, _, .right h => of_piece _ [] rfl (by simp only [ExprKind.parts, List.append_nil]; rfl)
      (by simp only [ExprKind.parts, List.append_nil]) (rewrite hpart hinside h)
  | _, _, .operand h => of_piece [] _ rfl (by simp only [ExprKind.parts, List.nil_append]; rfl)
      (by simp only [ExprKind.parts, List.nil_append]) (rewrite hpart hinside h)
  | _, _, .index h => of_piece _ _ rfl
      (by simp only [ExprKind.parts, partsOfExprs_append, partsOfExprs, ← List.append_assoc]; rfl)
      (by simp only [ExprKind.parts, partsOfExprs_append, partsOfExprs, ← List.append_assoc])
      (rewrite hpart hinside h)
  | _, _, .callee h => by
      have ih := rewrite hpart hinside h
      simp only [call_iff, h.member?_eq hpart]
      rintro (hmember | hcallee | harg)
      · exact .inl hmember
      · exact .inr (.inl (ih hcallee))
      · exact .inr (.inr harg)
  | _, _, .arg h => by
      have ih := rewrite hpart hinside h
      simp only [call_iff, List.mem_append, List.mem_cons]
      rintro (hmember | hcallee | ⟨arg, harg | rfl | harg, hinside'⟩)
      · exact .inl hmember
      · exact .inr (.inl hcallee)
      · exact .inr (.inr ⟨arg, .inl harg, hinside'⟩)
      · exact .inr (.inr ⟨_, .inr (.inl rfl), ih hinside'⟩)
      · exact .inr (.inr ⟨arg, .inr (.inr harg), hinside'⟩)
  | _, _, .body _ _ => fun h => by
      obtain ⟨piece, hpiece, hmember⟩ := h
      simp only [Expr.parts, ExprKind.parts, Bool.false_eq_true, if_false, List.mem_singleton] at hpiece
      subst hpiece
      contradiction

end Expr.CallsInside

end TraceWeave.Syntax

namespace TraceWeave.Tracing

open TraceWeave.Agent TraceWeave.Detect TraceWeave.Order TraceWeave.Program TraceWeave.Syntax
  TraceWeave.Types

/-! ## The relation -/

/-- The members whose results instrumentation binds to a name. -/
def boundMembers : List String :=
  ["StartTransaction", "FromContext", "NewContext", "StartExternalSegment",
   "RequestWithTransactionContext", "WrapHandler"]

/-- The members that instrumentation calls in a statement of their own. -/
def calledMembers : List String := ["Shutdown", "End", "NoticeError"]

/-- What the set-up of the agent does if the agent cannot start. -/
def panicStmts : List Stmt := [.expr (.call (.ident "panic") [.ident "err"])]

mutual

inductive Woven : List Stmt → List Stmt → Prop where
  | nil : Woven [] []
  | keep {stmt stmt' : Stmt} {stmts stmts' : List Stmt} :
      Kept stmt.kind stmt'.kind → Woven stmts stmts' → Woven (stmt :: stmts) (stmt' :: stmts')
  | insert {stmt : Stmt} {stmts stmts' : List Stmt} :
      Generated stmt.kind → Woven stmts stmts' → Woven stmts (stmt :: stmts')

/-- A statement as it was, as far as its constructor and the lists inside it tell. -/
inductive Kept : StmtKind → StmtKind → Prop where
  | expr {value value' : Expr} : Kept (.expr value) (.expr value')
  | assign {left left' right right' : List Expr} {op op' : AssignOp} :
      Kept (.assign left op right) (.assign left' op' right')
  | spawn {call call' : Expr} :
      call.spawnedBody? = none → call'.spawnedBody? = none → Kept (.spawn call) (.spawn call')
  | spawned {call call' : Expr} {stmts stmts' : List Stmt} :
      call.spawnedBody? = some stmts → call'.spawnedBody? = some stmts' → Woven stmts stmts' →
      Kept (.spawn call) (.spawn call')
  | defer {call call' : Expr} : Kept (.defer call) (.defer call')
  | ret {results results' : List Expr} : Kept (.ret results) (.ret results')
  | cond {init init' : Option Stmt} {test test' : Expr} {body body' : Block} :
      Woven body.stmts body'.stmts → Kept (.cond init test body none) (.cond init' test' body' none)
  | condElse {init init' : Option Stmt} {test test' : Expr} {body body' : Block}
      {alternative alternative' : Stmt} :
      Woven body.stmts body'.stmts → Kept alternative.kind alternative'.kind →
      Kept (.cond init test body (some alternative)) (.cond init' test' body' (some alternative'))
  | loop {header header' : LoopHeader} {body body' : Block} :
      Woven body.stmts body'.stmts → Kept (.loop header body) (.loop header' body')
  | switch {header : Option String} {clauses clauses' : List Clause} {trailing : List String} :
      ClausesWoven clauses clauses' →
      Kept (.switch header clauses trailing) (.switch header clauses' trailing)
  | select {clauses clauses' : List Clause} {trailing : List String} :
      ClausesWoven clauses clauses' → Kept (.select clauses trailing) (.select clauses' trailing)
  | block {body body' : Block} :
      Woven body.stmts body'.stmts → Kept (.block body) (.block body')
  | labeled {label : String} {stmt stmt' : Stmt} :
      Kept stmt.kind stmt'.kind → Kept (.labeled label stmt) (.labeled label stmt')
  | decl {group : Declaration} : Kept (.decl group) (.decl group)
  | verbatim {text : String} : Kept (.verbatim text) (.verbatim text)

inductive ClausesWoven : List Clause → List Clause → Prop where
  | nil : ClausesWoven [] []
  | cons {clause clause' : Clause} {clauses clauses' : List Clause} :
      clause'.head = clause.head → Woven clause.body clause'.body → ClausesWoven clauses clauses' →
      ClausesWoven (clause :: clauses) (clause' :: clauses')

/-- The forms that instrumentation writes. -/
inductive Generated : StmtKind → Prop where
  | agent {target err value : Expr} {op : AssignOp} :
      value.calledMember? = some "NewApplication" → Generated (.assign [target, err] op [value])
  | check {test : Expr} {body : Block} :
      test.isUnequal = true → Woven panicStmts body.stmts → Generated (.cond none test body none)
  | bound {target value : Expr} {op : AssignOp} {member : String} :
      value.calledMember? = some member → member ∈ boundMembers →
      Generated (.assign [target] op [value])
  | called {value : Expr} {member : String} :
      value.calledMember? = some member → member ∈ calledMembers → Generated (.expr value)
  | segment {call : Expr} :
      call.calledMember? = some "End" → call.receiverMember? = some "StartSegment" →
      Generated (.defer call)
  | response {target value : Expr} {op : AssignOp} :
      target.member? = some "Response" → Generated (.assign [target] op [value])
  | roundTripper {target value : Expr} {op : AssignOp} :
      target.member? = some "Transport" → value.calledMember? = some "NewRoundTripper" →
      Generated (.assign [target] op [value])
  | middleware {value : Expr} :
      value.calledMember? = some "Use" → value.CallsInside "Middleware" → Generated (.expr value)

end

/-! ## Lists -/

theorem Woven.append {base base' front back : List Stmt} (h : Woven base front)
    (h' : Woven base' back) : Woven (base ++ base') (front ++ back) := by
  induction front generalizing base with
  | nil =>
      cases h
      exact h'
  | cons stmt front ih =>
      cases h with
      | keep hkept h => exact .keep hkept (ih h)
      | insert hgenerated h => exact .insert hgenerated (ih h)

theorem Woven.split {base front back : List Stmt} (h : Woven base (front ++ back)) :
    ∃ base' base'', base = base' ++ base'' ∧ Woven base' front ∧ Woven base'' back := by
  induction front generalizing base with
  | nil => exact ⟨[], base, rfl, .nil, h⟩
  | cons stmt front ih =>
      cases h with
      | keep hkept h =>
          obtain ⟨base', base'', rfl, hfront, hback⟩ := ih h
          exact ⟨_ :: base', base'', rfl, .keep hkept hfront, hback⟩
      | insert hgenerated h =>
          obtain ⟨base', base'', rfl, hfront, hback⟩ := ih h
          exact ⟨base', base'', rfl, .insert hgenerated hfront, hback⟩

mutual

theorem Woven.refl : ∀ stmts : List Stmt, Woven stmts stmts
  | [] => .nil
  | ⟨kind, _⟩ :: stmts => .keep (Kept.refl kind) (Woven.refl stmts)

theorem Kept.refl : ∀ kind : StmtKind, Kept kind kind
  | .expr _ => .expr
  | .assign _ _ _ => .assign
  | .spawn call => by
      obtain ⟨kind, decs⟩ := call
      cases kind with
      | call call =>
          obtain ⟨⟨kind, _⟩, _, _, _⟩ := call
          cases kind with
          | func params results body =>
              obtain ⟨stmts, _, _⟩ := body
              exact .spawned rfl rfl (Woven.refl stmts)
          | _ => exact .spawn rfl rfl
      | _ => exact .spawn rfl rfl
  | .defer _ => .defer
  | .ret _ => .ret
  | .cond _ _ ⟨body, _, _⟩ none => .cond (Woven.refl body)
  | .cond _ _ ⟨body, _, _⟩ (some ⟨kind, _⟩) => .condElse (Woven.refl body) (Kept.refl kind)
  | .loop _ ⟨body, _, _⟩ => .loop (Woven.refl body)
  | .switch _ clauses _ => .switch (ClausesWoven.refl clauses)
  | .select clauses _ => .select (ClausesWoven.refl clauses)
  | .block ⟨body, _, _⟩ => .block (Woven.refl body)
  | .labeled _ ⟨kind, _⟩ => .labeled (Kept.refl kind)
  | .decl _ => .decl
  | .verbatim _ => .verbatim

theorem ClausesWoven.refl : ∀ clauses : List Clause, ClausesWoven clauses clauses
  | [] => .nil
  | ⟨_, body, _, _⟩ :: clauses => .cons rfl (Woven.refl body) (ClausesWoven.refl clauses)

end

/-! ## Changes that carry on -/

/-- What has been woven into the first list is woven into the second one. -/
def Carries (stmts stmts' : List Stmt) : Prop := ∀ base, Woven base stmts → Woven base stmts'

structure KindCarries (kind kind' : StmtKind) : Prop where
  kept : ∀ base, Kept base kind → Kept base kind'
  generated : Generated kind → Generated kind'

theorem carries_same (stmts : Option (List Stmt)) : Option.Rel Carries stmts stmts := by
  cases stmts with
  | none => exact .none
  | some stmts => exact .some fun _ h => h

theorem KindCarries.within {stmt stmt' : Stmt} (h : KindCarries stmt.kind stmt'.kind)
    (front back : List Stmt) : Carries (front ++ stmt :: back) (front ++ stmt' :: back) := by
  intro base hwoven
  obtain ⟨base', base'', rfl, hfront, hback⟩ := hwoven.split
  refine hfront.append ?_
  cases hback with
  | keep hkept hback => exact .keep (h.kept _ hkept) hback
  | insert hgenerated hback => exact .insert (h.generated hgenerated) hback

namespace KindCarries

variable {init init' : Option Stmt} {test test' : Expr} {header header' : LoopHeader}
  {body body' : Block}

theorem spawn {call call' : Expr} (h : Option.Rel Carries call.spawnedBody? call'.spawnedBody?) :
    KindCarries (.spawn call) (.spawn call') := by
  refine ⟨fun base hkept => ?_, fun hgenerated => by cases hgenerated⟩
  cases hkept with
  | spawn hbase hnone =>
      rw [hnone] at h
      generalize hbody' : call'.spawnedBody? = after at h
      cases h
      exact .spawn hbase hbody'
  | spawned hbase hsome hwoven =>
      rw [hsome] at h
      generalize hbody' : call'.spawnedBody? = after at h
      cases h with
      | some hcarries => exact .spawned hbase hbody' (hcarries _ hwoven)

theorem cond {alternative : Option Stmt}
    (h : Generated (.cond init test body alternative) →
      Generated (.cond init' test' body alternative)) :
    KindCarries (.cond init test body alternative) (.cond init' test' body alternative) := by
  refine ⟨fun base hkept => ?_, h⟩
  cases hkept with
  | cond hbody => exact .cond hbody
  | condElse hbody halternative => exact .condElse hbody halternative

theorem alternative {stmt stmt' : Stmt} (h : KindCarries stmt.kind stmt'.kind) :
    KindCarries (.cond init test body (some stmt)) (.cond init test body (some stmt')) := by
  refine ⟨fun base hkept => ?_, fun hgenerated => by cases hgenerated⟩
  cases hkept with
  | condElse hbody halternative => exact .condElse hbody (h.kept _ halternative)

theorem loop (h : Carries body.stmts body'.stmts) :
    KindCarries (.loop header body) (.loop header' body') := by
  refine ⟨fun base hkept => ?_, fun hgenerated => by cases hgenerated⟩
  cases hkept with
  | loop hbody => exact .loop (h _ hbody)

theorem labeled {label : String} {stmt stmt' : Stmt} (h : KindCarries stmt.kind stmt'.kind) :
    KindCarries (.labeled label stmt) (.labeled label stmt') := by
  refine ⟨fun base hkept => ?_, fun hgenerated => by cases hgenerated⟩
  cases hkept with
  | labeled hkept => exact .labeled (h.kept _ hkept)

end KindCarries

theorem ClausesWoven.replace {stmts stmts' : List Stmt} (h : Carries stmts stmts')
    {base front back : List Clause} {head : String} {trailing : List String} {decs : Decorations}
    (hwoven : ClausesWoven base (front ++ ⟨head, stmts, trailing, decs⟩ :: back)) :
    ClausesWoven base (front ++ ⟨head, stmts', trailing, decs⟩ :: back) := by
  induction front generalizing base with
  | nil =>
      cases hwoven with
      | cons hhead hbody hrest => exact .cons hhead (h _ hbody) hrest
  | cons clause front ih =>
      cases hwoven with
      | cons hhead hbody hrest => exact .cons hhead hbody (ih hrest)

theorem carries_of_replaces {stmts stmts' : List Stmt} (h : Carries stmts stmts')
    {kind kind' : StmtKind} (hreplaces : StmtKind.Replaces stmts stmts' kind kind') :
    KindCarries kind kind' := by
  induction hreplaces with
  | branch inline' =>
      refine ⟨fun base hkept => ?_, fun hgenerated => ?_⟩
      · cases hkept with
        | cond hbody => exact .cond (h _ hbody)
        | condElse hbody halternative => exact .condElse (h _ hbody) halternative
      · cases hgenerated with
        | check htest hbody => exact .check htest (h _ hbody)
  | alternative _ ih => exact .alternative ih
  | loop => exact .loop h
  | switch =>
      refine ⟨fun base hkept => ?_, fun hgenerated => by cases hgenerated⟩
      cases hkept with
      | switch hclauses => exact .switch (hclauses.replace h)
  | select =>
      refine ⟨fun base hkept => ?_, fun hgenerated => by cases hgenerated⟩
      cases hkept with
      | select hclauses => exact .select (hclauses.replace h)
  | block =>
      refine ⟨fun base hkept => ?_, fun hgenerated => by cases hgenerated⟩
      cases hkept with
      | block hbody => exact .block (h _ hbody)
  | labeled _ ih => exact .labeled ih

theorem carries_of_nests {stmts stmts' : List Stmt} (h : Carries stmts stmts')
    {kind kind' : StmtKind} (hnests : StmtKind.Nests stmts stmts' kind kind') :
    KindCarries kind kind' := by
  cases hnests with
  | block hreplaces => exact carries_of_replaces h hreplaces
  | spawned => exact .spawn (.some h)

/-! ## Changes of expressions -/

/-- The form of an assignment is told by the members on both sides. -/
theorem Generated.assign_congr {left left' right right' : List Expr} {op op' : AssignOp}
    (hleft : left'.map Expr.member? = left.map Expr.member?)
    (hright : right'.map Expr.calledMember? = right.map Expr.calledMember?)
    (h : Generated (.assign left op right)) : Generated (.assign left' op' right') := by
  cases h with
  | agent hvalue =>
      simp only [List.map_cons, List.map_nil, List.map_eq_cons_iff, List.map_eq_nil_iff] at hleft hright
      obtain ⟨target, _, rfl, -, err, _, rfl, -, rfl⟩ := hleft
      obtain ⟨value, _, rfl, hvalue', rfl⟩ := hright
      exact .agent (hvalue'.trans hvalue)
  | bound hvalue hmember =>
      simp only [List.map_cons, List.map_nil, List.map_eq_cons_iff, List.map_eq_nil_iff] at hleft hright
      obtain ⟨target, _, rfl, -, rfl⟩ := hleft
      obtain ⟨value, _, rfl, hvalue', rfl⟩ := hright
      exact .bound (hvalue'.trans hvalue) hmember
  | response htarget =>
      simp only [List.map_cons, List.map_nil, List.map_eq_cons_iff, List.map_eq_nil_iff] at hleft hright
      obtain ⟨target, _, rfl, htarget', rfl⟩ := hleft
      obtain ⟨value, _, rfl, -, rfl⟩ := hright
      exact .response (htarget'.trans htarget)
  | roundTripper htarget hvalue =>
      simp only [List.map_cons, List.map_nil, List.map_eq_cons_iff, List.map_eq_nil_iff] at hleft hright
      obtain ⟨target, _, rfl, htarget', rfl⟩ := hleft
      obtain ⟨value, _, rfl, hvalue', rfl⟩ := hright
      exact .roundTripper (htarget'.trans htarget) (hvalue'.trans hvalue)

section

variable {literals : Bool} {part part' : Expr}

theorem assign_carries {left left' right right' : List Expr} {op : AssignOp}
    (hleft : left'.map Expr.member? = left.map Expr.member?)
    (hright : right'.map Expr.calledMember? = right.map Expr.calledMember?) :
    KindCarries (.assign left op right) (.assign left' op right') :=
  ⟨fun base hkept => by cases hkept; exact .assign, .assign_congr hleft hright⟩

/-- A call of a member of the agent's package stays one. -/
theorem expr_carries (hpart : part.Adjusts part')
    (hinside : part.CallsInside "Middleware" → part'.CallsInside "Middleware")
    {value value' : Expr} (h : Expr.Rewrites literals part part' value value') :
    KindCarries (.expr value) (.expr value') := by
  have hcalled := h.calledMember?_eq hpart
  refine ⟨fun base hkept => by cases hkept; exact .expr, fun hgenerated => ?_⟩
  cases hgenerated with
  | called hvalue hmember => exact .called (hcalled.trans hvalue) hmember
  | middleware hvalue hagent =>
      exact .middleware (hcalled.trans hvalue) (hagent.rewrite hpart hinside h)

theorem defer_carries (hpart : part.Adjusts part') {call call' : Expr}
    (h : Expr.Rewrites literals part part' call call') :
    KindCarries (.defer call) (.defer call') := by
  refine ⟨fun base hkept => by cases hkept; exact .defer, fun hgenerated => ?_⟩
  cases hgenerated with
  | segment hcall hreceiver =>
      exact .segment ((h.calledMember?_eq hpart).trans hcall)
        ((h.receiverMember?_eq hpart).trans hreceiver)

theorem test_carries (hpart : part.Adjusts part') {test test' : Expr}
    (h : Expr.Rewrites literals part part' test test') {init : Option Stmt} {body : Block}
    {alternative : Option Stmt} :
    KindCarries (.cond init test body alternative) (.cond init test' body alternative) := by
  refine .cond fun hgenerated => ?_
  cases hgenerated with
  | check htest hbody => exact .check ((h.isUnequal_eq hpart).trans htest) hbody

mutual

theorem literalBody_carries (hpart : part.Adjusts part')
    (hinside : part.CallsInside "Middleware" → part'.CallsInside "Middleware") :
    ∀ {expr expr' : Expr}, Expr.Rewrites literals part part' expr expr' →
      Option.Rel Carries expr.literalBody? expr'.literalBody?
  | _, _, .here => by cases hpart <;> exact .none
  | _, _, .body _ h => .some (stmtsRewrite_carries hpart hinside h)
  | _, _, .selector _ => .none
  | _, _, .star _ => .none
  | _, _, .unary _ => .none
  | _, _, .paren _ => .none
  | _, _, .left _ => .none
  | _, _, .right _ => .none
  | _, _, .callee _ => .none
  | _, _, .arg _ => .none
  | _, _, .operand _ => .none
  | _, _, .index _ => .none

theorem spawnedBody_carries (hpart : part.Adjusts part')
    (hinside : part.CallsInside "Middleware" → part'.CallsInside "Middleware") :
    ∀ {expr expr' : Expr}, Expr.Rewrites literals part part' expr expr' →
      Option.Rel Carries expr.spawnedBody? expr'.spawnedBody?
  | _, _, .here => by
      cases hpart with
      | call hcallee =>
          simp only [Expr.spawnedBody?, Expr.call?, Option.bind_some, hcallee]
          exact carries_same _
      | ident _ => exact .none
  | _, _, .callee h => literalBody_carries hpart hinside h
  | _, _, .arg _ => carries_same _
  | _, _, .body _ _ => .none
  | _, _, .selector _ => .none
  | _, _, .star _ => .none
  | _, _, .unary _ => .none
  | _, _, .paren _ => .none
  | _, _, .left _ => .none
  | _, _, .right _ => .none
  | _, _, .operand _ => .none
  | _, _, .index _ => .none

theorem kindRewrites_carries (hpart : part.Adjusts part')
    (hinside : part.CallsInside "Middleware" → part'.CallsInside "Middleware") :
    ∀ {scope : EditScope} {kind kind' : StmtKind},
      StmtKind.Rewrites literals part part' scope kind kind' → KindCarries kind kind'
  | _, _, _, .expr _ h => expr_carries hpart hinside h
  | _, _, _, .spawn _ h => .spawn (spawnedBody_carries hpart hinside h)
  | _, _, _, .defer _ h => defer_carries hpart h
  | _, _, _, .target _ h => assign_carries (by simp [h.member?_eq hpart]) rfl
  | _, _, _, .value _ h => assign_carries rfl (by simp [h.calledMember?_eq hpart])
  | _, _, _, .result _ _ =>
      ⟨fun base hkept => by cases hkept; exact .ret, fun hgenerated => by cases hgenerated⟩
  | _, _, _, .init _ _ => .cond fun hgenerated => by cases hgenerated
  | _, _, _, .test _ h => test_carries hpart h
  | _, _, _, .branch _ h => carries_of_replaces (stmtsRewrite_carries hpart hinside h) (.branch _)
  | _, _, _, .alternative _ h => .alternative (kindRewrites_carries hpart hinside h)
  | _, _, _, .loopTest _ _ => .loop fun _ h => h
  | _, _, _, .range _ _ => .loop fun _ h => h
  | _, _, _, .loopBody _ h => .loop (stmtsRewrite_carries hpart hinside h)
  | _, _, _, .switchClause _ h =>
      carries_of_replaces (stmtsRewrite_carries hpart hinside h) .switch
  | _, _, _, .selectClause _ h =>
      carries_of_replaces (stmtsRewrite_carries hpart hinside h) .select
  | _, _, _, .block _ h => carries_of_replaces (stmtsRewrite_carries hpart hinside h) .block
  | _, _, _, .labeled h => .labeled (kindRewrites_carries hpart hinside h)

theorem stmtsRewrite_carries (hpart : part.Adjusts part')
    (hinside : part.CallsInside "Middleware" → part'.CallsInside "Middleware") :
    ∀ {stmts stmts' : List Stmt}, StmtsRewrite literals part part' stmts stmts' →
      Carries stmts stmts'
  | _, _, .within front h => (kindRewrites_carries hpart hinside h).within front _

end

end

/-! ## What calls keep inside -/

/-- What the arguments call, some argument calls still. -/
def Covers (args args' : List Expr) : Prop :=
  ∀ member, (∃ arg ∈ args, arg.CallsInside member) → ∃ arg ∈ args', arg.CallsInside member

theorem Covers.refl {args : List Expr} : Covers args args := fun _ h => h

theorem covers_addArg (call : Call) (arg : Expr) : Covers call.args (call.addArg arg).args := by
  rintro member ⟨inner, hinner, hcalls⟩
  exact ⟨inner, by simp [Call.addArg, hinner], hcalls⟩

theorem covers_set {args : List Expr} {index : Nat} {arg wrapped : Expr}
    (harg : args[index]? = some arg)
    (hwrapped : ∀ member, arg.CallsInside member → wrapped.CallsInside member) :
    Covers args (args.set index wrapped) := by
  rintro member ⟨inner, hinner, hcalls⟩
  obtain ⟨index', hindex'⟩ := List.mem_iff_getElem?.1 hinner
  by_cases heq : index = index'
  · subst heq
    rw [harg, Option.some.injEq] at hindex'
    subst hindex'
    refine ⟨wrapped, List.mem_iff_getElem?.2 ⟨index, ?_⟩, hwrapped member hcalls⟩
    rw [List.getElem?_set_self (List.getElem?_eq_some_iff.1 harg).1]
  · refine ⟨inner, List.mem_iff_getElem?.2 ⟨index', ?_⟩, hcalls⟩
    rw [List.getElem?_set_ne heq, hindex']

theorem callsInside_newContext {member : String} {arg : Expr} (txn : Expr) (decs : Decorations)
    (h : arg.CallsInside member) : ({ newContext arg txn with decs } : Expr).CallsInside member := by
  obtain ⟨kind, argDecs⟩ := arg
  refine Expr.CallsInside.call_iff.2 (.inr (.inr ⟨_, List.mem_cons_self, ?_⟩))
  exact h.redecorate {}

theorem Passes.covers {info : Info} {list : FieldList} {call : Call} {mayExtend : Bool}
    {passing : Passing} (h : Passes info list call mayExtend passing) :
    Covers call.args passing.call.args := by
  cases h with
  | same hcall _ =>
      rw [hcall]
      exact .refl
  | fills _ _ _ hcall _ =>
      rw [hcall]
      exact covers_addArg call _
  | wraps _ _ harg hcall _ =>
      rw [hcall]
      exact covers_set harg fun member h => callsInside_newContext _ _ h
  | grows _ _ _ hcall _ _ =>
      rw [hcall]
      exact covers_addArg call _

theorem Hooks.covers {info : Info} {call call' : Call} (hooks : Hooks info call call') :
    Covers call.args call'.args := by
  cases hooks with
  | client _ => exact fun member h => covers_addArg _ _ member (covers_addArg _ _ member h)
  | server _ _ => exact fun member h => covers_addArg _ _ member (covers_addArg _ _ member h)
  | handler _ _ hwrap =>
      unfold wrapHandler? at hwrap
      split at hwrap
      · next pattern handler hargs =>
        split at hwrap
        · contradiction
        · obtain rfl := Option.some.inj hwrap
          rw [hargs]
          rintro member ⟨arg, harg, hcalls⟩
          obtain ⟨kind, decs⟩ := arg
          refine ⟨_, List.mem_singleton_self _, Expr.CallsInside.call_iff.2 (.inr (.inr ?_))⟩
          simp only [List.mem_cons, List.not_mem_nil, or_false] at harg
          obtain harg | harg := harg
          · exact ⟨_, List.mem_cons_of_mem _ List.mem_cons_self, harg ▸ hcalls.redecorate _⟩
          · refine ⟨_, List.mem_cons_of_mem _ (List.mem_cons_of_mem _ List.mem_cons_self), ?_⟩
            exact harg ▸ hcalls.redecorate _
      · contradiction
  | logger _ _ =>
      unfold wrapFirstArg
      split
      · exact .refl
      · next handler args hargs =>
        rw [hargs]
        rintro member ⟨arg, harg, hcalls⟩
        obtain ⟨kind, decs⟩ := arg
        obtain harg | harg := List.mem_cons.1 harg
        · refine ⟨_, List.mem_cons_self, Expr.CallsInside.call_iff.2 (.inr (.inr ?_))⟩
          exact ⟨_, List.mem_cons_of_mem _ List.mem_cons_self, harg ▸ hcalls.redecorate _⟩
        · exact ⟨_, List.mem_cons_of_mem _ harg, hcalls⟩

theorem callsInside_of_covers {call call' : Call} {decs : Decorations} {member : String}
    (hcallee : call'.callee = call.callee) (hcovers : Covers call.args call'.args)
    (h : Expr.CallsInside member ⟨.call call, decs⟩) :
    Expr.CallsInside member ⟨.call call', decs⟩ := by
  rw [Expr.CallsInside.call_iff] at h ⊢
  rw [hcallee]
  obtain hmember | hinside | hargs := h
  · exact .inl hmember
  · exact .inr (.inl hinside)
  · exact .inr (.inr (hcovers member hargs))

theorem Hands.callsInside {app : Application} {call : Call} {ref : FuncRef} {passing : Passing}
    (hands : Hands app call ref passing) {decs : Decorations} {member : String}
    (h : Expr.CallsInside member ⟨.call call, decs⟩) :
    Expr.CallsInside member ⟨.call passing.call, decs⟩ := by
  refine callsInside_of_covers hands.callee_eq ?_ h
  obtain ⟨func, carrier, async, txn, -, rfl⟩ := hands.passes
  exact (carrier.passes ..).covers

theorem Adjusts.callsInside {app : Application} {expr expr' : Expr} (h : Adjusts app expr expr')
    {member : String} (hinside : expr.CallsInside member) : expr'.CallsInside member := by
  cases h with
  | rename ident decs _ =>
      obtain ⟨part, hpart, hmember⟩ := hinside
      simp only [Expr.parts, ExprKind.parts, List.mem_singleton] at hpart
      subst hpart
      contradiction
  | hook hooks => exact callsInside_of_covers hooks.callee_eq hooks.covers hinside
  | pass hands _ => exact hands.callsInside hinside

/-! ## Weaving -/

theorem generated_of_addition {near : List Stmt} {kind : StmtKind} (h : Addition near kind) :
    Generated kind := by
  cases h with
  | start agent txn name declared =>
      cases declared <;> exact .bound rfl (by simp [boundMembers])
  | ending name => exact .called rfl (by simp [calledMembers])
  | fromContext name _ => exact .bound rfl (by simp [boundMembers])
  | segment name txn => exact .segment rfl rfl
  | newContext name txn declared =>
      cases declared <;> exact .bound rfl (by simp [boundMembers])
  | external txn segment declared _ _ _ =>
      cases declared <;> exact .bound rfl (by simp [boundMembers])
  | response segment name => exact .response rfl
  | request txn _ => exact .bound rfl (by simp [boundMembers])
  | roundTripper after _ => exact .roundTripper rfl rfl
  | middleware package _ _ =>
      refine .middleware rfl (Expr.CallsInside.call_iff.2 (.inr (.inr ?_)))
      exact ⟨_, List.mem_singleton_self _, Expr.CallsInside.call_iff.2 (.inl rfl)⟩
  | logHandler name handler declared _ =>
      cases declared <;> exact .bound rfl (by simp [boundMembers])
  | notice txn _ => exact .called rfl (by simp [calledMembers])

/-- A call of a member has the name of the member. -/
theorem callee?_name {info : Info} {call : Call} {callee : Callee} {member : String}
    (hmember : call.callee.member? = some member) (h : info.callee? call = some callee) :
    callee.name = member := by
  obtain ⟨⟨kind, decs⟩, args, spread, closesLine⟩ := call
  cases kind with
  | selector operand ident =>
      obtain rfl : ident.name = member := by simpa [Expr.member?, Expr.selector?] using hmember
      unfold Info.callee? Expr.unparen at h
      dsimp only at h
      split at h
      · obtain rfl := Option.some.inj h
        rfl
      · obtain ⟨base, -, h⟩ := Option.bind_eq_some_iff.1 h
        unfold Info.methodCallee? at h
        split at h
        · obtain ⟨owner, -, rfl⟩ := Option.map_eq_some_iff.1 h
          rfl
        · split at h
          · contradiction
          · split at h
            · contradiction
            · obtain rfl := Option.some.inj h
              rfl
  | _ => simp [Expr.member?, Expr.selector?] at hmember

/-- No call that instrumentation writes is a query. -/
theorem queries_carry {info : Info} {stmt : Stmt} {call : Call} {callee : Callee} {method : String}
    (hcall : primaryCall? stmt = some call) (hcallee : info.callee? call = some callee)
    (hname : callee.name ∈ queryMethods) :
    KindCarries stmt.kind (mapPrimaryCall (queryWithContext method) stmt).kind := by
  have hmember : ∀ value : Expr, value.call? = some call → ∀ member,
      value.calledMember? = some member → member ∈ queryMethods := by
    intro value hvalue member hmember
    rw [Expr.calledMember?, hvalue, Option.bind_some] at hmember
    exact callee?_name hmember hcallee ▸ hname
  obtain ⟨kind, decs⟩ := stmt
  unfold primaryCall? at hcall
  unfold mapPrimaryCall
  split at hcall
  · next left op value hkind =>
    obtain rfl : kind = _ := hkind
    refine ⟨fun base hkept => by cases hkept; exact .assign, fun hgenerated => ?_⟩
    cases hgenerated with
    | agent hvalue => exact absurd (hmember _ hcall _ hvalue) (by decide)
    | bound hvalue hbound =>
        have hquery := hmember _ hcall _ hvalue
        simp only [boundMembers, queryMethods, List.mem_cons, List.not_mem_nil, or_false] at hbound hquery
        grind
    | response htarget => exact .response htarget
    | roundTripper _ hvalue => exact absurd (hmember _ hcall _ hvalue) (by decide)
  · next value hkind =>
    obtain rfl : kind = _ := hkind
    refine ⟨fun base hkept => by cases hkept; exact .expr, fun hgenerated => ?_⟩
    cases hgenerated with
    | called hvalue hcalled =>
        have hquery := hmember _ hcall _ hvalue
        simp only [calledMembers, queryMethods, List.mem_cons, List.not_mem_nil, or_false] at hcalled hquery
        grind
    | middleware hvalue _ => exact absurd (hmember _ hcall _ hvalue) (by decide)
  · contradiction

theorem hand_carries (literal : SpawnedLiteral) (txn : String) :
    KindCarries literal.kind (literal.handed txn).kind := by
  obtain ⟨value, call, params, results, body⟩ := literal
  exact .spawn (.some fun _ h => h)

theorem Weaves.carries {app app' : Application} {stmts stmts' : List Stmt}
    (h : Weaves app stmts app' stmts') : Carries stmts stmts' := by
  induction h with
  | refl => exact fun _ hwoven => hwoven
  | trans _ _ ih ih' => exact fun base hwoven => ih' base (ih base hwoven)
  | needImport package path => exact fun _ hwoven => hwoven
  | console console => exact fun _ hwoven => hwoven
  | @dress _ front back stmt decs _ =>
      have hsame : KindCarries stmt.kind { stmt with decs }.kind := ⟨fun _ h => h, fun h => h⟩
      exact hsame.within front back
  | adjust hadjusts hrewrite =>
      exact stmtsRewrite_carries hadjusts.adjusts hadjusts.callsInside hrewrite
  | query front back method hcall hcallee _ hname hmethod =>
      exact (queries_carry hcall hcallee (hname ▸ hmethod)).within front back
  | hand front back literal txn hkind _ =>
      refine KindCarries.within ?_ front back
      rw [hkind]
      exact hand_carries literal txn
  | insert front back haddition =>
      intro base hwoven
      obtain ⟨base', base'', rfl, hfront, hback⟩ := hwoven.split
      exact hfront.append (.insert (generated_of_addition haddition) hback)
  | @precede _ front back first stmt decs haddition _ _ =>
      intro base hwoven
      have hsame : KindCarries stmt.kind { stmt with decs }.kind := ⟨fun _ h => h, fun h => h⟩
      obtain ⟨base', base'', rfl, hfront, hback⟩ := (hsame.within front back base hwoven).split
      exact hfront.append (.insert (generated_of_addition haddition) hback)
  | nested front back hnests _ ih => exact (carries_of_nests ih hnests).within front back
  | insertInside front back hnests haddition =>
      refine (carries_of_nests ?_ hnests).within front back
      exact fun base hwoven => .insert (generated_of_addition haddition) hwoven
  | enter hands _ _ hrewrite _ _ _ =>
      exact stmtsRewrite_carries (.call hands.callee_eq) hands.callsInside hrewrite

/-! ## Whole runs -/

theorem lowerRedeclarations_carries (declared : List String) (stmts : List Stmt) :
    Carries stmts (lowerRedeclarations declared stmts) := by
  have hassign : ∀ stmt : Stmt, KindCarries stmt.kind (assignOnly stmt).kind := by
    rintro ⟨kind, decs⟩
    unfold assignOnly
    split
    · next left op right hkind =>
      obtain rfl : kind = _ := hkind
      refine ⟨fun base hkept => by cases hkept; exact .assign, fun hgenerated => ?_⟩
      exact hgenerated.assign_congr rfl rfl
    · exact ⟨fun _ h => h, fun h => h⟩
  induction stmts generalizing declared with
  | nil => exact fun _ hwoven => hwoven
  | cons stmt stmts ih =>
      intro base hwoven
      have hlowered : ∀ (stmt' : Stmt) declared, KindCarries stmt.kind stmt'.kind →
          Woven base (stmt' :: lowerRedeclarations declared stmts) := by
        intro stmt' declared hkind
        cases hwoven with
        | keep hkept hwoven => exact .keep (hkind.kept _ hkept) (ih declared _ hwoven)
        | insert hgenerated hwoven =>
            exact .insert (hkind.generated hgenerated) (ih declared _ hwoven)
      unfold lowerRedeclarations
      split
      · exact hlowered stmt declared ⟨fun _ h => h, fun h => h⟩
      · dsimp only
        split
        · exact hlowered _ _ (hassign stmt)
        · exact hlowered _ _ ⟨fun _ h => h, fun h => h⟩

theorem SetsUp.carries {agent appName : String} {stmts stmts' : List Stmt}
    (h : SetsUp agent appName stmts stmts') : Carries stmts stmts' := by
  cases h with
  | existing => exact fun _ hwoven => hwoven
  | fresh =>
      intro base hwoven
      have hlowered := lowerRedeclarations_carries [agent, "err"] stmts base hwoven
      have hstop : Woven [] [agentShutdown agent] :=
        .insert (.called rfl (by simp [calledMembers])) .nil
      have hstopped := hlowered.append hstop
      rw [List.append_nil] at hstopped
      refine .insert (.agent rfl) (.insert (.check rfl (Woven.refl _)) hstopped)

/-- The body at a place has been woven from a list. -/
def WovenAt (app : Application) (place : Place) (base : List Stmt) : Prop :=
  ∃ body, (app.funcAt? place).bind (·.body) = some body ∧ Woven base body.stmts

theorem woven_withstands (base : List Stmt) :
    Withstands (fun _ => True) fun body => Woven base body.stmts where
  grows _ _ h := h
  setBody _ _ h := h
  weaves _ _ _ hweaves hwoven := hweaves.carries base hwoven
  setsUp hsetsUp hwoven := hsetsUp.carries base hwoven

theorem Turns.wovenAt {app app' : Application} (hdiffer : app.PlacesDiffer) (h : Turns app app')
    {place : Place} {base : List Stmt} (hwoven : WovenAt app place base) :
    WovenAt app' place base :=
  h.holdsAt (woven_withstands base) hdiffer trivial hwoven

end TraceWeave.Tracing
