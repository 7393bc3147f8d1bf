import TraceWeave.Proofs.Syntax.Lists
import TraceWeave.Proofs.Tracing.Alignment
import TraceWeave.Proofs.Tracing.Woven

/-!
Transactions that the statements of the entry function start and end.

`Runs` follows the starts and the ends among the statements of a list.  Statements that are
calm have none, neither themselves nor inside, and stay calm when single expressions change
in a way that names no transaction (`Gentle.remains`); the end of a transaction stays one.
-/

namespace TraceWeave.Syntax

/-! ## Targets behind a change -/

section

variable {literals : Bool} {part part' : Expr} {name : String}

/-- An expression becomes an identifier only where it is the changed part itself. -/
theorem Expr.Rewrites.eq_of_ident? {expr expr' : Expr} {ident : Ident}
    (h : Expr.Rewrites literals part part' expr expr') (hident : expr'.ident? = some ident) :
    expr' = part' := by
  cases h with
  | here => rfl
  | _ => contradiction

/-- The expression is not the name. -/
def Expr.Avoids (name : String) (expr : Expr) : Prop :=
  ∀ ident, expr.ident? = some ident → ident.name ≠ name

theorem mem_namesOf_of_rewrites (hpart : part'.Avoids name) {front back : List Expr}
    {expr expr' : Expr} (h : Expr.Rewrites literals part part' expr expr')
    (hname : name ∈ namesOf (front ++ expr' :: back)) : name ∈ namesOf (front ++ expr :: back) := by
  obtain ⟨other, hmem, ident, hident, hother⟩ := mem_namesOf.1 hname
  have hold : other ∈ front ∨ other ∈ back := by
    rcases List.mem_append.1 hmem with hfront | hback
    · exact .inl hfront
    · rcases List.mem_cons.1 hback with rfl | hback
      · rw [h.eq_of_ident? hident] at hident
        exact absurd hother (hpart ident hident)
      · exact .inr hback
  refine mem_namesOf.2 ⟨other, ?_, ident, hident, hother⟩
  exact List.mem_append.2 (hold.imp_right (List.mem_cons_of_mem _))

mutual

/-- No name comes in as a target that the changed part is not. -/
theorem StmtKind.Rewrites.mem_targets (hpart : part'.Avoids name) :
    ∀ {scope : EditScope} {kind kind' : StmtKind},
    StmtKind.Rewrites literals part part' scope kind kind' →
      name ∈ kind'.targets → name ∈ kind.targets
  | _, _, _, .target _ h => mem_namesOf_of_rewrites hpart h
  | _, _, _, .branch _ h => by
      simp only [StmtKind.targets_cond, List.mem_append]
      exact Or.imp_left (h.mem_targets hpart)
  | _, _, _, .alternative _ h => by
      simp only [StmtKind.targets_cond, List.mem_append, targetsOfOptional]
      exact Or.imp_right (h.mem_targets hpart)
  | _, _, _, .loopBody _ h => by
      simp only [StmtKind.targets_loop]
      exact h.mem_targets hpart
  | _, _, _, .switchClause _ h => by
      simp only [StmtKind.targets, targetsOfClauses_eq_flatMap, List.flatMap_append,
        List.flatMap_cons, List.mem_append]
      exact Or.imp_right (Or.imp_left (h.mem_targets hpart))
  | _, _, _, .selectClause _ h => by
      simp only [StmtKind.targets, targetsOfClauses_eq_flatMap, List.flatMap_append,
        List.flatMap_cons, List.mem_append]
      exact Or.imp_right (Or.imp_left (h.mem_targets hpart))
  | _, _, _, .block _ h => h.mem_targets hpart
  | _, _, _, .labeled h => h.mem_targets hpart
  | _, _, _, .init _ _ => by simp only [StmtKind.targets_cond, imp_self]
  | _, _, _, .test _ _ => by simp only [StmtKind.targets_cond, imp_self]
  | _, _, _, .loopTest _ _ => by simp only [StmtKind.targets_loop, imp_self]
  | _, _, _, .range _ _ => by simp only [StmtKind.targets_loop, imp_self]
  | _, _, _, .value _ _ => id
  | _, _, _, .expr _ _ => id
  | _, _, _, .spawn _ _ => id
  | _, _, _, .defer _ _ => id
  | _, _, _, .result _ _ => id

theorem StmtsRewrite.mem_targets (hpart : part'.Avoids name) : ∀ {stmts stmts' : List Stmt},
    StmtsRewrite literals part part' stmts stmts' →
      name ∈ targetsOfStmts stmts' → name ∈ targetsOfStmts stmts
  | _, _, .within front h => by
      simp only [targetsOfStmts_eq_flatMap, List.flatMap_append, List.flatMap_cons,
        List.mem_append]
      exact Or.imp_right (Or.imp_left (h.mem_targets hpart))

end

end

end TraceWeave.Syntax

namespace TraceWeave.Tracing

open TraceWeave.Agent TraceWeave.Detect TraceWeave.Program TraceWeave.Syntax TraceWeave.Types

/-! ## Starts and ends -/

/-- How a statement binds the variable of the transaction to one that it starts. -/
def startOp? (stmt : Stmt) : Option AssignOp :=
  match stmt.kind with
  | .assign [target] op [value] =>
      if target.isIdent transactionVariable &&
          value.call?.any (·.name? == some "StartTransaction") then
        some op
      else none
  | _ => none

/-- The statement ends the transaction of the variable. -/
def isEnding (stmt : Stmt) : Bool :=
  match stmt.kind with
  | .expr value =>
      value.call?.any fun call =>
        call.name? == some "End" && qualifier? call == some transactionVariable
  | _ => false

/-- The statement neither starts a transaction nor ends one. -/
structure Unmarked (stmt : Stmt) : Prop where
  start : startOp? stmt = none
  ending : isEnding stmt = false

/-- All lists inside a statement satisfy a condition. -/
def Inside (Q : List Stmt → Prop) (stmt : Stmt) : Prop :=
  ∀ inner ∈ stmt.kind.lists, ∀ list, ListIn list inner → Q list

theorem Inside.imp {Q Q' : List Stmt → Prop} {stmt : Stmt} (h : Inside Q stmt)
    (hQ : ∀ list, Q list → Q' list) : Inside Q' stmt :=
  fun inner hinner list hlist => hQ list (h inner hinner list hlist)

def NoStarts (stmts : List Stmt) : Prop := ∀ stmt ∈ stmts, startOp? stmt = none

def Silent (stmts : List Stmt) : Prop := ∀ stmt ∈ stmts, Unmarked stmt

theorem Silent.noStarts {stmts : List Stmt} (h : Silent stmts) : NoStarts stmts :=
  fun stmt hmem => (h stmt hmem).start

/-- Where a list of statements stands. -/
structure Phase where
  /-- A transaction has been started and not been ended. -/
  opened : Bool
  /-- The variable of the transaction has been declared. -/
  declared : Bool

/-- How the next start binds the variable. -/
def Phase.op (phase : Phase) : AssignOp := if phase.declared then .assign else .define

/--
The starts and ends among statements alternate from one phase to another.  The first start
of a list declares the variable, and nothing inside a transaction starts another one.
-/
inductive Runs : Phase → List Stmt → Phase → Prop where
  | nil {phase : Phase} : Runs phase [] phase
  | start {phase last : Phase} {stmt : Stmt} {stmts : List Stmt} :
      phase.opened = false → startOp? stmt = some phase.op → Runs ⟨true, true⟩ stmts last →
      Runs phase (stmt :: stmts) last
  | ending {phase last : Phase} {stmt : Stmt} {stmts : List Stmt} :
      phase.opened = true → isEnding stmt = true → Runs ⟨false, phase.declared⟩ stmts last →
      Runs phase (stmt :: stmts) last
  | other {phase last : Phase} {stmt : Stmt} {stmts : List Stmt} :
      Unmarked stmt → (phase.opened = true → Inside NoStarts stmt) → Runs phase stmts last →
      Runs phase (stmt :: stmts) last

/-- Every start has its end behind it, in front of the next start. -/
def Alternates (stmts : List Stmt) : Prop :=
  ∃ last, last.opened = false ∧ Runs ⟨false, false⟩ stmts last

namespace Runs

theorem append {phase phase' last : Phase} {front back : List Stmt} (h : Runs phase front phase')
    (hback : Runs phase' back last) : Runs phase (front ++ back) last := by
  induction h with
  | nil => exact hback
  | start hopened hop _ ih => exact .start hopened hop (ih hback)
  | ending hopened hending _ ih => exact .ending hopened hending (ih hback)
  | other hunmarked hinside _ ih => exact .other hunmarked hinside (ih hback)

theorem of_silent {phase : Phase} {stmts : List Stmt} (h : Silent stmts)
    (hinside : phase.opened = true → ∀ stmt ∈ stmts, Inside NoStarts stmt) :
    Runs phase stmts phase := by
  induction stmts with
  | nil => exact .nil
  | cons stmt stmts ih =>
      rw [Silent, List.forall_mem_cons] at h
      refine .other h.1 (fun hopened => hinside hopened stmt List.mem_cons_self) (ih h.2 ?_)
      exact fun hopened other hmem => hinside hopened other (List.mem_cons_of_mem _ hmem)

end Runs

theorem Silent.alternates {stmts : List Stmt} (h : Silent stmts) : Alternates stmts :=
  ⟨⟨false, false⟩, rfl, .of_silent h (by simp)⟩

/-! ## Calls that concern no transaction -/

/-- The call neither starts a transaction nor ends the one of the variable. -/
structure Quiet (call : Call) : Prop where
  start : call.name? ≠ some "StartTransaction"
  ending : call.name? = some "End" → qualifier? call ≠ some transactionVariable

abbrev quiet : CallTest := fun _ call => Quiet call

theorem Quiet.of_name {call : Call} {name : String} (h : call.name? = some name)
    (hstart : name ≠ "StartTransaction") (hending : name ≠ "End") : Quiet call := by
  refine ⟨?_, ?_⟩
  · rw [h]
    exact fun heq => hstart (Option.some.inj heq)
  · rw [h]
    exact fun heq => absurd (Option.some.inj heq) hending

theorem holds_of_call? {P : CallTest} {value : Expr} {call : Call} {reached : Bool}
    (hvalue : Holds P (value.calls reached)) (hcall : value.call? = some call) : P reached call := by
  rw [eq_of_call? hcall] at hvalue
  exact (Expr.holds_of_holds_call hvalue).1

theorem unmarked_of_quiet {stmt : Stmt} {reached : Bool}
    (h : Holds quiet (stmt.kind.calls reached .full)) : Unmarked stmt := by
  constructor
  · unfold startOp?
    split
    · next target op value hkind =>
      rw [hkind] at h
      obtain ⟨-, hright⟩ := Holds.append.1 h
      rw [if_neg]
      intro hstarts
      obtain ⟨call, hvalue, hname⟩ := (Option.any_eq_true _ _).1 (Bool.and_eq_true_iff.1 hstarts).2
      exact (holds_of_call? (holds_exprs_cons.1 hright).1 hvalue).start (beq_iff_eq.1 hname)
    · rfl
  · unfold isEnding
    split
    · next value hkind =>
      rw [hkind] at h
      refine Bool.eq_false_iff.2 fun hends => ?_
      obtain ⟨call, hvalue, hcalls⟩ := (Option.any_eq_true _ _).1 hends
      obtain ⟨hname, hqualifier⟩ := Bool.and_eq_true_iff.1 hcalls
      exact (holds_of_call? h hvalue).ending (beq_iff_eq.1 hname) (beq_iff_eq.1 hqualifier)
    · rfl

theorem silent_of_quiet {stmts : List Stmt} {reached : Bool}
    (h : Holds quiet (callsOfStmts reached stmts)) : Silent stmts :=
  fun stmt hmem => unmarked_of_quiet (holds_stmts.1 h stmt hmem)

theorem inside_of_quiet {stmt : Stmt} {reached : Bool} {scope : EditScope}
    (h : Holds quiet (stmt.kind.calls reached scope)) : Inside Silent stmt := by
  intro inner hinner list hlist
  obtain ⟨reached', h⟩ := StmtKind.holds_lists h inner hinner
  obtain ⟨reached'', h⟩ := hlist.holds h
  exact silent_of_quiet h

/-! ## Calm statements and pending ends -/

/--
The calls of a statement concern no transaction, and neither the statement nor one in its
blocks assigns to the variable.  A statement that does not mention the variable and has no
call named like the start of a transaction is calm.
-/
structure Calm (kind : StmtKind) : Prop where
  quiet : Holds quiet (kind.calls true .full)
  targets : transactionVariable ∉ kind.targets

/-- The statement ends the transaction of the variable; its arguments concern none. -/
inductive Ends : StmtKind → Prop where
  | intro {call : Call} {decs : Decorations} :
      call.name? = some "End" → qualifier? call = some transactionVariable →
      Holds quiet (callsOfExprs true call.args) → Ends (.expr ⟨.call call, decs⟩)

theorem ends_endTransaction : Ends (endTransaction transactionVariable).kind :=
  .intro rfl rfl .nil

theorem callee_of_qualifier? {call : Call} {name : String} (h : qualifier? call = some name) :
    ∃ ident decs member decs', call.callee = ⟨.selector ⟨.ident ident, decs⟩ member, decs'⟩ ∧
      ident.name = name := by
  obtain ⟨⟨operand, member⟩, hselector, hname⟩ := Option.bind_eq_some_iff.1 h
  obtain ⟨ident, hident, rfl⟩ := Option.map_eq_some_iff.1 hname
  obtain ⟨⟨kind, decs'⟩, args, spread, closesLine⟩ := call
  obtain ⟨operandKind, decs⟩ := operand
  cases kind with
  | selector operand' member' =>
      obtain ⟨rfl, rfl⟩ := Prod.mk.inj (Option.some.inj hselector)
      cases operandKind with
      | ident other =>
          obtain rfl := Option.some.inj hident
          exact ⟨other, decs, member', decs', rfl, rfl⟩
      | _ => contradiction
  | _ => contradiction

/-- The literals of a call of a variable's member stand in its arguments. -/
theorem mem_literals_call {call : Call} {decs : Decorations} {name : String} {body : List Stmt}
    (hqualifier : qualifier? call = some name) (h : body ∈ (⟨.call call, decs⟩ : Expr).literals) :
    ∃ arg ∈ call.args, body ∈ arg.literals := by
  obtain ⟨ident, identDecs, member, decs', hcallee, -⟩ := callee_of_qualifier? hqualifier
  obtain ⟨callee, args, spread, closesLine⟩ := call
  dsimp only at hcallee
  subst hcallee
  simp only [Expr.literals, Expr.parts, ExprKind.parts, List.filterMap_cons, List.filterMap_append,
    List.filterMap_nil, List.nil_append] at h
  obtain ⟨part, hpart, hbody⟩ := List.mem_filterMap.1 h
  obtain ⟨arg, harg, hpart⟩ := Expr.CallsInside.mem_partsOfExprs.1 hpart
  exact ⟨arg, harg, List.mem_filterMap.2 ⟨part, hpart, hbody⟩⟩

namespace Ends

variable {stmt : Stmt} (h : Ends stmt.kind)

include h

theorem isEnding : isEnding stmt = true := by
  obtain ⟨kind, decs⟩ := stmt
  obtain ⟨hname, hqualifier, -⟩ := h
  simp [Tracing.isEnding, Expr.call?, hname, hqualifier]

theorem inside : Inside Silent stmt := by
  obtain ⟨kind, decs⟩ := stmt
  obtain ⟨-, hqualifier, hargs⟩ := h
  intro inner hinner list hlist
  rcases List.mem_append.1 hinner with hblock | hliteral
  · simp [StmtKind.blocks] at hblock
  · obtain ⟨expr, hexpr, hliteral⟩ := List.mem_flatMap.1 hliteral
    rw [StmtKind.headers, List.mem_singleton] at hexpr
    subst hexpr
    obtain ⟨arg, harg, hliteral⟩ := mem_literals_call hqualifier hliteral
    obtain ⟨reached, hinner⟩ := Expr.holds_literals (holds_exprs.1 hargs arg harg) inner hliteral
    obtain ⟨reached', hquiet⟩ := hlist.holds hinner
    exact silent_of_quiet hquiet

end Ends

/-! ## Changes -/

/--
A change of a call that keeps its callee, or of a name that has nothing to do with
transactions before and behind.
-/
inductive Gentle : Expr → Expr → Prop where
  | call {call call' : Call} {decs : Decorations} :
      call'.callee = call.callee →
      (Holds quiet (callsOfExprs true call.args) → Holds quiet (callsOfExprs true call'.args)) →
      Gentle ⟨.call call, decs⟩ ⟨.call call', decs⟩
  | ident {ident ident' : Ident} {decs : Decorations} :
      ident.name ≠ transactionVariable → ident'.name ≠ transactionVariable →
      ident'.name ≠ "StartTransaction" → ident'.name ≠ "End" →
      Gentle ⟨.ident ident, decs⟩ ⟨.ident ident', decs⟩

namespace Gentle

variable {literals : Bool} {part part' : Expr} (hpart : Gentle part part')

include hpart

theorem avoids : part'.Avoids transactionVariable := by
  intro ident hident
  cases hpart with
  | call _ _ => contradiction
  | ident _ hname _ _ =>
      obtain rfl := Option.some.inj hident
      exact hname

/-- The variable is what an expression was before exactly if it is that behind. -/
theorem isTransaction_iff {expr expr' : Expr} (h : Expr.Rewrites literals part part' expr expr') :
    expr'.ident?.map (·.name) = some transactionVariable ↔
      expr.ident?.map (·.name) = some transactionVariable := by
  cases h with
  | here =>
      cases hpart with
      | call _ _ => exact Iff.rfl
      | ident hname hname' _ _ => simp [Expr.ident?, hname, hname']
  | _ => exact Iff.rfl

theorem qualifier?_iff {callee callee' : Expr} {args : List Expr} {spread closesLine : Bool}
    (h : Expr.Rewrites literals part part' callee callee') :
    qualifier? ⟨callee', args, spread, closesLine⟩ = some transactionVariable ↔
      qualifier? ⟨callee, args, spread, closesLine⟩ = some transactionVariable := by
  cases h with
  | here => cases hpart <;> exact Iff.rfl
  | selector h => exact hpart.isTransaction_iff h
  | _ => exact Iff.rfl

theorem name?_eq {callee callee' : Expr} {args : List Expr} {spread closesLine : Bool}
    (h : Expr.Rewrites literals part part' callee callee') :
    Call.name? ⟨callee', args, spread, closesLine⟩ = Call.name? ⟨callee, args, spread, closesLine⟩ ∨
      (Call.name? ⟨callee', args, spread, closesLine⟩ ≠ some "StartTransaction" ∧
        Call.name? ⟨callee', args, spread, closesLine⟩ ≠ some "End") := by
  cases h with
  | here =>
      cases hpart with
      | call _ _ => exact .inl rfl
      | ident _ _ hstart hending =>
          exact .inr ⟨fun h => hstart (Option.some.inj h), fun h => hending (Option.some.inj h)⟩
  | _ => exact .inl rfl

theorem name?_of_ending {callee callee' : Expr} {args : List Expr} {spread closesLine : Bool}
    (h : Expr.Rewrites literals part part' callee callee')
    (hname : Call.name? ⟨callee, args, spread, closesLine⟩ = some "End")
    (hqualifier : qualifier? ⟨callee, args, spread, closesLine⟩ = some transactionVariable) :
    Call.name? ⟨callee', args, spread, closesLine⟩ = some "End" := by
  cases h with
  | here => cases hpart <;> contradiction
  | selector _ => exact hname
  | _ => contradiction

theorem quiet_callee {callee callee' : Expr} {args : List Expr} {spread closesLine : Bool}
    (h : Expr.Rewrites literals part part' callee callee')
    (hquiet : Quiet ⟨callee, args, spread, closesLine⟩) :
    Quiet ⟨callee', args, spread, closesLine⟩ := by
  rcases hpart.name?_eq h with hname | ⟨hstart, hending⟩
  · constructor
    · rw [hname]
      exact hquiet.start
    · rw [hname, Ne, hpart.qualifier?_iff h]
      exact hquiet.ending
  · exact ⟨hstart, fun hname => absurd hname hending⟩

theorem quiet_stays : CallTest.Stays quiet quiet literals part part' where
  weaken _ _ := id
  callee h := hpart.quiet_callee h
  arg _ hquiet := ⟨hquiet.start, hquiet.ending⟩
  inside h := by
    cases hpart with
    | @call call call' decs hcallee hargs =>
        obtain ⟨hquiet, hbelow, hold⟩ := Expr.holds_of_holds_call h
        refine Expr.holds_call ⟨?_, ?_⟩ (hcallee ▸ hbelow) (hargs hold)
        · unfold Call.name?
          rw [hcallee]
          exact hquiet.start
        · unfold Call.name? qualifier?
          rw [hcallee]
          exact hquiet.ending
    | ident _ _ _ _ => exact .nil

end Gentle

/-- Calm statements stay calm, and the end of a transaction stays one. -/
structure Remains (kind kind' : StmtKind) : Prop where
  calm : Calm kind → Calm kind'
  ends : Ends kind → Ends kind'

namespace Remains

variable {kind kind' kind'' : StmtKind}

theorem refl : Remains kind kind := ⟨id, id⟩

theorem trans (h : Remains kind kind') (h' : Remains kind' kind'') : Remains kind kind'' :=
  ⟨h'.calm ∘ h.calm, h'.ends ∘ h.ends⟩

end Remains

theorem Gentle.remains {literals : Bool} {part part' : Expr} {kind kind' : StmtKind}
    (hpart : Gentle part part') (h : StmtKind.Rewrites literals part part' .full kind kind') :
    Remains kind kind' := by
  constructor
  · intro hcalm
    exact ⟨h.calls.holds hpart.quiet_stays hcalm.quiet,
      fun hmem => hcalm.targets (h.mem_targets hpart.avoids hmem)⟩
  · rintro ⟨hname, hqualifier, hargs⟩
    cases h with
    | expr _ h =>
        cases h with
        | here =>
            cases hpart with
            | call hcallee hkeeps =>
                refine .intro ?_ ?_ (hkeeps hargs)
                · unfold Call.name?
                  rw [hcallee]
                  exact hname
                · unfold qualifier?
                  rw [hcallee]
                  exact hqualifier
        | callee h => exact .intro (hpart.name?_of_ending h hname hqualifier) ((hpart.qualifier?_iff h).2 hqualifier) hargs
        | arg h =>
            refine .intro hname hqualifier ?_
            simp only [callsOfExprs_append, callsOfExprs, Holds.append] at hargs ⊢
            exact ⟨hargs.1, h.calls.holds hpart.quiet_stays hargs.2.1, hargs.2.2⟩

/-- Changes one after the other, in the statement itself or in all of it. -/
theorem remains_of_steps {σ : Type} {literals : Bool} {scope : EditScope} {visits : Visits σ}
    (hscope : scope = .own ∨ scope = .full)
    (hvisits : ∀ before after, visits before after → Gentle before.1 after.1)
    {before after : StmtKind × σ}
    (steps : Steps (StmtKind.Rewrites literals · · scope) visits before after) :
    Remains before.1 after.1 := by
  induction steps with
  | refl => exact .refl
  | @tail between last _ hstep ih =>
      obtain ⟨part, part', hvisit, hrewrite⟩ := hstep
      exact ih.trans ((hvisits _ _ hvisit).remains (hrewrite.toFull hscope))

/-! ## Calls that are generated -/

theorem quiet_admits : CallTest.Admits quiet := by
  intro reached call name _ hname hboundary
  refine .of_name hname ?_ ?_
  · rintro rfl
    exact hboundary (by decide)
  · rintro rfl
    exact hboundary (by decide)

theorem Passes.gentle {info : Info} {list : FieldList} {call : Call} {mayExtend : Bool}
    {passing : Passing} (h : Passes info list call mayExtend passing) (decs : Decorations) :
    Gentle ⟨.call call, decs⟩ ⟨.call passing.call, decs⟩ :=
  .call h.callee_eq (h.holds quiet_admits)

theorem Hooks.gentle {info : Info} {call call' : Call} (h : Hooks info call call')
    (decs : Decorations) : Gentle ⟨.call call, decs⟩ ⟨.call call', decs⟩ :=
  .call h.callee_eq (h.holds quiet_admits)

end TraceWeave.Tracing
