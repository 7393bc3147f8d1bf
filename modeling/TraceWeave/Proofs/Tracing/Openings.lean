import TraceWeave.Proofs.Tracing.Weaving

/-!
The segments that the statements of a list open themselves.

A change in place never makes a statement open a segment: callees stay, and no variable is
given the name of the method (`Unopening`).  Weaving as the detectors do it brings none into
the list either (`Retouches`); only the prologue of a body does.
-/

namespace TraceWeave.Syntax

/-- The name that a call of the expression goes by. -/
def Expr.calleeName? (expr : Expr) : Option String :=
  match expr.kind with
  | .ident ident => some ident.name
  | .selector _ member => some member.name
  | _ => none

theorem Call.name?_eq (call : Call) : call.name? = call.callee.calleeName? := rfl

end TraceWeave.Syntax

namespace TraceWeave.Tracing

open TraceWeave.Agent TraceWeave.Detect TraceWeave.Program TraceWeave.Syntax
open scoped List

/-- The number of segments that the statements of a list open themselves. -/
def segments (stmts : List Stmt) : Nat := stmts.countP isDeferSegment

@[simp]
theorem segments_append (front back : List Stmt) :
    segments (front ++ back) = segments front + segments back := List.countP_append

@[simp]
theorem segments_cons (stmt : Stmt) (stmts : List Stmt) :
    segments (stmt :: stmts) = (isDeferSegment stmt).toNat + segments stmts := by
  rw [segments, List.countP_cons, Nat.add_comm, segments]
  cases isDeferSegment stmt <;> rfl

theorem any_isDeferSegment (stmts : List Stmt) :
    stmts.any isDeferSegment = decide (0 < segments stmts) := by
  rw [Bool.eq_iff_iff, List.any_eq_true, decide_eq_true_iff, segments, List.countP_pos_iff]

/-- The second statement opens a segment at most where the first one does. -/
def OpensLike (stmt stmt' : Stmt) : Prop :=
  isDeferSegment stmt' = true → isDeferSegment stmt = true

theorem OpensLike.refl {stmt : Stmt} : OpensLike stmt stmt := id

theorem OpensLike.toNat_le {stmt stmt' : Stmt} (h : OpensLike stmt stmt') :
    (isDeferSegment stmt').toNat ≤ (isDeferSegment stmt).toNat := by
  unfold OpensLike at h
  cases hopens : isDeferSegment stmt' <;> simp_all

/-! ## Changes of expressions -/

def isSegmentStart (expr : Expr) : Bool := expr.call?.any (·.name? == some "StartSegment")

def isSegmentEnd (expr : Expr) : Bool :=
  expr.call?.any fun ending =>
    ending.name? == some "End" && ending.callee.selector?.any fun (operand, _) => isSegmentStart operand

/-- A change that keeps callees, and gives no variable the name of the method. -/
structure Unopening (part part' : Expr) : Prop where
  adjusts : part.Adjusts part'
  named : part'.calleeName? = some "StartSegment" → part.calleeName? = some "StartSegment"

theorem Unopening.call {call call' : Call} {decs : Decorations} (h : call'.callee = call.callee) :
    Unopening ⟨.call call, decs⟩ ⟨.call call', decs⟩ := ⟨.call h, nofun⟩

section

variable {literals : Bool} {part part' expr expr' : Expr}

theorem Unopening.calleeName (hpart : Unopening part part')
    (h : Expr.Rewrites literals part part' expr expr') :
    expr'.calleeName? = some "StartSegment" → expr.calleeName? = some "StartSegment" := by
  cases h with
  | here => exact hpart.named
  | selector _ => exact id
  | _ => exact nofun

theorem Unopening.isSegmentStart (hpart : Unopening part part')
    (h : Expr.Rewrites literals part part' expr expr') :
    isSegmentStart expr' = true → isSegmentStart expr = true := by
  simp only [Tracing.isSegmentStart, Option.any_eq_true, beq_iff_eq, Call.name?_eq]
  rintro ⟨call', hcall', hname⟩
  cases h with
  | here =>
      cases hpart.adjusts with
      | @call call _ _ hcallee =>
          cases hcall'
          exact ⟨call, rfl, hcallee ▸ hname⟩
      | ident _ => contradiction
  | callee h =>
      cases hcall'
      exact ⟨_, rfl, hpart.calleeName h hname⟩
  | arg _ =>
      cases hcall'
      exact ⟨_, rfl, hname⟩
  | _ => contradiction

theorem Unopening.isSegmentEnd (hpart : Unopening part part')
    (h : Expr.Rewrites literals part part' expr expr') :
    isSegmentEnd expr' = true → isSegmentEnd expr = true := by
  simp only [Tracing.isSegmentEnd, Option.any_eq_true, Bool.and_eq_true, beq_iff_eq, Call.name?_eq]
  rintro ⟨call', hcall', hends⟩
  cases h with
  | here =>
      cases hpart.adjusts with
      | @call call _ _ hcallee =>
          cases hcall'
          exact ⟨call, rfl, hcallee ▸ hends⟩
      | ident _ => contradiction
  | callee h =>
      cases hcall'
      refine ⟨_, rfl, ?_⟩
      obtain ⟨hname, ⟨operand', member⟩, hselector, hstarts⟩ := hends
      cases h with
      | here =>
          cases hpart.adjusts with
          | call hcallee => contradiction
          | ident _ => contradiction
      | selector h =>
          cases hselector
          exact ⟨hname, _, rfl, hpart.isSegmentStart h hstarts⟩
      | _ => contradiction
  | arg _ =>
      cases hcall'
      exact ⟨_, rfl, hends⟩
  | _ => contradiction

theorem Unopening.opensLike (hpart : Unopening part part') {scope : EditScope} {kind kind' : StmtKind}
    (h : StmtKind.Rewrites literals part part' scope kind kind') (decs : Decorations) :
    OpensLike ⟨kind, decs⟩ ⟨kind', decs⟩ := by
  cases h with
  | defer _ h => exact hpart.isSegmentEnd h
  | _ => exact nofun

theorem Unopening.segments_le (hpart : Unopening part part') {stmts stmts' : List Stmt}
    (h : StmtsRewrite literals part part' stmts stmts') : segments stmts' ≤ segments stmts := by
  obtain ⟨front, h⟩ := h
  simp only [segments_append, segments_cons]
  exact Nat.add_le_add_left (Nat.add_le_add_right (hpart.opensLike h _).toNat_le _) _

end

/-! ## Changes of statements -/

theorem opensLike_nests {stmts stmts' : List Stmt} {stmt : Stmt} {kind : StmtKind}
    (h : StmtKind.Nests stmts stmts' stmt.kind kind) : OpensLike stmt { stmt with kind } := by
  obtain ⟨kind, decs⟩ := stmt
  cases h with
  | block h => cases h <;> exact nofun
  | spawned => exact nofun

theorem opensLike_mapPrimaryCall (f : Call → Call) (stmt : Stmt) :
    OpensLike stmt (mapPrimaryCall f stmt) := by
  obtain ⟨kind, decs⟩ := stmt
  unfold mapPrimaryCall
  split
  · exact nofun
  · exact nofun
  · exact .refl

theorem isDeferSegment_bindVariable (name : String) (value : Expr) (declared : Bool) :
    isDeferSegment (bindVariable name value declared) = false := by
  cases declared <;> rfl

/-! ## Weaving -/

theorem Adjusts.unopening {app : Application} {part part' : Expr} (h : Adjusts app part part') :
    Unopening part part' := by
  cases h with
  | rename ident decs hname =>
      exact ⟨.ident rfl, fun hnamed => absurd (Option.some.inj hnamed) hname⟩
  | hook hooks => exact .call hooks.callee_eq
  | pass hands _ => exact .call hands.callee_eq

/-- Weaving that opens no segment in the list itself. -/
structure Retouches (app : Application) (stmts : List Stmt) (app' : Application)
    (stmts' : List Stmt) : Prop where
  weaves : Weaves app stmts app' stmts'
  segments : segments stmts' ≤ segments stmts

namespace Retouches

variable {app app' app'' : Application} {stmts stmts' stmts'' : List Stmt}

theorem refl : Retouches app stmts app stmts := ⟨.refl, Nat.le_refl _⟩

theorem trans (h : Retouches app stmts app' stmts') (h' : Retouches app' stmts' app'' stmts'') :
    Retouches app stmts app'' stmts'' :=
  ⟨h.weaves.trans h'.weaves, Nat.le_trans h'.segments h.segments⟩

/-- A change of the application alone. -/
theorem beside (h : Weaves app stmts app' stmts) : Retouches app stmts app' stmts :=
  ⟨h, Nat.le_refl _⟩

/-- A change of one statement. -/
theorem within (front back : List Stmt) {stmt stmt' : Stmt} (hopens : OpensLike stmt stmt')
    (h : Weaves app (front ++ stmt :: back) app' (front ++ stmt' :: back)) :
    Retouches app (front ++ stmt :: back) app' (front ++ stmt' :: back) := by
  refine ⟨h, ?_⟩
  simp only [segments_append, segments_cons]
  exact Nat.add_le_add_left (Nat.add_le_add_right hopens.toNat_le _) _

theorem needImport (package path : String) :
    Retouches app stmts (app.needImport package path) stmts := beside (.needImport package path)

theorem console (console : Console) : Retouches app stmts { app with console } stmts :=
  beside (.console console)

theorem dress (front back : List Stmt) {stmt : Stmt} {decs : Decorations}
    (hdecs : stmt.decs.Keeps decs) :
    Retouches app (front ++ stmt :: back) app (front ++ { stmt with decs } :: back) :=
  within front back .refl (.dress front back hdecs)

theorem adjust {literals : Bool} {part part' : Expr} (hadjusts : Adjusts app part part')
    (hrewrite : StmtsRewrite literals part part' stmts stmts') : Retouches app stmts app stmts' :=
  ⟨.adjust hadjusts hrewrite, hadjusts.unopening.segments_le hrewrite⟩

theorem insert (front back : List Stmt) {stmt : Stmt} (hplain : isDeferSegment stmt = false)
    (haddition : Addition (front ++ back) stmt.kind) :
    Retouches app (front ++ back) app (front ++ stmt :: back) := by
  refine ⟨.insert front back haddition, ?_⟩
  simp [hplain]

theorem precede (front back : List Stmt) {first stmt : Stmt} {decs : Decorations}
    (hplain : isDeferSegment first = false) (haddition : Addition (front ++ stmt :: back) first.kind)
    (hlead : stmt.decs.lead <+ first.decs.lead) (htrail : stmt.decs.trail <+ decs.trail) :
    Retouches app (front ++ stmt :: back) app (front ++ first :: { stmt with decs } :: back) := by
  refine ⟨.precede front back haddition hlead htrail, ?_⟩
  simp only [segments_append, segments_cons, hplain, Bool.toNat_false, Nat.zero_add]
  exact Nat.le_refl _

theorem nested (front back : List Stmt) {stmt : Stmt} {kind : StmtKind}
    (hnests : StmtKind.Nests stmts stmts' stmt.kind kind) (h : Weaves app stmts app' stmts') :
    Retouches app (front ++ stmt :: back) app' (front ++ { stmt with kind } :: back) :=
  within front back (opensLike_nests hnests) (.nested front back hnests h)

theorem insertInside (front back : List Stmt) {stmt added : Stmt} {kind : StmtKind}
    (hnests : StmtKind.Nests stmts (added :: stmts) stmt.kind kind)
    (haddition : Addition (front ++ stmt :: back) added.kind) :
    Retouches app (front ++ stmt :: back) app (front ++ { stmt with kind } :: back) :=
  within front back (opensLike_nests hnests) (.insertInside front back hnests haddition)

theorem hand (front back : List Stmt) (literal : SpawnedLiteral) (txn : String) {stmt : Stmt}
    (hkind : stmt.kind = literal.kind) (hvariadic : literal.params.isVariadic = false)
    (hlacks : transactionParam? app.types literal.params = none) :
    Retouches app (front ++ stmt :: back) app
      (front ++ { stmt with kind := (literal.handed txn).kind } :: back) :=
  within front back nofun (.hand front back literal txn hkind hvariadic hlacks)

theorem enter {call : Call} {ref : FuncRef} {passing : Passing} {body body' : Block}
    {decs : Decorations} (hands : Hands app call ref passing)
    (hmay : app.mayInstrument ref = true) (hbody : app.body? ref = some body)
    (hrewrite : StmtsRewrite false ⟨.call call, decs⟩ ⟨.call passing.call, decs⟩ stmts stmts')
    (htrailing : body'.trailing = body.trailing)
    (h : Weaves (opened (passing.applyTo ref app) ref) body.stmts app' body'.stmts) :
    Retouches app stmts (app'.setBody ref (some body')) stmts' :=
  ⟨.enter hands hmay hbody hrewrite htrailing h, (Unopening.call hands.callee_eq).segments_le hrewrite⟩

end Retouches

end TraceWeave.Tracing
