import TraceWeave.Proofs.Run.CallSites
import TraceWeave.Proofs.Tracing.Spreads

/-!
Spread arguments across a whole run.

Neither tracing nor the completion of calls behind it appends anything to a call
`f(…, xs...)`, unless the call takes the interceptors of gRPC or could not be written for a
function with a fixed number of parameters.
-/

namespace TraceWeave.Program

open TraceWeave.Order TraceWeave.Source TraceWeave.Syntax TraceWeave.Tracing TraceWeave.Types

/-! ## Related options -/

theorem optionRel_refl {α : Type} {R : α → α → Prop} (hR : ∀ a, R a a) (x : Option α) :
    Option.Rel R x x := by
  cases x with
  | none => exact .none
  | some a => exact .some (hR a)

theorem optionRel_trans {α β γ : Type} {R : α → β → Prop} {S : β → γ → Prop} {T : α → γ → Prop}
    (hT : ∀ a b c, R a b → S b c → T a c) {x : Option α} {y : Option β} {z : Option γ}
    (h : Option.Rel R x y) (h' : Option.Rel S y z) : Option.Rel T x z := by
  cases h with
  | none =>
      cases h'
      exact .none
  | some hR =>
      cases h' with
      | some hS => exact .some (hT _ _ _ hR hS)

/-! ## The completion of calls -/

/-- Calls that spread an argument lack none. -/
theorem spread_of_lacks {info : Info} {arities : List ((String × String) × Nat)} {call : Call}
    (h : lacksTransaction info arities call = true) : call.spread = false := by
  unfold lacksTransaction at h
  simp only [Bool.and_eq_true, Bool.not_eq_true'] at h
  exact h.1.1

section

variable {app : Application} (hplain : ExtendsPlain app) (hapart : Apart app)

include hplain hapart

theorem editStmts_survive (stmts : List Stmt) (count : Nat) :
    Survive (KeepsSpread app) (callsOfStmts true stmts) (callsOfStmts true
      (editStmts (Edits.calls true (fixCall app.types (extendedArities app))) stmts count).1) := by
  have hsteps := editStmts_steps (fixCall_fillsLack app.types (extendedArities app)) stmts count
  have hlift : ∀ after, Steps (StmtsRewrite true) (fillsLack app.types (extendedArities app))
      (stmts, count) after →
        Survive (KeepsSpread app) (callsOfStmts true stmts) (callsOfStmts true after.1) := by
    intro after steps
    induction steps with
    | refl => exact .refl KeepsSpread.refl _
    | tail _ hstep ih =>
        obtain ⟨part, part', ⟨call, decs, hlacks, rfl, rfl⟩, hrewrite⟩ := hstep
        have hcall : KeepsSpread app call (call.addArg .nil) :=
          .of_callee_eq rfl rfl fun hspread => by simp [spread_of_lacks hlacks] at hspread
        have hadjusts : Expr.Adjusts ⟨.call call, decs⟩ ⟨.call (call.addArg .nil), decs⟩ := .call rfl
        refine ih.trans KeepsSpread.trans (hrewrite.calls.survive KeepsSpread.refl ?_ ?_)
        · exact survive_call KeepsSpread.refl hcall rfl (callsOfExprs_addArg call _ true) decs
        · exact fun haround =>
            .around hadjusts (alike_of_lacks hplain hapart hlacks decs) haround
  exact hlift _ hsteps

/-- The completion of calls changes a body as far as the calls of it survive. -/
theorem fixCallSites_spreadsKept (place : Place) :
    Option.Rel (fun func func' => Option.Rel (SpreadsKept app) func.body func'.body)
      (app.funcAt? place) ((fixCallSites app).1.funcAt? place) := by
  have hsome := isSome_funcAt?_of_outline (outline_fixCallSites app) place
  cases hfunc' : (fixCallSites app).1.funcAt? place with
  | none =>
      have hnone : app.funcAt? place = none := by simpa [hfunc'] using hsome
      rw [hnone]
      exact .none
  | some func' =>
      obtain ⟨file, func, -, hfunc, hfixed⟩ := funcAt?_fixedIn app place hfunc'
      rw [hfunc]
      refine .some ?_
      cases hfixed with
      | kept _ => exact optionRel_refl (fun _ => .refl KeepsSpread.refl _) _
      | edited count _ hbody =>
          rw [hbody]
          exact .some (editStmts_survive hplain hapart _ count)

end

/-! ## Runs -/

/-- What a call spreads stays behind all that a run hands to the call. -/
theorem run_keepsSpreads (origin : Origin) (hapart : Apart origin.app) (place : Place) :
    Option.Rel
      (fun func func' => Option.Rel (SpreadsKept origin.app) func.body func'.body)
      (origin.app.funcAt? place)
      ((fixCallSites (weave.run origin.app).2).1.funcAt? place) := by
  have hturns := run_turns origin
  generalize (weave.run origin.app).2 = app at hturns ⊢
  have hdiffer := origin.coherent_app.placesDiffer
  have hgrows := hturns.grows hdiffer
  have hwoven := Turns.bodies (spreadsKept_withstands origin.app) (fun _ => .refl KeepsSpread.refl _)
    hdiffer ⟨hapart, rfl, fun _ => .rfl⟩ hturns place
  have hfixed := fixCallSites_spreadsKept (extendsPlain_of_grows hgrows)
    (apart_of_outline hgrows.outline hapart) place
  have hbodies : ∀ body body' body'', SpreadsKept origin.app body body' →
      SpreadsKept app body' body'' → SpreadsKept origin.app body body'' := by
    intro body body' body'' hbody hbody'
    refine hbody.trans KeepsSpread.trans (hbody'.imp fun _ _ hcall => ?_)
    exact hcall.of_app (types_of_outline hgrows.outline).symm (aimsAtFixed_of_grows hdiffer hgrows)
  refine optionRel_trans (fun func func' func'' hfunc hfunc' => ?_) hwoven hfixed
  exact optionRel_trans hbodies hfunc hfunc'

/-! ## A program that spreads its arguments -/

def spreadArg : Expr := { kind := .ident { name := "all", id := 4 } }

def joinCall : Call :=
  { callee := { kind := .ident { name := "join", id := 2 } }, args := [spreadArg], spread := true }

/-- `func join(parts ...string) {}` -/
def joinDecl : Decl where
  kind := .func
    { receiver := none, name := { name := "join", id := 3 }, typeParams := none
      params :=
        { fields := [{ names := [{ name := "parts", id := 5 }], variadic := true
                       type := { kind := .ident { name := "string", id := 6 } } }] }
      results := none, body := some { stmts := [] } }
  decs := .ownLine

def spreadFile : SourceFile where
  path := { parts := ["main.go"] }
  contents := ""
  baseline := ""
  tree :=
    { package := "main", packageDecs := {}, trailing := []
      decls := [plainFunc { name := "main", id := 1 } [.expr { kind := .call joinCall }], joinDecl] }
  generated := false

/-- A program whose first function spreads a list over the second. -/
def spreadOrigin : Origin where
  module := "app"
  root := .here
  groups := [(packageKey spreadFile, [spreadFile])]
  types :=
    { objects := #[{ kind := .func, name := "join", package := "app", type := none }]
      uses := ({} : Std.HashMap Nat Nat).insert 2 0 }
  agent := "agent"
  appName := ""

theorem apart_spreadOrigin : Apart spreadOrigin.app := by
  intro path hmem
  simp [libraries] at hmem
  rcases hmem with rfl | rfl | rfl | rfl | rfl <;> rfl

theorem callee?_joinCall : spreadOrigin.app.types.callee? joinCall =
    some { package := "app", name := "join", receiver := none, signature := none } := by
  show spreadOrigin.types.callee? joinCall = _
  simp [Info.callee?, Info.object?, Info.objectId?, spreadOrigin, joinCall, Expr.unparen]

theorem takesInterceptors_joinCall :
    takesInterceptors spreadOrigin.app.types joinCall = false := by
  refine Bool.eq_false_iff.2 fun h => ?_
  obtain ⟨callee, hcallee, hpackage, -⟩ := callee?_of_callsFunc h
  obtain rfl := Option.some.inj (callee?_joinCall.symm.trans hcallee)
  contradiction

theorem not_rigid_joinCall : ¬Rigid spreadOrigin.app joinCall := by
  intro h
  cases h with
  | registration h =>
      obtain ⟨callee, hcallee, hpackage, -⟩ := callee?_of_isRegistration h
      obtain rfl := Option.some.inj (callee?_joinCall.symm.trans hcallee)
      contradiction
  | logger h =>
      obtain ⟨callee, hcallee, hpackage, -⟩ := callee?_of_callsFunc h
      obtain rfl := Option.some.inj (callee?_joinCall.symm.trans hcallee)
      contradiction
  | function h =>
      obtain ⟨ref, params, hresolve, hparams, hfixed⟩ := h
      rw [Application.resolve?, callee?_joinCall] at hresolve
      obtain rfl := Option.some.inj hresolve
      obtain rfl := Option.some.inj hparams
      contradiction
  | literal hparams _ => contradiction
  | query method hcallee hname _ =>
      obtain rfl := Option.some.inj (callee?_joinCall.symm.trans hcallee)
      exact absurd hname (by decide)

/-- Behind a run, the list is still what the call spreads. -/
theorem run_keepsSpreads_spreadOrigin :
    Apart spreadOrigin.app ∧ ∃ body, ((fixCallSites (weave.run spreadOrigin.app).2).1.funcAt?
        ⟨"app", 0, 0⟩).bind (·.body) = some body ∧
      ∃ entry ∈ callsOfStmts true body.stmts, ∃ front last, entry.2.spread = true ∧
        entry.2.args = front ++ [last] ∧ spreadArg.Becomes last := by
  refine ⟨apart_spreadOrigin, ?_⟩
  have hkept := run_keepsSpreads spreadOrigin apart_spreadOrigin ⟨"app", 0, 0⟩
  have hmain : ∃ func : FuncDecl, spreadOrigin.app.funcAt? ⟨"app", 0, 0⟩ = some func ∧
      func.body = some { stmts := [.expr { kind := .call joinCall }] } := ⟨_, rfl, rfl⟩
  obtain ⟨func, hfunc, hbody⟩ := hmain
  rw [hfunc] at hkept
  generalize (fixCallSites _).1.funcAt? _ = func' at hkept ⊢
  cases hkept with
  | @some _ func' hkept =>
      rw [hbody] at hkept
      rw [Option.bind_some]
      generalize func'.body = body' at hkept ⊢
      cases hkept with
      | @some _ body' hkept =>
          refine ⟨body', rfl, ?_⟩
          -- the only call is related to some call of the list
          obtain ⟨kept, hkept, hsublist⟩ := List.sublistForall₂_iff.1 hkept
          obtain ⟨entry, rest, hcall, -, rfl⟩ := List.forall₂_cons_left_iff.1 hkept
          obtain ⟨front, back, hargs, hback⟩ :=
            hcall.args rfl takesInterceptors_joinCall not_rigid_joinCall
          obtain ⟨last, rest', hlast, hrest, rfl⟩ := List.forall₂_cons_left_iff.1 hback
          cases hrest
          exact ⟨entry, hsublist.subset List.mem_cons_self, front, last, hcall.spread_eq, hargs, hlast⟩

end TraceWeave.Program
