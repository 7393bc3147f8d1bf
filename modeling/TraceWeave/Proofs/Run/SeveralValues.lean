import TraceWeave.Proofs.Run.ShortCalls
import TraceWeave.Proofs.Tracing.Passing

/-!
Calls whose only argument yields several values.

The completion of calls leaves `f(g())` as it is where `g` yields several values, and every
parameter list stays.  Passing a transaction does not ask what an argument yields: it
appends to such a call whenever it appends to a call with one argument
(`completion_keepsSeveral`).
-/

namespace TraceWeave.Tracing

open TraceWeave.Agent TraceWeave.Syntax TraceWeave.Types

namespace Carrier

/-- The parameter that takes the carrier itself, with its position. -/
def own? (carrier : Carrier) (info : Info) (list : FieldList) : Option (Nat × Param) :=
  if carrier.isContext then none else findParam? (paramsOf info list) carrier.type

/-- No parameter takes the carrier or a context, and the list may gain one. -/
structure AddsParam (carrier : Carrier) (info : Info) (list : FieldList) (mayExtend : Bool) :
    Prop where
  noOwn : carrier.own? info list = none
  mayExtend : mayExtend = true
  admits : Admits info list

/-- A parameter is added, or the call ends right in front of the one that takes the carrier. -/
def Appends (carrier : Carrier) (info : Info) (list : FieldList) (call : Call) (mayExtend : Bool) :
    Prop :=
  carrier.AddsParam info list mayExtend ∨
    ∃ param, carrier.own? info list = some (call.args.length, param) ∧ call.spread = false

variable {info : Info} {list : FieldList} {call : Call} {mayExtend : Bool} {carrier : Carrier}

theorem appends_of_own {index : Nat} {param : Param}
    (hown : carrier.own? info list = some (index, param)) :
    carrier.Appends info list call mayExtend ↔ call.args.length = index ∧ call.spread = false := by
  constructor
  · rintro (h | ⟨param', hparam', hspread⟩)
    · simp [h.noOwn] at hown
    · simp only [hown, Option.some.injEq, Prod.mk.injEq] at hparam'
      exact ⟨hparam'.1.symm, hspread⟩
  · rintro ⟨rfl, hspread⟩
    exact .inr ⟨param, hown, hspread⟩

theorem appends_of_noOwn (hown : carrier.own? info list = none) :
    carrier.Appends info list call mayExtend ↔ carrier.AddsParam info list mayExtend := by
  refine or_iff_left ?_
  rintro ⟨param, hparam, -⟩
  simp [hown] at hparam

theorem length_passContext (carrier : Carrier) (list : FieldList) (call : Call) (async : Bool)
    (txn : Expr) (index : Nat) (param : Param) :
    let passing := carrier.passContext list call async txn index param
    passing.call.args.length = call.args.length ∧ passing.extended = false := by
  unfold passContext
  dsimp only
  split
  · exact ⟨rfl, rfl⟩
  · split
    · exact ⟨rfl, rfl⟩
    · exact ⟨by simp, rfl⟩

/-- Passing appends at most one argument, whatever the arguments are that stand there. -/
theorem pass_appends (carrier : Carrier) (info : Info) (list : FieldList) (call : Call)
    (async mayExtend : Bool) (txn : Expr) :
    let passing := carrier.pass info list call async mayExtend txn
    (carrier.Appends info list call mayExtend ∧ passing.call.args.length = call.args.length + 1 ∨
        ¬ carrier.Appends info list call mayExtend ∧
          passing.call.args.length = call.args.length) ∧
      (passing.extended = true ↔ carrier.AddsParam info list mayExtend) := by
  have howned : (if carrier.isContext then none else findParam? (paramsOf info list) carrier.type) =
      carrier.own? info list := rfl
  unfold pass
  dsimp only
  rw [howned]
  generalize (if async then newGoroutine txn else txn) = handle
  cases hown : carrier.own? info list with
  | some found =>
      obtain ⟨index, param⟩ := found
      have hadds : ¬ carrier.AddsParam info list mayExtend := fun h => by simp [h.noOwn] at hown
      rw [appends_of_own hown]
      unfold passItself
      dsimp only
      split
      · next hlast =>
        simp only [Bool.and_eq_true, beq_iff_eq, Bool.not_eq_true'] at hlast
        split <;> exact ⟨.inl ⟨hlast, Call.length_addArg call _⟩, by simp [hadds]⟩
      · next hlast =>
        simp only [Bool.and_eq_true, beq_iff_eq, Bool.not_eq_true'] at hlast
        exact ⟨.inr ⟨hlast, rfl⟩, by simp [hadds]⟩
  | none =>
      rw [appends_of_noOwn hown]
      cases hcontext : findParam? (paramsOf info list) contextTy with
      | some found =>
          obtain ⟨index, param⟩ := found
          have hadds : ¬ carrier.AddsParam info list mayExtend := fun h => by
            simp [h.admits.noContext] at hcontext
          obtain ⟨hlength, hextended⟩ := carrier.length_passContext list call async handle index param
          exact ⟨.inr ⟨hadds, hlength⟩, by simp [hextended, hadds]⟩
      | none =>
          dsimp only
          split
          · next hmay =>
            unfold passNew
            split
            · next hlist =>
              have hadds : ¬ carrier.AddsParam info list mayExtend := fun h => by
                simp [h.admits.notVariadic, h.admits.named] at hlist
              exact ⟨.inr ⟨hadds, rfl⟩, by simp [hadds]⟩
            · next hlist =>
              simp only [Bool.or_eq_true, not_or, Bool.not_eq_true] at hlist
              have hadds : carrier.AddsParam info list mayExtend :=
                ⟨hown, hmay, hlist.1, hlist.2, hcontext⟩
              exact ⟨.inl ⟨hadds, Call.length_addArg call handle⟩, by simp [hadds]⟩
          · next hmay =>
            have hadds : ¬ carrier.AddsParam info list mayExtend := fun h => hmay h.mayExtend
            exact ⟨.inr ⟨hadds, rfl⟩, by simp [hadds]⟩

end Carrier

end TraceWeave.Tracing

namespace TraceWeave.Program

open TraceWeave.Syntax TraceWeave.Tracing TraceWeave.Types

/-- A call that hands on several values still hands on just those; the calls inside it may change. -/
def KeepsSeveral (info : Info) (entry entry' : Bool × Call) : Prop :=
  spreadsResults info entry.2 = true →
    spreadsResults info entry'.2 = true ∧ CallFills entry.2 entry'.2

theorem keepsSeveral_of_completed {app : Application} (hskips : SkipsGenerated app.types)
    {entry entry' : Bool × Call} (h : Completed app.ShortCall entry entry') :
    KeepsSeveral app.types entry entry' := by
  intro hseveral
  cases h with
  | unreached call => exact ⟨hseveral, .refl call⟩
  | kept _ hfills => exact ⟨(spreadsResults_fills hskips hfills).trans hseveral, hfills⟩
  | filled hshort _ =>
      -- a short call hands on no several values
      have hsingle := spreadsResults_eq_false.2 hshort.notSeveral
      exact absurd (hsingle.symm.trans hseveral) Bool.false_ne_true

/--
The completion of calls appends to no call that hands on several values, and gives no function a
parameter.  Passing does both wherever it would for any other call with one argument.
-/
theorem completion_keepsSeveral {app : Application} (hskips : SkipsGenerated app.types) :
    (∀ ref, ((fixCallSites app).1.func? ref).map (·.params) = (app.func? ref).map (·.params)) ∧
      (∃ fill, (fixCallSites app).1 = app.mapBodies fill ∧ ∀ stmts,
        List.Forall₂ (KeepsSeveral app.types) (callsOfStmts true stmts)
          (callsOfStmts true (fill stmts))) ∧
      ∀ (carrier : Carrier) list call async mayExtend txn,
        spreadsResults app.types call = true →
          let passing := carrier.pass app.types list call async mayExtend txn
          (carrier.Appends app.types list call mayExtend ∧ passing.call.args.length = 2 ∨
              ¬ carrier.Appends app.types list call mayExtend ∧ passing.call.args.length = 1) ∧
            (passing.extended = true ↔ carrier.AddsParam app.types list mayExtend) := by
  refine ⟨params_fixCallSites app, ⟨_, congrArg Prod.fst (fixCallSites_eq_mapBodies hskips), ?_⟩, ?_⟩
  · intro stmts
    exact (fillsShort_fillShort hskips stmts).calls.imp fun _ _ => keepsSeveral_of_completed hskips
  · intro carrier list call async mayExtend txn hseveral
    have hlength : call.args.length = 1 := by
      unfold spreadsResults at hseveral
      split at hseveral
      · next hargs => rw [hargs]; rfl
      · contradiction
    have happends := carrier.pass_appends app.types list call async mayExtend txn
    rwa [hlength] at happends

/-! ## A call that hands on two values -/

/-- `pair()` -/
def twoValues : Call := { callee := { kind := .ident { name := "pair", id := 4 } }, args := [] }

/-- `work(pair())` -/
def severalCall : Call := { workCall with args := [{ kind := .call twoValues }] }

def severalApp : Application :=
  { shortApp with types :=
    { objects := #[{ kind := .func, name := "work", package := "app", type := none },
        { kind := .func, name := "pair", package := "app"
          type := some (.func { params := [], results := [.named "" "int", .named "" "int"] }) }]
      uses := (({} : Std.HashMap Nat Nat).insert 2 0).insert 4 1 } }

theorem skipsGenerated_severalApp : SkipsGenerated severalApp.types := by
  intro ident hident
  have hid : ident.id = 0 := by simpa [Ident.isGenerated] using hident
  simp [Info.objectId?, severalApp, hid]

theorem spreadsResults_severalCall : spreadsResults severalApp.types severalCall = true := by
  have hobject : severalApp.types.object? { name := "pair", id := 4 } = some
      { kind := .func, name := "pair", package := "app"
        type := some (.func { params := [], results := [.named "" "int", .named "" "int"] }) } := by
    simp [Info.object?, Info.objectId?, severalApp]
  simp [spreadsResults, severalCall, Expr.call?, Info.resultsOf, Info.conversionResults?, twoValues,
    Expr.unparen, Info.typeOf?, hobject]

/-- Passing a transaction makes `work(pair(), nrTxn)` of it. -/
theorem completion_keepsSeveral_severalCall :
    SkipsGenerated severalApp.types ∧ spreadsResults severalApp.types severalCall = true ∧
      ((Carrier.transaction "nrTxn").pass severalApp.types {} severalCall false true
        (.ident "nrTxn")).call.args.length = 2 := by
  refine ⟨skipsGenerated_severalApp, spreadsResults_severalCall, ?_⟩
  have hkeeps := completion_keepsSeveral skipsGenerated_severalApp
  have happends := (hkeeps.2.2 (.transaction "nrTxn") {} severalCall false true (.ident "nrTxn")
    spreadsResults_severalCall).1
  have hadds : (Carrier.transaction "nrTxn").Appends severalApp.types {} severalCall true :=
    .inl ⟨rfl, rfl, rfl, rfl, rfl⟩
  simpa [hadds] using happends

end TraceWeave.Program
