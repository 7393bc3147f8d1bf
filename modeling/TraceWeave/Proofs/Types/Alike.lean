import TraceWeave.Proofs.Syntax.Calls
import TraceWeave.Types.Info

/-!
Expressions that name resolution cannot tell apart.

Names are resolved by number and calls by their callees.  A change that keeps both
changes no type, and no call around it aims at another function (`Expr.Rewrites.alike`).
-/

namespace TraceWeave.Types.Info

open TraceWeave.Syntax

/-! ## Calls of several values -/

/-- The expression is a call that yields several values. -/
def yieldsSeveral (info : Info) (expr : Expr) : Bool :=
  expr.call?.any fun call => (info.resultsOf call).length > 1

/-- The number of arguments is not that of the values passed. -/
def hidesCount (info : Info) (call : Call) : Bool :=
  call.spread || call.args.head?.any info.yieldsSeveral

/-! ## Alike expressions -/

structure Alike (info : Info) (expr expr' : Expr) : Prop where
  typeExpr? : info.typeExpr? expr' = info.typeExpr? expr := by rfl
  typeOf? : info.typeOf? expr' = info.typeOf? expr := by rfl
  importedPath? : info.importedPath? expr' = info.importedPath? expr := by rfl
  conversion : ∀ args, info.conversionResults? expr' args = info.conversionResults? expr args := by
    intros; rfl
  callee : ∀ args spread closesLine, info.callee? ⟨expr', args, spread, closesLine⟩ =
    info.callee? ⟨expr, args, spread, closesLine⟩ := by intros; rfl
  written : ∀ args spread closesLine, Call.isWritten ⟨expr', args, spread, closesLine⟩ =
    Call.isWritten ⟨expr, args, spread, closesLine⟩ := by intros; rfl
  yieldsSeveral : info.yieldsSeveral expr' = info.yieldsSeveral expr := by rfl

namespace Alike

variable {info : Info} {expr expr' expr'' : Expr}

theorem refl : Alike info expr expr := {}

theorem trans (h : Alike info expr expr') (h' : Alike info expr' expr'') : Alike info expr expr'' where
  typeExpr? := h'.typeExpr?.trans h.typeExpr?
  typeOf? := h'.typeOf?.trans h.typeOf?
  importedPath? := h'.importedPath?.trans h.importedPath?
  conversion args := (h'.conversion args).trans (h.conversion args)
  callee _ _ _ := (h'.callee ..).trans (h.callee ..)
  written _ _ _ := (h'.written ..).trans (h.written ..)
  yieldsSeveral := h'.yieldsSeveral.trans h.yieldsSeveral

theorem ident {ident ident' : Ident} {decs : Decorations} (hid : ident'.id = ident.id) :
    Alike info ⟨.ident ident, decs⟩ ⟨.ident ident', decs⟩ := by
  have hobject : info.object? ident' = info.object? ident := by
    simp only [Info.object?, Info.objectId?, hid]
  exact {
    typeExpr? := by simp only [Info.typeExpr?, hobject]
    typeOf? := by simp only [Info.typeOf?, hobject]
    importedPath? := by
      simp only [Info.importedPath?, Expr.ident?, Option.bind_eq_bind, Option.bind_some, hobject]
    conversion := fun _ => by simp only [Info.conversionResults?, Expr.unparen, hobject]
    callee := fun _ _ _ => by simp only [Info.callee?, Expr.unparen, hobject]
    written := fun _ _ _ => by simp only [Call.isWritten, Expr.unparen, Ident.isGenerated, hid] }

theorem selector {operand operand' : Expr} (h : Alike info operand operand') (member : Ident)
    (decs : Decorations) :
    Alike info ⟨.selector operand member, decs⟩ ⟨.selector operand' member, decs⟩ where
  typeExpr? := by simp only [Info.typeExpr?, h.importedPath?]
  typeOf? := by simp only [Info.typeOf?, h.importedPath?, h.typeOf?]
  conversion _ := by simp only [Info.conversionResults?, Expr.unparen, h.importedPath?]
  callee _ _ _ := by simp only [Info.callee?, Expr.unparen, h.importedPath?, h.typeOf?]

theorem paren {inner inner' : Expr} (h : Alike info inner inner') (decs : Decorations) :
    Alike info ⟨.paren inner, decs⟩ ⟨.paren inner', decs⟩ where
  typeExpr? := by simp only [Info.typeExpr?, h.typeExpr?]
  typeOf? := by simp only [Info.typeOf?, h.typeOf?]
  conversion := h.conversion
  callee := h.callee
  written := h.written

end Alike

/-! ## Calls -/

theorem typeOf?_call (info : Info) (call : Call) (decs : Decorations) :
    info.typeOf? ⟨.call call, decs⟩ =
      match info.resultsOf call with
      | [result] => some result
      | _ => none := by
  obtain ⟨callee, args, spread, closesLine⟩ := call
  rfl

theorem Alike.call {info : Info} {call call' : Call} {decs decs' : Decorations}
    (h : info.resultsOf call' = info.resultsOf call) :
    Alike info ⟨.call call, decs⟩ ⟨.call call', decs'⟩ where
  typeOf? := by rw [typeOf?_call, typeOf?_call, h]
  yieldsSeveral := by simp only [Info.yieldsSeveral, Expr.call?, Option.any_some, h]

/-- Only `new` looks at arguments, and at the first one alone. -/
theorem conversionResults?_args (info : Info) (callee : Expr) {args args' : List Expr}
    (h : args'.head?.bind info.typeExpr? = args.head?.bind info.typeExpr?) :
    info.conversionResults? callee args' = info.conversionResults? callee args := by
  unfold Info.conversionResults?
  rw [h]

/-- What a function of a package yields does not depend on the arguments. -/
theorem resultsOf_args {info : Info} {call call' : Call} (hcallee : call'.callee = call.callee)
    {callee : Callee} (h : info.callee? call = some callee) (hpackage : callee.package ≠ "") :
    info.resultsOf call' = info.resultsOf call := by
  have hconversion : info.conversionResults? call.callee call'.args =
      info.conversionResults? call.callee call.args := by
    unfold Info.callee? at h
    unfold Info.conversionResults?
    split
    · next hkind =>
      simp only [hkind] at h
      split
      · next object hobject =>
        simp only [hobject] at h
        split at h
        · obtain rfl := Option.some.inj h
          simp [hpackage]
        · next hfunc => simp [hfunc]
      · rfl
    · rfl
    · rfl
  simp only [Info.resultsOf, hcallee, hconversion]

/-! ## Expressions around a change -/

/-- A function literal is told by its signature, whatever becomes of its body. -/
theorem alike_of_rewrites {info : Info} {literals : Bool} {part part' : Expr}
    (hpart : Alike info part part') :
    ∀ {expr expr' : Expr}, Expr.Rewrites literals part part' expr expr' → Alike info expr expr'
  | _, _, .here => hpart
  | _, _, .selector h => (alike_of_rewrites hpart h).selector _ _
  | _, _, .paren h => (alike_of_rewrites hpart h).paren _
  | _, _, .star h => {
      typeExpr? := by simp only [Info.typeExpr?, (alike_of_rewrites hpart h).typeExpr?]
      typeOf? := by simp only [Info.typeOf?, (alike_of_rewrites hpart h).typeOf?] }
  | _, _, .unary h => { typeOf? := by simp only [Info.typeOf?, (alike_of_rewrites hpart h).typeOf?] }
  | _, _, .left h => { typeOf? := by simp only [Info.typeOf?, (alike_of_rewrites hpart h).typeOf?] }
  | _, _, .right _ => { typeOf? := by simp only [Info.typeOf?] }
  | _, _, .callee h => by
      have hcallee := alike_of_rewrites hpart h
      exact .call (by simp only [Info.resultsOf, hcallee.conversion, hcallee.typeOf?])
  | _, _, @Expr.Rewrites.arg _ _ _ _ _ _ front _ _ _ _ h => by
      have harg := alike_of_rewrites hpart h
      refine .call ?_
      simp only [Info.resultsOf]
      rw [conversionResults?_args]
      cases front with
      | nil => simpa using harg.typeExpr?
      | cons first front => rfl
  | _, _, .operand h => {
      typeExpr? := by simp only [Info.typeExpr?, (alike_of_rewrites hpart h).typeExpr?] }
  | _, _, .index _ => { typeExpr? := by simp only [Info.typeExpr?] }
  | _, _, .body _ _ => { typeOf? := by simp only [Info.typeOf?] }

end TraceWeave.Types.Info
