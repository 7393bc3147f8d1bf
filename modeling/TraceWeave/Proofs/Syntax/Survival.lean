import TraceWeave.Proofs.Syntax.Calls

/-!
Calls that survive a change.

`Survive R entries entries'` says that every call of the first list has become one of the
second list, in the same order.  The second list may hold further calls.  A change of a
part lets the calls of the whole survive, if it does so with those of the part and with
those around it (`CallsChange.survive`).
-/

namespace TraceWeave.Syntax

/-- The calls of the first list are related to calls of the second one, in order. -/
abbrev Survive (R : Call → Call → Prop) : List (Bool × Call) → List (Bool × Call) → Prop :=
  List.SublistForall₂ fun entry entry' => R entry.2 entry'.2

namespace Survive

variable {R : Call → Call → Prop} {entries entries' entries'' : List (Bool × Call)}

theorem imp {R' : Call → Call → Prop} (h : Survive R entries entries')
    (hR : ∀ call call', R call call' → R' call call') : Survive R' entries entries' := by
  obtain ⟨kept, hkept, hsublist⟩ := List.sublistForall₂_iff.1 h
  exact List.sublistForall₂_iff.2 ⟨kept, hkept.imp fun _ _ => hR _ _, hsublist⟩

theorem of_forall₂ (h : List.Forall₂ (fun entry entry' => R entry.2 entry'.2) entries entries') :
    Survive R entries entries' :=
  List.sublistForall₂_iff.2 ⟨entries', h, .refl _⟩

theorem of_sublist (hrefl : ∀ call, R call call) (h : entries.Sublist entries') :
    Survive R entries entries' :=
  List.sublistForall₂_iff.2 ⟨entries, List.forall₂_same.2 fun entry _ => hrefl entry.2, h⟩

theorem refl (hrefl : ∀ call, R call call) (entries : List (Bool × Call)) :
    Survive R entries entries :=
  of_sublist hrefl (.refl entries)

theorem append {back back' : List (Bool × Call)} (h : Survive R entries entries')
    (hback : Survive R back back') : Survive R (entries ++ back) (entries' ++ back') := by
  obtain ⟨kept, hkept, hsublist⟩ := List.sublistForall₂_iff.1 h
  obtain ⟨kept', hkept', hsublist'⟩ := List.sublistForall₂_iff.1 hback
  exact List.sublistForall₂_iff.2
    ⟨kept ++ kept', List.rel_append hkept hkept', hsublist.append hsublist'⟩

/-- Calls that come in between take nothing away. -/
theorem insert (hrefl : ∀ call, R call call) (front more back : List (Bool × Call)) :
    Survive R (front ++ back) (front ++ (more ++ back)) :=
  of_sublist hrefl (List.Sublist.append_left (List.sublist_append_right ..) front)

theorem trans (htrans : ∀ {call call' call'' : Call}, R call call' → R call' call'' → R call call'')
    (h : Survive R entries entries') (h' : Survive R entries' entries'') :
    Survive R entries entries'' := by
  induction h' generalizing entries with
  | nil =>
      cases h
      exact .nil
  | cons hentry _ ih =>
      cases h with
      | nil => exact .nil
      | cons hentry' h => exact .cons (htrans hentry' hentry) (ih h)
      | cons_right h => exact .cons_right (ih h)
  | cons_right _ ih => exact .cons_right (ih h)

end Survive

/-! ## Single calls -/

theorem Expr.calls_call (call : Call) (decs : Decorations) (reached : Bool) :
    (⟨.call call, decs⟩ : Expr).calls reached =
      (reached, call) :: (call.callee.calls reached ++ callsOfExprs reached call.args) := by
  cases call
  simp [Expr.calls, ExprKind.calls]

theorem calls_sublist_of_mem {exprs : List Expr} {expr : Expr} (hmem : expr ∈ exprs)
    (reached : Bool) : (expr.calls reached).Sublist (callsOfExprs reached exprs) := by
  obtain ⟨front, back, rfl⟩ := List.append_of_mem hmem
  rw [callsOfExprs_append, callsOfExprs]
  exact (List.sublist_append_left ..).trans (List.sublist_append_right ..)

/-- A call of the arguments is one of the call that they are handed to. -/
theorem calls_sublist_call {args : List Expr} {arg : Expr} (hmem : arg ∈ args) (callee : Expr)
    (reached : Bool) : (arg.calls reached).Sublist ((Expr.call callee args).calls reached) := by
  refine .trans (calls_sublist_of_mem hmem reached) ?_
  exact ((List.sublist_append_right ..).trans (List.sublist_cons_self ..))

theorem callsOfExprs_addArg (call : Call) (arg : Expr) (reached : Bool) :
    (callsOfExprs reached call.args).Sublist (callsOfExprs reached (call.addArg arg).args) := by
  rw [Call.addArg, callsOfExprs_append]
  exact List.sublist_append_left ..

theorem callsOfExprs_set {args : List Expr} {index : Nat} {arg wrapped : Expr}
    (harg : args[index]? = some arg) {reached : Bool}
    (hwrapped : (arg.calls reached).Sublist (wrapped.calls reached)) :
    (callsOfExprs reached args).Sublist (callsOfExprs reached (args.set index wrapped)) := by
  obtain ⟨hlt, rfl⟩ := List.getElem?_eq_some_iff.1 harg
  have hsplit : args = args.take index ++ args[index] :: args.drop (index + 1) := by simp
  rw [List.set_eq_take_append_cons_drop, if_pos hlt]
  conv_lhs => rw [hsplit]
  simp only [callsOfExprs_append, callsOfExprs]
  exact (List.Sublist.append_right hwrapped _).append_left _

/-! ## Changes -/

section

variable {R : Call → Call → Prop}

/-- A call that gets other arguments, which hold the calls of those that it had. -/
theorem survive_call (hrefl : ∀ call, R call call) {call call' : Call} (h : R call call')
    (hcallee : call'.callee = call.callee)
    (hargs : (callsOfExprs true call.args).Sublist (callsOfExprs true call'.args))
    (decs : Decorations) :
    Survive R ((⟨.call call, decs⟩ : Expr).calls true) ((⟨.call call', decs⟩ : Expr).calls true) := by
  rw [Expr.calls_call, Expr.calls_call, hcallee]
  exact .cons h ((Survive.refl hrefl _).append (.of_sublist hrefl hargs))

theorem CallsChange.survive (hrefl : ∀ call, R call call) {literals : Bool} {part part' : Expr}
    (hpart : Survive R (part.calls true) (part'.calls true))
    (haround : ∀ {entry entry' : Bool × Call}, Around literals part part' entry entry' →
      R entry.2 entry'.2)
    {entries entries' : List (Bool × Call)}
    (h : CallsChange literals part part' entries entries') : Survive R entries entries' := by
  obtain ⟨front, front', back, rfl, rfl, hfront⟩ := h
  exact (Survive.of_forall₂ (hfront.imp fun _ _ => haround)).append (hpart.append (.refl hrefl back))

/-- A literal that is called need only be related to the one with the other body. -/
theorem StmtKind.Nests.survive (hrefl : ∀ call, R call call)
    (hliteral : ∀ {params results body body' decs args spread closesLine},
      R ⟨⟨.func params results body, decs⟩, args, spread, closesLine⟩
        ⟨⟨.func params results body', decs⟩, args, spread, closesLine⟩)
    {stmts stmts' : List Stmt} {kind kind' : StmtKind} (h : StmtKind.Nests stmts stmts' kind kind')
    (hstmts : Survive R (callsOfStmts true stmts) (callsOfStmts true stmts')) :
    Survive R (kind.calls true .full) (kind'.calls true .full) := by
  cases h with
  | block h =>
      obtain ⟨front, back, hold, hnew⟩ := h.calls .full rfl
      rw [hold, hnew]
      exact (Survive.refl hrefl front).append (hstmts.append (.refl hrefl back))
  | spawned =>
      show Survive R (Expr.calls true _) (Expr.calls true _)
      rw [Expr.calls_call, Expr.calls_call]
      exact .cons hliteral (Survive.append hstmts (.refl hrefl _))

end

end TraceWeave.Syntax
