import TraceWeave.Proofs.Run.Repetition
import TraceWeave.Proofs.Syntax.Agreement
import TraceWeave.Proofs.Types.Invariants

/-!
Which calls of a body are completed.

Edits go from the inside out, so a call is looked at when the calls inside it have been
completed already.  Name resolution cannot tell: the appended `nil` stands for no object.
So the calls that get `nil` are the ones that lacked it to begin with
(`editStmts_completed`), and all of them are counted (`count_editStmts`).
-/

namespace TraceWeave.Program

open TraceWeave.Syntax TraceWeave.Types

/-! ## Expressions behind the completion of calls -/

/-- Calls in the expression got `nil` for their last argument, one after the other. -/
def ExprFills : Expr → Expr → Prop :=
  Relation.ReflTransGen fun expr expr' => ∃ call decs,
    Expr.Rewrites true ⟨.call call, decs⟩ ⟨.call (call.addArg .nil), decs⟩ expr expr'

/-- Calls inside the call did. -/
structure CallFills (call call' : Call) : Prop where
  callee : ExprFills call.callee call'.callee
  args : List.Forall₂ ExprFills call.args call'.args
  spread : call'.spread = call.spread
  closesLine : call'.closesLine = call.closesLine

/-- What becomes of a call, if the ones that `short` tells are completed where edits reach them. -/
inductive Completed (short : Call → Prop) : Bool × Call → Bool × Call → Prop where
  | unreached (call : Call) : Completed short (false, call) (false, call)
  | kept {call call' : Call} : ¬ short call → CallFills call call' →
      Completed short (true, call) (true, call')
  | filled {call call' : Call} : short call → CallFills call call' →
      Completed short (true, call) (true, call'.addArg .nil)

theorem CallFills.refl (call : Call) : CallFills call call :=
  ⟨.refl, List.forall₂_same.2 fun _ _ => .refl, rfl, rfl⟩

theorem forall₂_comp {α β γ : Type} {R : α → β → Prop} {S : β → γ → Prop} {T : α → γ → Prop}
    (hT : ∀ a b c, R a b → S b c → T a c) {as : List α} {bs : List β} {cs : List γ}
    (h : List.Forall₂ R as bs) (h' : List.Forall₂ S bs cs) : List.Forall₂ T as cs := by
  induction h generalizing cs with
  | nil =>
      cases h'
      exact .nil
  | cons hR _ ih =>
      cases h' with
      | cons hS hrest => exact .cons (hT _ _ _ hR hS) (ih hrest)

theorem CallFills.trans {call call' call'' : Call} (h : CallFills call call')
    (h' : CallFills call' call'') : CallFills call call'' where
  callee := Relation.ReflTransGen.trans h.callee h'.callee
  args := by
    refine forall₂_comp (fun _ _ _ hfirst hsecond => ?_) h.args h'.args
    exact Relation.ReflTransGen.trans hfirst hsecond
  spread := h'.spread.trans h.spread
  closesLine := h'.closesLine.trans h.closesLine

section

variable {call : Call} {decs : Decorations}

theorem fills_around {outer : Call} {entry : Bool × Call}
    (h : Around true ⟨.call call, decs⟩ ⟨.call (call.addArg .nil), decs⟩ (true, outer) entry) :
    ∃ outer', entry = (true, outer') ∧ CallFills outer outer' := by
  cases h with
  | same => exact ⟨outer, rfl, .refl outer⟩
  | callee hrewrite =>
      refine ⟨_, rfl, .single ⟨call, decs, hrewrite⟩, ?_, rfl, rfl⟩
      exact List.forall₂_same.2 fun _ _ => .refl
  | arg hrewrite =>
      refine ⟨_, rfl, .refl, ?_, rfl, rfl⟩
      refine List.rel_append (List.forall₂_same.2 fun _ _ => .refl) (.cons ?_ ?_)
      · exact .single ⟨call, decs, hrewrite⟩
      · exact List.forall₂_same.2 fun _ _ => .refl

/-- The room around an expression stays. -/
theorem decs_of_rewrites {literals : Bool} {kind kind' : ExprKind} {decs : Decorations}
    {expr expr' : Expr} (h : Expr.Rewrites literals ⟨kind, decs⟩ ⟨kind', decs⟩ expr expr') :
    expr'.decs = expr.decs := by
  cases h <;> rfl

/-- The argument as it is appended to others. -/
def appended (args : List Expr) (arg : Expr) : Expr :=
  if args.getLast?.any Expr.breaks then { arg with decs := { arg.decs with before := .newLine } }
  else arg

theorem addArg_eq (call : Call) (arg : Expr) :
    call.addArg arg = { call with args := call.args ++ [appended call.args arg] } := rfl

theorem appended_congr {args args' : List Expr} (h : args'.map (·.decs) = args.map (·.decs))
    (arg : Expr) : appended args' arg = appended args arg := by
  have hbreaks : ∀ args : List Expr, args.getLast?.any Expr.breaks =
      (args.map (·.decs)).getLast?.any fun decs : Decorations => decs.before.isBreak := by
    intro args
    rw [List.getLast?_map, Option.any_map]
    rfl
  simp only [appended, hbreaks, h]

theorem addArg_around {inner : Call} {entry : Bool × Call}
    (h : Around true ⟨.call call, decs⟩ ⟨.call (call.addArg .nil), decs⟩ (true, inner.addArg .nil)
      entry) :
    ∃ inner', entry = (true, inner'.addArg .nil) ∧ CallFills inner inner' := by
  obtain ⟨callee, args, spread, closesLine⟩ := inner
  simp only [addArg_eq] at h ⊢
  generalize hargs : args ++ [appended args .nil] = all at h
  cases h with
  | same => exact ⟨_, by rw [hargs], .refl _⟩
  | @callee _ callee' _ _ _ hrewrite =>
      subst hargs
      refine ⟨⟨callee', args, spread, closesLine⟩, rfl, .single ⟨call, decs, hrewrite⟩, ?_, rfl, rfl⟩
      exact List.forall₂_same.2 fun _ _ => .refl
  | @arg _ arg arg' front back _ _ hrewrite =>
      rcases List.eq_nil_or_concat back with rfl | ⟨back, last, rfl⟩
      · -- the appended argument is no call
        obtain ⟨-, hlast⟩ := List.append_inj' hargs rfl
        obtain rfl := List.singleton_inj.1 hlast
        have hkind : (appended args .nil).kind = Expr.nil.kind := by
          unfold appended
          split <;> rfl
        generalize appended args .nil = last at hrewrite hkind
        cases hrewrite <;> cases hkind
      · rw [List.concat_eq_append, ← List.cons_append, ← List.append_assoc] at hargs
        obtain ⟨rfl, hlast⟩ := List.append_inj' hargs rfl
        obtain rfl := List.singleton_inj.1 hlast
        refine ⟨⟨callee, front ++ arg' :: back, spread, closesLine⟩, ?_, .refl, ?_, rfl, rfl⟩
        · have hdecs : (front ++ arg' :: back).map (·.decs) = (front ++ arg :: back).map (·.decs) := by
            simp [decs_of_rewrites hrewrite]
          rw [appended_congr hdecs]
          simp
        · refine List.rel_append (List.forall₂_same.2 fun _ _ => .refl) (.cons ?_ ?_)
          · exact .single ⟨call, decs, hrewrite⟩
          · exact List.forall₂_same.2 fun _ _ => .refl

end

/-! ## What resolution knows of completed calls -/

section

variable {info : Info} (hskips : SkipsGenerated info)
  {arities : List ((String × String) × Nat)}

include hskips

/-- The appended name stands for nothing, so that no call tells another type by it. -/
theorem alike_addNil (call : Call) (decs : Decorations) :
    info.Alike ⟨.call call, decs⟩ ⟨.call (call.addArg .nil), decs⟩ := by
  refine .call ?_
  have hnil : info.typeExpr? (appended [] .nil) = none := by
    have hobject : info.objectId? { name := "nil" } = none := hskips _ rfl
    simp [appended, Expr.nil, Expr.ident, Info.typeExpr?, Info.object?, hobject]
  have hhead : (call.addArg .nil).args.head?.bind info.typeExpr? =
      call.args.head?.bind info.typeExpr? := by
    rw [addArg_eq]
    cases call.args with
    | nil => simpa using hnil
    | cons arg args => rfl
  simp only [Info.resultsOf, addArg_eq] at hhead ⊢
  rw [Info.conversionResults?_args info call.callee hhead]

theorem alike_fills {expr expr' : Expr} (h : ExprFills expr expr') : info.Alike expr expr' := by
  induction h with
  | refl => exact .refl
  | tail _ hstep ih =>
      obtain ⟨call, decs, hrewrite⟩ := hstep
      exact ih.trans (Info.alike_of_rewrites (alike_addNil hskips call decs) hrewrite)

theorem spreadsResults_fills {call call' : Call} (h : CallFills call call') :
    spreadsResults info call' = spreadsResults info call := by
  have hargs := h.args.imp fun _ _ => alike_fills hskips
  unfold spreadsResults
  generalize call.args = args at hargs ⊢
  generalize call'.args = args' at hargs ⊢
  cases hargs with
  | nil => rfl
  | cons harg hrest =>
      cases hrest with
      | nil => exact harg.yieldsSeveral
      | cons => rfl

/-- A call stays as short as it is when calls inside it are completed. -/
theorem lacksTransaction_fills {call call' : Call} (h : CallFills call call') :
    lacksTransaction info arities call' = lacksTransaction info arities call := by
  have hcallee : info.callee? call' = info.callee? call :=
    (alike_fills hskips h.callee).callee call.args call.spread call.closesLine
  simp only [lacksTransaction, h.spread, spreadsResults_fills hskips h, hcallee,
    ← h.args.length_eq]

end

/-! ## Single completions -/

section

variable {info : Info} {arities : List ((String × String) × Nat)}

variable (info arities) in
/-- What has become of a call while short ones are being completed. -/
inductive Filling : Bool × Call → Bool × Call → Prop where
  | unreached (call : Call) : Filling (false, call) (false, call)
  | inside {call call' : Call} : CallFills call call' → Filling (true, call) (true, call')
  | filled {call call' : Call} : lacksTransaction info arities call = true → CallFills call call' →
      Filling (true, call) (true, call'.addArg .nil)

theorem Filling.refl : ∀ entry : Bool × Call, Filling info arities entry entry
  | (false, call) => .unreached call
  | (true, call) => .inside (.refl call)

theorem Filling.around {entry entry' entry'' : Bool × Call} (h : Filling info arities entry entry')
    {call : Call} {decs : Decorations}
    (haround : Around true ⟨.call call, decs⟩ ⟨.call (call.addArg .nil), decs⟩ entry' entry'') :
    Filling info arities entry entry'' := by
  cases h with
  | unreached outer =>
      cases haround
      exact .unreached outer
  | inside hfills =>
      obtain ⟨outer, rfl, hfills'⟩ := fills_around haround
      exact .inside (hfills.trans hfills')
  | filled hlacks hfills =>
      obtain ⟨outer, rfl, hfills'⟩ := addArg_around haround
      exact .filled hlacks (hfills.trans hfills')

variable (info arities) in
/-- A call that lacks its last argument gets it and is counted. -/
def countsLack : Visits Nat := fun before after =>
  fillsLack info arities before after ∧ after.2 = before.2 + 1

theorem fixCall_countsLack :
    (Edits.calls true (fixCall info arities)).Follows (.ofStateM Nat) (countsLack info arities) := by
  refine ⟨fun call decs count => ?_, fun ident decs count => .inr rfl⟩
  simp only [Edits.calls, Threaded.ofStateM, fixCall]
  split
  · next hlacks => exact .inl ⟨⟨call, decs, hlacks, rfl, rfl⟩, rfl⟩
  · exact .inr rfl

/-- Edits reach the call, and it lacks its last argument. -/
def isShort (info : Info) (arities : List ((String × String) × Nat)) (entry : Bool × Call) : Bool :=
  entry.1 && lacksTransaction info arities entry.2

/-- One call of a list has been completed; the calls around it stand in front of it. -/
theorem calls_of_countsLack {before after : List Stmt × Nat}
    (h : Changes (StmtsRewrite true) (countsLack info arities) before after) :
    ∃ call decs front front' back, lacksTransaction info arities call = true ∧
      callsOfStmts true before.1 = front ++ (true, call) :: back ∧
      callsOfStmts true after.1 = front' ++ (true, call.addArg .nil) :: back ∧
      List.Forall₂ (Around true ⟨.call call, decs⟩ ⟨.call (call.addArg .nil), decs⟩) front front' ∧
      after.2 = before.2 + 1 := by
  obtain ⟨part, part', ⟨⟨call, decs, hlacks, rfl, rfl⟩, hcount⟩, hrewrite⟩ := h
  obtain ⟨front, front', back, hbefore, hafter, hfront⟩ := hrewrite.calls
  have hnil : callsOfExprs true [appended call.args .nil] = [] := by
    unfold appended
    split <;> rfl
  obtain ⟨callee, args, spread, closesLine⟩ := call
  refine ⟨⟨callee, args, spread, closesLine⟩, decs, front, front',
    callee.calls true ++ callsOfExprs true args ++ back, hlacks, ?_, ?_, hfront, hcount⟩
  · rw [hbefore]
    rfl
  · rw [hafter, addArg_eq]
    simp only [Expr.calls, ExprKind.calls, callsOfExprs_append, hnil, List.append_nil,
      List.cons_append]

variable (hskips : SkipsGenerated info)

include hskips

theorem Filling.fill {entry : Bool × Call} {call : Call}
    (h : Filling info arities entry (true, call))
    (hlacks : lacksTransaction info arities call = true) :
    Filling info arities entry (true, call.addArg .nil) := by
  generalize hentry : (true, call) = entry' at h
  cases h with
  | unreached => cases hentry
  | inside hfills =>
      obtain rfl := (Prod.mk.inj hentry).2
      exact .filled ((lacksTransaction_fills hskips hfills).symm.trans hlacks) hfills
  | filled hshort hfills =>
      -- a completed call is not short any more
      obtain rfl := (Prod.mk.inj hentry).2
      rw [lacksTransaction_addArg ((lacksTransaction_fills hskips hfills).trans hshort)] at hlacks
      contradiction

theorem isShort_around {call : Call} {decs : Decorations} {entry entry' : Bool × Call}
    (h : Around true ⟨.call call, decs⟩ ⟨.call (call.addArg .nil), decs⟩ entry entry') :
    isShort info arities entry' = isShort info arities entry := by
  obtain ⟨reached, outer⟩ := entry
  cases reached with
  | false =>
      cases h
      rfl
  | true =>
      obtain ⟨outer', rfl, hfills⟩ := fills_around h
      exact lacksTransaction_fills hskips hfills

/-- With each completion there is one short call less. -/
theorem countP_of_countsLack {before after : List Stmt × Nat}
    (h : Changes (StmtsRewrite true) (countsLack info arities) before after) :
    after.2 + (callsOfStmts true after.1).countP (isShort info arities) =
      before.2 + (callsOfStmts true before.1).countP (isShort info arities) := by
  obtain ⟨call, decs, front, front', back, hlacks, hbefore, hafter, hfront, hcount⟩ :=
    calls_of_countsLack h
  have hsame : front'.countP (isShort info arities) = front.countP (isShort info arities) := by
    clear hbefore hafter
    induction hfront with
    | nil => rfl
    | cons haround _ ih => simp only [List.countP_cons, ih, isShort_around hskips haround]
  have hcall : isShort info arities (true, call) = true := hlacks
  have hfull : isShort info arities (true, call.addArg .nil) = false := lacksTransaction_addArg hlacks
  simp only [hbefore, hafter, List.countP_append, List.countP_cons, hsame, hcall, hfull, hcount,
    Bool.false_eq_true, if_true, if_false]
  omega

/-! ## Lists of statements -/

theorem editStmts_filling (stmts : List Stmt) (count : Nat) :
    let run := editStmts (Edits.calls true (fixCall info arities)) stmts count
    List.Forall₂ (Filling info arities) (callsOfStmts true stmts) (callsOfStmts true run.1) ∧
      run.2 + (callsOfStmts true run.1).countP (isShort info arities) =
        count + (callsOfStmts true stmts).countP (isShort info arities) := by
  have hlift : ∀ after, Steps (StmtsRewrite true) (countsLack info arities) (stmts, count) after →
      List.Forall₂ (Filling info arities) (callsOfStmts true stmts) (callsOfStmts true after.1) ∧
        after.2 + (callsOfStmts true after.1).countP (isShort info arities) =
          count + (callsOfStmts true stmts).countP (isShort info arities) := by
    intro after steps
    induction steps with
    | refl => exact ⟨List.forall₂_same.2 fun entry _ => .refl entry, rfl⟩
    | tail _ hstep ih =>
        refine ⟨?_, (countP_of_countsLack hskips hstep).trans ih.2⟩
        obtain ⟨call, decs, front, front', back, hlacks, hbefore, hafter, hfront, -⟩ :=
          calls_of_countsLack hstep
        have hfilling := ih.1
        rw [hbefore] at hfilling
        rw [hafter]
        have hnext : List.Forall₂
            (fun entry' entry'' => ∀ entry, Filling info arities entry entry' →
              Filling info arities entry entry'')
            (front ++ (true, call) :: back) (front' ++ (true, call.addArg .nil) :: back) := by
          refine List.rel_append (hfront.imp fun _ _ haround _ h => h.around haround) (.cons ?_ ?_)
          · exact fun entry h => h.fill hskips hlacks
          · exact List.forall₂_same.2 fun _ _ _ h => h
        exact forall₂_comp (fun entry _ _ h hnext => hnext entry h) hfilling hnext
  exact hlift _ (editStmts_steps fixCall_countsLack stmts count)

omit hskips in
theorem sated_editStmts (stmts : List Stmt) (count : Nat) :
    Holds (Sated info arities)
      (callsOfStmts true (editStmts (Edits.calls true (fixCall info arities)) stmts count).1) :=
  editStmts_brings fixCall_bringsSated stmts count fun _ _ => trivial

/-- The calls that get their last argument are the ones that lack it in the beginning. -/
theorem editStmts_completed (stmts : List Stmt) (count : Nat) :
    List.Forall₂ (Completed fun call => lacksTransaction info arities call = true)
      (callsOfStmts true stmts)
      (callsOfStmts true (editStmts (Edits.calls true (fixCall info arities)) stmts count).1) := by
  have hsated := @sated_editStmts info arities stmts count
  have hfilling := (@editStmts_filling info arities hskips stmts count).1
  generalize callsOfStmts true stmts = entries at hfilling ⊢
  generalize callsOfStmts true _ = entries' at hfilling hsated ⊢
  induction hfilling with
  | nil => exact .nil
  | cons hentry _ ih =>
      obtain ⟨hcall, hrest⟩ := Holds.cons.1 hsated
      refine .cons ?_ (ih hrest)
      cases hentry with
      | unreached call => exact .unreached call
      | inside hfills =>
          refine .kept ?_ hfills
          rw [← lacksTransaction_fills hskips hfills, hcall rfl]
          decide
      | filled hlacks hfills => exact .filled hlacks hfills

/-- All short calls are counted. -/
theorem count_editStmts (stmts : List Stmt) (count : Nat) :
    (editStmts (Edits.calls true (fixCall info arities)) stmts count).2 =
      count + (callsOfStmts true stmts).countP (isShort info arities) := by
  have hnone : (callsOfStmts true (editStmts (Edits.calls true (fixCall info arities)) stmts
      count).1).countP (isShort info arities) = 0 := by
    refine List.countP_eq_zero.2 fun entry hmem hshort => ?_
    obtain ⟨hreached, hlacks⟩ := Bool.and_eq_true_iff.1 hshort
    rw [sated_editStmts stmts count entry hmem hreached] at hlacks
    contradiction
  have hsum := (@editStmts_filling info arities hskips stmts count).2
  rwa [hnone] at hsum

end

/-- The count that edits start from matters to the count alone. -/
def countsOnly : Congruence (StateM Nat) where
  rel x y := x = y ∧ ∀ count, (x count).1 = (x 0).1
  rel_pure _ := ⟨rfl, fun _ => rfl⟩
  rel_bind := by
    rintro α β x _ f g ⟨rfl, hx⟩ h
    obtain rfl : f = g := funext fun a => (h a).1
    refine ⟨rfl, fun count => ?_⟩
    show (f (x count).1 (x count).2).1 = (f (x 0).1 (x 0).2).1
    rw [(h _).2, hx, ← (h _).2]
  rel_map := by
    rintro α β f x _ ⟨rfl, hx⟩
    exact ⟨rfl, fun count => congrArg f (hx count)⟩

/-- The statements with the short calls in them completed. -/
def fillShort (info : Info) (arities : List ((String × String) × Nat)) (stmts : List Stmt) :
    List Stmt :=
  (editStmts (Edits.calls true (fixCall info arities)) stmts 0).1

theorem editStmts_eq {info : Info} {arities : List ((String × String) × Nat)}
    (hskips : SkipsGenerated info) (stmts : List Stmt) (count : Nat) :
    editStmts (Edits.calls true (fixCall info arities)) stmts count =
      (fillShort info arities stmts,
        count + (callsOfStmts true stmts).countP (isShort info arities)) := by
  have hcall : ∀ call, countsOnly.rel (fixCall info arities call) (fixCall info arities call) := by
    refine fun call => ⟨rfl, fun count => ?_⟩
    unfold fixCall
    split <;> rfl
  refine Prod.ext ?_ (count_editStmts hskips stmts count)
  exact (editStmts_rel (Edits.agree_calls countsOnly true hcall) stmts).2 count

end TraceWeave.Program
