import TraceWeave.Proofs.Tracing.ScopedDetectors

/-!
The walk keeps the variable of the transaction in scope.

What a callee's frame takes for its transaction is a parameter of the callee, or bound by
the statement that is pending (`Frame.Sound`); the pending statement comes to stand first
as soon as the transaction is used (`Frame.Sound.prologue`).
-/

namespace TraceWeave.Tracing

open TraceWeave.Agent TraceWeave.Detect TraceWeave.Program TraceWeave.Syntax TraceWeave.Types

/-! ## Parameters -/

theorem mem_declared_of_params {list : FieldList} {ident : Ident} {type : Expr}
    (h : (some ident, type) ∈ list.params) : ident.name ∈ list.declared := by
  rcases List.mem_flatMap.1 h with ⟨field, hfield, hmem⟩
  apply List.mem_flatMap.2 ⟨field, hfield, ?_⟩
  split at hmem
  · simp at hmem
  · rcases List.mem_map.1 hmem with ⟨name, hname, heq⟩
    cases heq
    exact List.mem_map_of_mem hname

theorem declared_add (list : FieldList) (field : Field) :
    (list.add field).declared = list.declared ++ field.names.map (·.name) := by
  unfold FieldList.add FieldList.declared
  dsimp only
  split <;> simp

theorem mem_declared_added (list : FieldList) :
    transactionVariable ∈ (list.add (transactionParameter transactionVariable)).declared := by
  rw [declared_add]
  exact List.mem_append_right _ (List.mem_singleton.2 rfl)

theorem mem_declared_of_findParam? {info : Info} {list : FieldList} {type : Ty} {index : Nat}
    {param : Param} {name : String}
    (h : findParam? (paramsOf info list) type = some (index, param))
    (hname : param.name = some name) :
    name ∈ list.declared := by
  rcases Option.map_eq_some_iff.1 h with ⟨⟨found, position⟩, hfind, heq⟩
  cases heq
  have hmem := List.fst_mem_of_mem_zipIdx (List.mem_of_find?_eq_some hfind)
  rcases List.mem_map.1 hmem with ⟨⟨ident?, type⟩, hparam, rfl⟩
  rcases Option.map_eq_some_iff.1 hname with ⟨ident, hident, rfl⟩
  have hsome := (Option.filter_eq_some_iff.1 hident).1
  subst hsome
  exact mem_declared_of_params hparam

/-! ## Passing -/

namespace Carrier

@[simp]
theorem name_renamed (carrier : Carrier) (name : String) : (carrier.renamed name).name = name := by
  cases carrier <;> rfl

/-- What holds the transaction inside a callee is a parameter of it. -/
structure Reaches (list : FieldList) (passing : Passing) : Prop where
  params : passing.params =
    if passing.extended then list.add (transactionParameter transactionVariable) else list
  child : ∀ child, passing.child = some child → child.name ∈ passing.params.declared

theorem reaches (carrier : Carrier) (info : Info) (list : FieldList) (call : Call)
    (async mayExtend : Bool) (txn : Expr) :
    Reaches list (carrier.pass info list call async mayExtend txn) := by
  unfold Carrier.pass
  dsimp only
  generalize (if async then newGoroutine txn else txn) = handle
  split
  · next index param hown =>
    have hchild : ∀ child, param.name.map carrier.renamed = some child →
        child.name ∈ list.declared := by
      intro child h
      rcases Option.map_eq_some_iff.1 h with ⟨name, hname, rfl⟩
      rw [name_renamed]
      split at hown
      · contradiction
      · exact mem_declared_of_findParam? hown hname
    unfold Carrier.passItself
    split
    · split
      · exact ⟨rfl, hchild⟩
      · exact ⟨rfl, hchild⟩
    · exact ⟨rfl, hchild⟩
  · split
    · next index param hcontext =>
      have hchild : ∀ child, param.name.map Carrier.context = some child →
          child.name ∈ list.declared := by
        intro child h
        rcases Option.map_eq_some_iff.1 h with ⟨name, hname, rfl⟩
        exact mem_declared_of_findParam? hcontext hname
      unfold Carrier.passContext
      split
      · exact ⟨rfl, hchild⟩
      · dsimp only
        split
        · exact ⟨rfl, hchild⟩
        · exact ⟨rfl, hchild⟩
    · split
      · unfold Carrier.passNew
        split
        · exact ⟨rfl, nofun⟩
        · constructor
          · rfl
          · intro child h
            obtain rfl := Option.some.inj h
            exact mem_declared_added list
      · exact ⟨rfl, nofun⟩

end Carrier

theorem reads_newContext (ctx txn : Expr) (decs : Decorations) :
    ({ newContext ctx txn with decs } : Expr).reads transactionVariable =
      (ctx.reads transactionVariable || txn.reads transactionVariable) := by
  have hname : ("newrelic" == transactionVariable) = false := by decide
  simp [newContext, newrelic, bare, Expr.call, ExprKind.reads, hname]

/-- A call reads the variable behind passing if it did, or if the frame hands the variable on. -/
theorem gains_pass {frame : Frame} {carrier : Carrier} (hcarrier : frame.carrier = some carrier)
    (info : Info) (list : FieldList) (call : Call) (async mayExtend : Bool) {passing : Passing}
    (hpassing : carrier.pass info list call async mayExtend (.ident frame.txn) = passing) :
    Gains ({ frame with used := frame.used || passing.usesTransaction } : Frame).Reads
      (call.reads transactionVariable) (passing.call.reads transactionVariable) := by
  have htransaction : frame.hasTransaction = true := by simp [Frame.hasTransaction, hcarrier]
  subst hpassing
  unfold Carrier.pass
  dsimp only
  have hhandle : (if async then newGoroutine (.ident frame.txn) else .ident frame.txn).reads
      transactionVariable = (frame.txn == transactionVariable) := by
    cases async <;> simp [newGoroutine, methodCall]
  generalize (if async then newGoroutine (.ident frame.txn) else .ident frame.txn) = handle
    at hhandle ⊢
  have huses : handle.reads transactionVariable = true →
      ({ frame with used := frame.used || true } : Frame).Reads := by
    intro h
    rw [hhandle, beq_iff_eq] at h
    exact ⟨htransaction, .inl ⟨Bool.or_true _, h⟩⟩
  split
  · unfold Carrier.passItself
    split
    · split
      · intro hreads
        rw [reads_addArg, Bool.or_eq_true] at hreads
        exact hreads.imp_right huses
      · next hkind =>
        intro hreads
        rw [reads_addArg, Bool.or_eq_true, Expr.reads_ident, beq_iff_eq] at hreads
        refine hreads.imp_right fun hname => ⟨htransaction, .inr ?_⟩
        show transactionVariable ∈ frame.sources
        rw [Frame.sources, hcarrier, ← hname]
        cases carrier with
        | transaction name => exact absurd rfl (hkind name)
        | context name => exact List.mem_singleton.2 rfl
        | stream name type => exact List.mem_singleton.2 rfl
    · exact .refl
  · split
    · unfold Carrier.passContext
      split
      · exact .refl
      · next arg harg =>
        dsimp only
        split
        · exact .refl
        · intro hreads
          obtain ⟨hlt, rfl⟩ := List.getElem?_eq_some_iff.1 harg
          simp only [Call.reads, Bool.or_eq_true, readsInExprs_eq_any, List.any_eq_true] at hreads ⊢
          rcases hreads with hcallee | ⟨other, hmem, hother⟩
          · exact .inl (.inl hcallee)
          · rcases List.mem_or_eq_of_mem_set hmem with hmem | rfl
            · exact .inl (.inr ⟨other, hmem, hother⟩)
            · rw [reads_newContext, Bool.or_eq_true] at hother
              rcases hother with hother | hother
              · exact .inl (.inr ⟨_, List.getElem_mem hlt, hother⟩)
              · exact .inr (huses hother)
    · split
      · unfold Carrier.passNew
        split
        · exact .refl
        · intro hreads
          rw [reads_addArg, Bool.or_eq_true] at hreads
          exact hreads.imp_right huses
      · exact .refl

/-! ## Frames -/

/-- What the frame takes for its transaction is declared, or bound by the pending statement. -/
structure Frame.Sound (declared : List String) (frame : Frame) : Prop where
  inMain : frame.inMain = false
  sources : transactionVariable ∈ frame.sources → transactionVariable ∈ declared
  txn : frame.hasTransaction = true → frame.txn = transactionVariable →
    transactionVariable ∈ declared ∨ frame.pending.isSome = true
  pending : ∀ stmt, frame.pending = some stmt → ∃ ctx, stmt = bindFromContext frame.txn ctx ∧
    (ctx.reads transactionVariable = true → transactionVariable ∈ declared)

namespace Frame.Sound

variable {declared : List String} {frame frame' : Frame}

theorem later (h : frame.Sound declared) (hframe : frame.Continues frame') :
    frame'.Sound declared := by
  have hcarrier := hframe.carrier h.inMain
  have htxn := hframe.txn h.inMain
  have hpending := hframe.pending h.inMain
  constructor
  · exact hframe.inMain.trans h.inMain
  · unfold Frame.sources
    rw [hcarrier]
    exact h.sources
  · unfold Frame.hasTransaction
    rw [hcarrier, htxn, hpending]
    exact h.txn
  · rw [hpending, htxn]
    exact h.pending

theorem reads_bindFromContext (name : String) (ctx : Expr) :
    (bindFromContext name ctx).kind.reads transactionVariable =
      (name == transactionVariable || ctx.reads transactionVariable) := by
  have hname : ("newrelic" == transactionVariable) = false := by decide
  simp [bindFromContext, Stmt.define, StmtKind.reads, newrelic, hname]

theorem reads_deferSegment (name txn : String) :
    (deferSegment name txn).kind.reads transactionVariable = (txn == transactionVariable) := by
  simp [deferSegment, Stmt.defer, StmtKind.reads, methodCall]

/-- Once the variable is read, it is declared or bound by the first statement of the body. -/
theorem prologue (h : frame.Sound declared) (hasSegment : Bool) (stmts : List Stmt)
    (hreads : frame.Reads ∨ readsTransaction (frame.prologue hasSegment).1 = true) :
    transactionVariable ∈ declared ∨ (frame.pending.isSome = true ∧
      bindsFirst ((frame.prologue hasSegment).1 ++ stmts) = true) := by
  have hbound : ∀ stmt, frame.pending = some stmt → frame.txn = transactionVariable →
      (frame.used || (frame.opening? hasSegment).isSome) = true →
        frame.pending.isSome = true ∧
          bindsFirst ((frame.prologue hasSegment).1 ++ stmts) = true := by
    intro stmt hstmt htxn hused
    rcases h.pending stmt hstmt with ⟨ctx, rfl, -⟩
    simp [Frame.prologue, hstmt, hused, bindsFirst, bindsTransaction, bindFromContext, Stmt.define,
      Expr.isIdent, Expr.ident?, Expr.ident, htxn]
  have htaken : frame.hasTransaction = true → frame.txn = transactionVariable →
      (frame.used || (frame.opening? hasSegment).isSome) = true →
        transactionVariable ∈ declared ∨ (frame.pending.isSome = true ∧
          bindsFirst ((frame.prologue hasSegment).1 ++ stmts) = true) := by
    intro htransaction htxn hused
    rcases h.txn htransaction htxn with hdeclared | hpending
    · exact .inl hdeclared
    · rcases Option.isSome_iff_exists.1 hpending with ⟨stmt, hstmt⟩
      exact .inr (hbound stmt hstmt htxn hused)
  rcases hreads with ⟨htransaction, ⟨hused, htxn⟩ | hsource⟩ | hreads
  · exact htaken htransaction htxn (by simp [hused])
  · exact .inl (h.sources hsource)
  · simp only [Frame.prologue, readsTransaction, readsInStmts_eq_any, List.any_append,
      Bool.or_eq_true, List.any_eq_true, Option.mem_toList] at hreads
    rcases hreads with ⟨stmt, hmem, hstmt⟩ | ⟨stmt, hmem, hstmt⟩
    · split at hmem
      · next hused =>
        rcases h.pending stmt hmem with ⟨ctx, rfl, hctx⟩
        rw [reads_bindFromContext, Bool.or_eq_true, beq_iff_eq] at hstmt
        rcases hstmt with htxn | hread
        · exact .inr (hbound _ hmem htxn (by simpa using hused))
        · exact .inl (hctx hread)
      · contradiction
    · have hopening := hmem
      unfold Frame.opening? at hmem
      split at hmem
      · contradiction
      · next hplain =>
        rcases Option.map_eq_some_iff.1 hmem with ⟨name, -, rfl⟩
        rw [reads_deferSegment, beq_iff_eq] at hstmt
        have hplain : hasSegment = false ∧ frame.hasTransaction = true := by simpa using hplain
        exact htaken hplain.2 hstmt (by simp [hopening])

theorem traced {package agent : String} {carrier : Carrier}
    (h : carrier.name = transactionVariable → transactionVariable ∈ declared) :
    (Frame.traced package agent carrier transactionVariable).Sound declared := by
  cases carrier with
  | transaction name => exact ⟨rfl, nofun, fun _ hname => .inl (h hname), nofun⟩
  | context name =>
      refine ⟨rfl, fun hsource => h (List.mem_singleton.1 hsource).symm, fun _ _ => .inr rfl, ?_⟩
      intro stmt hstmt
      obtain rfl := Option.some.inj hstmt
      exact ⟨.ident name, rfl, fun hreads => h (beq_iff_eq.1 hreads)⟩
  | stream name type =>
      refine ⟨rfl, fun hsource => h (List.mem_singleton.1 hsource).symm, fun _ _ => .inr rfl, ?_⟩
      intro stmt hstmt
      obtain rfl := Option.some.inj hstmt
      refine ⟨streamContext name, rfl, fun hreads => h ?_⟩
      show name = transactionVariable
      simpa [streamContext, methodCall] using hreads

theorem childFrame {caller : Frame} {ref : FuncRef} {child : Option Carrier} {async : Bool}
    (h : ∀ carrier, child = some carrier → carrier.name ∈ declared) :
    (childFrame caller ref child async).Sound declared := by
  cases child with
  | none => exact ⟨rfl, nofun, nofun, nofun⟩
  | some carrier =>
      have hsound := @traced declared ref.package caller.agent carrier fun hname => hname ▸ h _ rfl
      exact ⟨hsound.inMain, hsound.sources, hsound.txn, hsound.pending⟩

end Frame.Sound

/-! ## Bodies -/

/-- Every run of the walk accounts for what it reads of the variable. -/
def Walk.Scoped (watched : FuncRef → Prop) (walk : Walk) : Prop :=
  ∀ stmts frame app, Trace.wp (walk stmts) (fun stmts' =>
    Scopes watched (readsTransaction stmts) frame app (readsTransaction stmts')) frame app

theorem reads_of_existingBinding? {stmts : List Stmt} {index : Nat} {name : String}
    (h : existingBinding? stmts = some (index, name)) : readsInStmts name stmts = true := by
  rcases List.exists_of_findSome?_eq_some h with ⟨⟨stmt, position⟩, hmem, hsome⟩
  rcases Option.map_eq_some_iff.1 hsome with ⟨bound, hbound, heq⟩
  cases heq
  rw [readsInStmts_eq_any, List.any_eq_true]
  refine ⟨stmt, List.fst_mem_of_mem_zipIdx hmem, reads_of_assignedNames ?_⟩
  unfold fromContextBinding? at hbound
  split at hbound
  · next target op value hkind =>
    split at hbound
    · simp [assignedNames, hkind, hbound]
    · contradiction
  · contradiction

theorem reads_around (added stmts : List Stmt) (top : Nat) :
    readsTransaction (stmts.take top ++ added ++ stmts.drop top) =
      (readsTransaction added || readsTransaction stmts) := by
  have hstmts := congrArg readsTransaction (List.take_append_drop top stmts)
  simp only [readsInStmts_eq_any, List.any_append] at hstmts ⊢
  rw [← hstmts, Bool.or_assoc, Bool.or_left_comm]

variable (watched : FuncRef → Prop)

theorem traceBody_scopes {walk : Walk} (hwalk : walk.Scoped watched) (body : Block) (frame : Frame)
    (app : Application) :
    Trace.wp (traceBody walk body) (fun body' _ app' => Tidies watched app app' ∧
      ∀ declared, frame.Sound declared →
        Gains (transactionVariable ∈ declared ∨
            (frame.pending.isSome = true ∧ bindsFirst body'.stmts = true))
          (readsTransaction body.stmts) (readsTransaction body'.stmts)) frame app := by
  unfold traceBody
  simp only [Trace.wp_bind, Trace.wp_get]
  split
  · simp only [Trace.wp_bind, Trace.wp_pure]
    apply (hwalk body.stmts frame app).mono
    intro stmts frame' app' h
    rw [Trace.wp_bind, Trace.wp_modifyGet, Trace.wp_pure]
    refine ⟨h.tidies, fun declared hsound hreads => ?_⟩
    rw [reads_around, Bool.or_eq_true] at hreads
    have hscoped := (hsound.later h.continues).prologue (body.stmts.any isDeferSegment) stmts
    rw [h.continues.pending hsound.inMain] at hscoped
    rcases hreads with hprologue | hstmts
    · exact .inr (hscoped (.inr hprologue))
    · rcases h.reads hsound.inMain hstmts with hbefore | hframe
      · exact .inl hbefore
      · exact .inr (hscoped (.inl hframe))
  · next index name hexisting =>
    simp only [Trace.wp_bind, Trace.wp_modify, Trace.wp_pure]
    apply (hwalk body.stmts { frame with txn := name, pending := none } app).mono
    intro stmts frame' app' h
    rw [Trace.wp_bind, Trace.wp_modifyGet, Trace.wp_pure]
    refine ⟨h.tidies, fun declared hsound hreads => ?_⟩
    cases hbefore : readsTransaction body.stmts with
    | true => exact .inl rfl
    | false =>
        right
        -- the body binds another name, so that the frame does not stand for the variable
        have hname : name ≠ transactionVariable := by
          rintro rfl
          split at hexisting
          · exact absurd ((reads_of_existingBinding? hexisting).symm.trans hbefore) (by simp)
          · contradiction
        have hsound' : Frame.Sound declared { frame with txn := name, pending := none } :=
          ⟨hsound.inMain, hsound.sources, fun _ htxn => absurd htxn hname, nofun⟩
        have hscoped := (hsound'.later h.continues).prologue (body.stmts.any isDeferSegment) stmts
        rw [h.continues.pending hsound.inMain] at hscoped
        left
        rw [reads_around, Bool.or_eq_true] at hreads
        rcases hreads with hprologue | hstmts
        · exact (hscoped (.inr hprologue)).resolve_right (by simp)
        · rcases h.reads hsound.inMain hstmts with hread | hframe
          · exact absurd (hread.symm.trans hbefore) (by simp)
          · exact (hscoped (.inl hframe)).resolve_right (by simp)

/-- A watched function that tracing has not reached does not read the variable. -/
theorem Tidy.fresh {watched : FuncRef → Prop} {app : Application} (h : Tidy watched app)
    {ref : FuncRef} {func : FuncDecl} {body : Block} (htraced : app.isTraced ref = false)
    (hwatched : watched ref) (hfunc : app.func? ref = some func) (hbody : func.body = some body) :
    readsTransaction body.stmts = false := by
  refine Bool.eq_false_iff.2 fun hreads => ?_
  rw [(h ref func body hwatched hfunc hbody hreads).1] at htraced
  contradiction

/-- A body that has been taken out comes back in scope. -/
theorem Tidies.putBack {watched : FuncRef → Prop} {origin opened app : Application} {ref : FuncRef}
    {stmts : List Stmt} {body : Block} {params : FieldList} (hopened : Tidies watched origin opened)
    (hwalked : Tidies watched opened app) (hwoven : Weaves opened stmts app body.stmts)
    (hparams : (opened.func? ref).map (·.params) = some params)
    (hscope : Tidy watched origin → watched ref → readsTransaction body.stmts = true →
      opened.isTraced ref = true ∧ InScope params body.stmts) :
    Tidies watched origin (app.setBody ref (some body)) := by
  have hlater := hopened.trans hwalked
  refine ⟨(outline_setBody ..).trans hlater.outline, fun hdiffer htidy => ?_⟩
  have hdifferOpened := placesDiffer_of_outline hopened.outline hdiffer
  have hgrows := hwoven.grows hdifferOpened
  refine Tidies.tidy ?_ (placesDiffer_of_outline hlater.outline hdiffer) (hlater.tidy hdiffer htidy)
  refine .modifyFunc (fun _ => rfl) fun func body' hfunc hbody hwatched _ _ hreads => ?_
  obtain rfl := Option.some.inj hbody
  obtain ⟨htraced, hscoped⟩ := hscope htidy hwatched hreads
  refine ⟨hgrows.isTraced ref htraced, ?_⟩
  -- the function was reached before, so that its parameters are what they were
  have hkept := hgrows.params_of_ref hdifferOpened (Grows.not_extends_of_isTraced htraced)
  rw [hparams, hfunc] at hkept
  have hlist : func.params = params := Option.some.inj hkept
  show InScope func.params body.stmts
  rw [hlist]
  exact hscoped

/-- A function that has been reached is traced, in an application that was tidy before. -/
theorem traceFunction_tidies {walk : Walk} (hwalk : walk.Scoped watched) (hweaves : walk.Weaves)
    {ref : FuncRef} {frame : Frame} {func : FuncDecl} {origin app : Application}
    (hsound : frame.Sound func.params.declared) (hbinds : frame.Binds)
    (hreached : Tidies watched origin app) (hfunc : app.func? ref = some func)
    (htraced : app.isTraced ref = true)
    (hfresh : Tidy watched origin → watched ref → ∀ body, func.body = some body →
      readsTransaction body.stmts = false) :
    Weave.wp (traceFunction walk ref frame) (fun _ app' => Tidies watched origin app') app := by
  unfold traceFunction Weave.withBody
  simp only [Weave.wp_bind, Weave.wp_get]
  split
  · exact hreached
  · next body hbody =>
    have hfuncBody : func.body = some body := by
      rw [Application.body?, hfunc] at hbody
      exact hbody
    have htracedOpened : (app.setBody ref none).isTraced ref = true := by
      rw [isTraced_setBody, htraced]
    have hparams := params_setBody app ref none ref
    rw [hfunc] at hparams
    have hopened := hreached.trans ((Tidies.takeBody app ref).trans (.noteEntered _ ref))
    simp only [Weave.wp_bind, Weave.wp_modify, Trace.wp_run]
    apply ((traceBody_scopes watched hwalk body frame _).and
      (traceBody_weaves hweaves body hbinds _)).mono
    rintro body' frame' app' ⟨⟨htidies, hreads⟩, stmts, rfl, hwoven⟩
    rw [Weave.wp_pure, Weave.wp_bind, Weave.wp_modify, Weave.wp_pure]
    refine hopened.putBack htidies hwoven hparams fun htidy hwatched hread => ⟨htracedOpened, ?_⟩
    rcases hreads _ hsound hread with hbefore | hdeclared | ⟨-, hfirst⟩
    · exact absurd (hbefore.symm.trans (hfresh htidy hwatched body hfuncBody)) (by simp)
    · exact .inl hdeclared
    · exact .inr hfirst

/-! ## Calls -/

theorem func?_applyTo (passing : Passing) (ref : FuncRef) (app : Application) :
    Application.func? (passing.applyTo ref app) ref = (app.func? ref).map fun func =>
      if passing.extended then { func with params := passing.params } else func := by
  unfold Passing.applyTo
  split
  · exact app.func?_modifyFunc ref _
  · simp

theorem Tidies.applyTo (passing : Passing) {ref : FuncRef} {app : Application}
    (htraced : app.isTraced ref = false) : Tidies watched app (passing.applyTo ref app) := by
  unfold Passing.applyTo
  split
  · have hmodified : Tidies watched app
        (app.modifyFunc ref fun func => { func with params := passing.params }) := by
      refine .modifyFunc (fun _ => rfl) fun func body hfunc hbody hwatched _ htidy hreads => ?_
      rw [htidy.fresh htraced hwatched hfunc hbody] at hreads
      contradiction
    exact hmodified.trans (.of_same rfl (fun _ => rfl) fun _ h => h)
  · exact .refl

theorem Tidies.addImports (passing : Passing) (caller : String) (ref : FuncRef)
    (app : Application) :
    Tidies watched app (passing.addImports caller ref app) := by
  unfold Passing.addImports
  dsimp only
  split
  · split
    · exact .trans (.needImport app caller _) (.needImport _ ref.package _)
    · exact .needImport app ref.package _
  · split
    · exact .needImport app caller _
    · exact .refl

theorem followCall_tidies {walk : Walk} (hwalk : walk.Scoped watched) (hweaves : walk.Weaves)
    (caller : Frame) (async : Bool) {call : Call} {ref : FuncRef} {passing : Passing}
    {app : Application} (hands : Hands app call ref passing) :
    Weave.wp (followCall walk caller async ref (app.mayInstrument ref) passing)
      (fun _ app' => Tidies watched app app') app := by
  obtain ⟨func, carrier, isAsync, txn, hfunc, hpassing⟩ := hands.passes
  have hreaches : Carrier.Reaches func.params passing := hpassing ▸ carrier.reaches ..
  unfold followCall
  simp only [Weave.wp_bind, Weave.wp_modify]
  cases hmay : app.mayInstrument ref with
  | false =>
      have hpasses := carrier.passes app.types func.params call isAsync (app.mayInstrument ref) txn
      rw [← hpassing, hmay] at hpasses
      have happly : passing.applyTo ref app = app := by
        simp [Passing.applyTo, hpasses.extended_eq_false]
      rw [happly]
      exact .addImports watched passing caller.package ref app
  | true =>
      have hfresh : app.isTraced ref = false := by
        rw [Application.mayInstrument_eq] at hmay
        simp_all
      simp only [if_true, Weave.wp_bind, Weave.wp_modify]
      have hreached : Tidies watched app ((passing.applyTo ref app).markTraced ref) :=
        (Tidies.applyTo watched passing hfresh).trans (.markTraced _ ref)
      have hfunc' : ((passing.applyTo ref app).markTraced ref).func? ref =
          some (if passing.extended then { func with params := passing.params } else func) := by
        rw [Application.func?_markTraced, func?_applyTo, hfunc, Option.map_some]
      have hparams : (if passing.extended then { func with params := passing.params }
          else func).params = passing.params := by
        have hlist := hreaches.params
        split at hlist
        · next h => rw [if_pos h]
        · next h => rw [if_neg h, hlist]
      have hbinds := childFrame_binds caller ref passing.child async
      refine (traceFunction_tidies watched hwalk hweaves ?_ hbinds hreached hfunc' ?_ ?_).mono
        fun _ app' h => h.trans (.addImports watched passing caller.package ref app')
      · rw [hparams]
        exact .childFrame hreaches.child
      · rw [Application.isTraced_markTraced, entry?_applyTo, isSome_entry?_of_mayInstrument hmay]
        simp
      · intro htidy hwatched body hbody
        refine htidy.fresh hfresh hwatched hfunc ?_
        split at hbody
        · exact hbody
        · exact hbody

theorem passCall_scopes {walk : Walk} (hwalk : walk.Scoped watched) (hweaves : walk.Weaves)
    (async : Bool) (call : Call) (advisories : List Advisory) (frame : Frame) (app : Application) :
    Advised.wp (passCall walk async call) (fun call' _ => Scopes watched
      (call.reads transactionVariable) frame app (call'.reads transactionVariable))
      advisories frame app := by
  apply wp_passCall (fun _ => .refl)
  intro ref carrier func passing haims hpassing
  apply (followCall_tidies watched hwalk hweaves frame async (hpassing ▸ haims.hands async)).mono
  intro _ app' htidies
  have hframe : frame.Continues { frame with used := frame.used || passing.usesTransaction } :=
    ⟨rfl, fun _ => rfl, fun _ => rfl, fun _ => rfl, fun hused => by simp [hused]⟩
  exact ((Scopes.refl.reframe hframe).tidy htidies).change fun _ =>
    gains_pass haims.carried app.types func.params call async (app.mayInstrument ref) hpassing

/-- What a visit of an expression accounts for. -/
def accounted : Visits (List Advisory × Frame × Application) := fun before after =>
  Scopes watched (before.1.reads transactionVariable) before.2.2.1 before.2.2.2
    (after.1.reads transactionVariable) after.2.2.1 after.2.2.2

theorem passCall_followsScopes {walk : Walk} (hwalk : walk.Scoped watched) (hweaves : walk.Weaves)
    (async : Bool) :
    (Edits.calls false (passCall walk async)).Follows Advised.threaded (accounted watched) := by
  constructor
  · intro call decs s
    left
    have hscopes := passCall_scopes watched hwalk hweaves async call s.1 s.2.1 s.2.2
    simp only [← ExprKind.reads_call] at hscopes
    exact hscopes
  · exact fun ident decs s => .inr rfl

variable {watched}

theorem scopes_of_visits {α : Type} {rewrites : Expr → Expr → α → α → Prop} (reads : α → Bool)
    (hrewrites : ∀ part part' a a' gain, rewrites part part' a a' →
      Gains gain (part.reads transactionVariable) (part'.reads transactionVariable) →
        Gains gain (reads a) (reads a'))
    {before after : α × List Advisory × Frame × Application}
    (steps : Steps rewrites (accounted watched) before after) :
    Scopes watched (reads before.1) before.2.2.1 before.2.2.2 (reads after.1) after.2.2.1
      after.2.2.2 := by
  induction steps with
  | refl => exact .refl
  | tail _ hstep ih =>
      rcases hstep with ⟨part, part', hscopes, hrewrite⟩
      exact ih.trans (hscopes.within fun gain => hrewrites part part' _ _ gain hrewrite)

variable (watched)

/-- `Scopes` on two statements. -/
abbrev StmtScopes (stmt : Stmt) (frame : Frame) (app : Application) (stmt' : Stmt)
    (frame' : Frame) (app' : Application) : Prop :=
  Scopes watched (stmt.kind.reads transactionVariable) frame app
    (stmt'.kind.reads transactionVariable) frame' app'

theorem passCalls_scopes {walk : Walk} (hwalk : walk.Scoped watched) (hweaves : walk.Weaves)
    (stmt : Stmt) (advisories : List Advisory) (frame : Frame) (app : Application) :
    Advised.wp (passCalls walk stmt) (fun stmt' _ => StmtScopes watched stmt frame app stmt')
      advisories frame app := by
  obtain ⟨kind, decs⟩ := stmt
  unfold passCalls
  split
  · next value hkind =>
    split
    · exact .refl
    · next call hcall =>
      obtain rfl : kind = .spawn ⟨.call call, value.decs⟩ := by
        rw [← eq_of_call? hcall]
        exact hkind
      -- the arguments first, then the call itself, which runs elsewhere
      have hargs : Advised.wp (call.args.mapM (·.edit (Edits.calls false (passCall walk false))))
          (fun args' _ => Scopes watched (call.reads transactionVariable) frame app
            (({ call with args := args' } : Call).reads transactionVariable)) advisories frame
          app := by
        have hsteps := editExprs_steps (passCall_followsScopes watched hwalk hweaves false)
          call.args (advisories, frame, app)
        rw [editExprs_eq_mapM] at hsteps
        refine (scopes_of_visits (readsInExprs transactionVariable) ?_ hsteps).within
          fun gain h => h.right _
        rintro part part' _ _ gain ⟨front, h⟩ hgains
        exact gains_within_exprs _ _ (h.reads hgains)
      rw [Advised.wp_bind]
      apply hargs.mono
      intro args' advisories' frame' app' hargs
      rw [Advised.wp_bind]
      apply (passCall_scopes watched hwalk hweaves true { call with args := args' } advisories'
        frame' app').mono
      intro call' advisories'' frame'' app'' hcall'
      have hscopes := hargs.trans hcall'
      simp only [← ExprKind.reads_call] at hscopes
      exact hscopes
  · have hsteps := kind.edit_steps (passCall_followsScopes watched hwalk hweaves false) .own
      (advisories, frame, app)
    exact scopes_of_visits (·.reads transactionVariable)
      (fun _ _ _ _ _ h hgains => h.reads hgains) hsteps

theorem attachAll_scopes (advisories : List Advisory) (stmt : Stmt) (frame : Frame)
    (app : Application) :
    Trace.wp (advisories.foldlM (fun stmt advisory => Trace.attach advisory stmt) stmt)
      (StmtScopes watched stmt frame app) frame app := by
  induction advisories generalizing stmt app with
  | nil => exact .refl
  | cons advisory advisories ih =>
      rw [List.foldlM_cons, Trace.wp_bind]
      refine Trace.wp_attach fun decs console _ => ?_
      apply (ih { stmt with decs } { app with console }).mono
      exact fun stmt' frame' app' h => (Scopes.refl.tidy (.console app console)).trans h

theorem passAndAdvise_scopes {walk : Walk} (hwalk : walk.Scoped watched) (hweaves : walk.Weaves)
    (cursor : Cursor) (frame : Frame) (app : Application) :
    Trace.wp (passAndAdvise walk cursor) (CursorScopes watched cursor frame app) frame app := by
  unfold passAndAdvise
  rw [Trace.wp_bind]
  apply Trace.wp.mono (passCalls_scopes watched hwalk hweaves cursor.current [] frame app)
  intro result frame' app' h
  rw [Trace.wp_bind]
  apply (attachAll_scopes watched result.2 result.1 frame' app').mono
  intro stmt frame'' app'' h'
  refine (h.trans h').within fun gain hgains => ?_
  rw [reads_toList, reads_toList]
  exact (hgains.left _).right _

theorem startOwnTransaction_scopes (name : String) (cursor : Cursor) {frame : Frame}
    (app : Application) (hmain : frame.inMain = true) :
    Trace.wp (startOwnTransaction name cursor) (CursorScopes watched cursor frame app) frame
      app := by
  have hdeclared := Frame.Continues.declare frame transactionVariable
  exact .of_inMain hmain .refl
    (hdeclared.trans (.startTransaction (hdeclared.inMain.trans hmain) transactionVariable))

theorem traceCalls_scopes {walk : Walk} (hwalk : walk.Scoped watched) (hweaves : walk.Weaves)
    (cursor : Cursor) (frame : Frame) (app : Application) :
    Trace.wp (traceCalls walk cursor) (fun result frame' app' =>
      CursorScopes watched cursor frame app result.1 frame' app' ∧
        (result.2 = true → frame.inMain = true)) frame app := by
  unfold traceCalls
  simp only [Trace.wp_bind, Trace.wp_get, Trace.wp_app]
  split
  · exact ⟨.refl, nofun⟩
  · split
    · rw [Trace.wp_bind]
      refine Trace.wp_attach fun decs console _ => ?_
      exact ⟨(Scopes.refl.dress decs).tidy (.console app console), nofun⟩
    · split
      · next hstarts =>
        have hmain := (Bool.and_eq_true_iff.1 hstarts).1
        split
        · exact ⟨.refl, nofun⟩
        · split
          · exact ⟨.refl, nofun⟩
          · next ref _ =>
            rw [Trace.wp_bind]
            apply (startOwnTransaction_scopes watched ref.key cursor app hmain).mono
            intro cursor' frame' app' h
            rw [Trace.wp_bind]
            apply (passAndAdvise_scopes watched hwalk hweaves cursor' frame' app').mono
            exact fun cursor'' frame'' app'' h' => ⟨h.trans h', fun _ => hmain⟩
      · rw [Trace.wp_bind]
        apply (passAndAdvise_scopes watched hwalk hweaves cursor frame app).mono
        exact fun cursor' frame' app' h => ⟨h, nofun⟩

/-! ## Goroutines -/

theorem mem_declared_of_transactionParam? {info : Info} {params : FieldList} {name : String}
    (h : transactionParam? info params = some name) : name ∈ params.declared := by
  rcases List.exists_of_findSome?_eq_some h with ⟨⟨ident?, type⟩, hmem, hsome⟩
  rcases Option.bind_eq_some_iff.1 hsome with ⟨ident, rfl, hname⟩
  split at hname
  · obtain rfl := Option.some.inj hname
    exact mem_declared_of_params hmem
  · contradiction

theorem SpawnedLiteral.reads_kind (literal : SpawnedLiteral) :
    literal.kind.reads transactionVariable =
      ((!literal.params.declared.contains transactionVariable &&
        readsTransaction literal.body.stmts) ||
          readsInExprs transactionVariable literal.call.args) := by
  obtain ⟨value, ⟨callee, args, spread, closesLine⟩, params, results, ⟨stmts, trailing, inline⟩⟩ :=
    literal
  rfl

/-- A literal has a parameter for its transaction then, which the call supplies. -/
theorem handTransaction_scopes (literal : SpawnedLiteral) (frame : Frame) (app : Application) :
    Trace.wp (handTransaction literal) (fun result frame' app' => Tidies watched app app' ∧
      frame.Continues frame' ∧ ∀ literal' name, result = some (literal', name) →
        name ∈ literal'.params.declared ∧ Gains frame'.Reads
          (literal.kind.reads transactionVariable) (literal'.kind.reads transactionVariable))
      frame app := by
  unfold handTransaction
  simp only [Trace.wp_bind, Trace.wp_types]
  split
  · next name hname =>
    refine ⟨.refl, .refl, fun literal' name' h => ?_⟩
    cases h
    exact ⟨mem_declared_of_transactionParam? hname, .refl⟩
  · simp only [Trace.transaction, Trace.wp_bind, Trace.wp_modifyGet]
    split
    · exact ⟨.refl, .transaction frame, fun _ _ h => by cases h⟩
    · next txn htxn =>
      simp only [Trace.wp_bind, Trace.wp_needImport, Trace.wp_pure]
      refine ⟨.needImport .., .transaction frame, fun literal' name' h => ?_⟩
      cases h
      refine ⟨mem_declared_added literal.params, fun hreads => ?_⟩
      -- the new parameter hides the variable from the body
      have hadded := mem_declared_added literal.params
      rw [SpawnedLiteral.reads_kind] at hreads ⊢
      simp only [List.contains_eq_mem, hadded, decide_true, Bool.not_true, Bool.false_and,
        Bool.false_or, readsInExprs_addArg, Bool.or_eq_true] at hreads
      rcases hreads with hargs | hparent
      · exact .inl (by rw [hargs, Bool.or_true])
      · exact .inr (reads_transaction htxn (by simpa [newGoroutine, methodCall] using hparent))

theorem traceLiteral_scopes {walk : Walk} (hwalk : walk.Scoped watched) (cursor : Cursor)
    (frame : Frame) (app : Application) :
    Trace.wp (traceLiteral walk cursor) (CursorScopes watched cursor frame app) frame app := by
  unfold traceLiteral
  split
  · exact .refl
  · next literal hliteral =>
    simp only [Trace.wp_bind, Trace.wp_get]
    split
    · rw [Trace.wp_bind]
      refine Trace.wp_attach fun decs console _ => ?_
      exact (Scopes.refl.dress decs).tidy (.console app console)
    · split
      · exact .refl
      · rw [Trace.wp_bind]
        apply (handTransaction_scopes watched literal frame app).mono
        rintro result frame' app' ⟨htidies, hframe, hhanded⟩
        have hused : CursorScopes watched cursor frame app cursor frame' app' :=
          (Scopes.refl.tidy htidies).reframe hframe
        split
        · exact hused
        · next literal' name =>
          obtain ⟨hdeclared, hgains⟩ := hhanded literal' name rfl
          simp only [Trace.wp_bind, Trace.wp_lift, Trace.wp_run]
          apply (traceBody_scopes watched hwalk literal'.body _ app').mono
          rintro body _ app'' ⟨htidies', hreads⟩
          rw [Trace.wp_pure]
          have hsound : Frame.Sound literal'.params.declared
              { Frame.traced frame.package frame.agent (.transaction name) transactionVariable with
                segment := some "async literal" } :=
            ⟨rfl, nofun, fun _ hname => .inl (hname ▸ hdeclared), nofun⟩
          refine (hused.tidy htidies').replace fun _ => ?_
          rw [kind_of_spawnedLiteral? hliteral]
          refine hgains.trans ?_
          rw [SpawnedLiteral.reads_kind, SpawnedLiteral.reads_kind]
          refine Gains.left ?_ _
          intro hread
          left
          -- a parameter that hides the variable hides it behind the walk, too
          simp only [Bool.and_eq_true, Bool.not_eq_true', List.contains_eq_mem,
            decide_eq_false_iff_not] at hread ⊢
          refine ⟨hread.1, ?_⟩
          rcases hreads _ hsound hread.2 with hbefore | hname | ⟨hpending, -⟩
          · exact hbefore
          · exact absurd hname hread.1
          · contradiction

/-! ## Statements -/

theorem editBlocks_scopes {walk : Walk} (hwalk : walk.Scoped watched) (stmt : Stmt) (frame : Frame)
    (app : Application) :
    Trace.wp (stmt.editBlocks walk) (StmtScopes watched stmt frame app) frame app := by
  obtain ⟨kind, decs⟩ := stmt
  have hscopes : ∀ after, BlockSteps Trace.threaded walk (kind, frame, app) after →
      StmtScopes watched ⟨kind, decs⟩ frame app ⟨after.1, decs⟩ after.2.1 after.2.2 := by
    intro after steps
    induction steps with
    | refl => exact .refl
    | @tail before after _ hstep ih =>
        obtain ⟨stmts, hreplaces, hstate⟩ := hstep
        have hstmts := hwalk stmts before.2.1 before.2.2
        rw [hstate]
        exact ih.trans (hstmts.within fun gain hgains => hreplaces.reads hgains)
  exact hscopes _ (kind.editBlocks_steps (frame, app))

theorem statementDetectors_scopes {walk : Walk} (hwalk : walk.Scoped watched) :
    ∀ detector ∈ statementDetectors walk, ∀ cursor frame app,
      Trace.wp (detector.detect cursor) (CursorScopes watched cursor frame app) frame app := by
  intro detector hdetector cursor frame app
  simp only [statementDetectors, List.mem_cons, List.not_mem_nil, or_false] at hdetector
  rcases hdetector with rfl | rfl | rfl | rfl | rfl | rfl | rfl
  · exact traceLiteral_scopes watched hwalk cursor frame app
  · exact wrapRegistration_scopes watched cursor frame app
  · exact traceRequest_scopes watched cursor frame app
  · exact installMiddleware_scopes watched cursor frame app
  · exact interceptServers_scopes watched cursor frame app
  · exact wrapHandlers_scopes watched cursor frame app
  · exact traceQuery_scopes watched cursor frame app

theorem foldlM_scopes (detectors : List StatementDetector)
    (hscopes : ∀ detector ∈ detectors, ∀ cursor frame app,
      Trace.wp (detector.detect cursor) (CursorScopes watched cursor frame app) frame app)
    (cursor : Cursor) (frame : Frame) (app : Application) :
    Trace.wp (detectors.foldlM (fun cursor detector => detector.detect cursor) cursor)
      (CursorScopes watched cursor frame app) frame app := by
  induction detectors generalizing cursor frame app with
  | nil => exact .refl
  | cons detector detectors ih =>
      rw [List.foldlM_cons, Trace.wp_bind]
      apply (hscopes detector (by simp) cursor frame app).mono
      intro cursor' frame' app' h
      apply (ih (fun detector hmem => hscopes detector (by simp [hmem])) cursor' frame' app').mono
      exact fun cursor'' frame'' app'' h' => h.trans h'

theorem continues_followTransaction (stmt : Stmt) {frame : Frame} (hmain : frame.inMain = true) :
    frame.Continues (followTransaction stmt frame) := by
  unfold followTransaction
  split
  · split
    · split
      · exact .startTransaction hmain _
      · exact .refl
    · exact .refl
  · dsimp only
    split
    · exact .endTransaction hmain
    · exact .refl
  · exact .refl

theorem finishVisit_scopes {walk : Walk} (hwalk : walk.Scoped watched) (started : Bool)
    (cursor : Cursor) (frame : Frame) (app : Application)
    (hstarted : started = true → frame.inMain = true) :
    Trace.wp (finishVisit walk started cursor) (CursorScopes watched cursor frame app) frame
      app := by
  unfold finishVisit
  rw [Trace.wp_bind]
  apply (foldlM_scopes watched _ (statementDetectors_scopes watched hwalk) cursor frame app).mono
  intro cursor' frame' app' hdetected
  rw [Trace.wp_bind]
  apply (editBlocks_scopes watched hwalk cursor'.current frame' app').mono
  intro stmt frame'' app'' hedited
  simp only [Trace.wp_bind, Trace.wp_modify, Trace.wp_pure]
  have hwalked : CursorScopes watched cursor frame app (cursor'.replace stmt) frame'' app'' := by
    refine hdetected.trans (hedited.within fun gain hgains => ?_)
    rw [reads_toList, reads_toList]
    exact (hgains.left _).right _
  have hdeclared := Frame.Continues.declareStmt frame'' stmt
  refine (hwalked.reframe hdeclared).reframe ?_
  have hinMain := (hwalked.reframe hdeclared).continues.inMain
  split
  · next h => exact .endTransaction (hinMain.trans (hstarted h))
  · split
    · next hmain => exact continues_followTransaction stmt hmain
    · exact .refl

theorem visit_scopes {walk : Walk} (hwalk : walk.Scoped watched) (hweaves : walk.Weaves)
    (cursor : Cursor) (frame : Frame) (app : Application) :
    Trace.wp (visit walk cursor) (CursorScopes watched cursor frame app) frame app := by
  unfold visit
  rw [Trace.wp_bind]
  apply (traceCalls_scopes watched hwalk hweaves cursor frame app).mono
  rintro ⟨cursor', started⟩ frame' app' ⟨hcalls, hstarted⟩
  simp only [Trace.wp_bind, Trace.wp_get]
  split
  · rw [Trace.wp_bind]
    apply (noticeErrors_scopes watched cursor' frame' app').mono
    intro cursor'' frame'' app'' hnoticed
    have hmain : started = true → frame''.inMain = true := fun h =>
      (hcalls.trans hnoticed).continues.inMain.trans (hstarted h)
    apply (finishVisit_scopes watched hwalk started cursor'' frame'' app'' hmain).mono
    exact fun _ _ _ hrest => hcalls.trans (hnoticed.trans hrest)
  · rw [Trace.wp_bind, Trace.wp_pure]
    have hmain : started = true → frame'.inMain = true := fun h =>
      hcalls.continues.inMain.trans (hstarted h)
    apply (finishVisit_scopes watched hwalk started cursor' frame' app' hmain).mono
    exact fun _ _ _ hrest => hcalls.trans hrest

/-! ## Lists -/

theorem walkBlock_scoped (depth : Nat) : (walkBlock depth).Scoped watched := by
  induction depth with
  | zero => exact fun stmts frame app => .refl
  | succ depth ih =>
      intro stmts frame app
      have hwalk : Trace.wp (walkList (stmts.length + 1) (visit (walkBlock depth)) stmts)
          (fun stmts' => Scopes watched (readsTransaction stmts) frame.pushScope app
            (readsTransaction stmts')) frame.pushScope app :=
        walkFrom_preserves Trace.threaded (R := fun x y =>
            Scopes watched (readsTransaction x.1) x.2.1 x.2.2 (readsTransaction y.1) y.2.1 y.2.2)
          (fun _ => .refl) (fun h h' => h.trans h')
          (fun cursor s => visit_scopes watched ih (walkBlock_weaves depth) cursor s.1 s.2)
          (stmts.length + 1) [] stmts (frame.pushScope, app)
      simp only [walkBlock, Trace.wp_bind, Trace.wp_modify]
      apply hwalk.mono
      intro stmts' frame' app' h
      simp only [Trace.wp_bind, Trace.wp_modify, Trace.wp_pure]
      exact ((Scopes.refl.reframe (.pushScope frame)).trans h).reframe (.popScope frame')

end TraceWeave.Tracing
