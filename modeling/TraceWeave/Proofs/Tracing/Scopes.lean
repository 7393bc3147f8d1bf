import TraceWeave.Proofs.Syntax.Reads
import TraceWeave.Proofs.Tracing.Growth
import TraceWeave.Proofs.Tracing.Walk

/-!
Where the variable of the transaction is read.

`Scopes` compares what is read in front of a change and behind it: the variable was read
already, or the frame accounts for it, since it has used its transaction or its carrier is
the variable.  The entry function, whose statements start transactions themselves, is left
out.  `Tidies` says that all functions that are watched keep the variable in scope.
-/

namespace TraceWeave.Tracing

open TraceWeave.Agent TraceWeave.Detect TraceWeave.Program TraceWeave.Syntax TraceWeave.Types

/-! ## Applications -/

/-- The statement binds the variable of the transaction. -/
def bindsTransaction (stmt : Stmt) : Bool :=
  match stmt.kind with
  | .assign [target] .define _ => target.isIdent transactionVariable
  | _ => false

def bindsFirst (stmts : List Stmt) : Bool := stmts.head?.any bindsTransaction

/-- The statements read the variable of the transaction. -/
abbrev readsTransaction (stmts : List Stmt) : Bool := readsInStmts transactionVariable stmts

/-- The body of a function binds the variable, or a parameter does. -/
def InScope (params : FieldList) (stmts : List Stmt) : Prop :=
  transactionVariable ∈ params.declared ∨ bindsFirst stmts = true

/--
Of the functions that are watched, only those that tracing has reached read the variable,
and these have it in scope.
-/
def Tidy (watched : FuncRef → Prop) (app : Application) : Prop :=
  ∀ ref func body, watched ref → app.func? ref = some func → func.body = some body →
    readsTransaction body.stmts = true →
      app.isTraced ref = true ∧ InScope func.params body.stmts

structure Tidies (watched : FuncRef → Prop) (app app' : Application) : Prop where
  outline : app'.outline = app.outline
  tidy : app.PlacesDiffer → Tidy watched app → Tidy watched app'

namespace Tidies

variable {watched : FuncRef → Prop} {app app' app'' : Application}

theorem refl : Tidies watched app app := ⟨rfl, fun _ h => h⟩

theorem trans (h : Tidies watched app app') (h' : Tidies watched app' app'') :
    Tidies watched app app'' :=
  ⟨h'.outline.trans h.outline, fun hdiffer htidy =>
    h'.tidy (placesDiffer_of_outline h.outline hdiffer) (h.tidy hdiffer htidy)⟩

/-- A change that no function shows, save that more of them are reached. -/
theorem of_same (houtline : app'.outline = app.outline)
    (hfunc : ∀ ref, app'.func? ref = app.func? ref)
    (htraced : ∀ ref, app.isTraced ref = true → app'.isTraced ref = true) :
    Tidies watched app app' := by
  refine ⟨houtline, fun _ htidy ref func body hwatched hsome hbody hreads => ?_⟩
  rw [hfunc] at hsome
  exact (htidy ref func body hwatched hsome hbody hreads).imp_left (htraced ref)

theorem needImport (app : Application) (id path : String) :
    Tidies watched app (app.needImport id path) :=
  of_same (app.outline_needImport id path)
    (fun ref => by
      rw [Application.func?_eq, Application.func?_eq, Application.place?_needImport]
      exact congrArg _ (funext (app.funcAt?_needImport id path)))
    (fun ref => by simp)

theorem console (app : Application) (console : Console) : Tidies watched app { app with console } :=
  of_same rfl (fun _ => rfl) (fun _ h => h)

theorem noteEntered (app : Application) (ref : FuncRef) :
    Tidies watched app (app.noteEntered ref) :=
  of_same rfl (fun _ => rfl) (fun _ h => h)

theorem markTraced (app : Application) (ref : FuncRef) : Tidies watched app (app.markTraced ref) :=
  of_same (app.outline_markTraced ref) (fun other => by simp)
    (fun other h => by simp [Application.isTraced_markTraced, h])

/-- A change of one function whose body, if it has one then, has the variable in scope. -/
theorem modifyFunc {ref : FuncRef} {f : FuncDecl → FuncDecl}
    (hf : ∀ func, (f func).outline = func.outline)
    (hscope : ∀ func body, app.func? ref = some func → (f func).body = some body →
      watched ref → app.PlacesDiffer → Tidy watched app → readsTransaction body.stmts = true →
        app.isTraced ref = true ∧ InScope (f func).params body.stmts) :
    Tidies watched app (app.modifyFunc ref f) := by
  refine ⟨app.outline_modifyFunc ref hf, ?_⟩
  intro hdiffer htidy other func body hwatched hfunc hbody hreads
  rw [Application.isTraced_modifyFunc]
  by_cases hother : other = ref
  · subst hother
    rw [Application.func?_modifyFunc] at hfunc
    obtain ⟨before, hbefore, rfl⟩ := Option.map_eq_some_iff.1 hfunc
    exact hscope before body hbefore hbody hwatched hdiffer htidy hreads
  · have hsame : (app.modifyFunc ref f).func? other = app.func? other := by
      simp only [Application.func?_eq, Application.place?_modifyFunc]
      cases hplace : app.place? other with
      | none => rfl
      | some place =>
          have hne : app.place? ref ≠ some place := fun hplace' =>
            hother (hdiffer other ref place hplace hplace')
          simp [Application.funcAt?_modifyFunc, hne]
    rw [hsame] at hfunc
    exact htidy other func body hwatched hfunc hbody hreads

/-- A body that is taken out. -/
theorem takeBody (app : Application) (ref : FuncRef) :
    Tidies watched app (app.setBody ref none) :=
  modifyFunc (fun _ => rfl) fun _ _ _ hbody => nomatch hbody

end Tidies

/-! ## Frames -/

namespace Frame

/-- The carrier itself, as far as it is handed on. -/
def sources (frame : Frame) : List String :=
  match frame.carrier with
  | some (.context name) => [name]
  | some (.stream name _) => [name]
  | _ => []

/-- Statements of the frame may read the variable of the transaction by now. -/
def Reads (frame : Frame) : Prop :=
  frame.hasTransaction = true ∧
    ((frame.used = true ∧ frame.txn = transactionVariable) ∨ transactionVariable ∈ frame.sources)

/-- Outside of the entry function, a frame only comes to use its transaction. -/
structure Continues (frame frame' : Frame) : Prop where
  inMain : frame'.inMain = frame.inMain
  carrier : frame.inMain = false → frame'.carrier = frame.carrier
  txn : frame.inMain = false → frame'.txn = frame.txn
  pending : frame.inMain = false → frame'.pending = frame.pending
  used : frame.used = true → frame'.used = true

namespace Continues

variable {frame frame' frame'' : Frame}

theorem refl : frame.Continues frame := ⟨rfl, fun _ => rfl, fun _ => rfl, fun _ => rfl, id⟩

theorem trans (h : frame.Continues frame') (h' : frame'.Continues frame'') :
    frame.Continues frame'' where
  inMain := h'.inMain.trans h.inMain
  carrier hmain := (h'.carrier (h.inMain.trans hmain)).trans (h.carrier hmain)
  txn hmain := (h'.txn (h.inMain.trans hmain)).trans (h.txn hmain)
  pending hmain := (h'.pending (h.inMain.trans hmain)).trans (h.pending hmain)
  used := fun hused => h'.used (h.used hused)

/-- In the entry function, all but its kind may change. -/
theorem of_inMain (hmain : frame.inMain = true) (hsame : frame'.inMain = true)
    (hused : frame.used = true → frame'.used = true) : frame.Continues frame' where
  inMain := hsame.trans hmain.symm
  carrier h := absurd (hmain.symm.trans h) (by simp)
  txn h := absurd (hmain.symm.trans h) (by simp)
  pending h := absurd (hmain.symm.trans h) (by simp)
  used := hused

theorem reads (h : frame.Continues frame') (hmain : frame.inMain = false) (hreads : frame.Reads) :
    frame'.Reads := by
  obtain ⟨htransaction, hreads⟩ := hreads
  unfold Frame.Reads Frame.hasTransaction Frame.sources at *
  rw [h.carrier hmain, h.txn hmain]
  exact ⟨htransaction, hreads.imp_left fun hused => ⟨h.used hused.1, hused.2⟩⟩

theorem transaction (frame : Frame) : frame.Continues frame.transaction.2 := by
  unfold Frame.transaction
  split
  · exact ⟨rfl, fun _ => rfl, fun _ => rfl, fun _ => rfl, fun _ => rfl⟩
  · exact .refl

theorem application (frame : Frame) : frame.Continues frame.application.2 := by
  unfold Frame.application
  split
  · exact .refl
  · split
    · exact ⟨rfl, fun _ => rfl, fun _ => rfl, fun _ => rfl, fun _ => rfl⟩
    · exact .refl

theorem declare (frame : Frame) (name : String) : frame.Continues (frame.declare name) := by
  unfold Frame.declare
  split
  · exact .refl
  · exact ⟨rfl, fun _ => rfl, fun _ => rfl, fun _ => rfl, id⟩

theorem declareStmt (frame : Frame) (stmt : Stmt) : frame.Continues (frame.declareStmt stmt) := by
  unfold Frame.declareStmt
  split
  · next left right _ =>
    generalize (left.filterMap Expr.ident?).filter (!·.isBlank) = idents
    induction idents generalizing frame with
    | nil => exact .refl
    | cons ident idents ih => exact (declare frame ident.name).trans (ih _)
  · exact .refl

theorem startTransaction {frame : Frame} (hmain : frame.inMain = true) (name : String) :
    frame.Continues (frame.startTransaction name) := of_inMain hmain hmain id

theorem endTransaction {frame : Frame} (hmain : frame.inMain = true) :
    frame.Continues frame.endTransaction := of_inMain hmain hmain id

theorem pushScope (frame : Frame) : frame.Continues frame.pushScope :=
  ⟨rfl, fun _ => rfl, fun _ => rfl, fun _ => rfl, id⟩

theorem popScope (frame : Frame) : frame.Continues frame.popScope := by
  unfold Frame.popScope
  split
  · exact ⟨rfl, fun _ => rfl, fun _ => rfl, fun _ => rfl, id⟩
  · exact .refl

end Continues

end Frame

theorem reads_transaction {frame : Frame} {txn : Expr} (h : frame.transaction.1 = some txn)
    (hreads : txn.reads transactionVariable = true) : frame.transaction.2.Reads := by
  rw [transaction_isVariable h, Expr.reads_ident, beq_iff_eq] at hreads
  unfold Frame.transaction at h ⊢
  split at h
  · next htransaction =>
    rw [if_pos htransaction]
    exact ⟨htransaction, .inl ⟨rfl, hreads⟩⟩
  · contradiction

theorem reads_application {frame : Frame} {agent : Expr} (hmain : frame.inMain = false)
    (h : frame.application.1 = some agent) (hreads : agent.reads transactionVariable = true) :
    frame.application.2.Reads := by
  unfold Frame.application at h ⊢
  simp only [hmain, Bool.false_eq_true, if_false] at h ⊢
  split at h
  · next htransaction =>
    obtain rfl := Option.some.inj h
    rw [if_pos htransaction]
    refine ⟨htransaction, .inl ⟨rfl, ?_⟩⟩
    simpa [transactionApplication, methodCall] using hreads
  · contradiction

/-! ## Changes -/

/-- What is read of the variable in front of a change and behind it. -/
structure Scopes (watched : FuncRef → Prop) (before : Bool) (frame : Frame) (app : Application)
    (after : Bool) (frame' : Frame) (app' : Application) : Prop where
  tidies : Tidies watched app app'
  continues : frame.Continues frame'
  reads : frame.inMain = false → Gains frame'.Reads before after

namespace Scopes

variable {watched : FuncRef → Prop} {before after last : Bool} {frame frame' frame'' : Frame}
  {app app' app'' : Application}

theorem refl : Scopes watched before frame app before frame app := ⟨.refl, .refl, fun _ => .refl⟩

theorem trans (h : Scopes watched before frame app after frame' app')
    (h' : Scopes watched after frame' app' last frame'' app'') :
    Scopes watched before frame app last frame'' app'' := by
  refine ⟨h.tidies.trans h'.tidies, h.continues.trans h'.continues, fun hmain => ?_⟩
  have hmain' := h.continues.inMain.trans hmain
  exact ((h.reads hmain).mono (h'.continues.reads hmain')).trans (h'.reads hmain')

theorem reframe (h : Scopes watched before frame app after frame' app')
    (hframe : frame'.Continues frame'') : Scopes watched before frame app after frame'' app' :=
  ⟨h.tidies, h.continues.trans hframe,
    fun hmain => (h.reads hmain).mono (hframe.reads (h.continues.inMain.trans hmain))⟩

theorem tidy (h : Scopes watched before frame app after frame' app')
    (htidies : Tidies watched app' app'') : Scopes watched before frame app after frame' app'' :=
  ⟨h.tidies.trans htidies, h.continues, h.reads⟩

/-- In the entry function, what is read does not matter. -/
theorem of_inMain (hmain : frame.inMain = true) (htidies : Tidies watched app app')
    (hcontinues : frame.Continues frame') : Scopes watched before frame app after frame' app' :=
  ⟨htidies, hcontinues, fun h => absurd (hmain.symm.trans h) (by simp)⟩

/-- One more change, which the frame accounts for. -/
theorem change (h : Scopes watched before frame app after frame' app')
    (hreads : frame'.inMain = false → Gains frame'.Reads after last) :
    Scopes watched before frame app last frame' app' :=
  ⟨h.tidies, h.continues,
    fun hmain => (h.reads hmain).trans (hreads (h.continues.inMain.trans hmain))⟩

/-- What surrounds a change gains as much as what is changed. -/
theorem within {whole whole' : Bool} (h : Scopes watched before frame app after frame' app')
    (hwhole : ∀ gain, Gains gain before after → Gains gain whole whole') :
    Scopes watched whole frame app whole' frame' app' :=
  ⟨h.tidies, h.continues, fun hmain => hwhole _ (h.reads hmain)⟩

end Scopes

/-- `Scopes` on the lists of two cursors. -/
abbrev CursorScopes (watched : FuncRef → Prop) (cursor : Cursor) (frame : Frame)
    (app : Application) (cursor' : Cursor) (frame' : Frame) (app' : Application) : Prop :=
  Scopes watched (readsTransaction cursor.toList) frame app (readsTransaction cursor'.toList) frame'
    app'

theorem reads_toList (cursor : Cursor) :
    readsTransaction cursor.toList =
      (readsTransaction cursor.before.reverse || (cursor.current.kind.reads transactionVariable ||
        (readsTransaction cursor.after || readsTransaction cursor.rest))) := by
  simp [readsInStmts_eq_any, Cursor.toList_eq]

theorem reads_of_current {cursor : Cursor}
    (h : cursor.current.kind.reads transactionVariable = true) :
    readsTransaction cursor.toList = true := by
  simp [reads_toList, h]

namespace Scopes

variable {watched : FuncRef → Prop} {before : Bool} {cursor : Cursor} {frame frame' : Frame}
  {app app' : Application}
  (h : Scopes watched before frame app (readsTransaction cursor.toList) frame' app')

include h

theorem replace {stmt : Stmt}
    (hstmt : frame'.inMain = false → Gains frame'.Reads
      (cursor.current.kind.reads transactionVariable) (stmt.kind.reads transactionVariable)) :
    Scopes watched before frame app (readsTransaction (cursor.replace stmt).toList) frame'
      app' := by
  refine h.change fun hmain => ?_
  rw [reads_toList, reads_toList]
  exact ((hstmt hmain).left _).right _

/-- New decorations of the current statement. -/
theorem dress (decs : Decorations) :
    Scopes watched before frame app
      (readsTransaction (cursor.replace { cursor.current with decs }).toList) frame' app' :=
  h.replace fun _ => .refl

theorem insertBefore {stmt : Stmt}
    (hstmt : frame'.inMain = false → stmt.kind.reads transactionVariable = true →
      readsTransaction cursor.toList = true ∨ frame'.Reads) :
    Scopes watched before frame app (readsTransaction (cursor.insertBefore stmt).toList) frame'
      app' := by
  refine h.change fun hmain hreads => ?_
  have hor : stmt.kind.reads transactionVariable = true ∨
      readsTransaction cursor.toList = true := by
    simpa [readsInStmts_eq_any, Cursor.toList_eq, Cursor.insertBefore, or_comm, or_left_comm,
      or_assoc] using hreads
  exact hor.elim (hstmt hmain) .inl

/-- A new statement takes over the band above the current one. -/
theorem precede {first : Stmt}
    (hfirst : frame'.inMain = false → first.kind.reads transactionVariable = true →
      readsTransaction cursor.toList = true ∨ frame'.Reads) (decs : Decorations) :
    Scopes watched before frame app (readsTransaction
      ((cursor.replace { cursor.current with decs }).insertBefore first).toList) frame' app' :=
  (h.insertBefore hfirst).dress decs

/-- The first of two statements around the current one. -/
theorem surround {first : Stmt}
    (hfirst : frame'.inMain = false → first.kind.reads transactionVariable = true →
      readsTransaction cursor.toList = true ∨ frame'.Reads) (last : Stmt) :
    Scopes watched before frame app (readsTransaction
      ((cursor.replace (Agent.surround first cursor.current last).2.1).insertBefore
        (Agent.surround first cursor.current last).1).toList) frame' app' := by
  have hsurrounding : frame'.inMain = false →
      (Agent.surround first cursor.current last).1.kind.reads transactionVariable = true →
        readsTransaction cursor.toList = true ∨ frame'.Reads := hfirst
  exact h.precede hsurrounding _

theorem insertAfter {stmt : Stmt}
    (hstmt : frame'.inMain = false → stmt.kind.reads transactionVariable = true →
      readsTransaction cursor.toList = true ∨ frame'.Reads) :
    Scopes watched before frame app (readsTransaction (cursor.insertAfter stmt).toList) frame'
      app' := by
  refine h.change fun hmain hreads => ?_
  have hor : stmt.kind.reads transactionVariable = true ∨
      readsTransaction cursor.toList = true := by
    simpa [readsInStmts_eq_any, Cursor.toList_eq, Cursor.insertAfter, or_comm, or_left_comm,
      or_assoc] using hreads
  exact hor.elim (hstmt hmain) .inl

/-- A change of the statements behind. -/
theorem retail {rest : List Stmt}
    (hrest : frame'.inMain = false → readsTransaction rest = true →
      readsTransaction cursor.toList = true ∨ frame'.Reads) :
    Scopes watched before frame app (readsTransaction ({ cursor with rest } : Cursor).toList) frame'
      app' := by
  refine h.change fun hmain hreads => ?_
  simp only [reads_toList, Bool.or_eq_true] at hreads
  rcases hreads with hreads | hreads | hreads | hreads
  · exact .inl (by simp [reads_toList, hreads])
  · exact .inl (by simp [reads_toList, hreads])
  · exact .inl (by simp [reads_toList, hreads])
  · exact hrest hmain hreads

end Scopes

end TraceWeave.Tracing
