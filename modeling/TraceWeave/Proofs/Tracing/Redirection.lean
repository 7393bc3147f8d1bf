import TraceWeave.Proofs.Tracing.Runs
import TraceWeave.Proofs.Types.Renaming
import TraceWeave.Proofs.Types.Invariants
import TraceWeave.Proofs.Types.Shadowing

/-!
Handlers that later statements use through their wrappers.

When the handler of a variable is wrapped, the statements behind it use the wrapper.  They are
redirected by the spelling of the variable: every identifier that name resolution links to it is
found, and as long as none of the statements declares the name anew, no other one is
(`wrapHandlers_redirects`).
-/

namespace TraceWeave.Tracing

open TraceWeave.Agent TraceWeave.Detect TraceWeave.Program TraceWeave.Syntax TraceWeave.Types

/--
Renames the chosen identifiers.  As in all edits, declarations, the keys and values of range
clauses and the types of composite literals stay as they are.
-/
def redirect (chosen : Ident → Bool) (target : String) (stmts : List Stmt) : List Stmt :=
  Id.run (editStmts (Edits.idents fun ident =>
    pure (if chosen ident then { ident with name := target } else ident)) stmts)

/-- The identifier stands for the variable. -/
def isLinkedTo (info : Info) (handler ident : Ident) : Bool :=
  info.objectId? ident == info.objectId? handler

theorem redirect_congr {chosen chosen' : Ident → Bool} {stmts : List Stmt} (target : String)
    (h : ∀ ident ∈ identsOf (eventsOfStmts stmts), chosen ident = chosen' ident) :
    redirect chosen target stmts = redirect chosen' target stmts := by
  refine congrArg Id.run (editStmts_congr stmts fun ident hident => ?_)
  rw [h ident hident]

/-! ## Statements behind changes -/

/--
The identifier was read with the list, and has the name where it had it there, or it was
generated with another name.
-/
def Stems (name : String) (list : List Stmt) (ident : Ident) : Prop :=
  (∃ original ∈ identsOf (eventsOfStmts list),
      original.id = ident.id ∧ (original.name = name ↔ ident.name = name)) ∨
    ident.isGenerated = true ∧ ident.name ≠ name

/-- The statements are those of the list behind changes that leave the name alone. -/
def ComesFrom (name : String) (list stmts : List Stmt) : Prop :=
  ∀ ident ∈ identsOf (eventsOfStmts stmts), Stems name list ident

section

variable {name other target : String} {list stmts : List Stmt} {ident : Ident}

theorem Stems.rename (h : Stems name list ident) (hident : ident.name ≠ name)
    (htarget : target ≠ name) : Stems name list { ident with name := target } := by
  obtain ⟨original, hmem, hid, hname⟩ | ⟨hgenerated, -⟩ := h
  · exact .inl ⟨original, hmem, hid, iff_of_false (mt hname.1 hident) htarget⟩
  · exact .inr ⟨hgenerated, htarget⟩

theorem ComesFrom.refl : ComesFrom name list list :=
  fun ident hident => .inl ⟨ident, hident, rfl, Iff.rfl⟩

/-- Renaming another variable leaves the name alone. -/
theorem ComesFrom.renameIn (h : ComesFrom name list stmts) (hother : other ≠ name)
    (htarget : target ≠ name) : ComesFrom name list (renameIn other target stmts) := by
  refine inherits_edit (fun ident hstems => ?_) stmts h
  split
  · next hident => exact hstems.rename (beq_iff_eq.1 hident ▸ hother) htarget
  · exact hstems

end

/-! ## Wrapping -/

/-- The statement gives one value to the variable. -/
def Assigns (handler : Ident) (op : AssignOp) (stmt : Stmt) : Prop :=
  ∃ name value, stmt.kind = .assign [name] op [value] ∧ name.ident? = some handler

theorem Assigns.unique {handler handler' : Ident} {op op' : AssignOp} {stmt : Stmt}
    (h : Assigns handler op stmt) (h' : Assigns handler' op' stmt) : handler = handler' := by
  obtain ⟨name, value, hkind, hname⟩ := h
  obtain ⟨name', value', hkind', hname'⟩ := h'
  obtain ⟨hnames, -, -⟩ := StmtKind.assign.inj (hkind.symm.trans hkind')
  obtain rfl := (List.cons.inj hnames).1
  exact Option.some.inj (hname.symm.trans hname')

/--
The statements behind the current one stay, or a wrapper is put in front of them that they are
renamed to.
-/
inductive Wraps (cursor cursor' : Cursor) : Prop where
  | untouched : cursor'.after = cursor.after → cursor'.rest = cursor.rest → Wraps cursor cursor'
  | wrapped {handler : Ident} {op : AssignOp} {agent : Expr} {target : String} {declared : Bool}
      {wrap : Stmt} :
      Assigns handler op cursor.current → handler.isBlank = false →
      logHandlerVariable.toList <+: target.toList → cursor'.after = cursor.after ++ [wrap] →
      wrap.kind = (bindVariable target (wrapLogHandler agent (.ident handler.name)) declared).kind →
      cursor'.rest = renameIn handler.name target cursor.rest → Wraps cursor cursor'

theorem wrapInPlace_wraps (info : Info) (cursor : Cursor) (frame : Frame) (app : Application) :
    Trace.wp (wrapInPlace info cursor) (fun cursor' _ _ => Wraps cursor cursor') frame app := by
  unfold wrapInPlace
  simp only [Trace.application, Trace.wp_bind, Trace.wp_modifyGet]
  split
  · exact .untouched rfl rfl
  · exact .untouched rfl rfl

theorem wrapBound_wraps {handler : Ident} {op : AssignOp} {cursor : Cursor}
    (hassigns : Assigns handler op cursor.current) (hblank : handler.isBlank = false) (frame : Frame)
    (app : Application) :
    Trace.wp (wrapBound handler.name cursor) (fun cursor' _ _ => Wraps cursor cursor') frame app := by
  unfold wrapBound
  simp only [Trace.application, Trace.wp_bind, Trace.wp_modifyGet]
  split
  · exact .untouched rfl rfl
  · simp only [Trace.wp_bind, Trace.wp_get, Trace.wp_modifyGet, Trace.wp_needImport, Trace.wp_pure]
    refine .wrapped hassigns hblank ?_ rfl rfl rfl
    split
    · rw [String.toList_append]
      exact List.prefix_append _ _
    · exact List.prefix_rfl

/-- What the detector does to the statements behind. -/
theorem wrapHandlers_wraps (cursor : Cursor) (frame : Frame) (app : Application) :
    Trace.wp (wrapHandlers cursor) (fun cursor' _ _ => Wraps cursor cursor') frame app := by
  unfold wrapHandlers
  simp only [Trace.wp_bind, Trace.wp_types]
  split
  · exact wrapInPlace_wraps _ cursor frame app
  · split
    · next name op value hkind =>
      split
      · exact .untouched rfl rfl
      · next handler hhandler =>
        obtain ⟨hname, hblank⟩ := Option.filter_eq_some_iff.1 hhandler
        split
        · exact .untouched rfl rfl
        · exact wrapBound_wraps ⟨name, value, hkind, hname⟩ (by simpa using hblank) frame app
    · exact .untouched rfl rfl

/-- A bound handler that is not wrapped yet is wrapped wherever there is an agent. -/
theorem wrapHandlers_adds {cursor : Cursor} {frame : Frame} {app : Application} {name value : Expr}
    {op : AssignOp} {handler : Ident} (hkind : cursor.current.kind = .assign [name] op [value])
    (hname : name.ident? = some handler) (hblank : handler.isBlank = false)
    (hown : anyOwnCall (makesLogger app.types) cursor.current = false)
    (hmakes : makesHandler app.types value = true)
    (hbare : (cursor.rest.head?.any fun stmt =>
      stmt.ownExprs.any fun expr => (expr.parts false).any isLogHandlerWrapper) = false)
    (hmain : frame.inMain = true) :
    Trace.wp (wrapHandlers cursor)
      (fun cursor' _ _ => ∃ wrap, cursor'.after = cursor.after ++ [wrap]) frame app := by
  unfold wrapHandlers
  simp only [Trace.wp_bind, Trace.wp_types, hown, hkind, hname, Option.filter_some, hblank, hmakes,
    hbare, Bool.not_false, Bool.not_true, Bool.or_false, if_true, if_false, Bool.false_eq_true]
  have happlication : frame.application.1 = some (.ident frame.agent) := by
    simp [Frame.application, hmain]
  unfold wrapBound
  simp only [Trace.application, Trace.wp_bind, Trace.wp_modifyGet, happlication, Trace.wp_get,
    Trace.wp_needImport, Trace.wp_pure]
  exact ⟨_, rfl⟩

/-- The handlers of other variables are wrapped without touching the name. -/
theorem Wraps.comesFrom {cursor cursor' : Cursor} (h : Wraps cursor cursor') {name : String}
    {list : List Stmt}
    (hother : ∀ handler op, Assigns handler op cursor.current → handler.name ≠ name)
    (hname : ¬ logHandlerVariable.toList <+: name.toList) (hfrom : ComesFrom name list cursor.rest) :
    ComesFrom name list cursor'.rest := by
  cases h with
  | untouched _ hrest => exact hrest ▸ hfrom
  | wrapped hassigns _ htarget _ _ hrest =>
      rw [hrest]
      refine hfrom.renameIn (hother _ _ hassigns) ?_
      rintro rfl
      exact hname htarget

/-! ## Links -/

section

variable {info : Info} {sources : List PackageSource} {source : PackageSource} {file : File}

/-- A `:=` defines its variable right in front of the statements behind it. -/
theorem infix_define {front rest : List Stmt} {stmt : Stmt} {handler : Ident}
    (hstmt : Assigns handler .define stmt) :
    .define handler :: eventsOfStmts rest <:+: eventsOfStmts (front ++ stmt :: rest) := by
  obtain ⟨name, value, hkind, hname⟩ := hstmt
  obtain ⟨kind, decs⟩ := stmt
  obtain rfl : kind = _ := hkind
  rw [eventsOfStmts_append, eventsOfStmts, eventsOfStmt, eventsOfKind, eventsOfDefined, hname,
    eventsOfDefined]
  exact ⟨eventsOfStmts front ++ eventsOfExprs [value], [], by simp⟩

/--
What is linked to the variable of a `:=` has its name, and what has the name is linked to it,
unless the name is declared anew.
-/
theorem links_stems (hnamed : info.Named) (hskips : SkipsGenerated info) (hsource : source ∈ sources)
    (hfile : file ∈ source.files)
    (hapart : ∀ ident ∈ identsOf (eventsOfFile file), Apart info sources ident)
    {front rest : List Stmt} {stmt : Stmt} {handler : Ident}
    (hlist : StandsIn (front ++ stmt :: rest) file) (hstmt : Assigns handler .define stmt)
    (hblank : handler.isBlank = false) {ident : Ident} (hident : Stems handler.name rest ident) :
    (isLinkedTo (info.check sources) handler ident = true → ident.name = handler.name) ∧
      (rebinds handler.name 0 (eventsOfStmts rest) = false → ident.name = handler.name →
        isLinkedTo (info.check sources) handler ident = true) := by
  obtain ⟨known, hrun⟩ := exists_fileRun info hsource hfile
  obtain ⟨before, after, hevents, hopen⟩ := hlist.exists_events (infix_define hstmt)
  obtain ⟨id, hhandler, hlinks⟩ :=
    hrun.links_define hevents hopen (balanced_eventsOfStmts rest) hapart hblank
  rw [isLinkedTo, beq_iff_eq, hhandler]
  obtain ⟨original, hmem, hid, hname⟩ | ⟨hgenerated, hname⟩ := hident
  · have hlink : (info.check sources).objectId? ident = (info.check sources).objectId? original := by
      rw [Info.objectId?, Info.objectId?, hid]
    rw [hlink, ← hname]
    refine ⟨fun h => ?_, fun hkept => hlinks hkept original hmem⟩
    obtain ⟨front', event, back', hsplit, hevent⟩ := mem_identsOf.1 hmem
    have hplace : eventsOfFile file =
        (before ++ .define handler :: front') ++ event :: (back' ++ after) := by
      rw [hevents, hsplit]
      simp
    exact hrun.name_eq hnamed hapart (mem_identsOf.2 ⟨_, _, _, hplace, hevent⟩)
      (mem_identsOf.2 ⟨before, _, _, hevents, rfl⟩) h hhandler
  · rw [Info.skipsGenerated_check hskips sources ident hgenerated]
    exact ⟨fun h => absurd h.symm (Option.some_ne_none id), fun _ h => absurd h hname⟩

end

/--
The statements behind the current one stay, or a wrapper is put in front of them.  Then every
identifier that is linked to the variable is redirected, and no other one is, unless the list that
the statements come from declares the name anew.
-/
inductive Redirects (info : Info) (handler : Ident) (list : List Stmt) (cursor cursor' : Cursor) :
    Prop where
  | untouched : cursor'.after = cursor.after → cursor'.rest = cursor.rest →
      Redirects info handler list cursor cursor'
  | wrapped {agent : Expr} {target : String} {declared : Bool} {wrap : Stmt} :
      cursor'.after = cursor.after ++ [wrap] →
      wrap.kind = (bindVariable target (wrapLogHandler agent (.ident handler.name)) declared).kind →
      cursor'.rest = redirect (fun ident => isLinkedTo info handler ident || ident.name == handler.name)
        target cursor.rest →
      (rebinds handler.name 0 (eventsOfStmts list) = false →
        cursor'.rest = redirect (isLinkedTo info handler) target cursor.rest) →
      Redirects info handler list cursor cursor'

/--
Where a new variable of a handler is followed by a statement that wraps it, the statements behind
are changed in every identifier that is linked to the variable, and in no other one, unless one of
them declares its name anew.
-/
theorem wrapHandlers_redirects {info : Info} (hnamed : info.Named) (hskips : SkipsGenerated info)
    {sources : List PackageSource} {source : PackageSource} {file : File}
    (hsource : source ∈ sources) (hfile : file ∈ source.files)
    (hapart : ∀ ident ∈ identsOf (eventsOfFile file), Apart info sources ident)
    {front rest : List Stmt} {stmt : Stmt} {handler : Ident}
    (hlist : StandsIn (front ++ stmt :: rest) file) (hstmt : Assigns handler .define stmt)
    {cursor : Cursor} {op : AssignOp} (hcurrent : Assigns handler op cursor.current)
    (hfrom : ComesFrom handler.name rest cursor.rest) (frame : Frame) (app : Application) :
    Trace.wp (wrapHandlers cursor)
      (fun cursor' _ _ => Redirects (info.check sources) handler rest cursor cursor') frame app := by
  refine (wrapHandlers_wraps cursor frame app).mono fun cursor' _ _ h => ?_
  cases h with
  | untouched hafter hrest => exact .untouched hafter hrest
  | wrapped hassigns hblank _ hafter hwrap hrest =>
      obtain rfl := hassigns.unique hcurrent
      have hlinks : ∀ ident ∈ identsOf (eventsOfStmts cursor.rest), _ := fun ident hident =>
        links_stems hnamed hskips hsource hfile hapart hlist hstmt hblank (hfrom ident hident)
      refine .wrapped hafter hwrap (hrest.trans (redirect_congr _ fun ident hident => ?_))
        fun hkept => hrest.trans (redirect_congr _ fun ident hident => ?_)
      · rw [Bool.eq_iff_iff, Bool.or_eq_true, beq_iff_eq]
        exact (or_iff_right_of_imp (hlinks ident hident).1).symm
      · rw [Bool.eq_iff_iff, beq_iff_eq]
        exact ⟨(hlinks ident hident).2 hkept, (hlinks ident hident).1⟩

/-- A call of a function of `slog`, whose qualifier has the number. -/
def slogCall (qualifier : Nat) (func : String) (arg : Ident) : Call where
  callee := .selector ⟨.ident { name := "slog", id := qualifier }, {}⟩ func
  args := [⟨.ident arg, {}⟩]

/-- `slog.NewTextHandler(w)` -/
def handlerCall : Call := slogCall 3 "NewTextHandler" { name := "w", id := 4 }

/-- `h := slog.NewTextHandler(w)` -/
def handlerStmt : Stmt :=
  .define [⟨.ident { name := "h", id := 2 }, {}⟩] [⟨.call handlerCall, {}⟩]

/-- `slog.New(h)` for the variable of a handler. -/
def loggerStmt (handler : String) : Stmt :=
  .expr ⟨.call (slogCall 5 "New" { name := handler, id := 6 }), {}⟩

def handlerFile : File where
  package := "p"
  packageDecs := {}
  decls := [
    { kind := .imports ⟨[{ name := some "slog", path := Path.logSlog }], false, []⟩, decs := {} },
    { kind := .func
        { receiver := none, name := { name := "run", id := 1 }, typeParams := none, params := {}
          results := none, body := some { stmts := [handlerStmt, loggerStmt "h"] } }
      decs := {} }]
  trailing := []

def handlerSource : PackageSource where
  path := "p"
  name := "p"
  files := [handlerFile]

def handlerCursor : Cursor where
  before := []
  current := handlerStmt
  rest := [loggerStmt "h"]

def handlerApp : Application where
  packages := ⟨[]⟩
  types := Info.check {} [handlerSource]
  agent := "agent"
  appName := ""

theorem apart_handlerFile : ∀ ident ∈ identsOf (eventsOfFile handlerFile),
    Apart {} [handlerSource] ident := by
  have hnumbers : ∀ id ∈ numbersIn (eventsOfFile handlerFile), (id == 0) = false ∧
      id ∉ Info.declaredNumbers [handlerSource] ∧
      (numbersIn (Info.eventsOfFiles (filesOf [handlerSource]))).count id = 1 := by decide
  intro ident hident
  obtain ⟨hnumbered, hundeclared, honce⟩ := hnumbers ident.id (List.mem_map_of_mem hident)
  exact ⟨hnumbered, by simp [Info.objectId?], hundeclared, honce⟩

theorem importedPath?_handlerFile :
    (Info.check {} [handlerSource]).importedPath? ⟨.ident { name := "slog", id := 3 }, {}⟩ =
      some Path.logSlog := by
  obtain ⟨known, hrun⟩ := exists_fileRun {} (List.mem_singleton_self handlerSource)
    (List.mem_singleton_self handlerFile)
  have hevents : eventsOfFile handlerFile = [.enter] ++ .use { name := "slog", id := 3 } :: _ := rfl
  exact hrun.importedPath? {} hevents rfl (apart_handlerFile _ (by decide)) rfl rfl

theorem makesHandler_handlerCall {info : Info}
    (h : info.importedPath? ⟨.ident { name := "slog", id := 3 }, {}⟩ = some Path.logSlog) :
    makesHandler info ⟨.call handlerCall, {}⟩ = true ∧
      anyOwnCall (makesLogger info) handlerStmt = false := by
  obtain ⟨signature, hcallee⟩ : ∃ signature, info.callee? handlerCall =
      some { package := Path.logSlog, name := "NewTextHandler", receiver := none, signature } := by
    simp [handlerCall, slogCall, Info.callee?, Expr.selector, Expr.unparen, h]
  constructor
  · simp [makesHandler, Expr.call?, callsFunc, hcallee, Callee.isFunc]
  · have hlogger : makesLogger info handlerCall = false := by
      simp [makesLogger, callsFunc, hcallee, Callee.isFunc]
    change (false || (makesLogger info handlerCall || false) || false) = false
    rw [hlogger]
    rfl

/-- The later use of the variable is linked to it, and becomes one of the wrapper. -/
theorem wrapHandlers_redirects_handlerFile :
    Trace.wp (wrapHandlers handlerCursor)
      (fun cursor' _ _ => ∃ target, cursor'.rest = [loggerStmt target] ∧
        cursor'.rest = redirect (isLinkedTo (Info.check {} [handlerSource]) { name := "h", id := 2 })
          target handlerCursor.rest)
      (Frame.main "p" "agent") handlerApp := by
  have hstands : StandsIn ([] ++ handlerStmt :: [loggerStmt "h"]) handlerFile := by
    refine ⟨_, List.mem_cons_of_mem _ List.mem_cons_self, _, _, rfl, rfl, ?_, .here⟩
    intro called type body decs hmem
    simp [handlerStmt, loggerStmt, handlerCall, slogCall, Stmt.define, Stmt.expr, Expr.selector,
      occurrencesOfStmts, StmtKind.occurrences, occurrencesOfExprs, Expr.occurrences,
      ExprKind.occurrences] at hmem
  have hassigns : Assigns { name := "h", id := 2 } .define handlerStmt := ⟨_, _, rfl, rfl⟩
  have hredirects := wrapHandlers_redirects .empty skipsGenerated_empty
    (List.mem_singleton_self handlerSource) (List.mem_singleton_self handlerFile)
    apart_handlerFile hstands hassigns (show Assigns _ _ handlerCursor.current from hassigns)
    (show ComesFrom "h" _ handlerCursor.rest from .refl) (Frame.main "p" "agent") handlerApp
  obtain ⟨hmakes, hown⟩ := makesHandler_handlerCall importedPath?_handlerFile
  have hadds : Trace.wp (wrapHandlers handlerCursor) _ _ handlerApp :=
    wrapHandlers_adds (show handlerCursor.current.kind = _ from rfl) rfl rfl hown hmakes rfl
      (show (Frame.main "p" "agent").inMain = true from rfl)
  refine (hredirects.and hadds).mono fun cursor' _ _ h => ?_
  obtain ⟨hredirects, wrap, hafter⟩ := h
  cases hredirects with
  | untouched hsame =>
      rw [hsame] at hafter
      simp at hafter
  | @wrapped agent target declared wrap _ _ _ hredirect =>
      have hspelled : renameIn "h" target [loggerStmt "h"] =
          redirect (isLinkedTo (Info.check {} [handlerSource]) { name := "h", id := 2 }) target
            [loggerStmt "h"] := by
        refine redirect_congr target fun ident hident => ?_
        have hlinks := links_stems .empty skipsGenerated_empty
          (List.mem_singleton_self handlerSource) (List.mem_singleton_self handlerFile)
          apart_handlerFile hstands hassigns rfl (.inl ⟨ident, hident, rfl, Iff.rfl⟩)
        rw [Bool.eq_iff_iff, beq_iff_eq]
        exact ⟨hlinks.2 rfl, hlinks.1⟩
      exact ⟨target, (hredirect rfl).trans hspelled.symm, hredirect rfl⟩

end TraceWeave.Tracing
