import TraceWeave.Proofs.Tracing.Segments

/-!
The detectors of the walk and the segments of the entry function.

What has come in around the current statement is nothing that starts a segment, or the start
of its own and the end of that (`Brackets`).  The detector of requests brings the segment in,
and the others leave it alone (`Trails`): a query starts no transaction inside another one.
-/

namespace TraceWeave.Tracing

open TraceWeave.Agent TraceWeave.Detect TraceWeave.Program TraceWeave.Syntax TraceWeave.Types

/-! ## Frames -/

/-- The frame belongs to the same kind of function and has the same carrier. -/
structure Frame.Abides (frame frame' : Frame) : Prop where
  inMain : frame'.inMain = frame.inMain
  carrier : frame'.carrier = frame.carrier

namespace Frame.Abides

variable {frame frame' frame'' : Frame}

theorem refl : frame.Abides frame := ⟨rfl, rfl⟩

theorem trans (h : frame.Abides frame') (h' : frame'.Abides frame'') : frame.Abides frame'' :=
  ⟨h'.inMain.trans h.inMain, h'.carrier.trans h.carrier⟩

theorem transaction (frame : Frame) : frame.Abides frame.transaction.2 := by
  unfold Frame.transaction
  split <;> exact ⟨rfl, rfl⟩

theorem application (frame : Frame) : frame.Abides frame.application.2 := by
  unfold Frame.application
  split
  · exact refl
  · split <;> exact ⟨rfl, rfl⟩

theorem declare (frame : Frame) (name : String) : frame.Abides (frame.declare name) := by
  unfold Frame.declare
  split <;> exact ⟨rfl, rfl⟩

theorem hasTransaction (h : frame.Abides frame') : frame'.hasTransaction = frame.hasTransaction := by
  rw [Frame.hasTransaction, h.carrier, Frame.hasTransaction]

end Frame.Abides

/-! ## Changes behind the current statement -/

/-- Startless statements have come in right behind the current one, and single changes have been made. -/
structure Trails (trail : List Stmt) (cursor : Cursor) (frame : Frame) (cursor' : Cursor)
    (frame' : Frame) : Prop where
  frame : frame.Abides frame'
  current : Reforms cursor.current cursor'.current
  before : cursor'.before = cursor.before
  after : cursor'.after = cursor.after ++ trail
  startless : StartlessStmts trail
  rest : StartlessStmts cursor.rest → StartlessStmts cursor'.rest

namespace Trails

variable {trail : List Stmt} {cursor cursor' cursor'' : Cursor} {frame frame' frame'' : Frame}

theorem refl : Trails [] cursor frame cursor frame where
  frame := .refl
  current := .refl
  before := rfl
  after := (List.append_nil _).symm
  startless := List.forall_mem_nil _
  rest := id

theorem trans {trail' : List Stmt} (h : Trails trail cursor frame cursor' frame')
    (h' : Trails trail' cursor' frame' cursor'' frame'') :
    Trails (trail ++ trail') cursor frame cursor'' frame'' where
  frame := h.frame.trans h'.frame
  current := h.current.trans h'.current
  before := h'.before.trans h.before
  after := by rw [h'.after, h.after, List.append_assoc]
  startless := List.forall_mem_append.2 ⟨h.startless, h'.startless⟩
  rest := h'.rest ∘ h.rest

variable (h : Trails trail cursor frame cursor' frame')

include h

theorem reframe (hframe : frame'.Abides frame'') : Trails trail cursor frame cursor' frame'' :=
  { h with frame := h.frame.trans hframe }

theorem replace {stmt : Stmt} (hstmt : Reforms cursor'.current stmt) :
    Trails trail cursor frame (cursor'.replace stmt) frame' :=
  { h with current := h.current.trans hstmt }

theorem redress (decs : Decorations) :
    Trails trail cursor frame (cursor'.replace { cursor'.current with decs }) frame' :=
  h.replace (.of_kind rfl)

theorem insertAfter {stmt : Stmt} (hstmt : Holds Tracing.startless (stmt.kind.calls true .full)) :
    Trails (trail ++ [stmt]) cursor frame (cursor'.insertAfter stmt) frame' :=
  { h with
    after := by rw [Cursor.insertAfter, h.after, List.append_assoc]
    startless := List.forall_mem_append.2 ⟨h.startless, List.forall_mem_singleton.2 hstmt⟩ }

theorem retail {rest : List Stmt} (hrest : StartlessStmts cursor'.rest → StartlessStmts rest) :
    Trails trail cursor frame { cursor' with rest } frame' :=
  { h with rest := hrest ∘ h.rest }

end Trails

/-- What a detector that starts no segment does. -/
abbrev TrailsBehind (cursor : Cursor) (frame : Frame) (cursor' : Cursor) (frame' : Frame)
    (_ : Application) : Prop :=
  ∃ trail, Trails trail cursor frame cursor' frame'

theorem traceLiteral_trails (walk : Walk) (cursor : Cursor) {frame : Frame} (app : Application)
    (hmain : frame.inMain = true) :
    Trace.wp (traceLiteral walk cursor) (fun cursor' frame' _ =>
      Trails [] cursor frame cursor' frame') frame app := by
  unfold traceLiteral
  split
  · exact .refl
  · simp only [Trace.wp_bind, Trace.wp_get]
    rw [if_pos hmain, Trace.wp_bind]
    exact Trace.wp_attach fun decs console _ => Trails.refl.redress decs

theorem wrapRegistration_trails (cursor : Cursor) (frame : Frame) (app : Application) :
    Trace.wp (wrapRegistration cursor) (fun cursor' frame' _ =>
      Trails [] cursor frame cursor' frame') frame app := by
  unfold wrapRegistration
  split
  · exact .refl
  · next call hcall =>
    split
    · exact .refl
    · simp only [Trace.wp_bind, Trace.wp_types]
      split
      · exact .refl
      · next hregistration =>
        simp only [Trace.application, Trace.wp_bind, Trace.wp_modifyGet]
        have hused : Trails [] cursor frame cursor frame.application.2 :=
          Trails.refl.reframe (.application frame)
        split
        · exact hused
        · next agent hagent =>
          split
          · exact hused
          · next wrapped hwrapped =>
            have hooks : Hooks app.types call wrapped :=
              .handler (by simpa using hregistration) (application_isAgent hagent) hwrapped
            have hwrap : Trails [] cursor frame (cursor.modify (mapPrimaryCall fun _ => wrapped))
                frame.application.2 :=
              hused.replace (reforms_mapPrimaryCall hcall hooks.gentle hooks.spares)
            simp only [Trace.wp_bind, Trace.wp_needImport]
            split
            · rw [Trace.wp_bind]
              exact Trace.wp_attach fun decs console _ => hwrap.redress decs
            · exact hwrap

theorem interceptServers_trails (cursor : Cursor) (frame : Frame) (app : Application) :
    Trace.wp (interceptServers cursor) (TrailsBehind cursor frame) frame app := by
  unfold interceptServers
  simp only [Trace.wp_bind, Trace.wp_types]
  split
  · exact ⟨[], .refl⟩
  · simp only [Trace.application, Trace.wp_bind, Trace.wp_modifyGet]
    have hused : Trails [] cursor frame cursor frame.application.2 :=
      Trails.refl.reframe (.application frame)
    split
    · exact ⟨[], hused⟩
    · next agent hagent =>
      simp only [Trace.wp_bind, Trace.wp_needImport, Trace.wp_pure]
      refine ⟨[], hused.replace (reforms_mapOwnCalls (fun call decs => ?_) (fun call decs => ?_) _)⟩
      all_goals split
      · next hserves => exact (Hooks.server hserves (application_isAgent hagent)).gentle decs
      · exact .refl_call call decs
      · next hserves => exact (Hooks.server hserves (application_isAgent hagent)).spares decs
      · exact .refl_call call decs

theorem installMiddleware_trails (cursor : Cursor) (frame : Frame) (app : Application) :
    Trace.wp (installMiddleware cursor) (TrailsBehind cursor frame) frame app := by
  unfold installMiddleware
  split
  case h_2 => exact ⟨[], .refl⟩
  case h_1 router op value hkind =>
    simp only [Trace.wp_bind, Trace.wp_types]
    split
    · exact ⟨[], .refl⟩
    · next path hpath =>
      split
      · exact ⟨[], .refl⟩
      · next hrouter =>
        simp only [Trace.application, Trace.wp_bind, Trace.wp_modifyGet]
        have hused : Trails [] cursor frame cursor frame.application.2 :=
          Trails.refl.reframe (.application frame)
        split
        · exact ⟨[], hused⟩
        · next agent hagent =>
          simp only [Trace.wp_bind, Trace.wp_needImport, Trace.wp_pure]
          have hname : IsName router := by
            cases hident : router.ident? <;> simp_all [IsName]
          have hmiddleware : Holds startless
              ((Expr.call (.qualified (packageName path) "Middleware") [agent]).calls true) :=
            Expr.holds_named startless_admits (by decide) .nil
              (holds_exprs_cons.2 ⟨(application_isAgent hagent).holds startless_admits, .nil⟩)
          refine ⟨_, (hused.redress cursor.current.decs.withoutAfter).insertAfter ?_⟩
          refine Expr.holds_named startless_admits (by decide) ?_ (holds_exprs_cons.2 ⟨hmiddleware, .nil⟩)
          rw [bare, Expr.calls_redecorate]
          exact holds_of_isName hname

theorem wrapInPlace_trails (cursor : Cursor) (frame : Frame) (app : Application) :
    Trace.wp (wrapInPlace app.types cursor) (TrailsBehind cursor frame) frame app := by
  unfold wrapInPlace
  simp only [Trace.application, Trace.wp_bind, Trace.wp_modifyGet]
  have hused : Trails [] cursor frame cursor frame.application.2 :=
    Trails.refl.reframe (.application frame)
  split
  · exact ⟨[], hused⟩
  · next agent hagent =>
    simp only [Trace.wp_bind, Trace.wp_needImport, Trace.wp_pure]
    refine ⟨[], hused.replace (reforms_mapOwnCalls (fun call decs => ?_) (fun call decs => ?_) _)⟩
    all_goals split
    · next hmakes => exact (Hooks.logger hmakes (application_isAgent hagent)).gentle decs
    · exact .refl_call call decs
    · next hmakes => exact (Hooks.logger hmakes (application_isAgent hagent)).spares decs
    · exact .refl_call call decs

theorem wrapBound_trails (handler : String) (cursor : Cursor) (frame : Frame) (app : Application) :
    Trace.wp (wrapBound handler cursor) (TrailsBehind cursor frame) frame app := by
  unfold wrapBound
  simp only [Trace.application, Trace.wp_bind, Trace.wp_modifyGet]
  have hused : Trails [] cursor frame cursor frame.application.2 :=
    Trails.refl.reframe (.application frame)
  split
  · exact ⟨[], hused⟩
  · next agent hagent =>
    simp only [Trace.wp_bind, Trace.wp_get, Trace.wp_modifyGet, Trace.wp_needImport, Trace.wp_pure]
    refine ⟨_, (((hused.reframe (.declare _ _)).redress cursor.current.decs.withoutAfter).retail
      (startless_renameIn handler _)).insertAfter ?_⟩
    refine holds_bindVariable _ (Expr.holds_named startless_admits (by decide) .nil ?_)
    exact holds_exprs_cons.2
      ⟨(application_isAgent hagent).holds startless_admits, holds_exprs_cons.2 ⟨.nil, .nil⟩⟩

theorem wrapHandlers_trails (cursor : Cursor) (frame : Frame) (app : Application) :
    Trace.wp (wrapHandlers cursor) (TrailsBehind cursor frame) frame app := by
  unfold wrapHandlers
  simp only [Trace.wp_bind, Trace.wp_types]
  split
  · exact wrapInPlace_trails cursor frame app
  · split
    · split
      · exact ⟨[], .refl⟩
      · next handler hhandler =>
        split
        · exact ⟨[], .refl⟩
        · exact wrapBound_trails _ cursor frame app
    · exact ⟨[], .refl⟩

/-! ## Brackets around the current statement -/

/-- Nothing has come in, or a transaction of the statement's own. -/
inductive OwnBracket : List Stmt → List Stmt → Prop where
  | none : OwnBracket [] []
  | own {agent name : String} {declared : Bool} {decs decs' : Decorations} :
      OwnBracket [{ startTransaction agent transactionVariable name declared with decs }]
        [{ endTransaction transactionVariable with decs := decs' }]

/-- The lists inside the statement close their segments, and it starts none itself. -/
structure Sealed (stmt : Stmt) : Prop where
  segment : opensSegment stmt = false
  inside : Inside SegmentsClose stmt

theorem sealed_of_startless {stmt : Stmt} {reached : Bool}
    (h : Holds startless (stmt.kind.calls reached .full)) : Sealed stmt :=
  ⟨(shut_of_startless h).segment, inside_of_startless h⟩

/--
What stands in front of the current statement and right behind it: no start of a segment, or
one right in front whose segment ends behind.
-/
inductive Brackets (frame : Frame) : List Stmt → Stmt → List Stmt → Prop where
  | none {lead trail : List Stmt} {stmt : Stmt} :
      (∀ other ∈ lead, Sealed other) → (∀ other ∈ trail, opensTransaction other = false ∧ Sealed other) →
      Brackets frame lead stmt trail
  | segment {front trail : List Stmt} {start stmt : Stmt} :
      (∀ other ∈ front, Sealed other) → opensSegment start = true → Inside SegmentsClose start →
      isEnding stmt = false → (∀ other ∈ trail, opensTransaction other = false ∧ Sealed other) →
      Finishes (front.getLast?.any opensTransaction) (stmt :: trail) → frame.hasTransaction = true →
      Brackets frame (front ++ [start]) stmt trail

theorem startless_endTransaction :
    Holds startless ((endTransaction transactionVariable).kind.calls true .full) :=
  Expr.holds_call ⟨rfl, rfl⟩ .nil .nil

theorem sealed_startTransaction (agent name : String) (declared : Bool) (decs : Decorations) :
    Sealed { startTransaction agent transactionVariable name declared with decs } :=
  ⟨by cases declared <;> rfl, (opens_startTransaction ⟨false, declared⟩ agent name decs).inside⟩

namespace OwnBracket

variable {lead trail : List Stmt} (h : OwnBracket lead trail)

include h

theorem sealed : (∀ other ∈ lead, Sealed other) ∧
    ∀ other ∈ trail, opensTransaction other = false ∧ Sealed other := by
  cases h with
  | none => exact ⟨List.forall_mem_nil _, List.forall_mem_nil _⟩
  | own =>
      exact ⟨List.forall_mem_singleton.2 (sealed_startTransaction _ _ _ _),
        List.forall_mem_singleton.2 ⟨(shut_of_startless startless_endTransaction).transaction,
          sealed_of_startless startless_endTransaction⟩⟩

theorem brackets (frame : Frame) (stmt : Stmt) : Brackets frame lead stmt trail :=
  .none h.sealed.1 h.sealed.2

/-- What ends the segment of a request comes behind the end of the transaction. -/
theorem finishes {stmt ending : Stmt} (response : Option String) (hrequest : isEnding stmt = false)
    (hending : EndsSegment ending) :
    Finishes (lead.getLast?.any opensTransaction)
      (stmt :: (trail ++ (captures response ++ [ending]))) := by
  cases h with
  | none => exact .inside hrequest hending
  | own =>
      rw [List.getLast?_singleton, Option.any_some]
      rename_i declared decs decs'
      cases declared <;> exact .across hrequest ends_endTransaction.isEnding hending

end OwnBracket

/-- The current statement changes, and startless statements come in behind what stands there. -/
theorem Brackets.trails {cursor cursor' : Cursor} {frame frame' : Frame} {lead trail : List Stmt}
    (h : Brackets frame lead cursor.current cursor.after)
    (htrails : Trails trail cursor frame cursor' frame') :
    Brackets frame' lead cursor'.current cursor'.after := by
  have hstartless : ∀ other ∈ trail, opensTransaction other = false ∧ Sealed other := fun other hmem =>
    ⟨(shut_of_startless (htrails.startless other hmem)).transaction, sealed_of_startless (htrails.startless other hmem)⟩
  rw [htrails.after]
  generalize cursor.after = after at h
  cases h with
  | none hlead hafter => exact .none hlead (List.forall_mem_append.2 ⟨hafter, hstartless⟩)
  | segment hfront hstart hinside hrequest hafter hfinishes htransaction =>
      have hrequest' : isEnding cursor'.current = false := by
        refine Bool.eq_false_iff.2 fun hending => ?_
        rw [htrails.current.ending hending] at hrequest
        contradiction
      refine .segment hfront hstart hinside hrequest' (List.forall_mem_append.2 ⟨hafter, hstartless⟩) ?_
        (htrails.frame.hasTransaction.trans htransaction)
      rw [← List.cons_append]
      exact (hfinishes.reform hrequest').append trail

/-! ## Requests -/

/-- A request does not end a transaction. -/
theorem isEnding_request {info : Info} {stmt : Stmt} {call : Call}
    (hcall : primaryCall? stmt = some call)
    (hrequest : callsMethod info Path.netHttp "Client" ["Do"] call = true) : isEnding stmt = false := by
  obtain ⟨callee, hcallee, -, hname⟩ := callee?_of_callsMethod hrequest
  refine Bool.eq_false_iff.2 fun hending => ?_
  unfold isEnding at hending
  split at hending
  · next value hkind =>
    have hvalue : value.call? = some call := by simpa only [primaryCall?, hkind] using hcall
    simp only [hvalue, Option.any_some, Bool.and_eq_true, beq_iff_eq] at hending
    obtain ⟨hend, hqualifier⟩ := hending
    obtain ⟨ident, decs, member, decs', hselector, -⟩ := callee_of_qualifier? hqualifier
    have hmember : call.callee.member? = some "End" := by
      simpa [Call.name?, Expr.member?, Expr.selector?, hselector] using hend
    rw [callee?_name hmember hcallee] at hname
    simp at hname
  · contradiction

theorem inside_bindVariable {Q : List Stmt → Prop} (name : String) {value : Expr} (declared : Bool)
    (decs : Decorations) (h : ∀ body ∈ value.literals, ∀ list, ListIn list body → Q list) :
    Inside Q { bindVariable name value declared with decs } := by
  intro inner hinner
  have hliteral : inner ∈ value.literals := by
    cases declared <;> simpa [bindVariable, StmtKind.lists, StmtKind.blocks, StmtKind.headers,
      Stmt.assign, Stmt.define, Expr.literals, Expr.parts, ExprKind.parts, Expr.ident,
      Expr.literalBody?] using hinner
  exact h inner hliteral

/-- The lists inside the start of a segment are those in its request. -/
theorem inside_startExternalSegment {txn : String} {req : Expr} (declared : Bool)
    (decs : Decorations) (hreq : Holds startless (req.calls true)) :
    Inside SegmentsClose
      { startExternalSegment (.ident txn) req externalSegmentVariable declared with decs } := by
  refine inside_bindVariable _ _ _ fun body hbody list hlist => ?_
  have hqualifier : qualifier? ⟨newrelic "StartExternalSegment", [.ident txn, req], false, false⟩ =
      some "newrelic" := rfl
  obtain ⟨arg, harg, hliteral⟩ := mem_literals_call hqualifier hbody
  have hstartless : Holds startless (arg.calls true) := by
    simp only [List.mem_cons, List.not_mem_nil, or_false] at harg
    rcases harg with rfl | rfl
    · exact .nil
    · exact hreq
  obtain ⟨reached, hcalls⟩ := Expr.holds_literals hstartless body hliteral
  obtain ⟨reached', hcalls⟩ := hlist.holds hcalls
  exact segmentsClose_of_startless hcalls

/-- How far a visit has come that started behind the statements that were passed before. -/
structure Stage (passed : List Stmt) (cursor : Cursor) (frame : Frame) : Prop where
  inMain : frame.inMain = true
  current : Holds startless (cursor.current.kind.calls true .full)
  rest : StartlessStmts cursor.rest
  row : ∃ lead, cursor.before = lead.reverse ++ passed ∧
    Brackets frame lead cursor.current cursor.after

theorem Stage.trails {passed trail : List Stmt} {cursor cursor' : Cursor} {frame frame' : Frame}
    (h : Stage passed cursor frame) (htrails : Trails trail cursor frame cursor' frame') :
    Stage passed cursor' frame' where
  inMain := htrails.frame.inMain.trans h.inMain
  current := htrails.current.startless h.current
  rest := htrails.rest h.rest
  row := by
    obtain ⟨lead, hbefore, hbrackets⟩ := h.row
    exact ⟨lead, htrails.before.trans hbefore, hbrackets.trails htrails⟩

/-- Before the request is seen, a visit has at most put a transaction around its statement. -/
structure Opening (passed : List Stmt) (cursor : Cursor) (frame : Frame) : Prop where
  inMain : frame.inMain = true
  current : Holds startless (cursor.current.kind.calls true .full)
  rest : StartlessStmts cursor.rest
  row : ∃ lead, cursor.before = lead.reverse ++ passed ∧ OwnBracket lead cursor.after

namespace Opening

variable {passed : List Stmt} {cursor cursor' : Cursor} {frame frame' : Frame}

theorem stage (h : Opening passed cursor frame) : Stage passed cursor frame where
  inMain := h.inMain
  current := h.current
  rest := h.rest
  row := by
    obtain ⟨lead, hbefore, hown⟩ := h.row
    exact ⟨lead, hbefore, hown.brackets frame cursor.current⟩

theorem trails (h : Opening passed cursor frame) (htrails : Trails [] cursor frame cursor' frame') :
    Opening passed cursor' frame' where
  inMain := htrails.frame.inMain.trans h.inMain
  current := htrails.current.startless h.current
  rest := htrails.rest h.rest
  row := by
    obtain ⟨lead, hbefore, hown⟩ := h.row
    refine ⟨lead, htrails.before.trans hbefore, ?_⟩
    rwa [htrails.after, List.append_nil]

end Opening

theorem sealed_captures (response : Option String) :
    ∀ stmt ∈ captures response, opensTransaction stmt = false ∧ Sealed stmt := by
  intro stmt hmem
  obtain ⟨name, -, rfl⟩ := List.mem_map.1 hmem
  have hstartless : Holds startless
      ((captureResponse externalSegmentVariable (.ident name)).kind.calls true .full) :=
    Holds.append.2 ⟨.nil, .nil⟩
  exact ⟨(shut_of_startless hstartless).transaction, sealed_of_startless hstartless⟩

theorem sealed_of_endsSegment {stmt : Stmt} (h : EndsSegment stmt) :
    opensTransaction stmt = false ∧ Sealed stmt := by
  have hstartless : Holds startless (stmt.kind.calls true .full) :=
    h ▸ Expr.holds_call ⟨rfl, rfl⟩ .nil .nil
  exact ⟨(shut_of_startless hstartless).transaction, sealed_of_startless hstartless⟩

/-- A segment comes in around a request, inside the brackets of its own transaction if it has one. -/
theorem Opening.segment {passed : List Stmt} {cursor : Cursor} {frame frame' : Frame}
    (h : Opening passed cursor frame) (hframe : frame.Abides frame')
    (htransaction : frame.hasTransaction = true) {start stmt ending : Stmt}
    (response : Option String) (hstart : opensSegment start = true)
    (hinside : Inside SegmentsClose start) (hkind : stmt.kind = cursor.current.kind)
    (hrequest : isEnding cursor.current = false) (hending : EndsSegment ending) :
    Stage passed { cursor with
      before := start :: cursor.before
      current := stmt
      after := cursor.after ++ (captures response ++ [ending]) } frame' where
  inMain := hframe.inMain.trans h.inMain
  current := hkind ▸ h.current
  rest := h.rest
  row := by
    have hreforms : Reforms cursor.current stmt := .of_kind hkind
    have hrequest' : isEnding stmt = false :=
      Bool.eq_false_iff.2 fun hends => by simp [hreforms.ending hends] at hrequest
    obtain ⟨lead, hbefore, hown⟩ := h.row
    refine ⟨lead ++ [start], by simp [hbefore], ?_⟩
    refine .segment hown.sealed.1 hstart hinside hrequest' ?_
      (hown.finishes response hrequest' hending) (hframe.hasTransaction.trans htransaction)
    exact List.forall_mem_append.2 ⟨hown.sealed.2, List.forall_mem_append.2
      ⟨sealed_captures response, List.forall_mem_singleton.2 (sealed_of_endsSegment hending)⟩⟩

/-- An startless statement comes in front of the request. -/
theorem Opening.precede {passed : List Stmt} {cursor : Cursor} {frame frame' : Frame}
    (h : Opening passed cursor frame) (hframe : frame.Abides frame') {first stmt : Stmt}
    (hfirst : Holds startless (first.kind.calls true .full)) (hkind : stmt.kind = cursor.current.kind) :
    Stage passed { cursor with before := first :: cursor.before, current := stmt } frame' where
  inMain := hframe.inMain.trans h.inMain
  current := hkind ▸ h.current
  rest := h.rest
  row := by
    obtain ⟨lead, hbefore, hown⟩ := h.row
    refine ⟨lead ++ [first], by simp [hbefore], .none ?_ hown.sealed.2⟩
    exact List.forall_mem_append.2
      ⟨hown.sealed.1, List.forall_mem_singleton.2 (sealed_of_startless hfirst)⟩

theorem foldl_insertAfter (stmts : List Stmt) (cursor : Cursor) :
    stmts.foldl Cursor.insertAfter cursor = { cursor with after := cursor.after ++ stmts } := by
  induction stmts generalizing cursor with
  | nil => simp
  | cons stmt stmts ih => simp [ih, Cursor.insertAfter]

theorem segmentRequest_stages {passed : List Stmt} {req : Expr} {cursor : Cursor} {frame : Frame}
    (app : Application) (h : Opening passed cursor frame) (hreq : Holds startless (req.calls true))
    (hrequest : isEnding cursor.current = false) :
    Trace.wp (segmentRequest req cursor) (fun cursor' frame' _ => Stage passed cursor' frame')
      frame app := by
  unfold segmentRequest
  split
  · exact h.stage
  · simp only [Trace.transaction, Trace.wp_bind, Trace.wp_modifyGet]
    split
    · exact (h.trails (Trails.refl.reframe (.transaction frame))).stage
    · next txn htxn =>
      simp only [Trace.wp_bind, Trace.wp_get, Trace.wp_modify, Trace.wp_needImport, Trace.wp_pure]
      have htransaction : frame.hasTransaction = true := by
        unfold Frame.transaction at htxn
        split at htxn
        · assumption
        · contradiction
      rw [transaction_isVariable htxn, foldl_insertAfter]
      generalize frame.transaction.2.isDeclared externalSegmentVariable = declared
      refine h.segment ((Frame.Abides.transaction frame).trans (.declare _ _)) htransaction
        (responseName? cursor.current) ?_ (inside_startExternalSegment declared _ hreq) rfl hrequest
        rfl
      cases declared <;> rfl

theorem attachToRequest_stages {passed : List Stmt} {req : Expr} {cursor : Cursor} {frame : Frame}
    (app : Application) (h : Opening passed cursor frame) (hreq : Holds startless (req.calls true)) :
    Trace.wp (attachToRequest req cursor) (fun cursor' frame' _ => Stage passed cursor' frame')
      frame app := by
  unfold attachToRequest
  split
  · exact h.stage
  · simp only [Trace.transaction, Trace.wp_bind, Trace.wp_modifyGet]
    split
    · exact (h.trails (Trails.refl.reframe (.transaction frame))).stage
    · next txn htxn =>
      simp only [Trace.wp_bind, Trace.wp_needImport, Trace.wp_pure]
      rw [transaction_isVariable htxn]
      have hvalue : Holds startless ((Expr.call (newrelic "RequestWithTransactionContext")
          [req, .ident frame.txn]).calls true) :=
        Expr.holds_named startless_admits (by decide) .nil
          (holds_exprs_cons.2 ⟨hreq, holds_exprs_cons.2 ⟨.nil, .nil⟩⟩)
      have hwrap : Holds startless ((wrapRequest req (.ident frame.txn)).kind.calls true .full) :=
        Holds.append.2 ⟨holds_exprs_cons.2 ⟨hreq, .nil⟩, holds_exprs_cons.2 ⟨hvalue, .nil⟩⟩
      exact h.precede (.transaction frame) hwrap rfl

theorem traceRequest_stages {passed : List Stmt} {cursor : Cursor} {frame : Frame}
    (app : Application) (h : Opening passed cursor frame) :
    Trace.wp (traceRequest cursor) (fun cursor' frame' _ => Stage passed cursor' frame')
      frame app := by
  unfold traceRequest
  simp only [Trace.wp_bind, Trace.wp_get]
  split
  · exact h.stage
  · simp only [Trace.wp_bind, Trace.wp_types]
    split
    · exact h.stage
    · next call hcall =>
      split
      · exact h.stage
      · next hdo =>
        split
        · exact h.stage
        · next req hreq =>
          have hstartless : Holds startless ((bare req).calls true) := by
            rw [bare, Expr.calls_redecorate]
            exact holds_primaryCall hcall h.current req (List.mem_of_mem_head? hreq)
          split
          · exact segmentRequest_stages app h hstartless
              (isEnding_request hcall (by simpa using hdo))
          · exact attachToRequest_stages app h hstartless

/-! ## Queries -/

theorem startless_queryWithContext {method : String} (hmethod : method ∈ queryMethods) {call : Call}
    {decs : Decorations} (h : Holds startless ((⟨.call call, decs⟩ : Expr).calls true)) :
    Holds startless ((⟨.call (queryWithContext method call), decs⟩ : Expr).calls true) := by
  have hnames : ∀ method ∈ queryMethods, method ++ "Context" ∉ boundaryNames := by decide
  obtain ⟨⟨kind, calleeDecs⟩, args, spread, closesLine⟩ := call
  obtain ⟨hcall, hcallee, hargs⟩ := Expr.holds_of_holds_call h
  have hargs' : Holds startless (callsOfExprs true
      (queryWithContext method ⟨⟨kind, calleeDecs⟩, args, spread, closesLine⟩).args) :=
    holds_exprs_cons.2 ⟨.nil, hargs⟩
  cases kind with
  | selector operand member =>
      exact Expr.holds_call (startless_admits _ _ _ rfl rfl (hnames method hmethod)) hcallee hargs'
  | _ => exact Expr.holds_call ⟨hcall.transaction, hcall.segment⟩ hcallee hargs'

theorem startless_modify {f : Stmt → Stmt} (hf : ∀ stmt, (f stmt).kind = stmt.kind) (offset : Nat)
    {stmts : List Stmt} (h : StartlessStmts stmts) : StartlessStmts (stmts.modify offset f) := by
  induction stmts generalizing offset with
  | nil => simpa using h
  | cons stmt stmts ih =>
      obtain ⟨hstmt, hstmts⟩ := List.forall_mem_cons.1 h
      cases offset with
      | zero => exact List.forall_mem_cons.2 ⟨hf stmt ▸ hstmt, hstmts⟩
      | succ offset => exact List.forall_mem_cons.2 ⟨hstmt, ih offset hstmts⟩

theorem startless_endQuery (offset : Nat) (cursor : Cursor) (h : StartlessStmts cursor.rest) :
    StartlessStmts (endQuery offset cursor).rest := by
  have hrest := startless_modify (f := fun stmt => { stmt with decs := stmt.decs.withoutAfter })
    (fun _ => rfl) offset h
  exact List.forall_mem_append.2 ⟨fun stmt hmem => hrest stmt (List.mem_of_mem_take hmem),
    List.forall_mem_cons.2
      ⟨startless_endTransaction, fun stmt hmem => hrest stmt (List.mem_of_mem_drop hmem)⟩⟩

/-- A transaction for a query starts where no segment is open. -/
theorem Stage.query {passed rest : List Stmt} {cursor : Cursor} {frame frame' : Frame}
    (h : Stage passed cursor frame) (hclosed : frame.hasTransaction = false)
    (hmain : frame'.inMain = frame.inMain) {start bind stmt : Stmt} (hstart : Sealed start)
    (hbind : Holds startless (bind.kind.calls true .full))
    (hstmt : Holds startless (stmt.kind.calls true .full)) (hrest : StartlessStmts rest) :
    Stage passed
      { cursor with before := bind :: start :: cursor.before, current := stmt, rest := rest }
      frame' where
  inMain := hmain.trans h.inMain
  current := hstmt
  rest := hrest
  row := by
    obtain ⟨lead, hbefore, hbrackets⟩ := h.row
    generalize cursor.after = after at hbrackets ⊢
    cases hbrackets with
    | none hlead hafter =>
        refine ⟨lead ++ [start, bind], by simp [hbefore], .none ?_ hafter⟩
        exact List.forall_mem_append.2 ⟨hlead, List.forall_mem_cons.2
          ⟨hstart, List.forall_mem_singleton.2 (sealed_of_startless hbind)⟩⟩
    | segment _ _ _ _ _ _ htransaction =>
        rw [hclosed] at htransaction
        contradiction

theorem runInTransaction_stages {passed : List Stmt} {method : String} {call : Call}
    {cursor : Cursor} {frame : Frame} (app : Application) (h : Stage passed cursor frame)
    (hclosed : frame.hasTransaction = false) (hmethod : method ∈ queryMethods)
    (hcall : primaryCall? cursor.current = some call) :
    Trace.wp (runInTransaction method cursor) (fun cursor' frame' _ => Stage passed cursor' frame')
      frame app := by
  unfold runInTransaction
  simp only [Trace.wp_bind, Trace.wp_get, Trace.wp_modify, Trace.wp_modifyGet, Trace.wp_needImport]
  have hquery : Holds startless
      ((mapPrimaryCall (queryWithContext method) cursor.current).kind.calls true .full) :=
    holds_mapPrimaryCall hcall (fun _ => startless_queryWithContext hmethod) h.current
  have hcontext : Holds startless ((Expr.call (.qualified "context" "Background") []).calls true) :=
    Expr.holds_named startless_admits (by decide) .nil .nil
  have hbind : ∀ declared, Holds startless ((bindVariable contextVariable (newContext
      (.call (.qualified "context" "Background") []) (.ident transactionVariable))
        declared).kind.calls true .full) := fun declared =>
    holds_bindVariable declared (holds_newContext startless_admits hcontext .nil)
  have hmain : ((Frame.declare { frame with queried := true } transactionVariable).declare
      contextVariable).inMain = frame.inMain :=
    ((Frame.Abides.declare _ _).trans (.declare _ _)).inMain
  split
  · simp only [Trace.wp_bind, Trace.wp_modify, Trace.wp_pure]
    refine h.query hclosed ?_ (sealed_startTransaction _ _ _ _) (hbind _) ?_ ?_
    · exact hmain
    · exact hquery
    · exact startless_endQuery _ cursor h.rest
  · rw [Trace.wp_pure]
    refine Stage.trails (h.query hclosed ?_ (sealed_startTransaction _ _ _ _) (hbind _) ?_ h.rest)
      (Trails.refl.insertAfter ?_)
    · exact hmain
    · exact hquery
    · exact startless_endTransaction

theorem traceQuery_stages {passed : List Stmt} {cursor : Cursor} {frame : Frame}
    (app : Application) (h : Stage passed cursor frame) :
    Trace.wp (traceQuery cursor) (fun cursor' frame' _ => Stage passed cursor' frame') frame app := by
  unfold traceQuery
  simp only [Trace.wp_bind, Trace.wp_get, Trace.wp_types]
  split
  · exact h
  · split
    · exact h.trails (Trails.refl.reframe ⟨rfl, rfl⟩)
    · split
      · exact h
      · next hqueried =>
        split
        · exact h
        · next method hmethod =>
          obtain ⟨database, -, hmethod⟩ := Option.bind_eq_some_iff.1 hmethod
          obtain ⟨call, callee, hcall, -, -, -, hmem⟩ := queryMethod?_eq_some hmethod
          have hclosed : frame.hasTransaction = false := by
            simp only [Bool.or_eq_true, not_or, Bool.not_eq_true] at hqueried
            exact hqueried.2
          exact runInTransaction_stages app h hclosed hmem hcall

end TraceWeave.Tracing
