import TraceWeave.Proofs.Tracing.ScopedWalk
import TraceWeave.Proofs.Tracing.SegmentDetectors

/-!
The walk through the entry function and its segments.

A visit turns the current statement into a row of statements that closes the segment it
starts (`visit_rows`).  Rows end with no start of a transaction, so that a segment in front of
which one stands is in the same row, and whole lists close their segments
(`walkBlock_closesSegments`).
-/

namespace TraceWeave.Tracing

open TraceWeave.Agent TraceWeave.Detect TraceWeave.Program TraceWeave.Syntax TraceWeave.Types

/-! ## Calls -/

/-- A change that brings in no start, in a frame of the same kind. -/
def spared : Visits (List Advisory × Frame × Application) := fun before after =>
  KeepsStartless before.1 after.1 ∧ before.2.2.1.Abides after.2.2.1

theorem passCall_spares (walk : Walk) (async : Bool) (call : Call) (advisories : List Advisory)
    (frame : Frame) (app : Application) :
    Advised.wp (passCall walk async call) (fun call' _ frame' _ =>
      (∀ decs, KeepsStartless ⟨.call call, decs⟩ ⟨.call call', decs⟩) ∧ frame.Abides frame')
      advisories frame app := by
  apply wp_passCall (fun _ => ⟨.refl_call call, .refl⟩)
  rintro ref carrier func _ - rfl
  have hpasses := carrier.passes app.types func.params call async (app.mayInstrument ref) frame.txn
  exact ⟨hpasses.spares, ⟨rfl, rfl⟩⟩

theorem passCall_followsSpared (walk : Walk) :
    (Edits.calls false (passCall walk false)).Follows Advised.threaded spared := by
  refine ⟨fun call decs s => .inl ?_, fun ident decs s => .inr rfl⟩
  obtain ⟨hspares, hframe⟩ := passCall_spares walk false call s.1 s.2.1 s.2.2
  exact ⟨hspares decs, hframe⟩

theorem abides_of_steps {α : Type} {rewrites : Expr → Expr → α → α → Prop}
    {before after : α × List Advisory × Frame × Application}
    (steps : Steps rewrites spared before after) : before.2.2.1.Abides after.2.2.1 := by
  induction steps with
  | refl => exact .refl
  | tail _ hstep ih =>
      obtain ⟨part, part', hvisit, -⟩ := hstep
      exact ih.trans hvisit.2

theorem passCalls_spares (walk : Walk) {stmt : Stmt} (hspawn : isSpawn stmt = false)
    (advisories : List Advisory) (frame : Frame) (app : Application)
    (h : Holds startless (stmt.kind.calls true .full)) :
    Advised.wp (passCalls walk stmt) (fun stmt' _ frame' _ =>
      Holds startless (stmt'.kind.calls true .full) ∧ frame.Abides frame') advisories frame app := by
  obtain ⟨kind, decs⟩ := stmt
  unfold passCalls
  split
  · next value hkind =>
    obtain rfl : kind = .spawn value := hkind
    contradiction
  · have hsteps := kind.edit_steps (passCall_followsSpared walk) .own (advisories, frame, app)
    have hvisits : ∀ before after, spared before after → KeepsStartless before.1 after.1 :=
      fun _ _ h => h.1
    exact ⟨startless_of_steps (.inl rfl) hvisits hsteps h, abides_of_steps hsteps⟩

theorem passAndAdvise_spares (walk : Walk) {cursor : Cursor}
    (hspawn : isSpawn cursor.current = false) (frame : Frame) (app : Application)
    (h : Holds startless (cursor.current.kind.calls true .full)) :
    Trace.wp (passAndAdvise walk cursor) (fun cursor' frame' _ =>
      (∃ stmt, cursor' = cursor.replace stmt ∧ Holds startless (stmt.kind.calls true .full)) ∧
        frame.Abides frame') frame app := by
  unfold passAndAdvise
  rw [Trace.wp_bind]
  apply Trace.wp.mono (passCalls_spares walk hspawn [] frame app h)
  rintro ⟨stmt, advisories⟩ frame' app' ⟨hstmt, hframe⟩
  rw [Trace.wp_bind]
  apply (attachAll_attends advisories stmt frame' app').mono
  rintro stmt' frame'' app'' ⟨hkind, rfl⟩
  exact ⟨⟨stmt', rfl, hkind ▸ hstmt⟩, hframe⟩

theorem Opening.replace {passed : List Stmt} {cursor : Cursor} {frame frame' : Frame}
    (h : Opening passed cursor frame) (hframe : frame.Abides frame') {stmt : Stmt}
    (hstmt : Holds startless (stmt.kind.calls true .full)) :
    Opening passed (cursor.replace stmt) frame' :=
  ⟨hframe.inMain.trans h.inMain, hstmt, h.rest, h.row⟩

theorem startOwnTransaction_opening (name : String) {cursor : Cursor} {frame : Frame}
    (app : Application) (h : Opening cursor.before cursor frame) (hafter : cursor.after = []) :
    Trace.wp (startOwnTransaction name cursor) (fun cursor' frame' _ =>
      cursor'.current.kind = cursor.current.kind ∧ Opening cursor.before cursor' frame')
      frame app := by
  unfold startOwnTransaction
  simp only [Trace.wp_bind, Trace.wp_get, Trace.wp_modify, Trace.wp_pure]
  refine ⟨rfl, (Frame.Abides.declare _ _).inMain.trans h.inMain, h.current, h.rest, [_], rfl, ?_⟩
  simp only [Cursor.insertAfter, Cursor.insertBefore, Cursor.replace, hafter, List.nil_append]
  exact .own

theorem traceCalls_opening (walk : Walk) {cursor : Cursor} {frame : Frame} (app : Application)
    (hmain : frame.inMain = true) (hafter : cursor.after = [])
    (hcurrent : Holds startless (cursor.current.kind.calls true .full))
    (hrest : StartlessStmts cursor.rest) :
    Trace.wp (traceCalls walk cursor) (fun result frame' _ =>
      Opening cursor.before result.1 frame') frame app := by
  have hopening : Opening cursor.before cursor frame :=
    ⟨hmain, hcurrent, hrest, [], rfl, hafter ▸ .none⟩
  unfold traceCalls
  simp only [Trace.wp_bind, Trace.wp_get, Trace.wp_app]
  split
  · exact hopening
  · split
    · rw [Trace.wp_bind]
      exact Trace.wp_attach fun decs console _ => hopening.trails (Trails.refl.redress decs)
    · next hplain =>
      have hspawn : isSpawn cursor.current = false := by simpa [hmain] using hplain
      split
      · split
        · exact hopening
        · split
          · exact hopening
          · next ref _ =>
            rw [Trace.wp_bind]
            apply (startOwnTransaction_opening ref.key app hopening hafter).mono
            rintro cursor' frame' app' ⟨hkind, hopening'⟩
            have hspawn' : isSpawn cursor'.current = false := by
              unfold isSpawn
              rw [hkind]
              exact hspawn
            rw [Trace.wp_bind]
            apply (passAndAdvise_spares walk hspawn' frame' app' hopening'.current).mono
            rintro _ frame'' app'' ⟨⟨stmt, rfl, hstmt⟩, hframe⟩
            exact hopening'.replace hframe hstmt
      · rw [Trace.wp_bind]
        apply (passAndAdvise_spares walk hspawn frame app hcurrent).mono
        rintro _ frame' app' ⟨⟨stmt, rfl, hstmt⟩, hframe⟩
        exact hopening.replace hframe hstmt

/-! ## Detectors -/

theorem statementDetectors_stages {passed : List Stmt} (walk : Walk) {cursor : Cursor}
    {frame : Frame} (app : Application) (h : Opening passed cursor frame) :
    Trace.wp ((statementDetectors walk).foldlM (fun cursor detector => detector.detect cursor)
      cursor) (fun cursor' frame' _ => Stage passed cursor' frame') frame app := by
  rw [statementDetectors, List.foldlM_cons, Trace.wp_bind]
  apply (traceLiteral_trails walk cursor app h.inMain).mono
  intro cursor₁ frame₁ app₁ h₁
  rw [List.foldlM_cons, Trace.wp_bind]
  apply (wrapRegistration_trails cursor₁ frame₁ app₁).mono
  intro cursor₂ frame₂ app₂ h₂
  rw [List.foldlM_cons, Trace.wp_bind]
  apply (traceRequest_stages app₂ ((h.trails h₁).trails h₂)).mono
  intro cursor₃ frame₃ app₃ h₃
  rw [List.foldlM_cons, Trace.wp_bind]
  apply (installMiddleware_trails cursor₃ frame₃ app₃).mono
  rintro cursor₄ frame₄ app₄ ⟨_, h₄⟩
  rw [List.foldlM_cons, Trace.wp_bind]
  apply (interceptServers_trails cursor₄ frame₄ app₄).mono
  rintro cursor₅ frame₅ app₅ ⟨_, h₅⟩
  rw [List.foldlM_cons, Trace.wp_bind]
  apply (wrapHandlers_trails cursor₅ frame₅ app₅).mono
  rintro cursor₆ frame₆ app₆ ⟨_, h₆⟩
  rw [List.foldlM_cons, Trace.wp_bind]
  exact traceQuery_stages app₆ (((h₃.trails h₄).trails h₅).trails h₆)

/-! ## Blocks -/

/-- The walk leaves lists behind that close their segments. -/
def Walk.ClosesSegments (walk : Walk) : Prop :=
  ∀ stmts frame app, StartlessStmts stmts → frame.inMain = true →
    Trace.wp (walk stmts) (fun stmts' frame' _ =>
      (∀ list, ListIn list stmts' → SegmentsClose list) ∧ frame'.inMain = true) frame app

theorem startless_of_mem_blocks {kind : StmtKind} (h : Holds startless (kind.calls true .full))
    {block : List Stmt} (hblock : block ∈ kind.blocks) : StartlessStmts block :=
  holds_stmts.1 (kind.holds_blocks h block hblock)

theorem editBlocks_closesSegments {walk : Walk} (hwalk : walk.ClosesSegments) {stmt : Stmt}
    {frame : Frame} (app : Application) (h : Holds startless (stmt.kind.calls true .full))
    (hmain : frame.inMain = true) :
    Trace.wp (stmt.editBlocks walk) (fun stmt' frame' _ =>
      (stmt'.kind = stmt.kind ∨ stmt.kind.isCompound = true ∧ stmt'.kind.isCompound = true) ∧
        Inside SegmentsClose stmt' ∧ frame'.inMain = true) frame app := by
  obtain ⟨hrefilled, hmain'⟩ := @StmtKind.editBlocks_refill Trace _ _ _ Trace.threaded walk
    StartlessStmts (fun stmts => ∀ list, ListIn list stmts → SegmentsClose list)
    (fun s => s.1.inMain = true) (fun stmts s hstmts hs => hwalk stmts s.1 s.2 hstmts hs) stmt.kind
    (frame, app) (fun _ => startless_of_mem_blocks h) hmain
  refine ⟨hrefilled.same, fun inner hinner => ?_, hmain'⟩
  rcases List.mem_append.1 hinner with hblock | hliteral
  · exact hrefilled.blocks inner hblock
  · have hliteral := hrefilled.headers ▸ hliteral
    exact inside_of_startless h inner (List.mem_append_right _ hliteral)

/-! ## Visits -/

/-- The statement that a visit leaves behind. -/
structure Visited (stmt stmt' : Stmt) : Prop where
  shut : Shut stmt'
  inside : Inside SegmentsClose stmt'
  ending : isEnding stmt = false → isEnding stmt' = false

theorem visited_of_same {stmt stmt' : Stmt} (h : Holds startless (stmt.kind.calls true .full))
    (hsame : stmt'.kind = stmt.kind ∨ stmt.kind.isCompound = true ∧ stmt'.kind.isCompound = true)
    (hinside : Inside SegmentsClose stmt') : Visited stmt stmt' := by
  rcases hsame with hkind | ⟨-, hcompound⟩
  · have hreforms : Reforms stmt stmt' := .of_kind hkind
    refine ⟨shut_of_startless (hkind ▸ h), hinside, fun hending => Bool.eq_false_iff.2 fun hends => ?_⟩
    rw [hreforms.ending hends] at hending
    contradiction
  · obtain ⟨kind, decs⟩ := stmt'
    cases kind with
    | expr value => contradiction
    | assign left op right => contradiction
    | _ => exact ⟨⟨rfl, rfl⟩, hinside, fun _ => rfl⟩

theorem closeVisit_visits {walk : Walk} (hwalk : walk.ClosesSegments) (started : Bool)
    {cursor : Cursor} {frame : Frame} (app : Application)
    (h : Holds startless (cursor.current.kind.calls true .full)) (hmain : frame.inMain = true) :
    Trace.wp (closeVisit walk started cursor) (fun cursor' frame' _ =>
      (∃ stmt, cursor' = cursor.replace stmt ∧ Visited cursor.current stmt) ∧ frame'.inMain = true)
      frame app := by
  unfold closeVisit
  rw [Trace.wp_bind]
  apply (editBlocks_closesSegments hwalk app h hmain).mono
  rintro stmt frame' app' ⟨hsame, hinside, hmain'⟩
  simp only [Trace.wp_bind, Trace.wp_modify, Trace.wp_pure]
  refine ⟨⟨stmt, rfl, visited_of_same h hsame hinside⟩, ?_⟩
  have hdeclared : (frame'.declareStmt stmt).inMain = true :=
    (Frame.Continues.declareStmt frame' stmt).inMain.trans hmain'
  cases started with
  | true => exact hdeclared
  | false =>
      rw [if_neg Bool.false_ne_true, if_pos hdeclared]
      exact (continues_followTransaction stmt hdeclared).inMain.trans hdeclared

/-- The statements of a visit close their segments, and start no transaction at the end. -/
structure Rows (cursor cursor' : Cursor) : Prop where
  row : ∃ row, cursor'.passed = row.reverse ++ cursor.before ∧ SegmentsClose row ∧
    row.getLast?.any opensTransaction = false ∧ ∀ stmt ∈ row, Inside SegmentsClose stmt
  rest : StartlessStmts cursor'.rest

theorem Brackets.closes {frame : Frame} {lead trail : List Stmt} {stmt stmt' : Stmt}
    (h : Brackets frame lead stmt trail) (hvisited : Visited stmt stmt') :
    SegmentsClose (lead ++ stmt' :: trail) := by
  cases h with
  | none hlead htrail =>
      refine .of_none (List.forall_mem_append.2 ⟨fun other hmem => (hlead other hmem).segment,
        List.forall_mem_cons.2 ⟨hvisited.shut.segment, fun other hmem => ?_⟩⟩)
      exact (htrail other hmem).2.segment
  | @segment front trail start stmt hfront hstart _ hrequest htrail hfinishes _ =>
      rw [List.append_assoc, List.singleton_append]
      refine .of_one (fun other hmem => (hfront other hmem).segment)
        (List.forall_mem_cons.2 ⟨hvisited.shut.segment, fun other hmem => ?_⟩)
        (hfinishes.reform (hvisited.ending hrequest))
      exact (htrail other hmem).2.segment

theorem Brackets.last {frame : Frame} {lead trail : List Stmt} {stmt stmt' : Stmt}
    (h : Brackets frame lead stmt trail) (hvisited : Visited stmt stmt') :
    (lead ++ stmt' :: trail).getLast?.any opensTransaction = false := by
  have htrail : ∀ other ∈ stmt' :: trail, opensTransaction other = false := by
    refine List.forall_mem_cons.2 ⟨hvisited.shut.transaction, ?_⟩
    cases h with
    | none _ htrail => exact fun other hmem => (htrail other hmem).1
    | segment _ _ _ _ htrail _ _ => exact fun other hmem => (htrail other hmem).1
  rw [List.getLast?_append_of_ne_nil _ (List.cons_ne_nil _ _)]
  exact (Option.any_eq_false _ _).2 fun other hlast => by
    simp [htrail other (List.mem_of_getLast? hlast)]

theorem Brackets.inside {frame : Frame} {lead trail : List Stmt} {stmt stmt' : Stmt}
    (h : Brackets frame lead stmt trail) (hvisited : Visited stmt stmt') :
    ∀ other ∈ lead ++ stmt' :: trail, Inside SegmentsClose other := by
  refine List.forall_mem_append.2 ⟨?_, List.forall_mem_cons.2 ⟨hvisited.inside, ?_⟩⟩
  · cases h with
    | none hlead _ => exact fun other hmem => (hlead other hmem).inside
    | segment hfront _ hstart _ _ _ _ =>
        exact List.forall_mem_append.2 ⟨fun other hmem => (hfront other hmem).inside,
          List.forall_mem_singleton.2 hstart⟩
  · cases h with
    | none _ htrail => exact fun other hmem => (htrail other hmem).2.inside
    | segment _ _ _ _ htrail _ _ => exact fun other hmem => (htrail other hmem).2.inside

theorem visit_rows {walk : Walk} (hwalk : walk.ClosesSegments) (cursor : Cursor) {frame : Frame}
    (app : Application) (hmain : frame.inMain = true) (hafter : cursor.after = [])
    (hcurrent : Holds startless (cursor.current.kind.calls true .full))
    (hrest : StartlessStmts cursor.rest) :
    Trace.wp (visit walk cursor) (fun cursor' frame' _ =>
      Rows cursor cursor' ∧ frame'.inMain = true) frame app := by
  unfold visit
  rw [Trace.wp_bind]
  apply (traceCalls_opening walk app hmain hafter hcurrent hrest).mono
  rintro ⟨cursor₁, started⟩ frame₁ app₁ hopening
  simp only [Trace.wp_bind, Trace.wp_get, hopening.inMain, Bool.not_true, Bool.false_and,
    Bool.false_eq_true, if_false, Trace.wp_pure]
  rw [finishVisit_eq_bind, Trace.wp_bind]
  apply (statementDetectors_stages walk app₁ hopening).mono
  intro cursor₂ frame₂ app₂ hstage
  apply (closeVisit_visits hwalk started app₂ hstage.current hstage.inMain).mono
  rintro _ frame₃ app₃ ⟨⟨stmt, rfl, hvisited⟩, hmain₃⟩
  obtain ⟨lead, hbefore, hbrackets⟩ := hstage.row
  refine ⟨⟨⟨lead ++ stmt :: cursor₂.after, ?_, hbrackets.closes hvisited, hbrackets.last hvisited,
    hbrackets.inside hvisited⟩, hstage.rest⟩, hmain₃⟩
  simp [Cursor.passed, Cursor.replace, hbefore]

/-! ## Lists -/

/-- The statements behind a cursor close the segments that are started among them. -/
theorem walkFrom_closesSegments {walk : Walk} (hwalk : walk.ClosesSegments) (limit : Nat)
    (passed rest : List Stmt) {frame : Frame} (app : Application) (hmain : frame.inMain = true)
    (hrest : StartlessStmts rest) :
    Trace.wp (walkFrom (visit walk) limit passed rest) (fun stmts' frame' _ =>
      (∃ row, stmts' = passed.reverse ++ row ∧ SegmentsClose row ∧
        ∀ stmt ∈ row, Inside SegmentsClose stmt) ∧ frame'.inMain = true) frame app := by
  induction limit generalizing passed rest frame app with
  | zero =>
      cases rest with
      | nil => exact ⟨⟨[], (List.append_nil _).symm, .of_none (by simp), by simp⟩, hmain⟩
      | cons current rest =>
          exact ⟨⟨current :: rest, rfl, segmentsClose_of_startless (holds_stmts.2 hrest),
            fun stmt hmem => inside_of_startless (hrest stmt hmem)⟩, hmain⟩
  | succ limit ih =>
      cases rest with
      | nil => exact ⟨⟨[], (List.append_nil _).symm, .of_none (by simp), by simp⟩, hmain⟩
      | cons current rest =>
          obtain ⟨hcurrent, hrest⟩ := List.forall_mem_cons.1 hrest
          rw [walkFrom, Trace.wp_bind]
          apply Trace.wp.mono
            (visit_rows hwalk { before := passed, current, rest } app hmain rfl hcurrent hrest)
          rintro cursor' frame' app' ⟨⟨⟨row, hpassed, hcloses, hlast, hinside⟩, hrest'⟩, hmain'⟩
          apply (ih cursor'.passed cursor'.rest app' hmain' hrest').mono
          rintro stmts' frame'' app'' ⟨⟨row', rfl, hcloses', hinside'⟩, hmain''⟩
          refine ⟨⟨row ++ row', ?_, hcloses.append hlast hcloses',
            List.forall_mem_append.2 ⟨hinside, hinside'⟩⟩, hmain''⟩
          rw [hpassed, List.reverse_append, List.reverse_reverse, List.append_assoc]

theorem walkBlock_closesSegments (depth : Nat) : (walkBlock depth).ClosesSegments := by
  induction depth with
  | zero =>
      intro stmts frame app hstmts hmain
      refine ⟨fun list hlist => ?_, hmain⟩
      obtain ⟨reached, hcalls⟩ := hlist.holds (holds_stmts.2 hstmts)
      exact segmentsClose_of_startless hcalls
  | succ depth ih =>
      intro stmts frame app hstmts hmain
      simp only [walkBlock, walkList, Trace.wp_bind, Trace.wp_modify]
      have hpushed : frame.pushScope.inMain = true := hmain
      apply (walkFrom_closesSegments ih (stmts.length + 1) [] stmts app hpushed hstmts).mono
      rintro stmts' frame' app' ⟨⟨row, rfl, hcloses, hinside⟩, hmain'⟩
      refine ⟨fun list hlist => ?_, (Frame.Continues.popScope frame').inMain.trans hmain'⟩
      rcases listIn_cases hlist with rfl | ⟨stmt, hstmt, inner, hinner, hlist⟩
      · exact hcloses
      · exact hinside stmt hstmt inner hinner list hlist

end TraceWeave.Tracing
