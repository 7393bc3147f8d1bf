import TraceWeave.Proofs.Tracing.EntryWalk
import TraceWeave.Proofs.Tracing.ServingDetectors

/-!
The walk through a function that a transaction was passed to.

A visit serves the calls that it offers and keeps those served that were offered before
(`visit_serves`).  The blocks of a statement are walked through in their turn, so that the whole
walk serves all calls that it comes to (`walkBlock_serves`).
-/

namespace TraceWeave.Tracing

open TraceWeave.Agent TraceWeave.Detect TraceWeave.Program TraceWeave.Syntax TraceWeave.Types

/-- A list that the walk has still to go through, and the state that it finds it in. -/
structure Underway (name : String) (depth : Nat) (stmts : List Stmt) (frame : Frame)
    (app : Application) : Prop where
  frame : frame.Carries name
  consistent : Consistent app
  aligned : Holds (Aligned app) (callsOfStmts true stmts)
  depth : depthOfStmts stmts < depth

namespace Underway

variable {name : String} {depth : Nat} {stmts stmts' : List Stmt} {frame frame' : Frame}
  {app app' : Application}

theorem weaves (h : Underway name depth stmts frame app) (hweaves : Weaves app stmts app' stmts')
    (hframe : frame'.Carries name) : Underway name depth stmts' frame' app' := by
  obtain ⟨hconsistent, haligned⟩ := hweaves.consistent h.consistent h.aligned
  exact ⟨hframe, hconsistent, haligned, Nat.lt_of_le_of_lt hweaves.depth_le h.depth⟩

theorem moves {cursor cursor' : Cursor} (h : Underway name depth cursor.toList frame app)
    (hmoves : Moves cursor frame app cursor' frame' app') (hframe : frame'.Carries name) :
    Underway name depth cursor'.toList frame' app' :=
  h.weaves hmoves.weaves hframe

/-- The statement that the cursor is on. -/
theorem current {cursor : Cursor} (h : Underway name depth cursor.toList frame app) :
    Underway name depth [cursor.current] frame app := by
  obtain ⟨hframe, hconsistent, haligned, hdepth⟩ := h
  rw [Cursor.toList_eq] at haligned hdepth
  simp only [callsOfStmts_append, callsOfStmts_cons, Holds.append, depthOfStmts_append,
    depthOfStmts_cons] at haligned hdepth
  refine ⟨hframe, hconsistent, ?_, ?_⟩
  · rw [callsOfStmts_cons, Holds.append]
    exact ⟨haligned.2.1, .nil⟩
  · rw [depthOfStmts_cons]
    simp only [depthOfStmts]
    omega

theorem kind {stmt : Stmt} (h : Underway name depth [stmt] frame app) :
    Holds (Aligned app) (stmt.kind.calls true .full) := by
  have haligned := h.aligned
  rw [callsOfStmts_cons, Holds.append] at haligned
  exact haligned.1

/-- The calls that are offered where the statement is met. -/
theorem offered {stmt : Stmt} (h : Underway name depth [stmt] frame app) :
    ∀ call ∈ stmt.kind.offered, Aligned app true call := by
  intro call hcall
  have hopen := stmt.kind.isOpen .full rfl call (stmt.kind.offered_subset hcall)
  exact h.kind _ hopen.reached

theorem block {stmt : Stmt} (h : Underway name (depth + 1) [stmt] frame app) {block : List Stmt}
    (hblock : block ∈ stmt.kind.blocks) : Underway name depth block frame app := by
  have hdepth := h.depth
  rw [depthOfStmts_cons] at hdepth
  have hlt := stmt.kind.depth_of_mem_blocks block hblock
  have haligned := stmt.kind.holds_blocks h.kind block hblock
  exact ⟨h.frame, h.consistent, haligned, by omega⟩

end Underway

/-- All calls that the walk offers are served in the end. -/
def Walk.Serves (walk : Walk) (depth : Nat) : Prop :=
  ∀ name stmts frame app, Underway name depth stmts frame app →
    Trace.wp (walk stmts) (fun stmts' frame' app' =>
      frame'.Carries name ∧ ServedStmts app' stmts') frame app

/-! ## Calls -/

section

variable {walk : Walk} (hwalk : walk.Weaves) {name : String} {depth : Nat} {cursor : Cursor}
  {frame : Frame} {app : Application} (h : Underway name depth cursor.toList frame app)
  (hbefore : ServedStmts app cursor.before) (hafter : cursor.after = [])

include hwalk h in
theorem passCurrent_serves : Advised.wp (passCalls walk cursor.current)
    (fun stmt' _ frame' app' => frame'.Carries name ∧ Grows app app' ∧
      ∀ call ∈ stmt'.kind.offered, Served app' call) [] frame app := by
  obtain ⟨hready, hserved⟩ := passCalls_serves hwalk h.consistent cursor.current
    (s := ([], frame, app)) ⟨h.frame, .refl⟩ h.current.offered
  exact ⟨hready.frame, hready.grows, hserved⟩

include hwalk h hbefore hafter

theorem passAndAdvise_serves : Trace.wp (passAndAdvise walk cursor) (fun cursor' frame' app' =>
    frame'.Carries name ∧ Serves app' cursor') frame app := by
  have hdiffer := h.consistent.placesDiffer
  unfold passAndAdvise
  rw [Trace.wp_bind]
  apply Trace.wp.mono (passCurrent_serves hwalk h)
  rintro ⟨stmt, advisories⟩ frame' app' ⟨hframe, hgrows, hserved⟩
  have hdiffer' := placesDiffer_of_outline hgrows.outline hdiffer
  rw [Trace.wp_bind]
  apply ((attachAll_attends advisories stmt frame' app').and
    (attachAll_alters advisories stmt frame' app')).mono
  rintro stmt' frame'' app'' ⟨⟨hkind, rfl⟩, -, hretouches⟩
  have hgrows' := (hretouches [] []).weaves.grows hdiffer'
  have hall := hgrows.trans hdiffer hgrows'
  exact ⟨hframe, {
    placesDiffer := placesDiffer_of_outline hall.outline hdiffer
    apart := apart_of_outline hall.outline h.consistent.apart
    before := hbefore.grows hdiffer hall
    after := hafter ▸ servedStmts_nil
    current := fun call hcall => (hserved call (hkind ▸ hcall)).grows hdiffer' hgrows' }⟩

/-- The calls of a statement are offered, unless it calls nothing but entry functions. -/
theorem traceCalls_serves : Trace.wp (traceCalls walk cursor) (fun result frame' app' =>
    result.2 = false ∧ frame'.Carries name ∧ Serves app' result.1) frame app := by
  unfold traceCalls
  simp only [Trace.wp_bind, Trace.wp_get, Trace.wp_app, h.frame.inMain, Bool.false_and,
    Bool.false_eq_true, if_false]
  split
  · next hmain =>
    refine ⟨rfl, h.frame, h.consistent.placesDiffer, h.consistent.apart, hbefore,
      hafter ▸ servedStmts_nil, fun call hcall hwritten ref params hresolve hkey => ?_⟩
    have hopen := cursor.current.kind.isOpen .full rfl call
      (cursor.current.kind.offered_subset hcall)
    obtain ⟨part, hpart, hcall⟩ := hopen.part
    obtain ⟨expr, hexpr, hpart⟩ := List.mem_flatMap.1 hpart
    have hown : call ∈ Application.ownCalls cursor.current :=
      List.mem_flatMap.2 ⟨expr, hexpr, List.mem_filterMap.2 ⟨part, hpart, hcall⟩⟩
    have hcalled : ref ∈ app.calledBy cursor.current := List.mem_filterMap.2 ⟨call, hown, hresolve⟩
    exact absurd (beq_iff_eq.1 (List.all_eq_true.1 hmain ref hcalled)) hkey
  · rw [Trace.wp_bind]
    apply (passAndAdvise_serves hwalk h hbefore hafter).mono
    exact fun cursor' frame' app' hserves => ⟨rfl, hserves⟩

end

/-! ## Blocks -/

theorem openCalls_of_replaces {stmts stmts' : List Stmt} {kind kind' : StmtKind}
    (h : StmtKind.Replaces stmts stmts' kind kind') : kind'.openCalls = kind.openCalls := by
  induction h with
  | branch inline => exact (offered_cond ..).trans (offered_cond ..).symm
  | alternative _ _ => exact (offered_cond ..).trans (offered_cond ..).symm
  | labeled _ ih => exact ih
  | _ => rfl

theorem offered_of_replaces {stmts stmts' : List Stmt} {kind kind' : StmtKind}
    (h : StmtKind.Replaces stmts stmts' kind kind') : kind'.offered = kind.offered := by
  have hopen := openCalls_of_replaces h
  cases h <;> exact hopen

/-- What a statement itself offers does not depend on its blocks. -/
theorem offered_editBlocks {m : Type → Type} [Monad m] [LawfulMonad m] {σ : Type}
    (threaded : Threaded m σ) (edit : List Stmt → m (List Stmt)) (kind : StmtKind) (s : σ) :
    (threaded.run (kind.editBlocks edit) s).1.offered = kind.offered := by
  have hsteps : BlockSteps threaded edit (kind, s) (threaded.run (kind.editBlocks edit) s) :=
    kind.editBlocks_steps s
  generalize threaded.run (kind.editBlocks edit) s = after at hsteps ⊢
  induction hsteps with
  | refl => rfl
  | tail _ hstep ih =>
      obtain ⟨stmts, hreplaces, -⟩ := hstep
      exact (offered_of_replaces hreplaces).trans ih

section

variable {walk : Walk} (hwalk : walk.Weaves) {name : String} {depth : Nat}
  (hserves : walk.Serves depth)

include hwalk hserves

/-- The walk through one block leaves what it needs for the next one. -/
theorem Walk.Serves.fills : Fills Trace.threaded walk
    (fun s block => Underway name depth block s.1 s.2)
    (fun s block => (s.1.Carries name ∧ Consistent s.2) ∧ ServedStmts s.2 block)
    (fun s s' => s.1.Carries name ∧ Consistent s.2 →
      (s'.1.Carries name ∧ Consistent s'.2) ∧ Grows s.2 s'.2) where
  refl _ hs := ⟨hs, .refl⟩
  trans h h' hs := by
    obtain ⟨hs', hgrows⟩ := h hs
    obtain ⟨hs'', hgrows'⟩ := h' hs'
    exact ⟨hs'', hgrows.trans hs.2.placesDiffer hgrows'⟩
  before h hblock := by
    obtain ⟨⟨hframe', happ'⟩, hgrows⟩ := h ⟨hblock.frame, hblock.consistent⟩
    exact ⟨hframe', happ', hblock.aligned.imp (hblock.consistent.weaken hgrows), hblock.depth⟩
  after h hblock := by
    obtain ⟨hs', hgrows⟩ := h hblock.1
    exact ⟨hs', hblock.2.grows hblock.1.2.placesDiffer hgrows⟩
  edit {s block} h := by
    obtain ⟨hframe, hserved⟩ := hserves name block s.1 s.2 h
    obtain ⟨hweaves, -⟩ := hwalk block s.1 s.2
    have hafter := h.weaves hweaves hframe
    exact ⟨⟨⟨hframe, hafter.consistent⟩, hserved⟩, fun hs =>
      ⟨⟨hframe, hafter.consistent⟩, hweaves.grows hs.2.placesDiffer⟩⟩

theorem editBlocks_serves {stmt : Stmt} {frame : Frame} {app : Application}
    (h : Underway name (depth + 1) [stmt] frame app)
    (hstmt : ∀ call ∈ stmt.kind.offered, Served app call) :
    Trace.wp (stmt.editBlocks walk) (fun stmt' frame' app' =>
      frame'.Carries name ∧ Grows app app' ∧ ServedStmts app' [stmt']) frame app := by
  obtain ⟨kind, decs⟩ := stmt
  obtain ⟨hblocks, hlater⟩ := (hserves.fills hwalk).blocks (s := (frame, app)) kind
    fun block hblock => h.block hblock
  obtain ⟨⟨hframe', -⟩, hgrows⟩ := hlater ⟨h.frame, h.consistent⟩
  refine ⟨hframe', hgrows, servedStmts_iff.2 (List.forall_mem_singleton.2
    ⟨fun call hcall => ?_, fun block hblock => (hblocks block hblock).2⟩)⟩
  have hoffered := offered_editBlocks Trace.threaded walk kind (frame, app)
  exact (hstmt call (hoffered ▸ hcall)).grows h.consistent.placesDiffer hgrows

/-! ## Visits -/

omit hwalk hserves in
theorem Frame.Carries.declareStmt {frame : Frame} (h : frame.Carries name) (stmt : Stmt) :
    (frame.declareStmt stmt).Carries name := by
  unfold Frame.declareStmt
  split
  · generalize (List.filterMap Expr.ident? _).filter (!·.isBlank) = idents
    induction idents generalizing frame with
    | nil => exact h
    | cons ident idents ih =>
        refine ih ?_
        show (frame.declare ident.name).Carries name
        unfold Frame.declare
        split
        · exact h
        · exact h.of_eq rfl rfl
  · exact h

omit hserves in
/-- Detectors one after the other. -/
theorem detectors_serve {cursor : Cursor} {frame : Frame} {app : Application}
    (hframe : frame.Carries name) (h : Serves app cursor) :
    Trace.wp ((statementDetectors walk).foldlM (fun cursor detector => detector.detect cursor) cursor)
      (fun cursor' frame' app' => frame'.Carries name ∧ Serves app' cursor') frame app := by
  have hkeeps : ∀ detector ∈ statementDetectors walk, ∀ cursor frame app, frame.inMain = false →
      Trace.wp (detector.detect cursor) (KeepsServed cursor frame app) frame app :=
    fun detector hdetector cursor _ app hmain =>
      statementDetectors_keepServed hwalk hdetector cursor app hmain
  generalize statementDetectors walk = detectors at hkeeps
  induction detectors generalizing cursor frame app with
  | nil => exact ⟨hframe, h⟩
  | cons detector detectors ih =>
      rw [List.foldlM_cons, Trace.wp_bind]
      apply (hkeeps detector (by simp) cursor frame app hframe.inMain).mono
      intro cursor' frame' app' hkept
      exact ih (hframe.of_eq hkept.inMain hkept.carrier) (hkept.serves h)
        fun detector hmem => hkeeps detector (by simp [hmem])

theorem closeVisit_serves {cursor : Cursor} {frame : Frame} {app : Application}
    (h : Underway name (depth + 1) cursor.toList frame app) (hcursor : Serves app cursor) :
    Trace.wp (closeVisit walk false cursor) (fun cursor' frame' app' =>
      frame'.Carries name ∧ ServedStmts app' cursor'.passed) frame app := by
  unfold closeVisit
  rw [Trace.wp_bind]
  apply (editBlocks_serves hwalk hserves h.current hcursor.current).mono
  rintro stmt' frame' app' ⟨hframe', hgrows, hserved⟩
  have hdeclared := hframe'.declareStmt stmt'
  simp only [Trace.wp_bind, Trace.wp_modify, Trace.wp_pure, Bool.false_eq_true, if_false,
    hdeclared.inMain]
  refine ⟨hdeclared, servedStmts_append.2 ⟨?_, servedStmts_cons.2 ⟨hserved, ?_⟩⟩⟩
  · exact (hcursor.after.grows hcursor.placesDiffer hgrows).mono (List.reverse_subset.2
      (List.Subset.refl _))
  · exact hcursor.before.grows hcursor.placesDiffer hgrows

/-- A visit serves what it offers, and what was served before stays so. -/
theorem visit_serves {cursor : Cursor} {frame : Frame} {app : Application}
    (h : Underway name (depth + 1) cursor.toList frame app)
    (hbefore : ServedStmts app cursor.before) (hafter : cursor.after = []) :
    Trace.wp (visit walk cursor) (fun cursor' frame' app' =>
      frame'.Carries name ∧ ServedStmts app' cursor'.passed) frame app := by
  unfold visit
  rw [Trace.wp_bind]
  apply ((traceCalls_serves hwalk h hbefore hafter).and (traceCalls_moves hwalk cursor frame app)).mono
  rintro ⟨cursor₁, started⟩ frame₁ app₁ ⟨⟨hstarted, hframe₁, hserves₁⟩, hmoves₁⟩
  obtain rfl : started = false := hstarted
  have hcarried : frame₁.hasTransaction = true := by simp [Frame.hasTransaction, hframe₁.carrier]
  simp only [Trace.wp_bind, Trace.wp_get, hframe₁.inMain, hcarried, Bool.not_false, Bool.and_self,
    if_true]
  apply ((noticeErrors_keepsServed cursor₁ frame₁ app₁).and
    (noticeErrors_moves cursor₁ frame₁ app₁)).mono
  rintro cursor₂ frame₂ app₂ ⟨hkept, hmoves₂⟩
  have hframe₂ := hframe₁.of_eq hkept.inMain hkept.carrier
  rw [finishVisit_eq_bind, Trace.wp_bind]
  apply ((detectors_serve hwalk hframe₂ (hkept.serves hserves₁)).and
    (foldlM_moves _ (statementDetectors_moves hwalk) cursor₂ frame₂ app₂)).mono
  rintro cursor₃ frame₃ app₃ ⟨⟨hframe₃, hserves₃⟩, hmoves₃⟩
  have hmoves := hmoves₁.trans (hmoves₂.trans hmoves₃)
  exact closeVisit_serves hwalk hserves (h.moves hmoves hframe₃) hserves₃

/-! ## Lists -/

theorem walkFrom_serves (limit : Nat) (passed rest : List Stmt) {frame : Frame} {app : Application}
    (h : Underway name (depth + 1) (passed.reverse ++ rest) frame app)
    (hpassed : ServedStmts app passed) (hlimit : rest.length + frame.credit ≤ limit) :
    Trace.wp (walkFrom (visit walk) limit passed rest) (fun stmts' frame' app' =>
      frame'.Carries name ∧ ServedStmts app' stmts') frame app := by
  have hdone : ServedStmts app passed.reverse :=
    hpassed.mono (List.reverse_subset.2 (List.Subset.refl _))
  induction limit generalizing passed rest frame app with
  | zero =>
      obtain rfl : rest = [] := List.length_eq_zero_iff.1 (by omega)
      exact ⟨h.frame, hdone⟩
  | succ limit ih =>
      cases rest with
      | nil => exact ⟨h.frame, hdone⟩
      | cons current rest =>
          generalize hcursor : ({ before := passed, current, rest } : Cursor) = cursor
          have hlist : cursor.toList = passed.reverse ++ current :: rest := by
            rw [← hcursor, Cursor.toList_eq]
            rfl
          rw [← hlist] at h
          rw [walkFrom, Trace.wp_bind, hcursor]
          apply ((visit_serves hwalk hserves h (by rwa [← hcursor]) (by rw [← hcursor])).and
            (visit_moves hwalk cursor frame app)).mono
          rintro cursor' frame' app' ⟨⟨hframe', hserved⟩, hmoves⟩
          have hcredit := hmoves.credit
          rw [← hcursor] at hcredit
          simp only [List.length_cons] at hlimit hcredit
          exact ih cursor'.passed cursor'.rest (h.moves hmoves hframe') hserved (by omega)
            (hserved.mono (List.reverse_subset.2 (List.Subset.refl _)))

end

theorem Frame.Carries.popScope {name : String} {frame : Frame} (h : frame.Carries name) :
    frame.popScope.Carries name := by
  unfold Frame.popScope
  split
  · exact h.of_eq rfl rfl
  · exact h

/-- The walk serves all calls that it offers, in lists that are less deep than it can go. -/
theorem walkBlock_serves (depth : Nat) : (walkBlock depth).Serves depth := by
  induction depth with
  | zero => exact fun name stmts frame app h => absurd h.depth (Nat.not_lt_zero _)
  | succ depth ih =>
      intro name stmts frame app h
      have hpushed : Underway name (depth + 1) ([].reverse ++ stmts) frame.pushScope app :=
        ⟨h.frame.of_eq rfl rfl, h.consistent, h.aligned, h.depth⟩
      have hlimit : stmts.length + frame.pushScope.credit ≤ stmts.length + 1 := by
        unfold Frame.credit
        split <;> omega
      simp only [walkBlock, walkList, Trace.wp_bind, Trace.wp_modify]
      apply (walkFrom_serves (walkBlock_weaves depth) ih (stmts.length + 1) [] stmts hpushed
        servedStmts_nil hlimit).mono
      rintro stmts' frame' app' ⟨hframe', hserved⟩
      exact ⟨hframe'.popScope, hserved⟩

/-! ## Bodies -/

theorem IsContext.writtenAmong {calls : List Call} {ctx : Expr} (h : IsContext ctx) :
    WrittenAmong calls ctx.openCalls := by
  cases h with
  | method name => exact .member .nil (List.forall_mem_nil _)
  | _ => exact .nil

/-- What is put at the top of a body calls nothing of the application. -/
theorem Frame.Binds.servedStmts {frame : Frame} (hbinds : frame.Binds) (hasSegment : Bool)
    (app : Application) : ServedStmts app (frame.prologue hasSegment).1 := by
  have hgenerated : ∀ stmt : Stmt, stmt.kind.blocks = [] → WrittenAmong [] stmt.kind.openCalls →
      ServedStmts app [stmt] :=
    fun stmt hblocks hamong => servedStmts_of_writtenAmong hblocks hamong (List.forall_mem_nil _)
  refine servedStmts_append.2 ⟨?_, ?_⟩
  · cases hbinding : (if frame.used || (frame.opening? hasSegment).isSome then frame.pending else none) with
    | none => exact servedStmts_nil
    | some stmt =>
        split at hbinding
        · obtain ⟨name, ctx, hctx, rfl⟩ := hbinds stmt hbinding
          refine hgenerated _ rfl (.of_append .nil ?_)
          exact .exprs (List.forall_mem_singleton.2
            (.member .nil (List.forall_mem_singleton.2 hctx.writtenAmong)))
        · contradiction
  · cases hopening : frame.opening? hasSegment with
    | none => exact servedStmts_nil
    | some stmt =>
        unfold Frame.opening? at hopening
        split at hopening
        · contradiction
        · obtain ⟨name, -, rfl⟩ := Option.map_eq_some_iff.1 hopening
          refine hgenerated _ rfl (.member (.member .nil ?_) (List.forall_mem_nil _))
          exact List.forall_mem_singleton.2 .nil

/-- All calls are served that the walk through a body offers. -/
theorem traceBody_serves {name : String} {depth : Nat} {body : Block} {frame : Frame}
    {app : Application} (h : Underway name depth body.stmts frame app) (hbinds : frame.Binds) :
    Trace.wp (traceBody (walkBlock depth) body) (fun body' _ app' => ServedStmts app' body'.stmts)
      frame app := by
  have hframe : (frame.settled body.stmts).Carries name := by
    unfold Frame.settled
    split
    · exact h.frame
    · exact h.frame.of_eq rfl rfl
  rw [wp_traceBody]
  apply ((walkBlock_serves depth name body.stmts (frame.settled body.stmts) app
    ⟨hframe, h.consistent, h.aligned, h.depth⟩).and
      (walkBlock_weaves depth body.stmts (frame.settled body.stmts) app)).mono
  rintro stmts frame' app' ⟨⟨-, hserved⟩, -, hprecedes⟩
  have hprologue := (hbinds.later ((precedes_settled frame body.stmts).trans hprecedes)).servedStmts
    (body.stmts.any isDeferSegment) app'
  refine servedStmts_append.2 ⟨servedStmts_append.2 ⟨?_, hprologue⟩, ?_⟩
  · exact hserved.mono (List.take_subset ..)
  · exact hserved.mono (List.drop_subset ..)

end TraceWeave.Tracing
