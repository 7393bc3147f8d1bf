import TraceWeave.Proofs.Tracing.ScopedWalk

/-!
The top of a traced body.

Before the walk, tracing looks for a segment and for a binding of the transaction; behind
it, tracing puts at the top of the body what is missing.  The walk opens no segment there,
and leaves alone what the decision rests on, so that a body gains at most one segment, right
behind its binding (`traceBody_opensOnce`).  A use of the transaction that the walk notes
brings the binding in even if nothing comes to read it.
-/

namespace TraceWeave.Tracing

open TraceWeave.Agent TraceWeave.Program TraceWeave.Syntax

/-! ## Before the walk -/

section

variable (frame : Frame) (stmts : List Stmt)

theorem Frame.inMain_settled : (frame.settled stmts).inMain = frame.inMain := by
  unfold Frame.settled
  split <;> rfl

theorem Frame.carrier_settled : (frame.settled stmts).carrier = frame.carrier := by
  unfold Frame.settled
  split <;> rfl

theorem Frame.used_settled : (frame.settled stmts).used = frame.used := by
  unfold Frame.settled
  split <;> rfl

end

/-! ## Behind the walk -/

/-- What stands at the top of a traced body, and why. -/
structure Tops (frame : Frame) (stmts walked : List Stmt) (binding opening : Option Stmt)
    (used : Bool) : Prop where
  opens : opening =
    if segments stmts = 0 ∧ frame.hasTransaction = true then
      frame.segment.map (deferSegment · (frame.settled stmts).txn)
    else none
  binds : binding = if used then (frame.settled stmts).pending else none
  uses : frame.used = true ∨ opening.isSome = true → used = true
  /-- The walk adds no reader of the variable without a use, but of a context of that name. -/
  reads : readsTransaction walked = true →
    readsTransaction stmts = true ∨ used = true ∨ transactionVariable ∈ frame.sources

theorem opening?_eq (frame : Frame) (stmts : List Stmt) :
    frame.opening? (stmts.any isDeferSegment) =
      if segments stmts = 0 ∧ frame.hasTransaction = true then
        frame.segment.map (deferSegment · frame.txn)
      else none := by
  rw [any_isDeferSegment, Frame.opening?]
  rcases Nat.eq_zero_or_pos (segments stmts) with hnone | hsome
  · cases htransaction : frame.hasTransaction <;> simp [hnone]
  · simp [hsome, Nat.ne_of_gt hsome]

/--
Outside of the entry function, tracing opens one segment at the top of a body that has none,
if there is a transaction and a name for the segment, and none otherwise.  The pending binding
stands right in front of it if the transaction counts as used, as it does for the segment
and for everything that the walk makes read the transaction.
-/
theorem traceBody_opensOnce (depth : Nat) (body : Block) {frame : Frame}
    (hmain : frame.inMain = false) (app : Application) :
    Trace.wp (traceBody (walkBlock depth) body) (fun body' frame' app' =>
      ∃ walked binding opening, Retouches app body.stmts app' walked ∧
        Tops frame body.stmts walked binding opening frame'.used ∧
        body'.stmts = walked.take (frame.top body.stmts) ++
          (binding.toList ++ opening.toList) ++ walked.drop (frame.top body.stmts)) frame app := by
  have hmain' : (frame.settled body.stmts).inMain = false :=
    (frame.inMain_settled body.stmts).trans hmain
  rw [wp_traceBody]
  refine ((walkBlock_retouches depth body.stmts (frame.settled body.stmts) app).and
    (walkBlock_scoped (fun _ => False) depth body.stmts (frame.settled body.stmts) app)).mono ?_
  rintro walked frame' app' ⟨⟨hretouches, hprecedes⟩, hscopes⟩
  -- what the prologue looks at is as it was in front of the walk
  have hcarrier : frame'.carrier = frame.carrier :=
    (hscopes.continues.carrier hmain').trans (frame.carrier_settled body.stmts)
  have htxn := hscopes.continues.txn hmain'
  have hpending := hscopes.continues.pending hmain'
  have hsegment : frame'.segment = frame.segment :=
    hprecedes.segment.trans (precedes_settled frame body.stmts).segment
  have hopening : frame'.opening? (body.stmts.any isDeferSegment) =
      if segments body.stmts = 0 ∧ frame.hasTransaction = true then
        frame.segment.map (deferSegment · (frame.settled body.stmts).txn)
      else none := by
    rw [opening?_eq, Frame.hasTransaction, hcarrier, htxn, hsegment, ← Frame.hasTransaction]
  refine ⟨walked, _, _, hretouches, ⟨hopening, ?_, ?_, ?_⟩, rfl⟩
  · simp only [Frame.prologue, hpending]
  · rintro (hused | hopened)
    · have hused' : (frame.settled body.stmts).used = true :=
        (frame.used_settled body.stmts).trans hused
      simp [Frame.prologue, hscopes.continues.used hused']
    · simp [Frame.prologue, hopened]
  · intro hreads
    obtain hbefore | ⟨-, ⟨hused, -⟩ | hsource⟩ := hscopes.reads hmain' hreads
    · exact .inl hbefore
    · exact .inr (.inl (by simp [Frame.prologue, hused]))
    · refine .inr (.inr ?_)
      unfold Frame.sources at hsource ⊢
      rwa [hcarrier] at hsource

/-- A frame that a context reaches. -/
def contextFrame : Frame :=
  { Frame.traced "app" "agent" (.context "ctx") transactionVariable with segment := some "serve" }

def plainBody : Block := { stmts := [.expr (.call (.ident "work") [])] }

theorem traceBody_opensOnce_contextFrame :
    contextFrame.inMain = false ∧
      Trace.wp (traceBody (walkBlock 1) plainBody) (fun body' frame' app' =>
        ∃ walked binding opening,
          Retouches (.ofPackages [] {} "agent" "") plainBody.stmts app' walked ∧
          Tops contextFrame plainBody.stmts walked binding opening frame'.used ∧
          body'.stmts = walked.take (contextFrame.top plainBody.stmts) ++
            (binding.toList ++ opening.toList) ++ walked.drop (contextFrame.top plainBody.stmts))
        contextFrame (.ofPackages [] {} "agent" "") :=
  ⟨rfl, traceBody_opensOnce 1 plainBody rfl (.ofPackages [] {} "agent" "")⟩

example : (((traceBody (walkBlock 1) plainBody).run contextFrame).run
    (.ofPackages [] {} "agent" "")).1.1.stmts =
      [bindFromContext transactionVariable (.ident "ctx"), deferSegment "serve" transactionVariable,
        .expr (.call (.ident "work") [])] := by
  cbv

end TraceWeave.Tracing
