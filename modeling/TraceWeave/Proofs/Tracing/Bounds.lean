import TraceWeave.Proofs.Syntax.Agreement
import TraceWeave.Proofs.Tracing.Pending
import TraceWeave.Proofs.Tracing.Walk

/-!
No walk reaches its bounds.

`walkWith` is the tracing walk, free to do anything where it would be too deep and where
it would visit too many statements.  Both walks agree as long as the bodies that are left
to be entered and the list at hand fit into the depth that is left (`Fits`), since a
walk takes from one what it adds to the other.
-/

namespace TraceWeave.Tracing

open TraceWeave.Agent TraceWeave.Detect TraceWeave.Program TraceWeave.Syntax TraceWeave.Types

/-- A walk along a list that goes on as `halt` says where it has used up its limit. -/
def walkFromWith {m : Type → Type} [Monad m] (halt : List Stmt → List Stmt → m (List Stmt))
    (visit : Cursor → m Cursor) : Nat → List Stmt → List Stmt → m (List Stmt)
  | _, passed, [] => pure passed.reverse
  | 0, passed, rest => halt passed rest
  | limit + 1, passed, current :: rest => do
      let cursor ← visit { before := passed, current, rest }
      walkFromWith halt visit limit cursor.passed cursor.rest

/-- A tracing walk that goes on as `stop` says where it has used up its depth. -/
def walkWith (stop : Walk) (halt : List Stmt → Walk) : Nat → Walk
  | 0 => stop
  | depth + 1 => fun stmts => do
      modify Frame.pushScope
      let stmts ← walkFromWith halt (visit (walkWith stop halt depth)) (stmts.length + 1) [] stmts
      modify Frame.popScope
      return stmts

theorem walkFromWith_pure {m : Type → Type} [Monad m] (visit : Cursor → m Cursor) (limit : Nat)
    (passed rest : List Stmt) :
    walkFromWith (fun passed rest => pure (passed.reverse ++ rest)) visit limit passed rest =
      walkFrom visit limit passed rest := by
  induction limit generalizing passed rest with
  | zero => cases rest <;> rfl
  | succ limit ih => cases rest <;> simp only [walkFromWith, walkFrom, ih]

/-- The tracing walk leaves alone what lies beyond its bounds. -/
theorem walkWith_pure (depth : Nat) :
    walkWith pure (fun passed rest => pure (passed.reverse ++ rest)) depth = walkBlock depth := by
  induction depth with
  | zero => rfl
  | succ depth ih =>
      funext stmts
      simp only [walkWith, walkBlock, walkList, ih, walkFromWith_pure]

/-! ## Room -/

/-- What may still be entered leaves some room within a bound. -/
structure Fits (room bound : Nat) (app : Application) : Prop where
  placesDiffer : app.PlacesDiffer
  pending_le : room + app.pending ≤ bound

namespace Fits

variable {room room' bound : Nat} {app app' : Application} {stmts stmts' : List Stmt}

theorem mono (h : Fits room bound app) (hle : room' ≤ room) : Fits room' bound app := by
  have hpending := h.pending_le
  exact ⟨h.placesDiffer, by omega⟩

theorem weaves (h : Fits room bound app) (hweaves : Weaves app stmts app' stmts') :
    Fits room bound app' := by
  have hpending := h.pending_le
  have hle := hweaves.pending_le h.placesDiffer
  exact ⟨placesDiffer_of_outline (hweaves.grows h.placesDiffer).outline h.placesDiffer, by omega⟩

/-- The list that a walk is on stays within the bound. -/
theorem walks (h : Fits (depthOfStmts stmts) bound app) (hweaves : Weaves app stmts app' stmts') :
    Fits (depthOfStmts stmts') bound app' :=
  (h.weaves hweaves).mono hweaves.depth_le

end Fits

/-- The walks do the same to all lists that fit. -/
def Walk.AgreeBelow (walk walk' : Walk) (bound : Nat) : Prop :=
  ∀ stmts frame app, Fits (depthOfStmts stmts + 1) bound app →
    walk stmts frame app = walk' stmts frame app

/-! ## Sequences -/

theorem Weave.bind_eq {α β : Type} {x y : Weave α} {f g : α → Weave β} {app : Application}
    (hx : x app = y app) (hf : Weave.wp x (fun a app' => f a app' = g a app') app) :
    (x >>= f) app = (y >>= g) app := by
  show f (x app).1 (x app).2 = g (y app).1 (y app).2
  rw [← hx]
  exact hf

theorem Trace.bind_eq {α β : Type} {x y : Trace α} {f g : α → Trace β} {frame : Frame}
    {app : Application} (hx : x frame app = y frame app)
    (hf : Trace.wp x (fun a frame' app' => f a frame' app' = g a frame' app') frame app) :
    (x >>= f) frame app = (y >>= g) frame app := by
  show f (x frame app).1.1 (x frame app).1.2 (x frame app).2 =
    g (y frame app).1.1 (y frame app).1.2 (y frame app).2
  rw [← hx]
  exact hf

theorem Trace.lift_eq {α : Type} {x y : Weave α} {app : Application} (h : x app = y app)
    (frame : Frame) : (liftM x : Trace α) frame app = (liftM y : Trace α) frame app :=
  congrArg (fun result : α × Application => ((result.1, frame), result.2)) h

theorem Advised.lift_eq {α : Type} {x y : Weave α} {app : Application} (h : x app = y app)
    (advisories : List Advisory) (frame : Frame) :
    (liftM x : Advised α) advisories frame app = (liftM y : Advised α) advisories frame app :=
  congrArg (fun result : α × Application => (((result.1, advisories), frame), result.2)) h

theorem Advised.bind_eq {α β : Type} {x y : Advised α} {f g : α → Advised β}
    {advisories : List Advisory} {frame : Frame} {app : Application}
    (hx : x advisories frame app = y advisories frame app)
    (hf : Advised.wp x (fun a advisories' frame' app' =>
      f a advisories' frame' app' = g a advisories' frame' app') advisories frame app) :
    (x >>= f) advisories frame app = (y >>= g) advisories frame app :=
  Trace.bind_eq hx hf

/-- Computations that do the same, and keep a condition on the application. -/
def Advised.agreeing (I : Application → Prop) : Congruence Advised where
  rel x y := ∀ advisories frame app, I app →
    x advisories frame app = y advisories frame app ∧ I (x advisories frame app).2
  rel_pure _ _ _ _ h := ⟨rfl, h⟩
  rel_bind hx hf advisories frame app h := by
    obtain ⟨heq, hafter⟩ := hx advisories frame app h
    obtain ⟨heq', hafter'⟩ := hf _ _ _ _ hafter
    refine ⟨?_, hafter'⟩
    refine heq'.trans ?_
    rw [heq]
    rfl
  rel_map f _ _ hx advisories frame app h := by
    obtain ⟨heq, hafter⟩ := hx advisories frame app h
    refine ⟨?_, hafter⟩
    exact congrArg (fun result => (((f result.1.1.1, result.1.1.2), result.1.2), result.2)) heq

/-- Computations that do the same, and keep a condition on the application. -/
def Trace.agreeing (I : Application → Prop) : Congruence Trace where
  rel x y := ∀ frame app, I app → x frame app = y frame app ∧ I (x frame app).2
  rel_pure _ _ _ h := ⟨rfl, h⟩
  rel_bind hx hf frame app h := by
    obtain ⟨heq, hafter⟩ := hx frame app h
    obtain ⟨heq', hafter'⟩ := hf _ _ _ hafter
    refine ⟨?_, hafter'⟩
    refine heq'.trans ?_
    rw [heq]
    rfl
  rel_map f _ _ hx frame app h := by
    obtain ⟨heq, hafter⟩ := hx frame app h
    refine ⟨?_, hafter⟩
    exact congrArg (fun result => ((f result.1.1, result.1.2), result.2)) heq

/-! ## Bodies and calls -/

section

variable {walk walk' : Walk}

theorem traceBody_eq {body : Block} {app : Application}
    (h : ∀ frame, walk body.stmts frame app = walk' body.stmts frame app) (frame : Frame) :
    traceBody walk body frame app = traceBody walk' body frame app := by
  unfold traceBody
  refine Trace.bind_eq rfl ?_
  rw [Trace.wp_get]
  generalize (if frame.pending.isSome then existingBinding? body.stmts else none) = existing
  cases existing with
  | none => exact Trace.bind_eq rfl (Trace.bind_eq (h frame) rfl)
  | some existing => exact Trace.bind_eq rfl (Trace.bind_eq rfl (Trace.bind_eq (h _) rfl))

theorem traceFunction_eq {ref : FuncRef} {app : Application}
    (h : ∀ body, app.body? ref = some body → ∀ frame,
      walk body.stmts frame ((app.noteEntered ref).setBody ref none) =
        walk' body.stmts frame ((app.noteEntered ref).setBody ref none)) (frame : Frame) :
    traceFunction walk ref frame app = traceFunction walk' ref frame app := by
  unfold traceFunction Weave.withBody
  refine Weave.bind_eq (Weave.bind_eq rfl ?_) rfl
  rw [Weave.wp_get]
  cases hbody : app.body? ref with
  | none => rfl
  | some body =>
      refine Weave.bind_eq rfl (Weave.bind_eq (Weave.bind_eq rfl ?_) rfl)
      exact Weave.bind_eq (traceBody_eq (h body hbody) frame) rfl

theorem passCalls_rel (congruence : Congruence Advised)
    (hcall : ∀ async call, congruence.rel (passCall walk async call) (passCall walk' async call))
    (stmt : Stmt) : congruence.rel (passCalls walk stmt) (passCalls walk' stmt) := by
  have hedits := Edits.agree_calls congruence false (hcall false)
  obtain ⟨kind, decs⟩ := stmt
  unfold passCalls
  split
  · split
    · exact congruence.rel_pure _
    · next call _ =>
      refine congruence.rel_bind ?_ fun args => ?_
      · exact congruence.rel_mapM call.args fun arg _ => arg.edit_rel hedits
      · exact congruence.rel_bind (hcall true _) fun _ => congruence.rel_pure _
  · exact congruence.rel_bind (kind.edit_rel hedits .own) fun _ => congruence.rel_pure _

variable {bound : Nat} (hagree : walk.AgreeBelow walk' bound)

include hagree

theorem followCall_eq {app : Application} (hfits : Fits 0 bound app) (caller : Frame) (async : Bool)
    (ref : FuncRef) (passing : Passing) :
    followCall walk caller async ref (app.mayInstrument ref) passing app =
      followCall walk' caller async ref (app.mayInstrument ref) passing app := by
  unfold followCall
  refine Weave.bind_eq rfl ?_
  rw [Weave.wp_modify]
  cases hmay : app.mayInstrument ref with
  | false => simp only [Bool.false_eq_true, if_false]
  | true =>
      simp only [if_true]
      refine Weave.bind_eq rfl (Weave.bind_eq (traceFunction_eq (fun body hbody frame => ?_) _) rfl)
      -- the depth of the body is taken away from what is left to be entered
      have hentered := (body?_applyTo passing ref app).symm.trans hbody
      have henter := pending_enter hfits.placesDiffer hmay hentered passing
      have hpending := hfits.pending_le
      have houtline := (outline_opened (passing.applyTo ref app) ref).trans
        (outline_applyTo app ref passing)
      show walk body.stmts frame (opened (passing.applyTo ref app) ref) =
        walk' body.stmts frame (opened (passing.applyTo ref app) ref)
      exact hagree body.stmts frame _
        ⟨placesDiffer_of_outline houtline hfits.placesDiffer, by omega⟩

theorem passCall_eq {app : Application} (hfits : Fits 0 bound app) (async : Bool) (call : Call)
    (advisories : List Advisory) (frame : Frame) :
    passCall walk async call advisories frame app =
      passCall walk' async call advisories frame app := by
  unfold passCall
  refine Advised.bind_eq rfl ?_
  rw [Advised.wp_lift, Trace.wp_get]
  refine Advised.bind_eq rfl ?_
  rw [Advised.wp_lift, Trace.wp_app]
  cases app.resolve? call with
  | none => dsimp only
  | some ref =>
      cases frame.carrier with
      | none => dsimp only
      | some carrier =>
          dsimp only
          cases hkey : ref.key == "main" with
          | true => simp only [if_true]
          | false =>
              simp only [Bool.false_eq_true, if_false]
              cases app.func? ref with
              | none => dsimp only
              | some func =>
                  refine Advised.bind_eq rfl (Advised.bind_eq ?_ rfl)
                  exact Advised.lift_eq (followCall_eq hagree hfits frame async ref _) advisories _

variable (hwalk : walk.Weaves)

include hwalk

theorem passCall_rel (async : Bool) (call : Call) :
    (Advised.agreeing (Fits 0 bound)).rel (passCall walk async call) (passCall walk' async call) := by
  intro advisories frame app hfits
  refine ⟨passCall_eq hagree hfits async call advisories frame, ?_⟩
  have hpassed : Advised.wp (passCall walk async call) _ advisories frame app :=
    passCall_passed hwalk async call advisories frame app
  obtain ⟨-, hretouches⟩ | ⟨-, -, -, happ⟩ := hpassed
  · exact hfits.weaves
      (hretouches {} [⟨.expr ⟨.call call, {}⟩, {}⟩] _ (.within [] (.expr rfl .here))).weaves
  · show Fits 0 bound (passCall walk async call advisories frame app).2
    rw [happ]
    exact hfits

theorem passCalls_eq {app : Application} (hfits : Fits 0 bound app) (stmt : Stmt)
    (advisories : List Advisory) (frame : Frame) :
    passCalls walk stmt advisories frame app = passCalls walk' stmt advisories frame app :=
  (passCalls_rel (Advised.agreeing (Fits 0 bound)) (passCall_rel hagree hwalk) stmt advisories frame
    app hfits).1

theorem passAndAdvise_eq {app : Application} (hfits : Fits 0 bound app) (cursor : Cursor)
    (frame : Frame) : passAndAdvise walk cursor frame app = passAndAdvise walk' cursor frame app := by
  unfold passAndAdvise
  exact Trace.bind_eq (passCalls_eq hagree hwalk hfits cursor.current [] frame) rfl

theorem traceCalls_eq {app : Application} (hfits : Fits 0 bound app) (cursor : Cursor)
    (frame : Frame) : traceCalls walk cursor frame app = traceCalls walk' cursor frame app := by
  unfold traceCalls
  refine Trace.bind_eq rfl ?_
  rw [Trace.wp_get]
  refine Trace.bind_eq rfl ?_
  rw [Trace.wp_app]
  split
  · rfl
  · split
    · rfl
    · split
      · split
        · rfl
        · cases firstReached? app (.transaction transactionVariable) cursor.current with
          | none => rfl
          | some ref =>
              refine Trace.bind_eq rfl ?_
              refine (startOwnTransaction_moves ref.key cursor frame app).mono ?_
              intro cursor' frame' app' hmoves
              exact Trace.bind_eq
                (passAndAdvise_eq hagree hwalk (hfits.weaves hmoves.weaves) cursor' frame') rfl
      · exact Trace.bind_eq (passAndAdvise_eq hagree hwalk hfits cursor frame) rfl

/-! ## Statements -/

omit hwalk in
theorem traceLiteral_eq {app : Application} {cursor : Cursor}
    (hfits : Fits cursor.current.kind.depth bound app) (frame : Frame) :
    traceLiteral walk cursor frame app = traceLiteral walk' cursor frame app := by
  unfold traceLiteral
  cases hliteral : spawnedLiteral? cursor.current with
  | none => rfl
  | some literal =>
      refine Trace.bind_eq rfl ?_
      rw [Trace.wp_get]
      split
      · rfl
      · split
        · rfl
        · next hplain =>
          simp only [Bool.or_eq_true, not_or, Bool.not_eq_true] at hplain
          refine Trace.bind_eq rfl ?_
          refine (handTransaction_alters (kind_of_spawnedLiteral? hliteral) hplain.2 frame app).mono ?_
          rintro result frame' app' ⟨-, ⟨rfl, -⟩ | ⟨literal', name, rfl, hhanded⟩⟩
          · rfl
          · have hweaves := (hhanded [] []).weaves
            have hle := hweaves.depth_le
            have hlt := (literal'.nests literal'.body.stmts).depth_lt
            simp only [List.nil_append, depthOfStmts_cons, depthOfStmts] at hle
            have hbody : Fits (depthOfStmts literal'.body.stmts + 1) bound app' :=
              (hfits.weaves hweaves).mono (by omega)
            refine Trace.bind_eq (Trace.lift_eq ?_ frame') rfl
            exact traceBody_eq (fun frame => hagree _ frame app' hbody) _

theorem editBlocks_eq {app : Application} {stmt : Stmt} (hfits : Fits stmt.kind.depth bound app)
    (frame : Frame) : stmt.editBlocks walk frame app = stmt.editBlocks walk' frame app := by
  obtain ⟨kind, decs⟩ := stmt
  have hrel : (Trace.agreeing (Fits kind.depth bound)).rel (kind.editBlocks walk)
      (kind.editBlocks walk') := by
    refine kind.editBlocks_rel fun stmts hlt frame app hfits => ?_
    have hwoven : Weaves app stmts (walk stmts frame app).2 (walk stmts frame app).1.1 :=
      (hwalk stmts frame app).1
    exact ⟨hagree stmts frame app (hfits.mono hlt), hfits.weaves hwoven⟩
  exact Trace.bind_eq (hrel frame app hfits).1 rfl

omit hagree hwalk in
theorem depth_current_le (cursor : Cursor) :
    cursor.current.kind.depth ≤ depthOfStmts cursor.toList := by
  rw [Cursor.toList_eq, depthOfStmts_append, depthOfStmts_cons]
  omega

theorem finishVisit_eq {app : Application} {cursor : Cursor}
    (hfits : Fits (depthOfStmts cursor.toList) bound app) (started : Bool) (frame : Frame) :
    finishVisit walk started cursor frame app = finishVisit walk' started cursor frame app := by
  unfold finishVisit
  refine Trace.bind_eq ?_ ?_
  · simp only [statementDetectors, List.foldlM_cons]
    exact Trace.bind_eq (traceLiteral_eq hagree (hfits.mono (depth_current_le cursor)) frame) rfl
  · refine (foldlM_moves _ (statementDetectors_moves hwalk) cursor frame app).mono ?_
    intro cursor' frame' app' hmoves
    have hfits' := (hfits.walks hmoves.weaves).mono (depth_current_le cursor')
    exact Trace.bind_eq (editBlocks_eq hagree hwalk hfits' frame') rfl

theorem visit_eq {app : Application} {cursor : Cursor}
    (hfits : Fits (depthOfStmts cursor.toList) bound app) (frame : Frame) :
    visit walk cursor frame app = visit walk' cursor frame app := by
  unfold visit
  refine Trace.bind_eq (traceCalls_eq hagree hwalk (hfits.mono (Nat.zero_le _)) cursor frame) ?_
  refine (traceCalls_moves hwalk cursor frame app).mono fun result frame' app' hcalls => ?_
  obtain ⟨cursor', started⟩ := result
  have hfits' := hfits.walks hcalls.weaves
  refine Trace.bind_eq rfl ?_
  rw [Trace.wp_get]
  split
  · refine Trace.bind_eq rfl ?_
    refine (noticeErrors_moves cursor' frame' app').mono fun cursor'' frame'' app'' hnotice => ?_
    exact finishVisit_eq hagree hwalk (hfits'.walks hnotice.weaves) started frame''
  · exact Trace.bind_eq rfl (finishVisit_eq hagree hwalk hfits' started frame')

end

/-! ## Lists -/

theorem walkFrom_eq {walk walk' : Walk} {bound : Nat} (hagree : walk.AgreeBelow walk' bound)
    (hwalk : walk.Weaves) (halt : List Stmt → Walk) (limit : Nat) (passed rest : List Stmt)
    (frame : Frame) (app : Application)
    (hfits : Fits (depthOfStmts (passed.reverse ++ rest)) bound app)
    (hlimit : rest.length + frame.credit ≤ limit) :
    walkFrom (visit walk) limit passed rest frame app =
      walkFromWith halt (visit walk') limit passed rest frame app := by
  induction limit generalizing passed rest frame app with
  | zero =>
      cases rest with
      | nil => rfl
      | cons current rest => simp at hlimit
  | succ limit ih =>
      cases rest with
      | nil => rfl
      | cons current rest =>
          have hlist : ({ before := passed, current, rest } : Cursor).toList =
              passed.reverse ++ current :: rest := by
            simp [Cursor.toList_eq]
          rw [← hlist] at hfits
          simp only [walkFrom, walkFromWith]
          refine Trace.bind_eq (visit_eq hagree hwalk hfits frame) ?_
          refine (visit_moves hwalk _ frame app).mono fun cursor frame' app' hmoves => ?_
          have hcredit := hmoves.credit
          simp only [List.length_cons] at hlimit hcredit
          exact ih cursor.passed cursor.rest frame' app' (hfits.walks hmoves.weaves) (by omega)

/-- Within its depth, a walk does not depend on what it would do beyond its bounds. -/
theorem walkBlock_agreeBelow (stop : Walk) (halt : List Stmt → Walk) (depth : Nat) :
    (walkBlock depth).AgreeBelow (walkWith stop halt depth) depth := by
  induction depth with
  | zero =>
      intro stmts frame app hfits
      have hpending := hfits.pending_le
      omega
  | succ depth ih =>
      intro stmts frame app hfits
      have hpending := hfits.pending_le
      have hinner : Fits (depthOfStmts stmts) depth app := ⟨hfits.placesDiffer, by omega⟩
      have hlimit : stmts.length + frame.pushScope.credit ≤ stmts.length + 1 := by
        unfold Frame.credit
        split <;> omega
      simp only [walkBlock, walkWith]
      refine Trace.bind_eq rfl (Trace.bind_eq ?_ rfl)
      exact walkFrom_eq ih (walkBlock_weaves depth) halt _ [] stmts _ app hinner hlimit

end TraceWeave.Tracing
