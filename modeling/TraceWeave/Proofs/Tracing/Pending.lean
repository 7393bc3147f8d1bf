import Mathlib.Algebra.GroupWithZero.Nat
import Mathlib.Algebra.Order.BigOperators.Group.List
import Mathlib.Algebra.Order.Group.Nat
import TraceWeave.Proofs.Tracing.Growth

/-!
How much a walk may still have to enter.

`pending` adds up the depths of the bodies that tracing has not gone into.  Weaving never
makes it greater (`Weaves.pending_le`), and going into a body takes the depth of that body
away from it (`pending_enter`).
-/

namespace TraceWeave.Program.Application

open TraceWeave.Order TraceWeave.Syntax

variable (app : Application)

/-- The depth of the body of a function. -/
def depthAt (ref : FuncRef) : Nat := bodyDepth (app.func? ref)

/-- The depth that a function still holds for a walk. -/
def pendingAt (ref : FuncRef) : Nat := if app.mayInstrument ref then app.depthAt ref else 0

def pending : Nat := (app.refs.map app.pendingAt).sum

theorem mem_refs_of_entry? {ref : FuncRef} (h : (app.entry? ref).isSome = true) :
    ref ∈ app.refs := by
  unfold entry? at h
  cases hpackage : app.package? ref.package with
  | none => simp [hpackage] at h
  | some package =>
      rw [hpackage, Option.bind_some] at h
      obtain ⟨entry, hentry⟩ := Option.isSome_iff_exists.1 h
      refine List.mem_flatMap.2 ⟨_, Table.mem_of_get? hpackage, List.mem_map.2 ⟨ref.key, ?_, rfl⟩⟩
      exact List.mem_map.2 ⟨_, Table.mem_of_get? hentry, rfl⟩

theorem depthAt_eq (ref : FuncRef) :
    app.depthAt ref = ((app.body? ref).map fun body => depthOfStmts body.stmts + 2).getD 0 := rfl

theorem pendingAt_eq (ref : FuncRef) :
    app.pendingAt ref = if app.isEligible ref && !app.isTraced ref then app.depthAt ref else 0 := by
  unfold pendingAt
  rw [mayInstrument_eq]
  cases app.isEligible ref && !app.isTraced ref with
  | false => rfl
  | true =>
      cases hbody : app.body? ref with
      | none => simp [depthAt_eq, hbody]
      | some body =>
          obtain ⟨func, hfunc, hbody⟩ := Option.bind_eq_some_iff.1 hbody
          simp [hfunc, hbody, depthAt]

end TraceWeave.Program.Application

namespace TraceWeave.Tracing

open TraceWeave.Agent TraceWeave.Detect TraceWeave.Program TraceWeave.Syntax TraceWeave.Types

theorem refs_of_outline {app app' : Application} (h : app'.outline = app.outline) :
    app'.refs = app.refs := by
  rw [← Application.refs_outline, h, Application.refs_outline]

/-! ## Bodies that have not been reached -/

theorem func?_setBody_of_ne {app : Application} (hdiffer : app.PlacesDiffer) {ref other : FuncRef}
    (hne : other ≠ ref) (body : Option Block) :
    (app.setBody ref body).func? other = app.func? other := by
  rw [Application.func?_eq, Application.func?_eq, Application.setBody, Application.place?_modifyFunc]
  cases hplace : app.place? other with
  | none => rfl
  | some place =>
      have hother : app.place? ref ≠ some place := fun hplace' =>
        hne (hdiffer other ref place hplace hplace')
      simp only [Option.bind_some, Application.funcAt?_modifyFunc, if_neg hother]

theorem body?_setBody_of_ne {app : Application} (hdiffer : app.PlacesDiffer) {ref other : FuncRef}
    (hne : other ≠ ref) (body : Option Block) :
    (app.setBody ref body).body? other = app.body? other := by
  rw [Application.body?, func?_setBody_of_ne hdiffer hne, Application.body?]

theorem body?_needImport (app : Application) (package path : String) (ref : FuncRef) :
    (app.needImport package path).body? ref = app.body? ref := by
  have hfuncs : (app.needImport package path).funcAt? = app.funcAt? :=
    funext (app.funcAt?_needImport package path)
  simp only [Application.body?, Application.func?_eq, Application.place?_needImport, hfuncs]

theorem body?_applyTo_eq (passing : Passing) (ref other : FuncRef) (app : Application) :
    (passing.applyTo ref app).body? other = app.body? other := by
  unfold Passing.applyTo
  split
  · show (((app.modifyFunc ref _)).func? other).bind _ = (app.func? other).bind _
    rw [Application.func?_eq, Application.func?_eq, Application.place?_modifyFunc]
    cases app.place? other with
    | none => rfl
    | some place =>
        simp only [Option.bind_some, Application.funcAt?_modifyFunc]
        split
        · cases app.funcAt? place <;> rfl
        · rfl
  · rfl

theorem func?_opened_of_ne {app : Application} (hdiffer : app.PlacesDiffer) {ref other : FuncRef}
    (hne : other ≠ ref) : (opened app ref).func? other = app.func? other := by
  have hmarked : ((app.markTraced ref).noteEntered ref).PlacesDiffer :=
    placesDiffer_of_outline (app.outline_markTraced ref) hdiffer
  refine (func?_setBody_of_ne hmarked hne none).trans ?_
  show (app.markTraced ref).func? other = _
  rw [Application.func?_markTraced]

theorem body?_opened_of_ne {app : Application} (hdiffer : app.PlacesDiffer) {ref other : FuncRef}
    (hne : other ≠ ref) : (opened app ref).body? other = app.body? other := by
  rw [Application.body?, func?_opened_of_ne hdiffer hne, Application.body?]

/-- Bodies change when they are entered only. -/
theorem Weaves.body?_eq {app app' : Application} {stmts stmts' : List Stmt}
    (h : Weaves app stmts app' stmts') : app.PlacesDiffer → ∀ ref, app'.isTraced ref = false →
      app'.body? ref = app.body? ref := by
  induction h with
  | trans h h' ih ih' =>
      intro hdiffer ref htraced
      have hdiffer' := placesDiffer_of_outline (h.grows hdiffer).outline hdiffer
      rw [ih' hdiffer' ref htraced]
      refine ih hdiffer ref ?_
      cases htraced' : Application.isTraced _ ref with
      | false => rfl
      | true => simp [(h'.grows hdiffer').isTraced ref htraced'] at htraced
  | needImport package path =>
      exact fun _ ref _ => body?_needImport _ package path ref
  | nested _ _ _ _ ih => exact ih
  | @enter app app' _ _ _ ref passing _ body' _ hands hmay _ _ _ h ih =>
      intro hdiffer other htraced
      have henter := Grows.enter hands hmay
      have houtline : (opened (passing.applyTo ref app) ref).outline = app.outline :=
        (outline_setBody ..).trans henter.outline
      have hdiffer' := placesDiffer_of_outline houtline hdiffer
      have hgrows := h.grows hdiffer'
      rw [isTraced_setBody] at htraced
      have hne : other ≠ ref := by
        rintro rfl
        have hself := @isTraced_opened (passing.applyTo other app) other (by
          rw [entry?_applyTo]
          exact isSome_entry?_of_mayInstrument hmay)
        simp [hgrows.isTraced other hself] at htraced
      rw [body?_setBody_of_ne (placesDiffer_of_outline hgrows.outline hdiffer') hne,
        ih hdiffer' other htraced, body?_opened_of_ne ?_ hne, body?_applyTo_eq]
      exact placesDiffer_of_outline (outline_applyTo app ref passing) hdiffer
  | _ => exact fun _ _ _ => rfl

/-! ## Less and less -/

theorem pendingAt_le {app app' : Application} (houtline : app'.outline = app.outline)
    {ref : FuncRef} (htraced : app.isTraced ref = true → app'.isTraced ref = true)
    (hbody : app'.isTraced ref = false → app'.body? ref = app.body? ref) :
    app'.pendingAt ref ≤ app.pendingAt ref := by
  rw [app.pendingAt_eq, app'.pendingAt_eq, isEligible_of_outline houtline, app.depthAt_eq,
    app'.depthAt_eq]
  cases hafter : app'.isTraced ref with
  | true => simp
  | false =>
      have hbefore : app.isTraced ref = false := by
        cases h : app.isTraced ref with
        | false => rfl
        | true => simp [htraced h] at hafter
      rw [hbody hafter, hbefore]

theorem Weaves.pending_le {app app' : Application} {stmts stmts' : List Stmt}
    (h : Weaves app stmts app' stmts') (hdiffer : app.PlacesDiffer) : app'.pending ≤ app.pending := by
  have hgrows := h.grows hdiffer
  unfold Application.pending
  rw [refs_of_outline hgrows.outline]
  exact List.sum_le_sum fun ref _ =>
    pendingAt_le hgrows.outline (hgrows.isTraced ref) (h.body?_eq hdiffer ref)

/-- Sums over functions, one of which drops out of the first sum. -/
theorem sum_add_le {refs : List FuncRef} {f g : FuncRef → Nat} (hle : ∀ ref ∈ refs, f ref ≤ g ref)
    {ref : FuncRef} (hmem : ref ∈ refs) (hzero : f ref = 0) :
    (refs.map f).sum + g ref ≤ (refs.map g).sum := by
  induction refs with
  | nil => contradiction
  | cons first refs ih =>
      simp only [List.map_cons, List.sum_cons]
      have hfirst := hle first (by simp)
      obtain rfl | hmem := List.mem_cons.1 hmem
      · have hrest := List.sum_le_sum fun other hother => hle other (List.mem_cons_of_mem _ hother)
        omega
      · have hrest := ih (fun other hother => hle other (List.mem_cons_of_mem _ hother)) hmem
        omega

theorem pendingAt_opened_self (app : Application) (ref : FuncRef) :
    (opened app ref).pendingAt ref = 0 := by
  have hbody : (opened app ref).body? ref = none := by
    unfold opened Application.body? Application.setBody
    rw [Application.func?_modifyFunc]
    cases Application.func? _ ref <;> rfl
  rw [Application.pendingAt_eq, Application.depthAt_eq, hbody]
  simp

theorem pendingAt_opened_le {app : Application} (hdiffer : app.PlacesDiffer) (ref other : FuncRef) :
    (opened app ref).pendingAt other ≤ app.pendingAt other := by
  by_cases hne : other = ref
  · subst hne
    rw [pendingAt_opened_self]
    exact Nat.zero_le _
  · refine pendingAt_le (outline_opened app ref) (fun htraced => ?_)
      fun _ => body?_opened_of_ne hdiffer hne
    unfold opened
    rw [isTraced_setBody]
    show (app.markTraced ref).isTraced other = true
    simp [Application.isTraced_markTraced, htraced]

/-- A body that has been taken out leaves its depth to the walk through it. -/
theorem pending_opened {app : Application} (hdiffer : app.PlacesDiffer) {ref : FuncRef}
    (hentry : (app.entry? ref).isSome = true) :
    (opened app ref).pending + app.pendingAt ref ≤ app.pending := by
  unfold Application.pending
  rw [refs_of_outline (outline_opened app ref)]
  exact sum_add_le (fun other _ => pendingAt_opened_le hdiffer ref other)
    (app.mem_refs_of_entry? hentry) (pendingAt_opened_self app ref)

theorem pending_opened_depth {app : Application} (hdiffer : app.PlacesDiffer) {ref : FuncRef}
    (hentry : (app.entry? ref).isSome = true) :
    (opened app ref).pending + app.depthAt ref ≤ app.depth := by
  have hdepth : app.depth = (app.refs.map app.depthAt).sum := rfl
  unfold Application.pending
  rw [refs_of_outline (outline_opened app ref), hdepth]
  refine sum_add_le (fun other _ => ?_) (app.mem_refs_of_entry? hentry)
    (pendingAt_opened_self app ref)
  refine Nat.le_trans (pendingAt_opened_le hdiffer ref other) ?_
  unfold Application.pendingAt
  split
  · exact Nat.le_refl _
  · exact Nat.zero_le _

theorem depth_needImport (app : Application) (package path : String) :
    (app.needImport package path).depth = app.depth := by
  have hdepth : ∀ app : Application, app.depth = (app.refs.map app.depthAt).sum := fun _ => rfl
  rw [hdepth, hdepth, refs_of_outline (app.outline_needImport package path)]
  refine congrArg List.sum (List.map_congr_left fun ref _ => ?_)
  rw [Application.depthAt_eq, Application.depthAt_eq, body?_needImport]

theorem pendingAt_applyTo (passing : Passing) (ref other : FuncRef) (app : Application) :
    (passing.applyTo ref app).pendingAt other = app.pendingAt other := by
  have htraced : (passing.applyTo ref app).isTraced other = app.isTraced other := by
    unfold Application.isTraced
    rw [entry?_applyTo]
  rw [Application.pendingAt_eq, Application.pendingAt_eq, Application.depthAt_eq,
    Application.depthAt_eq, isEligible_of_outline (outline_applyTo app ref passing), htraced,
    body?_applyTo_eq]

theorem pending_enter {app : Application} (hdiffer : app.PlacesDiffer) {ref : FuncRef}
    (hmay : app.mayInstrument ref = true) {body : Block} (hbody : app.body? ref = some body)
    (passing : Passing) :
    (opened (passing.applyTo ref app) ref).pending + (depthOfStmts body.stmts + 2) ≤
      app.pending := by
  have houtline := outline_applyTo app ref passing
  have hopened := @pending_opened _ (placesDiffer_of_outline houtline hdiffer) ref (by
    rw [entry?_applyTo]
    exact isSome_entry?_of_mayInstrument hmay)
  have hpending : (passing.applyTo ref app).pending = app.pending := by
    unfold Application.pending
    rw [refs_of_outline houtline]
    exact congrArg List.sum (List.map_congr_left fun other _ => pendingAt_applyTo ..)
  rw [pendingAt_applyTo, hpending, Application.pendingAt, if_pos hmay, Application.depthAt_eq,
    hbody] at hopened
  exact hopened

end TraceWeave.Tracing
