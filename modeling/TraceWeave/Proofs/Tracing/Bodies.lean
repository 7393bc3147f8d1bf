import TraceWeave.Proofs.Tracing.Turns

/-!
What holds of the bodies of an application, place by place.

A condition on bodies that weaving and the set-up of the agent keep is kept at every place
by a whole run (`Turns.holdsAt`), so that a run relates the body that a function had to the
one that it gets (`Turns.bodies`).
-/

namespace TraceWeave.Tracing

open TraceWeave.Program TraceWeave.Syntax

/-- There is a body at the place, and it meets the condition. -/
def HoldsAt (P : Block → Prop) (app : Application) (place : Place) : Prop :=
  ∃ body, (app.funcAt? place).bind (·.body) = some body ∧ P body

/-- A condition on bodies that instrumentation keeps, while the application meets another one. -/
structure Withstands (Inv : Application → Prop) (P : Block → Prop) : Prop where
  grows : ∀ {app app' : Application}, app.PlacesDiffer → Grows app app' → Inv app → Inv app'
  setBody : ∀ {app : Application} (ref : FuncRef) (body : Option Block),
    Inv app → Inv (app.setBody ref body)
  weaves : ∀ {app app' : Application} {body body' : Block}, app.PlacesDiffer → Inv app →
    body'.trailing = body.trailing → Weaves app body.stmts app' body'.stmts → P body → P body'
  setsUp : ∀ {agent appName : String} {body : Block} {stmts : List Stmt},
    SetsUp agent appName body.stmts stmts → P body → P { body with stmts }

section

variable {Inv : Application → Prop} {P : Block → Prop} {app app' : Application} {place : Place}

namespace HoldsAt

theorem of_eq (h : HoldsAt P app place)
    (hbody : (app'.funcAt? place).bind (·.body) = (app.funcAt? place).bind (·.body)) :
    HoldsAt P app' place := by
  obtain ⟨body, hat, hP⟩ := h
  exact ⟨body, hbody.trans hat, hP⟩

theorem setBody_of_ne {ref : FuncRef} (hplace : app.place? ref ≠ some place) (body : Option Block)
    (h : HoldsAt P app place) : HoldsAt P (app.setBody ref body) place := by
  refine h.of_eq ?_
  rw [Application.setBody, Application.funcAt?_modifyFunc, if_neg hplace]

/-- A body that is taken out, changed and put back. -/
theorem around {opened closed : Application} {ref : FuncRef} {body body' : Block}
    (hopened : ∀ place, (opened.funcAt? place).bind (·.body) = (app.funcAt? place).bind (·.body))
    (hplaces : opened.place? ref = app.place? ref) (houtline : closed.outline = app.outline)
    (hbody : app.body? ref = some body) (hP : P body → P body')
    (hinner : ∀ place, HoldsAt P (opened.setBody ref none) place → HoldsAt P closed place)
    (h : HoldsAt P app place) : HoldsAt P (closed.setBody ref (some body')) place := by
  by_cases hplace : app.place? ref = some place
  · obtain ⟨body'', hat, hbefore⟩ := h
    have hsame : body'' = body := by
      rw [Application.body?, app.func?_eq, hplace, Option.bind_some, hat] at hbody
      exact Option.some.inj hbody
    refine ⟨body', ?_, hP (hsame ▸ hbefore)⟩
    rw [Application.setBody, Application.funcAt?_modifyFunc,
      if_pos ((place?_of_outline houtline ref).trans hplace)]
    have hsome := isSome_funcAt?_of_outline houtline place
    cases hfunc : app.funcAt? place with
    | none => simp [hfunc] at hat
    | some func =>
        rw [hfunc] at hsome
        obtain ⟨func', hfunc'⟩ := Option.isSome_iff_exists.1 hsome
        simp [hfunc']
  · refine setBody_of_ne ?_ _ (hinner place (setBody_of_ne ?_ _ (h.of_eq (hopened place))))
    · rwa [place?_of_outline houtline]
    · rwa [hplaces]

end HoldsAt

/-! ## Weaving -/

theorem Weaves.holdsAt (hP : Withstands Inv P) {stmts stmts' : List Stmt}
    (h : Weaves app stmts app' stmts') : app.PlacesDiffer → Inv app →
      ∀ place, HoldsAt P app place → HoldsAt P app' place := by
  induction h with
  | trans h _ ih ih' =>
      intro hdiffer happ place hplace
      have hgrows := h.grows hdiffer
      have hdiffer' := placesDiffer_of_outline hgrows.outline hdiffer
      exact ih' hdiffer' (hP.grows hdiffer hgrows happ) place (ih hdiffer happ place hplace)
  | needImport package path =>
      intro _ _ place hplace
      exact hplace.of_eq (by rw [Application.funcAt?_needImport])
  | nested _ _ _ _ ih => exact ih
  | @enter app app' _ _ _ ref passing body body' _ hands hmay hbody _ htrailing hweaves ih =>
      intro hdiffer happ place hplace
      have henter := Grows.enter hands hmay
      have houtline : (opened (passing.applyTo ref app) ref).outline = app.outline :=
        (outline_setBody ..).trans henter.outline
      have hdiffer' := placesDiffer_of_outline houtline hdiffer
      have happ' : Inv (opened (passing.applyTo ref app) ref) :=
        hP.setBody ref none (hP.grows hdiffer henter happ)
      refine hplace.around (fun place => ?_) (place?_of_outline henter.outline ref)
        ((hweaves.grows hdiffer').outline.trans houtline) hbody
        (hP.weaves hdiffer' happ' htrailing hweaves) (ih hdiffer' happ')
      show (((passing.applyTo ref app).markTraced ref).funcAt? place).bind _ = _
      rw [Application.funcAt?_markTraced, body_applyTo]
  | _ => exact fun _ _ _ hplace => hplace

/-! ## Runs -/

theorem Turn.holdsAt (hP : Withstands Inv P) (hdiffer : app.PlacesDiffer) (happ : Inv app)
    (h : Turn app app') (hplace : HoldsAt P app place) : HoldsAt P app' place := by
  have hmarked : ∀ (ref : FuncRef) place, (((app.markTraced ref).noteEntered ref).funcAt? place).bind
      (·.body) = (app.funcAt? place).bind (·.body) := by
    intro ref place
    show ((app.markTraced ref).funcAt? place).bind _ = _
    rw [Application.funcAt?_markTraced]
  cases h with
  | @main app' ref body body' stmts hentry hentered hbody htrailing hsetsUp hweaves =>
      have hmark := Grows.mark (.inr ⟨hentry, hentered⟩) (isSome_entry?_of_body? hbody)
      have houtline := outline_opened app ref
      have hdiffer' := placesDiffer_of_outline houtline hdiffer
      have happ' : Inv (opened app ref) := hP.setBody ref none (hP.grows hdiffer hmark happ)
      have hP' : P body → P body' := fun hbefore =>
        hP.weaves hdiffer' happ' (show body'.trailing = { body with stmts }.trailing from htrailing)
          hweaves (hP.setsUp hsetsUp hbefore)
      exact hplace.around (hmarked ref) (place?_of_outline hmark.outline ref)
        ((hweaves.grows hdiffer').outline.trans houtline) hbody hP'
        (hweaves.holdsAt hP hdiffer' happ')
  | @root app' ref body body' hmay hbody htrailing hweaves =>
      have hmark := Grows.mark (.inl hmay) (isSome_entry?_of_body? hbody)
      have houtline := outline_opened app ref
      have hdiffer' := placesDiffer_of_outline houtline hdiffer
      have happ' : Inv (opened app ref) := hP.setBody ref none (hP.grows hdiffer hmark happ)
      exact hplace.around (hmarked ref) (place?_of_outline hmark.outline ref)
        ((hweaves.grows hdiffer').outline.trans houtline) hbody
        (hP.weaves hdiffer' happ' htrailing hweaves) (hweaves.holdsAt hP hdiffer' happ')
  | @sweep app' ref body body' hfree hbody htrailing hweaves =>
      have houtline := outline_setBody app ref none
      have hdiffer' := placesDiffer_of_outline houtline hdiffer
      have happ' : Inv (app.setBody ref none) := hP.setBody ref none happ
      exact hplace.around (fun _ => rfl) rfl ((hweaves.grows hdiffer').outline.trans houtline) hbody
        (hP.weaves hdiffer' happ' htrailing hweaves) (hweaves.holdsAt hP hdiffer' happ')
  | needImport package path => exact hplace.of_eq (by rw [Application.funcAt?_needImport])

theorem Turns.holdsAt (hP : Withstands Inv P) (hdiffer : app.PlacesDiffer) (happ : Inv app)
    (h : Turns app app') (hplace : HoldsAt P app place) : HoldsAt P app' place := by
  induction h with
  | refl => exact hplace
  | tail hturns hturn ih =>
      have hgrows := Turns.grows hdiffer hturns
      exact hturn.holdsAt hP (placesDiffer_of_outline hgrows.outline hdiffer)
        (hP.grows hdiffer hgrows happ) ih

end

/-- Functions stay where they are, and a body is followed by one that it is related to. -/
theorem Turns.bodies {Inv : Application → Prop} {R : Block → Block → Prop}
    (hR : ∀ body, Withstands Inv (R body)) (hrefl : ∀ body, R body body) {app app' : Application}
    (hdiffer : app.PlacesDiffer) (happ : Inv app) (h : Turns app app') (place : Place) :
    Option.Rel (fun func func' => Option.Rel R func.body func'.body)
      (app.funcAt? place) (app'.funcAt? place) := by
  have hgrows := Turns.grows hdiffer h
  have hsome := isSome_funcAt?_of_outline hgrows.outline place
  have hbody := hgrows.hasBody place
  unfold Application.hasBodyAt at hbody
  have hrelated : ∀ body, (app.funcAt? place).bind (·.body) = some body →
      ∃ body', (app'.funcAt? place).bind (·.body) = some body' ∧ R body body' := fun body hat =>
    h.holdsAt (hR body) hdiffer happ ⟨body, hat, hrefl body⟩
  generalize app.funcAt? place = func at hsome hbody hrelated ⊢
  generalize app'.funcAt? place = func' at hsome hbody hrelated ⊢
  cases func with
  | none =>
      cases func' with
      | none => exact .none
      | some func' => simp at hsome
  | some func =>
      cases func' with
      | none => simp at hsome
      | some func' =>
          refine .some ?_
          cases hfunc : func.body with
          | none =>
              cases hfunc' : func'.body with
              | none => exact .none
              | some body' => simp [hfunc, hfunc'] at hbody
          | some body =>
              obtain ⟨body', hat, hR⟩ := hrelated body hfunc
              rw [Option.bind_some] at hat
              rw [hat]
              exact .some hR

end TraceWeave.Tracing
