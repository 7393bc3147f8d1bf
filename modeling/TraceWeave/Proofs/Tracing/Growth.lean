import TraceWeave.Detect.Roots
import TraceWeave.Proofs.Program.Outline
import TraceWeave.Proofs.Tracing.Weaving

/-!
What weaving does to the functions of an application, whatever it does to their bodies.

`Grows` compares two states of a run: the outline is the same, functions have been
entered once at most, and the parameters of a function are the same unless it has been
extended in between.  It is transitive where no two functions are declared at one place
(`Grows.trans`), it holds around a body that is taken out and put back
(`Grows.around`), and so it holds of everything that weaves (`Weaves.grows`).
-/

namespace TraceWeave.Program

open TraceWeave.Order TraceWeave.Syntax

instance : Std.LawfulEqOrd FuncRef where
  compare_self {ref} := by
    obtain ⟨id, key⟩ := ref
    show (compare id id).then ((compare key key).then .eq) = .eq
    simp
  eq_of_compare {ref ref'} h := by
    obtain ⟨id, key⟩ := ref
    obtain ⟨id', key'⟩ := ref'
    have hthen : (compare id id').then ((compare key key').then .eq) = .eq := h
    simp only [Ordering.then_eq_eq, Std.LawfulEqOrd.compare_eq_iff_eq] at hthen
    rw [hthen.1, hthen.2.1]

namespace Application

variable (app : Application)

/-- The file belongs to a test, or a tool has generated it. -/
def isFrozen (id : String) (index : Nat) : Bool :=
  (app.package? id).any fun package =>
    package.test || (package.files[index]?).any (·.generated)

/-- The function is declared in a file that may change. -/
def IsFree (ref : FuncRef) : Prop :=
  ∀ place, app.place? ref = some place → app.isFrozen place.package place.file = false

/-- There is a body at the place. -/
def hasBodyAt (place : Place) : Bool := ((app.funcAt? place).bind (·.body)).isSome

def paramsAt? (place : Place) : Option FieldList := (app.funcAt? place).map (·.params)

theorem hasBodyAt_of_place? {ref : FuncRef} {place : Place} (hplace : app.place? ref = some place) :
    app.hasBodyAt place = (app.body? ref).isSome := by
  simp [hasBodyAt, body?, func?_eq, hplace]

end Application

end TraceWeave.Program

namespace TraceWeave.Tracing

open TraceWeave.Agent TraceWeave.Detect TraceWeave.Order TraceWeave.Program TraceWeave.Syntax
  TraceWeave.Types

/-- A trace may start at the function, or a call may take one into it. -/
def MayEnter (app : Application) (ref : FuncRef) : Prop :=
  app.mayInstrument ref = true ∨ (isEntryPoint app ref = true ∧ ref ∉ app.entered)

/-- The function has gained a parameter for the transaction, at the end of its list. -/
structure Extends (app : Application) (ref : FuncRef) (app' : Application) : Prop where
  mayInstrument : app.mayInstrument ref = true
  isTraced : app'.isTraced ref = true
  extended : ref ∈ app'.extended
  params : ∃ func, app.func? ref = some func ∧ Admits app.types func.params ∧
    (app'.func? ref).map (·.params) =
      some (func.params.add (transactionParameter transactionVariable))

structure Grows (app app' : Application) : Prop where
  outline : app'.outline = app.outline
  isTraced : ∀ ref, app.isTraced ref = true → app'.isTraced ref = true
  entered : ∃ added, app'.entered = added ++ app.entered ∧ added.Nodup ∧
    ∀ ref ∈ added, MayEnter app ref ∧ app'.isTraced ref = true
  hasBody : ∀ place, app'.hasBodyAt place = app.hasBodyAt place
  files : ∀ id index, app.isFrozen id index = true → app'.fileAt? id index = app.fileAt? id index
  extended : ∀ ref ∈ app'.extended, ref ∈ app.extended ∨ Extends app ref app'
  kept : ∀ ref ∈ app.extended, ref ∈ app'.extended
  params : ∀ place, (∀ ref, app.place? ref = some place → ¬Extends app ref app') →
    app'.paramsAt? place = app.paramsAt? place

/-! ## The outline -/

section

variable {app app' : Application}

theorem place?_of_outline (h : app'.outline = app.outline) (ref : FuncRef) :
    app'.place? ref = app.place? ref := by
  rw [← Application.place?_outline, h, Application.place?_outline]

theorem isEligible_of_outline (h : app'.outline = app.outline) (ref : FuncRef) :
    app'.isEligible ref = app.isEligible ref := by
  rw [← Application.isEligible_outline, h, Application.isEligible_outline]

theorem placesDiffer_of_outline (h : app'.outline = app.outline) (hdiffer : app.PlacesDiffer) :
    app'.PlacesDiffer := by
  intro ref ref' place hplace hplace'
  rw [place?_of_outline h] at hplace hplace'
  exact hdiffer ref ref' place hplace hplace'

theorem package?_of_outline (h : app'.outline = app.outline) (id : String) :
    (app'.package? id).map Package.outline = (app.package? id).map Package.outline := by
  rw [← Application.package?_outline, h, Application.package?_outline]

theorem types_of_outline (h : app'.outline = app.outline) : app'.types = app.types := by
  have htypes := congrArg Application.types h
  exact htypes

/-- A test that an outline of a package decides. -/
theorem any_of_outline (h : app'.outline = app.outline) (id : String) {test : Package → Bool}
    (htest : ∀ package, test package.outline = test package) :
    (app'.package? id).any test = (app.package? id).any test := by
  have hany : ∀ package : Option Package,
      package.any test = (package.map Package.outline).any test := by
    intro package
    cases package <;> simp [htest]
  rw [hany, package?_of_outline h, ← hany]

theorem bind_of_outline {α : Type} (h : app'.outline = app.outline) (id : String)
    {f : Package → Option α} (hf : ∀ package, f package.outline = f package) :
    (app'.package? id).bind f = (app.package? id).bind f := by
  have hbind : ∀ package : Option Package,
      package.bind f = (package.map Package.outline).bind f := by
    intro package
    cases package <;> simp [hf]
  rw [hbind, package?_of_outline h, ← hbind]

theorem isSome_funcAt?_of_outline (h : app'.outline = app.outline) (place : Place) :
    (app'.funcAt? place).isSome = (app.funcAt? place).isSome := by
  rw [← Application.isSome_funcAt?_outline, h, Application.isSome_funcAt?_outline]

theorem isFrozen_of_outline (h : app'.outline = app.outline) (id : String) (index : Nat) :
    app'.isFrozen id index = app.isFrozen id index := by
  refine any_of_outline h id fun package => ?_
  simp only [Package.outline, List.getElem?_map]
  cases package.files[index]? <;> simp [SourceFile.outline]

theorem isGenerated_of_outline (h : app'.outline = app.outline) (ref : FuncRef) :
    app'.isGenerated ref = app.isGenerated ref := by
  have hany : ∀ app : Application, app.isGenerated ref =
      (app.package? ref.package).any fun package => (package.fileOf? ref.key).any (·.generated) := by
    intro app
    unfold Application.isGenerated
    cases app.package? ref.package <;> rfl
  rw [hany, hany]
  refine any_of_outline h ref.package fun package => ?_
  simp only [Package.fileOf?, Package.outline, Table.get?_map]
  cases package.funcs.get? ref.key with
  | none => rfl
  | some entry => cases hfile : package.files[entry.file]? <;> simp [hfile, SourceFile.outline]

theorem isEntryPoint_of_outline (h : app'.outline = app.outline) (ref : FuncRef) :
    isEntryPoint app' ref = isEntryPoint app ref := by
  unfold isEntryPoint
  rw [isGenerated_of_outline h, any_of_outline h ref.package fun _ => rfl]

end

/-! ## Functions that may change -/

theorem isFree_of_isGenerated {app : Application} {ref : FuncRef}
    (htest : (app.package? ref.package).any (!·.test) = true) (hfile : app.isGenerated ref = false) :
    app.IsFree ref := by
  rintro ⟨id, file, decl⟩ hplace
  obtain ⟨rfl, hentry⟩ := (app.place?_eq_some ref _).1 hplace
  unfold Application.isGenerated at hfile
  unfold Application.entry? at hentry
  unfold Application.isFrozen
  cases hpackage : app.package? ref.package with
  | none => rfl
  | some package =>
      simp only [hpackage, Option.any_some, Bool.not_eq_eq_eq_not, Bool.not_true,
        Option.bind_some] at htest hfile hentry ⊢
      cases hget : package.funcs.get? ref.key with
      | none => simp [hget] at hentry
      | some entry =>
          simp only [hget, Option.any_some, Bool.and_eq_true, beq_iff_eq, Package.fileOf?,
            Option.bind_some] at hentry hfile
          rw [htest, ← hentry.1, hfile]
          rfl

theorem isFree_of_mayInstrument {app : Application} {ref : FuncRef}
    (h : app.mayInstrument ref = true) : app.IsFree ref := by
  rw [Application.mayInstrument_eq] at h
  unfold Application.isEligible at h
  refine isFree_of_isGenerated ?_ ?_
  · cases hpackage : app.package? ref.package <;> simp_all
  · unfold Application.isGenerated
    cases hpackage : app.package? ref.package with
    | none => rfl
    | some package => cases hfile : package.fileOf? ref.key <;> simp_all

theorem isFree_of_isEntryPoint {app : Application} {ref : FuncRef}
    (h : isEntryPoint app ref = true) : app.IsFree ref := by
  simp only [isEntryPoint, Bool.and_eq_true, Bool.not_eq_eq_eq_not, Bool.not_true] at h
  refine isFree_of_isGenerated ?_ h.2
  cases hpackage : app.package? ref.package <;> simp_all

theorem isFree_of_outline {app app' : Application} (h : app'.outline = app.outline) {ref : FuncRef}
    (hfree : app.IsFree ref) : app'.IsFree ref := by
  intro place hplace
  rw [place?_of_outline h] at hplace
  rw [isFrozen_of_outline h]
  exact hfree place hplace

theorem params?_eq {app : Application} {ref : FuncRef} {place : Place}
    (hplace : app.place? ref = some place) :
    (app.func? ref).map (·.params) = app.paramsAt? place := by
  simp [Application.paramsAt?, app.func?_eq, hplace]

theorem mayInstrument_eq_hasBodyAt (app : Application) (ref : FuncRef) :
    app.mayInstrument ref =
      (app.isEligible ref && !app.isTraced ref && (app.place? ref).any app.hasBodyAt) := by
  rw [app.mayInstrument_eq, app.func?_eq]
  cases app.place? ref with
  | none => rfl
  | some place => cases hfunc : app.funcAt? place <;> simp [Application.hasBodyAt, hfunc]

theorem mayInstrument_needImport (app : Application) (package path : String) (ref : FuncRef) :
    (app.needImport package path).mayInstrument ref = app.mayInstrument ref := by
  have hbody : (app.needImport package path).hasBodyAt = app.hasBodyAt := by
    funext place
    simp [Application.hasBodyAt]
  rw [mayInstrument_eq_hasBodyAt, mayInstrument_eq_hasBodyAt, Application.isTraced_needImport,
    Application.place?_needImport, isEligible_of_outline (app.outline_needImport package path), hbody]

/-! ## Growing step by step -/

namespace Grows

variable {app app' app'' : Application}

theorem refl : Grows app app where
  outline := rfl
  isTraced _ h := h
  entered := ⟨[], rfl, .nil, by simp⟩
  hasBody _ := rfl
  files _ _ _ := rfl
  extended _ h := .inl h
  kept _ h := h
  params _ _ := rfl

/-- A change that no function shows. -/
theorem of_same (houtline : app'.outline = app.outline) (hentry : ∀ ref, app'.entry? ref = app.entry? ref)
    (hfile : ∀ id index, app'.fileAt? id index = app.fileAt? id index)
    (hfunc : ∀ place, app'.funcAt? place = app.funcAt? place)
    (hentered : app'.entered = app.entered) (hextended : app'.extended = app.extended) :
    Grows app app' where
  outline := houtline
  isTraced ref h := by simpa [Application.isTraced, hentry] using h
  entered := ⟨[], by simp [hentered], .nil, by simp⟩
  hasBody place := by simp [Application.hasBodyAt, hfunc]
  files id index _ := hfile id index
  extended ref h := .inl (hextended ▸ h)
  kept ref h := hextended ▸ h
  params place _ := by simp [Application.paramsAt?, hfunc]

theorem needImport (app : Application) (package path : String) :
    Grows app (app.needImport package path) :=
  of_same (app.outline_needImport package path) (by simp) (by simp) (by simp) rfl rfl

theorem console (app : Application) (console : Console) : Grows app { app with console } :=
  of_same rfl (fun _ => rfl) (fun _ _ => rfl) (fun _ => rfl) rfl rfl

/-- What may be entered later might have been entered before. -/
theorem mayInstrument (h : Grows app app') {ref : FuncRef} (hmay : app'.mayInstrument ref = true) :
    app.mayInstrument ref = true := by
  rw [mayInstrument_eq_hasBodyAt] at hmay ⊢
  simp only [Bool.and_eq_true, Bool.not_eq_eq_eq_not, Bool.not_true] at hmay ⊢
  obtain ⟨⟨heligible, htraced⟩, hbody⟩ := hmay
  refine ⟨⟨isEligible_of_outline h.outline ref ▸ heligible, ?_⟩, ?_⟩
  · cases htraced' : app.isTraced ref with
    | false => rfl
    | true => simp [h.isTraced ref htraced'] at htraced
  · rw [place?_of_outline h.outline] at hbody
    rwa [show app.hasBodyAt = app'.hasBodyAt from funext fun place => (h.hasBody place).symm]

theorem mayEnter (h : Grows app app') {ref : FuncRef} (hmay : MayEnter app' ref) :
    MayEnter app ref := by
  obtain hmay | ⟨hentry, hentered⟩ := hmay
  · exact .inl (h.mayInstrument hmay)
  · refine .inr ⟨isEntryPoint_of_outline h.outline ref ▸ hentry, fun hmem => hentered ?_⟩
    obtain ⟨added, hadded, -⟩ := h.entered
    simp [hadded, hmem]

/-- Two lists of entered functions have no function in common. -/
theorem entered_trans (h : Grows app app') (h' : Grows app' app'') :
    ∃ added, app''.entered = added ++ app.entered ∧ added.Nodup ∧
      ∀ ref ∈ added, MayEnter app ref ∧ app''.isTraced ref = true := by
  obtain ⟨added, hadded, hnodup, hmay⟩ := h.entered
  obtain ⟨added', hadded', hnodup', hmay'⟩ := h'.entered
  refine ⟨added' ++ added, by simp [hadded', hadded], ?_, fun ref hmem => ?_⟩
  · refine List.nodup_append.2 ⟨hnodup', hnodup, fun ref href ref' href' heq => ?_⟩
    subst heq
    obtain hinstrument | ⟨-, hentered⟩ := (hmay' ref href).1
    · rw [Application.mayInstrument_eq] at hinstrument
      simp [(hmay ref href').2] at hinstrument
    · exact hentered (by simp [hadded, href'])
  · obtain hmem | hmem := List.mem_append.1 hmem
    · exact ⟨h.mayEnter (hmay' ref hmem).1, (hmay' ref hmem).2⟩
    · exact ⟨(hmay ref hmem).1, h'.isTraced ref (hmay ref hmem).2⟩

/-- A function that is not extended in between keeps its parameters. -/
theorem params_of_ref (h : Grows app app') (hdiffer : app.PlacesDiffer) {ref : FuncRef}
    (hkept : ¬Extends app ref app') :
    (app'.func? ref).map (·.params) = (app.func? ref).map (·.params) := by
  cases hplace : app.place? ref with
  | none => simp [Application.func?_eq, place?_of_outline h.outline, hplace]
  | some place =>
      rw [params?_eq hplace, params?_eq ((place?_of_outline h.outline ref).trans hplace)]
      refine h.params place fun ref' hplace' => ?_
      obtain rfl := hdiffer ref ref' place hplace hplace'
      exact hkept

theorem not_extends_of_isTraced {ref : FuncRef} (htraced : app.isTraced ref = true) :
    ¬Extends app ref app' := by
  intro hextends
  have hmay := hextends.mayInstrument
  rw [Application.mayInstrument_eq] at hmay
  simp [htraced] at hmay

theorem extends_later (h : Grows app app') (h' : Grows app' app'') (hdiffer : app.PlacesDiffer)
    {ref : FuncRef} (hextends : Extends app ref app') : Extends app ref app'' := by
  have hparams := h'.params_of_ref (placesDiffer_of_outline h.outline hdiffer)
    (not_extends_of_isTraced hextends.isTraced)
  refine ⟨hextends.mayInstrument, h'.isTraced ref hextends.isTraced, h'.kept ref hextends.extended,
    ?_⟩
  rw [hparams]
  exact hextends.params

theorem extends_earlier (h : Grows app app') (hdiffer : app.PlacesDiffer) {ref : FuncRef}
    (hextends : Extends app' ref app'') : Extends app ref app'' := by
  -- the first stretch cannot have extended what the second one enters
  have hkept : ¬Extends app ref app' := fun hextends' =>
    not_extends_of_isTraced hextends'.isTraced hextends
  have hparams := h.params_of_ref hdiffer hkept
  obtain ⟨func', hfunc', hadmits, hadded⟩ := hextends.params
  obtain ⟨func, hfunc, hsame⟩ := Option.map_eq_some_iff.1
    (hparams.symm.trans (congrArg (Option.map FuncDecl.params) hfunc'))
  refine ⟨h.mayInstrument hextends.mayInstrument, hextends.isTraced, hextends.extended,
    func, hfunc, ?_⟩
  rw [hsame, ← types_of_outline h.outline]
  exact ⟨hadmits, hadded⟩

theorem trans (hdiffer : app.PlacesDiffer) (h : Grows app app') (h' : Grows app' app'') :
    Grows app app'' where
  outline := h'.outline.trans h.outline
  isTraced ref htraced := h'.isTraced ref (h.isTraced ref htraced)
  entered := h.entered_trans h'
  hasBody place := (h'.hasBody place).trans (h.hasBody place)
  files id index hfrozen := by
    rw [h'.files id index (by rw [isFrozen_of_outline h.outline, hfrozen]), h.files id index hfrozen]
  extended ref hmem := by
    obtain hmem | hextends := h'.extended ref hmem
    · obtain hmem' | hextends := h.extended ref hmem
      · exact .inl hmem'
      · exact .inr (h.extends_later h' hdiffer hextends)
    · exact .inr (h.extends_earlier hdiffer hextends)
  kept ref hmem := h'.kept ref (h.kept ref hmem)
  params place hplace := by
    rw [h'.params place, h.params place]
    · exact fun ref hat hextends => hplace ref hat (h.extends_later h' hdiffer hextends)
    · intro ref hat hextends
      rw [place?_of_outline h.outline] at hat
      exact hplace ref hat (h.extends_earlier hdiffer hextends)

end Grows

/-! ## Bodies that are taken out -/

section

variable (app : Application) (ref : FuncRef)

theorem setBody_setBody (body body' : Option Block) :
    (app.setBody ref body).setBody ref body' = app.setBody ref body' :=
  app.modifyFunc_modifyFunc ref _ _

theorem outline_setBody (body : Option Block) : (app.setBody ref body).outline = app.outline :=
  app.outline_modifyFunc ref fun _ => rfl

theorem outline_opened : (opened app ref).outline = app.outline :=
  (outline_setBody ..).trans (app.outline_markTraced ref)

theorem outline_applyTo (passing : Passing) : (passing.applyTo ref app).outline = app.outline := by
  unfold Passing.applyTo
  split
  · exact app.outline_modifyFunc ref fun _ => rfl
  · rfl

theorem isTraced_setBody (body : Option Block) (other : FuncRef) :
    (app.setBody ref body).isTraced other = app.isTraced other :=
  app.isTraced_modifyFunc ref other _

theorem hasBodyAt_setBody (body : Option Block) (place : Place) :
    (app.setBody ref body).hasBodyAt place =
      if app.place? ref = some place then (app.funcAt? place).isSome && body.isSome
      else app.hasBodyAt place := by
  simp only [Application.hasBodyAt, Application.setBody, Application.funcAt?_modifyFunc]
  split
  · cases app.funcAt? place <;> simp
  · rfl

theorem paramsAt?_setBody (body : Option Block) (place : Place) :
    (app.setBody ref body).paramsAt? place = app.paramsAt? place := by
  simp only [Application.paramsAt?, Application.setBody, Application.funcAt?_modifyFunc]
  split
  · cases app.funcAt? place <;> rfl
  · rfl

theorem params_setBody (body : Option Block) (other : FuncRef) :
    ((app.setBody ref body).func? other).map (·.params) = (app.func? other).map (·.params) := by
  have hplace := place?_of_outline (outline_setBody app ref body) other
  cases hother : app.place? other with
  | none => simp [Application.func?_eq, hplace, hother]
  | some place =>
      rw [params?_eq hother, params?_eq (hplace.trans hother), paramsAt?_setBody]

theorem mayInstrument_setBody (body : Block) {other : FuncRef}
    (h : app.mayInstrument other = true) :
    (app.setBody ref (some body)).mayInstrument other = true := by
  rw [mayInstrument_eq_hasBodyAt] at h ⊢
  rw [isEligible_of_outline (outline_setBody ..), isTraced_setBody,
    place?_of_outline (outline_setBody ..)]
  simp only [Bool.and_eq_true] at h ⊢
  refine ⟨h.1, ?_⟩
  cases hplace : app.place? other with
  | none => simp [hplace] at h
  | some place =>
      simp only [hplace, Option.any_some, hasBodyAt_setBody] at h ⊢
      split
      · have hbody := h.2
        unfold Application.hasBodyAt at hbody
        cases hfunc : app.funcAt? place <;> simp_all
      · exact h.2

end

theorem fileAt?_of_isFrozen {app : Application} {ref : FuncRef} (hfree : app.IsFree ref)
    (f : FuncDecl → FuncDecl) {id : String} {index : Nat} (hfrozen : app.isFrozen id index = true) :
    (app.modifyFunc ref f).fileAt? id index = app.fileAt? id index := by
  refine app.fileAt?_modifyFunc (fun decl hplace => ?_) f
  have hfalse := hfree _ hplace
  simp [hfrozen] at hfalse

theorem fileAt?_setBody {app : Application} {ref : FuncRef} (hfree : app.IsFree ref)
    (body : Option Block) {id : String} {index : Nat} (hfrozen : app.isFrozen id index = true) :
    (app.setBody ref body).fileAt? id index = app.fileAt? id index :=
  fileAt?_of_isFrozen hfree _ hfrozen

namespace Extends

variable {app app' : Application} {other : FuncRef}

theorem setBody (h : Extends app other app') (ref : FuncRef) (body : Block) :
    Extends app other (app'.setBody ref (some body)) := by
  refine ⟨h.mayInstrument, ?_, h.extended, ?_⟩
  · rw [isTraced_setBody]
    exact h.isTraced
  · rw [params_setBody]
    exact h.params

theorem restore (h : Extends app other app') (ref : FuncRef) (body : Block) :
    Extends (app.setBody ref (some body)) other app' := by
  obtain ⟨func, hfunc, hadmits, hadded⟩ := h.params
  have hparams := params_setBody app ref (some body) other
  rw [hfunc] at hparams
  obtain ⟨func', hfunc', hsame⟩ := Option.map_eq_some_iff.1 hparams
  refine ⟨mayInstrument_setBody app ref body h.mayInstrument, h.isTraced, h.extended, func', hfunc',
    ?_⟩
  rw [hsame]
  exact ⟨hadmits, hadded⟩

end Extends

namespace Grows

variable {app app' app'' : Application} {ref : FuncRef}

/-- A body is put in place of another one. -/
theorem setBody (h : Grows app app') (hbody : (app.body? ref).isSome = true)
    (hfree : app.IsFree ref) (body : Block) : Grows app (app'.setBody ref (some body)) where
  outline := (outline_setBody ..).trans h.outline
  isTraced other htraced := by
    rw [isTraced_setBody]
    exact h.isTraced other htraced
  entered := by
    obtain ⟨added, hadded, hnodup, hmay⟩ := h.entered
    refine ⟨added, hadded, hnodup, fun other hmem => ⟨(hmay other hmem).1, ?_⟩⟩
    rw [isTraced_setBody]
    exact (hmay other hmem).2
  hasBody place := by
    rw [hasBodyAt_setBody, place?_of_outline h.outline]
    split
    · next hplace =>
      rw [app.hasBodyAt_of_place? hplace, hbody, isSome_funcAt?_of_outline h.outline]
      cases hfunc : app.funcAt? place with
      | none => simp [Application.body?, app.func?_eq, hplace, hfunc] at hbody
      | some func => rfl
    · exact h.hasBody place
  files id index hfrozen := by
    have hfrozen' : app'.isFrozen id index = true := by
      rw [isFrozen_of_outline h.outline, hfrozen]
    rw [fileAt?_setBody (isFree_of_outline h.outline hfree) _ hfrozen', h.files id index hfrozen]
  extended other hmem := by
    obtain hmem | hextends := h.extended other hmem
    · exact .inl hmem
    · exact .inr (hextends.setBody ref body)
  kept other hmem := h.kept other hmem
  params place hplace := by
    rw [paramsAt?_setBody]
    exact h.params place fun other hat hextends => hplace other hat (hextends.setBody ref body)

/-- Growing does not depend on a body that nothing changes meanwhile. -/
theorem restore (h : Grows app app') (hfree : app.IsFree ref) (body : Block) :
    Grows (app.setBody ref (some body)) (app'.setBody ref (some body)) where
  outline := by rw [outline_setBody, outline_setBody, h.outline]
  isTraced other htraced := by
    rw [isTraced_setBody] at htraced ⊢
    exact h.isTraced other htraced
  entered := by
    obtain ⟨added, hadded, hnodup, hmay⟩ := h.entered
    refine ⟨added, hadded, hnodup, fun other hmem => ⟨?_, ?_⟩⟩
    · obtain hmay | ⟨hentry, hentered⟩ := (hmay other hmem).1
      · exact .inl (mayInstrument_setBody app ref body hmay)
      · refine .inr ⟨?_, hentered⟩
        rwa [isEntryPoint_of_outline (outline_setBody ..)]
    · rw [isTraced_setBody]
      exact (hmay other hmem).2
  hasBody place := by
    rw [hasBodyAt_setBody, hasBodyAt_setBody, place?_of_outline h.outline, 
      isSome_funcAt?_of_outline h.outline, h.hasBody]
  files id index hfrozen := by
    rw [isFrozen_of_outline (outline_setBody ..)] at hfrozen
    have hfrozen' : app'.isFrozen id index = true := by
      rw [isFrozen_of_outline h.outline, hfrozen]
    rw [fileAt?_setBody (isFree_of_outline h.outline hfree) _ hfrozen',
      fileAt?_setBody hfree _ hfrozen, h.files id index hfrozen]
  extended other hmem := by
    obtain hmem | hextends := h.extended other hmem
    · exact .inl hmem
    · exact .inr ((hextends.setBody ref body).restore ref body)
  kept other hmem := h.kept other hmem
  params place hplace := by
    rw [paramsAt?_setBody, paramsAt?_setBody]
    refine h.params place fun other hat hextends => hplace other ?_ ?_
    · rwa [place?_of_outline (outline_setBody ..)]
    · exact (hextends.setBody ref body).restore ref body

/-- A body that is taken out, and put back changed. -/
theorem around (hdiffer : app.PlacesDiffer) (h : Grows app app')
    (hbody : (app.body? ref).isSome = true) (hfree : app.IsFree ref)
    (hinner : Grows (app'.setBody ref none) app'') (body : Block) :
    Grows app (app''.setBody ref (some body)) := by
  have hopened := h.setBody hbody hfree body
  have hfree' : (app'.setBody ref none).IsFree ref :=
    isFree_of_outline ((outline_setBody ..).trans h.outline) hfree
  have hclosed := hinner.restore hfree' body
  rw [setBody_setBody] at hclosed
  exact hopened.trans hdiffer hclosed

end Grows

/-! ## Functions that are entered -/

theorem isSome_entry?_of_mayInstrument {app : Application} {ref : FuncRef}
    (h : app.mayInstrument ref = true) : (app.entry? ref).isSome = true := by
  unfold Application.mayInstrument at h
  split at h
  · next hentry => simp [hentry]
  · contradiction

namespace Grows

variable {app : Application} {ref : FuncRef}

/-- A function is noted to be reached and entered. -/
theorem mark (hmay : MayEnter app ref) (hentry : (app.entry? ref).isSome = true) :
    Grows app ((app.markTraced ref).noteEntered ref) where
  outline := app.outline_markTraced ref
  isTraced other htraced := by
    show (app.markTraced ref).isTraced other = true
    simp [Application.isTraced_markTraced, htraced]
  entered := by
    refine ⟨[ref], rfl, by simp, fun other hmem => ?_⟩
    obtain rfl := List.mem_singleton.1 hmem
    refine ⟨hmay, ?_⟩
    show (app.markTraced other).isTraced other = true
    simp [Application.isTraced_markTraced, hentry]
  hasBody place := by
    show (app.markTraced ref).hasBodyAt place = _
    simp [Application.hasBodyAt]
  files id index _ := app.fileAt?_markTraced ref id index
  extended other hmem := .inl hmem
  kept other hmem := hmem
  params place _ := by
    show (app.markTraced ref).paramsAt? place = _
    simp [Application.paramsAt?]

/-- A function that gains a parameter is reached and entered at once. -/
theorem extend {func : FuncDecl} (hmay : app.mayInstrument ref = true)
    (hfunc : app.func? ref = some func) (hadmits : Admits app.types func.params)
    {list : FieldList}
    (hlist : list = func.params.add (transactionParameter transactionVariable)) :
    Grows app ((((app.modifyFunc ref fun func => { func with params := list }).markExtended
      ref).markTraced ref).noteEntered ref) := by
  generalize hgrown : (app.modifyFunc ref fun func => { func with params := list }) = grown
  generalize hmarked : ((grown.markExtended ref).markTraced ref).noteEntered ref = app'
  have hfuncAt : ∀ place, app'.funcAt? place = grown.funcAt? place := by
    intro place
    rw [← hmarked]
    exact (grown.markExtended ref).funcAt?_markTraced ref place
  have htraced : ∀ other, app'.isTraced other = (app.isTraced other ||
      (decide (other = ref) && (app.entry? other).isSome)) := by
    intro other
    rw [← hmarked, ← hgrown]
    refine (Application.isTraced_markTraced ..).trans ?_
    show (((app.modifyFunc ref _).isTraced other) ||
      (decide (other = ref) && (Application.entry? (app.modifyFunc ref _) other).isSome)) = _
    rw [Application.isTraced_modifyFunc, Application.entry?_modifyFunc]
  have hself : app'.isTraced ref = true := by
    simp [htraced, isSome_entry?_of_mayInstrument hmay]
  have hextended : ∀ other, other ∈ app'.extended ↔ other = ref ∨ other ∈ app.extended := by
    intro other
    rw [← hmarked, ← hgrown]
    exact mem_insertSorted ref other app.extended
  have houtline : app'.outline = app.outline := by
    rw [← hmarked, ← hgrown]
    refine ((app.modifyFunc ref _).markExtended ref).outline_markTraced ref |>.trans ?_
    exact app.outline_modifyFunc ref fun _ => rfl
  have hextends : Extends app ref app' := by
    refine ⟨hmay, hself, (hextended ref).2 (.inl rfl), func, hfunc, hadmits, ?_⟩
    have hgrew := app.func?_modifyFunc ref fun func => { func with params := list }
    rw [hgrown, hfunc] at hgrew
    have hsame : app'.func? ref = grown.func? ref := by
      rw [Application.func?_eq, Application.func?_eq, place?_of_outline houtline, ← hgrown,
        Application.place?_modifyFunc, hgrown]
      exact congrArg _ (funext hfuncAt)
    rw [hsame, hgrew, ← hlist]
    rfl
  exact {
    outline := houtline
    isTraced := fun other h => by simp [htraced, h]
    entered := by
      refine ⟨[ref], by rw [← hmarked, ← hgrown]; rfl, by simp, fun other hmem => ?_⟩
      obtain rfl := List.mem_singleton.1 hmem
      exact ⟨.inl hmay, hself⟩
    hasBody := by
      intro place
      simp only [Application.hasBodyAt, hfuncAt, ← hgrown, Application.funcAt?_modifyFunc]
      split
      · cases app.funcAt? place <;> rfl
      · rfl
    files := by
      intro id index hfrozen
      rw [← hmarked, ← hgrown]
      refine (Application.fileAt?_markTraced _ ref id index).trans ?_
      exact fileAt?_of_isFrozen (isFree_of_mayInstrument hmay) _ hfrozen
    extended := by
      intro other hmem
      obtain rfl | hmem := (hextended other).1 hmem
      · exact .inr hextends
      · exact .inl hmem
    kept := fun other hmem => (hextended other).2 (.inr hmem)
    params := by
      intro place hplace
      simp only [Application.paramsAt?, hfuncAt, ← hgrown, Application.funcAt?_modifyFunc]
      rw [if_neg fun hat => hplace ref hat hextends] }

theorem enter {call : Call} {passing : Passing} (hands : Hands app call ref passing)
    (hmay : app.mayInstrument ref = true) :
    Grows app (((passing.applyTo ref app).markTraced ref).noteEntered ref) := by
  unfold Passing.applyTo
  split
  · next hextended =>
    obtain ⟨func, carrier, async, txn, hfunc, rfl⟩ := hands.passes
    obtain ⟨hadmits, hparams⟩ := (carrier.passes ..).of_extended hextended
    exact extend hmay hfunc hadmits hparams
  · exact mark (.inl hmay) (isSome_entry?_of_mayInstrument hmay)

end Grows

theorem isTraced_opened {app : Application} {ref : FuncRef}
    (hentry : (app.entry? ref).isSome = true) : (opened app ref).isTraced ref = true := by
  unfold opened
  rw [isTraced_setBody]
  show (app.markTraced ref).isTraced ref = true
  simp [Application.isTraced_markTraced, hentry]

theorem entry?_applyTo (passing : Passing) (ref other : FuncRef) (app : Application) :
    Application.entry? (passing.applyTo ref app) other = app.entry? other := by
  unfold Passing.applyTo
  split
  · exact app.entry?_modifyFunc ref other _
  · rfl

theorem body_applyTo (passing : Passing) (ref : FuncRef) (app : Application) (place : Place) :
    ((passing.applyTo ref app).funcAt? place).bind (·.body) = (app.funcAt? place).bind (·.body) := by
  unfold Passing.applyTo
  split
  · show ((app.modifyFunc ref _).funcAt? place).bind _ = _
    rw [Application.funcAt?_modifyFunc]
    split
    · cases app.funcAt? place <;> rfl
    · rfl
  · rfl

theorem isSome_body?_of_mayInstrument {app : Application} {ref : FuncRef}
    (h : app.mayInstrument ref = true) : (app.body? ref).isSome = true := by
  rw [Application.mayInstrument_eq] at h
  unfold Application.body?
  cases hfunc : app.func? ref <;> simp_all

theorem Weaves.outline_eq {app app' : Application} {stmts stmts' : List Stmt}
    (h : Weaves app stmts app' stmts') : app'.outline = app.outline := by
  induction h with
  | trans _ _ ih ih' => exact ih'.trans ih
  | needImport package path => exact Application.outline_needImport ..
  | nested _ _ _ _ ih => exact ih
  | @enter app app' _ _ _ ref passing _ body' _ _ _ _ _ _ _ ih =>
      have hopened : (opened (passing.applyTo ref app) ref).outline = app.outline :=
        (outline_opened ..).trans (outline_applyTo ..)
      exact (outline_setBody app' ref (some body')).trans (ih.trans hopened)
  | _ => rfl

theorem Weaves.grows {app app' : Application} {stmts stmts' : List Stmt}
    (h : Weaves app stmts app' stmts') : app.PlacesDiffer → Grows app app' := by
  induction h with
  | refl => exact fun _ => .refl
  | trans _ _ ih ih' =>
      intro hdiffer
      have hfirst := ih hdiffer
      exact hfirst.trans hdiffer (ih' (placesDiffer_of_outline hfirst.outline hdiffer))
  | needImport package path => exact fun _ => .needImport _ package path
  | console console => exact fun _ => .console _ console
  | nested _ _ _ _ ih => exact ih
  | @enter app app' _ _ _ ref passing _ body' _ hands hmay _ _ _ _ ih =>
      intro hdiffer
      have henter := Grows.enter hands hmay
      have houtline : (opened (passing.applyTo ref app) ref).outline = app.outline :=
        (outline_setBody ..).trans henter.outline
      have hopened := placesDiffer_of_outline houtline hdiffer
      exact henter.around hdiffer (isSome_body?_of_mayInstrument hmay)
        (isFree_of_mayInstrument hmay) (ih hopened) body'
  | _ => exact fun _ => .refl

end TraceWeave.Tracing
