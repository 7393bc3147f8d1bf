import TraceWeave.Proofs.Program.Restoration
import TraceWeave.Proofs.Run.CallSites
import TraceWeave.Proofs.Syntax.Qualifiers
import TraceWeave.Proofs.Tracing.Recording

/-!
Import tables across a whole run.

What restoring adds to a file is told by its package and its functions alone.  Where a
function has gained a parameter for the transaction, the package has recorded the import
that its type needs and the file refers to it, so that the file has it behind the run.
-/

namespace TraceWeave.Program

open TraceWeave.Agent TraceWeave.Order TraceWeave.Source TraceWeave.Syntax TraceWeave.Tracing
  TraceWeave.Types

/-! ## Files behind a restoration -/

theorem package?_addImports (app : Application) (id : String) :
    (addImports app).1.package? id =
      (app.package? id).map fun package => (importInPackage package).1 := by
  rw [addImports_eq]
  exact Table.lookup_map_value (fun package => (importInPackage package).1) id app.packages.entries

theorem fileAt?_addImports {app : Application} {id : String} {index : Nat} {package : Package}
    {file : SourceFile} (hpackage : app.package? id = some package)
    (hfile : package.files[index]? = some file) :
    (addImports app).1.fileAt? id index = some (restore package file) := by
  rw [Application.fileAt?, package?_addImports, hpackage]
  simp [files_importInPackage, hfile]

/-- The function may be found in a file of the application. -/
theorem mem_funcs_of_fileAt? {app : Application} {place : Place} {func : FuncDecl}
    (h : app.funcAt? place = some func) :
    ∃ package file, app.package? place.package = some package ∧
      package.files[place.file]? = some file ∧ func ∈ file.tree.funcs := by
  obtain ⟨package, hpackage, hdecl⟩ := Option.bind_eq_some_iff.1 h
  obtain ⟨decl, hdecl, hfunc⟩ := Option.bind_eq_some_iff.1 hdecl
  obtain ⟨file, hfile, hdecl⟩ := Option.bind_eq_some_iff.1 hdecl
  refine ⟨package, file, hpackage, hfile, ?_⟩
  exact List.mem_filterMap.2 ⟨decl, List.mem_of_getElem? hdecl, hfunc⟩

/-! ## Extended functions -/

theorem newrelic_mem_qualifiers {func : FuncDecl} {params : FieldList}
    (h : func.params = params.add (transactionParameter transactionVariable)) :
    "newrelic" ∈ funcQualifiers func := by
  have hparam : ∃ field ∈ func.params.fields, field.type = transactionType := by
    rw [h]
    unfold FieldList.add
    exact ⟨_, List.mem_concat_self, by split <;> rfl⟩
  obtain ⟨field, hfield, htype⟩ := hparam
  have hqualifier : "newrelic" ∈ field.type.qualifiers := by
    rw [htype]
    decide
  exact List.mem_append_left _
    ((mem_qualifiersOfFields _).2 ⟨field, hfield, field.type.mem_qualifiers.1 hqualifier⟩)

theorem packageName_newrelic : packageName Path.newrelic = "newrelic" := by decide

theorem needs_fixCallSites {app : Application} {id path : String} (h : app.Needs id path) :
    (fixCallSites app).1.Needs id path := by
  intro package' hpackage'
  have hpackage := package?_fixCallSites app id
  rw [hpackage'] at hpackage
  cases hbefore : app.package? id with
  | none =>
      rw [hbefore] at hpackage
      cases hpackage
  | some package =>
      rw [hbefore] at hpackage
      cases hpackage with
      | some hcompletes =>
          obtain ⟨files, rfl⟩ := hcompletes.rest
          exact h package hbefore

/-- What restoring makes of the import tables behind a run. -/
structure RestoresImports (app : Application) : Prop where
  /-- Exactly what is needed comes in, under the name of its package. -/
  bindings : ∀ id index package file, app.package? id = some package →
    package.files[index]? = some file →
      ∃ file', (addImports app).1.fileAt? id index = some file' ∧
        file'.tree.funcs = file.tree.funcs ∧
        ∀ name path, (name, path) ∈ file'.tree.bindings ↔ (name, path) ∈ file.tree.bindings ∨
          (name = none ∧ file.generated = false ∧ path ∈ package.imports ∧
            packageName path ∈ fileQualifiers file.tree ∧ file.tree.hasImport path = false)
  /-- The type of a parameter that was added is imported, anew unless it was imported before. -/
  extended : ∀ ref ∈ app.extended, ∃ place before after, app.place? ref = some place ∧
    app.fileAt? place.package place.file = some before ∧
    (addImports app).1.fileAt? place.package place.file = some after ∧
    (before.tree.hasImport Path.newrelic = true ∨ (none, Path.newrelic) ∈ after.tree.bindings)

theorem bindings_addImports {app : Application} {id : String} {index : Nat} {package : Package}
    {file : SourceFile} (hpackage : app.package? id = some package)
    (hfile : package.files[index]? = some file) :
    ∃ file', (addImports app).1.fileAt? id index = some file' ∧
      file'.tree.funcs = file.tree.funcs ∧
      ∀ name path, (name, path) ∈ file'.tree.bindings ↔ (name, path) ∈ file.tree.bindings ∨
        (name = none ∧ file.generated = false ∧ path ∈ package.imports ∧
          packageName path ∈ fileQualifiers file.tree ∧ file.tree.hasImport path = false) := by
  refine ⟨restore package file, fileAt?_addImports hpackage hfile, ?_, fun name path => ?_⟩
  · exact File.funcs_addImports file.tree _
  · rw [mem_bindings_restore, mem_restoredPaths]

/-- A run binds the type of each parameter that it adds. -/
theorem run_restoresImports (origin : Origin) :
    RestoresImports (fixCallSites (weave.run origin.app).2).1 := by
  constructor
  · intro id index package file hpackage hfile
    exact bindings_addImports hpackage hfile
  have hgrows := (run_turns origin).grows origin.coherent_app.placesDiffer
  have hrecords := (Weave.wp_iff _ _ _).1 (weave_keeps origin.app)
  generalize (weave.run origin.app).2 = app at hgrows hrecords
  intro ref href
  have hextends := extends_of_grows hgrows href
  have hneeds : app.Needs ref.package Path.newrelic :=
    (hrecords.extended ref href).resolve_left fun hold => nomatch origin.app_extended ▸ hold
  obtain ⟨func, -, -, hparams⟩ := hextends.params
  rw [← params_fixCallSites] at hparams
  obtain ⟨func', hfunc', hparams'⟩ := Option.map_eq_some_iff.1 hparams
  rw [Application.func?_eq] at hfunc'
  obtain ⟨place, hplace, hfuncAt⟩ := Option.bind_eq_some_iff.1 hfunc'
  obtain ⟨package, file, hpackage, hfile, hmem⟩ := mem_funcs_of_fileAt? hfuncAt
  have houtline := (outline_fixCallSites app).trans hgrows.outline
  have hid : place.package = ref.package := ((Application.place?_eq_some _ _ _).1 hplace).1
  have hgenerated : file.generated = false := by
    have hfree := isFree_of_outline houtline (isFree_of_mayInstrument hextends.mayInstrument)
    have hfrozen := hfree place hplace
    simp only [Application.isFrozen, hpackage, Option.any_some, Bool.or_eq_false_iff, hfile] at hfrozen
    exact hfrozen.2
  have himports : Path.newrelic ∈ package.imports :=
    needs_fixCallSites hneeds package (hid ▸ hpackage)
  have hused : packageName Path.newrelic ∈ fileQualifiers file.tree := by
    rw [packageName_newrelic]
    exact List.mem_flatMap.2 ⟨func', hmem, newrelic_mem_qualifiers hparams'⟩
  have hfileAt : (fixCallSites app).1.fileAt? place.package place.file = some file := by
    rw [Application.fileAt?, hpackage]
    exact hfile
  obtain ⟨file', hfile', -, hbindings⟩ := bindings_addImports hpackage hfile
  refine ⟨place, file, file', hplace, hfileAt, hfile', ?_⟩
  cases himport : file.tree.hasImport Path.newrelic with
  | true => exact .inl rfl
  | false => exact .inr ((hbindings _ _).2 (.inr ⟨rfl, hgenerated, himports, hused, himport⟩))

end TraceWeave.Program
