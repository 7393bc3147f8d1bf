import TraceWeave.Proofs.Run.Repetition
import TraceWeave.Proofs.Syntax.ImportTable
import TraceWeave.Proofs.Syntax.Qualifiers

/-!
Restored imports.

A file gains the paths that its package recorded and that its functions refer to, as far
as the walk goes, and nothing else of it changes.  The additions are listed once for each
directory and path, in order.
-/

namespace TraceWeave.Syntax

/-- All but the imports. -/
def File.otherDecls (file : File) : List Decl :=
  file.decls.filter (·.importDecl?.isNone)

/-- A file that gains imports keeps all else. -/
structure KeepsAllElse (file file' : File) : Prop where
  rest : file' = { file with decls := file'.decls }
  decls : file'.otherDecls = file.otherDecls

theorem KeepsAllElse.refl (file : File) : KeepsAllElse file file := ⟨rfl, rfl⟩

theorem KeepsAllElse.trans {file file' file'' : File} (h : KeepsAllElse file file')
    (h' : KeepsAllElse file' file'') : KeepsAllElse file file'' := by
  refine ⟨?_, h'.decls.trans h.decls⟩
  rw [h'.rest, h.rest]

theorem File.addImport_keepsAllElse (file : File) (path : String) :
    KeepsAllElse file (file.addImport path) := by
  unfold File.addImport
  split
  · exact .refl file
  · obtain ⟨hnone, hdecls⟩ | ⟨front, decl, imports, back, hdecls, hfront, hkind, hadd⟩ :=
      addToDecls_cases path file.decls
    · rw [hnone]
      exact ⟨rfl, rfl⟩
    · rw [hadd]
      refine ⟨rfl, ?_⟩
      simp [File.otherDecls, hdecls, Decl.importDecl?, hkind]

theorem File.addImports_keepsAllElse (file : File) (paths : List String) :
    KeepsAllElse file (paths.foldl (fun tree path => tree.addImport path) file) := by
  induction paths generalizing file with
  | nil => exact .refl file
  | cons path paths ih => exact (file.addImport_keepsAllElse path).trans (ih _)

end TraceWeave.Syntax

namespace TraceWeave.Program

open TraceWeave.Agent TraceWeave.Order TraceWeave.Source TraceWeave.Syntax

/-! ## Files -/

/-- What restoring makes of a file. -/
structure Restores (package : Package) (file file' : SourceFile) : Prop where
  rest : file' = { file with tree := file'.tree }
  generated : file.generated = true → file' = file
  allElse : KeepsAllElse file.tree file'.tree
  /-- It imports what it did, and what the package recorded and the walk finds referred to. -/
  imports : ∀ path, file'.tree.hasImport path = true ↔ file.tree.hasImport path = true ∨
    (file.generated = false ∧ path ∈ package.imports ∧
      file.tree.Refers Phrase.Leads (packageName path))
  /-- It does refer to what it gains. -/
  held : ∀ path, file'.tree.hasImport path = true → file.tree.hasImport path = true ∨
    file.tree.Refers Phrase.Holds (packageName path)

theorem hasImport_restore (package : Package) (file : SourceFile) (path : String) :
    (restore package file).tree.hasImport path = true ↔ file.tree.hasImport path = true ∨
      path ∈ restoredPaths package file := by
  simp only [File.hasImport_iff, mem_bindings_restore, exists_or]
  exact or_congr_right ⟨fun ⟨_, _, h⟩ => h, fun h => ⟨none, rfl, h⟩⟩

theorem restores_restore (package : Package) (file : SourceFile) :
    Restores package file (restore package file) := by
  have himports : ∀ path, (restore package file).tree.hasImport path = true ↔
      file.tree.hasImport path = true ∨ (file.generated = false ∧ path ∈ package.imports ∧
        file.tree.Refers Phrase.Leads (packageName path)) := by
    intro path
    rw [hasImport_restore, mem_restoredPaths, mem_fileQualifiers]
    cases file.tree.hasImport path <;> simp
  refine ⟨rfl, fun h => ?_, file.tree.addImports_keepsAllElse _, himports, fun path h => ?_⟩
  · have hnone : restoredPaths package file = [] := if_pos h
    unfold restore
    rw [hnone]
    rfl
  · exact ((himports path).1 h).imp_right fun ⟨_, _, hrefers⟩ =>
      hrefers.mono fun _ _ => Phrase.Holds.leads

/-! ## Applications -/

/-- The file of a package in the directory gains the path. -/
def GainsImport (app app' : Application) (addition : AddedImport) : Prop :=
  ∃ entries ∈ app.packages.entries.zip app'.packages.entries,
    entries.1.2.dir = addition.dir ∧
      ∃ files ∈ entries.1.2.files.zip entries.2.2.files,
        files.1.tree.hasImport addition.path = false ∧
          files.2.tree.hasImport addition.path = true

/-- Imports are restored exactly, and what is added is listed. -/
structure RestoresExactly (app app' : Application) (added : List AddedImport) : Prop where
  rest : app' = { app with packages := app'.packages }
  packages : List.Forall₂ (fun entry entry' : String × Package =>
    entry' = (entry.1, { entry.2 with files := entry'.2.files }) ∧
      List.Forall₂ (Restores entry.2) entry.2.files entry'.2.files)
    app.packages.entries app'.packages.entries
  ascending : added.Pairwise fun addition next => compare addition next = .lt
  listed : ∀ addition, addition ∈ added ↔ GainsImport app app' addition
  /-- There is nothing left to add. -/
  settled : addImports app' = (app', [])

theorem mem_added_iff (package : Package) (addition : AddedImport) :
    addition ∈ (importInPackage package).2 ↔ package.dir = addition.dir ∧
      ∃ file ∈ package.files, addition.path ∈ restoredPaths package file := by
  have hadded : (importInPackage package).2 = package.files.flatMap fun file =>
      (restoredPaths package file).map fun path => { dir := package.dir, path } := rfl
  obtain ⟨dir, path⟩ := addition
  simp only [hadded, List.mem_flatMap, List.mem_map, AddedImport.mk.injEq]
  constructor
  · rintro ⟨file, hfile, path, hpath, rfl, rfl⟩
    exact ⟨rfl, file, hfile, hpath⟩
  · rintro ⟨rfl, file, hfile, hpath⟩
    exact ⟨file, hfile, path, hpath, rfl, rfl⟩

/-- A path that is restored was missing, and is there then. -/
theorem mem_restoredPaths_iff (package : Package) (file : SourceFile) (path : String) :
    path ∈ restoredPaths package file ↔ file.tree.hasImport path = false ∧
      (restore package file).tree.hasImport path = true := by
  rw [hasImport_restore]
  constructor
  · exact fun h => ⟨(mem_restoredPaths.1 h).2.2.2, .inr h⟩
  · rintro ⟨hmissing, h | h⟩
    · rw [hmissing] at h
      contradiction
    · exact h

theorem gainsImport_iff (app : Application) (addition : AddedImport) :
    GainsImport app (addImports app).1 addition ↔
      ∃ entry ∈ app.packages.entries, addition ∈ (importInPackage entry.2).2 := by
  unfold GainsImport
  rw [addImports_eq]
  simp only [← List.map_prod_left_eq_zip, List.mem_map, exists_exists_and_eq_and, mem_added_iff,
    files_importInPackage, mem_restoredPaths_iff]

/-- Restoring adds the imports that are recorded and referred to, and lists them in order. -/
theorem addImports_exact (app : Application) :
    RestoresExactly app (addImports app).1 (addImports app).2 := by
  refine ⟨?_, ?_, ?_, fun addition => ?_, addImports_twice app⟩
  · rw [addImports_eq]
  · rw [addImports_eq]
    refine List.forall₂_map_right_iff.2 (List.forall₂_same.2 fun entry _ => ⟨?_, ?_⟩)
    · rw [files_importInPackage]
    · exact List.forall₂_map_right_iff.2
        (List.forall₂_same.2 fun file _ => restores_restore entry.2 file)
  · rw [addImports_eq]
    exact pairwise_sortedDistinct _
  · rw [gainsImport_iff, addImports_eq, mem_sortedDistinct, List.mem_flatMap]

end TraceWeave.Program
