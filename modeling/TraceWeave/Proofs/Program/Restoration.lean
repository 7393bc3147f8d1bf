import Mathlib.Data.List.TakeDrop
import TraceWeave.Program.Imports

/-!
The import table of a file when imports are restored.

Adding a path binds it under the name of its package and keeps all that was bound
before, in whichever group and declaration the specification comes to stand
(`bindings_addImport`).  Hence restoring binds what the package needs and the file
refers to, and nothing else (`mem_bindings_restored`).
-/

namespace TraceWeave.Syntax

open TraceWeave.Text

/-! ## Specifications -/

/-- What a specification binds: a name, or the name of the package, and the path. -/
def ImportSpec.binding (spec : ImportSpec) : Option String × String := (spec.name, spec.path)

def bindingsOf (specs : List ImportSpec) : List (Option String × String) :=
  specs.map ImportSpec.binding

@[simp]
theorem ImportSpec.binding_withGap (spec : ImportSpec) (gap : Gap) :
    (spec.withGap gap).binding = spec.binding := rfl

@[simp]
theorem bindingsOf_cons (spec : ImportSpec) (specs : List ImportSpec) :
    bindingsOf (spec :: specs) = spec.binding :: bindingsOf specs := rfl

@[simp]
theorem bindingsOf_append (front back : List ImportSpec) :
    bindingsOf (front ++ back) = bindingsOf front ++ bindingsOf back := List.map_append

theorem bindingsOf_map_withGap (specs : List ImportSpec) (gap : Gap) :
    bindingsOf (specs.map (·.withGap gap)) = bindingsOf specs := by
  simp [bindingsOf, Function.comp_def]

theorem flatten_importGroups (specs : List ImportSpec) : (importGroups specs).flatten = specs := by
  induction specs with
  | nil => rfl
  | cons spec specs ih =>
      unfold importGroups
      split
      · next h => simp_all
      · next group groups h =>
        rw [h] at ih
        split
        · split <;> simp_all
        · simp_all

theorem bindingsOf_insertSorted (path : String) (group : List ImportSpec) :
    (bindingsOf (insertSorted path group)).Perm ((none, path) :: bindingsOf group) := by
  have hspan : bindingsOf (group.takeWhile fun spec => !(path < spec.path)) ++
      bindingsOf (group.dropWhile fun spec => !(path < spec.path)) = bindingsOf group := by
    rw [← bindingsOf_append, List.takeWhile_append_dropWhile]
  unfold insertSorted
  rw [List.span_eq_takeWhile_dropWhile]
  dsimp only
  split
  · next first rest hsmaller hgreater =>
    rw [hsmaller, hgreater] at hspan
    simp only [bindingsOf_cons, ImportSpec.binding_withGap, ← hspan]
    exact .refl _
  · rw [bindingsOf_append, bindingsOf_cons, ← hspan]
    exact List.perm_middle

theorem bindingsOf_modifyFirst {test : List ImportSpec → Bool} {groups : List (List ImportSpec)}
    (path : String) (h : groups.any test = true) :
    (bindingsOf (modifyFirst test (insertSorted path) groups).flatten).Perm
      ((none, path) :: bindingsOf groups.flatten) := by
  induction groups with
  | nil => contradiction
  | cons group groups ih =>
      unfold modifyFirst
      split
      · rw [List.flatten_cons, List.flatten_cons, bindingsOf_append, bindingsOf_append]
        exact (bindingsOf_insertSorted path group).append_right _
      · next htest =>
        have hrest : groups.any test = true := by simpa [htest] using h
        rw [List.flatten_cons, List.flatten_cons, bindingsOf_append, bindingsOf_append]
        exact ((ih hrest).append_left _).trans List.perm_middle

theorem bindingsOf_addToSpecs (path : String) (specs : List ImportSpec) :
    (bindingsOf (addToSpecs path specs)).Perm ((none, path) :: bindingsOf specs) := by
  have hspecs := flatten_importGroups specs
  unfold addToSpecs
  dsimp only
  split
  · split
    · next hany => simpa only [hspecs] using bindingsOf_modifyFirst path hany
    · split
      · exact .refl _
      · exact .refl _
  · split
    · next hany =>
      -- the last group of its kind takes the path
      have hany' : (importGroups specs).reverse.any (!isStandardGroup ·) = true := by
        simpa using hany
      have hadded := bindingsOf_modifyFirst path hany'
      have hreverse : ∀ groups : List (List ImportSpec),
          (bindingsOf groups.reverse.flatten).Perm (bindingsOf groups.flatten) :=
        fun groups => ((List.reverse_perm groups).flatten).map ImportSpec.binding
      refine ((hreverse _).trans hadded).trans (.cons _ ?_)
      simpa only [hspecs] using hreverse (importGroups specs)
    · split
      · next hempty =>
        obtain rfl := List.isEmpty_iff.1 hempty
        exact .refl _
      · rw [bindingsOf_append]
        exact List.perm_append_singleton _ _

/-! ## Files -/

/-- What the imports of a file bind. -/
def File.bindings (file : File) : List (Option String × String) := bindingsOf file.imports

theorem File.hasImport_iff (file : File) (path : String) :
    file.hasImport path = true ↔ ∃ name, (name, path) ∈ file.bindings := by
  simp only [File.hasImport, File.bindings, bindingsOf, ImportSpec.binding, List.any_eq_true,
    List.mem_map, beq_iff_eq, Prod.mk.injEq]
  constructor
  · rintro ⟨spec, hspec, rfl⟩
    exact ⟨spec.name, spec, hspec, rfl, rfl⟩
  · rintro ⟨name, spec, hspec, -, hpath⟩
    exact ⟨spec, hspec, hpath⟩

theorem bindingsOf_addToDecls {path : String} {decls decls' : List Decl}
    (h : addToDecls path decls = some decls') :
    (bindingsOf (decls'.flatMap Decl.imports)).Perm
      ((none, path) :: bindingsOf (decls.flatMap Decl.imports)) := by
  induction decls generalizing decls' with
  | nil => contradiction
  | cons decl decls ih =>
      unfold addToDecls at h
      split at h
      · next imports hkind =>
        obtain rfl := Option.some.inj h
        have hspecs : (bindingsOf (imports.add path).specs).Perm
            ((none, path) :: bindingsOf imports.specs) := by
          unfold ImportDecl.add
          dsimp only
          refine (bindingsOf_addToSpecs path _).trans (.cons _ ?_)
          split
          · exact .refl _
          · exact .of_eq (bindingsOf_map_withGap _ _)
        simp only [List.flatMap_cons, Decl.imports, hkind, bindingsOf_append]
        exact hspecs.append_right _
      · obtain ⟨rest, hrest, rfl⟩ := Option.map_eq_some_iff.1 h
        simp only [List.flatMap_cons, bindingsOf_append]
        exact ((ih hrest).append_left _).trans List.perm_middle

theorem File.bindings_addImport (file : File) {path : String} (h : file.hasImport path = false) :
    (file.addImport path).bindings.Perm ((none, path) :: file.bindings) := by
  unfold File.addImport
  rw [h]
  simp only [Bool.false_eq_true, if_false]
  split
  · next decls hdecls => exact bindingsOf_addToDecls hdecls
  · exact .refl _

theorem File.funcs_addImport (file : File) (path : String) :
    (file.addImport path).funcs = file.funcs := by
  have hdecls : ∀ {decls decls' : List Decl}, addToDecls path decls = some decls' →
      decls'.filterMap Decl.func? = decls.filterMap Decl.func? := by
    intro decls
    induction decls with
    | nil => exact fun h => nomatch h
    | cons decl decls ih =>
        intro decls' h
        unfold addToDecls at h
        split at h
        · next imports hkind =>
          obtain rfl := Option.some.inj h
          simp [List.filterMap_cons, Decl.func?, hkind]
        · obtain ⟨rest, hrest, rfl⟩ := Option.map_eq_some_iff.1 h
          simp only [List.filterMap_cons, ih hrest]
  unfold File.addImport
  split
  · rfl
  · split
    · next decls hadded => exact hdecls hadded
    · rfl

/-- What is bound once several paths have been added. -/
theorem File.mem_bindings_addImports (file : File) (paths : List String)
    (binding : Option String × String) :
    binding ∈ (paths.foldl (fun tree path => tree.addImport path) file).bindings ↔
      binding ∈ file.bindings ∨
        (binding.1 = none ∧ binding.2 ∈ paths ∧ file.hasImport binding.2 = false) := by
  induction paths generalizing file with
  | nil => simp
  | cons path paths ih =>
      rw [List.foldl_cons, ih]
      obtain ⟨name, bound⟩ := binding
      cases himport : file.hasImport path with
      | true =>
          have hsame : file.addImport path = file := by simp [File.addImport, himport]
          rw [hsame]
          constructor
          · rintro (h | ⟨hname, hmem, hmissing⟩)
            · exact .inl h
            · exact .inr ⟨hname, List.mem_cons_of_mem _ hmem, hmissing⟩
          · rintro (h | ⟨hname, hmem, hmissing⟩)
            · exact .inl h
            · obtain rfl | hmem := List.mem_cons.1 hmem
              · rw [himport] at hmissing
                contradiction
              · exact .inr ⟨hname, hmem, hmissing⟩
      | false =>
          have hperm := file.bindings_addImport himport
          have hmissing : ∀ other, (file.addImport path).hasImport other = false ↔
              other ≠ path ∧ file.hasImport other = false := by
            intro other
            rw [← Bool.not_eq_true, ← Bool.not_eq_true, File.hasImport_iff, File.hasImport_iff]
            simp only [hperm.mem_iff, List.mem_cons, Prod.mk.injEq]
            constructor
            · exact fun h => ⟨fun heq => h ⟨none, .inl ⟨rfl, heq⟩⟩, fun ⟨name, hmem⟩ => h ⟨name, .inr hmem⟩⟩
            · rintro ⟨hne, hnot⟩ ⟨name, ⟨-, heq⟩ | hmem⟩
              · exact hne heq
              · exact hnot ⟨name, hmem⟩
          simp only [hperm.mem_iff, hmissing, List.mem_cons, Prod.mk.injEq]
          constructor
          · rintro ((⟨rfl, rfl⟩ | h) | ⟨hname, hmem, -, hnot⟩)
            · exact .inr ⟨rfl, .inl rfl, himport⟩
            · exact .inl h
            · exact .inr ⟨hname, .inr hmem, hnot⟩
          · rintro (h | ⟨hname, hmem, hnot⟩)
            · exact .inl (.inr h)
            · by_cases heq : bound = path
              · exact .inl (.inl ⟨hname, heq⟩)
              · exact .inr ⟨hname, hmem.resolve_left heq, heq, hnot⟩

theorem File.funcs_addImports (file : File) (paths : List String) :
    (paths.foldl (fun tree path => tree.addImport path) file).funcs = file.funcs := by
  induction paths generalizing file with
  | nil => rfl
  | cons path paths ih => rw [List.foldl_cons, ih, File.funcs_addImport]

end TraceWeave.Syntax

namespace TraceWeave.Program

open TraceWeave.Agent TraceWeave.Order TraceWeave.Syntax

/-! ## Restoring -/

/-- The imports that restoring adds to a file of a package. -/
def restoredPaths (package : Package) (file : SourceFile) : List String :=
  if file.generated then [] else missingImports package.imports file.tree

/-- The file once imports are restored. -/
def restore (package : Package) (file : SourceFile) : SourceFile :=
  { file with
    tree := (restoredPaths package file).foldl (fun tree path => tree.addImport path) file.tree }

theorem files_importInPackage (package : Package) :
    (importInPackage package).1 = { package with files := package.files.map (restore package) } := rfl

theorem fileQualifiers_restore (package : Package) (file : SourceFile) :
    fileQualifiers (restore package file).tree = fileQualifiers file.tree := by
  unfold fileQualifiers restore
  rw [File.funcs_addImports]

theorem mem_restoredPaths {package : Package} {file : SourceFile} {path : String} :
    path ∈ restoredPaths package file ↔ file.generated = false ∧ path ∈ package.imports ∧
      packageName path ∈ fileQualifiers file.tree ∧ file.tree.hasImport path = false := by
  unfold restoredPaths missingImports
  cases file.generated <;> simp

/-- What a file binds behind a restoration. -/
theorem mem_bindings_restore (package : Package) (file : SourceFile) (name : Option String)
    (path : String) :
    (name, path) ∈ (restore package file).tree.bindings ↔ (name, path) ∈ file.tree.bindings ∨
      (name = none ∧ path ∈ restoredPaths package file) := by
  unfold restore
  rw [File.mem_bindings_addImports, mem_restoredPaths]
  simp only
  constructor
  · rintro (h | ⟨hname, ⟨hgenerated, hpath, hused, hmissing⟩, -⟩)
    · exact .inl h
    · exact .inr ⟨hname, hgenerated, hpath, hused, hmissing⟩
  · rintro (h | ⟨hname, hgenerated, hpath, hused, hmissing⟩)
    · exact .inl h
    · exact .inr ⟨hname, ⟨hgenerated, hpath, hused, hmissing⟩, hmissing⟩

/-- Nothing is missing behind a restoration. -/
theorem restoredPaths_restore (package package' : Package) (himports : package'.imports = package.imports)
    (file : SourceFile) : restoredPaths package' (restore package file) = [] := by
  refine List.eq_nil_iff_forall_not_mem.2 fun path hmem => ?_
  obtain ⟨hgenerated, hpath, hused, hmissing⟩ := mem_restoredPaths.1 hmem
  rw [himports] at hpath
  rw [fileQualifiers_restore] at hused
  have hnot : ∀ name, (name, path) ∉ (restore package file).tree.bindings := by
    intro name hname
    rw [← Bool.not_eq_true, File.hasImport_iff] at hmissing
    exact hmissing ⟨name, hname⟩
  cases himport : file.tree.hasImport path with
  | true =>
      obtain ⟨name, hname⟩ := (File.hasImport_iff _ _).1 himport
      exact hnot name ((mem_bindings_restore package file name path).2 (.inl hname))
  | false =>
      have hrestored : path ∈ restoredPaths package file :=
        mem_restoredPaths.2 ⟨hgenerated, hpath, hused, himport⟩
      exact hnot none ((mem_bindings_restore package file none path).2 (.inr ⟨rfl, hrestored⟩))

theorem addImports_eq (app : Application) :
    addImports app =
      ({ app with packages := ⟨app.packages.entries.map fun entry =>
          (entry.1, (importInPackage entry.2).1)⟩ },
        sortedDistinct (app.packages.entries.flatMap fun entry => (importInPackage entry.2).2)) := by
  simp [addImports, List.flatMap_map, Function.comp_def]

end TraceWeave.Program
