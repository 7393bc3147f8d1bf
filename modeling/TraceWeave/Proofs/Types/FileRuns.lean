import Mathlib.Data.List.Induction
import TraceWeave.Proofs.Types.Invariants

/-!
How the files of packages are resolved.

The bodies of the files are read one after another.  In front of each of them stands what the
declarations and the files before it have left, with the imports of the file entered
(`FileRun`).  An identifier that has its number for itself is linked when its own event comes
and keeps that link through the rest of its file and all files behind it (`FileRun.linked`).
-/

namespace TraceWeave.Types

open TraceWeave.Syntax

/-! ## Imports -/

namespace Info

/-- The name that an import is entered under. -/
def boundName (info : Info) (spec : ImportSpec) : String :=
  match spec.name with
  | some name => name
  | none => (info.packageName? spec.path).getD (defaultPackageName spec.path)

/-- The name that an import goes by in its file, if it has one. -/
def importName? (info : Info) (spec : ImportSpec) : Option String :=
  if spec.name == some "_" || spec.name == some "." then none else some (info.boundName spec)

/-- The import that a name stands for: the last one that goes by it. -/
def importSpec? (info : Info) (specs : List ImportSpec) (name : String) : Option ImportSpec :=
  specs.reverse.find? fun spec => info.importName? spec == some name

theorem importSpec?_concat (info : Info) (specs : List ImportSpec) (spec : ImportSpec) (name : String) :
    info.importSpec? (specs ++ [spec]) name =
      if info.importName? spec == some name then some spec else info.importSpec? specs name := by
  rw [importSpec?, List.reverse_concat, List.find?_cons]
  cases info.importName? spec == some name <;> rfl

theorem packageName?_of_packages {info info' : Info} (h : info'.packages = info.packages)
    (path : String) : info'.packageName? path = info.packageName? path := by
  unfold packageName?
  rw [h]

/-- Imports are known by the names of packages. -/
theorem importName?_congr {info info' : Info} (h : ∀ path, info'.packageName? path = info.packageName? path)
    (spec : ImportSpec) : info'.importName? spec = info.importName? spec := by
  unfold importName? boundName
  rw [h]

theorem importSpec?_congr {info info' : Info} (h : ∀ path, info'.packageName? path = info.packageName? path)
    (specs : List ImportSpec) (name : String) : info'.importSpec? specs name = info.importSpec? specs name := by
  unfold importSpec?
  simp only [importName?_congr h]

theorem importSpec?_of_packages {info info' : Info} (h : info'.packages = info.packages)
    (specs : List ImportSpec) (name : String) : info'.importSpec? specs name = info.importSpec? specs name :=
  importSpec?_congr (packageName?_of_packages h) specs name

theorem importName?_of_packages {info info' : Info} (h : info'.packages = info.packages)
    (spec : ImportSpec) : info'.importName? spec = info.importName? spec :=
  importName?_congr (packageName?_of_packages h) spec

end Info

namespace Resolver

def addImport (package : String) (resolver : Resolver) (spec : ImportSpec) : Resolver :=
  if spec.name == some "_" || spec.name == some "." then resolver
  else
    let name := resolver.info.boundName spec
    let (info, id) := resolver.info.addObject
      { kind := .package, name, package, type := none, imported := some spec.path }
    { resolver with info, imports := resolver.imports.insert name id }

theorem forFile_eq (info : Info) (package : String) (file : File) :
    forFile info package file = file.imports.foldl (addImport package) { info, package } := rfl

theorem addImport_eq (package : String) (resolver : Resolver) (spec : ImportSpec) :
    resolver.addImport package spec =
      match resolver.info.importName? spec with
      | none => resolver
      | some name =>
          { resolver with
            info := (resolver.info.addObject
              { kind := .package, name, package, type := none, imported := some spec.path }).1
            imports := resolver.imports.insert name resolver.info.objects.size } := by
  unfold addImport Info.importName?
  cases spec.name == some "_" || spec.name == some "." <;> rfl

/-- What a table holds under a name: the object of an import, if there is one. -/
def Enters (resolver : Resolver) (name : String) : Option ImportSpec → Prop
  | none => resolver.imports.get? name = none
  | some spec => ∃ id type, resolver.imports.get? name = some id ∧
      resolver.info.objects[id]? =
        some { kind := .package, name, package := resolver.package, type, imported := some spec.path }

/-- The state in front of a file has entered its imports and no block. -/
structure Opens (info : Info) (package : String) (specs : List ImportSpec) (resolver : Resolver) :
    Prop where
  package : resolver.package = package
  scopes : resolver.scopes = []
  grows : info.Grows resolver.info
  uses : resolver.info.uses = info.uses
  enters (name : String) : resolver.Enters name (info.importSpec? specs name)

variable {resolver resolver' : Resolver}

/-- Objects and tables keep what they hold. -/
theorem Enters.grows {name : String} {spec : Option ImportSpec} (h : resolver.Enters name spec)
    (himports : resolver'.imports.get? name = resolver.imports.get? name)
    (hpackage : resolver'.package = resolver.package)
    (hgrows : resolver.info.Grows resolver'.info) : resolver'.Enters name spec := by
  cases spec with
  | none => exact himports.trans h
  | some spec =>
      obtain ⟨id, type, hid, hobject⟩ := h
      obtain ⟨type', htyped⟩ := hgrows.objects hobject
      rw [← hpackage] at htyped
      exact ⟨id, type', himports.trans hid, htyped⟩

theorem Opens.addImport {info : Info} {package : String} {specs : List ImportSpec}
    (h : Opens info package specs resolver) (spec : ImportSpec) :
    Opens info package (specs ++ [spec]) (resolver.addImport package spec) := by
  rw [addImport_eq, Info.importName?_of_packages h.grows.packages]
  cases hname : info.importName? spec with
  | none =>
      refine ⟨h.package, h.scopes, h.grows, h.uses, fun name => ?_⟩
      rw [Info.importSpec?_concat, hname]
      exact h.enters name
  | some bound =>
      have hgrows := Info.Grows.addObject resolver.info
        { kind := .package, name := bound, package, type := none, imported := some spec.path }
      refine ⟨h.package, h.scopes, h.grows.trans hgrows, h.uses, fun name => ?_⟩
      rw [Info.importSpec?_concat, hname]
      by_cases hbound : bound = name
      · subst hbound
        rw [if_pos (by simp)]
        refine ⟨resolver.info.objects.size, none, by simp, ?_⟩
        simp [Info.addObject, h.package]
      · rw [if_neg (by simpa using hbound)]
        refine (h.enters name).grows ?_ rfl hgrows
        simp [Std.HashMap.getElem?_insert, hbound]

theorem opens_forFile (info : Info) (package : String) (file : File) :
    Opens info package file.imports (forFile info package file) := by
  rw [forFile_eq]
  induction file.imports using List.reverseRecOn with
  | nil => exact ⟨rfl, rfl, .refl info, rfl, fun name => by simp [Info.importSpec?, Enters]⟩
  | append_singleton specs spec ih =>
      rw [List.foldl_concat]
      exact ih.addImport spec

/-- The bodies of a file: nothing is linked but their own identifiers. -/
theorem continues_resolveFile (info : Info) (package : String) (file : File) :
    Continues (eventsOfFile file) (forFile info package file)
      (resolveFile file (forFile info package file)).2 :=
  (traces_resolveFile file _).continues

end Resolver

/-! ## Packages -/

namespace Info

theorem resolves_foldl (files : List (String × File)) (info : Info) :
    info.Grows (files.foldl (forEntry Resolver.resolveFile) info) ∧
      ∀ number ∉ numbersIn (eventsOfFiles files),
        (files.foldl (forEntry Resolver.resolveFile) info).uses.get? number = info.uses.get? number := by
  induction files generalizing info with
  | nil => exact ⟨.refl info, fun _ _ => rfl⟩
  | cons entry files ih =>
      have hopens := Resolver.opens_forFile info entry.1 entry.2
      have hcontinues := Resolver.continues_resolveFile info entry.1 entry.2
      obtain ⟨hgrows, huses⟩ := ih (forEntry Resolver.resolveFile info entry)
      refine ⟨(hopens.grows.trans hcontinues.grows).trans hgrows, fun number hnumber => ?_⟩
      rw [eventsOfFiles, List.flatMap_cons, numbersIn_append, List.mem_append, not_or] at hnumber
      rw [List.foldl_cons, huses number hnumber.2, ← hopens.uses]
      exact hcontinues.links hnumber.1

end Info

/-! ## Identifiers apart -/

/-- Among all identifiers of packages only one has the number. -/
structure Apart (info : Info) (sources : List PackageSource) (ident : Ident) : Prop where
  numbered : ident.isGenerated = false
  unlinked : info.objectId? ident = none
  undeclared : ident.id ∉ Info.declaredNumbers sources
  once : (numbersIn (Info.eventsOfFiles (filesOf sources))).count ident.id = 1

theorem count_append_cons {list front back : List Nat} {n : Nat} (h : list = front ++ n :: back)
    (hcount : list.count n = 1) : n ∉ front ∧ n ∉ back := by
  rw [h, List.count_append, List.count_cons_self] at hcount
  exact ⟨List.count_eq_zero.1 (by omega), List.count_eq_zero.1 (by omega)⟩

/-- No other file and no other event of its own file has the number. -/
theorem Apart.split {info : Info} {sources : List PackageSource} {ident : Ident} {path : String}
    {file : File} {front back : List (String × File)} {before after : List Event} {event : Event}
    (h : Apart info sources ident) (hfiles : filesOf sources = front ++ (path, file) :: back)
    (hevents : eventsOfFile file = before ++ event :: after) (hident : event.ident? = some ident) :
    (ident.id ∉ numbersIn (Info.eventsOfFiles front) ∧ ident.id ∉ numbersIn before) ∧
      ident.id ∉ numbersIn after ∧ ident.id ∉ numbersIn (Info.eventsOfFiles back) := by
  have hsplit : numbersIn (Info.eventsOfFiles (filesOf sources)) =
      (numbersIn (Info.eventsOfFiles front) ++ numbersIn before) ++ ident.id ::
        (numbersIn after ++ numbersIn (Info.eventsOfFiles back)) := by
    rw [hfiles, Info.eventsOfFiles, List.flatMap_append, List.flatMap_cons, hevents]
    simp only [numbersIn_append, numbersIn_cons_of_ident hident, List.append_assoc, List.cons_append]
    rfl
  have hcount := count_append_cons hsplit h.once
  simpa only [List.mem_append, not_or] using hcount

/-! ## Files -/

/-- How a file is resolved, given what is known when its turn comes. -/
structure FileRun (info : Info) (sources : List PackageSource) (path : String) (file : File)
    (known : Info) : Prop where
  opens : Resolver.Opens known path file.imports (Resolver.forFile known path file)
  runs : Resolver.Runs (Resolver.forFile known path file) (eventsOfFile file)
    (Resolver.resolveFile file (Resolver.forFile known path file)).2
  grows : (Resolver.resolveFile file (Resolver.forFile known path file)).2.info.Grows
    (info.check sources)
  keeps {P : Info → Prop} : Info.Stable {} P → P info → P known
  linked {before after : List Event} {event : Event} {ident : Ident} :
    eventsOfFile file = before ++ event :: after → event.ident? = some ident →
      Apart info sources ident →
      (Resolver.forFile known path file).info.objectId? ident = none ∧
        ident.id ∉ numbersIn before ∧ ident.id ∉ numbersIn after ∧
        (info.check sources).objectId? ident =
          (Resolver.resolveFile file (Resolver.forFile known path file)).2.info.objectId? ident

theorem exists_fileRun (info : Info) {sources : List PackageSource} {source : PackageSource}
    {file : File} (hsource : source ∈ sources) (hfile : file ∈ source.files) :
    ∃ known, FileRun info sources source.path file known := by
  have hmem := Info.mem_filesOf hsource hfile
  obtain ⟨front, back, hfiles⟩ := List.append_of_mem hmem
  have hcheck : info.check sources = back.foldl (Info.forEntry Resolver.resolveFile)
      (Info.forEntry Resolver.resolveFile (front.foldl (Info.forEntry Resolver.resolveFile)
        (info.declarations sources)) (source.path, file)) := by
    rw [Info.check_eq, Info.forFiles_eq, hfiles, List.foldl_append, List.foldl_cons]
  obtain ⟨-, hfrontUses⟩ := Info.resolves_foldl front (info.declarations sources)
  have hkeeps : ∀ {P : Info → Prop}, Info.Stable {} P → P info →
      P (front.foldl (Info.forEntry Resolver.resolveFile) (info.declarations sources)) :=
    fun hP hinfo => hP.forFiles (fun _ _ => Resolver.preserves_resolveFile hP fun _ _ => trivial)
      (hP.declarations (.all sources) hinfo)
  generalize front.foldl (Info.forEntry Resolver.resolveFile) (info.declarations sources) = known
    at hcheck hfrontUses hkeeps
  obtain ⟨hbackGrows, hbackUses⟩ :=
    Info.resolves_foldl back (Info.forEntry Resolver.resolveFile known (source.path, file))
  have hopens := Resolver.opens_forFile known source.path file
  refine ⟨known, hopens, Resolver.traces_resolveFile file _, hcheck ▸ hbackGrows, hkeeps, ?_⟩
  intro before after event ident hevents hident hapart
  obtain ⟨⟨hfrontApart, hbefore⟩, hafter, hbackApart⟩ := hapart.split hfiles hevents hident
  refine ⟨?_, hbefore, hafter, ?_⟩
  · rw [Info.objectId?, hopens.uses, hfrontUses _ hfrontApart,
      Info.uses_declarations hapart.undeclared]
    exact hapart.unlinked
  · rw [hcheck]
    exact hbackUses _ hbackApart

/-- An occurrence is linked to the declaration that it stands for, or to what its name is outside. -/
theorem FileRun.links {info known : Info} {sources : List PackageSource} {path : String} {file : File}
    (h : FileRun info sources path file known) {before after : List Event} {event : Event}
    {ident : Ident} (hevents : eventsOfFile file = before ++ event :: after)
    (hident : event.ident? = some ident) (hblank : ident.isBlank = false)
    (hapart : Apart info sources ident) :
    (info.check sources).objectId? ident =
      (((scopesBehind before).target? event).map
        ((Resolver.forFile known path file).info.objects.size + ·)).or
          ((Resolver.forFile known path file).outside? ident.name) := by
  obtain ⟨hunlinked, hbefore, hafter, hkept⟩ := h.linked hevents hident hapart
  rw [hkept]
  exact (hevents ▸ h.runs).links h.opens.scopes hident hblank hapart.numbered hunlinked hbefore hafter

theorem FileRun.packages {info known : Info} {sources : List PackageSource} {path : String} {file : File}
    (h : FileRun info sources path file known) : (info.check sources).packages = known.packages :=
  (h.grows.packages.trans h.runs.continues.grows.packages).trans h.opens.grows.packages

/-- A qualifier stands for the import of its name where no declaration of the name can be seen. -/
theorem FileRun.importedPath? {info known : Info} {sources : List PackageSource} {path : String}
    {file : File} (h : FileRun info sources path file known) {before after : List Event}
    {ident : Ident} {spec : ImportSpec} (decs : Decorations)
    (hevents : eventsOfFile file = before ++ .use ident :: after) (hblank : ident.isBlank = false)
    (hapart : Apart info sources ident) (hvisible : (scopesBehind before).find? ident.name = none)
    (hspec : (info.check sources).importSpec? file.imports ident.name = some spec) :
    (info.check sources).importedPath? ⟨.ident ident, decs⟩ = some spec.path := by
  rw [Info.importSpec?_of_packages h.packages] at hspec
  have henters := h.opens.enters ident.name
  rw [hspec] at henters
  obtain ⟨id, type, hid, hobject⟩ := henters
  obtain ⟨type', hobject'⟩ := (h.runs.continues.grows.trans h.grows).objects hobject
  have hlink : (info.check sources).objectId? ident = some id := by
    rw [h.links hevents rfl hblank hapart, Scopes.target?, hvisible, Option.map_none, Option.none_or,
      Resolver.outside?, hid, Option.some_or]
  simp [Info.importedPath?, Expr.ident?, Info.object?, hlink, hobject']

end TraceWeave.Types
