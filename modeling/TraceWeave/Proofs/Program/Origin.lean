import TraceWeave.Instrument
import TraceWeave.Proofs.Program.Outline
import TraceWeave.Proofs.Source.Loading

/-!
Applications as loading and discovery make them.

An `Origin` is what loading hands to discovery: groups of files, and whatever name
resolution found out about them.  The application that comes of it is coherent: its
tables agree with the names in them, and no two functions share a place.
-/

namespace TraceWeave.Program

open TraceWeave.Order TraceWeave.Syntax

/-! ## Tables of functions -/

/-- The functions of the table stand at their places. -/
structure Package.Indexed (package : Package) : Prop where
  sorted : package.funcs.IsSorted
  found : ∀ key entry, package.funcs.get? key = some entry →
    ∃ func, package.declAt? entry.file entry.decl = some func ∧ func.key = key

theorem Package.Indexed.register {package : Package} (h : package.Indexed) (file decl : Nat) :
    (package.register file decl).Indexed := by
  unfold Package.register
  split
  · exact h
  · next func hfunc =>
    split
    · exact h
    · refine ⟨Table.isSorted_insert h.sorted _ _, fun key entry hget => ?_⟩
      rw [Table.get?_insert] at hget
      split at hget
      · next hkey =>
        obtain rfl := Option.some.inj hget
        exact ⟨func, hfunc, hkey.symm⟩
      · exact h.found key entry hget

theorem Package.indexed_registerAll {package : Package} (h : package.Indexed) :
    package.registerAll.Indexed := by
  unfold Package.registerAll
  generalize package.declPlaces = places
  induction places generalizing package with
  | nil => exact h
  | cons place places ih => exact ih (h.register place.1 place.2)

/-- Registering changes the table of functions alone. -/
theorem Package.registerAll_eq (package : Package) :
    ∃ funcs, package.registerAll = { package with funcs } := by
  have hregister : ∀ (package : Package) (place : Nat × Nat), ∃ funcs,
      package.register place.1 place.2 = { package with funcs } := by
    intro package place
    unfold Package.register
    split
    · exact ⟨package.funcs, rfl⟩
    · split
      · exact ⟨package.funcs, rfl⟩
      · exact ⟨_, rfl⟩
  unfold Package.registerAll
  generalize package.declPlaces = places
  induction places generalizing package with
  | nil => exact ⟨package.funcs, rfl⟩
  | cons place places ih =>
      obtain ⟨funcs, hfuncs⟩ := hregister package place
      obtain ⟨funcs', hfuncs'⟩ := ih (package.register place.1 place.2)
      exact ⟨funcs', by rw [List.foldl_cons, hfuncs', hfuncs]⟩

/-! ## Tables of packages -/

theorem Application.coherent_of_indexed {app : Application} (hsorted : app.packages.IsSorted)
    (hids : ∀ entry ∈ app.packages.entries, entry.2.id = entry.1)
    (hindexed : ∀ entry ∈ app.packages.entries, entry.2.Indexed) : app.Coherent where
  ids := hids
  keys := Table.nodup_keys hsorted
  funcKeys entry hmem := Table.nodup_keys (hindexed entry hmem).sorted
  placesDiffer := by
    -- a place tells the package, and the function there tells the key
    have hkey : ∀ ref place, app.place? ref = some place →
        place.package = ref.package ∧ (app.funcAt? place).map (·.key) = some ref.key := by
      intro ref place hplace
      unfold Application.place? Application.entry? at hplace
      unfold Application.funcAt?
      cases hpackage : app.package? ref.package with
      | none => simp [hpackage] at hplace
      | some package =>
          simp only [hpackage, Option.bind_some, Option.map_eq_some_iff] at hplace
          obtain ⟨entry, hget, rfl⟩ := hplace
          have hmem := Table.mem_of_get? hpackage
          obtain ⟨func, hfunc, hkey⟩ := (hindexed _ hmem).found ref.key entry hget
          simp [hpackage, hfunc, hkey]
    intro ref ref' place hplace hplace'
    obtain ⟨hpackage, hfunc⟩ := hkey ref place hplace
    obtain ⟨hpackage', hfunc'⟩ := hkey ref' place hplace'
    obtain ⟨id, key⟩ := ref
    obtain ⟨id', key'⟩ := ref'
    simp_all

end TraceWeave.Program

namespace TraceWeave.Source

open TraceWeave.Order TraceWeave.Program TraceWeave.Syntax TraceWeave.Types

/-- What an application is made of: groups of files and the names in them. -/
structure Origin where
  module : String
  root : Path
  groups : List (PackageKey × List SourceFile)
  types : Info
  agent : String
  appName : String

namespace Origin

variable (origin : Origin)

/-- The application before discovery. -/
def loaded : Application :=
  .ofPackages (makePackages origin.module origin.root origin.groups) origin.types origin.agent
    origin.appName

/-- The application behind discovery. -/
def app : Application := (discover origin.loaded).1

theorem app_packages : origin.app.packages = origin.loaded.packages.map Package.registerAll := rfl

theorem app_extended : origin.app.extended = [] := rfl

theorem app_entered : origin.app.entered = [] := rfl

theorem indexed_makePackage (module : String) (root : Path) (key : PackageKey)
    (files : List SourceFile) : (makePackage module root key files).Indexed := by
  have hempty : (makePackage module root key files).funcs = {} := by
    unfold makePackage
    dsimp only
    split
    · rfl
    · split <;> rfl
  exact ⟨by rw [hempty]; exact .nil, fun key entry hget => by rw [hempty] at hget; contradiction⟩

/-- The entries of the table of packages come from the groups of files. -/
theorem mem_loaded {entry : String × Package} (hmem : entry ∈ origin.loaded.packages.entries) :
    entry.2.id = entry.1 ∧ ∃ key files, entry.2 = makePackage origin.module origin.root key files := by
  have hfold : ∀ (entries : List (String × Package)) (table : Table String Package),
      entry ∈ (entries.foldl (fun table entry => table.insert entry.1 entry.2) table).entries →
        entry ∈ table.entries ∨ entry ∈ entries := by
    intro entries
    induction entries with
    | nil => exact fun table h => .inl h
    | cons first entries ih =>
        intro table h
        obtain h | h := ih _ h
        · obtain rfl | h := Table.mem_insertEntry h
          · exact .inr (by simp)
          · exact .inl h
        · exact .inr (by simp [h])
  obtain h | h := hfold _ _ hmem
  · contradiction
  · simp only [makePackages, List.map_map, List.mem_map, Function.comp_apply] at h
    obtain ⟨group, -, rfl⟩ := h
    exact ⟨rfl, group.1, group.2, rfl⟩

theorem coherent_app : origin.app.Coherent := by
  have hentries : ∀ entry ∈ origin.app.packages.entries,
      ∃ loaded ∈ origin.loaded.packages.entries, entry = (loaded.1, loaded.2.registerAll) := by
    intro entry hmem
    rw [app_packages] at hmem
    obtain ⟨loaded, hloaded, rfl⟩ := List.mem_map.1 hmem
    exact ⟨loaded, hloaded, rfl⟩
  refine Application.coherent_of_indexed ?_ ?_ ?_
  · have hsorted : origin.loaded.packages.IsSorted := Table.isSorted_ofList _
    exact List.pairwise_map.2 hsorted
  · intro entry hmem
    obtain ⟨loaded, hloaded, rfl⟩ := hentries entry hmem
    obtain ⟨funcs, hfuncs⟩ := loaded.2.registerAll_eq
    rw [hfuncs]
    exact (origin.mem_loaded hloaded).1
  · intro entry hmem
    obtain ⟨loaded, hloaded, rfl⟩ := hentries entry hmem
    obtain ⟨-, key, files, hmade⟩ := origin.mem_loaded hloaded
    rw [hmade]
    exact Package.indexed_registerAll (indexed_makePackage ..)

end Origin

/-- Loading hands an origin to discovery. -/
theorem Workspace.exists_origin {disk : Node} {options : Options} {workspace : Workspace}
    (h : Workspace.load disk options = .ok workspace) :
    ∃ origin : Origin, workspace.app = origin.loaded := by
  simp only [Workspace.load, bind, Except.bind, pure, Except.pure] at h
  split at h
  · contradiction
  · next loaded hloaded =>
    obtain ⟨files, -, hpackages, -⟩ := load_files hloaded
    refine ⟨⟨loaded.module, options.root, groupFiles files, loaded.types, options.agent,
      options.appName⟩, ?_⟩
    rw [← Except.ok.inj h, Origin.loaded, ← hpackages]

end TraceWeave.Source
