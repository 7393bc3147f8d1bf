import TraceWeave.Proofs.Source.Loading
import TraceWeave.Proofs.Syntax.RoundTrip

/-!
The files of an application.

A package of an application is the last one of its id, so a file is missing if a package that comes
behind the one of the file has the same id.  No other file is missing, and none is there twice.
-/

namespace TraceWeave.Source

open TraceWeave.Order TraceWeave.Program TraceWeave.Syntax TraceWeave.Types
open scoped List

/-- The package of another file, which comes later, has the id of this one's package. -/
def Replaces (other file : SourceFile) : Prop :=
  compare (packageKey file) (packageKey other) = .lt ∧ SharesId (packageKey file) (packageKey other)

/-- Of groups of files, those are kept that no later group replaces. -/
theorem mem_lastBy_groupFiles {module : String} {root : Path} {files : List SourceFile}
    (hbelow : ∀ file ∈ files, ∀ other ∈ files,
      compare (packageKey file) (packageKey other) = .lt →
        (packageKey file).IsBelow root ∧ (packageKey other).IsBelow root)
    (file : SourceFile) :
    file ∈ (lastBy (·.id) (makePackages module root (groupFiles files))).flatMap (·.files) ↔
      file ∈ files ∧ ∀ other ∈ files, ¬ Replaces other file := by
  have hgroups := groups_groupFiles files
  have hmem : ∀ file, file ∈ files ↔ ∃ group ∈ groupFiles files, file ∈ group.2 := fun file => by
    rw [← hgroups.perm.mem_iff, List.mem_flatMap]
  have hids : ∀ file ∈ files, ∀ other ∈ files, ∀ group later,
      compare (packageKey file) (packageKey other) = .lt →
        ((makePackage module root (packageKey file) group).id =
          (makePackage module root (packageKey other) later).id ↔ Replaces other file) := by
    intro file hfile other hother group later hlt
    obtain ⟨hbelow, hbelow'⟩ := hbelow file hfile other hother hlt
    exact ⟨fun heq => ⟨hlt, .of_id_eq hbelow hbelow' heq⟩, fun h => h.2.id_eq hbelow hbelow'⟩
  rw [List.mem_flatMap]
  constructor
  · rintro ⟨package, hpackage, hfile⟩
    obtain ⟨group, hgroup, rfl, hlast⟩ := (mem_lastBy_makePackages hgroups.sorted).1 hpackage
    rw [makePackage_files] at hfile
    have hfiles := (hmem file).2 ⟨group, hgroup, hfile⟩
    refine ⟨hfiles, fun other hother hreplaces => ?_⟩
    obtain ⟨later, hlater, hother'⟩ := (hmem other).1 hother
    have hkey := (hgroups.key group hgroup).2 file hfile
    have hkey' := (hgroups.key later hlater).2 other hother'
    refine hlast later hlater (hkey ▸ hkey' ▸ hreplaces.1) ?_
    rw [← hkey, ← hkey']
    exact (hids file hfiles other hother _ _ hreplaces.1).2 hreplaces
  · rintro ⟨hfiles, hlast⟩
    obtain ⟨group, hgroup, hfile⟩ := (hmem file).1 hfiles
    have hkey := (hgroups.key group hgroup).2 file hfile
    refine ⟨_, (mem_lastBy_makePackages hgroups.sorted).2 ⟨group, hgroup, rfl, ?_⟩,
      by rwa [makePackage_files]⟩
    intro later hlater hlt heq
    obtain ⟨hne, hkeys⟩ := hgroups.key later hlater
    obtain ⟨other, hother⟩ := List.exists_mem_of_ne_nil _ hne
    have hothers := (hmem other).2 ⟨later, hlater, hother⟩
    rw [← hkey, ← hkeys other hother] at hlt heq
    exact hlast other hothers ((hids file hfiles other hothers _ _ hlt).1 heq)

/-! ## Loading succeeds -/

/-- An application is loaded if all its files are read. -/
theorem exists_load {disk : Node} {options : Options} {paths : List Path}
    (hpaths : sourceFiles disk options.root = .ok paths)
    (hread : ∀ path ∈ paths, ∀ next, ∃ read, readSource disk path next = .ok read) :
    ∃ workspace, Workspace.load disk options = .ok workspace := by
  have hreads : ∀ next, ∃ read, paths.mapM (readSource disk) next = .ok read := by
    clear hpaths
    induction paths with
    | nil => exact fun next => ⟨([], next), rfl⟩
    | cons path paths ih =>
        intro next
        obtain ⟨first, hfirst⟩ := hread path (by simp) next
        obtain ⟨rest, hrest⟩ := ih (fun other hmem => hread other (by simp [hmem])) first.2
        refine ⟨(first.1 :: rest.1, rest.2), ?_⟩
        rw [List.mapM_cons]
        simp only [bind, StateT.bind, Except.bind, hfirst, hrest]
        rfl
  have hload : ∃ loaded, load disk options.root = .ok loaded := by
    unfold load
    generalize Info.known = known
    obtain ⟨known, next⟩ := known
    obtain ⟨read, hread⟩ := hreads next
    simp only [bind, Except.bind, pure, Except.pure, hpaths]
    rw [show (paths.mapM (readSource disk)).run next = .ok read from hread]
    exact ⟨_, rfl⟩
  obtain ⟨loaded, hload⟩ := hload
  unfold Workspace.load
  rw [hload]
  exact ⟨_, rfl⟩

/-- A file on the disk that holds the text of a plain tree is read. -/
theorem exists_readSource {disk : Node} {path : Path} {tree : File} (htree : tree.Plain)
    (h : disk.at? path = some (.file tree.print.toUTF8)) (next : Nat) :
    ∃ read, readSource disk path next = .ok read := by
  have htext : disk.textAt? path = some tree.print := by
    rw [Node.textAt?, h]
    exact dif_pos tree.print.isValidUTF8
  obtain ⟨concrete, hparse, -⟩ := htree.parse
  rw [readSource_eq, htext]
  dsimp only
  rw [File.read?, hparse]
  exact ⟨_, rfl⟩

/-! ## The files of an application -/

/--
An application has exactly the collected files that no other file replaces, each of them once.
One file replaces another if the package of its own comes later and has the same id; so nothing is
lost where packages of one folder and kind have one clause, and no folder is named like tests.
-/
theorem Workspace.load_keepsFiles {disk : Node} {options : Options} {workspace : Workspace}
    (hdisk : disk.Proper) (hload : Workspace.load disk options = .ok workspace) :
    ∃ files : List SourceFile, sourceFiles disk options.root = .ok (files.map (·.path)) ∧
      (workspace.files.map (·.path)).Nodup ∧
        ∀ file, file ∈ workspace.files ↔
          file ∈ files ∧ ∀ other ∈ files, ¬ Replaces other file := by
  simp only [Workspace.load, bind, Except.bind, pure, Except.pure] at hload
  split at hload
  · contradiction
  · next loaded hloaded =>
    obtain ⟨files, hpaths, hpackages, -⟩ := load_files hloaded
    have hperm : workspace.files ~
        (lastBy (·.id) (makePackages loaded.module options.root (groupFiles files))).flatMap (·.files) := by
      rw [← Except.ok.inj hload, ← hpackages]
      exact (values_ofPackages_perm ..).flatMap_right _
    refine ⟨files, hpaths, ?_, fun file => ?_⟩
    · have hsub := (lastBy_sublist (·.id) (makePackages loaded.module options.root
        (groupFiles files))).flatMap (·.files)
      rw [makePackages_files] at hsub
      have hnodup := ((groups_groupFiles files).perm.map (·.path)).nodup_iff.2 (nodup_sourceFiles hpaths)
      exact (hperm.map _).nodup_iff.2 (hnodup.sublist (hsub.map _))
    · rw [hperm.mem_iff]
      refine mem_lastBy_groupFiles (fun file hfile other hother hlt => ?_) file
      obtain hroot | hbelow := sourceFiles_below hdisk hpaths
      · -- there is one file at most
        rw [List.forall_mem_map] at hroot
        have hsame := List.inj_on_of_nodup_map (nodup_sourceFiles hpaths) hfile hother
          ((hroot file hfile).trans (hroot other hother).symm)
        simp [hsame] at hlt
      · rw [List.forall_mem_map] at hbelow
        exact ⟨hbelow file hfile, hbelow other hother⟩

/-- In a folder that has no folders in it, the entries are all that is found. -/
theorem mem_sourcesOfEntries_files {levels : List IgnoreLevel} {parts place : List String}
    {entries : List Entry} (h : ∀ entry ∈ entries, entry.node.isFolder = false)
    (hmem : place ∈ sourcesOfEntries levels parts entries) :
    ∃ entry ∈ entries, place = parts ++ [entry.name] := by
  induction entries with
  | nil => simp [sourcesOfEntries] at hmem
  | cons entry entries ih =>
      obtain ⟨name, node⟩ := entry
      rw [sourcesOfEntries, List.mem_append] at hmem
      obtain hmem | hmem := hmem
      · refine ⟨⟨name, node⟩, by simp, ?_⟩
        cases node with
        | folder => simpa [Node.isFolder] using h _ List.mem_cons_self
        | file contents =>
            rw [sourcesBelow] at hmem
            grind
      · obtain ⟨other, hother, rfl⟩ := ih (fun other hother => h other (by simp [hother])) hmem
        exact ⟨other, by simp [hother], rfl⟩

/-- A file that has a package clause and nothing else. -/
def clauseFile (package : String) : File := { package, packageDecs := {}, decls := [], trailing := [] }

/-- A folder with the file of a program, and one that lists tools in a package of its own. -/
def toolsDisk : Node :=
  .folder [⟨"main.go", .file (clauseFile "main").print.toUTF8⟩,
    ⟨"tools.go", .file (clauseFile "tools").print.toUTF8⟩]

theorem proper_toolsDisk : toolsDisk.Proper := by
  rw [toolsDisk, Node.Proper]
  simp only [ProperEntries, Node.Proper]
  exact ⟨⟨by decide, by decide, by decide⟩, trivial, ⟨by decide, by decide, by decide⟩, trivial, trivial⟩

theorem exists_load_toolsDisk : ∃ workspace, Workspace.load toolsDisk { root := .here } = .ok workspace := by
  have hplain : ∀ package ∈ ["main", "tools"], (clauseFile package).Plain := by
    intro package hmem
    refine ⟨?_, rfl, by simp [clauseFile], rfl⟩
    revert package
    decide +kernel
  refine exists_load rfl fun path hmem next => ?_
  rw [mem_sortedDistinct, List.mem_map] at hmem
  obtain ⟨parts, hparts, rfl⟩ := hmem
  obtain ⟨entry, hentry, rfl⟩ := mem_sourcesOfEntries_files (fun entry hmem => by
    obtain rfl | rfl : entry = _ ∨ entry = _ := by simpa using hmem
    · rfl
    · rfl) hparts
  obtain rfl | rfl : entry = _ ∨ entry = _ := by simpa using hentry
  · exact exists_readSource (hplain "main" (by simp)) rfl next
  · exact exists_readSource (hplain "tools" (by simp)) rfl next

theorem load_keepsFiles_toolsDisk :
    toolsDisk.Proper ∧ ∃ workspace, Workspace.load toolsDisk { root := .here } = .ok workspace ∧
      ∃ files : List SourceFile, sourceFiles toolsDisk .here = .ok (files.map (·.path)) ∧
        (workspace.files.map (·.path)).Nodup ∧
          ∀ file, file ∈ workspace.files ↔ file ∈ files ∧ ∀ other ∈ files, ¬ Replaces other file := by
  obtain ⟨workspace, hload⟩ := exists_load_toolsDisk
  exact ⟨proper_toolsDisk, workspace, hload, Workspace.load_keepsFiles proper_toolsDisk hload⟩

end TraceWeave.Source
