import Mathlib.Data.List.Flatten
import Mathlib.Data.List.Nodup
import TraceWeave.Proofs.Source.Grouping
import TraceWeave.Source.Workspace

/-!
What loading keeps.

Every collected file gets into one package (`load_files`).  The id of a package has its folder and
its kind in it, but no clause, so packages of one folder may share an id; so may a package and the
tests of another one, if the folder of the first is named like those tests (`SharesId`).
-/

namespace TraceWeave.Source

open TraceWeave.Order TraceWeave.Program TraceWeave.Types
open scoped List

/-! ## Import paths -/

/-- The folder that is reached from another one by the names of folders. -/
def Path.below (root : Path) (names : List String) : Path :=
  { root with parts := root.parts ++ names }

structure IsFolderName (name : String) : Prop where
  nonempty : name ≠ ""
  notHere : name ≠ "."
  noSlash : '/' ∉ name.toList

/-- Texts, with a slash in front of each. -/
def slashed (texts : List (List Char)) : List Char := texts.flatMap ('/' :: ·)

theorem slashed_append_concat (init : List (List Char)) (last suffix : List Char) :
    slashed (init ++ [last]) ++ suffix = slashed (init ++ [last ++ suffix]) := by
  simp [slashed]

/-- What stands between the slashes can be read off. -/
theorem slashed_inj {texts texts' : List (List Char)} (h : ∀ text ∈ texts, '/' ∉ text)
    (h' : ∀ text ∈ texts', '/' ∉ text) (heq : slashed texts = slashed texts') : texts = texts' := by
  have htake : ∀ (text : List Char) (texts : List (List Char)), '/' ∉ text →
      (text ++ slashed texts).takeWhile (· != '/') = text := by
    intro text texts hslash
    have hstop : (slashed texts).takeWhile (· != '/') = [] := by cases texts <;> simp [slashed]
    rw [List.takeWhile_append_of_pos, hstop, List.append_nil]
    intro char hmem
    have hne : char ≠ '/' := fun heq => hslash (heq ▸ hmem)
    simpa using hne
  induction texts generalizing texts' with
  | nil =>
      cases texts' with
      | nil => rfl
      | cons text' texts' => simp [slashed] at heq
  | cons text texts ih =>
      cases texts' with
      | nil => simp [slashed] at heq
      | cons text' texts' =>
          have hrest : text ++ slashed texts = text' ++ slashed texts' := by
            simpa [slashed] using heq
          have htext : text = text' := by
            rw [← htake text texts (h text (by simp)), hrest, htake text' texts' (h' text' (by simp))]
          subst htext
          rw [ih (fun other hmem => h other (by simp [hmem]))
            (fun other hmem => h' other (by simp [hmem])) (List.append_cancel_left hrest)]

theorem Path.stepsBetween_append (base names : List String) :
    Path.stepsBetween (base ++ names) base true = some names := by
  induction base with
  | nil => cases names <;> rfl
  | cons first base ih => simpa [Path.stepsBetween] using ih

theorem toList_text (names : List String) (name : String) :
    '/' :: (Path.text { parts := name :: names }).toList =
      slashed ((name :: names).map String.toList) := by
  have hintercalate : ∀ texts : List (List Char), ∀ text,
      '/' :: ['/'].intercalate (text :: texts) = slashed (text :: texts) := by
    intro texts
    induction texts with
    | nil => simp [slashed]
    | cons next texts ih =>
        intro text
        have hnext := ih next
        simp only [slashed, List.flatMap_cons] at hnext ⊢
        rw [← hnext]
        simp [List.intercalate]
  simpa [Path.text, String.toList_intercalate] using hintercalate (names.map String.toList) name.toList

theorem importPath_below (module : String) (root : Path) {names : List String}
    (h : ∀ name ∈ names, IsFolderName name) :
    (importPath module root (root.below names)).toList =
      module.toList ++ slashed (names.map String.toList) := by
  have hsteps : (root.below names).relativeTo? root = some { parts := names } := by
    simp [Path.relativeTo?, Path.below, Path.stepsBetween_append]
  unfold importPath
  simp only [hsteps, Option.map_some, Option.getD_some]
  cases names with
  | nil => simp [Path.text, slashed]
  | cons name names =>
      have htext := toList_text names name
      have hname := h name (by simp)
      have hchars : name.toList ≠ [] := by simpa using hname.nonempty
      have hempty : (Path.text { parts := name :: names }) ≠ "" := by
        intro hnone
        simp [hnone, slashed, hname.nonempty] at htext
      have hhere : (Path.text { parts := name :: names }) ≠ "." := by
        intro hdot
        simp only [hdot, slashed, List.map_cons, List.flatMap_cons, List.cons_append, List.cons.injEq,
          true_and] at htext
        obtain ⟨char, chars, hcons⟩ := List.exists_cons_of_ne_nil hchars
        rw [hcons] at htext
        obtain ⟨rfl, hrest, -⟩ : '.' = char ∧ chars = [] ∧ ∀ name, name ∉ names := by
          simpa using htext
        exact hname.notHere (String.toList_inj.1 (by rw [hcons, hrest]; rfl))
      simpa [hempty, hhere] using htext

/-! ## Ids -/

/-- Two keys whose packages share an id. -/
inductive SharesId : PackageKey → PackageKey → Prop
  | clauses {key other : PackageKey} :
      key.dir = other.dir → key.kind = other.kind → SharesId key other
  | named {key other : PackageKey} (folder : Path) (name : String) :
      key.kind = .plain → key.dir = folder.child (name ++ other.kind.suffix) →
        other.dir = folder.child name → SharesId key other
  | symm {key other : PackageKey} : SharesId key other → SharesId other key

/-- The folder of a key is below the root. -/
def PackageKey.IsBelow (root : Path) (key : PackageKey) : Prop :=
  ∃ names, key.dir = root.below names ∧ ∀ name ∈ names, IsFolderName name

@[simp]
theorem PackageKind.suffix_plain : PackageKind.suffix .plain = "" := rfl

theorem PackageKind.noSlash_suffix (kind : PackageKind) : '/' ∉ kind.suffix.toList := by
  cases kind <;> decide

theorem PackageKind.suffix_inj {kind other : PackageKind} (h : kind.suffix = other.suffix) :
    kind = other := by
  cases kind <;> cases other <;> first | rfl | exact absurd h (by decide)

/-- Names with a suffix each are the same, and so are the kinds, unless one of them is plain. -/
theorem PackageKind.append_suffix_inj {name name' : String} {kind other : PackageKind}
    (h : name ++ kind.suffix = name' ++ other.suffix) :
    kind = other ∧ name = name' ∨ kind = .plain ∧ name = name' ++ other.suffix ∨
      other = .plain ∧ name' = name ++ kind.suffix := by
  by_cases hkind : kind = other
  · subst hkind
    exact .inl ⟨rfl, (String.append_left_inj _).1 h⟩
  by_cases hplain : kind = .plain
  · subst hplain
    exact .inr (.inl ⟨rfl, by simpa [suffix] using h⟩)
  by_cases hplain' : other = .plain
  · subst hplain'
    exact .inr (.inr ⟨rfl, by simpa [suffix] using h.symm⟩)
  -- the suffixes of the two kinds of tests end in different characters
  have hlast := congrArg (fun text => text.toList.getLast?) h
  cases kind <;> cases other <;> simp [suffix, List.getLast?_append] at hkind hplain hplain' hlast

theorem toList_makePackage_id (module : String) (root : Path) (key : PackageKey) {names : List String}
    (files : List SourceFile) (hdir : key.dir = root.below names)
    (hnames : ∀ name ∈ names, IsFolderName name) :
    (makePackage module root key files).id.toList =
      module.toList ++ (slashed (names.map String.toList) ++ key.kind.suffix.toList) := by
  rw [makePackage_id, String.toList_append, hdir, importPath_below module root hnames,
    List.append_assoc]

theorem SharesId.of_id_eq {module : String} {root : Path} {key other : PackageKey}
    {files files' : List SourceFile} (hkey : key.IsBelow root) (hother : other.IsBelow root)
    (heq : (makePackage module root key files).id = (makePackage module root other files').id) :
    SharesId key other := by
  obtain ⟨names, hdir, hnames⟩ := hkey
  obtain ⟨names', hdir', hnames'⟩ := hother
  have htail : slashed (names.map String.toList) ++ key.kind.suffix.toList =
      slashed (names'.map String.toList) ++ other.kind.suffix.toList := by
    rw [← String.toList_inj, toList_makePackage_id module root key files hdir hnames,
      toList_makePackage_id module root other files' hdir' hnames'] at heq
    exact List.append_cancel_left heq
  have hslash : ∀ (kind : PackageKind) (name : String) (names : List String) (chars : List Char),
      kind.suffix.toList ≠ slashed ((names ++ [name]).map String.toList) ++ chars := by
    intro kind name names chars heq
    refine kind.noSlash_suffix (heq ▸ ?_)
    simp [slashed]
  obtain rfl | ⟨init, last, rfl⟩ := names.eq_nil_or_concat'
  · obtain rfl | ⟨init', last', rfl⟩ := names'.eq_nil_or_concat'
    · have hkind : key.kind = other.kind :=
        PackageKind.suffix_inj (String.toList_inj.1 (by simpa [slashed] using htail))
      exact .clauses (hdir.trans hdir'.symm) hkind
    · exact absurd (by simpa [slashed] using htail) (hslash key.kind last' init' other.kind.suffix.toList)
  · obtain rfl | ⟨init', last', rfl⟩ := names'.eq_nil_or_concat'
    · exact absurd (by simpa [slashed] using htail.symm)
        (hslash other.kind last init key.kind.suffix.toList)
    · have hnoSlash : ∀ {names : List String} {last : String} (kind : PackageKind),
          (∀ name ∈ names ++ [last], IsFolderName name) →
            ∀ text ∈ names.map String.toList ++ [last.toList ++ kind.suffix.toList], '/' ∉ text := by
        intro names last kind hnames text hmem
        obtain hmem | hmem := List.mem_append.1 hmem
        · obtain ⟨name, hname, rfl⟩ := List.mem_map.1 hmem
          exact (hnames name (by simp [hname])).noSlash
        · rw [List.mem_singleton.1 hmem, List.mem_append, not_or]
          exact ⟨(hnames last (by simp)).noSlash, kind.noSlash_suffix⟩
      rw [List.map_append, List.map_append, List.map_singleton, List.map_singleton,
        slashed_append_concat, slashed_append_concat] at htail
      obtain ⟨hinit, hlast⟩ := List.append_inj'
        (slashed_inj (hnoSlash key.kind hnames) (hnoSlash other.kind hnames') htail) rfl
      obtain rfl : init = init' := List.map_injective_iff.2 (fun _ _ => String.toList_inj.1) hinit
      have hlast : last ++ key.kind.suffix = last' ++ other.kind.suffix := by
        rw [← String.toList_inj, String.toList_append, String.toList_append]
        exact List.singleton_inj.1 hlast
      have hchild : ∀ last, root.below (init ++ [last]) = (root.below init).child last := fun last => by
        simp [Path.below, Path.child]
      rw [hchild] at hdir hdir'
      obtain ⟨hkind, rfl⟩ | ⟨hkind, rfl⟩ | ⟨hkind, rfl⟩ := PackageKind.append_suffix_inj hlast
      · exact .clauses (hdir.trans hdir'.symm) hkind
      · exact .named (root.below init) last' hkind hdir hdir'
      · exact .symm (.named (root.below init) last hkind hdir' hdir)

theorem SharesId.id_eq {module : String} {root : Path} {key other : PackageKey}
    {files files' : List SourceFile} (h : SharesId key other) (hkey : key.IsBelow root)
    (hother : other.IsBelow root) :
    (makePackage module root key files).id = (makePackage module root other files').id := by
  induction h generalizing files files' with
  | clauses hdir hkind => rw [makePackage_id, makePackage_id, hdir, hkind]
  | @named key other folder name hkind hdir hdir' =>
      obtain ⟨names, hbelow, hnames⟩ := hkey
      obtain ⟨names', hbelow', hnames'⟩ := hother
      have hparts : root.parts ++ names = folder.parts ++ [name ++ other.kind.suffix] := by
        simpa [Path.below, Path.child] using congrArg Path.parts (hbelow.symm.trans hdir)
      have hparts' : root.parts ++ names' = folder.parts ++ [name] := by
        simpa [Path.below, Path.child] using congrArg Path.parts (hbelow'.symm.trans hdir')
      rw [← String.toList_inj, toList_makePackage_id module root key files hbelow hnames,
        toList_makePackage_id module root other files' hbelow' hnames', hkind]
      congr 1
      obtain rfl | ⟨init, last, rfl⟩ := names'.eq_nil_or_concat'
      · -- the other folder is the root, so the suffix is empty
        rw [List.append_nil] at hparts'
        rw [hparts', List.append_assoc, List.append_cancel_left_eq, List.singleton_append,
          List.cons.injEq] at hparts
        obtain ⟨hname, rfl⟩ := hparts
        have hsuffix : other.kind.suffix = "" := by
          simpa using congrArg (·.toList) hname
        rw [hsuffix, PackageKind.suffix_plain]
      · rw [← List.append_assoc] at hparts'
        obtain ⟨hfolder, hlast⟩ := List.append_inj' hparts' rfl
        obtain rfl := List.singleton_inj.1 hlast
        rw [← hfolder, List.append_assoc, List.append_cancel_left_eq] at hparts
        simp [hparts, slashed]
  | symm _ ih => exact (ih hother hkey).symm

/-! ## Collected files -/

mutual

/-- All names below a node are names of folders or files. -/
def Node.Proper : Node → Prop
  | .file _ => True
  | .folder entries => ProperEntries entries

def ProperEntries : List Entry → Prop
  | [] => True
  | ⟨name, node⟩ :: entries => IsFolderName name ∧ node.Proper ∧ ProperEntries entries

end

theorem Node.Proper.child? {node child : Node} {name : String} (h : node.Proper)
    (hchild : node.child? name = some child) : child.Proper := by
  cases node with
  | file => simp [Node.child?, Node.entries] at hchild
  | folder entries =>
      rw [Node.Proper] at h
      simp only [Node.child?, Node.entries] at hchild
      induction entries with
      | nil => simp at hchild
      | cons entry entries ih =>
          obtain ⟨name', node'⟩ := entry
          rw [ProperEntries] at h
          rw [List.find?_cons] at hchild
          split at hchild
          · obtain rfl : node' = child := by simpa using hchild
            exact h.2.1
          · exact ih h.2.2 hchild

theorem Node.Proper.find? {node target : Node} {names : List String} (h : node.Proper)
    (hfind : node.find? names = some target) : target.Proper := by
  induction names generalizing node with
  | nil => exact Option.some.inj hfind ▸ h
  | cons name names ih =>
      rw [Node.find?, Option.bind_eq_some_iff] at hfind
      obtain ⟨child, hchild, hfind⟩ := hfind
      exact ih (h.child? hchild) hfind

/-- A list of names leads from a folder to another place. -/
def LeadsFrom (parts place : List String) : Prop :=
  ∃ names, place = parts ++ names ∧ ∀ name ∈ names, IsFolderName name

mutual

theorem leadsFrom_sourcesBelow {levels : List IgnoreLevel} {parts place : List String} :
    ∀ {node : Node}, node.Proper → place ∈ sourcesBelow levels parts node → LeadsFrom parts place
  | .file _, _, hmem => by
      rw [sourcesBelow] at hmem
      split at hmem
      · exact ⟨[], by simpa using hmem, by simp⟩
      · contradiction
  | .folder entries, h, hmem => by
      rw [sourcesBelow] at hmem
      rw [Node.Proper] at h
      obtain ⟨names, -, hplace, hnames⟩ := leadsFrom_sourcesOfEntries h hmem
      exact ⟨names, hplace, hnames⟩

theorem leadsFrom_sourcesOfEntries {levels : List IgnoreLevel} {parts place : List String} :
    ∀ {entries : List Entry}, ProperEntries entries →
      place ∈ sourcesOfEntries levels parts entries →
        ∃ names ≠ [], place = parts ++ names ∧ ∀ name ∈ names, IsFolderName name
  | [], _, hmem => by simp [sourcesOfEntries] at hmem
  | ⟨name, node⟩ :: entries, h, hmem => by
      rw [ProperEntries] at h
      obtain ⟨hname, hnode, hentries⟩ := h
      rw [sourcesOfEntries, List.mem_append] at hmem
      obtain hmem | hmem := hmem
      · split at hmem
        · contradiction
        · obtain ⟨names, rfl, hnames⟩ := leadsFrom_sourcesBelow hnode hmem
          exact ⟨name :: names, by simp, by simp, by simpa using ⟨hname, hnames⟩⟩
      · exact leadsFrom_sourcesOfEntries hentries hmem

end

/-- What is collected is the root itself, or lies in folders below it. -/
theorem sourceFiles_below {disk : Node} {root : Path} {paths : List Path} (h : disk.Proper)
    (hpaths : sourceFiles disk root = .ok paths) :
    (∀ path ∈ paths, path = root) ∨ ∀ path ∈ paths, ∃ names, path.parent = root.below names ∧
      ∀ name ∈ names, IsFolderName name := by
  unfold sourceFiles at hpaths
  split at hpaths
  · contradiction
  · next node hnode =>
    rw [← Except.ok.inj hpaths]
    simp only [mem_sortedDistinct, List.forall_mem_map]
    cases node with
    | file contents =>
        refine .inl fun place hmem => ?_
        rw [sourcesBelow] at hmem
        split at hmem
        · rw [List.mem_singleton.1 hmem]
        · contradiction
    | folder entries =>
        refine .inr fun place hmem => ?_
        have hentries := h.find? hnode
        rw [Node.Proper] at hentries
        rw [sourcesBelow] at hmem
        obtain ⟨names, hne, rfl, hnames⟩ := leadsFrom_sourcesOfEntries hentries hmem
        refine ⟨names.dropLast, ?_, fun name hname => hnames name (List.dropLast_subset names hname)⟩
        simp [Path.parent, Path.below, List.dropLast_append_of_ne_nil hne]

theorem nodup_sourceFiles {disk : Node} {root : Path} {paths : List Path}
    (hpaths : sourceFiles disk root = .ok paths) : paths.Nodup := by
  unfold sourceFiles at hpaths
  split at hpaths
  · contradiction
  · rw [← Except.ok.inj hpaths]
    refine (pairwise_sortedDistinct _).imp fun {path path'} hlt heq => ?_
    simp [heq] at hlt

theorem readSource_eq (disk : Node) (path : Path) (next : Nat) :
    readSource disk path next =
      match disk.textAt? path with
      | none => .error (.read path.text "stream did not contain valid UTF-8")
      | some contents =>
          match (Syntax.File.read? contents).run next with
          | none => .error (.parse path.text none)
          | some (tree, next') =>
              .ok ({ path, contents, baseline := tree.print, tree, generated := isGenerated contents },
                next') := by
  unfold readSource
  cases disk.textAt? path with
  | none => rfl
  | some contents =>
      simp only [bind, StateT.bind, Except.bind, get, getThe, MonadStateOf.get, StateT.get, pure,
        Except.pure]
      cases (Syntax.File.read? contents).run next <;> rfl

theorem path_readSource {disk : Node} {path : Path} {next : Nat} {read : SourceFile × Nat}
    (h : readSource disk path next = .ok read) : read.1.path = path := by
  rw [readSource_eq] at h
  split at h
  · contradiction
  · split at h
    · contradiction
    · rw [← Except.ok.inj h]

theorem paths_mapM_readSource {disk : Node} {paths : List Path} {next : Nat}
    {read : List SourceFile × Nat} (h : paths.mapM (readSource disk) next = .ok read) :
    read.1.map (·.path) = paths := by
  induction paths generalizing read next with
  | nil => rw [← Except.ok.inj h]; rfl
  | cons path paths ih =>
      rw [List.mapM_cons] at h
      simp only [bind, StateT.bind, Except.bind] at h
      split at h
      · contradiction
      · next first hfirst =>
        split at h
        · contradiction
        · next rest hrest =>
          rw [← Except.ok.inj h, ← ih hrest, ← path_readSource hfirst]
          rfl

/-- Loading reads the collected files, makes packages of them, and resolves the names in these. -/
theorem load_files {disk : Node} {root : Path} {loaded : Loaded} (h : load disk root = .ok loaded) :
    ∃ files, sourceFiles disk root = .ok (files.map (·.path)) ∧
      loaded.packages = makePackages loaded.module root (groupFiles files) ∧
      loaded.types = Info.known.1.check (packageSources loaded.packages) := by
  unfold load at h
  -- the names that are known beforehand are many
  generalize Info.known = known at h
  obtain ⟨known, next⟩ := known
  simp only [bind, Except.bind, pure, Except.pure] at h
  split at h
  · contradiction
  · next paths hpaths =>
    split at h
    · contradiction
    · next read hread =>
      rw [← Except.ok.inj h]
      exact ⟨read.1, by rw [hpaths, paths_mapM_readSource hread], rfl, rfl⟩

end TraceWeave.Source
