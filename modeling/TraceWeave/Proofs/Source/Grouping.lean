import Mathlib.Data.List.Basic
import Mathlib.Data.List.Pairwise
import TraceWeave.Source.Load

/-!
Files in groups, and packages by their ids.

Every file gets into the group of its key, and into that one only (`groupFiles_perm`).  A table
that is filled with packages holds the last one of each id, and as many as there are ids.
-/

namespace TraceWeave.Order

/-! ## The last ones -/

section

variable {α β : Type} [DecidableEq β] (f : α → β)

/-- The elements that no later one has the value of. -/
def lastBy (l : List α) : List α := l.pwFilter fun a b => f a ≠ f b

theorem lastBy_cons (a : α) (l : List α) :
    lastBy f (a :: l) = if ∀ b ∈ l, f a ≠ f b then a :: lastBy f l else lastBy f l := by
  have hlast := List.forall_mem_pwFilter (R := fun a b => f a ≠ f b)
    (fun {x y z} hne => by by_cases h : f x = f y <;> simp_all) a l
  by_cases h : ∀ b ∈ l, f a ≠ f b
  · rw [if_pos h, lastBy, List.pwFilter_cons_of_pos (hlast.2 h)]
    rfl
  · rw [if_neg h, lastBy, List.pwFilter_cons_of_neg fun h' => h (hlast.1 h')]
    rfl

theorem mem_lastBy_cons {a b : α} {l : List α} :
    b ∈ lastBy f (a :: l) ↔ b = a ∧ (∀ c ∈ l, f a ≠ f c) ∨ b ∈ lastBy f l := by
  rw [lastBy_cons]
  by_cases h : ∀ c ∈ l, f a ≠ f c
  · rw [if_pos h, List.mem_cons, and_iff_left h]
  · rw [if_neg h, or_iff_right fun h' => h h'.2]

theorem lastBy_sublist (l : List α) : (lastBy f l).Sublist l := List.pwFilter_sublist l

end

namespace Table

open scoped List

variable {κ α : Type} [DecidableEq κ] [Ord κ] [Std.LawfulEqOrd κ]

theorem lookup_eq_none {entries : List (κ × α)} {key : κ}
    (h : ∀ entry ∈ entries, compare key entry.1 = .lt) : entries.lookup key = none := by
  refine List.lookup_eq_none_iff.2 fun entry hmem => ?_
  have hne : key ≠ entry.1 := by
    intro heq
    have hlt := h entry hmem
    simp [← heq] at hlt
  simpa using hne

/-- An element that is added to its group is one more among those of all groups. -/
theorem flatMap_insertEntry_perm [Std.TransOrd κ] {groups : List (κ × List α)} {key : κ} (a : α)
    (h : groups.Pairwise fun entry entry' => compare entry.1 entry'.1 = .lt) :
    (insertEntry key ((groups.lookup key).getD [] ++ [a]) groups).flatMap (·.2) ~
      groups.flatMap (·.2) ++ [a] := by
  induction groups with
  | nil => simp [insertEntry]
  | cons entry groups ih =>
      obtain ⟨key', group⟩ := entry
      rw [lookup_cons_eq_ite]
      unfold insertEntry
      by_cases hkey : key = key'
      · simp only [hkey, if_true, Option.getD_some, List.flatMap_cons, List.append_assoc]
        exact List.perm_append_comm.append_left group
      · simp only [hkey, if_false]
        split
        · next hlt =>
          -- the group is a new one
          have hnone : groups.lookup key = none := lookup_eq_none fun other hmem =>
            Std.TransCmp.lt_trans hlt (List.rel_of_pairwise_cons h hmem)
          simp only [hnone, Option.getD_none, List.nil_append, List.flatMap_cons]
          exact List.perm_append_comm
        · simp only [List.flatMap_cons, List.append_assoc]
          exact (ih h.of_cons).append_left group

theorem insertEntry_perm [Std.TransOrd κ] {entries : List (κ × α)} (key : κ) (value : α)
    (h : entries.Pairwise fun entry entry' => compare entry.1 entry'.1 = .lt) :
    insertEntry key value entries ~ (key, value) :: entries.filter (·.1 ≠ key) := by
  have hlater : ∀ {entries : List (κ × α)}, (∀ entry ∈ entries, compare key entry.1 = .lt) →
      entries.filter (·.1 ≠ key) = entries := by
    intro entries hless
    refine List.filter_eq_self.2 fun entry hmem => ?_
    have hne : entry.1 ≠ key := by
      intro heq
      have hlt := hless entry hmem
      simp [heq] at hlt
    simpa using hne
  induction entries with
  | nil => simp [insertEntry]
  | cons entry entries ih =>
      obtain ⟨key', value'⟩ := entry
      unfold insertEntry
      by_cases hkey : key = key'
      · subst hkey
        have hrest := hlater fun entry hmem => List.rel_of_pairwise_cons h hmem
        rw [if_pos rfl, List.filter_cons_of_neg (by simp), hrest]
      · have hne : key' ≠ key := fun heq => hkey heq.symm
        rw [if_neg hkey, List.filter_cons_of_pos (by simpa using hne)]
        split
        · next hlt =>
          have hrest := hlater fun entry hmem =>
            Std.TransCmp.lt_trans hlt (List.rel_of_pairwise_cons h hmem)
          rw [hrest]
        · exact ((ih h.of_cons).cons _).trans (List.Perm.swap ..)

/-- An entry stays in a table unless a later one has its key. -/
theorem perm_ofList [Std.TransOrd κ] (entries : List (κ × α)) :
    (ofList entries).entries ~ lastBy Prod.fst entries := by
  have hfold : ∀ table : Table κ α, table.IsSorted →
      (entries.foldl (fun table entry => table.insert entry.1 entry.2) table).entries ~
        table.entries.filter (fun entry => ∀ entry' ∈ entries, entry.1 ≠ entry'.1) ++
          lastBy Prod.fst entries := by
    induction entries with
    | nil => intro table _; simp [lastBy, List.filter_eq_self.2]
    | cons entry entries ih =>
        intro table hsorted
        have hinsert := (insertEntry_perm entry.1 entry.2 hsorted).filter
          (fun other => ∀ entry' ∈ entries, other.1 ≠ entry'.1)
        refine ((ih (table.insert entry.1 entry.2) (isSorted_insert hsorted ..)).trans
          (hinsert.append_right _)).trans ?_
        have hfilter : (table.entries.filter (·.1 ≠ entry.1)).filter
            (fun other => ∀ entry' ∈ entries, other.1 ≠ entry'.1) =
              table.entries.filter fun other => ∀ entry' ∈ entry :: entries, other.1 ≠ entry'.1 := by
          rw [List.filter_filter]
          refine List.filter_congr fun other _ => ?_
          rw [← Bool.decide_and, decide_eq_decide, List.forall_mem_cons, and_comm]
        rw [lastBy_cons, List.filter_cons, hfilter]
        by_cases hlast : ∀ entry' ∈ entries, entry.1 ≠ entry'.1
        · rw [if_pos (decide_eq_true hlast), if_pos hlast]
          exact List.perm_middle.symm
        · rw [if_neg (by simpa using hlast), if_neg hlast]
  simpa [ofList] using hfold {} .nil

end Table

end TraceWeave.Order

namespace TraceWeave.Source

open TraceWeave.Order TraceWeave.Program
open scoped List

/-! ## Groups -/

/-- The groups hold the files, each under its key, and none is empty. -/
structure Groups (groups : List (PackageKey × List SourceFile)) (files : List SourceFile) : Prop where
  sorted : groups.Pairwise fun group group' => compare group.1 group'.1 = .lt
  perm : groups.flatMap (·.2) ~ files
  key : ∀ group ∈ groups, group.2 ≠ [] ∧ ∀ file ∈ group.2, packageKey file = group.1

theorem Groups.add {groups : List (PackageKey × List SourceFile)} {files : List SourceFile}
    (h : Groups groups files) (file : SourceFile) :
    Groups (Table.insertEntry (packageKey file)
      ((groups.lookup (packageKey file)).getD [] ++ [file]) groups) (files ++ [file]) where
  sorted := @Table.isSorted_insert _ _ _ _ _ _ ⟨groups⟩ h.sorted _ _
  perm := (Table.flatMap_insertEntry_perm file h.sorted).trans (h.perm.append_right [file])
  key group hmem := by
    obtain rfl | hmem := Table.mem_insertEntry hmem
    · refine ⟨by simp, fun other hother => ?_⟩
      obtain hother | hother := List.mem_append.1 hother
      · cases hlookup : groups.lookup (packageKey file) with
        | none => simp [hlookup] at hother
        | some group =>
            rw [hlookup] at hother
            exact (h.key _ (@Table.mem_of_get? _ _ _ ⟨groups⟩ _ _ hlookup)).2 other hother
      · rw [List.mem_singleton.1 hother]
    · exact h.key group hmem

/-- Every file gets into the group of its key, and into no other one. -/
theorem groups_groupFiles (files : List SourceFile) : Groups (groupFiles files) files := by
  have hfold : ∀ (table : Table PackageKey (List SourceFile)) (front : List SourceFile),
      Groups table.entries front → Groups (files.foldl (fun groups file =>
        groups.insert (packageKey file) ((groups.get? (packageKey file)).getD [] ++ [file]))
          table).entries (front ++ files) := by
    induction files with
    | nil => simp
    | cons file files ih =>
        intro table front h
        have hadded := ih (table.insert (packageKey file)
          ((table.get? (packageKey file)).getD [] ++ [file])) _ (h.add file)
        rwa [List.append_assoc] at hadded
  exact hfold {} [] ⟨.nil, .refl _, by simp⟩

/-! ## Packages -/

/-- What sets packages of one folder apart, their clauses aside. -/
inductive PackageKind where
  | plain
  | internalTest
  | externalTest
  deriving DecidableEq

def PackageKey.kind (key : PackageKey) : PackageKind :=
  if key.internalTest then .internalTest
  else if key.name.endsWith "_test" then .externalTest
  else .plain

def PackageKind.suffix : PackageKind → String
  | .plain => ""
  | .internalTest => " [test]"
  | .externalTest => "_test"

section

variable (module : String) (root : Path)

theorem makePackage_files (key : PackageKey) (files : List SourceFile) :
    (makePackage module root key files).files = files := by
  unfold makePackage
  dsimp only
  split
  · rfl
  · split <;> rfl

theorem makePackage_id (key : PackageKey) (files : List SourceFile) :
    (makePackage module root key files).id = importPath module root key.dir ++ key.kind.suffix := by
  unfold makePackage PackageKey.kind
  dsimp only
  split
  · rfl
  · split
    · rfl
    · simp [PackageKind.suffix]

theorem makePackages_files (groups : List (PackageKey × List SourceFile)) :
    (makePackages module root groups).flatMap (·.files) = groups.flatMap (·.2) := by
  simp only [makePackages, List.flatMap_map, makePackage_files]

end

/-- An application keeps a package unless a later one has the same id. -/
theorem values_ofPackages_perm (packages : List Package) (types : Types.Info) (agent appName : String) :
    (Application.ofPackages packages types agent appName).packages.values ~
      lastBy (·.id) packages := by
  have hentries := (Table.perm_ofList (packages.map fun package => (package.id, package))).map (·.2)
  rw [lastBy, List.pwFilter_map, List.map_map, Function.comp_def, List.map_id'] at hentries
  exact hentries

/-- The packages of sorted groups that are the last ones of their ids. -/
theorem mem_lastBy_makePackages {module : String} {root : Path}
    {groups : List (PackageKey × List SourceFile)} {package : Package}
    (h : groups.Pairwise fun group group' => compare group.1 group'.1 = .lt) :
    package ∈ lastBy (·.id) (makePackages module root groups) ↔
      ∃ group ∈ groups, makePackage module root group.1 group.2 = package ∧
        ∀ later ∈ groups, compare group.1 later.1 = .lt →
          package.id ≠ (makePackage module root later.1 later.2).id := by
  induction groups with
  | nil => simp [makePackages, lastBy]
  | cons first groups ih =>
      have hlater : ∀ group ∈ groups, compare first.1 group.1 = .lt ∧ compare group.1 first.1 ≠ .lt := by
        intro group hmem
        have hlt := List.rel_of_pairwise_cons h hmem
        exact ⟨hlt, by simp [Std.OrientedCmp.gt_of_lt hlt]⟩
      rw [makePackages, List.map_cons, mem_lastBy_cons, ← makePackages, ih h.of_cons]
      simp only [List.exists_mem_cons_iff, List.forall_mem_cons]
      refine or_congr ?_ (exists_congr fun group => and_congr_right fun hmem => ?_)
      · have hall : (∀ later ∈ groups, compare first.1 later.1 = .lt →
            package.id ≠ (makePackage module root later.1 later.2).id) ↔
              ∀ later ∈ groups, package.id ≠ (makePackage module root later.1 later.2).id :=
          forall₂_congr fun later hmem => by simp [(hlater later hmem).1]
        rw [hall]
        simp only [makePackages, List.forall_mem_map, Std.ReflCmp.compare_self]
        constructor
        · rintro ⟨rfl, hids⟩
          exact ⟨rfl, by simp, hids⟩
        · rintro ⟨rfl, -, hids⟩
          exact ⟨rfl, hids⟩
      · simp [(hlater group hmem).2]

end TraceWeave.Source
