import Mathlib.Data.List.TakeWhile
import Mathlib.Data.String.Basic
import TraceWeave.Proofs.Program.Restoration

/-!
The groups of an import table.

A blank line in front of a specification starts a group, so that where the blank lines stand
tells the groups (`AreParted.importGroups_flatten`).  One more path joins a group or forms one
of its own, and no other boundary moves (`takesPath_addToSpecs`).
-/

namespace TraceWeave.Syntax

/-! ## Groups -/

/-- Blank lines stand between the groups and nowhere inside them. -/
structure AreParted (groups : List (List ImportSpec)) : Prop where
  filled : ∀ group ∈ groups, group ≠ []
  inside : ∀ group ∈ groups, ∀ spec ∈ group.tail, spec.decs.before ≠ .blankLine
  between : ∀ group ∈ groups.tail, ∀ spec ∈ group.head?, spec.decs.before = .blankLine

namespace AreParted

variable {group group' : List ImportSpec} {groups front back : List (List ImportSpec)}

theorem tail (h : AreParted (group :: groups)) : AreParted groups where
  filled other hother := h.filled other (List.mem_cons_of_mem _ hother)
  inside other hother := h.inside other (List.mem_cons_of_mem _ hother)
  between other hother := h.between other (List.mem_of_mem_tail hother)

/-- A group goes up to the next blank line. -/
theorem importGroups_append (h : AreParted (group :: groups))
    (hgroups : importGroups groups.flatten = groups) :
    importGroups (group ++ groups.flatten) = group :: groups := by
  have hinside := h.inside group List.mem_cons_self
  have hfilled := h.filled group List.mem_cons_self
  induction group with
  | nil => contradiction
  | cons spec group ih =>
      rw [List.cons_append, importGroups]
      cases group with
      | nil =>
          rw [List.nil_append, hgroups]
          cases groups with
          | nil => rfl
          | cons next groups =>
              cases next with
              | nil => exact absurd rfl (h.filled [] (by simp))
              | cons first next =>
                  have hfirst := h.between (first :: next) (by simp) first rfl
                  simp [hfirst]
      | cons next group =>
          have hrest : AreParted ((next :: group) :: groups) :=
            ⟨by simpa using h.tail.filled, fun other hother => by
              obtain rfl | hother := List.mem_cons.1 hother
              · exact fun spec hspec => hinside spec (List.mem_cons_of_mem _ hspec)
              · exact h.tail.inside other hother, h.between⟩
          rw [ih hrest (fun spec hspec => hinside spec (List.mem_cons_of_mem _ hspec)) (by simp)]
          simp [hinside next List.mem_cons_self]

/-- The blank lines tell the groups. -/
theorem importGroups_flatten (h : AreParted groups) : importGroups groups.flatten = groups := by
  induction groups with
  | nil => rfl
  | cons group groups ih => exact h.importGroups_append (ih h.tail)

/-- A group may be replaced by one that starts with the same room. -/
theorem replace (h : AreParted (front ++ group :: back)) (hfilled : group' ≠ [])
    (hinside : ∀ spec ∈ group'.tail, spec.decs.before ≠ .blankLine)
    (hhead : group'.head?.map (·.decs.before) = group.head?.map (·.decs.before)) :
    AreParted (front ++ group' :: back) where
  filled other hother := by
    obtain hother | rfl | hother := by simpa using hother
    · exact h.filled other (by simp [hother])
    · exact hfilled
    · exact h.filled other (by simp [hother])
  inside other hother := by
    obtain hother | rfl | hother := by simpa using hother
    · exact h.inside other (by simp [hother])
    · exact hinside
    · exact h.inside other (by simp [hother])
  between other hother spec hspec := by
    cases front with
    | nil => exact h.between other hother spec hspec
    | cons first front =>
        obtain hother | rfl | hother := by simpa using hother
        · exact h.between other (by simp [hother]) spec hspec
        · rw [hspec, Option.map_some] at hhead
          obtain ⟨old, hold, heq⟩ := Option.map_eq_some_iff.1 hhead.symm
          exact heq ▸ h.between group (by simp) old hold
        · exact h.between other (by simp [hother]) spec hspec

end AreParted

theorem areParted_importGroups (specs : List ImportSpec) : AreParted (importGroups specs) := by
  induction specs with
  | nil => exact ⟨by simp [importGroups], by simp [importGroups], by simp [importGroups]⟩
  | cons spec specs ih =>
      unfold importGroups
      split
      · exact ⟨by simp, by simp, by simp⟩
      · next group groups hgroups =>
        rw [hgroups] at ih
        split
        · next next rest =>
          split
          · next hblank =>
            refine ⟨by simpa using ih.filled, by simpa using ih.inside, ?_⟩
            intro other hother other' hother'
            obtain rfl | hother := List.mem_cons.1 hother
            · obtain rfl := Option.some.inj hother'
              exact eq_of_beq hblank
            · exact ih.between other hother other' hother'
          · next hblank =>
            refine ⟨by simpa using ih.tail.filled, ?_, ih.between⟩
            intro other hother
            obtain rfl | hother := List.mem_cons.1 hother
            · rw [List.tail_cons, List.forall_mem_cons]
              exact ⟨by simpa using hblank, ih.inside _ List.mem_cons_self⟩
            · exact ih.tail.inside other hother
        · exact absurd rfl (ih.filled [] List.mem_cons_self)

/-! ## Entries -/

/-- A specification apart from the room in front of it. -/
def ImportSpec.entry (spec : ImportSpec) : ImportSpec := spec.withGap .sameLine

/-- The groups of specifications, apart from the room in front of each. -/
def entryGroups (specs : List ImportSpec) : List (List ImportSpec) :=
  (importGroups specs).map (·.map ImportSpec.entry)

theorem flatten_entryGroups (specs : List ImportSpec) :
    (entryGroups specs).flatten = specs.map ImportSpec.entry := by
  rw [entryGroups, ← List.map_flatten, flatten_importGroups]

theorem AreParted.entryGroups_flatten {groups : List (List ImportSpec)} (h : AreParted groups) :
    entryGroups groups.flatten = groups.map (·.map ImportSpec.entry) := by
  rw [entryGroups, h.importGroups_flatten]

@[simp]
theorem isStandardGroup_map_entry (group : List ImportSpec) :
    isStandardGroup (group.map ImportSpec.entry) = isStandardGroup group := by
  cases group <;> rfl

/-! ## One more path -/

/-- The path belongs between the two parts of a group: in front of the first greater one. -/
structure LandsBetween (path : String) (front back : List ImportSpec) : Prop where
  front : ∀ spec ∈ front, spec.path ≤ path
  back : ∀ spec ∈ back.head?, path < spec.path

/-- How groups take one more path, where `spec` is its specification. -/
inductive Takes (spec : ImportSpec) : (groups groups' : List (List ImportSpec)) → Prop where
  /-- It joins the first standard group. -/
  | standard {front back : List (List ImportSpec)} {smaller greater : List ImportSpec} :
      isStandardPath spec.path = true → (∀ group ∈ front, isStandardGroup group = false) →
      isStandardGroup (smaller ++ greater) = true → LandsBetween spec.path smaller greater →
      Takes spec (front ++ (smaller ++ greater) :: back)
        (front ++ (smaller ++ spec :: greater) :: back)
  /-- There is no standard group, and it forms the first one. -/
  | first {groups : List (List ImportSpec)} :
      isStandardPath spec.path = true → (∀ group ∈ groups, isStandardGroup group = false) →
      Takes spec groups ([spec] :: groups)
  /-- It joins the last group that is not standard. -/
  | other {front back : List (List ImportSpec)} {smaller greater : List ImportSpec} :
      isStandardPath spec.path = false → isStandardGroup (smaller ++ greater) = false →
      (∀ group ∈ back, isStandardGroup group = true) → LandsBetween spec.path smaller greater →
      Takes spec (front ++ (smaller ++ greater) :: back)
        (front ++ (smaller ++ spec :: greater) :: back)
  /-- All groups are standard, and it forms the last one. -/
  | last {groups : List (List ImportSpec)} :
      isStandardPath spec.path = false → (∀ group ∈ groups, isStandardGroup group = true) →
      Takes spec groups (groups ++ [[spec]])

/-- The specifications stand in the order of their paths. -/
def IsSortedGroup (group : List ImportSpec) : Prop :=
  group.Pairwise fun spec next => spec.path ≤ next.path

theorem LandsBetween.isSortedGroup {spec : ImportSpec} {smaller greater : List ImportSpec}
    (h : LandsBetween spec.path smaller greater) (hsorted : IsSortedGroup (smaller ++ greater)) :
    IsSortedGroup (smaller ++ spec :: greater) := by
  obtain ⟨hsmaller, hgreater, hacross⟩ := List.pairwise_append.1 hsorted
  have hback : ∀ next ∈ greater, spec.path ≤ next.path := by
    cases greater with
    | nil => simp
    | cons first rest =>
        have hfirst := le_of_lt (h.back first rfl)
        rw [List.forall_mem_cons]
        exact ⟨hfirst, fun next hnext =>
          hfirst.trans ((List.pairwise_cons.1 hgreater).1 next hnext)⟩
  refine List.pairwise_append.2 ⟨hsmaller, List.pairwise_cons.2 ⟨hback, hgreater⟩, ?_⟩
  intro previous hprevious next hnext
  obtain rfl | hnext := List.mem_cons.1 hnext
  · exact h.front previous hprevious
  · exact hacross previous hprevious next hnext

namespace Takes

variable {spec : ImportSpec} {groups groups' : List (List ImportSpec)}

/-- All other specifications stay, in order. -/
theorem flatten (h : Takes spec groups groups') :
    ∃ front back, groups.flatten = front ++ back ∧ groups'.flatten = front ++ spec :: back := by
  cases h with
  | @standard front back smaller greater _ _ _ _ | @other front back smaller greater _ _ _ _ =>
      exact ⟨front.flatten ++ smaller, greater ++ back.flatten, by simp, by simp⟩
  | first _ _ => exact ⟨[], groups.flatten, by simp, by simp⟩
  | last _ _ => exact ⟨groups.flatten, [], by simp, by simp⟩

theorem isSortedGroup (h : Takes spec groups groups') (hsorted : ∀ group ∈ groups, IsSortedGroup group) :
    ∀ group ∈ groups', IsSortedGroup group := by
  cases h with
  | standard _ _ _ hlands | other _ _ _ hlands =>
      rw [List.forall_mem_append, List.forall_mem_cons] at hsorted ⊢
      exact ⟨hsorted.1, hlands.isSortedGroup hsorted.2.1, hsorted.2.2⟩
  | first _ _ => exact List.forall_mem_cons.2 ⟨List.pairwise_singleton _ _, hsorted⟩
  | last _ _ =>
      refine List.forall_mem_append.2 ⟨hsorted, List.forall_mem_singleton.2 ?_⟩
      exact List.pairwise_singleton _ _

end Takes

/-! ## Adding to a group -/

/-- The path comes to stand in front of all others and takes over their room, or behind one of them. -/
theorem insertSorted_cases (path : String) (group : List ImportSpec) :
    (∃ first rest, group = first :: rest ∧ path < first.path ∧
      insertSorted path group =
        ({ path : ImportSpec }.withGap first.decs.before) :: first.withGap .newLine :: rest) ∨
    ∃ front back, group = front ++ back ∧ (group ≠ [] → front ≠ []) ∧
      LandsBetween path front back ∧ insertSorted path group = front ++ { path } :: back := by
  have hspan : (group.takeWhile fun spec => !decide (path < spec.path)) ++
      (group.dropWhile fun spec => !decide (path < spec.path)) = group :=
    List.takeWhile_append_dropWhile
  have hfront : ∀ spec ∈ group.takeWhile fun spec => !decide (path < spec.path), spec.path ≤ path := by
    intro spec hspec
    have hnot := List.mem_takeWhile_imp hspec
    rw [Bool.not_eq_true', decide_eq_false_iff_not] at hnot
    exact not_lt.1 hnot
  have hback : ∀ spec ∈ (group.dropWhile fun spec => !decide (path < spec.path)).head?,
      path < spec.path := by
    intro spec hspec
    have hnot := List.head?_dropWhile_not (fun spec : ImportSpec => !decide (path < spec.path)) group
    rw [hspec] at hnot
    exact of_decide_eq_true (by simpa only [Bool.not_eq_false'] using hnot)
  unfold insertSorted
  rw [List.span_eq_takeWhile_dropWhile]
  dsimp only
  split
  · next first rest hsmaller hgreater =>
    rw [hsmaller, hgreater] at hspan
    exact .inl ⟨first, rest, hspan.symm, hback first (by rw [hgreater]; rfl), rfl⟩
  · next hsome =>
    refine .inr ⟨_, _, hspan.symm, fun hgroup hempty => ?_, ⟨hfront, hback⟩, rfl⟩
    cases hgreater : group.dropWhile fun spec => !decide (path < spec.path) with
    | nil => exact hgroup (by rw [← hspan, hempty, hgreater]; rfl)
    | cons first rest => exact hsome first rest hempty hgreater

theorem LandsBetween.map_entry {path : String} {front back : List ImportSpec}
    (h : LandsBetween path front back) :
    LandsBetween path (front.map ImportSpec.entry) (back.map ImportSpec.entry) where
  front := List.forall_mem_map.2 h.front
  back spec hspec := by
    rw [List.head?_map] at hspec
    obtain ⟨first, hfirst, rfl⟩ := Option.map_eq_some_iff.1 hspec
    exact h.back first hfirst

/-- The specification of a path as it stands in a group. -/
def entryOf (path : String) : ImportSpec := ImportSpec.entry { path }

theorem entry_insertSorted (path : String) (group : List ImportSpec) :
    ∃ smaller greater, group.map ImportSpec.entry = smaller ++ greater ∧
      LandsBetween path smaller greater ∧
      (insertSorted path group).map ImportSpec.entry = smaller ++ entryOf path :: greater := by
  obtain ⟨first, rest, rfl, hlt, hinsert⟩ | ⟨front, back, rfl, -, hlands, hinsert⟩ :=
    insertSorted_cases path group
  · refine ⟨[], _, rfl, ⟨by simp, fun spec hspec => ?_⟩, by rw [hinsert]; rfl⟩
    obtain rfl := Option.some.inj hspec
    exact hlt
  · refine ⟨_, _, List.map_append, hlands.map_entry, ?_⟩
    rw [hinsert, List.map_append, List.map_cons]
    rfl

theorem AreParted.insertSorted {group : List ImportSpec} {front back : List (List ImportSpec)}
    (h : AreParted (front ++ group :: back)) (path : String) :
    AreParted (front ++ insertSorted path group :: back) := by
  have hfilled := h.filled group (by simp)
  have hinside := h.inside group (by simp)
  obtain ⟨first, rest, rfl, -, hinsert⟩ | ⟨smaller, greater, rfl, hsmaller, -, hinsert⟩ :=
    insertSorted_cases path group
  · rw [hinsert]
    refine h.replace (List.cons_ne_nil _ _) ?_ rfl
    rw [List.tail_cons, List.forall_mem_cons]
    exact ⟨nofun, hinside⟩
  · rw [hinsert]
    cases smaller with
    | nil => exact absurd rfl (hsmaller hfilled)
    | cons first smaller =>
        refine h.replace (List.cons_ne_nil _ _) ?_ rfl
        rw [List.cons_append, List.tail_cons, List.forall_mem_append] at hinside ⊢
        exact ⟨hinside.1, List.forall_mem_cons.2 ⟨nofun, hinside.2⟩⟩

theorem modifyFirst_eq {α : Type} {test : α → Bool} {items : List α} (f : α → α)
    (h : items.any test = true) :
    ∃ front item back, items = front ++ item :: back ∧ (∀ other ∈ front, test other = false) ∧
      test item = true ∧ modifyFirst test f items = front ++ f item :: back := by
  induction items with
  | nil => contradiction
  | cons item items ih =>
      unfold modifyFirst
      cases htest : test item with
      | true => exact ⟨[], item, items, rfl, by simp, htest, by simp⟩
      | false =>
          have hitems : items.any test = true := by simpa [htest] using h
          obtain ⟨front, found, back, rfl, hfront, hfound, heq⟩ := ih hitems
          refine ⟨item :: front, found, back, rfl, List.forall_mem_cons.2 ⟨htest, hfront⟩, hfound, ?_⟩
          simp [heq]

/-! ## Adding to a declaration -/

theorem isStandardGroup_entries {test : Bool} {groups : List (List ImportSpec)}
    (h : ∀ group ∈ groups, isStandardGroup group = test) :
    ∀ group ∈ groups.map (·.map ImportSpec.entry), isStandardGroup group = test :=
  List.forall_mem_map.2 fun group hgroup => by rw [isStandardGroup_map_entry, h group hgroup]

/-- The old first group starts with a blank line now. -/
theorem takes_first {path : String} {first : ImportSpec} {rest : List ImportSpec}
    (htakes : Takes (entryOf path) (entryGroups (first :: rest))
      ([entryOf path] :: entryGroups (first :: rest))) :
    Takes (entryOf path) (entryGroups (first :: rest))
      (entryGroups ({ path } :: first.withGap .blankLine :: rest)) := by
  have hparted := areParted_importGroups (first :: rest)
  have hflatten := flatten_importGroups (first :: rest)
  rw [entryGroups] at htakes ⊢
  generalize importGroups (first :: rest) = groups at hparted hflatten htakes
  match groups with
      | [] => contradiction
      | [] :: _ => exact absurd rfl (hparted.filled [] List.mem_cons_self)
      | (spec :: group) :: groups =>
          obtain ⟨rfl, rfl⟩ := List.cons.inj hflatten
          have hparted' : AreParted ([{ path }] :: (spec.withGap .blankLine :: group) :: groups) := by
            refine ⟨by simpa using hparted.tail.filled, ?_, ?_⟩
            · rw [List.forall_mem_cons, List.forall_mem_cons]
              exact ⟨by simp, hparted.inside (spec :: group) List.mem_cons_self, hparted.tail.inside⟩
            · rw [List.tail_cons, List.forall_mem_cons]
              refine ⟨fun other hother => ?_, hparted.between⟩
              obtain rfl := Option.some.inj hother
              rfl
          exact hparted'.entryGroups_flatten ▸ htakes

theorem entryGroups_concat (specs : List ImportSpec) (path : String) :
    entryGroups (specs ++ [{ path : ImportSpec }.withGap .blankLine]) =
      entryGroups specs ++ [[entryOf path]] := by
  have hparted := areParted_importGroups specs
  have hflatten := flatten_importGroups specs
  unfold entryGroups
  generalize importGroups specs = groups at hparted hflatten ⊢
  subst hflatten
  have hparted' : AreParted (groups ++ [[{ path : ImportSpec }.withGap .blankLine]]) := by
    refine ⟨?_, ?_, fun other hother spec hspec => ?_⟩
    · exact List.forall_mem_append.2 ⟨hparted.filled, by simp⟩
    · exact List.forall_mem_append.2 ⟨hparted.inside, by simp⟩
    · cases groups with
      | nil => contradiction
      | cons group groups =>
          obtain hother | rfl := by simpa using hother
          · exact hparted.between other hother spec hspec
          · obtain rfl := Option.some.inj hspec
            rfl
  have heq := hparted'.entryGroups_flatten
  rwa [List.flatten_append, List.map_append] at heq

theorem takes_addToSpecs (path : String) (specs : List ImportSpec) :
    Takes (entryOf path) (entryGroups specs) (entryGroups (addToSpecs path specs)) := by
  have hparted := areParted_importGroups specs
  unfold addToSpecs
  dsimp only
  split
  · next hpath =>
    split
    · next hany =>
      obtain ⟨front, group, back, hgroups, hfront, hgroup, hmodify⟩ :=
        modifyFirst_eq (insertSorted path) hany
      rw [hgroups] at hparted
      obtain ⟨smaller, greater, hentries, hlands, hinsert⟩ := entry_insertSorted path group
      rw [hmodify, (hparted.insertSorted path).entryGroups_flatten, entryGroups, hgroups]
      simp only [List.map_append, List.map_cons, hinsert, hentries]
      refine .standard hpath (isStandardGroup_entries hfront) ?_ hlands
      rw [← hentries, isStandardGroup_map_entry, hgroup]
    · next hany =>
      have hgroups : ∀ group ∈ importGroups specs, isStandardGroup group = false := by
        simpa using hany
      have htakes : Takes (entryOf path) (entryGroups specs)
          ([entryOf path] :: entryGroups specs) :=
        .first hpath (isStandardGroup_entries hgroups)
      split
      · exact htakes
      · exact takes_first htakes
  · next hpath =>
    rw [Bool.not_eq_true] at hpath
    split
    · next hany =>
      have hreverse : (importGroups specs).reverse.any (!isStandardGroup ·) = true := by
        rw [List.any_reverse]
        exact hany
      obtain ⟨front, group, back, hgroups, hfront, hgroup, hmodify⟩ :=
        modifyFirst_eq (insertSorted path) hreverse
      have hgroups : importGroups specs = back.reverse ++ group :: front.reverse := by
        simpa using congrArg List.reverse hgroups
      rw [hgroups] at hparted
      obtain ⟨smaller, greater, hentries, hlands, hinsert⟩ := entry_insertSorted path group
      rw [hmodify, List.reverse_append, List.reverse_cons, List.append_assoc, List.singleton_append,
        (hparted.insertSorted path).entryGroups_flatten, entryGroups, hgroups]
      simp only [List.map_append, List.map_cons, hinsert, hentries]
      refine .other hpath ?_ (isStandardGroup_entries fun other hother => ?_) hlands
      · rw [← hentries, isStandardGroup_map_entry]
        simpa using hgroup
      · simpa using hfront other (List.mem_reverse.1 hother)
    · next hany =>
      have hgroups : ∀ group ∈ importGroups specs, isStandardGroup group = true := by
        simpa using hany
      have htakes : Takes (entryOf path) (entryGroups specs)
          (entryGroups specs ++ [[entryOf path]]) :=
        .last hpath (isStandardGroup_entries hgroups)
      split
      · next hempty =>
        obtain rfl := List.isEmpty_iff.1 hempty
        exact htakes
      · rw [entryGroups_concat]
        exact htakes

/-! ## Adding to a file -/

def Decl.importDecl? (decl : Decl) : Option ImportDecl :=
  match decl.kind with
  | .imports imports => some imports
  | _ => none

def File.importDecls (file : File) : List ImportDecl := file.decls.filterMap Decl.importDecl?

/-- An import declaration of one path. -/
def importOf (path : String) : Decl where
  kind := .imports
    { specs := [({ path : ImportSpec }).withGap .sameLine], grouped := false, trailing := [] }
  decs := { before := .blankLine }

/-- What a file becomes that imports one more path: its first import declaration takes the path. -/
inductive GainsPath (path : String) (file : File) : File → Prop where
  | takes {front back : List Decl} {decl : Decl} {imports imports' : ImportDecl} :
      file.decls = front ++ decl :: back → (∀ other ∈ front, other.importDecl? = none) →
      decl.kind = .imports imports → imports'.grouped = true → imports'.trailing = imports.trailing →
      Takes (entryOf path) (entryGroups imports.specs) (entryGroups imports'.specs) →
      GainsPath path file
        { file with decls := front ++ { decl with kind := .imports imports' } :: back }
  | declares :
      (∀ decl ∈ file.decls, decl.importDecl? = none) →
      GainsPath path file { file with decls := importOf path :: file.decls }

namespace GainsPath

variable {path : String} {file file' : File}

/-- All other specifications keep name, path and comments, and their order. -/
theorem entries (h : GainsPath path file file') :
    ∃ front back, file.imports.map ImportSpec.entry = front ++ back ∧
      file'.imports.map ImportSpec.entry = front ++ entryOf path :: back := by
  cases h with
  | @takes front back decl imports imports' hdecls _ hkind _ _ htakes =>
      obtain ⟨before, behind, hold, hnew⟩ := htakes.flatten
      rw [flatten_entryGroups] at hold hnew
      refine ⟨(front.flatMap Decl.imports).map ImportSpec.entry ++ before,
        behind ++ (back.flatMap Decl.imports).map ImportSpec.entry, ?_, ?_⟩
      · simp [File.imports, hdecls, Decl.imports, hkind, hold]
      · simp [File.imports, Decl.imports, hnew]
  | declares _ => exact ⟨[], file.imports.map ImportSpec.entry, rfl, rfl⟩

/-- Groups in order stay so. -/
theorem isSortedGroup (h : GainsPath path file file')
    (hsorted : ∀ imports ∈ file.importDecls, ∀ group ∈ entryGroups imports.specs,
      IsSortedGroup group) :
    ∀ imports ∈ file'.importDecls, ∀ group ∈ entryGroups imports.specs, IsSortedGroup group := by
  cases h with
  | @takes front back decl imports imports' hdecls hfront hkind _ _ htakes =>
      simp only [File.importDecls, hdecls, List.filterMap_append, List.filterMap_cons,
        Decl.importDecl?, hkind, List.forall_mem_append, List.forall_mem_cons] at hsorted ⊢
      exact ⟨hsorted.1, htakes.isSortedGroup hsorted.2.1, hsorted.2.2⟩
  | declares _ =>
      refine List.forall_mem_cons.2 ⟨?_, hsorted⟩
      exact List.forall_mem_singleton.2 (List.pairwise_singleton _ _)

end GainsPath

/-- A declaration of one specification has one group, in parentheses or not. -/
theorem takes_add {path : String} {imports : ImportDecl}
    (hsingle : imports.grouped = false → imports.specs.length = 1) :
    Takes (entryOf path) (entryGroups imports.specs) (entryGroups (imports.add path).specs) := by
  unfold ImportDecl.add
  dsimp only
  split
  · exact takes_addToSpecs path imports.specs
  · next hgrouped =>
    obtain ⟨spec, hspec⟩ := List.length_eq_one_iff.1 (hsingle (by simpa using hgrouped))
    have hentries : entryGroups (imports.specs.map (·.withGap .newLine)) =
        entryGroups imports.specs := by
      rw [hspec]
      rfl
    rw [← hentries]
    exact takes_addToSpecs path _

theorem addToDecls_cases (path : String) (decls : List Decl) :
    (addToDecls path decls = none ∧ ∀ decl ∈ decls, decl.importDecl? = none) ∨
    ∃ front decl imports back, decls = front ++ decl :: back ∧
      (∀ other ∈ front, other.importDecl? = none) ∧ decl.kind = .imports imports ∧
      addToDecls path decls =
        some (front ++ { decl with kind := .imports (imports.add path) } :: back) := by
  induction decls with
  | nil => exact .inl ⟨rfl, by simp⟩
  | cons decl decls ih =>
      unfold addToDecls
      split
      · next imports hkind => exact .inr ⟨[], decl, imports, decls, rfl, by simp, hkind, rfl⟩
      · next hkind =>
        have hdecl : decl.importDecl? = none := by
          unfold Decl.importDecl?
          split
          · next imports himports => exact absurd himports (hkind imports)
          · rfl
        obtain ⟨hnone, hdecls⟩ | ⟨front, found, imports, back, rfl, hfront, hfound, hadd⟩ := ih
        · exact .inl ⟨by rw [hnone]; rfl, List.forall_mem_cons.2 ⟨hdecl, hdecls⟩⟩
        · refine .inr ⟨decl :: front, found, imports, back, rfl,
            List.forall_mem_cons.2 ⟨hdecl, hfront⟩, hfound, ?_⟩
          rw [hadd]
          rfl

theorem gainsPath_addImport {path : String} {file : File}
    (hsingle : ∀ imports ∈ file.importDecls, imports.grouped = false → imports.specs.length = 1)
    (hmissing : file.hasImport path = false) : GainsPath path file (file.addImport path) := by
  unfold File.addImport
  rw [hmissing]
  obtain ⟨hnone, hdecls⟩ | ⟨front, decl, imports, back, hdecls, hfront, hkind, hadd⟩ :=
    addToDecls_cases path file.decls
  · rw [hnone]
    exact .declares hdecls
  · rw [hadd]
    have hmem : imports ∈ file.importDecls :=
      List.mem_filterMap.2 ⟨decl, by simp [hdecls], by simp [Decl.importDecl?, hkind]⟩
    exact .takes hdecls hfront hkind rfl rfl (takes_add (hsingle imports hmem))

theorem hasImport_eq_false_iff (file : File) (path : String) :
    file.hasImport path = false ↔ ∀ spec ∈ file.imports, spec.path ≠ path := by
  simp [File.hasImport]

/-- What comes of a file that is to import a path. -/
structure ImportsInOrder (path : String) (file file' : File) : Prop where
  /-- The file changes just if it does not import the path. -/
  changed : file' ≠ file ↔ ∀ spec ∈ file.imports, spec.path ≠ path
  /-- Then the path comes to stand in one of the groups, or between them. -/
  gains : file' ≠ file → GainsPath path file file'
  /-- One specification is new; all others keep name, path and comments, and their order. -/
  entries : file' ≠ file → ∃ front back, file.imports.map ImportSpec.entry = front ++ back ∧
    file'.imports.map ImportSpec.entry = front ++ entryOf path :: back
  sorted : (∀ imports ∈ file.importDecls, ∀ group ∈ entryGroups imports.specs,
      IsSortedGroup group) →
    ∀ imports ∈ file'.importDecls, ∀ group ∈ entryGroups imports.specs, IsSortedGroup group

/-- Imports are added in order, if declarations without parentheses hold one path each. -/
theorem File.addImport_inOrder (path : String) (file : File)
    (hsingle : ∀ imports ∈ file.importDecls, imports.grouped = false → imports.specs.length = 1) :
    ImportsInOrder path file (file.addImport path) := by
  cases hmissing : file.hasImport path with
  | true =>
      have hsame : file.addImport path = file := by simp [File.addImport, hmissing]
      rw [hsame]
      refine ⟨?_, fun h => absurd rfl h, fun h => absurd rfl h, id⟩
      rw [← hasImport_eq_false_iff, hmissing]
      simp
  | false =>
      have hgains := gainsPath_addImport hsingle hmissing
      refine ⟨?_, fun _ => hgains, fun _ => hgains.entries, hgains.isSortedGroup⟩
      rw [← hasImport_eq_false_iff]
      refine iff_of_true (fun hsame => ?_) hmissing
      -- there is one more specification
      have hlength := (file.bindings_addImport hmissing).length_eq
      rw [hsame, List.length_cons] at hlength
      omega

/-- A file that imports `fmt` alone. -/
def singleImport : File where
  package := "app"
  packageDecs := {}
  decls := [importOf "fmt", { kind := .verbatim "var x int", decs := .ownLine }]
  trailing := []

theorem addImport_inOrder_singleImport :
    (∀ imports ∈ singleImport.importDecls, imports.grouped = false → imports.specs.length = 1) ∧
      ImportsInOrder "google.golang.org/grpc" singleImport
        (singleImport.addImport "google.golang.org/grpc") := by
  have hsingle : ∀ imports ∈ singleImport.importDecls,
      imports.grouped = false → imports.specs.length = 1 :=
    List.forall_mem_singleton.2 fun _ => rfl
  exact ⟨hsingle, File.addImport_inOrder _ singleImport hsingle⟩

end TraceWeave.Syntax
