import TraceWeave.Proofs.Types.DeclRuns

/-!
The order of packages.

Resolution goes through packages, their files and the declarations one after another, and the
types that are known in a body are up to what stands in front of it.  What the identifiers of the
body stand for is not: in any other order they are linked to the same declarations, members,
imports and predeclared names (`check_reordered`).
-/

namespace TraceWeave.Types

open TraceWeave.Syntax

variable {info : Info} {sources sources' : List PackageSource} {path name : String}

/-! ## Other orders -/

/-- The declarations of a file in another order, with its imports in their own. -/
structure FileReordered (file file' : File) : Prop where
  decls : file.decls.Perm file'.decls
  imports : file.imports = file'.imports

/-- The files of a package in another order, and the declarations of each of them. -/
structure SourceReordered (source source' : PackageSource) : Prop where
  path : source.path = source'.path
  name : source.name = source'.name
  files : ∃ files, source.files.Perm files ∧ List.Forall₂ FileReordered files source'.files

/-- Packages in another order, and the files of each of them. -/
def Reordered (sources sources' : List PackageSource) : Prop :=
  ∃ middle, sources.Perm middle ∧ List.Forall₂ SourceReordered middle sources'

theorem flatMap_perm {α β γ : Type} {R : α → β → Prop} {f : α → List γ} {g : β → List γ}
    {list middle : List α} {list' : List β} (hperm : list.Perm middle)
    (hrelated : List.Forall₂ R middle list') (h : ∀ {a b}, R a b → (f a).Perm (g b)) :
    (list.flatMap f).Perm (list'.flatMap g) := by
  refine (hperm.flatMap_right f).trans ?_
  clear hperm
  induction hrelated with
  | nil => exact .refl _
  | cons hfirst _ ih =>
      rw [List.flatMap_cons, List.flatMap_cons]
      exact (h hfirst).append ih

namespace Reordered

theorem declsOf (h : Reordered sources sources') : (declsOf sources).Perm (declsOf sources') := by
  obtain ⟨middle, hperm, hrelated⟩ := h
  refine flatMap_perm hperm hrelated fun {source source'} hsource => ?_
  obtain ⟨files, hfiles, hreordered⟩ := hsource.files
  refine flatMap_perm hfiles hreordered fun {file file'} hfile => ?_
  rw [declsOfFile, declsOfFile, hsource.path, hfile.imports]
  exact hfile.decls.map _

theorem mem_declsOf (h : Reordered sources sources') {top : TopDecl} :
    top ∈ Types.declsOf sources ↔ top ∈ Types.declsOf sources' :=
  h.declsOf.mem_iff

/-- The paths of packages, with their names. -/
theorem names (h : Reordered sources sources') :
    (sources.map fun source => (source.path, source.name)).Perm
      (sources'.map fun source => (source.path, source.name)) := by
  obtain ⟨middle, hperm, hrelated⟩ := h
  rw [List.map_eq_flatMap, List.map_eq_flatMap]
  refine flatMap_perm hperm hrelated fun {source source'} hsource => ?_
  rw [hsource.path, hsource.name]

theorem exists_source (h : Reordered sources sources') {source' : PackageSource}
    (hsource : source' ∈ sources') :
    ∃ source ∈ sources, source.path = source'.path ∧ source.name = source'.name := by
  obtain ⟨source, hmem, heq⟩ := List.mem_map.1 (h.names.mem_iff.2 (List.mem_map_of_mem hsource))
  exact ⟨source, hmem, Prod.mk.inj heq⟩

end Reordered

/-- No name is declared as two kinds of things in its package, and no package has two names. -/
structure Consistent (sources : List PackageSource) : Prop where
  kinds : ∀ top ∈ declsOf sources, ∀ top' ∈ declsOf sources, top'.path = top.path →
    ∀ member ∈ membersOf top.decl, ∀ member' ∈ membersOf top'.decl, member'.2 = member.2 →
      member' = member
  names : ∀ source ∈ sources, ∀ source' ∈ sources, source'.path = source.path →
    source'.name = source.name

namespace Consistent

theorem reordered (hconsistent : Consistent sources) (h : Reordered sources sources') :
    Consistent sources' where
  kinds top htop top' htop' :=
    hconsistent.kinds top (h.mem_declsOf.2 htop) top' (h.mem_declsOf.2 htop')
  names source hsource source' hsource' heq := by
    obtain ⟨old, hold, hpath, hname⟩ := h.exists_source hsource
    obtain ⟨old', hold', hpath', hname'⟩ := h.exists_source hsource'
    rw [← hname, ← hname']
    exact hconsistent.names old hold old' hold' (hpath'.trans (heq.trans hpath.symm))

theorem admits (h : Consistent sources) {top : TopDecl} (htop : top ∈ declsOf sources)
    {member : ObjectKind × String} (hmember : member ∈ membersOf top.decl) :
    (Info.onlyKind top.path member).Admits sources where
  numbers _ _ := trivial
  members {path file decl} hfile hdecl other hother type hpath hname := by
    obtain rfl := h.kinds top htop _ (mem_declsOf hfile hdecl) hpath member hmember other hother hname
    rw [← hpath]
    rfl
  names _ _ := trivial

/-- What declarations make members. -/
theorem hasMember (h : Consistent sources) {top : TopDecl} (htop : top ∈ declsOf sources)
    {member : ObjectKind × String} (hmember : member ∈ membersOf top.decl) (info : Info) :
    (info.check sources).HasMember top.path member := by
  have hadmits := h.admits htop hmember
  obtain ⟨source, hsource, file, hfile, decl, hdecl, rfl⟩ := exists_of_mem_declsOf htop
  exact Info.hasMember_check (Info.mem_filesOf hsource hfile) hdecl hmember hadmits info

end Consistent

theorem declaredNumbers_eq (sources : List PackageSource) :
    Info.declaredNumbers sources = (declsOf sources).flatMap fun top => numbersDeclared top.decl := by
  rw [Info.declaredNumbers, declsOf_eq, List.flatMap_assoc]
  simp only [declsOfFile, List.flatMap_map]

theorem numbersIn_files (sources : List PackageSource) :
    numbersIn (Info.eventsOfFiles (filesOf sources)) =
      (declsOf sources).flatMap fun top => numbersIn (eventsOfDecl top.decl) := by
  rw [numbersIn, identsOf, Info.eventsOfFiles, List.filterMap_flatMap, List.map_flatMap, declsOf_eq,
    List.flatMap_assoc]
  simp only [eventsOfFile, List.filterMap_flatMap, List.map_flatMap, declsOfFile, List.flatMap_map]
  rfl

theorem Apart.reordered {ident : Ident} (hapart : Apart info sources ident)
    (h : Reordered sources sources') : Apart info sources' ident where
  numbered := hapart.numbered
  unlinked := hapart.unlinked
  undeclared := by
    have hundeclared := hapart.undeclared
    rw [declaredNumbers_eq] at hundeclared ⊢
    exact fun hmem => hundeclared ((h.declsOf.flatMap_right _).mem_iff.2 hmem)
  once := by
    have honce := hapart.once
    rw [numbersIn_files] at honce ⊢
    exact ((h.declsOf.flatMap_right _).count_eq ident.id).symm.trans honce

/-! ## What names stand for -/

namespace Info

theorem packageName?_reordered (info : Info) (h : Reordered sources sources')
    (hconsistent : Consistent sources) (path : String) :
    (info.check sources').packageName? path = (info.check sources).packageName? path := by
  have hnames' := (hconsistent.reordered h).names
  by_cases hfound : ∃ source' ∈ sources', source'.path = path
  · obtain ⟨source', hsource', rfl⟩ := hfound
    obtain ⟨source, hsource, hpath, hname⟩ := h.exists_source hsource'
    rw [packageName?_check hsource' (hnames' source' hsource'), ← hpath, ← hname,
      packageName?_check hsource (hconsistent.names source hsource)]
  · have hother' : ∀ source' ∈ sources', source'.path ≠ path :=
      fun source' hsource' hpath => hfound ⟨source', hsource', hpath⟩
    have hother : ∀ source ∈ sources, source.path ≠ path := fun source hsource hpath => by
      obtain ⟨source', hsource', heq⟩ :=
        List.mem_map.1 (h.names.mem_iff.1 (List.mem_map_of_mem hsource))
      exact hother' source' hsource' ((congrArg Prod.fst heq).trans hpath)
    rw [packageName?_check_other hother', packageName?_check_other hother]

/-- A name that packages do not declare. -/
theorem memberId?_undeclared (hnone : ∀ top ∈ declsOf sources, top.path = path →
    ∀ member ∈ membersOf top.decl, member.2 ≠ name) (info : Info) :
    (info.check sources).memberId? path name = info.memberId? path name :=
  memberId?_check (fun hfile hdecl => hnone _ (mem_declsOf hfile hdecl) rfl) info

theorem member_reordered (hnamed : info.Named) (h : Reordered sources sources')
    (hconsistent : Consistent sources) (path name : String) :
    (((info.check sources').memberId? path name).or
        ((info.check sources').predeclared.get? name)).bind (info.check sources').thing? =
      (((info.check sources).memberId? path name).or
        ((info.check sources).predeclared.get? name)).bind (info.check sources).thing? := by
  by_cases hfound : ∃ top ∈ declsOf sources, top.path = path ∧ ∃ kind, (kind, name) ∈ membersOf top.decl
  · obtain ⟨top, htop, rfl, kind, hmember⟩ := hfound
    have hmembers := hconsistent.hasMember htop hmember info
    have hmembers' := (hconsistent.reordered h).hasMember (h.mem_declsOf.1 htop) hmember info
    obtain ⟨id, hid, hthing⟩ := Option.bind_eq_some_iff.1 hmembers
    obtain ⟨id', hid', hthing'⟩ := Option.bind_eq_some_iff.1 hmembers'
    rw [hid, hid', Option.some_or, Option.some_or, Option.bind_some, Option.bind_some, hthing, hthing']
  · have hnone : ∀ top ∈ declsOf sources, top.path = path →
        ∀ member ∈ membersOf top.decl, member.2 ≠ name := by
      rintro top htop hpath ⟨kind, name'⟩ hmember rfl
      exact hfound ⟨top, htop, hpath, kind, hmember⟩
    have hnone' : ∀ top ∈ declsOf sources', top.path = path →
        ∀ member ∈ membersOf top.decl, member.2 ≠ name :=
      fun top htop => hnone top (h.mem_declsOf.2 htop)
    rw [memberId?_undeclared hnone, memberId?_undeclared hnone', predeclared_check, predeclared_check]
    refine Option.bind_congr fun id hid => ?_
    have hnames : info.Names id name := by
      obtain hmember | ⟨-, hpredeclared⟩ := Option.or_eq_some_iff.1 hid
      · obtain ⟨package, hpackage, hmember⟩ := Option.bind_eq_some_iff.1 hmember
        exact hnamed.members hpackage hmember
      · exact hnamed.predeclared hpredeclared
    rw [thing?_check hnames, thing?_check hnames]

theorem meaning?_reordered (hnamed : info.Named) (h : Reordered sources sources')
    (hconsistent : Consistent sources) (top : TopDecl) (referent : Referent) :
    (info.check sources').meaning? top referent = (info.check sources).meaning? top referent := by
  cases referent with
  | inside n => rfl
  | outside name =>
      change (info.check sources').outside? _ _ _ = (info.check sources).outside? _ _ _
      unfold outside?
      rw [importSpec?_congr (info.packageName?_reordered h hconsistent),
        member_reordered hnamed h hconsistent]

end Info

/-! ## Identifiers of bodies -/

namespace Info

/-- What the identifier stands for, whatever its type is. -/
def standsFor? (info : Info) (ident : Ident) : Option Object :=
  (info.object? ident).map Object.untyped

theorem standsFor?_eq (info : Info) (ident : Ident) :
    info.standsFor? ident = (info.objectId? ident).bind info.thing? := by
  unfold standsFor? object?
  cases info.objectId? ident <;> rfl

/-- The identifier has the object of the referent, and stands for what the referent is. -/
structure Refers (info : Info) (top : TopDecl) (resolver : Resolver) (ident : Ident)
    (referent : Referent) : Prop where
  objectId? : info.objectId? ident = resolver.number? referent
  standsFor? : info.standsFor? ident = info.meaning? top referent
  unknown : info.standsFor? ident = none → info.objectId? ident = none

/-- Two identifiers share an object if they have one referent, or if both are unknown. -/
theorem Refers.shares_iff {top : TopDecl} {resolver behind : Resolver} {first second : Ident}
    {referent referent' : Referent} (hrun : DeclRun info sources top resolver behind)
    (h : (info.check sources).Refers top resolver first referent)
    (h' : (info.check sources).Refers top resolver second referent') :
    (info.check sources).objectId? first = (info.check sources).objectId? second ↔
      referent = referent' ∨
        (info.check sources).standsFor? first = none ∧ (info.check sources).standsFor? second = none := by
  constructor
  · intro heq
    cases hfirst : (info.check sources).objectId? first with
    | none =>
        rw [standsFor?_eq, standsFor?_eq, ← heq, hfirst]
        exact .inr ⟨rfl, rfl⟩
    | some id =>
        refine .inl (hrun.number?_inj ?_ ?_)
        · rw [← h.objectId?, ← h'.objectId?, heq]
        · rw [← h.objectId?, hfirst]
          rfl
  · rintro (rfl | ⟨hfirst, hsecond⟩)
    · exact h.objectId?.trans h'.objectId?.symm
    · exact (h.unknown hfirst).trans (h'.unknown hsecond).symm

end Info

/-- The identifier occurs in the bodies of the declaration, and its number nowhere else. -/
structure OccursApart (info : Info) (sources : List PackageSource) (decl : Decl) (ident : Ident) :
    Prop where
  occurs : ident ∈ identsOf (eventsOfDecl decl)
  visible : ident.isBlank = false
  apart : Apart info sources ident

/-- The referent is told by the declaration, whatever the order of packages is. -/
theorem OccursApart.exists_referent {top : TopDecl} {ident : Ident}
    (hident : OccursApart info sources top.decl ident) :
    ∃ referent : Referent, ∀ {sources' : List PackageSource}, Apart info sources' ident →
      ∀ {resolver behind : Resolver}, DeclRun info sources' top resolver behind →
        (info.check sources').Refers top resolver ident referent := by
  obtain ⟨event, hmem, hevent⟩ := List.mem_filterMap.1 hident.occurs
  obtain ⟨before, after, hevents⟩ := List.append_of_mem hmem
  refine ⟨(scopesBehind before).referent event ident.name, fun {sources'} hapart _ _ hrun => ?_⟩
  have hthing := hrun.thing? hevents hevent hident.visible hapart
  refine ⟨hrun.objectId? hevents hevent hident.visible hapart,
    (Info.standsFor?_eq _ ident).trans hthing, fun hnone => ?_⟩
  rw [Info.standsFor?_eq] at hnone
  cases hlink : (info.check sources').objectId? ident with
  | none => rfl
  | some id =>
      obtain ⟨object, hobject, -⟩ := hrun.names hevents hevent hapart hlink
      rw [hlink, Option.bind_some, hrun.grows.thing? (Info.thing?_of_objects hobject)] at hnone
      contradiction

namespace Info

/-- The package and the name of the function that a call names, if it is known. -/
def calledName? (info : Info) (call : Call) : Option (String × String) :=
  (info.callee? call).map fun callee => (callee.package, callee.name)

/-- The call names a function by the identifier, or by it as the qualifier of a package. -/
inductive CallsBy (info : Info) (ident : Ident) (call : Call) : Prop where
  | plain : call.callee.unparen.kind = .ident ident → CallsBy info ident call
  | qualified {operand : Expr} {member : Ident} {path : String} :
      call.callee.unparen.kind = .selector operand member → operand.ident? = some ident →
      info.importedPath? operand = some path → CallsBy info ident call

theorem importedPath?_eq (info : Info) {operand : Expr} {ident : Ident}
    (h : operand.ident? = some ident) :
    info.importedPath? operand = (info.standsFor? ident).bind fun object =>
      if object.kind == .package then object.imported else none := by
  unfold importedPath? standsFor?
  rw [h, Option.bind_map]
  rfl

theorem calledName?_plain (info : Info) {call : Call} {ident : Ident}
    (h : call.callee.unparen.kind = .ident ident) :
    info.calledName? call = (info.standsFor? ident).bind fun object =>
      if object.kind == .func then some (object.package, object.name) else none := by
  unfold calledName? callee? standsFor?
  rw [h, Option.bind_map]
  dsimp only
  cases info.object? ident with
  | none => rfl
  | some object =>
      by_cases hfunc : object.kind = .func <;> simp [hfunc, Object.untyped]

theorem calledName?_qualified (info : Info) {call : Call} {operand : Expr} {member : Ident}
    (h : call.callee.unparen.kind = .selector operand member)
    (hpath : info.importedPath? operand = some path) :
    info.calledName? call = some (path, member.name) := by
  unfold calledName? callee?
  rw [h]
  dsimp only
  rw [hpath]
  rfl

/-- What is called is up to what the identifier stands for. -/
theorem CallsBy.calledName? {info info' : Info} {ident : Ident} {call : Call}
    (h : info.CallsBy ident call) (heq : info'.standsFor? ident = info.standsFor? ident) :
    info'.calledName? call = info.calledName? call := by
  cases h with
  | plain hcallee => rw [calledName?_plain info hcallee, calledName?_plain info' hcallee, heq]
  | qualified hcallee hident hpath =>
      have hpath' := hpath
      rw [importedPath?_eq info hident, ← heq, ← importedPath?_eq info' hident] at hpath'
      rw [calledName?_qualified info hcallee hpath, calledName?_qualified info' hcallee hpath']

end Info

/--
In whatever order packages are resolved, an identifier of a body stands for the same thing, two
identifiers of one declaration stand for the same object or do not, and a call by an identifier
names the same function.  Types alone are up to the order.
-/
theorem check_reordered (hnamed : info.Named) (h : Reordered sources sources')
    (hconsistent : Consistent sources) {top : TopDecl} (htop : top ∈ declsOf sources) {ident : Ident}
    (hident : OccursApart info sources top.decl ident) :
    (info.check sources').standsFor? ident = (info.check sources).standsFor? ident ∧
    (∀ other : Ident, OccursApart info sources top.decl other →
      ((info.check sources').objectId? ident = (info.check sources').objectId? other ↔
        (info.check sources).objectId? ident = (info.check sources).objectId? other)) ∧
    ∀ call : Call, (info.check sources).CallsBy ident call →
      (info.check sources').calledName? call = (info.check sources).calledName? call := by
  obtain ⟨resolver, behind, hrun⟩ := exists_declRun hnamed htop
  obtain ⟨resolver', behind', hrun'⟩ := exists_declRun hnamed (h.mem_declsOf.1 htop)
  have hstands : ∀ {ident : Ident}, OccursApart info sources top.decl ident →
      (info.check sources').standsFor? ident = (info.check sources).standsFor? ident := by
    intro ident hident
    obtain ⟨referent, hrefers⟩ := hident.exists_referent
    rw [(hrefers hident.apart hrun).standsFor?,
      (hrefers (hident.apart.reordered h) hrun').standsFor?,
      Info.meaning?_reordered hnamed h hconsistent]
  refine ⟨hstands hident, fun other hother => ?_, fun call hcall => hcall.calledName? (hstands hident)⟩
  obtain ⟨referent, hrefers⟩ := hident.exists_referent
  obtain ⟨referent', hrefers'⟩ := hother.exists_referent
  rw [Info.Refers.shares_iff hrun (hrefers hident.apart hrun) (hrefers' hother.apart hrun),
    Info.Refers.shares_iff hrun' (hrefers (hident.apart.reordered h) hrun')
      (hrefers' (hother.apart.reordered h) hrun'),
    hstands hident, hstands hother]

/-- `func use() { b := shared; b }` -/
def useDecl : Decl where
  kind := .func
    { receiver := none, name := { name := "use", id := 1 }, typeParams := none, params := {}
      results := none
      body := some
        { stmts := [
          { kind := .assign [{ kind := .ident { name := "b", id := 2 } }] .define
              [{ kind := .ident { name := "shared", id := 3 } }] },
          { kind := .expr { kind := .ident { name := "b", id := 4 } } }] } }
  decs := {}

/-- `var shared = 1` -/
def sharedDecl : Decl where
  kind := .gen
    { text := "var shared = 1"
      specs := [.value [{ name := "shared", id := 5 }] none [{ kind := .literal "1" }] false] }
  decs := {}

def orderedSource (decls : List Decl) : PackageSource where
  path := "p"
  name := "p"
  files := [{ package := "p", packageDecs := {}, decls, trailing := [] }]

/-- The variable may stand behind the function that reads it, or in front of it. -/
theorem check_reordered_shared :
    let behind := [orderedSource [useDecl, sharedDecl]]
    let front := [orderedSource [sharedDecl, useDecl]]
    Reordered behind front ∧ Consistent behind ∧
      (Info.check {} front).standsFor? { name := "shared", id := 3 } =
        (Info.check {} behind).standsFor? { name := "shared", id := 3 } ∧
      ((Info.check {} front).objectId? { name := "b", id := 2 } =
          (Info.check {} front).objectId? { name := "b", id := 4 } ↔
        (Info.check {} behind).objectId? { name := "b", id := 2 } =
          (Info.check {} behind).objectId? { name := "b", id := 4 }) := by
  intro behind front
  have hreordered : Reordered behind front := by
    have hfile : List.Forall₂ FileReordered (orderedSource [useDecl, sharedDecl]).files
        (orderedSource [sharedDecl, useDecl]).files := .cons ⟨.swap _ _ _, rfl⟩ .nil
    exact ⟨behind, .refl _, .cons ⟨rfl, rfl, _, .refl _, hfile⟩ .nil⟩
  have hconsistent : Consistent behind := ⟨by decide, by decide⟩
  have hident (ident : Ident) (h : ident = { name := "b", id := 2 } ∨
      ident = { name := "shared", id := 3 } ∨ ident = { name := "b", id := 4 }) :
      OccursApart {} behind useDecl ident := by
    obtain rfl | rfl | rfl := h <;>
      exact ⟨by decide, rfl, ⟨rfl, by simp [Info.objectId?], by decide, by decide⟩⟩
  have hbound := check_reordered .empty hreordered hconsistent List.mem_cons_self
    (hident { name := "b", id := 2 } (by decide))
  have hread := check_reordered .empty hreordered hconsistent List.mem_cons_self
    (hident { name := "shared", id := 3 } (by decide))
  exact ⟨hreordered, hconsistent, hread.1, hbound.2.1 _ (hident _ (by decide))⟩

end TraceWeave.Types
