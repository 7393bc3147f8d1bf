import TraceWeave.Proofs.Types.Members

/-!
How the bodies of one declaration are resolved.

No block is open in front of a declaration (`DeclRun`), so that an identifier inside of it stands
for a declaration of its own bodies or for what its name is outside of functions.  Which of both
it is can be told from the declaration alone (`Referent`).  When packages have been resolved, the
object is the one that the referent has (`DeclRun.thing?`), and identifiers share an object as
they share their referent (`DeclRun.number?_inj`).
-/

namespace TraceWeave.Types

open TraceWeave.Syntax

/-! ## Declarations of packages -/

/-- A declaration of a package, with the imports of its file. -/
structure TopDecl where
  path : String
  imports : List ImportSpec
  decl : Decl

def declsOfFile (path : String) (file : File) : List TopDecl :=
  file.decls.map fun decl => { path, imports := file.imports, decl }

/-- All declarations of packages. -/
def declsOf (sources : List PackageSource) : List TopDecl :=
  sources.flatMap fun source => source.files.flatMap (declsOfFile source.path)

theorem declsOf_eq (sources : List PackageSource) :
    declsOf sources = (filesOf sources).flatMap fun entry => declsOfFile entry.1 entry.2 := by
  rw [declsOf, filesOf, List.flatMap_assoc]
  simp only [List.flatMap_map]

theorem mem_declsOf {sources : List PackageSource} {path : String} {file : File} {decl : Decl}
    (hfile : (path, file) ∈ filesOf sources) (hdecl : decl ∈ file.decls) :
    { path, imports := file.imports, decl } ∈ declsOf sources := by
  rw [declsOf_eq]
  exact List.mem_flatMap.2 ⟨_, hfile, List.mem_map_of_mem hdecl⟩

theorem exists_of_mem_declsOf {sources : List PackageSource} {top : TopDecl}
    (h : top ∈ declsOf sources) :
    ∃ source ∈ sources, ∃ file ∈ source.files, ∃ decl ∈ file.decls,
      top = { path := source.path, imports := file.imports, decl } := by
  obtain ⟨source, hsource, h⟩ := List.mem_flatMap.1 h
  obtain ⟨file, hfile, h⟩ := List.mem_flatMap.1 h
  obtain ⟨decl, hdecl, rfl⟩ := List.mem_map.1 h
  exact ⟨source, hsource, file, hfile, decl, hdecl, rfl⟩

/-! ## Referents -/

/-- What an identifier of a body stands for. -/
inductive Referent where
  /-- The declaration of the number among those in the bodies. -/
  | inside (n : Nat)
  /-- What the name stands for outside of functions. -/
  | outside (name : String)

/-- The declaration that can be seen, if there is one. -/
def Scopes.referent (scopes : Scopes) (event : Event) (name : String) : Referent :=
  match scopes.target? event with
  | some n => .inside n
  | none => .outside name

/-- The object of a referent, for the state in front of the declaration. -/
def Resolver.number? (resolver : Resolver) : Referent → Option Nat
  | .inside n => some (resolver.info.objects.size + n)
  | .outside name => resolver.outside? name

namespace Info

/-- What a name stands for outside of functions: an import, a member or a predeclared name. -/
def outside? (info : Info) (path : String) (imports : List ImportSpec) (name : String) : Option Object :=
  match info.importSpec? imports name with
  | some spec =>
      some { kind := .package, name, package := path, type := none, imported := some spec.path }
  | none => ((info.memberId? path name).or (info.predeclared.get? name)).bind info.thing?

/-- What a referent of a declaration is. -/
def meaning? (info : Info) (top : TopDecl) : Referent → Option Object
  | .inside n =>
      ((scopesBehind (eventsOfDecl top.decl)).declared[n]?).map fun (kind, name) =>
        { kind, name, package := top.path, type := none }
  | .outside name => info.outside? top.path top.imports name

end Info

/-! ## Runs of declarations -/

/-- How a declaration is resolved between the states in front of it and behind it. -/
structure DeclRun (info : Info) (sources : List PackageSource) (top : TopDecl)
    (resolver resolver' : Resolver) : Prop where
  package : resolver.package = top.path
  scopes : resolver.scopes = []
  named : resolver.Named
  enters (name : String) : resolver.Enters name ((info.check sources).importSpec? top.imports name)
  runs : Resolver.Runs resolver (eventsOfDecl top.decl) resolver'
  grows : resolver'.info.Grows (info.check sources)
  linked {before after : List Event} {event : Event} {ident : Ident} :
    eventsOfDecl top.decl = before ++ event :: after → event.ident? = some ident →
      Apart info sources ident →
      resolver.info.objectId? ident = none ∧
        ident.id ∉ numbersIn before ∧ ident.id ∉ numbersIn after ∧
        (info.check sources).objectId? ident = resolver'.info.objectId? ident

theorem exists_declRun {info : Info} (hnamed : info.Named) {sources : List PackageSource}
    {top : TopDecl} (htop : top ∈ declsOf sources) :
    ∃ resolver resolver', DeclRun info sources top resolver resolver' := by
  obtain ⟨source, hsource, file, hfile, decl, hdecl, rfl⟩ := exists_of_mem_declsOf htop
  obtain ⟨known, hrun⟩ := exists_fileRun info hsource hfile
  obtain ⟨front, back, hdecls⟩ := List.append_of_mem hdecl
  have hevents : eventsOfFile file =
      front.flatMap eventsOfDecl ++ (eventsOfDecl decl ++ back.flatMap eventsOfDecl) := by
    rw [eventsOfFile, hdecls, List.flatMap_append, List.flatMap_cons]
  obtain ⟨resolver, hfront, hrest⟩ := (hevents ▸ hrun.runs).split
  obtain ⟨resolver', hbody, hback⟩ := hrest.split
  have hlevel := (hfront.level (.flatMap fun decl _ => balanced_eventsOfDecl decl)).1
  refine ⟨resolver, resolver',
    { package := hfront.continues.package.trans hrun.opens.package
      scopes := List.length_eq_zero_iff.1 (hlevel.trans (congrArg List.length hrun.opens.scopes))
      named := (Resolver.Named.opens (hrun.keeps Info.stable_named hnamed) hrun.opens).runs hfront
      enters := fun name => ?_
      runs := hbody
      grows := hback.continues.grows.trans hrun.grows
      linked := fun {before after event ident} hsplit hident hapart => ?_ }⟩
  · rw [Info.importSpec?_of_packages hrun.packages]
    exact (hrun.opens.enters name).grows (congrArg (·.get? name) hfront.continues.imports)
      hfront.continues.package hfront.continues.grows
  · have hall : eventsOfFile file = (front.flatMap eventsOfDecl ++ before) ++
        event :: (after ++ back.flatMap eventsOfDecl) := by
      rw [hevents, hsplit]
      simp
    obtain ⟨hunlinked, hbefore, hafter, hkept⟩ := hrun.linked hall hident hapart
    rw [numbersIn_append, List.mem_append, not_or] at hbefore hafter
    exact ⟨(hfront.continues.links hbefore.1).trans hunlinked, hbefore.2, hafter.1,
      hkept.trans (hback.continues.links hafter.2)⟩

namespace DeclRun

variable {info : Info} {sources : List PackageSource} {top : TopDecl} {resolver resolver' : Resolver}
  {before after : List Event} {event : Event} {ident : Ident}

/-- The object of an identifier is the one of its referent. -/
theorem objectId? (h : DeclRun info sources top resolver resolver')
    (hevents : eventsOfDecl top.decl = before ++ event :: after) (hident : event.ident? = some ident)
    (hblank : ident.isBlank = false) (hapart : Apart info sources ident) :
    (info.check sources).objectId? ident =
      resolver.number? ((scopesBehind before).referent event ident.name) := by
  obtain ⟨hunlinked, hbefore, hafter, hkept⟩ := h.linked hevents hident hapart
  have hlinks := Resolver.Runs.links (hevents ▸ h.runs) h.scopes hident hblank hapart.numbered
    hunlinked hbefore hafter
  rw [hkept, hlinks, Scopes.referent]
  cases (scopesBehind before).target? event <;> rfl

/-- Objects that are known in front of the declaration are known when all is resolved. -/
theorem grows_front (h : DeclRun info sources top resolver resolver') :
    resolver.info.Grows (info.check sources) :=
  h.runs.continues.grows.trans h.grows

theorem outside? (h : DeclRun info sources top resolver resolver') (name : String) :
    (resolver.outside? name).bind (info.check sources).thing? =
      (info.check sources).outside? top.path top.imports name := by
  have henters := h.enters name
  unfold Resolver.outside? Info.outside?
  cases hspec : (info.check sources).importSpec? top.imports name with
  | none =>
      rw [hspec] at henters
      rw [henters, Option.none_or, h.package, ← h.grows_front.packages, ← h.grows_front.predeclared]
      rfl
  | some spec =>
      rw [hspec] at henters
      obtain ⟨id, type, hid, hobject⟩ := henters
      rw [h.package] at hobject
      rw [hid, Option.some_or, Option.bind_some]
      exact h.grows_front.thing? (Info.thing?_of_objects hobject)

/-- An identifier has an object of its name, if it has one. -/
theorem names (h : DeclRun info sources top resolver resolver')
    (hevents : eventsOfDecl top.decl = before ++ event :: after) (hident : event.ident? = some ident)
    (hapart : Apart info sources ident) {id : Nat}
    (hlink : (info.check sources).objectId? ident = some id) :
    resolver'.info.Names id ident.name := by
  obtain ⟨hunlinked, hbefore, hafter, hkept⟩ := h.linked hevents hident hapart
  exact h.named.names (hevents ▸ h.runs) hident hapart.numbered hunlinked hbefore hafter
    (hkept.symm.trans hlink)

/-- What an identifier stands for when packages have been resolved, is what its referent is. -/
theorem thing? (h : DeclRun info sources top resolver resolver')
    (hevents : eventsOfDecl top.decl = before ++ event :: after) (hident : event.ident? = some ident)
    (hblank : ident.isBlank = false) (hapart : Apart info sources ident) :
    ((info.check sources).objectId? ident).bind (info.check sources).thing? =
      (info.check sources).meaning? top ((scopesBehind before).referent event ident.name) := by
  have hlink := h.objectId? hevents hident hblank hapart
  cases hreferent : (scopesBehind before).referent event ident.name with
  | outside name =>
      rw [hreferent] at hlink
      rw [hlink]
      exact h.outside? name
  | inside n =>
      rw [hreferent] at hlink
      obtain ⟨object, hobject, -⟩ := h.names hevents hident hapart hlink
      have hfollows := Resolver.Follows.behind h.scopes h.runs
      obtain ⟨hbound, -⟩ := Array.getElem?_eq_some_iff.1 hobject
      rw [hfollows.size] at hbound
      have hdeclared := List.getElem?_eq_getElem (Nat.lt_of_add_lt_add_left hbound)
      obtain ⟨type, hmade⟩ := hfollows.made hdeclared
      rw [h.runs.continues.package, h.package] at hmade
      rw [hlink, Info.meaning?, hdeclared]
      exact h.grows.thing? (Info.thing?_of_objects hmade)

/-- Referents have their objects for themselves. -/
theorem number?_inj (h : DeclRun info sources top resolver resolver') {first second : Referent}
    (heq : resolver.number? first = resolver.number? second)
    (hsome : (resolver.number? first).isSome) : first = second := by
  have hbound : ∀ {name : String} {id : Nat}, resolver.outside? name = some id →
      id < resolver.info.objects.size := fun hid =>
    have ⟨_, hobject, _⟩ := h.named.outside? hid
    (Array.getElem?_eq_some_iff.1 hobject).1
  obtain ⟨id, hid⟩ := Option.isSome_iff_exists.1 hsome
  have hid' := heq.symm.trans hid
  cases first with
  | inside n =>
      obtain rfl := Option.some.inj hid
      cases second with
      | inside m => exact congrArg _ (Nat.add_left_cancel (Option.some.inj hid')).symm
      | outside name => exact absurd (hbound hid') (by omega)
  | outside name =>
      cases second with
      | inside m =>
          obtain rfl := Option.some.inj hid'
          exact absurd (hbound hid) (by omega)
      | outside other => exact congrArg _ ((h.named.outside? hid).unique (h.named.outside? hid'))

end DeclRun

end TraceWeave.Types
