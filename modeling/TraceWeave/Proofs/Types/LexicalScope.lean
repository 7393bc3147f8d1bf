import TraceWeave.Proofs.Types.Coverage
import TraceWeave.Proofs.Types.FileRuns

/-!
Lexical scoping of resolved packages.

When packages have been resolved, every occurrence in the body of a function stands for the
declaration that can be seen where it stands, and where there is none, for an import of its
file, a member of its package or a predeclared name (`check_linksLexically`).
-/

namespace TraceWeave.Types

open TraceWeave.Syntax

/-! ## What names stand for -/

/-- The objects that the names in a file stand for. -/
structure Naming (info : Info) (path : String) (file : File) where
  /-- The objects of the declarations in bodies, by their numbers. -/
  object : Nat → Nat
  /-- The objects of imports. -/
  importId? : String → Option Nat
  injective {m n : Nat} : object m = object n → m = n
  made {n : Nat} {kind : ObjectKind} {name : String} :
    (scopesBehind (eventsOfFile file)).declared[n]? = some (kind, name) →
      ∃ type, info.objects[object n]? = some { kind, name, package := path, type }
  imported {name : String} {spec : ImportSpec} : info.importSpec? file.imports name = some spec →
    ∃ id type, importId? name = some id ∧
      info.objects[id]? =
        some { kind := .package, name, package := path, type, imported := some spec.path }
  notImported {name : String} : info.importSpec? file.imports name = none → importId? name = none

/--
What the identifier of an event stands for: the declaration that can be seen behind the events
in front of it, else an import of the file, a member of the package or a predeclared name.
-/
def Naming.standsFor? {info : Info} {path : String} {file : File} (naming : Naming info path file)
    (before : List Event) (event : Event) (name : String) : Option Nat :=
  (((scopesBehind before).target? event).map naming.object).or
    ((naming.importId? name).or
      (((info.packages.get? path).bind (·.members.get? name)).or (info.predeclared.get? name)))

/-- The objects that resolving a file makes, as they are kept in what is known later. -/
def FileRun.naming {info known : Info} {sources : List PackageSource} {path : String} {file : File}
    (h : FileRun info sources path file known) : Naming (info.check sources) path file where
  object n := (Resolver.forFile known path file).info.objects.size + n
  importId? := (Resolver.forFile known path file).imports.get?
  injective := Nat.add_left_cancel
  made hdeclared := by
    obtain ⟨type, hobject⟩ := (Resolver.Follows.behind h.opens.scopes h.runs).made hdeclared
    obtain ⟨type', htyped⟩ := h.grows.objects hobject
    rw [h.runs.continues.package, h.opens.package] at htyped
    exact ⟨type', htyped⟩
  imported {name spec} hspec := by
    rw [Info.importSpec?_of_packages h.packages] at hspec
    have henters := h.opens.enters name
    rw [hspec] at henters
    obtain ⟨id, type, hid, hobject⟩ := henters
    obtain ⟨type', htyped⟩ := (h.runs.continues.grows.trans h.grows).objects hobject
    rw [h.opens.package] at htyped
    exact ⟨id, type', hid, htyped⟩
  notImported {name} hnone := by
    rw [Info.importSpec?_of_packages h.packages] at hnone
    have henters := h.opens.enters name
    rwa [hnone] at henters

/--
Resolution follows the scopes of the source: an occurrence is linked to the declaration that can
be seen in front of it, or else to what its name is outside of functions.  All identifiers that
stand as expressions in bodies are such occurrences.  Whatever statement is resolved, as many
blocks are open behind it as in front of it.
-/
theorem check_linksLexically (info : Info) {sources : List PackageSource} {source : PackageSource}
    {file : File} (hsource : source ∈ sources) (hfile : file ∈ source.files) :
    (∃ naming : Naming (info.check sources) source.path file,
      ∀ {before after : List Event} {event : Event} {ident : Ident},
        eventsOfFile file = before ++ event :: after → event.ident? = some ident →
        ident.isBlank = false → Apart info sources ident →
        (info.check sources).objectId? ident = naming.standsFor? before event ident.name) ∧
    (∀ decl ∈ file.decls, Covered (occurrencesOfDecl decl) (eventsOfFile file)) ∧
    ∀ (stmt : Stmt) (resolver : Resolver),
      (Resolver.resolveStmt stmt resolver).2.scopes.length = resolver.scopes.length := by
  refine ⟨?_, fun decl => covered_file, fun stmt resolver =>
    ((Resolver.traces_resolveStmt stmt resolver).level (balanced_eventsOfStmt stmt)).1⟩
  obtain ⟨known, hrun⟩ := exists_fileRun info hsource hfile
  refine ⟨hrun.naming, fun {before after event ident} hevents hident hblank hapart => ?_⟩
  have hgrows := hrun.runs.continues.grows.trans hrun.grows
  rw [hrun.links hevents hident hblank hapart, Resolver.outside?, Naming.standsFor?, hgrows.packages,
    hgrows.predeclared, hrun.opens.package]
  rfl

/-- Uses of a parameter `n` around a block that defines another `n` from it. -/
def shadowingBody : Block where
  stmts := [
    { kind := .cond none { kind := .ident { name := "n", id := 3 } }
        { stmts := [
          { kind := .assign [{ kind := .ident { name := "n", id := 4 } }] .define
              [{ kind := .ident { name := "n", id := 5 } }] },
          { kind := .expr { kind := .ident { name := "n", id := 6 } } }] } none },
    { kind := .expr { kind := .ident { name := "n", id := 7 } } }]

def shadowingFile : File where
  package := "p"
  packageDecs := {}
  decls := [
    { kind := .func
        { receiver := none, name := { name := "f", id := 1 }, typeParams := none
          params := { fields := [
            { names := [{ name := "n", id := 2 }], type := { kind := .verbatim "int" } }] }
          results := none, body := some shadowingBody }
      decs := {} }]
  trailing := []

def shadowingSource : PackageSource where
  path := "p"
  name := "p"
  files := [shadowingFile]

/-- Behind the inner definition `n` is the inner one, and the parameter behind its block. -/
theorem check_linksLexically_shadowingFile :
    ∃ naming : Naming (Info.check {} [shadowingSource]) "p" shadowingFile,
      (Info.check {} [shadowingSource]).objectId? { name := "n", id := 5 } =
        some (naming.object 0) ∧
      (Info.check {} [shadowingSource]).objectId? { name := "n", id := 6 } =
        some (naming.object 1) ∧
      (Info.check {} [shadowingSource]).objectId? { name := "n", id := 7 } =
        some (naming.object 0) := by
  obtain ⟨⟨naming, hlinks⟩, -, -⟩ := check_linksLexically {} (List.mem_singleton_self shadowingSource)
    (List.mem_singleton_self shadowingFile)
  have hevents (position : Nat) (event : Event)
      (h : (eventsOfFile shadowingFile)[position]? = some event) :
      eventsOfFile shadowingFile = (eventsOfFile shadowingFile).take position ++
        event :: (eventsOfFile shadowingFile).drop (position + 1) := by
    obtain ⟨hbound, rfl⟩ := List.getElem?_eq_some_iff.1 h
    rw [List.getElem_cons_drop, List.take_append_drop]
  have hapart (id : Nat) (hid : id = 5 ∨ id = 6 ∨ id = 7) :
      Apart {} [shadowingSource] { name := "n", id } := by
    obtain rfl | rfl | rfl := hid <;>
      exact ⟨rfl, by simp [Info.objectId?], by decide, by decide⟩
  exact ⟨naming, hlinks (hevents 5 (.use { name := "n", id := 5 }) rfl) rfl rfl (hapart 5 (by decide)),
    hlinks (hevents 7 (.use { name := "n", id := 6 }) rfl) rfl rfl (hapart 6 (by decide)),
    hlinks (hevents 10 (.use { name := "n", id := 7 }) rfl) rfl rfl (hapart 7 (by decide))⟩

end TraceWeave.Types
