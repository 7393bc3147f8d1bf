import TraceWeave.Proofs.Program.Facts
import TraceWeave.Proofs.Program.Origin

/-!
Discovery.

The facts about an application depend on the sets of its streams and services alone, not on
the order of its files, and each service that is a stream as well is reported once
(`discover_classifies`).  Nothing but such conflicts and a missing entry function makes
discovery fail.
-/

namespace TraceWeave.Program

open TraceWeave.Detect TraceWeave.Order TraceWeave.Syntax TraceWeave.Types

/-! ## Entry functions -/

/-- A key of the package's table, or of a function of its files. -/
def Package.Declares (package : Package) (key : String) : Prop :=
  package.funcs.contains key = true ∨
    ∃ file ∈ package.files, ∃ func ∈ file.tree.funcs, func.key = key

/-- Some program among the packages declares an entry function. -/
def Application.HasMain (app : Application) : Prop :=
  ∃ package ∈ app.packages.values,
    package.test = false ∧ package.name = "main" ∧ package.Declares "main"

theorem Package.mem_declPlaces {package : Package} {place : Nat × Nat} :
    place ∈ package.declPlaces ↔
      ∃ file, package.files[place.1]? = some file ∧ place.2 < file.tree.decls.length := by
  obtain ⟨index, decl⟩ := place
  simp only [declPlaces, List.mem_flatMap, List.mem_map, List.mem_range, Prod.mk.injEq]
  constructor
  · rintro ⟨⟨file, index'⟩, hfile, decl', hdecl, rfl, rfl⟩
    exact ⟨file, List.mem_zipIdx_iff_getElem?.1 hfile, hdecl⟩
  · rintro ⟨file, hfile, hdecl⟩
    exact ⟨(file, index), List.mem_zipIdx_iff_getElem?.2 hfile, decl, hdecl, rfl, rfl⟩

/-- The places of a package lead to the functions of its files. -/
theorem Package.exists_place_iff (package : Package) (P : FuncDecl → Prop) :
    (∃ place ∈ package.declPlaces, ∃ func, package.declAt? place.1 place.2 = some func ∧ P func) ↔
      ∃ file ∈ package.files, ∃ func ∈ file.tree.funcs, P func := by
  constructor
  · rintro ⟨place, hplace, func, hfunc, h⟩
    obtain ⟨file, hfile, -⟩ := mem_declPlaces.1 hplace
    simp only [declAt?, hfile, Option.bind_some, Option.bind_eq_some_iff] at hfunc
    obtain ⟨decl, hdecl, hfunc⟩ := hfunc
    exact ⟨file, List.mem_of_getElem? hfile, func,
      List.mem_filterMap.2 ⟨decl, List.mem_of_getElem? hdecl, hfunc⟩, h⟩
  · rintro ⟨file, hfile, func, hfunc, h⟩
    obtain ⟨index, hindex⟩ := List.getElem?_of_mem hfile
    obtain ⟨decl, hdecl, hkind⟩ := List.mem_filterMap.1 hfunc
    obtain ⟨place, hplace⟩ := List.getElem?_of_mem hdecl
    refine ⟨(index, place), mem_declPlaces.2 ⟨file, hindex, ?_⟩, func, ?_, h⟩
    · exact (List.getElem?_eq_some_iff.1 hplace).1
    · simp [declAt?, hindex, hplace, hkind]

theorem Package.contains_register (package : Package) {key : String} (hkey : isUnlisted key = false)
    (place : Nat × Nat) :
    (package.register place.1 place.2).funcs.contains key = true ↔
      package.funcs.contains key = true ∨
        ∃ func, package.declAt? place.1 place.2 = some func ∧ func.key = key := by
  unfold register
  split
  · next hnone => simp [hnone]
  · next func hfunc =>
    split
    · next hunlisted =>
      have hne : func.key ≠ key := by
        rintro rfl
        simp [hkey] at hunlisted
      simp [hfunc, hne]
    · simp only [Table.contains, Table.get?_insert, hfunc, Option.some.injEq, exists_eq_left']
      by_cases heq : key = func.key
      · simp [heq]
      · simp [heq, Ne.symm heq]

theorem Package.contains_registerAll {key : String} (hkey : isUnlisted key = false)
    (package : Package) :
    package.registerAll.funcs.contains key = true ↔ package.Declares key := by
  have hplaces : ∀ (places : List (Nat × Nat)) (funcs : Table String FuncEntry),
      (places.foldl (fun (package : Package) place => package.register place.1 place.2)
        { package with funcs }).funcs.contains key = true ↔
      funcs.contains key = true ∨
        ∃ place ∈ places, ∃ func, package.declAt? place.1 place.2 = some func ∧ func.key = key := by
    intro places
    induction places with
    | nil => simp
    | cons place places ih =>
        intro funcs
        obtain ⟨funcs', hfuncs'⟩ : ∃ funcs',
            Package.register { package with funcs } place.1 place.2 =
              { package with funcs := funcs' } := by
          unfold register
          split
          · exact ⟨_, rfl⟩
          · split <;> exact ⟨_, rfl⟩
        have hfirst := contains_register { package with funcs } hkey place
        rw [hfuncs'] at hfirst
        rw [List.foldl_cons, hfuncs', ih funcs', hfirst, List.exists_mem_cons_iff, or_assoc]
        rfl
  rw [Declares, ← package.exists_place_iff]
  exact hplaces package.declPlaces package.funcs

/-! ## Streams and services -/

/-- The server streams that the files declare, in the order of packages and files. -/
def Application.streamNames (app : Application) : List String :=
  app.packages.values.flatMap fun package =>
    package.files.flatMap fun file => declaredStreams app.types package.path file.tree

/-- The types that the files register as services, once for each registration. -/
def Application.serviceNames (app : Application) : List String :=
  app.packages.values.flatMap fun package =>
    package.files.flatMap fun file => registeredServices app.types file.tree

/-- The services that are streams as well, once for each registration. -/
def Application.conflicts (app : Application) : List FactError :=
  (app.serviceNames.filter (· ∈ app.streamNames)).map fun name =>
    .duplicate name (some .serverStream) (some .serverHandler)

/-- What the streams and services of an application make of a name. -/
def Application.classified (app : Application) (name : String) : Option Fact :=
  if name ∈ app.streamNames then some .serverStream
  else if name ∈ app.serviceNames then some .serverHandler
  else none

theorem append_dot_ne_empty (front back : String) : front ++ "." ++ back ≠ "" := by
  intro h
  have := congrArg String.length h
  simp [String.length_append] at this

theorem streamNames_ne_empty (app : Application) : ∀ name ∈ app.streamNames, name ≠ "" := by
  intro name hname
  obtain ⟨package, -, hname⟩ := List.mem_flatMap.1 hname
  obtain ⟨file, -, hname⟩ := List.mem_flatMap.1 hname
  obtain ⟨decl, -, hname⟩ := List.mem_flatMap.1 hname
  split at hname
  · obtain ⟨spec, -, hspec⟩ := List.mem_filterMap.1 hname
    split at hspec
    · split at hspec
      · obtain rfl := Option.some.inj hspec
        exact append_dot_ne_empty _ _
      · contradiction
    · contradiction
  · contradiction

theorem serviceNames_ne_empty (app : Application) : ∀ name ∈ app.serviceNames, name ≠ "" := by
  intro name hname
  obtain ⟨package, -, hname⟩ := List.mem_flatMap.1 hname
  obtain ⟨file, -, hname⟩ := List.mem_flatMap.1 hname
  obtain ⟨call, -, hcall⟩ := List.mem_filterMap.1 hname
  split at hcall
  · obtain ⟨type, -, htype⟩ := Option.bind_eq_some_iff.1 hcall
    obtain ⟨⟨package, type⟩, -, htype⟩ := Option.bind_eq_some_iff.1 htype
    dsimp only at htype
    split at htype
    · contradiction
    · obtain rfl := Option.some.inj htype
      exact append_dot_ne_empty _ _
  · contradiction

theorem discoverFacts_eq (app : Application) :
    discoverFacts app = app.serviceNames.foldl (Facts.record .serverHandler)
      (app.streamNames.foldl (Facts.record .serverStream) (app.facts, [])) := rfl

theorem discoverFacts_exact {app : Application} (hfacts : app.facts = {}) :
    (∀ name, (discoverFacts app).1.get? name = app.classified name) ∧
      (discoverFacts app).2 = app.conflicts := by
  have hstreams := streamNames_ne_empty app
  rw [discoverFacts_eq, hfacts]
  generalize hround : app.streamNames.foldl (Facts.record .serverStream) ({}, []) = round
  have hget : ∀ name, round.1.get? name =
      if name ∈ app.streamNames then some .serverStream else none := by
    intro name
    rw [← hround, Facts.get?_recordAll _ _ _ hstreams]
    rfl
  -- streams alone are never in conflict
  have herrors : round.2 = [] := by
    rw [← hround, Facts.errors_recordAll _ _ _ hstreams]
    simp [Facts.get?_empty]
  obtain ⟨facts, errors⟩ := round
  obtain rfl : errors = [] := herrors
  constructor
  · intro name
    rw [Facts.get?_recordAll _ _ _ (serviceNames_ne_empty app), hget, Application.classified]
    split <;> rfl
  · rw [Facts.errors_recordAll _ _ _ (serviceNames_ne_empty app), List.nil_append,
      Application.conflicts]
    have hsame : (app.serviceNames.filter fun name =>
        (facts.get? name).any (· != .serverHandler)) =
        app.serviceNames.filter (· ∈ app.streamNames) := by
      refine List.filter_congr fun name _ => ?_
      rw [hget]
      by_cases hname : name ∈ app.streamNames <;> simp [hname]
    rw [hsame]
    refine List.map_congr_left fun name hname => ?_
    have hstream : name ∈ app.streamNames := by simpa using (List.mem_filter.1 hname).2
    rw [hget, if_pos hstream]

/-! ## Preparation -/

theorem flatMap_registerFunctions {α : Type} (app : Application) (f : Package → List α)
    (hf : ∀ package funcs, f { package with funcs } = f package) :
    app.registerFunctions.packages.values.flatMap f = app.packages.values.flatMap f := by
  have hvalues : app.registerFunctions.packages.values =
      app.packages.values.map Package.registerAll := by
    simp [Application.registerFunctions, Table.map, Table.values]
  rw [hvalues, List.flatMap_map]
  refine List.flatMap_congr fun package _ => ?_
  obtain ⟨funcs, hfuncs⟩ := package.registerAll_eq
  rw [hfuncs, hf]

theorem hasEntryPoint_prepared (app : Application) :
    hasEntryPoint app.registerFunctions.pinGeneratedCallees = true ↔ app.HasMain := by
  have hvalues : app.registerFunctions.pinGeneratedCallees.packages.values =
      app.packages.values.map Package.registerAll := by
    simp [Application.pinGeneratedCallees, Application.registerFunctions, Table.map, Table.values]
  simp only [hasEntryPoint, hvalues, List.any_map, List.any_eq_true, Function.comp_apply,
    Bool.and_eq_true, Bool.not_eq_true', beq_iff_eq, Application.HasMain]
  refine exists_congr fun package => and_congr_right fun _ => ?_
  rw [Package.contains_registerAll (by decide)]
  obtain ⟨funcs, hfuncs⟩ := package.registerAll_eq
  rw [hfuncs, and_assoc]

/-- The function tables have no part in the facts. -/
theorem discoverFacts_prepared (app : Application) :
    discoverFacts app.registerFunctions.pinGeneratedCallees = discoverFacts app := by
  rw [discoverFacts_eq, discoverFacts_eq]
  have hstreams : app.registerFunctions.pinGeneratedCallees.streamNames = app.streamNames :=
    flatMap_registerFunctions app _ fun _ _ => rfl
  have hservices : app.registerFunctions.pinGeneratedCallees.serviceNames = app.serviceNames :=
    flatMap_registerFunctions app _ fun _ _ => rfl
  rw [hstreams, hservices]
  rfl

/-! ## Discovery -/

/-- Why discovery fails: conflicts first, then a missing entry function. -/
inductive Discovered (app : Application) : Option Failure → Prop where
  | passed : app.conflicts = [] → app.HasMain → Discovered app none
  | conflicting : app.conflicts ≠ [] → app.HasMain →
      Discovered app (some (.facts app.conflicts))
  | mainless : app.conflicts = [] → ¬ app.HasMain → Discovered app (some .noEntryPoint)
  | both : app.conflicts ≠ [] → ¬ app.HasMain →
      Discovered app (some (.combined [.facts app.conflicts, .noEntryPoint]))

theorem discover_discovered {app : Application} (hfacts : app.facts = {}) :
    Discovered app (discover app).2 := by
  have hconflicts := (discoverFacts_exact hfacts).2
  have hfailure : (discover app).2 = Failure.combine?
      ((if app.conflicts.isEmpty then [] else [.facts app.conflicts]) ++
        if hasEntryPoint app.registerFunctions.pinGeneratedCallees then [] else [.noEntryPoint]) := by
    rw [← hconflicts, ← discoverFacts_prepared]
    rfl
  rw [hfailure]
  by_cases hempty : app.conflicts = [] <;>
    by_cases hmain : hasEntryPoint app.registerFunctions.pinGeneratedCallees = true
  · simpa [hempty, hmain, Failure.combine?] using
      Discovered.passed hempty ((hasEntryPoint_prepared app).1 hmain)
  · simpa [hempty, hmain, Failure.combine?] using
      Discovered.mainless hempty (mt (hasEntryPoint_prepared app).2 hmain)
  · simpa [hempty, hmain, Failure.combine?] using
      Discovered.conflicting hempty ((hasEntryPoint_prepared app).1 hmain)
  · simpa [hempty, hmain, Failure.combine?] using
      Discovered.both hempty (mt (hasEntryPoint_prepared app).2 hmain)

/--
Discovery classifies each name by the sets of streams and services, reports a service that is a
stream once for each registration, and fails for conflicts and for want of an entry function
alone.  Whatever is added to empty facts, the first addition of a name stays.
-/
theorem discover_classifies :
    (∀ app : Application, app.facts = {} →
      (∀ name, (discoverFacts app).1.get? name = app.classified name) ∧
      (discoverFacts app).2 = app.conflicts ∧
      (∀ name, (discover app).1.facts.get? name = app.classified name) ∧
      Discovered app (discover app).2) ∧
    ∀ entries, Facts.FirstStays entries := by
  refine ⟨fun app hfacts => ?_, Facts.firstStays⟩
  obtain ⟨hget, hconflicts⟩ := discoverFacts_exact hfacts
  refine ⟨hget, hconflicts, fun name => ?_, discover_discovered hfacts⟩
  have hfound : (discover app).1.facts = (discoverFacts app).1 := by
    rw [← discoverFacts_prepared]
    rfl
  rw [hfound, hget]

/-! ## A service that is a stream -/

def feedCall : Call :=
  { callee := .ident "RegisterFeedServer"
    args := [.nil, { kind := .ident { name := "feed", id := 2 } }] }

/-- `RegisterFeedServer(nil, feed)`, where the type of `feed` is another name of a stream. -/
def feedFile : SourceFile where
  path := { parts := ["feed.go"] }
  contents := ""
  baseline := ""
  tree :=
    { package := "app", packageDecs := {}, trailing := []
      decls := [
        { kind := .gen ⟨"", [.type "feed" true (.other
            { kind := .selector { kind := .ident { name := "grpc", id := 1 } }
                { name := "ServerStream" } })]⟩, decs := .ownLine },
        { kind := .func ⟨none, { name := "serve" }, none, {}, none, some { stmts := [.expr
            { kind := .call feedCall }] }⟩, decs := .ownLine }] }
  generated := false

def feedApp : Application where
  packages := ⟨[("app",
    { id := "app", path := "app", name := "app", dir := .here, files := [feedFile], test := false })]⟩
  types :=
    { objects := #[
        { kind := .package, name := "grpc", package := "app", type := none
          imported := some Agent.Path.grpc },
        { kind := .variable, name := "feed", package := "app", type := some (.named "app" "feed") }]
      uses := (({} : Std.HashMap Nat Nat).insert 1 0).insert 2 1 }
  agent := "agent"
  appName := ""

theorem discover_classifies_feedApp :
    feedApp.facts = {} ∧
      feedApp.conflicts =
        [.duplicate "app.feed" (some .serverStream) (some .serverHandler)] ∧
      (discoverFacts feedApp).2 = feedApp.conflicts ∧
      Discovered feedApp (discover feedApp).2 := by
  have hexact := discover_classifies.1 feedApp rfl
  refine ⟨rfl, ?_, hexact.2.1, hexact.2.2.2⟩
  have hstreams : feedApp.streamNames = ["app.feed"] := by
    simp [Application.streamNames, Table.values, feedApp, feedFile, declaredStreams, declaresStream,
      Info.typeExpr?, Info.importedPath?, Info.object?, Info.objectId?, Info.member?, isGenericStream,
      Expr.ident?, Ty.name?, Std.HashMap.getElem?_insert, genericStreams]
  have hregisters : isServiceRegistration feedCall = true := by decide +kernel
  have htype : feedApp.types.typeOf? { kind := .ident { name := "feed", id := 2 } } =
      some (.named "app" "feed") := by
    simp [Info.typeOf?, Info.object?, Info.objectId?, feedApp]
  have hservices : feedApp.serviceNames = ["app.feed"] := by
    have hcalls : feedFile.tree.funcs.flatMap Application.callsOf = [feedCall] := rfl
    have hfile : registeredServices feedApp.types feedFile.tree = ["app.feed"] := by
      rw [registeredServices, hcalls, List.filterMap_cons, if_pos hregisters]
      simp [feedCall, htype, factName?, Ty.deref, Ty.name?]
    change [feedFile].flatMap _ ++ [] = _
    simp [hfile]
  simp [Application.conflicts, hstreams, hservices]

end TraceWeave.Program
