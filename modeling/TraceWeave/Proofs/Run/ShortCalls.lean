import TraceWeave.Proofs.Run.Filling
import TraceWeave.Proofs.Run.Values

/-!
The completion of calls, function by function.

`fixCallSites` completes the calls that are short for an extended function, counts them and
changes nothing else (`fixCallSites_fillsShort`).
-/

namespace TraceWeave.Program

open TraceWeave.Agent TraceWeave.Order TraceWeave.Syntax TraceWeave.Tracing TraceWeave.Types

/-! ## Short calls -/

namespace Application

/--
The extended function that a package path and a key lead to.  Of functions that go by the same,
the last one counts.
-/
def extendedFunc? (app : Application) (path key : String) : Option FuncDecl :=
  app.extended.reverse.findSome? fun ref =>
    (app.package? ref.package).bind fun package =>
      if path = package.path ∧ key = ref.key then package.func? ref.key else none

/-- The call lacks the last argument for an extended function, and nothing stands in for it. -/
structure ShortCall (app : Application) (call : Call) : Prop where
  notSpread : call.spread = false
  notSeveral : ∀ arg inner, call.args = [arg] → arg.call? = some inner →
    (app.types.resultsOf inner).length ≤ 1
  oneShort : ∃ callee func, app.types.callee? call = some callee ∧
    app.extendedFunc? callee.package (calleeKey callee) = some func ∧
    call.args.length + 1 = func.params.arity

theorem lookup_extendedArities (app : Application) (path key : String) :
    (extendedArities app).lookup (path, key) =
      (app.extendedFunc? path key).map (·.params.arity) := by
  unfold extendedArities extendedFunc?
  induction app.extended.reverse with
  | nil => rfl
  | cons ref refs ih =>
      rw [List.filterMap_cons, List.findSome?_cons]
      cases app.package? ref.package with
      | none => exact ih
      | some package =>
          simp only [Option.bind_some]
          cases hfunc : package.func? ref.key with
          | none => simpa using ih
          | some func =>
              rw [Option.map_some, List.lookup_cons]
              by_cases hsame : path = package.path ∧ key = ref.key
              · simp [hsame]
              · have hne : (path, key) ≠ (package.path, ref.key) := by simpa using hsame
                rw [beq_false_of_ne hne, if_neg hsame]
                exact ih

end Application

theorem spreadsResults_eq_false {info : Info} {call : Call} :
    spreadsResults info call = false ↔
      ∀ arg inner, call.args = [arg] → arg.call? = some inner →
        (info.resultsOf inner).length ≤ 1 := by
  unfold spreadsResults
  split
  · next arg hargs =>
    constructor
    · intro hfew arg' inner harg hinner
      obtain rfl : arg = arg' := by simpa [hargs] using harg
      simpa [hinner] using hfew
    · intro hfew
      cases hinner : arg.call? with
      | none => rfl
      | some inner => simpa using hfew arg inner hargs hinner
  · next hargs => exact iff_of_true rfl fun arg inner harg => absurd harg (hargs arg)

theorem lacksTransaction_iff {app : Application} {call : Call} :
    lacksTransaction app.types (extendedArities app) call = true ↔ app.ShortCall call := by
  unfold lacksTransaction
  simp only [Bool.and_eq_true, Bool.not_eq_true', spreadsResults_eq_false, Option.any_eq_true,
    Option.bind_eq_some_iff, Application.lookup_extendedArities, Option.map_eq_some_iff, beq_iff_eq]
  constructor
  · rintro ⟨⟨hspread, hseveral⟩, arity, ⟨callee, hcallee, func, hfunc, rfl⟩, hlength⟩
    exact ⟨hspread, hseveral, callee, func, hcallee, hfunc, hlength⟩
  · rintro ⟨hspread, hseveral, callee, func, hcallee, hfunc, hlength⟩
    exact ⟨⟨hspread, hseveral⟩, _, ⟨callee, hcallee, func, hfunc, rfl⟩, hlength⟩

instance (app : Application) (call : Call) : Decidable (app.ShortCall call) :=
  decidable_of_iff _ lacksTransaction_iff

/-! ## Bodies -/

/-- The calls that edits of the statements reach. -/
def reachedCalls (stmts : List Stmt) : List Call :=
  (callsOfStmts true stmts).filterMap fun (reached, call) => if reached then some call else none

/-- Changes the statements of a body. -/
def mapBody (f : List Stmt → List Stmt) (func : FuncDecl) : FuncDecl :=
  { func with body := func.body.map fun body => { body with stmts := f body.stmts } }

/-- Changes the bodies of a file, unless it was generated. -/
def SourceFile.mapBodies (f : List Stmt → List Stmt) (file : SourceFile) : SourceFile :=
  if file.generated then file
  else { file with tree := { file.tree with decls := file.tree.decls.map (Decl.mapFunc (mapBody f)) } }

def Package.mapBodies (f : List Stmt → List Stmt) (package : Package) : Package :=
  { package with files := package.files.map (·.mapBodies f) }

/-- Changes the bodies of all functions in files that may change. -/
def Application.mapBodies (f : List Stmt → List Stmt) (app : Application) : Application :=
  { app with packages := app.packages.map (·.mapBodies f) }

def callsOfDecl (decl : Decl) : List Call :=
  ((decl.func?.bind (·.body)).map fun body => reachedCalls body.stmts).getD []

def SourceFile.editedCalls (file : SourceFile) : List Call :=
  if file.generated then [] else file.tree.decls.flatMap callsOfDecl

def Package.editedCalls (package : Package) : List Call := package.files.flatMap (·.editedCalls)

/-- The calls that edits of these bodies reach, in order. -/
def Application.editedCalls (app : Application) : List Call :=
  app.packages.values.flatMap (·.editedCalls)

/-- What completing the short calls of an application makes of a body. -/
structure FillsShort (app : Application) (stmts stmts' : List Stmt) : Prop where
  /-- Nothing but arguments `nil` is added. -/
  steps : Relation.ReflTransGen AppendsNil stmts stmts'
  /-- Each short call gets one, and no other call does. -/
  calls : List.Forall₂ (Completed app.ShortCall) (callsOfStmts true stmts) (callsOfStmts true stmts')

/-! ## Runs that count -/

/-- A computation that changes each part of a list and counts has done so for the whole list. -/
theorem mapM_counts {α β : Type} {f : α → StateM Nat β} {g : α → β} {amount : α → Nat}
    (h : ∀ a count, f a count = (g a, count + amount a)) (list : List α) (count : Nat) :
    (list.mapM f) count = (list.map g, count + (list.map amount).sum) := by
  induction list generalizing count with
  | nil => rfl
  | cons a list ih =>
      have hcons : ((a :: list).mapM f) count =
          ((f a count).1 :: ((list.mapM f) (f a count).2).1, ((list.mapM f) (f a count).2).2) := by
        rw [List.mapM_cons]
        rfl
      rw [hcons, h, ih]
      simp [Nat.add_assoc]

theorem countP_reachedCalls (info : Info) (arities : List ((String × String) × Nat))
    (stmts : List Stmt) :
    (callsOfStmts true stmts).countP (isShort info arities) =
      (reachedCalls stmts).countP (lacksTransaction info arities) := by
  unfold reachedCalls
  induction callsOfStmts true stmts with
  | nil => rfl
  | cons entry entries ih =>
      obtain ⟨reached, call⟩ := entry
      cases reached <;> simp [isShort, ih, List.countP_cons]

theorem mem_reachedCalls {stmts : List Stmt} {call : Call} :
    call ∈ reachedCalls stmts ↔ (true, call) ∈ callsOfStmts true stmts := by
  simp [reachedCalls, List.mem_filterMap]

section

variable {info : Info} {arities : List ((String × String) × Nat)} (hskips : SkipsGenerated info)

include hskips

theorem fixDecl_eq (decl : Decl) (count : Nat) :
    fixDecl info arities decl count = (decl.mapFunc (mapBody (fillShort info arities)),
      count + (callsOfDecl decl).countP (lacksTransaction info arities)) := by
  match decl with
  | ⟨.func ⟨receiver, name, typeParams, params, results, some body⟩, decs⟩ =>
      simp only [fixDecl_body, editStmts_eq hskips, countP_reachedCalls]
      rfl
  | ⟨.func ⟨receiver, name, typeParams, params, results, none⟩, decs⟩ => rfl
  | ⟨.imports imports, decs⟩ => rfl
  | ⟨.gen group, decs⟩ => rfl
  | ⟨.verbatim text, decs⟩ => rfl

theorem fixFile_eq (file : SourceFile) (count : Nat) :
    fixFile info arities file count = (file.mapBodies (fillShort info arities),
      count + file.editedCalls.countP (lacksTransaction info arities)) := by
  unfold SourceFile.mapBodies SourceFile.editedCalls
  by_cases hgenerated : file.generated = true
  · simp only [fixFile, hgenerated, if_true]
    rfl
  · have hfix : fixFile info arities file count =
        ({ file with tree := { file.tree with
            decls := ((file.tree.decls.mapM (fixDecl info arities)) count).1 } },
          ((file.tree.decls.mapM (fixDecl info arities)) count).2) := by
      simp only [fixFile, hgenerated]
      rfl
    rw [hfix, mapM_counts (fixDecl_eq hskips), if_neg hgenerated, if_neg hgenerated,
      List.countP_flatMap]
    rfl

theorem fixPackage_eq (package : Package) (count : Nat) :
    fixPackage info arities package count = (package.mapBodies (fillShort info arities),
      count + package.editedCalls.countP (lacksTransaction info arities)) := by
  have hfix : fixPackage info arities package count =
      ({ package with files := ((package.files.mapM (fixFile info arities)) count).1 },
        ((package.files.mapM (fixFile info arities)) count).2) := rfl
  rw [hfix, mapM_counts (fixFile_eq hskips), Package.editedCalls, List.countP_flatMap]
  rfl

end

/-! ## The application -/

section

variable {app : Application} (hskips : SkipsGenerated app.types)

include hskips

theorem fixCallSites_eq_mapBodies :
    fixCallSites app = (app.mapBodies (fillShort app.types (extendedArities app)),
      app.editedCalls.countP (lacksTransaction app.types (extendedArities app))) := by
  have hentry : ∀ entry count, fixEntry app.types (extendedArities app) entry count =
      ((entry.1, entry.2.mapBodies (fillShort app.types (extendedArities app))), count +
        entry.2.editedCalls.countP (lacksTransaction app.types (extendedArities app))) := by
    intro entry count
    simp only [fixEntry, fixPackage_eq hskips]
  rw [fixCallSites_eq]
  simp only [mapM_counts hentry, Application.editedCalls, Table.values, List.flatMap_map,
    List.countP_flatMap, Nat.zero_add]
  rfl

theorem fillsShort_fillShort (stmts : List Stmt) :
    FillsShort app stmts (fillShort app.types (extendedArities app) stmts) where
  steps := editStmts_appendsNil app.types (extendedArities app) stmts 0
  calls := by
    have hcalls := @editStmts_completed _ (extendedArities app) hskips stmts 0
    have hshort : (fun call => lacksTransaction app.types (extendedArities app) call = true) =
        app.ShortCall := funext fun call => propext lacksTransaction_iff
    rwa [hshort] at hcalls

omit hskips in
/-- Calls of changed bodies. -/
theorem mem_editedCalls_mapBodies {f : List Stmt → List Stmt} {call : Call}
    (h : call ∈ (app.mapBodies f).editedCalls) : ∃ stmts, call ∈ reachedCalls (f stmts) := by
  obtain ⟨package', hpackage', h⟩ := List.mem_flatMap.1 h
  simp only [Application.mapBodies, Table.values, Table.map, List.map_map, List.mem_map] at hpackage'
  obtain ⟨⟨id, package⟩, -, rfl⟩ := hpackage'
  obtain ⟨file', hfile', h⟩ := List.mem_flatMap.1 h
  obtain ⟨file, -, rfl⟩ := List.mem_map.1 hfile'
  unfold SourceFile.editedCalls SourceFile.mapBodies at h
  cases hgenerated : file.generated with
  | true => simp [hgenerated] at h
  | false =>
      simp only [hgenerated, Bool.false_eq_true, if_false] at h
      obtain ⟨decl', hdecl', h⟩ := List.mem_flatMap.1 h
      obtain ⟨decl, -, rfl⟩ := List.mem_map.1 hdecl'
      unfold callsOfDecl at h
      rw [Decl.func?_mapFunc] at h
      rcases hfunc : decl.func? with _ | func
      · simp [hfunc] at h
      · rcases hbody : func.body with _ | body
        · simp [hfunc, mapBody, hbody] at h
        · exact ⟨body.stmts, by simpa [hfunc, mapBody, hbody] using h⟩

/--
Completing calls appends `nil` to just the short calls that edits reach in files that may change,
counts them and leaves none.
-/
theorem fixCallSites_fillsShort :
    ∃ fill : List Stmt → List Stmt, (∀ stmts, FillsShort app stmts (fill stmts)) ∧
      fixCallSites app = (app.mapBodies fill, app.editedCalls.countP (app.ShortCall ·)) ∧
      (∀ call ∈ (fixCallSites app).1.editedCalls, ¬ (fixCallSites app).1.ShortCall call) ∧
      fixCallSites (fixCallSites app).1 = ((fixCallSites app).1, 0) := by
  refine ⟨fillShort app.types (extendedArities app), fillsShort_fillShort hskips, ?_, ?_,
    fixCallSites_twice app⟩
  · rw [fixCallSites_eq_mapBodies hskips]
    congr 1
    refine List.countP_congr fun call _ => ?_
    rw [lacksTransaction_iff, decide_eq_true_iff]
  · intro call hmem hshort
    have hlacks := lacksTransaction_iff.2 hshort
    rw [extendedArities_fixCallSites, types_of_outline (outline_fixCallSites app)] at hlacks
    rw [fixCallSites_eq_mapBodies hskips] at hmem
    obtain ⟨stmts, hcall⟩ := mem_editedCalls_mapBodies hmem
    have hsated := sated_editStmts stmts 0 _ (mem_reachedCalls.1 hcall) rfl
    rw [hlacks] at hsated
    contradiction

end

/-! ## A call that is short -/

/-- A file whose second function has gained a parameter that the first one does not supply. -/
def shortFile : SourceFile :=
  { pairFile with tree := { pairFile.tree with
      decls := [plainFunc { name := "main", id := 1 } [.expr { kind := .call workCall }],
        (plainFunc { name := "work", id := 3 } []).mapFunc fun func =>
          { func with params := func.params.add (transactionParameter transactionVariable) }] } }

def shortApp : Application where
  packages := ⟨[("app",
    { id := "app", path := "app", name := "main", dir := .here, files := [shortFile]
      funcs := ⟨[("main", { file := 0, decl := 0 }),
        ("work", { file := 0, decl := 1, traced := true })]⟩
      test := false })]⟩
  types := pairOrigin.types
  extended := [⟨"app", "work"⟩]
  agent := "agent"
  appName := ""

theorem skipsGenerated_shortApp : SkipsGenerated shortApp.types := by
  intro ident hident
  have hid : ident.id = 0 := by simpa [Ident.isGenerated] using hident
  simp [Info.objectId?, shortApp, pairOrigin, hid]

theorem callee?_workCall : shortApp.types.callee? workCall =
    some { package := "app", name := "work", receiver := none, signature := none } := by
  simp [Info.callee?, Info.object?, Info.objectId?, shortApp, pairOrigin, workCall, Expr.unparen]

theorem shortCall_workCall : shortApp.ShortCall workCall where
  notSpread := rfl
  notSeveral _ _ hargs := nomatch hargs
  oneShort := ⟨_, _, callee?_workCall, rfl, rfl⟩

theorem fixCallSites_fillsShort_shortApp :
    SkipsGenerated shortApp.types ∧ (fixCallSites shortApp).2 = 1 ∧
      ∃ fill : List Stmt → List Stmt, (∀ stmts, FillsShort shortApp stmts (fill stmts)) ∧
        fixCallSites shortApp =
          (shortApp.mapBodies fill, shortApp.editedCalls.countP (shortApp.ShortCall ·)) ∧
        (∀ call ∈ (fixCallSites shortApp).1.editedCalls,
          ¬ (fixCallSites shortApp).1.ShortCall call) ∧
        fixCallSites (fixCallSites shortApp).1 = ((fixCallSites shortApp).1, 0) := by
  have hfills := fixCallSites_fillsShort skipsGenerated_shortApp
  refine ⟨skipsGenerated_shortApp, ?_, hfills⟩
  obtain ⟨fill, -, hrun, -⟩ := hfills
  have hcalls : shortApp.editedCalls = [workCall] := rfl
  rw [hrun, hcalls]
  simp [shortCall_workCall]

end TraceWeave.Program
