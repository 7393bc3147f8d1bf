import TraceWeave.Proofs.Run.CallSites
import TraceWeave.Proofs.Tracing.Extension
import TraceWeave.Proofs.Tracing.Values

/-!
Functions that are used as values, across a whole run.

Whether a function gains a parameter is decided on a call of it; that it is used as a value
elsewhere is not looked for (`extended_storedWork`).  A run makes no further use of that kind,
and takes none away.
-/

namespace TraceWeave.Tracing

open TraceWeave.Agent TraceWeave.Detect TraceWeave.Order TraceWeave.Program TraceWeave.Source
  TraceWeave.Syntax TraceWeave.Types

/-! ## Loaded applications -/

/-- Names are resolved so that generated identifiers stand for nothing. -/
theorem skipsGenerated_load {disk : Node} {options : Options} {workspace : Workspace}
    (h : Workspace.load disk options = .ok workspace) : SkipsGenerated workspace.app.types := by
  simp only [Workspace.load, bind, Except.bind, pure, Except.pure] at h
  split at h
  · contradiction
  · next loaded hloaded =>
    obtain ⟨-, -, -, htypes⟩ := load_files hloaded
    rw [← Except.ok.inj h]
    show SkipsGenerated loaded.types
    rw [htypes]
    exact Info.skipsGenerated_check Info.skipsGenerated_known _

/-! ## Runs -/

/--
A run uses a function as a value where the application does, and nowhere else; the transport of an
HTTP client, which it installs, is no function of the application.
-/
theorem weave_keepsUses (origin : Origin) (hskips : SkipsGenerated origin.types) (place : Place) :
    Option.Rel
      (fun func func' => Option.Rel
        (fun body body' =>
          SameUses origin.types (occurrencesOfStmts body.stmts) (occurrencesOfStmts body'.stmts))
        func.body func'.body)
      (origin.app.funcAt? place) ((weave.run origin.app).2.funcAt? place) :=
  Turns.bodies (sameUses_withstands hskips) (fun _ => .refl) origin.coherent_app.placesDiffer rfl
    (run_turns origin) place

/-! ## A function that is called and stored -/

def storedWork : Expr := { kind := .ident { name := "work", id := 5 } }

/-- `work()`, `f := work` and `app, err := newrelic.NewApplication()` -/
def valueMain : Block where
  stmts :=
    [.expr { kind := .call workCall }, .define [.ident "f"] [storedWork],
      .define [.ident "app", .ident "err"] [.call (newrelic "NewApplication") []]]

def valueFile : SourceFile where
  path := { parts := ["main.go"] }
  contents := ""
  baseline := ""
  tree :=
    { package := "main", packageDecs := {}, trailing := []
      decls := [plainFunc { name := "main", id := 1 } valueMain.stmts,
        plainFunc { name := "work", id := 3 } []] }
  generated := false

/-- A program whose entry function calls another one, and stores it as well. -/
def valueOrigin : Origin where
  module := "app"
  root := .here
  groups := [(packageKey valueFile, [valueFile])]
  types :=
    { objects := #[{ kind := .func, name := "work", package := "app", type := none }]
      uses := (({} : Std.HashMap Nat Nat).insert 2 0).insert 5 0 }
  agent := "agent"
  appName := ""

theorem skipsGenerated_valueOrigin : SkipsGenerated valueOrigin.types := by
  intro ident hident
  have hid : ident.id = 0 := by simpa [Ident.isGenerated] using hident
  simp [Info.objectId?, valueOrigin, hid]

theorem weave_keepsUses_valueOrigin :
    SkipsGenerated valueOrigin.types ∧
      Option.Rel
        (fun func func' => Option.Rel
          (fun body body' => SameUses valueOrigin.types (occurrencesOfStmts body.stmts)
            (occurrencesOfStmts body'.stmts)) func.body func'.body)
        (valueOrigin.app.funcAt? ⟨"app", 0, 0⟩)
        ((weave.run valueOrigin.app).2.funcAt? ⟨"app", 0, 0⟩) :=
  ⟨skipsGenerated_valueOrigin,
    weave_keepsUses valueOrigin skipsGenerated_valueOrigin ⟨"app", 0, 0⟩⟩

theorem wouldExtend_work :
    WouldExtend valueOrigin.app workCall ⟨"app", "work"⟩
      ⟨none, { name := "work", id := 3 }, none, {}, none, some { stmts := [] }⟩ where
  resolve := by
    have hcallee : valueOrigin.app.types.callee? workCall =
        some { package := "app", name := "work", receiver := none, signature := none } := by
      show valueOrigin.types.callee? workCall = _
      simp [Info.callee?, Info.object?, Info.objectId?, valueOrigin, workCall, Expr.unparen,
        Std.HashMap.getElem_insert]
    rw [Application.resolve?, hcallee]
    rfl
  notMain := by decide
  mayInstrument := by rfl
  found := by rfl
  admits := ⟨by rfl, by rfl, by rfl⟩
  noTransaction := by rfl

/-- The stored function gains a parameter, and is stored behind the run as well. -/
theorem extended_storedWork :
    SkipsGenerated valueOrigin.types ∧ ⟨"app", "work"⟩ ∈ (weave.run valueOrigin.app).2.extended ∧
      ∃ body', ((weave.run valueOrigin.app).2.funcAt? ⟨"app", 0, 0⟩).bind (·.body) = some body' ∧
        .named ⟨"app", "work"⟩ ∈ usesIn valueOrigin.types (occurrencesOfStmts body'.stmts) := by
  have hextended : ⟨"app", "work"⟩ ∈ (weave.run valueOrigin.app).2.extended := by
    have hfirst : candidates valueOrigin.app = [⟨"app", "main"⟩, ⟨"app", "work"⟩] := by rfl
    have hentry : isEntryPoint valueOrigin.app ⟨"app", "main"⟩ = true := by rfl
    have hmain : valueOrigin.app.body? ⟨"app", "main"⟩ = some valueMain := by rfl
    have hagent : (existingAgent? valueMain.stmts).isSome = true := by rfl
    exact weave_extends valueOrigin.coherent_app valueOrigin.app_entered hfirst hentry hmain hagent
      rfl ⟨⟨_, rfl⟩, ⟨_, _, rfl⟩, rfl⟩ wouldExtend_work
  refine ⟨skipsGenerated_valueOrigin, hextended, ?_⟩
  have huse : .named ⟨"app", "work"⟩ ∈ usesIn valueOrigin.types (occurrencesOfStmts valueMain.stmts) := by
    refine List.mem_filterMap.2 ⟨(false, storedWork), ?_, ?_⟩
    · simp [occurrencesOfStmts, valueMain, storedWork, StmtKind.occurrences, occurrencesOfExprs,
        Expr.occurrences, ExprKind.occurrences, Stmt.expr, Stmt.define]
    · simp [valueUse?, Info.object?, Info.objectId?, valueOrigin, storedWork]
  have hbody : (valueOrigin.app.funcAt? ⟨"app", 0, 0⟩).bind (·.body) = some valueMain := rfl
  obtain ⟨body', hbody', hsame⟩ := (run_turns valueOrigin).holdsAt
    (sameUses_withstands skipsGenerated_valueOrigin valueMain) valueOrigin.coherent_app.placesDiffer
    rfl ⟨valueMain, hbody, .refl⟩
  exact ⟨body', hbody', (hsame _ rfl).2 huse⟩

end TraceWeave.Tracing
