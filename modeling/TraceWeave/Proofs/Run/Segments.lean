import TraceWeave.Proofs.Run.Transactions
import TraceWeave.Proofs.Tracing.SegmentWalk

/-!
The segments of the entry function.

Once the entry function has been traced, the segment of every request in it is ended behind
the request, and a transaction ends in between only if it has been started for that request
alone (`traceMain_closesSegments`).
-/

namespace TraceWeave.Tracing

open TraceWeave.Agent TraceWeave.Detect TraceWeave.Program TraceWeave.Source TraceWeave.Syntax
  TraceWeave.Types

theorem setUpAgent_startless (ref : FuncRef) {body : Block} (app : Application)
    (h : Holds startless (callsOfStmts true body.stmts)) :
    Weave.wp (setUpAgent ref body) (fun result app' =>
      StartlessStmts result.1.stmts ∧ app'.outline = app.outline) app := by
  apply (setUpAgent_setsUp ref body app).mono
  rintro ⟨_, agent⟩ app' ⟨⟨stmts, rfl, hsetsUp⟩, hweaves⟩
  exact ⟨holds_stmts.1 (hsetsUp.holds startless_admits h), (hweaves []).outline_eq⟩

theorem traceBody_closesSegments {body : Block} (h : StartlessStmts body.stmts) (depth : Nat)
    (package agent : String) (app : Application) :
    Trace.wp (traceBody (walkBlock depth) body) (fun body' _ _ =>
      ∀ list, ListIn list body'.stmts → SegmentsClose list)
      ((Frame.main package agent).declare agent) app := by
  rw [wp_traceBody]
  apply ((walkBlock_closesSegments depth body.stmts ((Frame.main package agent).declare agent) app h
    rfl).and (walkBlock_weaves depth body.stmts ((Frame.main package agent).declare agent) app)).mono
  rintro walked frame' app' ⟨⟨hlists, -⟩, -, hprecedes⟩
  -- the entry function has neither a binding nor a segment at its top
  have hsegment : frame'.segment = none := hprecedes.segment
  have hpending : frame'.pending = none := by
    obtain hpending | hpending := hprecedes.pending
    · exact hpending
    · exact hpending
  have hprologue : ∀ hasSegment, (frame'.prologue hasSegment).1 = [] := by
    intro hasSegment
    simp [Frame.prologue, Frame.opening?, hsegment, hpending]
  intro list hlist
  rw [hprologue] at hlist
  exact hlists list (by simpa using hlist)

variable {app : Application} {ref : FuncRef} {body : Block}

/--
No call of the entry function is a generated start, as in every file that has been read.
Then in every list of the traced body the request, the capture of its response and the end
of the segment stand right behind the start of a segment.  The end of a transaction comes in
between, right behind the request, exactly if a transaction has been started right in front
of the segment.
-/
theorem traceMain_closesSegments (hentry : isEntryPoint app ref = true)
    (hbody : app.body? ref = some body) (hstartless : Holds startless (callsOfStmts true body.stmts)) :
    Weave.wp (traceMain walkBlock ref) (fun found app' => found = true ∧
      ∃ body', app'.body? ref = some body' ∧
        ∀ list, ListIn list body'.stmts → SegmentsClose list) app :=
  wp_traceMain hentry hbody (setUpAgent_startless ref (opened app ref) hstartless)
    fun _ agent app' hprepared => traceBody_closesSegments hprepared app.depth ref.package agent app'

/-! ## A program that sends a request -/

def requestCall : Call := { callee := { kind := .ident { name := "request", id := 2 } }, args := [] }

/-- `http.DefaultClient.Do(request())` -/
def sendCall : Call where
  callee :=
    { kind := .selector
        { kind := .selector { kind := .ident { name := "http", id := 4 } } { name := "DefaultClient" } }
        { name := "Do" } }
  args := [{ kind := .call requestCall }]

def requestMain : Block where
  stmts := [.define [.ident "resp", .ident "err"] [{ kind := .call sendCall }]]

def requestFile : SourceFile where
  path := { parts := ["main.go"] }
  contents := ""
  baseline := ""
  tree :=
    { package := "main", packageDecs := {}, trailing := []
      decls := [plainFunc { name := "main", id := 1 } requestMain.stmts,
        plainFunc { name := "request", id := 3 } []] }
  generated := false

/-- A program that makes a request in the arguments of the call that sends it. -/
def requestOrigin : Origin where
  module := "app"
  root := .here
  groups := [(packageKey requestFile, [requestFile])]
  types :=
    { objects :=
        #[{ kind := .func, name := "request", package := "app", type := none },
          { kind := .package, name := "http", package := "", type := none
            imported := some "net/http" },
          { kind := .variable, name := "DefaultClient", package := "net/http"
            type := some (.pointer (.named "net/http" "Client")) }]
      uses := (({} : Std.HashMap Nat Nat).insert 2 0).insert 4 1
      packages := ({} : Std.HashMap String PackageInfo).insert "net/http"
        { name := "http", members := ({} : Std.HashMap String Nat).insert "DefaultClient" 2 } }
  agent := "agent"
  appName := ""

/-- The calls of `requestMain` are those of the program, and no generated starts. -/
theorem startless_requestMain : Holds startless (callsOfStmts true requestMain.stmts) := by
  intro entry hentry
  have hcalls : callsOfStmts true requestMain.stmts = [(true, sendCall), (true, requestCall)] := rfl
  rw [hcalls] at hentry
  simp only [List.mem_cons, List.not_mem_nil, or_false] at hentry
  obtain rfl | rfl := hentry
  · exact ⟨rfl, rfl⟩
  · exact ⟨rfl, rfl⟩

theorem traceMain_closesSegments_requestMain :
    isEntryPoint requestOrigin.app ⟨"app", "main"⟩ = true ∧
      requestOrigin.app.body? ⟨"app", "main"⟩ = some requestMain ∧
      Holds startless (callsOfStmts true requestMain.stmts) ∧
      Weave.wp (traceMain walkBlock ⟨"app", "main"⟩) (fun found app' => found = true ∧
        ∃ body', app'.body? ⟨"app", "main"⟩ = some body' ∧
          ∀ list, ListIn list body'.stmts → SegmentsClose list) requestOrigin.app := by
  have hentry : isEntryPoint requestOrigin.app ⟨"app", "main"⟩ = true := rfl
  have hbody : requestOrigin.app.body? ⟨"app", "main"⟩ = some requestMain := rfl
  exact ⟨hentry, hbody, startless_requestMain,
    traceMain_closesSegments hentry hbody startless_requestMain⟩

end TraceWeave.Tracing
