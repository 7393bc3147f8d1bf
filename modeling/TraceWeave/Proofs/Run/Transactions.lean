import TraceWeave.Proofs.Run.CallSites
import TraceWeave.Proofs.Syntax.Occurrences
import TraceWeave.Proofs.Tracing.EntryWalk

/-!
The transactions of the entry function.

Once the entry function has been traced, the starts and the ends of its transactions
alternate in every list of its body (`traceMain_alternates`).
-/

namespace TraceWeave.Tracing

open TraceWeave.Agent TraceWeave.Detect TraceWeave.Program TraceWeave.Syntax TraceWeave.Types

/-! ## Bodies without transactions -/

/-- No call has the name of a start, and the variable does not occur. -/
theorem calm_of_not_mentioned {kind : StmtKind}
    (hstarts : Holds (fun _ call => call.name? ≠ some "StartTransaction") (kind.calls true .full))
    (hmentions : transactionVariable ∉ mentioned kind.occurrences) : Calm kind := by
  refine ⟨fun entry hentry => ⟨hstarts entry hentry, fun _ hqualifier => ?_⟩,
    fun hmem => hmentions (kind.targets_mentioned hmem)⟩
  have hcallee : entry.2.callee.occurrences true ⊆ kind.occurrences :=
    kind.holds_callees true .full (List.Subset.refl _) entry hentry
  obtain ⟨ident, decs, member, decs', hselector, hname⟩ := callee_of_qualifier? hqualifier
  rw [hselector] at hcallee
  refine hmentions (mem_mentioned.2 ⟨(false, ⟨.ident ident, decs⟩), hcallee ?_, ident, rfl, hname⟩)
  exact List.mem_cons_of_mem _ (Expr.mem_occurrences_self ⟨.ident ident, decs⟩ false)

theorem calm_of_not_mentionedInStmts {stmts : List Stmt}
    (hstarts : Holds (fun _ call => call.name? ≠ some "StartTransaction") (callsOfStmts true stmts))
    (hmentions : transactionVariable ∉ mentioned (occurrencesOfStmts stmts)) :
    ∀ stmt ∈ stmts, Calm stmt.kind := by
  induction stmts with
  | nil => exact List.forall_mem_nil _
  | cons stmt stmts ih =>
      obtain ⟨kind, decs⟩ := stmt
      obtain ⟨hkind, hstmts⟩ := Holds.append.1 hstarts
      rw [occurrencesOfStmts, mentioned_append, List.mem_append, not_or] at hmentions
      exact List.forall_mem_cons.2
        ⟨calm_of_not_mentioned hkind hmentions.1, ih hstmts hmentions.2⟩

/-! ## The set-up of the agent -/

theorem calm_assignOnly {stmt : Stmt} (h : Calm stmt.kind) : Calm (assignOnly stmt).kind := by
  unfold assignOnly
  split
  · next left op right hkind =>
    rw [hkind] at h
    exact ⟨h.quiet, h.targets⟩
  · exact h

theorem calm_lowerRedeclarations (declared : List String) {stmts : List Stmt}
    (h : ∀ stmt ∈ stmts, Calm stmt.kind) :
    ∀ stmt ∈ lowerRedeclarations declared stmts, Calm stmt.kind := by
  induction stmts generalizing declared with
  | nil => exact h
  | cons stmt stmts ih =>
      obtain ⟨hstmt, hstmts⟩ := List.forall_mem_cons.1 h
      unfold lowerRedeclarations
      split
      · exact List.forall_mem_cons.2 ⟨hstmt, ih declared hstmts⟩
      · refine List.forall_mem_cons.2 ⟨?_, ih _ hstmts⟩
        split
        · exact calm_assignOnly hstmt
        · exact hstmt

theorem calm_agentInit {agent : String} (hagent : agent ≠ transactionVariable) (appName : String) :
    ∀ stmt ∈ agentInit agent appName, Calm stmt.kind := by
  intro stmt hstmt
  refine ⟨holds_stmts.1 (holds_agentInit_of_admits quiet_admits agent appName) stmt hstmt, ?_⟩
  simp only [agentInit, List.mem_cons, List.not_mem_nil, or_false] at hstmt
  rcases hstmt with rfl | rfl
  · intro hmem
    obtain ⟨expr, hexpr, ident, hident, hname⟩ := mem_namesOf.1 hmem
    rcases List.mem_cons.1 hexpr with rfl | hexpr
    · obtain rfl := Option.some.inj hident
      exact hagent hname
    · obtain rfl := List.mem_singleton.1 hexpr
      obtain rfl := Option.some.inj hident
      exact absurd hname (by decide)
  · decide

theorem calm_agentShutdown (agent : String) : Calm (agentShutdown agent).kind :=
  ⟨Expr.holds_named quiet_admits (by decide) .nil .nil, by simp [agentShutdown, StmtKind.targets]⟩

theorem existingAgent_ne {stmts : List Stmt} (h : ∀ stmt ∈ stmts, Calm stmt.kind) {agent : String}
    (hagent : existingAgent? stmts = some agent) : agent ≠ transactionVariable := by
  rintro rfl
  obtain ⟨stmt, hstmt, hbinding⟩ := List.exists_of_findSome?_eq_some hagent
  have htargets := (h stmt hstmt).targets
  unfold agentBinding? at hbinding
  split at hbinding
  · next target targets op value values hkind =>
    rw [hkind] at htargets
    split at hbinding
    · obtain ⟨ident, hident, hname⟩ := Option.map_eq_some_iff.1 hbinding
      exact htargets (mem_namesOf.2 ⟨target, List.mem_cons_self, ident, hident, hname⟩)
    · contradiction
  · contradiction

theorem setUpAgent_calm (ref : FuncRef) {body : Block} {app : Application}
    (hagent : app.agent ≠ transactionVariable) (h : ∀ stmt ∈ body.stmts, Calm stmt.kind) :
    Weave.wp (setUpAgent ref body) (fun result app' =>
      (∀ stmt ∈ result.1.stmts, Calm stmt.kind) ∧ result.2 ≠ transactionVariable ∧
        app'.outline = app.outline) app := by
  unfold setUpAgent
  split
  · next agent hexisting => exact ⟨h, existingAgent_ne h hexisting, rfl⟩
  · simp only [Weave.wp_bind, Weave.wp_get, Weave.wp_needImport, Weave.wp_pure]
    refine ⟨?_, hagent, ?_⟩
    · simp only [List.forall_mem_append, List.forall_mem_singleton]
      exact ⟨⟨calm_agentInit hagent app.appName, calm_lowerRedeclarations _ h⟩,
        calm_agentShutdown app.agent⟩
    · exact (Application.outline_needImport ..).trans (Application.outline_needImport ..)

/-! ## The entry function -/

theorem isSome_func?_of_outline {app app' : Application} (h : app'.outline = app.outline)
    (ref : FuncRef) : (app'.func? ref).isSome = (app.func? ref).isSome := by
  rw [Application.func?_eq, Application.func?_eq, place?_of_outline h]
  cases app.place? ref with
  | none => rfl
  | some place => exact isSome_funcAt?_of_outline h place

theorem body?_setBody {app : Application} {ref : FuncRef} (h : (app.func? ref).isSome = true)
    (body : Option Block) : (app.setBody ref body).body? ref = body := by
  obtain ⟨func, hfunc⟩ := Option.isSome_iff_exists.1 h
  rw [Application.body?, Application.setBody, Application.func?_modifyFunc, hfunc]
  rfl

theorem at_main {package agent : String} (hagent : agent ≠ transactionVariable) :
    ((Frame.main package agent).declare agent).At [] ⟨false, false⟩ where
  inMain := rfl
  carrier := rfl
  txn h := absurd h Bool.false_ne_true
  pending := rfl
  scopes := ⟨[agent], rfl, by simp [hagent.symm]⟩

theorem traceBody_orderly {walk : Walk} (hwalk : walk.Settles) {outer : List (List String)}
    {phase : Phase} {body : Block} (hcalm : ∀ stmt ∈ body.stmts, Calm stmt.kind)
    (hclosed : phase.opened = false) {frame : Frame} (app : Application)
    (hframe : frame.At outer phase) :
    Trace.wp (traceBody walk body) (fun body' _ _ =>
      ∀ list, ListIn list body'.stmts → Alternates list) frame app := by
  unfold traceBody
  simp only [Trace.wp_bind, Trace.wp_get, hframe.pending, Option.isSome_none, Bool.false_eq_true,
    if_false, Trace.wp_pure]
  apply (hwalk body.stmts outer phase frame app hcalm hframe).mono
  rintro stmts frame' app' ⟨hlists, hframe'⟩
  simp only [Trace.wp_bind, Trace.wp_modifyGet, Trace.wp_pure]
  have hprologue : ∀ hasSegment, (frame'.prologue hasSegment).1 = [] := by
    intro hasSegment
    have hcarrier : frame'.hasTransaction = false := hframe'.hasTransaction.trans hclosed
    simp [Frame.prologue, Frame.opening?, hcarrier, hframe'.pending]
  intro list hlist
  rw [hprologue] at hlist
  exact (hlists list (by simpa using hlist)).alternates

variable {app : Application} {ref : FuncRef} {body : Block}

/-- What tracing makes of the body of an entry function, from what it makes of a prepared one. -/
theorem wp_traceMain {S : Block → String → Prop} {P : Block → Prop}
    (hentry : isEntryPoint app ref = true) (hbody : app.body? ref = some body)
    (hsetUp : Weave.wp (setUpAgent ref body) (fun result app' =>
      S result.1 result.2 ∧ app'.outline = (opened app ref).outline) (opened app ref))
    (hwalk : ∀ prepared agent app', S prepared agent →
      Trace.wp (traceBody (walkBlock app.depth) prepared) (fun body' _ _ => P body')
        ((Frame.main ref.package agent).declare agent) app') :
    Weave.wp (traceMain walkBlock ref) (fun found app' => found = true ∧
      ∃ body', app'.body? ref = some body' ∧ P body') app := by
  unfold traceMain fullWalk Weave.withBody
  simp only [Weave.wp_bind, Weave.wp_get]
  rw [if_neg (by simp [hentry, hbody])]
  have hmarked : (app.markTraced ref).body? ref = some body := by
    rw [Application.body?, Application.func?_markTraced]
    exact hbody
  simp only [Weave.wp_bind, Weave.wp_pure, Weave.wp_get, Weave.wp_modify, hmarked]
  apply Weave.wp.mono hsetUp
  rintro ⟨prepared, agent⟩ app' ⟨hprepared, houtline⟩
  simp only [Weave.wp_bind, Trace.wp_run]
  have hbinds : ((Frame.main ref.package agent).declare agent).Binds := by
    intro _ hstmt
    cases hstmt
  obtain ⟨stmts, hstmts, hweaves⟩ :=
    traceBody_weaves (walkBlock_weaves app.depth) prepared hbinds app'
  have houtline' := hweaves.outline_eq.trans (houtline.trans (outline_opened app ref))
  have hfunc : (app.func? ref).isSome = true :=
    Option.isSome_of_isSome_bind (by rw [← Application.body?, hbody, Option.isSome_some])
  refine ⟨rfl, _, body?_setBody ?_ _, hwalk prepared agent app' hprepared⟩
  exact (isSome_func?_of_outline houtline' ref).trans hfunc

/--
The entry function mentions no variable of the transaction and starts none itself.  Then the
starts and ends that tracing puts into it alternate in every list of its body, the first
start of a list declares the variable, and no list inside a transaction starts another one.
-/
theorem traceMain_alternates (hentry : isEntryPoint app ref = true)
    (hbody : app.body? ref = some body) (hagent : app.agent ≠ transactionVariable)
    (hstarts : Holds (fun _ call => call.name? ≠ some "StartTransaction")
      (callsOfStmts true body.stmts))
    (hmentions : transactionVariable ∉ mentioned (occurrencesOfStmts body.stmts)) :
    Weave.wp (traceMain walkBlock ref) (fun found app' => found = true ∧
      ∃ body', app'.body? ref = some body' ∧ ∀ list, ListIn list body'.stmts → Alternates list)
      app := by
  have hcalm := calm_of_not_mentionedInStmts hstarts hmentions
  have hopened : (opened app ref).agent ≠ transactionVariable := hagent
  refine wp_traceMain hentry hbody (S := fun prepared agent =>
    (∀ stmt ∈ prepared.stmts, Calm stmt.kind) ∧ agent ≠ transactionVariable) ?_ ?_
  · apply Weave.wp.mono (setUpAgent_calm ref hopened hcalm)
    rintro ⟨prepared, agent⟩ app' ⟨hprepared, hagent', houtline⟩
    exact ⟨⟨hprepared, hagent'⟩, houtline⟩
  · rintro prepared agent app' ⟨hprepared, hagent'⟩
    have hframe : ((Frame.main ref.package agent).declare agent).At [] ⟨false, false⟩ :=
      at_main hagent'
    exact traceBody_orderly (walkBlock_settles app.depth) hprepared rfl app' hframe

/-- The body of the first function of the pair. -/
def pairMain : Block where
  stmts := [.expr { kind := .call workCall }]

theorem traceMain_alternates_pairMain :
    isEntryPoint pairOrigin.app ⟨"app", "main"⟩ = true ∧
      pairOrigin.app.body? ⟨"app", "main"⟩ = some pairMain ∧
      pairOrigin.app.agent ≠ transactionVariable ∧
      Holds (fun _ call => call.name? ≠ some "StartTransaction")
        (callsOfStmts true pairMain.stmts) ∧
      transactionVariable ∉ mentioned (occurrencesOfStmts pairMain.stmts) ∧
      Weave.wp (traceMain walkBlock ⟨"app", "main"⟩) (fun found app' => found = true ∧
        ∃ body', app'.body? ⟨"app", "main"⟩ = some body' ∧
          ∀ list, ListIn list body'.stmts → Alternates list) pairOrigin.app := by
  have hentry : isEntryPoint pairOrigin.app ⟨"app", "main"⟩ = true := rfl
  have hbody : pairOrigin.app.body? ⟨"app", "main"⟩ = some pairMain := rfl
  have hagent : pairOrigin.app.agent ≠ transactionVariable := by decide
  have hstarts : Holds (fun _ call => call.name? ≠ some "StartTransaction")
      (callsOfStmts true pairMain.stmts) := by
    intro entry hentry
    obtain rfl : entry = (true, workCall) := List.mem_singleton.1 hentry
    exact fun h => absurd (Option.some.inj h) (by decide)
  have hmentions : transactionVariable ∉ mentioned (occurrencesOfStmts pairMain.stmts) := by
    have hnames : mentioned (occurrencesOfStmts pairMain.stmts) = ["work"] := rfl
    rw [hnames]
    decide
  exact ⟨hentry, hbody, hagent, hstarts, hmentions,
    traceMain_alternates hentry hbody hagent hstarts hmentions⟩

end TraceWeave.Tracing
