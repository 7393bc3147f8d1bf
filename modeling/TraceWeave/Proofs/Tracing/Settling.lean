import TraceWeave.Proofs.Tracing.Interceptors

/-!
Lists that the plain detectors have seen.

A list is swept where the detectors find nothing to do (`Swept`).  Whatever a sweep makes
of a list is swept (`sweep_settles`), since the detectors know their own work: the round
tripper that stands behind a client, the advisory above a call of a helper, and the
interceptors among the arguments of a call that dials.  A sweep leaves a swept list alone
(`sweep_same`).
-/

namespace TraceWeave.Tracing

open TraceWeave.Agent TraceWeave.Detect TraceWeave.Program TraceWeave.Syntax TraceWeave.Types

/-! ## Statements with nothing to do -/

/-- The statement binds a client to a name. -/
def makesClient (info : Info) (stmt : Stmt) : Bool :=
  match stmt.kind with
  | .assign [client] _ [value] =>
      (info.typeOf? value).any isClient && !client.ident?.all (·.isBlank)
  | _ => false

/-- The advisory above calls of helpers has been attached. -/
def isAdvised (stmt : Stmt) : Prop := attachLines? Advisory.httpHelper.lines stmt.decs = none

/-- The statement calls one of the helpers that send a request. -/
abbrev callsHelper (info : Info) (stmt : Stmt) : Bool :=
  anyOwnCall (callsFunc info Path.netHttp requestHelpers) stmt

/-- The plain detectors find nothing to do at a statement in front of another one. -/
structure Idle (info : Info) (stmt : Stmt) (next : Option Stmt) : Prop where
  client : makesClient info stmt = true → next.any isRoundTripper = true
  helper : callsHelper info stmt = true → isAdvised stmt
  dials : Holds (Intercepted info) (stmt.kind.calls true .own)

/-- The plain detectors find nothing to do in a list and the blocks in it. -/
inductive Swept (info : Info) : List Stmt → Prop where
  | nil : Swept info []
  | cons {stmt : Stmt} {rest : List Stmt} :
      Idle info stmt rest.head? → (∀ block ∈ stmt.kind.blocks, Swept info block) →
      Swept info rest → Swept info (stmt :: rest)

/-! ## Runs of the detectors -/

theorem attachLines?_again {first : String} {lines : List String} {decs decs' : Decorations}
    (h : attachLines? (first :: lines) decs = some decs') :
    attachLines? (first :: lines) decs' = none := by
  simp only [attachLines?] at h
  split at h
  · contradiction
  · obtain rfl := Option.some.inj h
    simp [attachLines?]

section

variable (package : String) (cursor : Cursor) (app : Application)

/-- Either there is nothing to do about a client, or a round tripper goes behind it. -/
theorem installRoundTripper_cases : Weave.wp (installRoundTripper package cursor)
    (fun cursor' app' =>
      (cursor' = cursor ∧ app' = app ∧ (makesClient app.types cursor.current = true →
        cursor.rest.head?.any isRoundTripper = true)) ∨
      (makesClient app.types cursor.current = true ∧
        cursor.rest.head?.any isRoundTripper = false ∧ app'.types = app.types ∧
        ∃ client after, IsName client ∧ cursor' = (cursor.modify fun stmt =>
          { stmt with decs := stmt.decs.withoutAfter }).insertAfter
            (roundTripper (bare client) after))) app := by
  unfold installRoundTripper
  split
  · next client op value hkind =>
    have hmakes : makesClient app.types cursor.current =
        ((app.types.typeOf? value).any isClient && !client.ident?.all (·.isBlank)) := by
      rw [makesClient, hkind]
    simp only [Weave.wp_bind, Weave.wp_get]
    split
    · next h =>
      refine .inl ⟨rfl, rfl, fun hclient => ?_⟩
      simp only [hmakes, Bool.and_eq_true, Bool.not_eq_true'] at hclient
      simpa only [hclient.1, hclient.2, Bool.not_true, Bool.false_or] using h
    · next h =>
      simp only [Bool.or_eq_true, not_or, Bool.not_eq_true', Bool.not_eq_false] at h
      obtain ⟨⟨htype, hname⟩, hnext⟩ := h
      refine .inr ⟨?_, by simpa using hnext, rfl, client, _, isName_of_not_all hname, rfl⟩
      simp only [hmakes, htype, Bool.true_and, Bool.not_eq_true']
      simpa using hname
  · next hkind =>
    refine .inl ⟨rfl, rfl, fun h => ?_⟩
    unfold makesClient at h
    split at h
    · next client op value heq => exact absurd heq (hkind client op value)
    · contradiction

/-- Either there is nothing to advise, or the advisory is attached. -/
theorem adviseHelpers_cases : Weave.wp (adviseHelpers package cursor) (fun cursor' app' =>
      (cursor' = cursor ∧ app' = app ∧
        (callsHelper app.types cursor.current = true → isAdvised cursor.current)) ∨
      (callsHelper app.types cursor.current = true ∧ ¬ isAdvised cursor.current ∧
        app'.types = app.types ∧ ∃ decs, isAdvised { cursor.current with decs } ∧
          cursor' = cursor.replace { cursor.current with decs })) app := by
  unfold adviseHelpers
  simp only [Weave.wp_bind, Weave.wp_get]
  split
  · next hcalls =>
    rw [Weave.wp_bind, Weave.attach, Advisory.attach?]
    cases hattach : attachLines? Advisory.httpHelper.lines cursor.current.decs with
    | none => exact .inl ⟨rfl, rfl, fun _ => hattach⟩
    | some decs =>
        refine .inr ⟨hcalls, ?_, rfl, decs, attachLines?_again hattach, rfl⟩
        rw [isAdvised, hattach]
        exact Option.some_ne_none decs
  · next hcalls => exact .inl ⟨rfl, rfl, fun h => absurd h hcalls⟩

theorem interceptClients_edits : Weave.wp (interceptClients package cursor) (fun cursor' app' =>
    app'.types = app.types ∧ cursor' = cursor.replace { cursor.current with
      kind := (Threaded.run (.ofStateM Bool)
        (cursor.current.kind.edit (intercepts app.types) .own) false).1 }) app := by
  unfold interceptClients
  rw [Weave.wp_bind, Weave.wp_get]
  dsimp only
  split
  next stmt changed hrun =>
    obtain rfl : _ = stmt := congrArg Prod.fst hrun
    split
    · exact ⟨rfl, rfl⟩
    · exact ⟨rfl, rfl⟩

theorem interceptClients_same
    (h : Holds (Intercepted app.types) (cursor.current.kind.calls true .own)) :
    Weave.wp (interceptClients package cursor) (fun cursor' app' => cursor' = cursor ∧ app' = app)
      app := by
  have hkeeps := h.imp fun reached call hcall =>
    show (intercepts app.types).Keeps (.ofStateM Bool) reached call by
      intro hreached changed
      obtain ⟨-, hdials⟩ | ⟨hrun, -⟩ := interceptClient_cases app.types call changed
      · rw [hcall hreached] at hdials
        contradiction
      · exact hrun
  obtain ⟨before, ⟨kind, decs⟩, rest, after⟩ := cursor
  have hkind : Threaded.run (.ofStateM Bool) (kind.edit (intercepts app.types) .own) false =
      (kind, false) := StmtKind.edit_same (fun _ _ => rfl) .own kind false hkeeps
  have hstmt : Threaded.run (.ofStateM Bool)
      ((⟨kind, decs⟩ : Stmt).editOwn (intercepts app.types)) false = (⟨kind, decs⟩, false) := by
    simp only [Stmt.editOwn, Threaded.run_bind, Threaded.run_pure, hkind]
  unfold interceptClients
  rw [Weave.wp_bind, Weave.wp_get]
  dsimp only
  rw [show StateT.run _ false = _ from hstmt]
  exact ⟨rfl, rfl⟩

end

theorem wp_plainDetectors (package : String) (cursor : Cursor) (app : Application)
    (Q : Cursor → Application → Prop) :
    Weave.wp (plainDetectors.foldlM (fun cursor detector => detector.detect package cursor) cursor)
      Q app = Weave.wp (installRoundTripper package cursor) (fun cursor =>
        Weave.wp (adviseHelpers package cursor) fun cursor =>
          Weave.wp (interceptClients package cursor) Q) app := rfl

/-! ## Swept lists are left alone -/

section

variable {package : String} {app : Application}

/-- The plain detectors leave a statement alone at which they find nothing to do. -/
theorem detectors_same {cursor : Cursor}
    (h : Idle app.types cursor.current cursor.rest.head?) :
    Weave.wp (plainDetectors.foldlM (fun cursor detector => detector.detect package cursor) cursor)
      (fun cursor' app' => cursor' = cursor ∧ app' = app) app := by
  rw [wp_plainDetectors]
  refine (installRoundTripper_cases package cursor app).mono fun cursor' app' hclient => ?_
  obtain ⟨rfl, rfl, -⟩ | ⟨hmakes, hnext, -⟩ := hclient
  · refine (adviseHelpers_cases package cursor' app').mono fun cursor'' app'' hhelper => ?_
    obtain ⟨rfl, rfl, -⟩ | ⟨hcalls, hadvised, -⟩ := hhelper
    · exact interceptClients_same package cursor'' app'' h.dials
    · exact absurd (h.helper hcalls) hadvised
  · rw [h.client hmakes] at hnext
    contradiction

/-- A walk whose visits change nothing changes nothing. -/
theorem walkFrom_same {visit : Cursor → Weave Cursor} (limit : Nat) (passed rest : List Stmt)
    (hvisit : ∀ passed current rest', current :: rest' <:+ rest →
      let cursor : Cursor := { before := passed, current, rest := rest' }
      visit cursor app = (cursor, app)) :
    walkFrom visit limit passed rest app = (passed.reverse ++ rest, app) := by
  induction limit generalizing passed rest with
  | zero =>
      cases rest with
      | nil => exact congrArg (·, app) (List.append_nil _).symm
      | cons => rfl
  | succ limit ih =>
      cases rest with
      | nil => exact congrArg (·, app) (List.append_nil _).symm
      | cons current rest =>
          show walkFrom visit limit (visit { before := passed, current, rest } app).1.passed
            (visit { before := passed, current, rest } app).1.rest
            (visit { before := passed, current, rest } app).2 = _
          rw [hvisit passed current rest (List.suffix_refl _),
            ih _ _ fun passed' current' rest' hsuffix =>
              hvisit passed' current' rest' (hsuffix.trans (List.suffix_cons ..))]
          simp [Cursor.passed]

theorem Swept.suffix {info : Info} {stmts rest : List Stmt} (h : Swept info stmts)
    (hsuffix : rest <:+ stmts) : Swept info rest := by
  induction h with
  | nil =>
      obtain rfl := List.suffix_nil.1 hsuffix
      exact .nil
  | cons hidle hblocks hrest _ ih =>
      obtain rfl | hsuffix := List.suffix_cons_iff.1 hsuffix
      · exact .cons hidle hblocks hrest
      · exact ih hsuffix

/-- A sweep leaves a swept list alone. -/
theorem sweep_same (depth : Nat) {stmts : List Stmt} (h : Swept app.types stmts) :
    (sweep package depth stmts) app = (stmts, app) := by
  induction depth generalizing stmts with
  | zero => rfl
  | succ depth ih =>
      refine (walkFrom_same _ [] stmts fun passed current rest hsuffix => ?_).trans rfl
      obtain - | ⟨hidle, hblocks, -⟩ := h.suffix hsuffix
      show Weave.wp (do
        let cursor ← plainDetectors.foldlM
          (fun cursor detector => detector.detect package cursor) _
        return cursor.replace (← cursor.current.editBlocks (sweep package depth)))
        (fun cursor app' => (cursor, app') = _) app
      rw [Weave.wp_bind]
      refine (detectors_same hidle).mono fun cursor app' hsame => ?_
      obtain ⟨rfl, rfl⟩ := hsame
      have hblocks : Threaded.run (.ofStateM Application)
          (current.editBlocks (sweep package depth)) app' = (current, app') :=
        current.editBlocks_same app' fun block hmem => ih (hblocks block hmem)
      rw [Weave.wp_bind, Weave.wp,
        show current.editBlocks (sweep package depth) app' = _ from hblocks]
      rfl

end

/-! ## Sweeps settle lists -/

section

variable {info : Info}

theorem makesClient_eq_true {stmt : Stmt} (h : makesClient info stmt = true) :
    ∃ client op value, stmt.kind = .assign [client] op [value] := by
  unfold makesClient at h
  split at h
  · next client op value hkind => exact ⟨client, op, value, hkind⟩
  · contradiction

/-- An edit of calls makes no client. -/
theorem makesClient_intercepts (kind : StmtKind) (decs : Decorations) (changed : Bool)
    (h : makesClient info ⟨(Threaded.run (.ofStateM Bool)
      (kind.edit (intercepts info) .own) changed).1, decs⟩ = true) :
    makesClient info ⟨kind, decs⟩ = true := by
  obtain ⟨client', op', value', hkind'⟩ := makesClient_eq_true h
  by_cases hassign : ∃ left op right, kind = .assign left op right
  · obtain ⟨left, op, right, rfl⟩ := hassign
    obtain ⟨left', right', hrun, hleft, hright⟩ := intercepts_assign left right op changed
    rw [hrun] at h hkind'
    simp only [StmtKind.assign.injEq] at hkind'
    obtain ⟨rfl, rfl, rfl⟩ := hkind'
    obtain ⟨client, _, hclient, hnil, rfl⟩ := List.forall₂_cons_right_iff.1 hleft
    obtain rfl := List.forall₂_nil_right_iff.1 hnil
    obtain ⟨value, _, hvalue, hnil', rfl⟩ := List.forall₂_cons_right_iff.1 hright
    obtain rfl := List.forall₂_nil_right_iff.1 hnil'
    simpa only [makesClient, Intercepts.ident?_eq hclient, (Intercepts.alike hvalue).typeOf?]
      using h
  · exact absurd hkind' (kind.edit_ne_assign changed
      (fun left op right h => hassign ⟨left, op, right, h⟩) _ _ _)

/-- An edit of calls adds no call of a helper. -/
theorem callsHelper_intercepts (hskips : SkipsGenerated info) (stmt : Stmt) (decs : Decorations)
    (changed : Bool)
    (h : callsHelper info ⟨(Threaded.run (.ofStateM Bool)
      (stmt.kind.edit (intercepts info) .own) changed).1, decs⟩ = true) :
    callsHelper info stmt = true := by
  have hown : List.Forall₂ ((intercepts info).MakesOwn (.ofStateM Bool)) stmt.kind.ownExprs _ :=
    stmt.kind.edit_ownExprs changed
  rw [callsHelper, anyOwnCall_eq] at h ⊢
  change List.any (StmtKind.ownExprs _) _ = true at h
  change List.any stmt.kind.ownExprs _ = true
  generalize (Threaded.run (.ofStateM Bool)
    (stmt.kind.edit (intercepts info) .own) changed).1.ownExprs = exprs' at h hown
  generalize stmt.kind.ownExprs = exprs at hown ⊢
  induction hown with
  | nil => exact h
  | @cons expr expr' _ _ hexpr _ ih =>
      rw [List.any_cons, Bool.or_eq_true] at h ⊢
      refine h.imp (fun hany => ?_) ih
      obtain rfl | hmakes := hexpr
      · exact hany
      · exact callsAny_intercepts hskips expr expr' hmakes hany

end

/-- The statement is idle wherever it stands, and there are no blocks in it. -/
structure Inert (info : Info) (stmt : Stmt) : Prop where
  idle : ∀ next, Idle info stmt next
  blocks : stmt.kind.blocks = []

/-- What a visit leaves, its blocks aside, has nothing to do in it for the plain detectors. -/
structure Settles (info : Info) (cursor cursor' : Cursor) : Prop where
  before : cursor'.before = cursor.before
  rest : cursor'.rest = cursor.rest
  roundTripper : isRoundTripper cursor'.current = isRoundTripper cursor.current
  client : makesClient info cursor'.current = true →
    (cursor'.after ++ cursor'.rest).head?.any isRoundTripper = true
  helper : callsHelper info cursor'.current = true → isAdvised cursor'.current
  dials : Holds (Intercepted info) (cursor'.current.kind.calls true .own)
  after : ∀ stmt ∈ cursor'.after, Inert info stmt

section

variable {info : Info} {client : Expr}

theorem isRoundTripper_roundTripper (client : Expr) (after : Gap) :
    isRoundTripper (roundTripper client after) = true := by
  simp [isRoundTripper, roundTripper, Stmt.assign, isQualifiedCall, Expr.call, Expr.call?,
    isQualified, newrelic, Expr.qualified, Expr.selector, Expr.selector?, Expr.ident, Expr.isIdent,
    Expr.ident?]

/-- The detectors have nothing to do at a round tripper. -/
theorem inert_roundTripper (hskips : SkipsGenerated info) (hname : IsName client) (after : Gap) :
    Inert info (roundTripper (bare client) after) := by
  obtain ⟨ident, hident⟩ := Option.isSome_iff_exists.1 hname
  obtain ⟨kind, decs⟩ := client
  obtain rfl : kind = .ident ident := by
    cases kind <;> simp_all [Expr.ident?]
  have hcallee : info.callee? ⟨newrelic "NewRoundTripper",
      [.selector (bare ⟨.ident ident, decs⟩) "Transport"], false, false⟩ = none :=
    callee?_qualified hskips _ _ _ _ _
  refine ⟨fun next => ⟨fun h => ?_, fun h => ?_, ?_⟩, rfl⟩
  · have hclient : makesClient info (roundTripper (bare ⟨.ident ident, decs⟩) after) = false :=
      Bool.and_false _
    rw [hclient] at h
    contradiction
  · have hhelper : callsHelper info (roundTripper (bare ⟨.ident ident, decs⟩) after) =
        (callsFunc info Path.netHttp requestHelpers ⟨newrelic "NewRoundTripper",
          [.selector (bare ⟨.ident ident, decs⟩) "Transport"], false, false⟩ || false ||
            false) := rfl
    rw [hhelper, callsFunc, hcallee] at h
    contradiction
  · refine Holds.cons.2 ⟨fun _ => ?_, .nil⟩
    rw [dialsBare, callsFunc, hcallee, Option.any_none, Bool.false_and]

end

/-! ## One visit -/

section

variable {package : String} {app : Application}

/-- Behind a client there is a round tripper, an old one or a new one. -/
theorem installRoundTripper_settles (hskips : SkipsGenerated app.types) {cursor : Cursor}
    (hafter : cursor.after = []) :
    Weave.wp (installRoundTripper package cursor) (fun cursor' app' =>
      app'.types = app.types ∧ cursor'.before = cursor.before ∧ cursor'.rest = cursor.rest ∧
        cursor'.current.kind = cursor.current.kind ∧
        (makesClient app.types cursor'.current = true →
          (cursor'.after ++ cursor'.rest).head?.any isRoundTripper = true) ∧
        ∀ stmt ∈ cursor'.after, Inert app.types stmt) app := by
  refine (installRoundTripper_cases package cursor app).mono fun cursor' app' h => ?_
  obtain ⟨rfl, rfl, hnext⟩ | ⟨-, -, htypes, client, after, hname, rfl⟩ := h
  · rw [hafter]
    exact ⟨rfl, rfl, rfl, rfl, hnext, List.forall_mem_nil _⟩
  · refine ⟨htypes, rfl, rfl, rfl, fun _ => ?_, ?_⟩
    · simp [Cursor.insertAfter, Cursor.modify, hafter, isRoundTripper_roundTripper]
    · simpa [Cursor.insertAfter, Cursor.modify, hafter] using inert_roundTripper hskips hname after

theorem adviseHelpers_settles {cursor : Cursor} :
    Weave.wp (adviseHelpers package cursor) (fun cursor' app' => app'.types = app.types ∧
      ∃ decs, cursor' = cursor.replace ⟨cursor.current.kind, decs⟩ ∧
        (callsHelper app.types cursor.current = true →
          isAdvised ⟨cursor.current.kind, decs⟩)) app := by
  obtain ⟨before, ⟨kind, decs⟩, rest, after⟩ := cursor
  refine (adviseHelpers_cases package _ app).mono fun cursor' app' h => ?_
  obtain ⟨rfl, rfl, hadvised⟩ | ⟨-, -, htypes, decs, hadvised, rfl⟩ := h
  · exact ⟨rfl, decs, rfl, hadvised⟩
  · exact ⟨htypes, decs, rfl, fun _ => hadvised⟩

theorem detectors_settle {info : Info} (hskips : SkipsGenerated info) (happ : app.types = info)
    {cursor : Cursor} (hafter : cursor.after = []) :
    Weave.wp (plainDetectors.foldlM (fun cursor detector => detector.detect package cursor) cursor)
      (fun cursor' app' => app'.types = info ∧ Settles info cursor cursor' ∧
        cursor'.current.kind.blocks = cursor.current.kind.blocks) app := by
  subst happ
  rw [wp_plainDetectors]
  refine (installRoundTripper_settles hskips hafter).mono fun cursor₁ app₁ h => ?_
  obtain ⟨htypes₁, hbefore, hrest, hkind, hclient, hinert⟩ := h
  refine adviseHelpers_settles.mono fun cursor₂ app₂ h => ?_
  obtain ⟨htypes₂, decs, rfl, hhelper⟩ := h
  refine (interceptClients_edits package _ app₂).mono fun cursor₃ app₃ h => ?_
  obtain ⟨htypes₃, rfl⟩ := h
  rw [htypes₁] at htypes₂ hhelper
  rw [htypes₂] at htypes₃ ⊢
  rw [← hkind]
  refine ⟨htypes₃, ⟨hbefore, hrest, ?_, fun h => ?_, fun h => ?_, ?_, hinert⟩, ?_⟩
  · exact (isRoundTripper_intercepts ..).trans (isRoundTripper_congr hkind)
  · exact hclient (makesClient_intercepts cursor₁.current.kind decs false h)
  · exact hhelper (callsHelper_intercepts hskips cursor₁.current decs false h)
  · exact StmtKind.edit_brings (intercepts_brings hskips) .own _ false fun _ _ => trivial
  · exact cursor₁.current.kind.edit_blocks false

/-- What an edit of the blocks keeps of a statement. -/
theorem editBlocks_keepsOwn (info : Info) (edit : List Stmt → Weave (List Stmt)) (kind : StmtKind)
    (app : Application) :
    let kind' := (Threaded.run (.ofStateM Application) (kind.editBlocks edit) app).1
    kind'.ownExprs = kind.ownExprs ∧
      (Holds (Intercepted info) (kind.calls true .own) →
        Holds (Intercepted info) (kind'.calls true .own)) := by
  have hsteps : BlockSteps (.ofStateM Application) edit (kind, app) _ := kind.editBlocks_steps app
  generalize Threaded.run (.ofStateM Application) (kind.editBlocks edit) app = after at hsteps
  induction hsteps with
  | refl => exact ⟨rfl, id⟩
  | tail _ hstep ih =>
      obtain ⟨stmts, hreplaces, -⟩ := hstep
      exact ⟨hreplaces.ownExprs_eq.trans ih.1, fun h =>
        hreplaces.holds_own (fun _ hreached => nomatch hreached) (ih.2 h)⟩

theorem ne_assign_of_isCompound {kind : StmtKind} (h : kind.isCompound = true) (left : List Expr)
    (op : AssignOp) (right : List Expr) : kind ≠ .assign left op right := by
  rintro rfl
  contradiction

/-- A visit is complete once the blocks of the statement are swept, too. -/
theorem Settles.editBlocks {info : Info} {edit : List Stmt → Weave (List Stmt)}
    {cursor cursor' : Cursor} (h : Settles info cursor cursor') (happ : app.types = info)
    (hedit : ∀ block ∈ cursor'.current.kind.blocks, ∀ app', app'.types = info →
      Weave.wp (edit block) (fun block' app'' => Swept info block' ∧ app''.types = info) app') :
    Weave.wp (cursor'.current.editBlocks edit) (fun stmt app' => app'.types = info ∧
      Settles info cursor (cursor'.replace stmt) ∧
      ∀ block ∈ stmt.kind.blocks, Swept info block) app := by
  obtain ⟨before, ⟨kind, decs⟩, rest, after⟩ := cursor'
  obtain ⟨hbefore, hrest, hroundTripper, hclient, hhelper, hdials, hafter⟩ := h
  have hsettle : ∀ block (app' : Application), block ∈ kind.blocks → app'.types = info →
      Swept info (Threaded.run (.ofStateM Application) (edit block) app').1 ∧
        (Threaded.run (.ofStateM Application) (edit block) app').2.types = info :=
    fun block app' hblock happ' => hedit block hblock app' happ'
  obtain ⟨hrefilled, htypes⟩ := StmtKind.editBlocks_refill
    (I := fun app : Application => app.types = info) hsettle kind (fun _ => id) happ
  obtain ⟨hown, hkeeps⟩ := editBlocks_keepsOwn info edit kind app
  show _ ∧ Settles info cursor ⟨before, ⟨(Threaded.run (.ofStateM Application)
    (kind.editBlocks edit) app).1, decs⟩, rest, after⟩ ∧ _
  refine ⟨htypes, ⟨hbefore, hrest, ?_, fun h => ?_, fun h => ?_, hkeeps hdials, hafter⟩,
    hrefilled.blocks⟩
  · obtain hsame | ⟨hcompound, hcompound'⟩ := hrefilled.same
    · exact (isRoundTripper_congr hsame).trans hroundTripper
    · refine Eq.trans ?_ hroundTripper
      have hbefore : isRoundTripper ⟨kind, decs⟩ = false :=
        isRoundTripper_of_ne_assign (ne_assign_of_isCompound hcompound)
      rw [hbefore]
      exact isRoundTripper_of_ne_assign (ne_assign_of_isCompound hcompound')
  · obtain hsame | ⟨-, hcompound'⟩ := hrefilled.same
    · rw [hsame] at h
      exact hclient h
    · obtain ⟨client, op, value, hkind⟩ := makesClient_eq_true h
      exact absurd hkind (ne_assign_of_isCompound hcompound' _ _ _)
  · refine hhelper ?_
    rw [callsHelper, anyOwnCall_eq] at h ⊢
    exact (congrArg (List.any · _) hown).symm.trans h

/-- What a visit leaves is swept in front of a swept list. -/
theorem Settles.swept {info : Info} {cursor cursor' : Cursor} (h : Settles info cursor cursor')
    (hblocks : ∀ block ∈ cursor'.current.kind.blocks, Swept info block) {out : List Stmt}
    (hout : Swept info out)
    (hnext : out.head?.any isRoundTripper = cursor.rest.head?.any isRoundTripper) :
    Swept info (cursor'.current :: (cursor'.after ++ out)) := by
  have hafter : ∀ after : List Stmt, (∀ stmt ∈ after, Inert info stmt) →
      Swept info (after ++ out) := by
    intro after hinert
    induction after with
    | nil => exact hout
    | cons stmt after ih =>
        rw [List.forall_mem_cons] at hinert
        exact .cons (hinert.1.idle _) (hinert.1.blocks ▸ List.forall_mem_nil _) (ih hinert.2)
  refine .cons ⟨fun hclient => ?_, h.helper, h.dials⟩ hblocks (hafter _ h.after)
  have hfollowed := h.client hclient
  rw [h.rest] at hfollowed
  cases hlist : cursor'.after with
  | nil =>
      rw [hlist] at hfollowed
      exact hnext.trans hfollowed
  | cons stmt after =>
      rw [hlist] at hfollowed
      exact hfollowed

end

/-! ## Sweeps -/

section

variable {info : Info}

/-- A walk settles a list when its visits do. -/
theorem walkFrom_settles {visit : Cursor → Weave Cursor} (limit : Nat) (passed rest : List Stmt)
    {app : Application} (happ : app.types = info) (hlimit : rest.length ≤ limit)
    (hvisit : ∀ passed, ∀ current ∈ rest, ∀ rest' app, app.types = info →
      Weave.wp (visit { before := passed, current, rest := rest' }) (fun cursor' app' =>
        app'.types = info ∧ Settles info { before := passed, current, rest := rest' } cursor' ∧
        ∀ block ∈ cursor'.current.kind.blocks, Swept info block) app) :
    Weave.wp (walkFrom visit limit passed rest) (fun stmts' app' => app'.types = info ∧
      ∃ out, stmts' = passed.reverse ++ out ∧ Swept info out ∧
        out.head?.any isRoundTripper = rest.head?.any isRoundTripper) app := by
  induction limit generalizing passed rest app with
  | zero =>
      obtain rfl := List.length_eq_zero_iff.1 (Nat.le_zero.1 hlimit)
      exact ⟨happ, [], (List.append_nil _).symm, .nil, rfl⟩
  | succ limit ih =>
      cases rest with
      | nil => exact ⟨happ, [], (List.append_nil _).symm, .nil, rfl⟩
      | cons current rest =>
          rw [walkFrom, Weave.wp_bind]
          refine (hvisit passed current List.mem_cons_self rest app happ).mono ?_
          rintro cursor' app' ⟨happ', hsettles, hblocks⟩
          rw [hsettles.rest]
          refine (ih cursor'.passed rest happ' (Nat.le_of_succ_le_succ hlimit)
            fun passed current hmem => hvisit passed current (List.mem_cons_of_mem _ hmem)).mono ?_
          rintro stmts' app'' ⟨happ'', out, hstmts, hout, hhead⟩
          refine ⟨happ'', cursor'.current :: (cursor'.after ++ out), ?_,
            hsettles.swept hblocks hout hhead, hsettles.roundTripper⟩
          rw [hstmts, Cursor.passed, hsettles.before]
          simp

/-- A sweep that goes deep enough settles a list. -/
theorem sweep_settles (hskips : SkipsGenerated info) (package : String) (depth : Nat)
    (stmts : List Stmt) (hdepth : depthOfStmts stmts < depth) {app : Application}
    (happ : app.types = info) :
    Weave.wp (sweep package depth stmts) (fun stmts' app' =>
      Swept info stmts' ∧ app'.types = info) app := by
  induction depth generalizing stmts app with
  | zero => contradiction
  | succ depth ih =>
      refine (walkFrom_settles stmts.length [] stmts happ (Nat.le_refl _) ?_).mono ?_
      · intro passed current hmem rest app happ
        show Weave.wp (do
          let cursor ← plainDetectors.foldlM
            (fun cursor detector => detector.detect package cursor) _
          return cursor.replace (← cursor.current.editBlocks (sweep package depth))) _ app
        rw [Weave.wp_bind]
        refine (detectors_settle hskips happ rfl).mono ?_
        rintro cursor' app' ⟨happ', hsettles, hblocks⟩
        rw [Weave.wp_bind]
        refine (hsettles.editBlocks happ' fun block hblock app happ => ?_).mono fun _ _ h => h
        have hinside : depthOfStmts block < current.kind.depth :=
          current.kind.depth_of_mem_blocks block (hblocks ▸ hblock)
        have hcurrent : current.kind.depth ≤ depthOfStmts stmts := depth_le_of_mem hmem
        exact ih block (by omega) happ
      · rintro stmts' app' ⟨happ', out, hstmts, hout, _⟩
        exact ⟨hstmts ▸ hout, happ'⟩

end

/-- A sweep of what a sweep has made of a list changes neither the list nor the application. -/
theorem sweep_twice {app : Application} (hskips : SkipsGenerated app.types) (package : String)
    (stmts : List Stmt) :
    let swept := (sweep package (depthOfStmts stmts + 1) stmts).run app
    (sweep package (depthOfStmts swept.1 + 1) swept.1).run swept.2 = swept := by
  intro swept
  obtain ⟨hswept, htypes⟩ : Swept app.types swept.1 ∧ swept.2.types = app.types :=
    sweep_settles hskips package _ stmts (Nat.lt_succ_self _) rfl
  exact sweep_same _ (htypes ▸ hswept)

/-- `http` -/
def httpName : Expr := { kind := .ident { name := "http", id := 1 } }

/-- `client := &http.Client{}` -/
def clientStmt : Stmt :=
  let client : Expr := { kind := .ident { name := "client", id := 2 } }
  .define [client] [.unary "&" { kind := .composite (some (.selector httpName "Client")) "" }]

def clientApp : Application where
  packages := .ofList []
  agent := ""
  appName := ""
  types :=
    { objects := #[{ kind := .package, name := "http", package := "", type := none
                     imported := some Path.netHttp }]
      uses := ({} : Std.HashMap Nat Nat).insert 1 0 }

theorem skipsGenerated_clientApp : SkipsGenerated clientApp.types := by
  intro ident hident
  have hid : ident.id = 0 := by simpa [Ident.isGenerated] using hident
  simp [Info.objectId?, clientApp, hid]

theorem makesClient_clientStmt : makesClient clientApp.types clientStmt = true := by
  have hpackage : clientApp.types.importedPath? httpName = some Path.netHttp := by
    simp [Info.importedPath?, Expr.ident?, Info.object?, Info.objectId?, clientApp, httpName]
  have hmember : clientApp.types.member? Path.netHttp "Client" = none := by
    simp [Info.member?, clientApp]
  have htype : clientApp.types.typeExpr? (.selector httpName "Client") =
      some (.named Path.netHttp "Client") := by
    simp [Expr.selector, Info.typeExpr?, hpackage, hmember]
  simp [makesClient, clientStmt, Stmt.define, Expr.unary, Info.typeOf?, htype, Expr.ident?,
    isClient, Ty.isPointerTo, Ident.isBlank]

/-- The client gets a round tripper once. -/
theorem sweep_twice_client :
    SkipsGenerated clientApp.types ∧
      let swept := (sweep "app" (depthOfStmts [clientStmt] + 1) [clientStmt]).run clientApp
      swept.1 ≠ [clientStmt] ∧
        (sweep "app" (depthOfStmts swept.1 + 1) swept.1).run swept.2 = swept := by
  refine ⟨skipsGenerated_clientApp, fun hsame => ?_,
    sweep_twice skipsGenerated_clientApp "app" [clientStmt]⟩
  have hswept : Swept clientApp.types _ :=
    (sweep_settles skipsGenerated_clientApp "app" _ [clientStmt] (Nat.lt_succ_self _) rfl).1
  rw [show (sweep "app" _ [clientStmt] clientApp).1 = _ from hsame] at hswept
  obtain - | ⟨hidle, -, -⟩ := hswept
  exact absurd (hidle.client makesClient_clientStmt) (by decide)

end TraceWeave.Tracing
