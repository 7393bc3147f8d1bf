import Mathlib.Data.List.Nodup
import TraceWeave.Proofs.Tracing.Growth
import TraceWeave.Proofs.Tracing.Sweep
import TraceWeave.Proofs.Tracing.Walk

/-!
A whole run, turn by turn.

Each turn takes the body of one function out, weaves it, and puts it back: the entry
functions of programs first, then the functions that serve requests, then all functions
for the plain detectors.  `weave_turns` says that a run is a sequence of such turns, and
that no function is accepted as a root twice.
-/

namespace TraceWeave.Tracing

open TraceWeave.Agent TraceWeave.Detect TraceWeave.Order TraceWeave.Program TraceWeave.Syntax
  TraceWeave.Types

/-! ## Coherent applications -/

section

variable {app app' : Application}

/-- Entries of two states with one outline, side by side. -/
theorem entries_of_outline (h : app'.outline = app.outline) :
    app'.packages.entries.map (fun entry => (entry.1, entry.2.outline)) =
      app.packages.entries.map fun entry => (entry.1, entry.2.outline) := by
  have hpackages := congrArg (fun app : Application => app.packages.entries) h
  exact hpackages

theorem keys_of_outline (h : app'.outline = app.outline) :
    app'.packages.keys = app.packages.keys := by
  have hkeys := congrArg (List.map Prod.fst) (entries_of_outline h)
  rwa [List.map_map, List.map_map] at hkeys

/-- What an outline tells of all entries holds of all entries of the other state. -/
theorem forall_entries_of_outline (h : app'.outline = app.outline) {P : String × Package → Prop}
    (hP : ∀ id package, P (id, package.outline) ↔ P (id, package))
    (hall : ∀ entry ∈ app.packages.entries, P entry) :
    ∀ entry ∈ app'.packages.entries, P entry := by
  intro entry hmem
  have hmem' : (entry.1, entry.2.outline) ∈
      app'.packages.entries.map fun entry => (entry.1, entry.2.outline) :=
    List.mem_map.2 ⟨entry, hmem, rfl⟩
  rw [entries_of_outline h] at hmem'
  obtain ⟨entry', hentry', heq⟩ := List.mem_map.1 hmem'
  have hsame := (hP entry'.1 entry'.2).2 (hall entry' hentry')
  rw [heq] at hsame
  exact (hP entry.1 entry.2).1 hsame

theorem coherent_of_outline (h : app'.outline = app.outline) (hcoherent : app.Coherent) :
    app'.Coherent where
  ids := forall_entries_of_outline h (fun _ _ => .rfl) hcoherent.ids
  keys := keys_of_outline h ▸ hcoherent.keys
  funcKeys := by
    refine forall_entries_of_outline h (fun id package => ?_) hcoherent.funcKeys
    simp [Package.outline, Table.keys, Table.map, Function.comp_def]
  placesDiffer := placesDiffer_of_outline h hcoherent.placesDiffer

theorem lookup_of_mem {α : Type} {entries : List (String × α)} {entry : String × α}
    (hkeys : (entries.map (·.1)).Nodup) (hmem : entry ∈ entries) :
    entries.lookup entry.1 = some entry.2 := by
  induction entries with
  | nil => contradiction
  | cons first entries ih =>
      rw [List.map_cons, List.nodup_cons] at hkeys
      rw [show first = (first.1, first.2) from rfl, Table.lookup_cons_eq_ite]
      obtain rfl | hmem := List.mem_cons.1 hmem
      · simp
      · have hne : entry.1 ≠ first.1 := by
          intro heq
          exact hkeys.1 (heq ▸ List.mem_map_of_mem hmem)
        rw [if_neg hne]
        exact ih hkeys.2 hmem

theorem package?_of_mem (hcoherent : app.Coherent) {package : Package}
    (hmem : package ∈ app.packages.values) : app.package? package.id = some package := by
  obtain ⟨entry, hentry, rfl⟩ := List.mem_map.1 hmem
  rw [hcoherent.ids entry hentry]
  exact lookup_of_mem hcoherent.keys hentry

end

/-! ## Candidates -/

section

variable {app : Application}

theorem isFree_of_mem_candidates (hcoherent : app.Coherent) {ref : FuncRef}
    (hmem : ref ∈ candidates app) : app.IsFree ref := by
  simp only [candidates, List.mem_filter, List.mem_flatMap, List.mem_map, Bool.not_eq_eq_eq_not,
    Bool.not_true] at hmem
  obtain ⟨⟨package, ⟨hpackage, htest⟩, key, -, rfl⟩, hgenerated⟩ := hmem
  refine isFree_of_isGenerated ?_ hgenerated
  rw [package?_of_mem hcoherent hpackage]
  simp [htest]

theorem candidates_nodup (hcoherent : app.Coherent) : (candidates app).Nodup := by
  have hids : (app.packages.values.map (·.id)).Nodup := by
    have hsame : app.packages.values.map (·.id) = app.packages.keys := by
      simp only [Table.values, Table.keys, List.map_map]
      exact List.map_congr_left hcoherent.ids
    rw [hsame]
    exact hcoherent.keys
  refine List.Nodup.filter _ (List.nodup_flatMap.2 ⟨fun package hmem => ?_, ?_⟩)
  · obtain ⟨entry, hentry, rfl⟩ := List.mem_map.1 (List.mem_filter.1 hmem).1
    refine (hcoherent.funcKeys entry hentry).map fun key key' heq => ?_
    exact congrArg FuncRef.key heq
  · refine List.Pairwise.filter _ ((List.pairwise_map.1 hids).imp fun hne ref hmem hmem' => ?_)
    obtain ⟨key, -, rfl⟩ := List.mem_map.1 hmem
    obtain ⟨key', -, heq⟩ := List.mem_map.1 hmem'
    exact hne (congrArg FuncRef.package heq).symm

end

/-! ## Turns -/

/-- The entry function of a program gets the set-up of the agent, unless it has one. -/
inductive SetsUp (agent appName : String) : List Stmt → List Stmt → Prop where
  | existing {stmts : List Stmt} : SetsUp agent appName stmts stmts
  | fresh {stmts : List Stmt} :
      SetsUp agent appName stmts
        (agentInit agent appName ++ lowerRedeclarations [agent, "err"] stmts ++
          [agentShutdown agent])

inductive Turn : Application → Application → Prop where
  | main {app app' : Application} {ref : FuncRef} {body body' : Block} {stmts : List Stmt} :
      isEntryPoint app ref = true → ref ∉ app.entered → app.body? ref = some body →
      body'.trailing = body.trailing → SetsUp app.agent app.appName body.stmts stmts →
      Weaves (opened app ref) stmts app' body'.stmts → Turn app (app'.setBody ref (some body'))
  | root {app app' : Application} {ref : FuncRef} {body body' : Block} :
      app.mayInstrument ref = true → app.body? ref = some body → body'.trailing = body.trailing →
      Weaves (opened app ref) body.stmts app' body'.stmts →
      Turn app (app'.setBody ref (some body'))
  | sweep {app app' : Application} {ref : FuncRef} {body body' : Block} :
      app.IsFree ref → app.body? ref = some body → body'.trailing = body.trailing →
      Weaves (app.setBody ref none) body.stmts app' body'.stmts →
      Turn app (app'.setBody ref (some body'))
  | needImport {app : Application} (package path : String) : Turn app (app.needImport package path)

/-- Turns one after the other. -/
abbrev Turns := Relation.ReflTransGen Turn

theorem isSome_entry?_of_body? {app : Application} {ref : FuncRef} {body : Block}
    (h : app.body? ref = some body) : (app.entry? ref).isSome = true := by
  unfold Application.body? at h
  rw [app.func?_eq, Application.place?] at h
  cases hentry : app.entry? ref <;> simp_all

theorem Turn.grows {app app' : Application} (hdiffer : app.PlacesDiffer) (h : Turn app app') :
    Grows app app' := by
  cases h with
  | @main app' ref body body' stmts hentry hentered hbody _ _ hweaves =>
      have hmark := Grows.mark (.inr ⟨hentry, hentered⟩) (isSome_entry?_of_body? hbody)
      have houtline := outline_opened app ref
      exact hmark.around hdiffer (by simp [hbody]) (isFree_of_isEntryPoint hentry)
        (hweaves.grows (placesDiffer_of_outline houtline hdiffer)) body'
  | @root app' ref body body' hmay hbody _ hweaves =>
      have hmark := Grows.mark (.inl hmay) (isSome_entry?_of_body? hbody)
      have houtline := outline_opened app ref
      exact hmark.around hdiffer (by simp [hbody]) (isFree_of_mayInstrument hmay)
        (hweaves.grows (placesDiffer_of_outline houtline hdiffer)) body'
  | @sweep app' ref body body' hfree hbody _ hweaves =>
      have hopened := placesDiffer_of_outline (outline_setBody app ref none) hdiffer
      exact Grows.refl.around hdiffer (by simp [hbody]) hfree (hweaves.grows hopened) body'
  | needImport package path => exact .needImport app package path

theorem Turns.grows {app app' : Application} (hdiffer : app.PlacesDiffer) (h : Turns app app') :
    Grows app app' := by
  induction h with
  | refl => exact .refl
  | tail _ hturn ih =>
      exact ih.trans hdiffer (hturn.grows (placesDiffer_of_outline ih.outline hdiffer))

/-! ## The detectors of roots -/

theorem setUpAgent_setsUp (ref : FuncRef) (body : Block) (app : Application) :
    Weave.wp (setUpAgent ref body) (fun result app' =>
      (∃ stmts, result.1 = { body with stmts } ∧ SetsUp app.agent app.appName body.stmts stmts) ∧
        ∀ stmts, Weaves app stmts app' stmts) app := by
  obtain ⟨stmts, trailing, inline⟩ := body
  unfold setUpAgent
  split
  · exact ⟨⟨stmts, rfl, .existing⟩, fun _ => .refl⟩
  · simp only [Weave.wp_bind, Weave.wp_get, Weave.wp_needImport, Weave.wp_pure]
    exact ⟨⟨_, rfl, .fresh⟩, fun _ => .trans (.needImport ..) (.needImport ..)⟩

/-- No call leads into an entry function. -/
theorem Weaves.entered_main {app app' : Application} {stmts stmts' : List Stmt}
    (h : Weaves app stmts app' stmts') :
    ∀ ref ∈ app'.entered, ref.key = "main" → ref ∈ app.entered := by
  induction h with
  | trans _ _ ih ih' => exact fun ref hmem hkey => ih ref (ih' ref hmem hkey) hkey
  | nested _ _ _ _ ih => exact ih
  | @enter app app' _ _ _ ref passing _ _ _ hands _ _ _ _ _ ih =>
      intro other hmem hkey
      have hentered : (opened (passing.applyTo ref app) ref).entered = ref :: app.entered := by
        unfold Passing.applyTo
        split <;> rfl
      have hmem' := ih other hmem hkey
      rw [hentered] at hmem'
      obtain rfl | hmem' := List.mem_cons.1 hmem'
      · exact absurd hkey hands.key_ne
      · exact hmem'
  | _ => exact fun _ hmem _ => hmem

section

variable {walks : Nat → Walk} (hwalks : ∀ depth, (walks depth).Weaves)

include hwalks

theorem traceMain_turn {ref : FuncRef} {app : Application}
    (hfresh : ref.key = "main" → ref ∉ app.entered) :
    Weave.wp (traceMain walks ref) (fun found app' => (found = false ∧ app' = app) ∨
      (found = true ∧ ref.key = "main" ∧ Turn app app' ∧
        ∀ other ∈ app'.entered, other.key = "main" → other = ref ∨ other ∈ app.entered)) app := by
  unfold traceMain fullWalk Weave.withBody
  simp only [Weave.wp_bind, Weave.wp_get]
  split
  · exact .inl ⟨rfl, rfl⟩
  · next hentry =>
    simp only [Bool.or_eq_true, Bool.not_eq_eq_eq_not, Bool.not_true, not_or, Bool.not_eq_false,
      Bool.not_eq_true, Option.isNone_eq_false_iff] at hentry
    obtain ⟨body, hbody⟩ := Option.isSome_iff_exists.1 hentry.2
    have hmarked : (app.markTraced ref).body? ref = some body := by
      rw [Application.body?, Application.func?_markTraced]
      exact hbody
    have hkey : ref.key = "main" := by
      have hentry := hentry.1
      simp only [isEntryPoint, Bool.and_eq_true, beq_iff_eq] at hentry
      exact hentry.1.1
    simp only [Weave.wp_bind, Weave.wp_pure, Weave.wp_get, Weave.wp_modify, hmarked]
    refine (setUpAgent_setsUp ref body (opened app ref)).mono ?_
    rintro ⟨prepared, agent⟩ app' ⟨⟨stmts, hprepared, hsetsUp⟩, himports⟩
    simp only [Weave.wp_bind, Trace.wp_run]
    have hbinds : ((Frame.main ref.package agent).declare agent).Binds := by
      intro _ hstmt
      cases hstmt
    refine (traceBody_weaves (hwalks _) prepared hbinds app').mono fun body' _ app'' h => ?_
    obtain ⟨stmts', rfl, hweaves⟩ := h
    subst hprepared
    have hwoven := (himports stmts).trans hweaves
    refine .inr ⟨rfl, hkey, .main hentry.1 (hfresh hkey) hbody rfl hsetsUp hwoven, ?_⟩
    exact fun other hmem hmain => List.mem_cons.1 (hwoven.entered_main other hmem hmain)

theorem traceFunction_turn {ref : FuncRef} {frame : Frame} (hbinds : frame.Binds)
    {app : Application} (hdiffer : app.PlacesDiffer) (hmay : app.mayInstrument ref = true)
    (depth : Nat) :
    Weave.wp (traceFunction (walks depth) ref frame) (fun _ app' =>
      Turn app app' ∧ app'.isTraced ref = true) (app.markTraced ref) := by
  obtain ⟨body, hbody⟩ := Option.isSome_iff_exists.1 (isSome_body?_of_mayInstrument hmay)
  have hmarked : (app.markTraced ref).body? ref = some body := by
    rw [Application.body?, Application.func?_markTraced]
    exact hbody
  refine (traceFunction_weaves (hwalks depth) hbinds hmarked).mono fun _ app' h => ?_
  obtain ⟨app'', body', htrailing, hweaves, rfl⟩ := h
  refine ⟨.root hmay hbody htrailing hweaves, ?_⟩
  have hmark := Grows.mark (.inl hmay) (isSome_entry?_of_body? hbody)
  have houtline := outline_opened app ref
  have hopened := isTraced_opened (isSome_entry?_of_body? hbody)
  rw [isTraced_setBody]
  exact (hweaves.grows (placesDiffer_of_outline houtline hdiffer)).isTraced ref hopened

end

/-- The detector accepts functions that have not been reached, and reaches them. -/
def AcceptsFresh (detect : FuncRef → Weave Bool) : Prop :=
  ∀ ref app, app.PlacesDiffer → Weave.wp (detect ref) (fun found app' => Turns app app' ∧
    (found = true → app.mayInstrument ref = true ∧ app'.isTraced ref = true)) app

section

variable {walks : Nat → Walk} (hwalks : ∀ depth, (walks depth).Weaves)

include hwalks

theorem traceHandler_acceptsFresh : AcceptsFresh (traceHandler walks) := by
  intro ref app hdiffer
  unfold traceHandler fullWalk
  simp only [Weave.wp_bind, Weave.wp_get]
  split
  · exact ⟨.refl, nofun⟩
  · next hmay =>
    simp only [Bool.not_eq_eq_eq_not, Bool.not_true, Bool.not_eq_false] at hmay
    split
    · exact ⟨.refl, nofun⟩
    · next request _ =>
      simp only [Weave.wp_bind, Weave.wp_pure, Weave.wp_get, Weave.wp_modify, Weave.wp_needImport]
      have hbinds : (Frame.withBinding ref.package app.agent transactionVariable
          (bindFromContext transactionVariable (methodCall (.ident request) "Context" []))).Binds := by
        intro stmt hstmt
        cases hstmt
        exact ⟨_, _, .method request, rfl⟩
      have hdiffer' := placesDiffer_of_outline
        (app.outline_needImport ref.package Path.newrelic) hdiffer
      have hmay' : (app.needImport ref.package Path.newrelic).mayInstrument ref = true := by
        rw [mayInstrument_needImport, hmay]
      refine (traceFunction_turn hwalks hbinds hdiffer' hmay' _).mono fun _ app' h => ?_
      exact ⟨.tail (.single (.needImport ref.package Path.newrelic)) h.1, fun _ => ⟨hmay, h.2⟩⟩

theorem traceServiceMethod_acceptsFresh : AcceptsFresh (traceServiceMethod walks) := by
  intro ref app hdiffer
  unfold traceServiceMethod fullWalk
  simp only [Weave.wp_bind, Weave.wp_get]
  split
  · exact ⟨.refl, nofun⟩
  · next hmay =>
    simp only [Bool.not_eq_eq_eq_not, Bool.not_true, Bool.not_eq_false] at hmay
    split
    · exact ⟨.refl, nofun⟩
    · split
      · exact ⟨.refl, nofun⟩
      · split
        · exact ⟨.refl, nofun⟩
        · next carrier _ =>
          simp only [Weave.wp_bind, Weave.wp_pure, Weave.wp_get, Weave.wp_modify]
          have hbinds := traced_binds ref.package app.agent carrier transactionVariable
          refine (traceFunction_turn hwalks hbinds hdiffer hmay _).mono fun _ app' h => ?_
          exact ⟨.single h.1, fun _ => ⟨hmay, h.2⟩⟩

end

/-! ## Phases -/

/-- What each detection keeps, the whole phase keeps. -/
theorem filterM_wp {detect : FuncRef → Weave Bool}
    {Q : List FuncRef → List FuncRef → Application → Prop}
    (hstep : ∀ ref refs accepted app, Q (ref :: refs) accepted app →
      Weave.wp (detect ref) (fun found app' =>
        Q refs (if found then ref :: accepted else accepted) app') app)
    {refs : List FuncRef} {app : Application} (h : Q refs [] app) :
    Weave.wp (refs.filterM detect) (fun accepted app' => Q [] accepted.reverse app') app := by
  have haux : ∀ refs accepted app, Q refs accepted app →
      Weave.wp (refs.filterAuxM detect accepted) (fun accepted app' => Q [] accepted app') app := by
    intro refs
    induction refs with
    | nil => exact fun accepted app h => h
    | cons ref refs ih =>
        intro accepted app h
        rw [List.filterAuxM, Weave.wp_bind]
        refine (hstep ref refs accepted app h).mono fun found app' h' => ?_
        cases found with
        | false => exact ih accepted app' h'
        | true => exact ih (ref :: accepted) app' h'
  unfold List.filterM
  rw [Weave.wp_bind]
  refine (haux refs [] app h).mono fun accepted app' h' => ?_
  rw [Weave.wp_pure, List.reverse_reverse]
  exact h'

/-- The entry functions that are left have not been entered. -/
structure MainsLeft (app : Application) (refs accepted : List FuncRef) (app' : Application) :
    Prop where
  turns : Turns app app'
  nodup : refs.Nodup
  fresh : ∀ ref ∈ refs, ref.key = "main" → ref ∉ app'.entered
  distinct : accepted.Nodup
  mains : ∀ ref ∈ accepted, ref.key = "main" ∧ ref ∉ refs

theorem MainsLeft.step {walks : Nat → Walk} (hwalks : ∀ depth, (walks depth).Weaves)
    {app app' : Application} {ref : FuncRef} {refs accepted : List FuncRef}
    (h : MainsLeft app (ref :: refs) accepted app') :
    Weave.wp (traceMain walks ref) (fun found app'' =>
      MainsLeft app refs (if found then ref :: accepted else accepted) app'') app' := by
  obtain ⟨hturns, hnodup, hfresh, haccepted, hmains⟩ := h
  rw [List.nodup_cons] at hnodup
  have hothers : ∀ other ∈ accepted, other.key = "main" ∧ other ∉ refs := fun other hmem =>
    ⟨(hmains other hmem).1, fun h => (hmains other hmem).2 (by simp [h])⟩
  refine (traceMain_turn hwalks (hfresh ref (by simp))).mono fun found app'' h => ?_
  obtain ⟨rfl, rfl⟩ | ⟨rfl, hkey, hturn, hnew⟩ := h
  · exact ⟨hturns, hnodup.2, fun other hmem => hfresh other (by simp [hmem]), haccepted, hothers⟩
  · refine ⟨hturns.tail hturn, hnodup.2, fun other hmem hmain hentered => ?_, ?_, ?_⟩
    · obtain rfl | hold := hnew other hentered hmain
      · exact hnodup.1 hmem
      · exact hfresh other (by simp [hmem]) hmain hold
    · exact List.nodup_cons.2 ⟨fun hmem => (hmains ref hmem).2 (by simp), haccepted⟩
    · intro other hmem
      obtain rfl | hmem := List.mem_cons.1 hmem
      · exact ⟨hkey, hnodup.1⟩
      · exact hothers other hmem

theorem MainsLeft.start {app : Application} (hcoherent : app.Coherent) (hentered : app.entered = []) :
    MainsLeft app (candidates app) [] app :=
  ⟨.refl, candidates_nodup hcoherent, by simp [hentered], .nil, by simp⟩

theorem traceMain_phase {walks : Nat → Walk} (hwalks : ∀ depth, (walks depth).Weaves)
    {app : Application} (hcoherent : app.Coherent) (hentered : app.entered = []) :
    Weave.wp ((candidates app).filterM (traceMain walks)) (fun accepted app' =>
      Turns app app' ∧ accepted.Nodup ∧ ∀ ref ∈ accepted, ref.key = "main") app := by
  refine (filterM_wp (Q := MainsLeft app) (fun _ _ _ _ h => h.step hwalks)
    (.start hcoherent hentered)).mono fun accepted app' h => ?_
  refine ⟨h.turns, List.nodup_reverse.1 h.distinct, fun ref hmem => (h.mains ref ?_).1⟩
  exact List.mem_reverse.2 hmem

theorem AcceptsFresh.phase {detect : FuncRef → Weave Bool} (hdetect : AcceptsFresh detect)
    {app : Application} (hdiffer : app.PlacesDiffer) (refs : List FuncRef) :
    Weave.wp (refs.filterM detect) (fun accepted app' => Turns app app' ∧ accepted.Nodup ∧
      ∀ ref ∈ accepted, app.mayInstrument ref = true ∧ app'.isTraced ref = true) app := by
  let Q (_ accepted : List FuncRef) (app' : Application) : Prop :=
    Turns app app' ∧ accepted.Nodup ∧
      ∀ ref ∈ accepted, app.mayInstrument ref = true ∧ app'.isTraced ref = true
  have hstart : Q refs [] app := ⟨.refl, .nil, by simp⟩
  refine (filterM_wp (Q := Q) (fun ref refs accepted app' h => ?_) hstart).mono
    fun accepted app' h => ?_
  · obtain ⟨hturns, hnodup, haccepted⟩ := h
    have hgrows := hturns.grows hdiffer
    have hdiffer' := placesDiffer_of_outline hgrows.outline hdiffer
    refine (hdetect ref app' hdiffer').mono fun found app'' h => ?_
    obtain ⟨hturns', hfound⟩ := h
    have hkept : ∀ ref ∈ accepted, app.mayInstrument ref = true ∧ app''.isTraced ref = true :=
      fun other hmem => ⟨(haccepted other hmem).1,
        (hturns'.grows hdiffer').isTraced other (haccepted other hmem).2⟩
    cases found with
    | false => exact ⟨hturns.trans hturns', hnodup, hkept⟩
    | true =>
        obtain ⟨hmay, htraced⟩ := hfound rfl
        have hnew : ref ∉ accepted := by
          intro hmem
          rw [Application.mayInstrument_eq] at hmay
          simp [(haccepted ref hmem).2] at hmay
        refine ⟨hturns.trans hturns', List.nodup_cons.2 ⟨hnew, hnodup⟩, fun other hmem => ?_⟩
        obtain rfl | hmem := List.mem_cons.1 hmem
        · exact ⟨hgrows.mayInstrument hmay, htraced⟩
        · exact hkept other hmem
  · obtain ⟨hturns, hnodup, haccepted⟩ := h
    refine ⟨hturns, List.nodup_reverse.1 hnodup, fun ref hmem => haccepted ref ?_⟩
    exact List.mem_reverse.2 hmem

/-! ## The sweep -/

theorem sweepFunction_turns {app : Application} {ref : FuncRef} (hfree : app.IsFree ref) :
    Weave.wp (sweepFunction ref) (fun _ app' => Turns app app') app := by
  unfold sweepFunction Weave.withBody
  simp only [Weave.wp_bind, Weave.wp_get]
  split
  · exact .refl
  · next body hbody =>
    simp only [Weave.wp_bind, Weave.wp_modify]
    refine (sweep_weaves ref.package _ body.stmts (app.setBody ref none)).mono ?_
    intro stmts app' hweaves
    have hturn : Turn app (app'.setBody ref (some { body with stmts })) :=
      .sweep hfree hbody rfl hweaves
    exact .single hturn

theorem sweepAll_turns {app : Application} (hdiffer : app.PlacesDiffer) (refs : List FuncRef)
    (hfree : ∀ ref ∈ refs, app.IsFree ref) :
    Weave.wp (refs.forM sweepFunction) (fun _ app' => Turns app app') app := by
  induction refs generalizing app with
  | nil => exact .refl
  | cons ref refs ih =>
      rw [List.forM, Weave.wp_bind]
      refine (sweepFunction_turns (hfree ref (by simp))).mono fun _ app' hturns => ?_
      have houtline := (hturns.grows hdiffer).outline
      refine (ih (placesDiffer_of_outline houtline hdiffer) fun other hmem =>
        isFree_of_outline houtline (hfree other (by simp [hmem]))).mono fun _ app'' hturns' => ?_
      exact hturns.trans hturns'

/-! ## Runs -/

theorem traceRoots_wp (detector : RootDetector) (Q : List FuncRef → Application → Prop)
    (app : Application) : Weave.wp (traceRoots detector) Q app =
      Weave.wp ((candidates app).filterM detector.detect) Q app := rfl

/-- What follows on the entry functions: turns, and roots that are no entry functions. -/
theorem weave_after_mains {Q : List FuncRef → Application → Prop} {app : Application}
    (hcoherent : app.Coherent)
    (hmains : Weave.wp ((candidates app).filterM (traceMain walkBlock)) (fun mains app₁ =>
      Turns app app₁ ∧ Q mains app₁) app) :
    Weave.wp weave (fun roots app' => ∃ mains app₁ later, Turns app app₁ ∧ Q mains app₁ ∧
      Turns app₁ app' ∧ roots = mains ++ later ∧ later.Nodup ∧ ∀ ref ∈ later, ref.key ≠ "main")
      app := by
  have hdiffer := hcoherent.placesDiffer
  unfold weave weaveFrom rootDetectors rootDetectorsWith
  simp only [List.mapM_cons, List.mapM_nil, Weave.wp_bind]
  rw [traceRoots_wp]
  refine hmains.mono ?_
  rintro mains app₁ ⟨hturns₁, hQ⟩
  have houtline₁ := (hturns₁.grows hdiffer).outline
  have hdiffer₁ := placesDiffer_of_outline houtline₁ hdiffer
  simp only [Weave.wp_bind]
  rw [traceRoots_wp]
  refine ((traceHandler_acceptsFresh walkBlock_weaves).phase hdiffer₁ _).mono ?_
  rintro handlers app₂ ⟨hturns₂, hhandlers, hhandler⟩
  have houtline₂ := (hturns₂.grows hdiffer₁).outline
  have hdiffer₂ := placesDiffer_of_outline houtline₂ hdiffer₁
  simp only [Weave.wp_bind]
  rw [traceRoots_wp]
  refine ((traceServiceMethod_acceptsFresh walkBlock_weaves).phase hdiffer₂ _).mono ?_
  rintro methods app₃ ⟨hturns₃, hmethods, hmethod⟩
  have houtline₃ := (hturns₃.grows hdiffer₂).outline
  have hdiffer₃ := placesDiffer_of_outline houtline₃ hdiffer₂
  have hcoherent₃ := coherent_of_outline (houtline₃.trans (houtline₂.trans houtline₁)) hcoherent
  simp only [Weave.wp_pure, Weave.wp_bind, Weave.wp_get]
  refine (sweepAll_turns hdiffer₃ _ fun ref => isFree_of_mem_candidates hcoherent₃).mono ?_
  intro _ app₄ hturns₄
  -- what one phase accepts, no later one can
  have hnotMain : ∀ {app : Application} {ref : FuncRef}, app.mayInstrument ref = true →
      ref.key ≠ "main" := by
    intro app ref hmay hkey
    rw [Application.mayInstrument_eq] at hmay
    unfold Application.isEligible at hmay
    cases hpackage : app.package? ref.package <;> simp_all
  have hhandlerMethod : ∀ ref ∈ handlers, ref ∉ methods := by
    intro ref hmem hmem'
    have hmay := (hmethod ref hmem').1
    rw [Application.mayInstrument_eq] at hmay
    simp [(hhandler ref hmem).2] at hmay
  have hflatten : [mains, handlers, methods].flatten = mains ++ (handlers ++ methods) := by simp
  refine ⟨mains, app₁, handlers ++ methods, hturns₁, hQ, hturns₂.trans (hturns₃.trans hturns₄),
    hflatten, ?_, fun ref hmem => ?_⟩
  · exact List.nodup_append.2 ⟨hhandlers, hmethods, fun ref hmem ref' hmem' heq =>
      hhandlerMethod ref hmem (heq ▸ hmem')⟩
  · obtain hmem | hmem := List.mem_append.1 hmem
    · exact hnotMain (hhandler ref hmem).1
    · exact hnotMain (hmethod ref hmem).1

theorem weave_turns {app : Application} (hcoherent : app.Coherent) (hentered : app.entered = []) :
    Weave.wp weave (fun roots app' => Turns app app' ∧ roots.Nodup) app := by
  refine (weave_after_mains hcoherent (traceMain_phase walkBlock_weaves hcoherent hentered)).mono ?_
  rintro _ app' ⟨mains, app₁, later, hturns, ⟨hmains, hmain⟩, hturns', rfl, hlater, hnotMain⟩
  refine ⟨hturns.trans hturns', List.nodup_append.2 ⟨hmains, hlater, ?_⟩⟩
  intro ref hmem ref' hmem' heq
  exact hnotMain ref' hmem' (heq ▸ hmain ref hmem)

end TraceWeave.Tracing
