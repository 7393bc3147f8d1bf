import TraceWeave.Instrument

/-!
Runs that fail.

A run goes through its stages in order: loading, discovery, weaving, fetching, writing.  Modules
are fetched for an ascending list of imports up to a first failure (`fetchUntilFailure_cases`),
and the sink comes last, so that a run that fails before it has written nothing.
-/

namespace TraceWeave.Program

open TraceWeave.Order TraceWeave.Syntax

/-! ## Modules -/

/-- Either all imports are fetched, or the ones up to the first that cannot be. -/
theorem fetchUntilFailure_cases (fetcher : Fetcher) (imports : List AddedImport) :
    (fetchUntilFailure fetcher imports = (imports, none) ∧ ∀ added ∈ imports, fetcher added = none) ∨
      ∃ front added back failure, imports = front ++ added :: back ∧
        fetcher added = some failure ∧ (∀ added ∈ front, fetcher added = none) ∧
        fetchUntilFailure fetcher imports = (front ++ [added], some failure) := by
  induction imports with
  | nil => exact .inl ⟨rfl, by simp⟩
  | cons added imports ih =>
      cases hfetch : fetcher added with
      | some failure =>
          exact .inr ⟨[], added, imports, failure, rfl, hfetch, by simp, by simp [fetchUntilFailure, hfetch]⟩
      | none =>
          obtain ⟨hall, hnone⟩ | ⟨front, last, back, failure, rfl, hlast, hfront, hasked⟩ := ih
          · exact .inl ⟨by simp [fetchUntilFailure, hfetch, hall], by simpa [hfetch] using hnone⟩
          · exact .inr ⟨added :: front, last, back, failure, rfl, hlast, by simpa [hfetch] using hfront,
              by simp [fetchUntilFailure, hfetch, hasked]⟩

theorem pairwise_addImports (app : Application) :
    (addImports app).2.Pairwise fun added added' => compare added added' = .lt :=
  pairwise_sortedDistinct _

/-- A sink fails in one way only. -/
theorem Sink.write_failure (sink : Sink) {taken texts : List String} {failure : Failure}
    (h : (sink.write taken texts).2 = some failure) : ∃ detail, failure = .write detail := by
  induction texts generalizing taken with
  | nil =>
      obtain ⟨detail, -, rfl⟩ := Option.map_eq_some_iff.1 h
      exact ⟨detail, rfl⟩
  | cons text texts ih =>
      unfold Sink.write at h
      split at h
      · next refusal _ => exact ⟨refusal.detail, (Option.some.inj h).symm⟩
      · exact ih h

end TraceWeave.Program

namespace TraceWeave

open TraceWeave.Order TraceWeave.Program TraceWeave.Source TraceWeave.Syntax TraceWeave.Tracing

/-! ## Outcomes -/

/-- What a run asks for and writes, whether it fails or not. -/
structure Outcome.Sparing (fetcher : Fetcher) (outcome : Outcome) : Prop where
  /-- A failure that is not one of the sink leaves nothing written. -/
  writesNothing : ∀ failure, outcome.result = .error failure →
    (∀ detail, failure ≠ .write detail) → outcome.patches = []
  /-- No import is asked for twice. -/
  ascending : outcome.asked.Pairwise fun added added' => compare added added' = .lt
  foreign : ∀ added ∈ outcome.asked, isStandardPath added.path = false
  /-- Nothing is asked for behind a failure. -/
  stops : ∀ front added back, outcome.asked = front ++ added :: back →
    (fetcher added).isSome = true → back = []
  fails : ∀ added ∈ outcome.asked, ∀ failure, fetcher added = some failure →
    outcome.result = .error failure
  fetched : outcome.patches ≠ [] → ∀ added ∈ outcome.asked, fetcher added = none
  /-- A run that succeeds has asked for all that it lists and that is not standard. -/
  complete : ∀ report, outcome.result = .ok report →
    outcome.asked = report.imports.filter fun added => !isStandardPath added.path

section

variable {fetcher : Fetcher}

/-- Before modules are fetched nothing is asked for and nothing is written. -/
theorem Outcome.sparing_early (failure : Failure) :
    Outcome.Sparing fetcher { result := .error failure } where
  writesNothing _ _ _ := rfl
  ascending := .nil
  foreign _ h := by contradiction
  stops front _ _ h := by simp at h
  fails _ h := by contradiction
  fetched h := absurd rfl h
  complete _ h := by contradiction

variable {imports : List AddedImport}

theorem Outcome.sparing_fetched {front back : List AddedImport} {added : AddedImport}
    {failure : Failure} {console : Console}
    (hascending : imports.Pairwise fun added added' => compare added added' = .lt)
    (hforeign : ∀ added ∈ imports, isStandardPath added.path = false)
    (himports : imports = front ++ added :: back) (hadded : fetcher added = some failure)
    (hfront : ∀ added ∈ front, fetcher added = none) :
    Outcome.Sparing fetcher { result := .error failure, asked := front ++ [added], console } := by
  have hasked : front ++ [added] <+: imports := ⟨back, by simp [himports]⟩
  refine {
    writesNothing := fun _ _ _ => rfl
    ascending := hascending.sublist hasked.sublist
    foreign := fun other hmem => hforeign other (hasked.subset hmem)
    stops := fun front' other back' heq hother => ?_
    fails := fun other hmem failure' hother => ?_
    fetched := fun h => absurd rfl h
    complete := fun _ h => by contradiction }
  · cases back' with
    | nil => rfl
    | cons next back' =>
        -- the imports in front of the last one were fetched
        have hmem : other ∈ front := by
          have hdrop := congrArg List.dropLast heq
          rw [List.dropLast_concat, List.dropLast_append_of_ne_nil (by simp)] at hdrop
          simp [hdrop]
        simp [hfront other hmem] at hother
  · obtain hmem | hmem := List.mem_append.1 hmem
    · rw [hfront other hmem] at hother
      contradiction
    · obtain rfl := List.mem_singleton.1 hmem
      rw [hadded] at hother
      rw [Option.some.inj hother]

theorem sparing_deliver (workspace : Workspace) (fetcher : Fetcher) (sink : Sink)
    (app : Application) {report : Report}
    (h : report.imports.Pairwise fun added added' => compare added added' = .lt) :
    Outcome.Sparing fetcher (workspace.deliver fetcher sink app report) := by
  have hneeded : (report.imports.filter fun added => !isStandardPath added.path).Pairwise
      fun added added' => compare added added' = .lt := h.sublist List.filter_sublist
  have hforeign : ∀ added ∈ report.imports.filter fun added => !isStandardPath added.path,
      isStandardPath added.path = false := fun added hmem => by simpa using (List.mem_filter.1 hmem).2
  unfold Source.Workspace.deliver fetchModules
  obtain ⟨hasked, hfetched⟩ | ⟨front, last, back, failure, hsplit, hlast, hfront, hasked⟩ :=
    fetchUntilFailure_cases fetcher (report.imports.filter fun added => !isStandardPath added.path)
  · have hwritten := @Sink.write_failure sink [] (patches workspace.root app)
    rw [hasked]
    dsimp only
    generalize sink.write [] (patches workspace.root app) = written at hwritten ⊢
    obtain ⟨written, failed⟩ := written
    refine {
      writesNothing := fun failure hresult hwrite => ?_
      ascending := hneeded
      foreign := hforeign
      stops := fun front added back heq hadded => ?_
      fails := fun added hmem failure hadded => ?_
      fetched := fun _ => hfetched
      complete := fun report' hresult => ?_ }
    · cases failed with
      | none => contradiction
      | some failure' =>
          obtain ⟨detail, rfl⟩ := hwritten rfl
          exact absurd (Except.error.inj hresult).symm (hwrite detail)
    · have hmem : added ∈ report.imports.filter fun added => !isStandardPath added.path := by
        rw [show report.imports.filter _ = front ++ added :: back from heq]
        simp
      simp [hfetched added hmem] at hadded
    · rw [hfetched added hmem] at hadded
      contradiction
    · cases failed with
      | none =>
          obtain rfl := Except.ok.inj hresult
          rfl
      | some failure' => contradiction
  · rw [hasked]
    exact Outcome.sparing_fetched hneeded hforeign hsplit hlast hfront

theorem sparing_instrumented (workspace : Workspace) (fetcher : Fetcher) (sink : Sink)
    (app : Application) : Outcome.Sparing fetcher (workspace.instrumented fetcher sink app) := by
  unfold Source.Workspace.instrumented
  generalize weave.run app = woven
  obtain ⟨roots, woven⟩ := woven
  dsimp only
  generalize fixCallSites woven = fixed
  obtain ⟨fixed, callSitesFixed⟩ := fixed
  dsimp only
  have himports := pairwise_addImports fixed
  generalize addImports fixed = added at himports ⊢
  obtain ⟨added, imports⟩ := added
  exact sparing_deliver workspace fetcher sink added himports

/-- Whatever a run fails of, it asks in order, stops at a failure, and writes last. -/
theorem instrumentTo_sparing (sink : Sink) (fetcher : Fetcher) (disk : Node) (options : Options) :
    Outcome.Sparing fetcher (instrumentTo sink fetcher disk options) := by
  unfold instrumentTo
  split
  · exact Outcome.sparing_early _
  · split
    · exact Outcome.sparing_early _
    · next workspace _ =>
      split
      · exact Outcome.sparing_early _
      · next app _ => exact sparing_instrumented workspace fetcher sink app

end

end TraceWeave
