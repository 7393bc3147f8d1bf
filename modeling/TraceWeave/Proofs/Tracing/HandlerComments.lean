import TraceWeave.Agent.Integration
import TraceWeave.Proofs.Syntax.CallLayout

/-!
Comments around the arguments of a registration that is wrapped.

The wrapper takes the bands of the first argument, which keeps them, and writes both arguments on
one line.  So the comments behind the first argument are written twice, those above the second one
are lost, and a line comment behind either hides what follows (`wrappedRegistration_comments`).
-/

namespace TraceWeave.Syntax

/-- The comment stands above a node, as one that is read from a source. -/
def isAbove (text : String) : Bool := text.toList.head? == some '/'

namespace Decorations.FromSource

variable {decs : Decorations}

theorem filter_leadComments (h : decs.FromSource) :
    decs.leadComments.filter isAbove = decs.leadComments := by
  refine List.filter_eq_self.2 fun line hline => ?_
  obtain ⟨hmem, hline⟩ := List.mem_filter.1 hline
  exact beq_iff_eq.2 (h.lead line hmem hline)

theorem isAbove_of_mem_trail (h : decs.FromSource) {text : String} (hmem : text ∈ decs.trail) :
    isAbove text = false := by
  have hblank := h.trail text hmem
  cases hhead : text.toList.head? with
  | none => simp [isAbove, hhead]
  | some c =>
      have hc : c ≠ '/' := by
        rintro rfl
        rw [hhead] at hblank
        exact absurd hblank (by decide)
      simp [isAbove, hhead, hc]

end Decorations.FromSource

/-- The comments above and behind two nodes can be told apart, so that a list which repeats those
behind the first node shows each comment once only if there are none. -/
theorem comments_perm_iff {first second : Decorations} (hfirst : first.FromSource)
    (hsecond : second.FromSource) (breaks : Bool) :
    ((if breaks then first.leadComments else []) ++
        (first.trail ++ second.trail ++ first.trail)).Perm (first.comments ++ second.comments) ↔
      first.trail = [] ∧ second.leadComments = [] ∧
        (breaks = true ∨ first.leadComments = []) := by
  have hnone {decs : Decorations} (h : decs.FromSource) : decs.trail.filter isAbove = [] :=
    List.filter_eq_nil_iff.2 fun text hmem => by simp [h.isAbove_of_mem_trail hmem]
  constructor
  · intro hperm
    -- Counting is enough: first the comments above the nodes alone, then all of them.
    have habove := (hperm.filter isAbove).length_eq
    have hlength := hperm.length_eq
    cases breaks with
    | true =>
        simp only [if_true, Decorations.comments, List.filter_append, hfirst.filter_leadComments,
          hsecond.filter_leadComments, hnone hfirst, hnone hsecond, List.append_nil,
          List.length_append] at habove hlength
        have hlead : second.leadComments.length = 0 := by omega
        have htrail : first.trail.length = 0 := by omega
        exact ⟨List.length_eq_zero_iff.1 htrail, List.length_eq_zero_iff.1 hlead, .inl rfl⟩
    | false =>
        simp only [Bool.false_eq_true, if_false, Decorations.comments, List.filter_append,
          hfirst.filter_leadComments, hsecond.filter_leadComments, hnone hfirst, hnone hsecond,
          List.append_nil, List.nil_append, List.length_append, List.length_nil] at habove hlength
        have hlead : first.leadComments.length = 0 ∧ second.leadComments.length = 0 := by omega
        have htrail : first.trail.length = 0 := by omega
        exact ⟨List.length_eq_zero_iff.1 htrail, List.length_eq_zero_iff.1 hlead.2,
          .inr (List.length_eq_zero_iff.1 hlead.1)⟩
  · rintro ⟨htrail, hlead, hbreaks⟩
    have hshown : (if breaks then first.leadComments else []) = first.leadComments := by
      rcases hbreaks with rfl | hnone
      · rfl
      · simp [hnone]
    simp [Decorations.comments, hshown, htrail, hlead]

end TraceWeave.Syntax

namespace TraceWeave.Agent

open TraceWeave.Syntax

section

variable {agent first second : Expr} {call : Call}

/-- The call of the wrapper, on one line. -/
def wrapperCall (agent first second : Expr) (call : Call) : Call :=
  let inline (arg : Expr) : Expr := { arg with decs := { arg.decs with before := .sameLine } }
  { callee := newrelic (handlerWrapper call), args := [agent, inline first, inline second] }

theorem isMultiline_wrapperCall (hagent : agent.decs = {}) :
    (wrapperCall agent first second call).isMultiline = false := by
  simp [wrapperCall, Call.isMultiline, Expr.breaks, hagent, Gap.isBreak]

theorem commentsIn_wrapperCall (hagent : agent.decs = {}) (indent depth : Nat) :
    commentsIn ((wrapperCall agent first second call).pieces ExprKind.asCode indent depth) =
      first.decs.trail ++ second.decs.trail := by
  rw [Call.commentsIn_of_oneLine (isMultiline_wrapperCall hagent)]
  simp [wrapperCall, hagent]

theorem harmless_wrapperCall (hagent : agent.decs = {}) (indent depth : Nat) (rest : List Piece) :
    Harmless ((wrapperCall agent first second call).pieces ExprKind.asCode indent depth ++ rest) ↔
      (∀ text ∈ first.decs.trail ++ second.decs.trail, isLineComment text = false) ∧
        Harmless rest := by
  rw [Call.harmless_of_oneLine (isMultiline_wrapperCall hagent)]
  simp [wrapperCall, hagent, or_imp, forall_and]

/-- A registration behind the wrapper, which has the bands of the first argument. -/
def wrappedCall (agent first second : Expr) (call : Call) : Call :=
  { call with args := [⟨.call (wrapperCall agent first second call), first.decs⟩] }

theorem wrapHandler?_eq_some (hargs : call.args = [first, second])
    (hwrapped : isWrappedHandler call = false) :
    wrapHandler? agent call = some (wrappedCall agent first second call) := by
  simp [wrapHandler?, hargs, hwrapped, wrappedCall, wrapperCall, Expr.call]

theorem commentsIn_wrappedCall (hagent : agent.decs = {}) (indent depth : Nat) :
    commentsIn ((wrappedCall agent first second call).pieces ExprKind.asCall indent depth) =
      (if first.breaks then first.decs.leadComments else []) ++
        (first.decs.trail ++ second.decs.trail ++ first.decs.trail) := by
  rw [wrappedCall, Call.commentsIn_single]
  exact congrArg (fun inside => (if first.breaks then first.decs.leadComments else []) ++
    (inside ++ first.decs.trail)) (commentsIn_wrapperCall hagent _ _)

theorem harmless_wrappedCall (hagent : agent.decs = {}) (indent depth : Nat) :
    Harmless ((wrappedCall agent first second call).pieces ExprKind.asCall indent depth) ↔
      ∀ text ∈ first.decs.trail ++ second.decs.trail, isLineComment text = false := by
  rw [wrappedCall]
  refine Call.harmless_single _ _ _ _ _ (fun rest => harmless_wrapperCall hagent _ _ rest) ?_
  exact fun hnone text hmem => hnone text (List.mem_append_left _ hmem)

/-- A registration with its wrapper is written of the comments above its first argument, if that
stands on a line of its own, those behind the first and the second argument, and those behind the
first one again.  Each comment is written once exactly where there is none to be lost or repeated,
and harmlessly exactly where no line comment stands behind an argument. -/
theorem wrappedRegistration_comments (hagent : agent.decs = {})
    (hargs : call.args = [first, second]) (hwrapped : isWrappedHandler call = false)
    (hfirst : first.decs.FromSource) (hsecond : second.decs.FromSource) :
    ∃ call', wrapHandler? agent call = some call' ∧ ∀ indent level depth,
      let pieces := call'.pieces ExprKind.asCall indent depth
      (∀ out, (ExprKind.call call').write indent level depth out = writePieces pieces out) ∧
        commentsIn pieces = (if first.breaks then first.decs.leadComments else []) ++
          (first.decs.trail ++ second.decs.trail ++ first.decs.trail) ∧
        ((commentsIn pieces).Perm (call.args.flatMap (·.decs.comments)) ↔
          first.decs.trail = [] ∧ second.decs.leadComments = [] ∧
            (first.breaks = true ∨ first.decs.leadComments = [])) ∧
        (Harmless pieces ↔
          ∀ text ∈ first.decs.trail ++ second.decs.trail, isLineComment text = false) := by
  refine ⟨_, wrapHandler?_eq_some hargs hwrapped, fun indent level depth => ⟨fun out => ?_,
    commentsIn_wrappedCall hagent _ _, ?_, harmless_wrappedCall hagent _ _⟩⟩
  · exact (Call.write_pieces _ ExprKind.write_asCall indent level depth out).symm
  · rw [commentsIn_wrappedCall hagent, hargs]
    simpa using comments_perm_iff hfirst hsecond first.breaks

end

/-- A registration with a comment behind its pattern, its arguments on lines of their own. -/
def rootRegistration : Call :=
  { callee := .qualified "http" "HandleFunc"
    args :=
      [{ Expr.string "/" with decs := { before := .newLine, trail := [" // root"] } },
        { Expr.ident "index" with decs := .ownLine }]
    closesLine := true }

theorem wrappedRegistration_comments_root :
    isWrappedHandler rootRegistration = false ∧
      (∀ arg ∈ rootRegistration.args, arg.decs.FromSource) ∧
      Harmless (rootRegistration.pieces ExprKind.asCode 1 1) ∧
      ∃ call', wrapHandler? (.ident "NewRelicAgent") rootRegistration = some call' ∧
        commentsIn (call'.pieces ExprKind.asCall 1 1) = [" // root", " // root"] ∧
        ¬ (commentsIn (call'.pieces ExprKind.asCall 1 1)).Perm
          (rootRegistration.args.flatMap (·.decs.comments)) ∧
        ¬ Harmless (call'.pieces ExprKind.asCall 1 1) := by
  have hwrapped : isWrappedHandler rootRegistration = false := by decide +kernel
  have hsource : ∀ arg ∈ rootRegistration.args, arg.decs.FromSource := by
    simp only [rootRegistration, List.forall_mem_cons]
    refine ⟨⟨?_, ?_⟩, ⟨?_, ?_⟩, fun _ harg => absurd harg List.not_mem_nil⟩ <;> decide +kernel
  have hfirst := hsource _ List.mem_cons_self
  have hsecond := hsource _ (List.mem_cons_of_mem _ List.mem_cons_self)
  have hagent : (Expr.ident "NewRelicAgent").decs = {} := rfl
  obtain ⟨call', hcall, hpieces⟩ :=
    wrappedRegistration_comments hagent rfl hwrapped hfirst hsecond
  obtain ⟨-, hcomments, honce, hharmless⟩ := hpieces 1 0 1
  have hargs : rootRegistration.args ≠ [] := List.cons_ne_nil _ _
  have hlines := Call.ownLines_pieces hargs (by decide) rfl 1 1
  refine ⟨hwrapped, hsource, hlines.2, call', hcall, hcomments, fun hperm => ?_, fun h => ?_⟩
  · exact absurd (honce.1 hperm).1 (List.cons_ne_nil _ _)
  · exact absurd (hharmless.1 h " // root" List.mem_cons_self) (by decide +kernel)

example :
    (wrapHandler? (.ident "NewRelicAgent") rootRegistration).map
        (fun call => (ExprKind.call call).write 1 0 1 "") =
      some ("http.HandleFunc(\n\t\tnewrelic.WrapHandleFunc(NewRelicAgent, \"/\" // root, index)," ++
        " // root\n\t)") := by
  decide +kernel

end TraceWeave.Agent
