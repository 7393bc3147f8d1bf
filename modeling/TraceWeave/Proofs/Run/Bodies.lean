import TraceWeave.Proofs.Program.Origin
import TraceWeave.Proofs.Tracing.Copies
import TraceWeave.Proofs.Tracing.Retention

/-!
Bodies across a whole run.

Every comment of a body is found again after a run, in the order of the source.  Every call of the
source is evaluated once, except those in the request of an external segment, which are evaluated
twice.
-/

namespace TraceWeave.Tracing

open TraceWeave.Program TraceWeave.Source TraceWeave.Syntax
open scoped List

/-- Tracing loses no comment: those of a body are a subsequence of those that it has then. -/
theorem weave_keepsComments (origin : Origin) (place : Place) :
    Option.Rel
      (fun func func' => Option.Rel (fun body body' => body.comments <+ body'.comments)
        func.body func'.body)
      (origin.app.funcAt? place) ((weave.run origin.app).2.funcAt? place) := by
  have hcoherent := origin.coherent_app
  obtain ⟨hturns, -⟩ := (Weave.wp_iff _ _ _).1 (weave_turns hcoherent origin.app_entered)
  exact Turns.bodies keepsComments_withstands (fun _ => .refl _) hcoherent.placesDiffer trivial hturns
    place

theorem optionRel_imp {α β : Type} {R S : α → β → Prop} (hS : ∀ a b, R a b → S a b) {x : Option α}
    {y : Option β} (h : Option.Rel R x y) : Option.Rel S x y := by
  cases h with
  | none => exact .none
  | some hR => exact .some (hS _ _ hR)

/-- Tracing keeps the calls of a body in order, and repeats none outside copies of requests. -/
theorem weave_balanced (origin : Origin) (place : Place) :
    Option.Rel
      (fun func func' => Option.Rel
        (fun body body' =>
          Balanced (callsOfStmts true body.stmts) (callsOfStmts true body'.stmts) ∧
            (copies (callsOfStmts true body'.stmts) = 0 →
              List.Forall₂ (fun entry entry' => Persists entry.2 entry'.2)
                (sourceCalls (callsOfStmts true body.stmts))
                (sourceCalls (callsOfStmts true body'.stmts))))
        func.body func'.body)
      (origin.app.funcAt? place) ((weave.run origin.app).2.funcAt? place) := by
  have hcoherent := origin.coherent_app
  obtain ⟨hturns, -⟩ := (Weave.wp_iff _ _ _).1 (weave_turns hcoherent origin.app_entered)
  have hbodies := Turns.bodies balanced_withstands (fun _ => .refl _) hcoherent.placesDiffer trivial
    hturns place
  exact optionRel_imp (fun _ _ => optionRel_imp fun _ _ hcalls => ⟨hcalls, hcalls.exact⟩) hbodies

end TraceWeave.Tracing
