import Mathlib.Order.Fin.Basic
import TraceWeave.Proofs.Program.Origin
import TraceWeave.Proofs.Tracing.Woven

/-!
Statements across a whole run.

Every statement of a body is found again after a run, in order and as it was; whatever
else a body holds then has been written by instrumentation.
-/

namespace TraceWeave.Tracing

open TraceWeave.Program TraceWeave.Source TraceWeave.Syntax

/--
An order-preserving injection of statements.  What lies outside its image is generated,
and the lists inside the statements are embedded in the same way, as `Kept` says.
-/
def Embeds (stmts stmts' : List Stmt) : Prop :=
  ∃ embedding : Fin stmts.length ↪o Fin stmts'.length,
    (∀ index, Kept stmts[index].kind stmts'[embedding index].kind) ∧
    ∀ index, index ∉ Set.range embedding → Generated stmts'[index].kind

theorem Embeds.nil : Embeds [] [] :=
  ⟨RelEmbedding.refl _, fun index => index.elim0, fun index => index.elim0⟩

theorem Embeds.insert {stmt : Stmt} {stmts stmts' : List Stmt} (hstmt : Generated stmt.kind)
    (h : Embeds stmts stmts') : Embeds stmts (stmt :: stmts') := by
  obtain ⟨embedding, hkept, hgenerated⟩ := h
  refine ⟨embedding.trans (Fin.succOrderEmb _), hkept, fun index hindex => ?_⟩
  cases index using Fin.cases with
  | zero => exact hstmt
  | succ index =>
      refine hgenerated index fun hrange => hindex ?_
      obtain ⟨original, rfl⟩ := hrange
      exact ⟨original, rfl⟩

theorem Embeds.keep {stmt stmt' : Stmt} {stmts stmts' : List Stmt} (hstmt : Kept stmt.kind stmt'.kind)
    (h : Embeds stmts stmts') : Embeds (stmt :: stmts) (stmt' :: stmts') := by
  obtain ⟨embedding, hkept, hgenerated⟩ := h
  let shifted : Fin (stmts.length + 1) → Fin (stmts'.length + 1) :=
    Fin.cases 0 fun index => (embedding index).succ
  have hmono : StrictMono shifted := by
    intro index index' hlt
    cases index' using Fin.cases with
    | zero => exact absurd hlt (Fin.not_lt_zero _)
    | succ index' =>
        cases index using Fin.cases with
        | zero => exact Fin.succ_pos _
        | succ index =>
            exact Fin.succ_lt_succ_iff.2 (embedding.strictMono (Fin.succ_lt_succ_iff.1 hlt))
  refine ⟨OrderEmbedding.ofStrictMono shifted hmono, fun index => ?_, fun index hindex => ?_⟩
  · cases index using Fin.cases with
    | zero => exact hstmt
    | succ index => exact hkept index
  · cases index using Fin.cases with
    | zero => exact absurd ⟨0, rfl⟩ hindex
    | succ index =>
        refine hgenerated index fun hrange => hindex ?_
        obtain ⟨original, rfl⟩ := hrange
        exact ⟨original.succ, rfl⟩

theorem Woven.embeds {stmts stmts' : List Stmt} (h : Woven stmts stmts') : Embeds stmts stmts' := by
  induction stmts' generalizing stmts with
  | nil =>
      cases h
      exact .nil
  | cons stmt' stmts' ih =>
      cases h with
      | keep hkept h => exact .keep hkept (ih h)
      | insert hgenerated h => exact .insert hgenerated (ih h)

end TraceWeave.Tracing
