import TraceWeave.Proofs.Tracing.Copies
import TraceWeave.Proofs.Tracing.EntryWalk

/-!
Segments of requests among the statements of the entry function.

Behind the start of a segment stand its request and what ends it; the end of a transaction
comes between them exactly if the transaction has been started for the request alone
(`SegmentsClose`).  Statements are startless if no call in them is a generated start, and single
changes keep them so (`KeepsStartless.stays`).
-/

namespace TraceWeave.Tracing

open TraceWeave.Agent TraceWeave.Detect TraceWeave.Program TraceWeave.Syntax TraceWeave.Types

/-! ## Segments -/

/-- The call is a generated one of `StartTransaction`. -/
def startsTransaction (call : Call) : Bool :=
  call.callee.target? == some (0, some "StartTransaction")

/-- The statement is a generated start of a transaction. -/
def opensTransaction (stmt : Stmt) : Bool := (primaryCall? stmt).any startsTransaction

/-- The statement is a generated start of a segment. -/
def opensSegment (stmt : Stmt) : Bool := (primaryCall? stmt).any startsSegment

/-- The statements that hand a response to the segment. -/
def captures (response : Option String) : List Stmt :=
  response.toList.map fun name => captureResponse externalSegmentVariable (.ident name)

/-- The statement ends the segment. -/
def EndsSegment (stmt : Stmt) : Prop :=
  stmt.kind = (endExternalSegment externalSegmentVariable).kind

/--
What stands behind the start of a segment: its request, the capture of the response and the
end of the segment.  A transaction that has been started for the request alone ends right
behind the request.
-/
inductive Finishes : Bool → List Stmt → Prop where
  | inside {request ending : Stmt} {response : Option String} {rest : List Stmt} :
      isEnding request = false → EndsSegment ending →
      Finishes false (request :: (captures response ++ ending :: rest))
  | across {request transactionEnd ending : Stmt} {response : Option String} {rest : List Stmt} :
      isEnding request = false → isEnding transactionEnd = true → EndsSegment ending →
      Finishes true (request :: transactionEnd :: (captures response ++ ending :: rest))

/--
Every segment of a list is ended.  Its transaction has been started for the request alone if
the start of one stands right in front of the start of the segment.
-/
def SegmentsClose (stmts : List Stmt) : Prop :=
  ∀ front start behind, stmts = front ++ start :: behind → opensSegment start = true →
    Finishes (front.getLast?.any opensTransaction) behind

theorem Finishes.append {own : Bool} {behind : List Stmt} (h : Finishes own behind)
    (more : List Stmt) : Finishes own (behind ++ more) := by
  cases h with
  | inside hrequest hending =>
      rw [List.cons_append, List.append_assoc]
      exact .inside hrequest hending
  | across hrequest htransaction hending =>
      rw [List.cons_append, List.cons_append, List.append_assoc]
      exact .across hrequest htransaction hending

/-- The request changes, but not into the end of a transaction. -/
theorem Finishes.reform {own : Bool} {request request' : Stmt} {behind : List Stmt}
    (h : Finishes own (request :: behind)) (hrequest : isEnding request' = false) :
    Finishes own (request' :: behind) := by
  cases h with
  | inside _ hending => exact .inside hrequest hending
  | across _ htransaction hending => exact .across hrequest htransaction hending

theorem opensSegment_captures (response : Option String) :
    ∀ stmt ∈ captures response, opensSegment stmt = false := by
  intro stmt hmem
  obtain ⟨name, -, rfl⟩ := List.mem_map.1 hmem
  rfl

namespace SegmentsClose

theorem of_none {stmts : List Stmt} (h : ∀ stmt ∈ stmts, opensSegment stmt = false) :
    SegmentsClose stmts := by
  rintro front start behind rfl hstart
  rw [h start (by simp)] at hstart
  contradiction

/-- One segment is started in a list, and ended. -/
theorem of_one {front behind : List Stmt} {start : Stmt}
    (hfront : ∀ stmt ∈ front, opensSegment stmt = false)
    (hbehind : ∀ stmt ∈ behind, opensSegment stmt = false)
    (h : Finishes (front.getLast?.any opensTransaction) behind) :
    SegmentsClose (front ++ start :: behind) := by
  intro front' start' behind' hsplit hstart'
  rcases List.append_eq_append_iff.1 hsplit with ⟨between, rfl, heq⟩ | ⟨between, rfl, heq⟩
  · cases between with
    | nil =>
        obtain ⟨rfl, rfl⟩ := List.cons.inj heq
        rwa [List.append_nil]
    | cons first between =>
        obtain ⟨rfl, rfl⟩ := List.cons.inj heq
        rw [hbehind start' (by simp)] at hstart'
        contradiction
  · cases between with
    | nil =>
        obtain ⟨rfl, rfl⟩ := List.cons.inj heq
        rwa [List.append_nil] at h
    | cons first between =>
        obtain ⟨rfl, rfl⟩ := List.cons.inj heq
        rw [hfront start' (by simp)] at hstart'
        contradiction

/-- Lists one after the other; the first one ends with no start of a transaction. -/
theorem append {front back : List Stmt} (hfront : SegmentsClose front)
    (hlast : front.getLast?.any opensTransaction = false) (hback : SegmentsClose back) :
    SegmentsClose (front ++ back) := by
  intro front' start behind hsplit hstart
  have hsecond : ∀ between, back = between ++ start :: behind →
      Finishes ((front ++ between).getLast?.any opensTransaction) behind := by
    intro between hbetween
    have hfinishes := hback between start behind hbetween hstart
    cases between with
    | nil =>
        rw [List.append_nil, hlast]
        exact hfinishes
    | cons first between =>
        rwa [List.getLast?_append_of_ne_nil _ (List.cons_ne_nil _ _)]
  rcases List.append_eq_append_iff.1 hsplit with ⟨between, rfl, heq⟩ | ⟨between, rfl, heq⟩
  · exact hsecond between heq
  · cases between with
    | nil =>
        have hsame := hsecond [] heq.symm
        rwa [List.append_nil, List.append_nil] at hsame
    | cons first between =>
        obtain ⟨rfl, rfl⟩ := List.cons.inj heq
        exact (hfront front' start between rfl hstart).append back

end SegmentsClose

/-! ## Startless statements -/

/-- The call is no generated start. -/
structure Startless (call : Call) : Prop where
  transaction : startsTransaction call = false
  segment : startsSegment call = false

abbrev startless : CallTest := fun _ call => Startless call

/-- Only what is called matters. -/
theorem Startless.of_target {call call' : Call} (htarget : call'.callee.target? = call.callee.target?)
    (h : Startless call) : Startless call' := by
  obtain ⟨htransaction, hsegment⟩ := h
  constructor
  · rwa [startsTransaction, htarget]
  · rwa [startsSegment, htarget]

theorem startless_admits : CallTest.Admits startless := by
  rintro reached ⟨⟨kind, decs⟩, args, spread, closesLine⟩ name - hname hboundary
  cases kind with
  | selector operand member =>
      obtain rfl := Option.some.inj hname
      have hother : ∀ name ∈ boundaryNames,
          (some (member.id, some member.name) == some (0, some name)) = false := by
        rintro name hmem
        simp only [beq_eq_false_iff_ne, ne_eq, Option.some.injEq, Prod.mk.injEq, not_and]
        rintro - rfl
        exact hboundary hmem
      exact ⟨hother "StartTransaction" (by decide), hother "StartExternalSegment" (by decide)⟩
  | ident ident =>
      constructor <;> simp [startsTransaction, startsSegment, Expr.target?, Expr.unparen]
  | _ => contradiction

abbrev StartlessStmts (stmts : List Stmt) : Prop :=
  ∀ stmt ∈ stmts, Holds startless (stmt.kind.calls true .full)

theorem holds_primary {P : CallTest} {stmt : Stmt} {call : Call} {reached : Bool}
    (hcall : primaryCall? stmt = some call) (h : Holds P (stmt.kind.calls reached .full)) :
    P (reached && EditScope.full.hasOwn) call := by
  unfold primaryCall? at hcall
  split at hcall
  · next left op value hkind =>
    rw [hkind] at h
    exact holds_of_call? (holds_exprs_cons.1 (Holds.append.1 h).2).1 hcall
  · next value hkind =>
    rw [hkind] at h
    exact holds_of_call? h hcall
  · contradiction

/-- The statement starts neither a transaction nor a segment. -/
structure Shut (stmt : Stmt) : Prop where
  transaction : opensTransaction stmt = false
  segment : opensSegment stmt = false

theorem shut_of_startless {stmt : Stmt} {reached : Bool}
    (h : Holds startless (stmt.kind.calls reached .full)) : Shut stmt := by
  constructor
  · exact (Option.any_eq_false _ _).2 fun call hcall => by
      simp [(holds_primary hcall h).transaction]
  · exact (Option.any_eq_false _ _).2 fun call hcall => by simp [(holds_primary hcall h).segment]

theorem segmentsClose_of_startless {stmts : List Stmt} {reached : Bool}
    (h : Holds startless (callsOfStmts reached stmts)) : SegmentsClose stmts :=
  .of_none fun stmt hmem => (shut_of_startless (holds_stmts.1 h stmt hmem)).segment

theorem inside_of_startless {stmt : Stmt} {reached : Bool} {scope : EditScope}
    (h : Holds startless (stmt.kind.calls reached scope)) : Inside SegmentsClose stmt := by
  intro inner hinner list hlist
  obtain ⟨reached', h⟩ := StmtKind.holds_lists h inner hinner
  obtain ⟨reached'', h⟩ := hlist.holds h
  exact segmentsClose_of_startless h

/-! ## Changes -/

/-- A change that keeps what is called and brings in no start. -/
structure KeepsStartless (part part' : Expr) : Prop where
  adjusts : part.Adjusts part'
  startless : Holds startless (part.calls true) → Holds startless (part'.calls true)

namespace KeepsStartless

theorem of_args {call call' : Call} (hcallee : call'.callee = call.callee)
    (hargs : Holds Tracing.startless (callsOfExprs true call.args) →
      Holds Tracing.startless (callsOfExprs true call'.args)) (decs : Decorations) :
    KeepsStartless ⟨.call call, decs⟩ ⟨.call call', decs⟩ := by
  refine ⟨.call hcallee, fun h => ?_⟩
  obtain ⟨hcall, hbelow, hold⟩ := Expr.holds_of_holds_call h
  exact Expr.holds_call (hcall.of_target (by rw [hcallee])) (hcallee ▸ hbelow) (hargs hold)

theorem refl_call (call : Call) (decs : Decorations) : KeepsStartless ⟨.call call, decs⟩ ⟨.call call, decs⟩ :=
  .of_args rfl id decs

theorem stays {literals : Bool} {part part' : Expr} (h : KeepsStartless part part') :
    CallTest.Stays Tracing.startless Tracing.startless literals part part' where
  weaken _ _ := id
  inside := h.startless
  callee hcallee hcall := hcall.of_target (hcallee.target?_eq h.adjusts)
  arg _ hcall := ⟨hcall.transaction, hcall.segment⟩

end KeepsStartless

theorem Passes.spares {info : Info} {list : FieldList} {call : Call} {mayExtend : Bool}
    {passing : Passing} (h : Passes info list call mayExtend passing) (decs : Decorations) :
    KeepsStartless ⟨.call call, decs⟩ ⟨.call passing.call, decs⟩ :=
  .of_args h.callee_eq (h.holds startless_admits) decs

theorem Hooks.spares {info : Info} {call call' : Call} (h : Hooks info call call')
    (decs : Decorations) : KeepsStartless ⟨.call call, decs⟩ ⟨.call call', decs⟩ :=
  .of_args h.callee_eq (h.holds startless_admits) decs

/-- Changes one after the other, in the statement itself or in all of it. -/
theorem startless_of_steps {σ : Type} {literals : Bool} {scope : EditScope} {visits : Visits σ}
    (hscope : scope = .own ∨ scope = .full)
    (hvisits : ∀ before after, visits before after → KeepsStartless before.1 after.1)
    {before after : StmtKind × σ}
    (steps : Steps (StmtKind.Rewrites literals · · scope) visits before after)
    (h : Holds startless (before.1.calls true .full)) : Holds startless (after.1.calls true .full) := by
  induction steps with
  | refl => exact h
  | @tail between last _ hstep ih =>
      obtain ⟨part, part', hvisit, hrewrite⟩ := hstep
      exact (hrewrite.toFull hscope).calls.holds (hvisits _ _ hvisit).stays ih

theorem startless_renameIn (name target : String) {stmts : List Stmt} (h : StartlessStmts stmts) :
    StartlessStmts (renameIn name target stmts) := by
  have follows : (Edits.idents fun ident => (pure (if ident.name == name then
      { ident with name := target } else ident) : Id Ident)).Follows Threaded.ofId
      fun before after => KeepsStartless before.1 after.1 := by
    refine ⟨fun call decs s => .inr rfl, fun ident decs s => .inl ⟨.ident ?_, fun _ => .nil⟩⟩
    by_cases hident : ident.name = name <;> simp [Edits.idents, Threaded.ofId, hident]
  induction stmts with
  | nil => exact h
  | cons stmt stmts ih =>
      obtain ⟨kind, decs⟩ := stmt
      obtain ⟨hstmt, hstmts⟩ := List.forall_mem_cons.1 h
      exact List.forall_mem_cons.2 ⟨startless_of_steps (.inr rfl) (fun _ _ h => h)
        (kind.edit_steps follows .full ()) hstmt, ih hstmts⟩

theorem Gentle.isEnding_of {literals : Bool} {part part' : Expr} (hpart : Gentle part part')
    {stmt stmt' : Stmt} (h : StmtKind.Rewrites literals part part' .full stmt.kind stmt'.kind)
    (hending : isEnding stmt' = true) : isEnding stmt = true := by
  obtain ⟨kind, decs⟩ := stmt
  obtain ⟨kind', decs'⟩ := stmt'
  cases h with
  | expr _ h =>
      cases h with
      | here =>
          cases hpart with
          | call hcallee _ =>
              simp only [isEnding, Expr.call?, Option.any_some, Call.name?, qualifier?, hcallee]
                at hending ⊢
              exact hending
          | ident _ _ _ _ => contradiction
      | callee h =>
          simp only [isEnding, Expr.call?, Option.any_some, Bool.and_eq_true, beq_iff_eq]
            at hending ⊢
          obtain ⟨hname, hqualifier⟩ := hending
          rcases hpart.name?_eq h with hsame | ⟨-, hother⟩
          · exact ⟨hsame ▸ hname, (hpart.qualifier?_iff h).1 hqualifier⟩
          · exact absurd hname hother
      | arg h => exact hending
      | _ => contradiction
  | _ => contradiction

/-- A change of a statement that brings in neither a start nor the end of a transaction. -/
structure Reforms (stmt stmt' : Stmt) : Prop where
  startless : Holds startless (stmt.kind.calls true .full) → Holds startless (stmt'.kind.calls true .full)
  ending : isEnding stmt' = true → isEnding stmt = true

namespace Reforms

variable {stmt stmt' stmt'' : Stmt}

theorem of_kind (h : stmt'.kind = stmt.kind) : Reforms stmt stmt' := by
  constructor
  · rw [h]
    exact id
  · rw [isEnding, h]
    exact id

theorem refl : Reforms stmt stmt := ⟨id, id⟩

theorem trans (h : Reforms stmt stmt') (h' : Reforms stmt' stmt'') : Reforms stmt stmt'' :=
  ⟨h'.startless ∘ h.startless, h.ending ∘ h'.ending⟩

theorem of_rewrites {literals : Bool} {part part' : Expr} (hgentle : Gentle part part')
    (hspares : KeepsStartless part part')
    (h : StmtKind.Rewrites literals part part' .full stmt.kind stmt'.kind) : Reforms stmt stmt' :=
  ⟨h.calls.holds hspares.stays, hgentle.isEnding_of h⟩

end Reforms

theorem reforms_of_steps {σ : Type} {literals : Bool} {scope : EditScope} {visits : Visits σ}
    (hscope : scope = .own ∨ scope = .full)
    (hvisits : ∀ before after, visits before after →
      Gentle before.1 after.1 ∧ KeepsStartless before.1 after.1)
    {before after : StmtKind × σ}
    (steps : Steps (StmtKind.Rewrites literals · · scope) visits before after)
    {stmt stmt' : Stmt} (hkind : stmt.kind = before.1) (hkind' : stmt'.kind = after.1) :
    Reforms stmt stmt' := by
  induction steps generalizing stmt' with
  | refl => exact .of_kind (hkind'.trans hkind.symm)
  | @tail between last _ hstep ih =>
      obtain ⟨part, part', hvisit, hrewrite⟩ := hstep
      obtain ⟨hgentle, hspares⟩ := hvisits _ _ hvisit
      have hbetween : Reforms stmt ⟨between.1, {}⟩ := ih rfl
      exact hbetween.trans (.of_rewrites hgentle hspares (hkind' ▸ hrewrite.toFull hscope))

theorem reforms_mapPrimaryCall {stmt : Stmt} {call : Call} (hcall : primaryCall? stmt = some call)
    {f : Call → Call} (hgentle : ∀ decs, Gentle ⟨.call call, decs⟩ ⟨.call (f call), decs⟩)
    (hspares : ∀ decs, KeepsStartless ⟨.call call, decs⟩ ⟨.call (f call), decs⟩) :
    Reforms stmt (mapPrimaryCall f stmt) := by
  obtain ⟨decs, hrewrite⟩ := rewrite_mapPrimaryCall hcall f true [] []
  exact .of_rewrites (hgentle decs) (hspares decs) (StmtsRewrite.of_singleton hrewrite)

theorem reforms_mapOwnCalls {f : Call → Call}
    (hgentle : ∀ call decs, Gentle ⟨.call call, decs⟩ ⟨.call (f call), decs⟩)
    (hspares : ∀ call decs, KeepsStartless ⟨.call call, decs⟩ ⟨.call (f call), decs⟩) (stmt : Stmt) :
    Reforms stmt (mapOwnCalls false f stmt) := by
  have follows : (Edits.calls false fun call => (pure (f call) : Id Call)).Follows Threaded.ofId
      fun before after => Gentle before.1 after.1 ∧ KeepsStartless before.1 after.1 :=
    ⟨fun call decs s => .inl ⟨hgentle call decs, hspares call decs⟩, fun ident decs s => .inr rfl⟩
  exact reforms_of_steps (.inl rfl) (fun _ _ h => h) (stmt.kind.edit_steps follows .own ()) rfl rfl

end TraceWeave.Tracing
