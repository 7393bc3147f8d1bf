import TraceWeave.Proofs.Types.Scoping

/-!
How resolution goes through bodies.

Resolution does to its state what the events of a tree say, one after another
(`Resolver.traces_resolveFile`).  What else it does, giving types to package variables, changes
neither scopes nor links.
-/

namespace TraceWeave.Types

open TraceWeave.Syntax

namespace Resolver

variable {α β : Type}

/-! ## Runs -/

/-- What an event does to the state; types are up to the state in front of it. -/
def Acts (resolver : Resolver) : Event → Resolver → Prop
  | .enter, resolver' => resolver' = (openBlock resolver).2
  | .leave, resolver' => resolver' = (closeBlock resolver).2
  | .use ident, resolver' => resolver' = (useIdent ident resolver).2
  | .declare ident kind, resolver' => ∃ type, resolver' = (declareLocal ident kind type resolver).2
  | .define ident, resolver' => ∃ type, resolver' = (defineIdent ident type resolver).2
  | .declareType name, resolver' => resolver' = (declareTypeName name resolver).2

/-- A run through events, in which objects may be given their types. -/
inductive Runs : Resolver → List Event → Resolver → Prop where
  | nil (resolver : Resolver) : Runs resolver [] resolver
  | event {resolver next last : Resolver} {event : Event} {events : List Event} :
      Acts resolver event next → Runs next events last → Runs resolver (event :: events) last
  | retype {resolver last : Resolver} {events : List Event} (id : Nat) (type : Option Ty) :
      Runs { resolver with info := resolver.info.setObjectType id type } events last →
      Runs resolver events last

namespace Runs

variable {resolver next last : Resolver} {events first second : List Event}

theorem append (hfirst : Runs resolver first next) (hsecond : Runs next second last) :
    Runs resolver (first ++ second) last := by
  induction hfirst with
  | nil => exact hsecond
  | event hacts hrun ih => exact .event hacts (ih hsecond)
  | retype id type hrun ih => exact .retype id type (ih hsecond)

theorem split (h : Runs resolver (first ++ second) last) :
    ∃ next, Runs resolver first next ∧ Runs next second last := by
  generalize hevents : first ++ second = events at h
  induction h generalizing first with
  | nil resolver =>
      obtain ⟨rfl, rfl⟩ := List.append_eq_nil_iff.1 hevents
      exact ⟨resolver, .nil resolver, .nil resolver⟩
  | @event resolver next last event events hacts hrun ih =>
      cases first with
      | nil =>
          subst hevents
          exact ⟨resolver, .nil resolver, .event hacts hrun⟩
      | cons head first =>
          obtain ⟨rfl, hrest⟩ := List.cons.inj hevents
          obtain ⟨middle, hfirst, hsecond⟩ := ih hrest
          exact ⟨middle, .event hacts hfirst, hsecond⟩
  | retype id type hrun ih =>
      obtain ⟨middle, hfirst, hsecond⟩ := ih hevents
      exact ⟨middle, .retype id type hfirst, hsecond⟩

/-- The first event, behind the retyping in front of it. -/
theorem uncons {event : Event} (h : Runs resolver (event :: events) last) :
    ∃ before behind, Runs resolver [] before ∧ Acts before event behind ∧
      Runs behind events last := by
  generalize hevents : event :: events = row at h
  induction h with
  | nil resolver => contradiction
  | @event resolver next last event events hacts hrun ih =>
      obtain ⟨rfl, rfl⟩ := List.cons.inj hevents
      exact ⟨resolver, next, .nil resolver, hacts, hrun⟩
  | retype id type hrun ih =>
      obtain ⟨before, behind, hretyped, hacts, hrest⟩ := ih hevents
      exact ⟨before, behind, .retype id type hretyped, hacts, hrest⟩

theorem split_event {event : Event} (h : Runs resolver (first ++ event :: second) last) :
    ∃ before behind, Runs resolver first before ∧ Acts before event behind ∧
      Runs behind second last := by
  obtain ⟨middle, hfirst, hrest⟩ := h.split
  obtain ⟨before, behind, hretyped, hacts, hsecond⟩ := hrest.uncons
  have hbefore := hfirst.append hretyped
  rw [List.append_nil] at hbefore
  exact ⟨before, behind, hbefore, hacts, hsecond⟩

end Runs

/-- The step does what the events say. -/
def Traces (events : List Event) (step : Resolve α) : Prop :=
  ∀ resolver : Resolver, Runs resolver events (step resolver).2

theorem Traces.cast {events events' : List Event} {step : Resolve α} (h : Traces events step)
    (hevents : events = events') : Traces events' step := hevents ▸ h

/-! ## Steps -/

variable {first second events : List Event}

theorem traces_pure (a : α) : Traces [] (pure a : Resolve α) := fun resolver => .nil resolver

theorem traces_get : Traces [] (get : Resolve Resolver) := fun resolver => .nil resolver

theorem traces_bind {step : Resolve α} {rest : α → Resolve β} (h : Traces first step)
    (hrest : ∀ a, Traces second (rest a)) : Traces (first ++ second) (step >>= rest) :=
  fun resolver => (h resolver).append (hrest _ _)

/-- The first part of a step has no events. -/
theorem traces_skip {step : Resolve α} {rest : α → Resolve β} (h : Traces [] step)
    (hrest : ∀ a, Traces events (rest a)) : Traces events (step >>= rest) :=
  traces_bind h hrest

/-- The rest of a step has no events. -/
theorem traces_map {step : Resolve α} {rest : α → Resolve β} (h : Traces events step)
    (hrest : ∀ a, Traces [] (rest a)) : Traces events (step >>= rest) :=
  (traces_bind h hrest).cast (List.append_nil events)

theorem traces_forM {step : α → Resolve Unit} {eventsOf : α → List Event}
    (h : ∀ a, Traces (eventsOf a) (step a)) (list : List α) :
    Traces (list.flatMap eventsOf) (list.forM step) := by
  induction list with
  | nil => exact traces_pure ()
  | cons a list ih => exact traces_bind (h a) fun _ => ih

theorem traces_optional {step : α → Resolve β} {eventsOf : α → List Event}
    (h : ∀ a, Traces (eventsOf a) (step a)) (option : Option α) :
    Traces (option.toList.flatMap eventsOf) (option.mapM step) := by
  cases option with
  | none => exact traces_pure none
  | some a => exact traces_bind (h a) fun b => traces_pure (some b)

theorem traces_acts {event : Event} {step : Resolve α}
    (h : ∀ resolver, Acts resolver event (step resolver).2) : Traces [event] step :=
  fun resolver => .event (h resolver) (.nil _)

theorem traces_openBlock : Traces [.enter] openBlock := traces_acts fun _ => rfl

theorem traces_closeBlock : Traces [.leave] closeBlock := traces_acts fun _ => rfl

theorem traces_useIdent (ident : Ident) : Traces [.use ident] (useIdent ident) :=
  traces_acts fun _ => rfl

theorem traces_declareLocal (ident : Ident) (kind : ObjectKind) (type : Option Ty) :
    Traces [.declare ident kind] (declareLocal ident kind type) :=
  traces_acts fun _ => ⟨type, rfl⟩

theorem traces_defineIdent (ident : Ident) (type : Option Ty) :
    Traces [.define ident] (defineIdent ident type) :=
  traces_acts fun _ => ⟨type, rfl⟩

theorem traces_declareTypeName (name : String) :
    Traces [.declareType name] (declareTypeName name) :=
  traces_acts fun _ => rfl

/-! ## Types -/

mutual

theorem traces_resolveType : ∀ type : Expr, Traces (eventsOfType type) (resolveType type)
  | ⟨.ident ident, decs⟩ => by
      rw [resolveType, eventsOfType]
      refine traces_map (traces_useIdent ident) fun _ => traces_skip traces_get fun resolver => ?_
      split
      · split
        · exact traces_pure _
        · exact traces_pure _
      · exact traces_pure _
  | ⟨.selector operand member, decs⟩ => by
      rw [resolveType, eventsOfType]
      cases operand.ident?
      case' some qualifier => refine traces_map (traces_useIdent qualifier) fun _ => ?_
      all_goals
        refine traces_skip traces_get fun resolver => ?_
        dsimp only
        split
        · split
          · split <;> exact traces_pure _
          · exact traces_pure _
        · exact traces_pure _
  | ⟨.star operand, decs⟩ => by
      rw [resolveType, eventsOfType]
      exact traces_map (traces_resolveType operand) fun _ => traces_pure _
  | ⟨.paren inner, decs⟩ => by
      rw [resolveType, eventsOfType]
      exact traces_resolveType inner
  | ⟨.index operand indices, decs⟩ => by
      rw [resolveType, eventsOfType]
      exact traces_bind (traces_resolveTypes indices) fun _ => traces_resolveType operand
  | ⟨.literal text, decs⟩ => traces_pure _
  | ⟨.call call, decs⟩ => traces_pure _
  | ⟨.unary op operand, decs⟩ => traces_pure _
  | ⟨.binary left op right, decs⟩ => traces_pure _
  | ⟨.composite type body, decs⟩ => traces_pure _
  | ⟨.func params results body, decs⟩ => traces_pure _
  | ⟨.verbatim text, decs⟩ => traces_pure _

theorem traces_resolveTypes : ∀ types : List Expr, Traces (eventsOfTypes types) (resolveTypes types)
  | [] => traces_pure ()
  | type :: types => by
      rw [resolveTypes, eventsOfTypes]
      exact traces_bind (traces_resolveType type) fun _ => traces_resolveTypes types

end

theorem traces_declareParams (params : FieldList) :
    Traces (eventsOfParams params) (declareParams params) := by
  unfold declareParams eventsOfParams
  refine traces_forM (fun field => ?_) params.fields
  refine traces_bind (traces_resolveType field.type) fun type => ?_
  rw [List.map_eq_flatMap]
  exact traces_forM (fun name => traces_declareLocal name .variable _) field.names

theorem traces_resolveResults (results : Option Results) :
    Traces (eventsOfResults results) (resolveResults results) := by
  unfold resolveResults eventsOfResults
  exact traces_forM (fun type => traces_map (traces_resolveType type) fun _ => traces_pure ()) _

/-! ## Statements -/

theorem traces_declareValues (names : List Ident) (type : Option Expr) (values : List Expr)
    (constant : Bool) :
    Traces (eventsOfNames names type constant) (declareValues names type values constant) := by
  unfold declareValues eventsOfNames
  refine traces_bind (traces_optional traces_resolveType type) fun type => ?_
  have hnames : names.map (Event.declare · (if constant then .constant else .variable)) =
      names.zipIdx.map ((Event.declare · (if constant then .constant else .variable)) ∘ Prod.fst) := by
    rw [← List.map_map, List.zipIdx_map_fst]
  rw [hnames, List.map_eq_flatMap]
  refine traces_forM (fun entry => ?_) names.zipIdx
  obtain ⟨name, index⟩ := entry
  cases type with
  | some type => exact traces_skip (traces_pure _) fun type => traces_declareLocal name _ type
  | none =>
      refine traces_skip traces_get fun resolver => ?_
      exact traces_skip (traces_pure _) fun type => traces_declareLocal name _ type

/-- There are as many types as names. -/
theorem length_definedTypes (info : Info) (left right : List Expr) :
    (definedTypes info left right).length = left.length := by
  unfold definedTypes
  split
  · next hlength => rw [List.length_map, ← beq_iff_eq.1 hlength]
  · split
    · split
      · rw [List.length_map, List.length_range]
      · rw [List.length_map]
    · rw [List.length_map]

theorem traces_resolveTarget (op : Option AssignOp) {expr : Expr}
    (h : Traces (eventsOfExpr expr) (resolveExpr expr)) :
    Traces (eventsOfTarget op (some expr)) (resolveTarget op expr) := by
  rw [resolveTarget.eq_def]
  split
  · rw [eventsOfTarget]
    split
    · exact traces_declareLocal _ .variable none
    · exact traces_useIdent _
  · next hother =>
    rw [eventsOfTarget]
    · exact h
    · exact hother

mutual

theorem traces_resolveExpr : ∀ expr : Expr, Traces (eventsOfExpr expr) (resolveExpr expr)
  | ⟨.ident ident, decs⟩ => by
      rw [resolveExpr, eventsOfExpr]
      exact traces_useIdent ident
  | ⟨.selector operand member, decs⟩ => by
      rw [resolveExpr, eventsOfExpr]
      exact traces_resolveExpr operand
  | ⟨.call ⟨callee, args, spread, closesLine⟩, decs⟩ => by
      rw [resolveExpr, eventsOfExpr]
      exact traces_bind (traces_resolveExpr callee) fun _ => traces_resolveExprs args
  | ⟨.star operand, decs⟩ => by
      rw [resolveExpr, eventsOfExpr]
      exact traces_resolveExpr operand
  | ⟨.unary op operand, decs⟩ => by
      rw [resolveExpr, eventsOfExpr]
      exact traces_resolveExpr operand
  | ⟨.paren inner, decs⟩ => by
      rw [resolveExpr, eventsOfExpr]
      exact traces_resolveExpr inner
  | ⟨.binary left op right, decs⟩ => by
      rw [resolveExpr, eventsOfExpr]
      exact traces_bind (traces_resolveExpr left) fun _ => traces_resolveExpr right
  | ⟨.index operand indices, decs⟩ => by
      rw [resolveExpr, eventsOfExpr]
      exact traces_bind (traces_resolveExpr operand) fun _ => traces_resolveExprs indices
  | ⟨.composite (some type) body, decs⟩ => by
      rw [resolveExpr, eventsOfExpr]
      exact traces_map (traces_resolveType type) fun _ => traces_pure ()
  | ⟨.composite none body, decs⟩ => by
      rw [resolveExpr]
      · exact traces_pure ()
      all_goals simp
  | ⟨.func params results ⟨body, trailing, inline⟩, decs⟩ => by
      rw [resolveExpr, eventsOfExpr]
      refine traces_bind traces_openBlock fun _ => ?_
      refine traces_bind (traces_declareParams params) fun _ => ?_
      refine traces_bind (traces_resolveResults results) fun _ => ?_
      exact traces_bind (traces_resolveStmts body) fun _ => traces_closeBlock
  | ⟨.literal text, decs⟩ => by
      rw [resolveExpr]
      · exact traces_pure ()
      all_goals simp
  | ⟨.verbatim text, decs⟩ => by
      rw [resolveExpr]
      · exact traces_pure ()
      all_goals simp

theorem traces_resolveExprs : ∀ exprs : List Expr,
    Traces (eventsOfExprs exprs) (resolveExprs exprs)
  | [] => by
      rw [resolveExprs]
      exact traces_pure ()
  | expr :: exprs => by
      rw [resolveExprs, eventsOfExprs]
      exact traces_bind (traces_resolveExpr expr) fun _ => traces_resolveExprs exprs

theorem traces_defineExprs : ∀ (exprs : List Expr) (types : List (Option Ty)),
    types.length = exprs.length → Traces (eventsOfDefined exprs) (defineExprs exprs types)
  | [], types, _ => by
      rw [defineExprs]
      exact traces_pure ()
  | expr :: exprs, [], hlength => by contradiction
  | expr :: exprs, type :: types, hlength => by
      have hrest := traces_defineExprs exprs types (Nat.succ.inj hlength)
      rw [defineExprs, eventsOfDefined]
      cases expr.ident? with
      | some ident => exact traces_bind (traces_defineIdent ident type) fun _ => hrest
      | none => exact traces_bind (traces_resolveExpr expr) fun _ => hrest

theorem traces_resolveStmt : ∀ stmt : Stmt, Traces (eventsOfStmt stmt) (resolveStmt stmt)
  | ⟨kind, decs⟩ => by
      rw [resolveStmt, eventsOfStmt]
      exact traces_resolveKind kind

theorem traces_resolveKind : ∀ kind : StmtKind, Traces (eventsOfKind kind) (resolveKind kind)
  | .expr value => by
      rw [resolveKind, eventsOfKind]
      exact traces_resolveExpr value
  | .spawn call => by
      rw [resolveKind, eventsOfKind]
      exact traces_resolveExpr call
  | .defer call => by
      rw [resolveKind, eventsOfKind]
      exact traces_resolveExpr call
  | .assign left .assign right => by
      rw [resolveKind, eventsOfKind]
      exact traces_bind (traces_resolveExprs right) fun _ => traces_resolveExprs left
  | .assign left .define right => by
      rw [resolveKind, eventsOfKind]
      refine traces_bind (traces_resolveExprs right) fun _ => traces_skip traces_get fun resolver => ?_
      exact traces_defineExprs left _ (length_definedTypes resolver.info left right)
  | .ret results => by
      rw [resolveKind, eventsOfKind]
      exact traces_resolveExprs results
  | .cond init test ⟨body, trailing, inline⟩ alternative => by
      rw [resolveKind, eventsOfKind]
      refine traces_bind traces_openBlock fun _ => ?_
      have hbranch : Traces (eventsOfOptional alternative ++ [.leave]) (do
          match alternative with
          | some stmt => resolveStmt stmt
          | none => pure ()
          closeBlock) := by
        cases alternative with
        | none => exact traces_closeBlock
        | some stmt =>
            rw [eventsOfOptional]
            exact traces_bind (traces_resolveStmt stmt) fun _ => traces_closeBlock
      have hbody : Traces (eventsOfExpr test ++ (.enter :: (eventsOfStmts body ++
          (.leave :: (eventsOfOptional alternative ++ [.leave]))))) (do
          resolveExpr test
          openBlock
          resolveStmts body
          closeBlock
          match alternative with
          | some stmt => resolveStmt stmt
          | none => pure ()
          closeBlock) := by
        refine traces_bind (traces_resolveExpr test) fun _ => ?_
        refine traces_bind traces_openBlock fun _ => ?_
        refine traces_bind (traces_resolveStmts body) fun _ => ?_
        exact traces_bind traces_closeBlock fun _ => hbranch
      cases init with
      | none => exact hbody
      | some stmt =>
          rw [eventsOfOptional]
          exact traces_bind (traces_resolveStmt stmt) fun _ => hbody
  | .loop header ⟨body, trailing, inline⟩ => by
      rw [resolveKind, eventsOfKind]
      refine traces_bind traces_openBlock fun _ => ?_
      refine traces_bind (traces_resolveHeader header) fun _ => ?_
      refine traces_bind traces_openBlock fun _ => ?_
      refine traces_bind (traces_resolveStmts body) fun _ => ?_
      exact traces_bind traces_closeBlock fun _ => traces_closeBlock
  | .switch header clauses trailing => by
      rw [resolveKind, eventsOfKind]
      exact traces_resolveClauses clauses
  | .select clauses trailing => by
      rw [resolveKind, eventsOfKind]
      exact traces_resolveClauses clauses
  | .block ⟨body, trailing, inline⟩ => by
      rw [resolveKind, eventsOfKind]
      refine traces_bind traces_openBlock fun _ => ?_
      exact traces_bind (traces_resolveStmts body) fun _ => traces_closeBlock
  | .labeled label stmt => by
      rw [resolveKind, eventsOfKind]
      exact traces_resolveStmt stmt
  | .decl ⟨text, specs⟩ => by
      rw [resolveKind, eventsOfKind]
      exact traces_resolveSpecs specs
  | .verbatim text => by
      rw [resolveKind, eventsOfKind]
      exact traces_pure ()

theorem traces_resolveHeader : ∀ header : LoopHeader,
    Traces (eventsOfHeader header) (resolveHeader header)
  | .infinite => by
      rw [resolveHeader, eventsOfHeader]
      exact traces_pure ()
  | .cond test => by
      rw [resolveHeader, eventsOfHeader]
      exact traces_resolveExpr test
  | .clauses text => by
      rw [resolveHeader, eventsOfHeader]
      exact traces_pure ()
  | .range key value op operand => by
      rw [resolveHeader.eq_def, eventsOfHeader]
      refine traces_bind (traces_resolveExpr operand) fun _ => ?_
      have hvalue : Traces (eventsOfTarget op value) (match value with
          | some value => resolveTarget op value
          | none => pure ()) := by
        cases value with
        | none => exact traces_pure ()
        | some value => exact traces_resolveTarget op (traces_resolveExpr value)
      cases key with
      | none => exact hvalue
      | some key =>
          exact traces_bind (traces_resolveTarget op (traces_resolveExpr key)) fun _ => hvalue

theorem traces_resolveStmts : ∀ stmts : List Stmt,
    Traces (eventsOfStmts stmts) (resolveStmts stmts)
  | [] => by
      rw [resolveStmts]
      exact traces_pure ()
  | stmt :: stmts => by
      rw [resolveStmts, eventsOfStmts]
      exact traces_bind (traces_resolveStmt stmt) fun _ => traces_resolveStmts stmts

theorem traces_resolveClauses : ∀ clauses : List Clause,
    Traces (eventsOfClauses clauses) (resolveClauses clauses)
  | [] => by
      rw [resolveClauses]
      exact traces_pure ()
  | ⟨head, body, trailing, decs⟩ :: clauses => by
      rw [resolveClauses, eventsOfClauses]
      refine traces_bind traces_openBlock fun _ => ?_
      refine traces_bind (traces_resolveStmts body) fun _ => ?_
      exact traces_bind traces_closeBlock fun _ => traces_resolveClauses clauses

theorem traces_resolveSpecs : ∀ specs : List Spec,
    Traces (eventsOfSpecs specs) (resolveSpecs specs)
  | [] => by
      rw [resolveSpecs]
      exact traces_pure ()
  | .value names type values constant :: specs => by
      rw [resolveSpecs, eventsOfSpecs]
      refine traces_bind (traces_resolveExprs values) fun _ => ?_
      refine traces_bind (traces_declareValues names type values constant) fun _ => ?_
      exact traces_resolveSpecs specs
  | .type name isAlias definition :: specs => by
      rw [resolveSpecs, eventsOfSpecs]
      exact traces_bind (traces_declareTypeName name) fun _ => traces_resolveSpecs specs

end

/-! ## Files -/

theorem traces_resolveFunc (decl : FuncDecl) : Traces (eventsOfFunc decl) (resolveFunc decl) := by
  unfold resolveFunc eventsOfFunc
  cases decl.body with
  | none => exact traces_pure ()
  | some body =>
      refine traces_bind traces_openBlock fun _ => ?_
      have hbody : Traces (eventsOfParams decl.params ++ (eventsOfResults decl.results ++
          (eventsOfStmts body.stmts ++ [.leave]))) (do
          declareParams decl.params
          resolveResults decl.results
          resolveStmts body.stmts
          closeBlock) := by
        refine traces_bind (traces_declareParams decl.params) fun _ => ?_
        refine traces_bind (traces_resolveResults decl.results) fun _ => ?_
        exact traces_bind (traces_resolveStmts body.stmts) fun _ => traces_closeBlock
      cases decl.receiver with
      | none => exact hbody
      | some receiver => exact traces_bind (traces_declareParams receiver) fun _ => hbody

theorem traces_setObjectType (id : Nat) (type : Option Ty) :
    Traces [] (modifyInfo (·.setObjectType id type)) :=
  fun _ => .retype id type (.nil _)

theorem traces_resolveSpec (spec : Spec) : Traces (eventsOfValues spec) (resolveSpec spec) := by
  unfold resolveSpec
  cases spec with
  | type name isAlias definition => exact traces_pure ()
  | value names type values constant =>
      refine traces_map (traces_resolveExprs values) fun _ => ?_
      split
      · have hnone : (names.zip values).flatMap (fun _ => ([] : List Event)) = [] := by simp
        refine (traces_forM (fun entry => ?_) _).cast hnone
        refine traces_skip traces_get fun resolver => ?_
        dsimp only
        split
        · exact traces_setObjectType _ _
        · exact traces_pure ()
      · exact traces_pure ()

theorem traces_resolveFile (file : File) : Traces (eventsOfFile file) (resolveFile file) := by
  unfold resolveFile eventsOfFile eventsOfDecl
  refine traces_forM (fun decl => ?_) file.decls
  obtain ⟨kind, decs⟩ := decl
  cases kind with
  | func func => exact traces_resolveFunc func
  | gen gen => exact traces_forM traces_resolveSpec gen.specs
  | imports specs => exact traces_pure ()
  | verbatim text => exact traces_pure ()

end Resolver

end TraceWeave.Types
