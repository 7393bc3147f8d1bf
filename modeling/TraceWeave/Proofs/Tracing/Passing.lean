import TraceWeave.Proofs.Tracing.Alignment
import TraceWeave.Proofs.Types.Invariants

/-!
What passing a transaction promises.

Passing goes one of three ways: the carrier is handed to a parameter of its own type, a context
is made to carry the transaction, or a parameter is added.  Each way keeps the promises of
`Promises`, and so does giving up (`Carrier.pass_promises`).  Nothing but the expression that
is handed on depends on the transaction, so that a trial with another one tells whether the
callee is reached (`Carrier.reaches_pass`).
-/

namespace TraceWeave.Syntax

theorem Call.args_addArg (call : Call) (arg : Expr) :
    ∃ decs, (call.addArg arg).args = call.args ++ [{ arg with decs }] := by
  obtain ⟨kind, decs⟩ := arg
  unfold Call.addArg
  dsimp only
  split
  · exact ⟨{ decs with before := .newLine }, rfl⟩
  · exact ⟨decs, rfl⟩

theorem Call.addArg_ne (call : Call) (arg : Expr) : call.addArg arg ≠ call := by
  intro h
  have hlength := Call.length_addArg call arg
  rw [h] at hlength
  omega

theorem FieldList.add_ne (list : FieldList) (field : Field) : list.add field ≠ list := by
  intro h
  have hlength := congrArg (fun list => list.fields.length) h
  simp [FieldList.add] at hlength

theorem FieldList.mem_params_add {list : FieldList} {name : Ident} {type : Expr} :
    (some name, type) ∈ (list.add { names := [name], type }).params := by
  unfold FieldList.add FieldList.params
  dsimp only
  split <;> simp

end TraceWeave.Syntax

namespace TraceWeave.Tracing

open TraceWeave.Agent TraceWeave.Syntax TraceWeave.Types

/-! ## Promises -/

/--
How arguments change.  The expression `handle` yields the transaction; it is read once, or not
at all.
-/
inductive HandsArgs (carrier handle : Expr) : (reads : Bool) → List Expr → List Expr → Prop where
  | same (args : List Expr) : HandsArgs carrier handle false args args
  /-- The carrier goes along itself. -/
  | itself (args : List Expr) (decs : Decorations) :
      HandsArgs carrier handle false args (args ++ [{ carrier with decs }])
  | transaction (args : List Expr) (decs : Decorations) :
      HandsArgs carrier handle true args (args ++ [{ handle with decs }])
  | context (front : List Expr) (arg : Expr) (back : List Expr) :
      HandsArgs carrier handle true (front ++ arg :: back)
        (front ++ { newContext arg handle with decs := arg.decs } :: back)

/-- A parameter of that name, which is not blank, has the type. -/
def HasParam (info : Info) (list : FieldList) (name : String) (type : Ty) : Prop :=
  ∃ ident expr, (some ident, expr) ∈ list.params ∧ ident.isBlank = false ∧ ident.name = name ∧
    paramType? info expr = some type

/-- What passing promises of a call and of the parameters of its callee. -/
structure Promises (info : Info) (carrier : Carrier) (list : FieldList) (call : Call)
    (mayExtend : Bool) (handle : Expr) (passing : Passing) : Prop where
  params : passing.params = list ∧ passing.extended = false ∨
    mayExtend = true ∧ list.isVariadic = false ∧ list.isUnnamed = false ∧ passing.extended = true ∧
      passing.params = list.add (transactionParameter transactionVariable)
  callee : passing.call.callee = call.callee
  spread : passing.call.spread = call.spread
  closesLine : passing.call.closesLine = call.closesLine
  args : HandsArgs (.ident carrier.name) handle passing.usesTransaction call.args passing.call.args
  reads : passing.usesTransaction = true → passing.call ≠ call
  child : ∀ child, passing.child = some child →
    HasParam info passing.params child.name child.type
  balanced : call.args.length = list.arity → passing.call.args.length = passing.params.arity
  imports : passing.needsImport = true → passing.usesTransaction = true
  advises : passing.advisory.isSome = true → passing.usesTransaction = true
  shows : passing.call ≠ call →
    passing.needsImport = true ∨ passing.call.args.length ≠ call.args.length

/-- The callee is reached: through the carrier inside it, the call or the parameters. -/
def Passing.Reaches (passing : Passing) (list : FieldList) (call : Call) : Prop :=
  passing.child.isSome = true ∨ passing.call ≠ call ∨ passing.params ≠ list

section

variable {info : Info} {list : FieldList} {call : Call} {mayExtend : Bool} {handle : Expr}
  {carrier : Carrier}

theorem hasParam_of_findParam? {type : Ty} {index : Nat} {param : Param} {name : String}
    (h : findParam? (paramsOf info list) type = some (index, param)) (hname : param.name = some name) :
    HasParam info list name type := by
  obtain ⟨⟨found, position⟩, hfind, heq⟩ := Option.map_eq_some_iff.1 h
  obtain ⟨rfl, rfl⟩ := Prod.mk.inj heq
  have hmem := List.fst_mem_of_mem_zipIdx (List.mem_of_find?_eq_some hfind)
  obtain ⟨⟨ident?, expr⟩, hparam, rfl⟩ := List.mem_map.1 hmem
  have htype : paramType? info expr = some type := by simpa using List.find?_some hfind
  obtain ⟨ident, hident, rfl⟩ := Option.map_eq_some_iff.1 hname
  obtain ⟨rfl, hblank⟩ := Option.filter_eq_some_iff.1 hident
  exact ⟨ident, expr, hparam, by simpa using hblank, rfl, htype⟩

/-- The parameter that is added for a transaction is known as one. -/
theorem hasParam_add (hskips : SkipsGenerated info) (list : FieldList) :
    HasParam info (list.add (transactionParameter transactionVariable)) transactionVariable
      transactionTy := by
  refine ⟨{ name := transactionVariable }, transactionType, FieldList.mem_params_add, by decide,
    rfl, ?_⟩
  have hobject : info.object? { name := "newrelic" } = none := by
    rw [Info.object?, hskips _ rfl, Option.bind_none]
  have hpath : info.importedPath? (.ident "newrelic") = none := by
    simp [Info.importedPath?, Expr.ident, Expr.ident?, hobject]
  have htype : info.typeExpr? transactionType = none := by
    show (info.typeExpr? (newrelic "Transaction")).map Ty.pointer = none
    simp [newrelic, Expr.qualified, Expr.selector, Info.typeExpr?, hpath]
  rw [paramType?, htype]
  decide

/-! ## The ways of passing -/

theorem Promises.nothing (child : Option Carrier)
    (hchild : ∀ carrier', child = some carrier' → HasParam info list carrier'.name carrier'.type) :
    Promises info carrier list call mayExtend handle { call, params := list, child } where
  params := .inl ⟨rfl, rfl⟩
  callee := rfl
  spread := rfl
  closesLine := rfl
  args := .same call.args
  reads h := by contradiction
  child := hchild
  balanced h := h
  imports h := by contradiction
  advises h := by contradiction
  shows h := absurd rfl h

theorem Carrier.renamed_name (carrier : Carrier) (name : String) : (carrier.renamed name).name = name := by
  cases carrier <;> rfl

theorem Carrier.renamed_type (carrier : Carrier) (name : String) :
    (carrier.renamed name).type = carrier.type := by
  cases carrier <;> rfl

theorem passItself_promises {index : Nat} {param : Param}
    (h : findParam? (paramsOf info list) carrier.type = some (index, param)) :
    Promises info carrier list call mayExtend handle
      (carrier.passItself list call handle index param) := by
  have hchild : ∀ child, param.name.map carrier.renamed = some child →
      HasParam info list child.name child.type := by
    intro child hchild
    obtain ⟨name, hname, rfl⟩ := Option.map_eq_some_iff.1 hchild
    rw [carrier.renamed_name, carrier.renamed_type]
    exact hasParam_of_findParam? h hname
  have hindex : index < list.arity := length_paramsOf info list ▸ findParam?_lt h
  unfold Carrier.passItself
  dsimp only
  split
  · next hlast =>
    simp only [Bool.and_eq_true, beq_iff_eq] at hlast
    -- an argument is missing, so that nothing is balanced
    have hbalanced : ∀ arg, call.args.length = list.arity → (call.addArg arg).args.length = list.arity :=
      fun _ hlength => by omega
    split
    · obtain ⟨decs, hargs⟩ := call.args_addArg handle
      exact {
        params := .inl ⟨rfl, rfl⟩
        callee := rfl
        spread := rfl
        closesLine := rfl
        args := hargs ▸ .transaction call.args decs
        reads := fun _ => call.addArg_ne handle
        child := hchild
        balanced := hbalanced handle
        imports := fun h => by contradiction
        advises := fun h => by contradiction
        shows := fun _ => .inr (by simp [Call.length_addArg]) }
    · obtain ⟨decs, hargs⟩ := call.args_addArg (.ident carrier.name)
      exact {
        params := .inl ⟨rfl, rfl⟩
        callee := rfl
        spread := rfl
        closesLine := rfl
        args := hargs ▸ .itself call.args decs
        reads := fun h => by contradiction
        child := hchild
        balanced := hbalanced (.ident carrier.name)
        imports := fun h => by contradiction
        advises := fun h => by contradiction
        shows := fun _ => .inr (by simp [Call.length_addArg]) }
  · exact .nothing _ hchild

theorem passContext_promises {async : Bool} {index : Nat} {param : Param}
    (h : findParam? (paramsOf info list) contextTy = some (index, param)) :
    Promises info carrier list call mayExtend handle
      (carrier.passContext list call async handle index param) := by
  have hchild : ∀ child, param.name.map Carrier.context = some child →
      HasParam info list child.name child.type := by
    intro child hchild
    obtain ⟨name, hname, rfl⟩ := Option.map_eq_some_iff.1 hchild
    exact hasParam_of_findParam? h hname
  unfold Carrier.passContext
  dsimp only
  split
  · exact .nothing _ hchild
  · next arg harg =>
    split
    · exact .nothing _ hchild
    · next hbare =>
      simp only [Bool.or_eq_true, not_or, Bool.not_eq_true] at hbare
      obtain ⟨hlt, rfl⟩ := List.getElem?_eq_some_iff.1 harg
      have hset := List.set_eq_take_append_cons_drop (l := call.args) (i := index)
        (a := { newContext call.args[index] handle with decs := call.args[index].decs })
      rw [if_pos hlt] at hset
      have hargs : HandsArgs (.ident carrier.name) handle true
          (call.args.take index ++ call.args[index] :: call.args.drop (index + 1))
          (call.args.set index
            { newContext call.args[index] handle with decs := call.args[index].decs }) :=
        hset ▸ .context _ _ _
      refine {
        params := .inl ⟨rfl, rfl⟩
        callee := rfl
        spread := rfl
        closesLine := rfl
        args := by simpa using hargs
        reads := fun _ heq => ?_
        child := hchild
        balanced := fun hlength => by simpa using hlength
        imports := fun _ => rfl
        advises := fun _ => rfl
        shows := fun _ => .inl rfl }
      -- the new argument is such a call, and the old one is not
      have hnew := congrArg (fun call => (call.args[index]?).map isNewContext) heq
      simp [hlt, hbare.2] at hnew
      contradiction

theorem passNew_promises (hskips : SkipsGenerated info) (hmay : mayExtend = true) :
    Promises info carrier list call mayExtend handle (Carrier.passNew list call handle) := by
  unfold Carrier.passNew
  split
  · exact .nothing none fun _ h => by contradiction
  · next hlist =>
    simp only [Bool.or_eq_true, not_or, Bool.not_eq_true] at hlist
    obtain ⟨decs, hargs⟩ := call.args_addArg handle
    exact {
      params := .inr ⟨hmay, hlist.1, hlist.2, rfl, rfl⟩
      callee := rfl
      spread := rfl
      closesLine := rfl
      args := hargs ▸ .transaction call.args decs
      reads := fun _ => call.addArg_ne handle
      child := fun child hchild => by
        obtain rfl := Option.some.inj hchild
        exact hasParam_add hskips list
      balanced := fun hlength => by
        rw [Call.length_addArg, arity_add, hlength]
      imports := fun _ => rfl
      advises := fun _ => rfl
      shows := fun _ => .inl rfl }

theorem Carrier.pass_promises (hskips : SkipsGenerated info) (carrier : Carrier) (list : FieldList)
    (call : Call) (async mayExtend : Bool) (txn : Expr) :
    Promises info carrier list call mayExtend (if async then newGoroutine txn else txn)
      (carrier.pass info list call async mayExtend txn) := by
  unfold Carrier.pass
  dsimp only
  generalize (if async then newGoroutine txn else txn) = handle
  split
  · next index param hown =>
    split at hown
    · contradiction
    · exact passItself_promises hown
  · split
    · next index param hcontext => exact passContext_promises hcontext
    · split
      · next hmay => exact passNew_promises hskips hmay
      · exact .nothing none fun _ h => by contradiction

/-! ## Trials -/

/-- What a trial looks at. -/
def Passing.shows (passing : Passing) (call : Call) : Bool :=
  passing.child.isSome || passing.needsImport || passing.extended || passing.advisory.isSome ||
    passing.call.args.length != call.args.length

theorem Promises.shows_iff {passing : Passing}
    (h : Promises info carrier list call mayExtend handle passing) :
    passing.shows call = true ↔ passing.Reaches list call := by
  have hextended : passing.extended = true ↔ passing.params ≠ list := by
    obtain ⟨hparams, hextended⟩ | ⟨-, -, -, hextended, hparams⟩ := h.params
    · simp [hparams, hextended]
    · simp [hparams, hextended, list.add_ne]
  have hlength : passing.call.args.length ≠ call.args.length → passing.call ≠ call :=
    fun hne heq => hne (by rw [heq])
  have himports := fun h' => h.reads (h.imports h')
  have hadvises := fun h' => h.reads (h.advises h')
  have hshows := h.shows
  unfold Passing.shows Passing.Reaches
  simp only [Bool.or_eq_true, bne_iff_ne, hextended]
  tauto

/-- Which expression reads the transaction makes no difference to what a trial looks at. -/
theorem Carrier.shows_pass (carrier : Carrier) (async : Bool) (txn txn' : Expr) :
    (carrier.pass info list call async mayExtend txn).shows call =
      (carrier.pass info list call async mayExtend txn').shows call := by
  unfold Carrier.pass
  dsimp only
  split
  · unfold Carrier.passItself
    dsimp only
    split
    · split <;> simp [Passing.shows, Call.length_addArg]
    · rfl
  · split
    · unfold Carrier.passContext
      dsimp only
      split
      · rfl
      · split <;> simp [Passing.shows]
    · split
      · unfold Carrier.passNew
        split <;> rfl
      · rfl

/-- A trial tells whether passing reaches the callee. -/
theorem Carrier.wouldPass_iff (hskips : SkipsGenerated info) (carrier : Carrier) (txn : Expr) :
    carrier.wouldPass info list call mayExtend = true ↔
      (carrier.pass info list call false mayExtend txn).Reaches list call := by
  have hpromises := carrier.pass_promises hskips list call false mayExtend txn
  rw [← hpromises.shows_iff, carrier.shows_pass false txn (.ident carrier.name)]
  rfl

/-- Passing keeps its promises, and a trial foretells whether it reaches the callee. -/
theorem Carrier.pass_keepsPromises (hskips : SkipsGenerated info) (carrier : Carrier)
    (list : FieldList) (call : Call) (async mayExtend : Bool) (txn : Expr) :
    Promises info carrier list call mayExtend (if async then newGoroutine txn else txn)
        (carrier.pass info list call async mayExtend txn) ∧
      (carrier.wouldPass info list call mayExtend = true ↔
        (carrier.pass info list call false mayExtend txn).Reaches list call) :=
  ⟨carrier.pass_promises hskips list call async mayExtend txn, carrier.wouldPass_iff hskips txn⟩

end

/-- `(ctx context.Context, id int)` -/
def contextParams : FieldList where
  fields := [.single "ctx" (.qualified "context" "Context"), .single "id" (.ident "int")]

/-- `load(other, 7)` -/
def contextCall : Call where
  callee := .ident "load"
  args := [.ident "other", .literal "7"]

/-- Another context than the one at hand is wrapped, for a goroutine of its own. -/
theorem Carrier.pass_keepsPromises_context :
    SkipsGenerated {} ∧
      Promises {} (.context "ctx") contextParams contextCall true (newGoroutine (.ident "nrTxn"))
        ((Carrier.context "ctx").pass {} contextParams contextCall true true (.ident "nrTxn")) ∧
      ((Carrier.context "ctx").wouldPass {} contextParams contextCall true = true ↔
        ((Carrier.context "ctx").pass {} contextParams contextCall false true
          (.ident "nrTxn")).Reaches contextParams contextCall) :=
  ⟨skipsGenerated_empty,
    Carrier.pass_keepsPromises skipsGenerated_empty (.context "ctx") contextParams contextCall true
      true (.ident "nrTxn")⟩

end TraceWeave.Tracing
