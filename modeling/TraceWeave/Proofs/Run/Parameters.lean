import TraceWeave.Proofs.Run.Values
import TraceWeave.Proofs.Tracing.Literals

/-!
Go's rules for parameter lists across a whole run.

A list that gains a transaction obeys the rules behind it exactly if it did so before, has
names for its parameters, does not end in a variadic one and has no parameter of that name
yet (`FieldList.lawful_add_single_iff`).  A run extends only declarations that have names, but
spawned literals whether they have names or not; that the name is free is not looked at in
either case (`weave_extendsLists`).
-/

namespace TraceWeave.Syntax

open TraceWeave.Agent

/-! ## Go's rules -/

namespace FieldList

/-- The names of the parameters, the blank ones aside. -/
def names (list : FieldList) : List String :=
  ((list.params.filterMap (·.1)).filter (!·.isBlank)).map (·.name)

/-- All parameters have names or none has, no name comes twice, and only the last is variadic. -/
structure Lawful (list : FieldList) : Prop where
  uniform : (∀ param ∈ list.params, param.1.isSome) ∨ ∀ param ∈ list.params, param.1.isNone
  distinct : list.names.Nodup
  variadic : ∀ field ∈ list.fields.dropLast, field.variadic = false
  single : ∀ field ∈ list.fields, field.variadic = true → field.names.length ≤ 1

variable {list : FieldList}

/-- A field with one name adds one parameter. -/
theorem params_add_single (list : FieldList) (name : String) (type : Expr) :
    (list.add (.single name type)).params = list.params ++ [(some ⟨name, 0⟩, type)] := by
  unfold add params Field.single
  dsimp only
  split <;> simp

theorem names_add_single (list : FieldList) {name : String} (hblank : name ≠ "_") (type : Expr) :
    (list.add (.single name type)).names = list.names ++ [name] := by
  simp [names, params_add_single, Ident.isBlank, hblank]

theorem fields_add (list : FieldList) (field : Field) :
    ∃ decs, (list.add field).fields = list.fields ++ [{ field with decs }] := by
  unfold add
  dsimp only
  split
  · exact ⟨_, rfl⟩
  · obtain ⟨names, type, variadic, decs⟩ := field
    exact ⟨decs, rfl⟩

theorem none_mem_params {field : Field} (hfield : field ∈ list.fields) (hnames : field.names = []) :
    (none, field.type) ∈ list.params :=
  List.mem_flatMap.2 ⟨field, hfield, by simp [hnames]⟩

theorem some_mem_params {field : Field} (hfield : field ∈ list.fields) {name : Ident}
    (hname : name ∈ field.names) : (some name, field.type) ∈ list.params := by
  refine List.mem_flatMap.2 ⟨field, hfield, ?_⟩
  rw [if_neg (by simpa using List.ne_nil_of_mem hname)]
  exact List.mem_map.2 ⟨name, hname, rfl⟩

/-- Where all parameters have names or none has, none has exactly if they are unnamed. -/
theorem isUnnamed_eq_false_iff
    (huniform : (∀ param ∈ list.params, param.1.isSome) ∨ ∀ param ∈ list.params, param.1.isNone) :
    list.isUnnamed = false ↔ ∀ param ∈ list.params, param.1.isSome := by
  constructor
  · intro hnamed
    obtain hsome | hnone := huniform
    · exact hsome
    · -- a name would be one of a parameter, so that there is no field
      have hfields : list.fields = [] := by
        refine Decidable.byContradiction fun hfields => ?_
        have hall : list.fields.all (·.names.isEmpty) = true := by
          refine List.all_eq_true.2 fun field hfield => List.isEmpty_iff.2 ?_
          refine List.eq_nil_iff_forall_not_mem.2 fun name hname => ?_
          simpa using hnone _ (some_mem_params hfield hname)
        simp [isUnnamed, hall, hfields] at hnamed
      simp [params, hfields]
  · intro hsome
    refine Bool.eq_false_iff.2 fun hunnamed => ?_
    simp only [isUnnamed, Bool.and_eq_true, Bool.not_eq_true', List.all_eq_true,
      List.isEmpty_iff] at hunnamed
    obtain ⟨hfields, hall⟩ := hunnamed
    obtain ⟨field, hfield⟩ := List.exists_mem_of_ne_nil _ (List.isEmpty_eq_false_iff.1 hfields)
    simpa using hsome _ (none_mem_params hfield (hall field hfield))

/-- The last field aside, and the last field: no field is variadic. -/
theorem not_variadic_iff :
    (∀ field ∈ list.fields, field.variadic = false) ↔
      (∀ field ∈ list.fields.dropLast, field.variadic = false) ∧ list.isVariadic = false := by
  unfold isVariadic
  cases hfields : list.fields.reverse with
  | nil => simp_all
  | cons last front =>
      obtain hlist : list.fields = front.reverse ++ [last] := by
        rw [← List.reverse_reverse list.fields, hfields, List.reverse_cons]
      simp [hlist, or_imp, forall_and]

/-- A list that gains a parameter of one name. -/
theorem lawful_add_single_iff {name : String} (hblank : name ≠ "_") (type : Expr) :
    (list.add (.single name type)).Lawful ↔
      list.Lawful ∧ list.isVariadic = false ∧ list.isUnnamed = false ∧ name ∉ list.names := by
  have hparams := params_add_single list name type
  have hnames := names_add_single list hblank type
  obtain ⟨decs, hfields⟩ := fields_add list (.single name type)
  constructor
  · intro h
    have hsome : ∀ param ∈ list.params, param.1.isSome := by
      obtain hsome | hnone := h.uniform
      · exact fun param hmem => hsome param (by simp [hparams, hmem])
      · simpa using hnone (some ⟨name, 0⟩, type) (by simp [hparams])
    have hdistinct := h.distinct
    rw [hnames, List.nodup_append_comm, List.singleton_append, List.nodup_cons] at hdistinct
    have hvariadic : ∀ field ∈ list.fields, field.variadic = false := by
      simpa [hfields] using h.variadic
    obtain ⟨hfront, hlast⟩ := not_variadic_iff.1 hvariadic
    refine ⟨⟨.inl hsome, hdistinct.2, hfront, fun field hmem => ?_⟩, hlast,
      (isUnnamed_eq_false_iff (.inl hsome)).2 hsome, hdistinct.1⟩
    exact h.single field (by simp [hfields, hmem])
  · rintro ⟨h, hlast, hnamed, hfree⟩
    have hsome := (isUnnamed_eq_false_iff h.uniform).1 hnamed
    have hvariadic := not_variadic_iff.2 ⟨h.variadic, hlast⟩
    refine ⟨.inl ?_, ?_, ?_, ?_⟩
    · simpa [hparams, or_imp, forall_and] using hsome
    · rw [hnames, List.nodup_append_comm, List.singleton_append, List.nodup_cons]
      exact ⟨hfree, h.distinct⟩
    · simpa [hfields] using hvariadic
    · intro field hmem
      rw [hfields, List.mem_append, List.mem_singleton] at hmem
      obtain hmem | rfl := hmem
      · exact h.single field hmem
      · exact fun _ => Nat.le_refl 1

end FieldList

end TraceWeave.Syntax

namespace TraceWeave.Tracing

open TraceWeave.Agent TraceWeave.Detect TraceWeave.Program TraceWeave.Source TraceWeave.Syntax
  TraceWeave.Types

/-! ## Runs -/

/-- The parameter lists of the function literals in the body of a function. -/
def literalsOf (func : FuncDecl) : List FieldList :=
  (func.body.map fun body => literalLists (occurrencesOfStmts body.stmts)).getD []

theorem lawful_add_transaction_iff {list : FieldList} :
    (list.add (transactionParameter transactionVariable)).Lawful ↔
      list.Lawful ∧ list.isVariadic = false ∧ list.isUnnamed = false ∧
        transactionVariable ∉ list.names :=
  FieldList.lawful_add_single_iff (by decide) transactionType

/-- What a run makes of the parameter lists of a function, and when Go's rules hold of them. -/
structure ListsFollow (func func' : FuncDecl) : Prop where
  declared : func'.params = func.params ∨
    func'.params = func.params.add (transactionParameter transactionVariable) ∧
      (func'.params.Lawful ↔ func.params.Lawful ∧ transactionVariable ∉ func.params.names)
  literals : ∀ list' ∈ literalsOf func', ∃ list ∈ literalsOf func, list' = list ∨
    list' = list.add (transactionParameter transactionVariable) ∧
      (list'.Lawful ↔
        list.Lawful ∧ list.isUnnamed = false ∧ transactionVariable ∉ list.names)

theorem literals_follow {info : Info} {func func' : FuncDecl}
    (h : Option.Rel (fun body body' : Block =>
      Follows info (occurrencesOfStmts body.stmts) (occurrencesOfStmts body'.stmts))
      func.body func'.body) :
    ∀ list' ∈ literalsOf func', ∃ list ∈ literalsOf func, Gains info list list' := by
  unfold literalsOf
  generalize func.body = body at h ⊢
  generalize func'.body = body' at h ⊢
  cases h with
  | none => simp
  | some h => exact h

theorem Grows.paramsAt {app app' : Application} (h : Grows app app') {place : Place}
    {func func' : FuncDecl} (hfunc : app.funcAt? place = some func)
    (hfunc' : app'.funcAt? place = some func') :
    func'.params = func.params ∨ Admits app.types func.params ∧
      func'.params = func.params.add (transactionParameter transactionVariable) := by
  by_cases hextends : ∃ ref, app.place? ref = some place ∧ Extends app ref app'
  · obtain ⟨ref, hplace, hextends⟩ := hextends
    obtain ⟨func₀, hdeclared, hadmits, hparams⟩ := hextends.params
    have hplace' := (place?_of_outline h.outline ref).trans hplace
    rw [Application.func?_eq, hplace, Option.bind_some, hfunc] at hdeclared
    rw [params?_eq hplace', Application.paramsAt?, hfunc'] at hparams
    obtain rfl := Option.some.inj hdeclared
    exact .inr ⟨hadmits, Option.some.inj hparams⟩
  · have hparams := h.params place fun ref hplace href => hextends ⟨ref, hplace, href⟩
    simp only [Application.paramsAt?, hfunc, hfunc', Option.map_some, Option.some.injEq] at hparams
    exact .inl hparams

/--
A run leaves a parameter list alone or adds one transaction to it.  A list of a declaration
that obeys the rules obeys them behind it unless it has a parameter of that name; a list of
a literal may also break them for having no names.
-/
theorem weave_extendsLists (origin : Origin) (hskips : SkipsGenerated origin.types)
    (place : Place) :
    Option.Rel ListsFollow (origin.app.funcAt? place)
      ((weave.run origin.app).2.funcAt? place) := by
  have hturns := run_turns origin
  have hdiffer := origin.coherent_app.placesDiffer
  have hbodies := Turns.bodies (literals_withstand hskips) (fun _ => .refl) hdiffer rfl hturns place
  have hparams := @Grows.paramsAt _ _ (hturns.grows hdiffer) place
  generalize origin.app.funcAt? place = before at hbodies hparams ⊢
  generalize (weave.run origin.app).2.funcAt? place = after at hbodies hparams ⊢
  cases hbodies with
  | none => exact .none
  | some hbody =>
      refine .some ⟨?_, fun list' hmem => ?_⟩
      · obtain hsame | ⟨hadmits, hadd⟩ := hparams rfl rfl
        · exact .inl hsame
        · refine .inr ⟨hadd, ?_⟩
          rw [hadd, lawful_add_transaction_iff]
          simp [hadmits.notVariadic, hadmits.named]
      · obtain ⟨list, hlist, hsame | ⟨hvariadic, -, hadd⟩⟩ := literals_follow hbody list' hmem
        · exact ⟨list, hlist, .inl hsame⟩
        · refine ⟨list, hlist, .inr ⟨hadd, ?_⟩⟩
          rw [hadd, lawful_add_transaction_iff]
          simp [hvariadic]

theorem weave_extendsLists_valueOrigin :
    SkipsGenerated valueOrigin.types ∧
      Option.Rel ListsFollow (valueOrigin.app.funcAt? ⟨"app", 0, 1⟩)
        ((weave.run valueOrigin.app).2.funcAt? ⟨"app", 0, 1⟩) :=
  ⟨skipsGenerated_valueOrigin,
    weave_extendsLists valueOrigin skipsGenerated_valueOrigin ⟨"app", 0, 1⟩⟩

end TraceWeave.Tracing
